import Mathlib.Order.Monotone.Basic
import Mathlib.Tactic.Ring

namespace PayrollAgent.Lib.Calendar

/-- January 1st of a year as a proleptic ordinal. Day 0 comes before year 1. -/
def firstOfYear : Nat → Nat
  | 0 => 0
  | n + 1 => n * 365 + n / 4 - n / 100 + n / 400 + 1

/-- The year of an ordinal, through the cycles of 400, 100, 4 and 1 years. The
last day of a leap year falls one year too far. -/
def yearOf : Nat → Nat
  | 0 => 0
  | n + 1 =>
      let n100 := n % 146097 / 36524
      let n4 := n % 146097 % 36524 / 1461
      let n1 := n % 146097 % 36524 % 1461 / 365
      let year := n / 146097 * 400 + n100 * 100 + n4 * 4 + n1 + 1
      if n1 = 4 ∨ n100 = 4 then year - 1 else year

/-- `date_trunc('year', d)`. -/
def dateTruncYear (d : Nat) : Nat := firstOfYear (yearOf d)

/-- The cycles of an ordinal: all but the last day of a leap year leave whole
years behind. -/
theorem cycles (n : Nat) : ∃ q c f o r, n = q * 146097 + c * 36524 + f * 1461 + o * 365 + r ∧
    c ≤ 3 ∧ f ≤ 24 ∧ o ≤ 3 ∧ r ≤ 365 ∧ (r = 365 → o = 3 ∧ (f < 24 ∨ c = 3)) ∧
      yearOf (n + 1) = q * 400 + c * 100 + f * 4 + o + 1 := by
  have hq := Nat.div_add_mod n 146097
  have hc := Nat.div_add_mod (n % 146097) 36524
  have hf := Nat.div_add_mod (n % 146097 % 36524) 1461
  have ho := Nat.div_add_mod (n % 146097 % 36524 % 1461) 365
  have hqlt := Nat.mod_lt n (by omega : 146097 > 0)
  have hclt := Nat.mod_lt (n % 146097) (by omega : 36524 > 0)
  have hflt := Nat.mod_lt (n % 146097 % 36524) (by omega : 1461 > 0)
  have holt := Nat.mod_lt (n % 146097 % 36524 % 1461) (by omega : 365 > 0)
  simp only [yearOf]
  generalize n % 146097 % 36524 % 1461 % 365 = r at ho holt
  generalize n % 146097 % 36524 % 1461 / 365 = o at ho ⊢
  generalize n % 146097 % 36524 % 1461 = u at ho hf hflt
  generalize n % 146097 % 36524 / 1461 = f at hf ⊢
  generalize n % 146097 % 36524 = v at hf hc hclt
  generalize n % 146097 / 36524 = c at hc ⊢
  generalize n % 146097 = w at hc hq hqlt
  generalize n / 146097 = q at hq ⊢
  by_cases hlast : o = 4 ∨ c = 4
  · rw [if_pos hlast]
    by_cases hc4 : c = 4
    · exact ⟨q, 3, 24, 3, 365, by omega, by omega, by omega, by omega, by omega, by omega, by omega⟩
    · exact ⟨q, c, f, 3, 365, by omega, by omega, by omega, by omega, by omega, by omega, by omega⟩
  · rw [if_neg hlast]
    exact ⟨q, c, f, o, r, by omega, by omega, by omega, by omega, by omega, by omega, rfl⟩

theorem firstOfYear_cycles {q c f o : Nat} (hc : c ≤ 3) (hf : f ≤ 24) (ho : o ≤ 3) :
    firstOfYear (q * 400 + c * 100 + f * 4 + o + 1) = q * 146097 + c * 36524 + f * 1461 +
    o * 365 + 1 := by
  have h4 : (q * 400 + c * 100 + f * 4 + o) / 4 = q * 100 + c * 25 + f := by omega
  have h100 : (q * 400 + c * 100 + f * 4 + o) / 100 = q * 4 + c := by omega
  have h400 : (q * 400 + c * 100 + f * 4 + o) / 400 = q := by omega
  rw [firstOfYear, h4, h100, h400]
  omega

theorem dateTruncYear_le (d : Nat) : dateTruncYear d ≤ d := by
  cases d with
  | zero => exact Nat.le_refl 0
  | succ n =>
      obtain ⟨q, c, f, o, r, hn, hc, hf, ho, -, -, hyear⟩ := cycles n
      rw [dateTruncYear, hyear, firstOfYear_cycles hc hf ho]
      omega

theorem lt_firstOfYear_succ (d : Nat) : d < firstOfYear (yearOf d + 1) := by
  cases d with
  | zero => decide
  | succ n =>
      obtain ⟨q, c, f, o, r, hn, hc, hf, ho, hr, hleap, hyear⟩ := cycles n
      rw [hyear]
      -- the year after the last of a cycle is the first of the next
      by_cases ho3 : o = 3
      · subst ho3
        by_cases hf24 : f = 24
        · subst hf24
          by_cases hc3 : c = 3
          · subst hc3
            have hnext := firstOfYear_cycles (q := q + 1) (c := 0) (f := 0) (o := 0) (by omega) (by omega)
              (by omega)
            rw [show q * 400 + 3 * 100 + 24 * 4 + 3 + 1 + 1 = (q + 1) * 400 + 0 * 100 + 0 * 4 + 0 +
              1 by ring, hnext]
            omega
          · have hnext := firstOfYear_cycles (q := q) (c := c + 1) (f := 0) (o := 0) (by omega) (by omega)
              (by omega)
            rw [show q * 400 + c * 100 + 24 * 4 + 3 + 1 + 1 = q * 400 + (c + 1) * 100 + 0 * 4 + 0 +
              1 by ring, hnext]
            omega
        · have hnext := firstOfYear_cycles (q := q) (c := c) (f := f + 1) (o := 0) (by omega) (by omega)
            (by omega)
          rw [show q * 400 + c * 100 + f * 4 + 3 + 1 + 1 = q * 400 + c * 100 + (f + 1) * 4 + 0 +
            1 by ring, hnext]
          omega
      · have hnext := firstOfYear_cycles (q := q) (c := c) (f := f) (o := o + 1) (by omega) (by omega)
          (by omega)
        rw [show q * 400 + c * 100 + f * 4 + o + 1 + 1 = q * 400 + c * 100 + f * 4 + (o + 1) + 1 by
          ring, hnext]
        omega

theorem firstOfYear_mono {y z : Nat} (h : y ≤ z) : firstOfYear y ≤ firstOfYear z := by
  have hstep : ∀ n, firstOfYear n ≤ firstOfYear (n + 1) := by
    intro n
    cases n with
    | zero => decide
    | succ m =>
        simp only [firstOfYear]
        omega
  exact monotone_nat_of_le_succ hstep h

/-- A day is on or after the start of `t`'s year exactly when its year is not
an earlier one. -/
theorem dateTruncYear_le_iff (t d : Nat) : dateTruncYear t ≤ d ↔ yearOf t ≤ yearOf d := by
  constructor
  · intro h
    by_contra hnot
    have hmono : firstOfYear (yearOf d + 1) ≤ firstOfYear (yearOf t) :=
      firstOfYear_mono (Nat.succ_le_of_lt (not_le.mp hnot))
    have hlt := lt_firstOfYear_succ d
    rw [dateTruncYear] at h
    omega
  · intro h
    have hmono := firstOfYear_mono h
    have hle := dateTruncYear_le d
    rw [dateTruncYear] at hle ⊢
    omega

example : yearOf 739792 = 2026 ∧ dateTruncYear 739792 = 739617 := by decide

end PayrollAgent.Lib.Calendar
