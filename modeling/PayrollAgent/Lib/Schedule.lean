import Mathlib.Algebra.Order.Field.Basic
import Mathlib.Data.List.Pairwise
import Mathlib.Tactic.Linarith
import Mathlib.Tactic.Ring

namespace PayrollAgent.Lib.Schedule

variable {K : Type} [Field K] [LinearOrder K] [IsStrictOrderedRing K]

/-- One row of a rate schedule: from `lower` on, `base` and `rate` on the excess. -/
structure Row (K : Type) where
  lower : K
  base : K
  rate : K

def Row.value (r : Row K) (a : K) : K := r.base + (a - r.lower) * r.rate

/-- How far the next row starts off the value this one ends with. -/
def Row.seam (r s : Row K) : K := s.base - r.value s.lower

def rowAt (r : Row K) : List (Row K) → K → Row K
  | [], _ => r
  | s :: rest, a => if s.lower ≤ a then rowAt s rest a else r

def charge (r : Row K) (rows : List (Row K)) (a : K) : K := (rowAt r rows a).value a

def jumps (r : Row K) : List (Row K) → K → K → K
  | [], _, _ => 0
  | s :: rest, a, b => (if a < s.lower ∧ s.lower ≤ b then r.seam s else 0) + jumps s rest a b

def Ascending (rows : List (Row K)) : Prop := rows.Pairwise fun r s => r.lower < s.lower

variable {r s : Row K} {rows rest : List (Row K)} {a b lo hi : K}

omit [Field K] [IsStrictOrderedRing K] in
theorem rowAt_mem (r : Row K) (rows : List (Row K)) (a : K) : rowAt r rows a ∈ r :: rows := by
  induction rows generalizing r with
  | nil => simp [rowAt]
  | cons s rest ih =>
      rw [rowAt]
      split
      · exact List.mem_cons_of_mem _ (ih s)
      · simp

omit [Field K] [IsStrictOrderedRing K] in
theorem rowAt_lower_le (h : r.lower ≤ a) : (rowAt r rows a).lower ≤ a := by
  induction rows generalizing r with
  | nil => exact h
  | cons s rest ih =>
      rw [rowAt]
      split
      case isTrue hs => exact ih hs
      case isFalse => exact h

omit [IsStrictOrderedRing K] in
theorem jumps_eq_zero (h : ∀ s ∈ rows, b < s.lower) : jumps r rows a b = 0 := by
  induction rows generalizing r with
  | nil => rfl
  | cons s rest ih =>
      have hs : ¬ s.lower ≤ b := not_le.mpr (h s (by simp))
      rw [jumps, if_neg fun hboth => hs hboth.2, ih fun t ht => h t (by simp [ht]), add_zero]

omit [IsStrictOrderedRing K] in
/-- The seams above `b` do not depend on where the amounts start below it. -/
theorem jumps_congr (h : ∀ s ∈ rows, a < s.lower ↔ lo < s.lower) :
    jumps r rows a b = jumps r rows lo b := by
  induction rows generalizing r with
  | nil => rfl
  | cons s rest ih =>
      rw [jumps, jumps, ih fun t ht => h t (by simp [ht])]
      simp only [h s (by simp)]

omit [IsStrictOrderedRing K] in
theorem jumps_of_continuous (h : List.IsChain (fun r s => r.seam s = 0) (r :: rows)) :
    jumps r rows a b = 0 := by
  induction rows generalizing r with
  | nil => rfl
  | cons s rest ih =>
      rw [List.isChain_cons_cons] at h
      rw [jumps, ih h.2, h.1]
      simp

omit [IsStrictOrderedRing K] in
theorem charge_append {before : List (Row K)} (h : Ascending (before ++ s :: rest)) (hs : s.lower ≤ a) :
    charge r (before ++ s :: rest) a = charge s rest a := by
  induction before generalizing r with
  | nil =>
      rw [List.nil_append, charge, rowAt, if_pos hs]
      rfl
  | cons t more ih =>
      obtain ⟨hfirst, hmore⟩ := List.pairwise_cons.mp h
      have ht : t.lower ≤ a := (hfirst s (by simp)).le.trans hs
      rw [List.cons_append, charge, rowAt, if_pos ht]
      exact ih hmore

/-- Between two amounts the charge grows by the rates in between and the seams. -/
theorem charge_growth (hrows : Ascending (r :: rows)) (hlo : ∀ s ∈ r :: rows, lo ≤ s.rate)
    (hhi : ∀ s ∈ r :: rows, s.rate ≤ hi) (ha : r.lower ≤ a) (hab : a ≤ b) :
    lo * (b - a) + jumps r rows a b ≤ charge r rows b - charge r rows a ∧
      charge r rows b - charge r rows a ≤ hi * (b - a) + jumps r rows a b := by
  induction rows generalizing r a with
  | nil =>
      have hdiff : charge r [] b - charge r [] a = r.rate * (b - a) := by
        simp only [charge, rowAt, Row.value]
        ring
      have hlow := mul_le_mul_of_nonneg_right (hlo r (by simp)) (sub_nonneg.mpr hab)
      have hhigh := mul_le_mul_of_nonneg_right (hhi r (by simp)) (sub_nonneg.mpr hab)
      rw [hdiff, jumps, add_zero, add_zero]
      exact ⟨hlow, hhigh⟩
  | cons s rest ih =>
      obtain ⟨hfirst, hrest⟩ := List.pairwise_cons.mp hrows
      have habove := (List.pairwise_cons.mp hrest).1
      have hlo' : ∀ t ∈ s :: rest, lo ≤ t.rate := fun t ht => hlo t (List.mem_cons_of_mem _ ht)
      have hhi' : ∀ t ∈ s :: rest, t.rate ≤ hi := fun t ht => hhi t (List.mem_cons_of_mem _ ht)
      by_cases hsa : s.lower ≤ a
      · have hcharge : ∀ c, s.lower ≤ c → charge r (s :: rest) c = charge s rest c := by
          intro c hc
          rw [charge, rowAt, if_pos hc]
          rfl
        rw [hcharge a hsa, hcharge b (hsa.trans hab), jumps, if_neg fun h => not_lt.mpr hsa h.1, zero_add]
        exact ih hrest hlo' hhi' hsa hab
      · have hra : charge r (s :: rest) a = r.value a := by
          rw [charge, rowAt, if_neg hsa]
        by_cases hsb : s.lower ≤ b
        · -- the row of `a` up to the seam, the rest of the schedule from there on
          obtain ⟨hlow, hhigh⟩ := ih hrest hlo' hhi' le_rfl hsb
          have hsame : jumps s rest s.lower b = jumps s rest a b := by
            apply jumps_congr
            intro t ht
            have hst := habove t ht
            exact ⟨fun _ => (not_le.mp hsa).trans hst, fun _ => hst⟩
          have hstart : charge s rest s.lower = r.value s.lower + r.seam s := by
            have hrow : rowAt s rest s.lower = s := by
              cases rest with
              | nil => rfl
              | cons t more => rw [rowAt, if_neg (not_le.mpr (habove t (by simp)))]
            rw [charge, hrow, Row.seam, Row.value]
            ring
          have hrb : charge r (s :: rest) b = charge s rest b := by
            rw [charge, rowAt, if_pos hsb]
            rfl
          have hpart : r.value s.lower - r.value a = r.rate * (s.lower - a) := by
            simp only [Row.value]
            ring
          have hgap : 0 ≤ s.lower - a := sub_nonneg.mpr (not_le.mp hsa).le
          have hrlow := mul_le_mul_of_nonneg_right (hlo r (by simp)) hgap
          have hrhigh := mul_le_mul_of_nonneg_right (hhi r (by simp)) hgap
          rw [hsame] at hlow hhigh
          rw [hra, hrb, jumps, if_pos ⟨not_le.mp hsa, hsb⟩]
          constructor
          · linarith
          · linarith
        · have hrb : charge r (s :: rest) b = r.value b := by
            rw [charge, rowAt, if_neg hsb]
          have hnone : jumps r (s :: rest) a b = 0 := by
            apply jumps_eq_zero
            intro t ht
            obtain rfl | ht := List.mem_cons.mp ht
            · exact not_le.mp hsb
            · exact (not_le.mp hsb).trans (habove t ht)
          have hdiff : r.value b - r.value a = r.rate * (b - a) := by
            simp only [Row.value]
            ring
          have hlow := mul_le_mul_of_nonneg_right (hlo r (by simp)) (sub_nonneg.mpr hab)
          have hhigh := mul_le_mul_of_nonneg_right (hhi r (by simp)) (sub_nonneg.mpr hab)
          rw [hra, hrb, hnone, hdiff, add_zero, add_zero]
          exact ⟨hlow, hhigh⟩

end PayrollAgent.Lib.Schedule
