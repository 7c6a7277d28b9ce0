import Mathlib.Data.Rat.Floor
import Mathlib.Tactic.Ring
import Mathlib.Tactic.FieldSimp
import Mathlib.Tactic.Linarith

namespace PayrollAgent.Money

/-- Round to cents, halves away from zero (`ROUND_HALF_UP`). Amounts are exact
rationals: the 28-digit decimal context is not modelled. -/
def money (v : ℚ) : ℚ :=
  if 0 ≤ v then (⌊v * 100 + 1 / 2⌋ : ℚ) / 100 else -((⌊-v * 100 + 1 / 2⌋ : ℚ) / 100)

def IsCents (v : ℚ) : Prop := ∃ n : ℤ, v = n / 100

theorem floor_half (n : ℤ) : ⌊(n : ℚ) + 1 / 2⌋ = n := by
  rw [Int.floor_intCast_add]
  have hhalf : ⌊(1 / 2 : ℚ)⌋ = 0 := by
    rw [Int.floor_eq_iff]
    norm_num
  rw [hhalf, add_zero]

theorem money_of_isCents {v : ℚ} (h : IsCents v) : money v = v := by
  obtain ⟨n, rfl⟩ := h
  unfold money
  split
  · rw [div_mul_cancel₀ _ (by norm_num : (100 : ℚ) ≠ 0), floor_half]
  · have he : -((n : ℚ) / 100) * 100 = ((-n : ℤ) : ℚ) := by
      push_cast
      ring
    rw [he, floor_half]
    push_cast
    ring

theorem isCents_money (v : ℚ) : IsCents (money v) := by
  unfold money
  split
  · exact ⟨_, rfl⟩
  · exact ⟨-⌊-v * 100 + 1 / 2⌋, by push_cast; ring⟩

theorem money_near (v : ℚ) : v - 1 / 200 ≤ money v ∧ money v ≤ v + 1 / 200 := by
  unfold money
  split
  · have hle := Int.floor_le (v * 100 + 1 / 2)
    have hlt := Int.lt_floor_add_one (v * 100 + 1 / 2)
    constructor
    · linarith
    · linarith
  · have hle := Int.floor_le (-v * 100 + 1 / 2)
    have hlt := Int.lt_floor_add_one (-v * 100 + 1 / 2)
    constructor
    · linarith
    · linarith

theorem isCents_zero : IsCents 0 := ⟨0, by simp⟩

theorem IsCents.sub {v w : ℚ} (hv : IsCents v) (hw : IsCents w) : IsCents (v - w) := by
  obtain ⟨m, rfl⟩ := hv
  obtain ⟨n, rfl⟩ := hw
  exact ⟨m - n, by push_cast; ring⟩

theorem IsCents.max {v w : ℚ} (hv : IsCents v) (hw : IsCents w) : IsCents (max v w) := by
  rcases max_choice v w with h | h <;> rw [h] <;> assumption

theorem IsCents.add {v w : ℚ} (hv : IsCents v) (hw : IsCents w) : IsCents (v + w) := by
  obtain ⟨m, rfl⟩ := hv
  obtain ⟨n, rfl⟩ := hw
  exact ⟨m + n, by push_cast; ring⟩

theorem IsCents.mul_natCast {v : ℚ} (hv : IsCents v) (n : ℕ) : IsCents (v * n) := by
  obtain ⟨m, rfl⟩ := hv
  exact ⟨m * n, by push_cast; ring⟩

theorem money_of_nonneg {v : ℚ} (h : 0 ≤ v) : money v = (⌊v * 100 + 1 / 2⌋ : ℚ) / 100 := if_pos h

theorem lt_money_add {v : ℚ} (h : 0 ≤ v) : v < money v + 1 / 200 := by
  rw [money_of_nonneg h]
  have hlt := Int.lt_floor_add_one (v * 100 + 1 / 2)
  linarith

theorem money_nonneg {v : ℚ} (h : 0 ≤ v) : 0 ≤ money v := by
  rw [money_of_nonneg h]
  have hfloor : (0 : ℤ) ≤ ⌊v * 100 + 1 / 2⌋ := Int.floor_nonneg.mpr (by linarith)
  have hcast : (0 : ℚ) ≤ (⌊v * 100 + 1 / 2⌋ : ℤ) := by exact_mod_cast hfloor
  linarith

theorem money_mono {v w : ℚ} (hv : 0 ≤ v) (h : v ≤ w) : money v ≤ money w := by
  rw [money_of_nonneg hv, money_of_nonneg (hv.trans h)]
  have hfloor : ⌊v * 100 + 1 / 2⌋ ≤ ⌊w * 100 + 1 / 2⌋ := Int.floor_le_floor (by linarith)
  have hcast : (⌊v * 100 + 1 / 2⌋ : ℚ) ≤ (⌊w * 100 + 1 / 2⌋ : ℤ) := by exact_mod_cast hfloor
  linarith

theorem money_add {c v : ℚ} (hc : IsCents c) (hpos : 0 ≤ c) (hv : 0 ≤ v) :
    money (c + v) = c + money v := by
  obtain ⟨n, rfl⟩ := hc
  rw [money_of_nonneg hv, money_of_nonneg (by linarith)]
  have hshift : ((n : ℚ) / 100 + v) * 100 + 1 / 2 = (v * 100 + 1 / 2) + (n : ℤ) := by
    ring
  rw [hshift, Int.floor_add_intCast]
  push_cast
  ring

/-- An amount rounds to at most `c` when it stays half a cent under the next. -/
theorem money_le_iff {c v : ℚ} (hc : IsCents c) (hv : 0 ≤ v) : money v ≤ c ↔ v < c + 1 / 200 := by
  constructor
  · intro h
    have hlt := lt_money_add hv
    linarith
  · intro h
    obtain ⟨n, rfl⟩ := hc
    rw [money_of_nonneg hv]
    have hfloor : ⌊v * 100 + 1 / 2⌋ ≤ n := by
      have hlt : ⌊v * 100 + 1 / 2⌋ < n + 1 := by
        rw [Int.floor_lt]
        push_cast
        linarith
      omega
    have hcast : (⌊v * 100 + 1 / 2⌋ : ℚ) ≤ (n : ℤ) := by exact_mod_cast hfloor
    linarith

theorem IsCents.le_of_lt_add {v w : ℚ} (hv : IsCents v) (hw : IsCents w) (h : v < w + 1 / 100) :
    v ≤ w := by
  obtain ⟨m, rfl⟩ := hv
  obtain ⟨n, rfl⟩ := hw
  have hlt : (m : ℚ) < (n + 1 : ℤ) := by
    push_cast
    linarith
  have hle : m ≤ n := by
    have hint : m < n + 1 := by exact_mod_cast hlt
    omega
  have hcast : (m : ℚ) ≤ (n : ℚ) := by exact_mod_cast hle
  linarith

theorem isCents_cent : IsCents (1 / 100) := ⟨1, by norm_num⟩

theorem IsCents.add_cent_le {v w : ℚ} (hv : IsCents v) (hw : IsCents w) (h : v < w) : v + 1 / 100 ≤ w :=
  (hv.add isCents_cent).le_of_lt_add hw (by linarith)

end PayrollAgent.Money
