import Mathlib.Data.List.Sort

namespace PayrollAgent.Lib

variable {α : Type} {key : α → Nat} {n : Nat} {l : List α} {x : α}

/-- ORDER BY the key DESC LIMIT `n`. -/
def newest (key : α → Nat) (n : Nat) (l : List α) : List α :=
  (l.insertionSort fun x y => key y ≤ key x).take n

/-- A member of a falling list is among the first `n` where fewer than `n` are above it. -/
theorem mem_take_of_falling (h : l.Pairwise fun x y => key y < key x) :
    x ∈ l.take n ↔ x ∈ l ∧ (l.filter fun y => key x < key y).length < n := by
  induction l generalizing n with
  | nil => simp
  | cons y l ih =>
      obtain ⟨hbelow, hl⟩ := List.pairwise_cons.mp h
      cases n with
      | zero => simp
      | succ n =>
          rw [List.take_succ_cons, List.mem_cons, ih hl, List.mem_cons]
          by_cases hx : x = y
          · subst hx
            have hnone : (x :: l).filter (fun y => key x < key y) = [] := by
              rw [List.filter_eq_nil_iff]
              intro z hz
              rcases List.mem_cons.mp hz with rfl | hz
              · simp
              · have hlt := hbelow z hz
                simp only [decide_eq_true_eq]
                omega
            simp [hnone]
          · simp only [hx, false_or, List.filter_cons]
            constructor
            · rintro ⟨hmem, hcount⟩
              refine ⟨hmem, ?_⟩
              rw [if_pos (decide_eq_true (hbelow x hmem)), List.length_cons]
              omega
            · rintro ⟨hmem, hcount⟩
              rw [if_pos (decide_eq_true (hbelow x hmem)), List.length_cons] at hcount
              exact ⟨hmem, by omega⟩

/-- What is shown is what has fewer than `n` newer rows. -/
theorem mem_newest (hkeys : (l.map key).Nodup) :
    x ∈ newest key n l ↔ x ∈ l ∧ (l.filter fun y => key x < key y).length < n := by
  have hperm := List.perm_insertionSort (fun x y => key y ≤ key x) l
  have hle : (l.insertionSort fun x y => key y ≤ key x).Pairwise fun x y => key y ≤ key x := by
    have : Std.Total fun x y : α => key y ≤ key x := ⟨fun x y => Nat.le_total _ _⟩
    have : IsTrans α fun x y => key y ≤ key x := ⟨fun x y z hxy hyz => hyz.trans hxy⟩
    exact List.pairwise_insertionSort _ l
  have hne := List.pairwise_map.mp ((hperm.map key).nodup_iff.mpr hkeys)
  have hfalling := (hle.and hne).imp fun h => lt_of_le_of_ne h.1 h.2.symm
  rw [newest, mem_take_of_falling hfalling, hperm.mem_iff, (hperm.filter _).length_eq]

end PayrollAgent.Lib
