import Mathlib.Data.List.Basic

namespace PayrollAgent.Lib

/-- Where each element carries the key it was collected for, the elements of
one key are what the collection says of that key. -/
theorem filter_flatMap_of_tag {κ β : Type} [DecidableEq κ] {keys : List κ} (hkeys : keys.Nodup)
    {g : κ → List β} {tag : β → Option κ} (htag : ∀ k, ∀ b ∈ g k, tag b = some k) (k : κ) :
    (keys.flatMap g).filter (fun b => tag b = some k) = if k ∈ keys then g k else [] := by
  induction keys with
  | nil => rfl
  | cons j rest ih =>
      obtain ⟨hfresh, hrest⟩ := List.nodup_cons.mp hkeys
      rw [List.flatMap_cons, List.filter_append, ih hrest]
      by_cases hk : k = j
      · subst hk
        have hall : (g k).filter (fun b => tag b = some k) = g k := by
          rw [List.filter_eq_self]
          intro b hb
          simp [htag k b hb]
        simp [hall, hfresh]
      · have hnone : (g j).filter (fun b => tag b = some k) = [] := by
          rw [List.filter_eq_nil_iff]
          intro b hb
          simp [htag j b hb, Ne.symm hk]
        simp [hnone, hk]

end PayrollAgent.Lib
