import Mathlib.Data.List.Basic

namespace PayrollAgent.Lib.History

variable {N : Type}

/-- Some note satisfies `q` together with the notes before it, and every newer
one satisfies `p`. The newest note comes first. -/
def since (p : N → Bool) (q : N → List N → Bool) : List N → Bool
  | [] => false
  | n :: older => q n older || (p n && since p q older)

/-- Every note satisfies `P` together with the notes before it. -/
def Each (P : N → List N → Prop) (log : List N) : Prop :=
  ∀ newer n older, log = newer ++ n :: older → P n older

variable {p : N → Bool} {q : N → List N → Bool} {P : N → List N → Prop} {n : N} {ns log : List N}

theorem since_iff : since p q log = true ↔
    ∃ newer n older, log = newer ++ n :: older ∧ q n older = true ∧ ∀ m ∈ newer, p m = true := by
  induction log with
  | nil => simp [since]
  | cons m log ih =>
      rw [since, Bool.or_eq_true, Bool.and_eq_true, ih]
      constructor
      · rintro (hq | ⟨hp, newer, n, older, rfl, hq, hnewer⟩)
        · exact ⟨[], m, log, rfl, hq, nofun⟩
        · exact ⟨m :: newer, n, older, rfl, hq, List.forall_mem_cons.mpr ⟨hp, hnewer⟩⟩
      · rintro ⟨newer, n, older, hlog, hq, hnewer⟩
        cases newer with
        | nil =>
            obtain ⟨rfl, rfl⟩ := List.cons.inj hlog
            exact .inl hq
        | cons m' newer =>
            obtain ⟨rfl, rfl⟩ := List.cons.inj hlog
            obtain ⟨hp, hnewer⟩ := List.forall_mem_cons.mp hnewer
            exact .inr ⟨hp, newer, n, older, rfl, hq, hnewer⟩

theorem since_append (hns : ∀ n ∈ ns, p n = true) (h : since p q log = true) :
    since p q (ns ++ log) = true := by
  obtain ⟨newer, n, older, rfl, hq, hnewer⟩ := since_iff.mp h
  refine since_iff.mpr ⟨ns ++ newer, n, older, by rw [List.append_assoc], hq, fun m hm => ?_⟩
  exact (List.mem_append.mp hm).elim (hns m) (hnewer m)

/-- Notes that do not satisfy `q` leave it to the older ones. -/
theorem since_of_append (hns : ∀ n ∈ ns, ∀ older, q n older = false)
    (h : since p q (ns ++ log) = true) : since p q log = true := by
  induction ns with
  | nil => exact h
  | cons n ns ih =>
      obtain ⟨hn, hns⟩ := List.forall_mem_cons.mp hns
      rw [List.cons_append, since, hn, Bool.false_or, Bool.and_eq_true] at h
      exact ih hns h.2

theorem since_cons_of (hq : q n log = true) : since p q (n :: log) = true := by
  rw [since, hq]
  rfl

theorem since_cons_of_not (hp : p n = false) (hq : q n log = false) : since p q (n :: log) = false := by
  rw [since, hp, hq]
  rfl

theorem each_nil : Each P [] := by
  intro newer n older h
  simp at h

theorem Each.of_drop {k : Nat} {older : List N} (h : Each P log) (hk : log.drop k = n :: older) :
    P n older :=
  h (log.take k) n older (by rw [← hk, List.take_append_drop])

theorem Each.cons (hn : P n log) (h : Each P log) : Each P (n :: log) := by
  intro newer m older heq
  cases newer with
  | nil =>
      obtain ⟨rfl, rfl⟩ := List.cons.inj heq
      exact hn
  | cons m' newer =>
      obtain ⟨rfl, rfl⟩ := List.cons.inj heq
      exact h newer m older rfl

/-- Two notes of a history that no pair of its notes is like are one note. -/
theorem split_unique {R : N → N → Prop} {newer older newer' older' : List N} {n' : N} (h : log.Pairwise R)
    (hlog : log = newer ++ n :: older) (hlog' : log = newer' ++ n' :: older') (hne : ¬ R n n')
    (hne' : ¬ R n' n) : newer = newer' ∧ n = n' ∧ older = older' := by
  have hapart : ∀ {newer older : List N} {m m' : N}, log = newer ++ m :: older → m' ∈ older → R m m' := by
    intro newer older m m' hlog hm'
    rw [hlog] at h
    exact (List.pairwise_cons.mp (List.pairwise_append.mp h).2.1).1 m' hm'
  rcases List.append_eq_append_iff.mp (hlog.symm.trans hlog') with ⟨as, rfl, has⟩ | ⟨as, rfl, has⟩
  · cases as with
    | nil =>
        obtain ⟨rfl, rfl⟩ := List.cons.inj has
        exact ⟨(List.append_nil _).symm, rfl, rfl⟩
    | cons a as =>
        obtain ⟨rfl, rfl⟩ := List.cons.inj has
        exact absurd (hapart hlog (List.mem_append_right _ (List.mem_cons_self ..))) hne
  · cases as with
    | nil =>
        obtain ⟨rfl, rfl⟩ := List.cons.inj has
        exact ⟨List.append_nil _, rfl, rfl⟩
    | cons a as =>
        obtain ⟨rfl, rfl⟩ := List.cons.inj has
        exact absurd (hapart hlog' (List.mem_append_right _ (List.mem_cons_self ..))) hne'

theorem Each.append (h : Each P log) (hone : ns.length ≤ 1) (hns : ∀ n ∈ ns, P n log) :
    Each P (ns ++ log) := by
  match ns, hone with
  | [], _ => exact h
  | [n], _ => exact h.cons (hns n (List.mem_singleton.mpr rfl))

/-- A note of a longer history is the new one or one of the older history. -/
theorem split_append {newer older : List N} (hone : ns.length ≤ 1) (h : ns ++ log = newer ++ n :: older) :
    (newer = [] ∧ ns = [n]) ∨ ∃ middle, newer = ns ++ middle ∧ log = middle ++ n :: older := by
  match ns, hone with
  | [], _ => exact .inr ⟨newer, rfl, h⟩
  | [m], _ =>
      cases newer with
      | nil =>
          obtain ⟨rfl, -⟩ := List.cons.inj h
          exact .inl ⟨rfl, rfl⟩
      | cons m' newer =>
          obtain ⟨rfl, hlog⟩ := List.cons.inj h
          exact .inr ⟨newer, rfl, hlog⟩

end PayrollAgent.Lib.History
