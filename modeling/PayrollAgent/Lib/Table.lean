import PayrollAgent.Lib.Dict

namespace PayrollAgent.Lib.Dict

variable {α β : Type} [DecidableEq α]

def select (d : Dict α β) (p : α → β → Bool) : Option (α × β) := d.entries.find? fun e => p e.1 e.2

def updateWhere (d : Dict α β) (p : α → β → Bool) (f : β → β) : Dict α β :=
  d.mapValues fun k v => if p k v then f v else v

theorem select_some {d : Dict α β} {p : α → β → Bool} {k : α} {v : β}
    (h : d.select p = some (k, v)) : d.get? k = some v ∧ p k v = true := by
  refine ⟨(get?_eq_some_iff d k v).mpr (List.mem_of_find?_eq_some h), ?_⟩
  have hp := List.find?_some h
  exact hp

theorem select_none {d : Dict α β} {p : α → β → Bool} :
    d.select p = none ↔ ∀ k v, d.get? k = some v → p k v = false := by
  rw [select, List.find?_eq_none]
  constructor
  · intro h k v hkv
    have := h (k, v) ((get?_eq_some_iff d k v).mp hkv)
    simpa using this
  · rintro h ⟨k, v⟩ hkv
    simp [h k v ((get?_eq_some_iff d k v).mpr hkv)]

theorem select_isSome {d : Dict α β} {p : α → β → Bool} {k : α} {v : β} (h : d.get? k = some v)
    (hp : p k v = true) : ∃ r, d.select p = some r := by
  cases hs : d.select p with
  | some r => exact ⟨r, rfl⟩
  | none =>
      rw [select_none.mp hs k v h] at hp
      cases hp

theorem get?_updateWhere (d : Dict α β) (p : α → β → Bool) (f : β → β) (k : α) :
    (d.updateWhere p f).get? k = (d.get? k).map fun v => if p k v then f v else v :=
  get?_mapValues _ _ _

omit [DecidableEq α] in
theorem filter_nodup (p : α → β → Bool) {l : List (α × β)} (hl : (l.map Prod.fst).Nodup) :
    ((l.filter fun e => !p e.1 e.2).map Prod.fst).Nodup :=
  hl.sublist (List.filter_sublist.map _)

def deleteWhere (d : Dict α β) (p : α → β → Bool) : Dict α β :=
  ⟨d.entries.filter fun e => !p e.1 e.2, filter_nodup p d.nodup⟩

theorem get?_deleteWhere (d : Dict α β) (p : α → β → Bool) (k : α) (v : β) :
    (d.deleteWhere p).get? k = some v ↔ d.get? k = some v ∧ p k v = false := by
  rw [get?_eq_some_iff, get?_eq_some_iff, deleteWhere, List.mem_filter, Bool.not_eq_true']

theorem modify_modify (d : Dict α β) (k : α) (f g : β → β) :
    (d.modify k f).modify k g = d.modify k fun v => g (f v) := by
  have hentries : ((d.modify k f).modify k g).entries = (d.modify k fun v => g (f v)).entries := by
    simp only [modify, mapValues, List.map_map]
    refine List.map_congr_left fun p _ => ?_
    by_cases hp : p.1 = k <;> simp [hp]
  cases hd : (d.modify k f).modify k g with
  | mk entries nodup =>
      rw [hd] at hentries
      subst hentries
      rfl

theorem get?_modify_self {d : Dict α β} {k : α} {v : β} (h : d.get? k = some v) (f : β → β) :
    (d.modify k f).get? k = some (f v) := by
  rw [get?_modify, if_pos rfl, h]
  rfl

theorem get?_modify_of_ne (d : Dict α β) {j k : α} (h : j ≠ k) (f : β → β) :
    (d.modify k f).get? j = d.get? j := by
  rw [get?_modify, if_neg h]

/-- Every key of the table is below `n`. -/
def Below (d : Dict Nat β) (n : Nat) : Prop := ∀ k, n ≤ k → d.get? k = none

variable {d : Dict Nat β} {m n : Nat}

theorem Below.lt (h : d.Below n) {k : Nat} {v : β} (hk : d.get? k = some v) : k < n := by
  by_contra hlt
  rw [h k (by omega)] at hk
  cases hk

theorem below_of_keys (h : ∀ k ∈ d.keys, k < n) : d.Below n := fun k hk =>
  (get?_eq_none_iff d k).mpr fun hmem => absurd (h k hmem) (Nat.not_lt.mpr hk)

theorem Below.mono (h : d.Below n) (hnm : n ≤ m) : d.Below m := fun k hk => h k (Nat.le_trans hnm hk)

theorem Below.modify (h : d.Below n) (k : Nat) (f : β → β) : (d.modify k f).Below n := by
  intro j hj
  rw [get?_modify, h j hj]
  simp

theorem Below.updateWhere (h : d.Below n) (p : Nat → β → Bool) (f : β → β) :
    (d.updateWhere p f).Below n := by
  intro j hj
  rw [get?_updateWhere, h j hj]
  rfl

theorem Below.set (h : d.Below n) {k : Nat} (hk : k < n) (v : β) : (d.set k v).Below n := by
  intro j hj
  rw [get?_set_of_ne _ (by omega), h j hj]

theorem Below.get?_set_next (h : d.Below n) {k : Nat} {v w : β} (hk : d.get? k = some v) :
    (d.set n w).get? k = some v := by
  rw [get?_set_of_ne _ (Nat.ne_of_lt (h.lt hk)), hk]

end PayrollAgent.Lib.Dict
