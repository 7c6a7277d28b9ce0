import Mathlib.Data.List.Nodup
import Mathlib.Data.List.Basic

namespace PayrollAgent.Lib

variable {α β γ : Type} [DecidableEq α]

/-- An insertion-ordered map with pairwise distinct keys. It serves both as a
dictionary and as a table with a primary key. -/
structure Dict (α β : Type) where
  entries : List (α × β)
  nodup : (entries.map Prod.fst).Nodup

namespace Dict

def find (k : α) : List (α × β) → Option β
  | [] => none
  | (j, v) :: rest => if j = k then some v else find k rest

def put (k : α) (v : β) : List (α × β) → List (α × β)
  | [] => [(k, v)]
  | (j, w) :: rest => if j = k then (k, v) :: rest else (j, w) :: put k v rest

theorem mem_put_keys (k : α) (v : β) (l : List (α × β)) (j : α) :
    j ∈ (put k v l).map Prod.fst ↔ j = k ∨ j ∈ l.map Prod.fst := by
  induction l with
  | nil => simp [put]
  | cons p rest ih =>
      rcases p with ⟨i, w⟩
      by_cases h : i = k
      · subst h
        simp [put]
      · simp only [put, if_neg h, List.map_cons, List.mem_cons, ih]
        tauto

theorem put_nodup (k : α) (v : β) {l : List (α × β)} (hl : (l.map Prod.fst).Nodup) :
    ((put k v l).map Prod.fst).Nodup := by
  induction l with
  | nil => simp [put]
  | cons p rest ih =>
      rcases p with ⟨i, w⟩
      rw [List.map_cons, List.nodup_cons] at hl
      by_cases h : i = k
      · subst h
        simpa [put] using hl
      · rw [put, if_neg h, List.map_cons, List.nodup_cons, mem_put_keys]
        exact ⟨fun hm => hm.elim h hl.1, ih hl.2⟩

def empty : Dict α β := ⟨[], List.nodup_nil⟩

instance : Inhabited (Dict α β) := ⟨empty⟩

def get? (d : Dict α β) (k : α) : Option β := find k d.entries

def set (d : Dict α β) (k : α) (v : β) : Dict α β := ⟨put k v d.entries, put_nodup k v d.nodup⟩

/-- Later pairs overwrite the value of earlier ones and keep their position. -/
def ofList (l : List (α × β)) : Dict α β := l.foldl (fun d p => d.set p.1 p.2) empty

def keys (d : Dict α β) : List α := d.entries.map Prod.fst

def values (d : Dict α β) : List β := d.entries.map Prod.snd

def mapValues (f : α → β → γ) (d : Dict α β) : Dict α γ :=
  ⟨d.entries.map (fun p => (p.1, f p.1 p.2)), by simpa [Function.comp_def] using d.nodup⟩

/-- Rewrite the row stored under one key and leave every other row alone. -/
def modify (d : Dict α β) (k : α) (f : β → β) : Dict α β :=
  d.mapValues (fun j v => if j = k then f v else v)

theorem find_put (k j : α) (v : β) (l : List (α × β)) :
    find j (put k v l) = if j = k then some v else find j l := by
  induction l with
  | nil => by_cases h : k = j <;> simp [put, find, h, eq_comm]
  | cons p rest ih =>
      rcases p with ⟨i, w⟩
      by_cases hi : i = k
      · subst hi
        by_cases hj : i = j
        · simp [put, find, hj]
        · have hne : j ≠ i := fun he => hj he.symm
          simp [put, find, hj, hne]
      · rw [put, if_neg hi, find, ih, find]
        by_cases hj : i = j
        · subst hj
          simp [hi]
        · simp [hj]

theorem find_eq_some_iff {l : List (α × β)} (hl : (l.map Prod.fst).Nodup) (k : α) (v : β) :
    find k l = some v ↔ (k, v) ∈ l := by
  induction l with
  | nil => simp [find]
  | cons p rest ih =>
      rcases p with ⟨i, w⟩
      rw [List.map_cons, List.nodup_cons] at hl
      by_cases hi : i = k
      · subst hi
        have hnone : (i, v) ∉ rest := fun hm => hl.1 (List.mem_map.mpr ⟨_, hm, rfl⟩)
        simp [find, hnone, eq_comm]
      · have hne : k ≠ i := fun he => hi he.symm
        simp [find, hi, hne, ih hl.2]

theorem find_map (f : α → β → γ) (k : α) (l : List (α × β)) :
    find k (l.map (fun p => (p.1, f p.1 p.2))) = (find k l).map (f k) := by
  induction l with
  | nil => rfl
  | cons p rest ih =>
      rcases p with ⟨i, w⟩
      by_cases hi : i = k
      · subst hi
        simp [find]
      · simpa [find, hi] using ih

@[simp] theorem get?_empty (k : α) : (empty : Dict α β).get? k = none := rfl

theorem get?_set (d : Dict α β) (k j : α) (v : β) :
    (d.set k v).get? j = if j = k then some v else d.get? j :=
  find_put k j v d.entries

@[simp] theorem get?_set_self (d : Dict α β) (k : α) (v : β) : (d.set k v).get? k = some v := by
  simp [get?_set]

theorem get?_set_of_ne (d : Dict α β) {k j : α} (h : j ≠ k) (v : β) :
    (d.set k v).get? j = d.get? j := by
  simp [get?_set, h]

theorem get?_eq_some_iff (d : Dict α β) (k : α) (v : β) :
    d.get? k = some v ↔ (k, v) ∈ d.entries :=
  find_eq_some_iff d.nodup k v

theorem get?_mapValues (f : α → β → γ) (d : Dict α β) (k : α) :
    (d.mapValues f).get? k = (d.get? k).map (f k) :=
  find_map f k d.entries

theorem get?_modify (d : Dict α β) (k j : α) (f : β → β) :
    (d.modify k f).get? j = if j = k then (d.get? j).map f else d.get? j := by
  rw [modify, get?_mapValues]
  by_cases h : j = k
  · simp [h]
  · cases d.get? j <;> simp [h]

theorem mem_values_iff (d : Dict α β) (v : β) : v ∈ d.values ↔ ∃ k, d.get? k = some v := by
  simp only [values, List.mem_map, get?_eq_some_iff]
  constructor
  · rintro ⟨⟨k, w⟩, hm, rfl⟩
    exact ⟨k, hm⟩
  · rintro ⟨k, hm⟩
    exact ⟨(k, v), hm, rfl⟩

theorem mem_keys_iff (d : Dict α β) (k : α) : k ∈ d.keys ↔ ∃ v, d.get? k = some v := by
  simp only [keys, List.mem_map, get?_eq_some_iff]
  constructor
  · rintro ⟨⟨j, v⟩, hm, rfl⟩
    exact ⟨v, hm⟩
  · rintro ⟨v, hm⟩
    exact ⟨(k, v), hm, rfl⟩

theorem get?_eq_none_iff (d : Dict α β) (k : α) : d.get? k = none ↔ k ∉ d.keys := by
  rw [mem_keys_iff, Option.eq_none_iff_forall_not_mem, not_exists]
  rfl

theorem get?_foldl_set (l : List (α × β)) (d : Dict α β) (k : α) :
    (l.foldl (fun d p => d.set p.1 p.2) d).get? k =
      ((l.filter (fun p => p.1 = k)).getLast?.map Prod.snd).or (d.get? k) := by
  induction l generalizing d with
  | nil => rfl
  | cons p rest ih =>
      rcases p with ⟨i, w⟩
      rw [List.foldl_cons, ih]
      by_cases hi : i = k
      · subst hi
        cases hlast : (rest.filter (fun p => p.1 = i)).getLast? with
        | none => simp [List.getLast?_eq_none_iff.mp hlast]
        | some q => simp [List.getLast?_cons, hlast]
      · have hne : k ≠ i := fun he => hi he.symm
        simp [hi, get?_set, hne]

theorem get?_ofList (l : List (α × β)) (k : α) :
    (ofList l).get? k = (l.filter (fun p => p.1 = k)).getLast?.map Prod.snd := by
  rw [ofList, get?_foldl_set]
  simp

theorem get?_ofList_mem {l : List (α × β)} {k : α} {v : β} (h : (ofList l).get? k = some v) :
    (k, v) ∈ l := by
  rw [get?_ofList, Option.map_eq_some_iff] at h
  obtain ⟨⟨i, w⟩, hlast, rfl⟩ := h
  have hm := List.mem_of_getLast? hlast
  rw [List.mem_filter, decide_eq_true_eq] at hm
  obtain ⟨hm, rfl⟩ := hm
  exact hm

theorem get?_ofList_isSome {l : List (α × β)} {k : α} {v : β} (h : (k, v) ∈ l) :
    ∃ w, (ofList l).get? k = some w := by
  rw [get?_ofList]
  cases hlast : (l.filter (fun p => p.1 = k)).getLast? with
  | none =>
      have hnil := List.getLast?_eq_none_iff.mp hlast
      have hm : (k, v) ∈ l.filter (fun p => p.1 = k) := List.mem_filter.mpr ⟨h, by simp⟩
      simp [hnil] at hm
  | some p => exact ⟨p.2, rfl⟩

theorem get?_ofList_of_nodup {l : List (α × β)} (hl : (l.map Prod.fst).Nodup) {k : α} {v : β}
    (h : (k, v) ∈ l) : (ofList l).get? k = some v := by
  obtain ⟨w, hw⟩ := get?_ofList_isSome h
  have hm := get?_ofList_mem hw
  rw [← find_eq_some_iff hl] at h hm
  rw [hw, ← hm, h]

@[simp] theorem ofList_entries (d : Dict α β) (k : α) : (ofList d.entries).get? k = d.get? k := by
  cases hk : d.get? k with
  | some v => exact get?_ofList_of_nodup d.nodup ((get?_eq_some_iff ..).mp hk)
  | none =>
      rw [Option.eq_none_iff_forall_ne_some]
      intro v hv
      rw [(get?_eq_some_iff ..).mpr (get?_ofList_mem hv)] at hk
      cases hk

theorem get?_foldl_entries (d added : Dict α β) (k : α) :
    (added.entries.foldl (fun d p => d.set p.1 p.2) d).get? k = (added.get? k).or (d.get? k) := by
  rw [get?_foldl_set, ← get?_ofList, ofList_entries]

theorem get?_ofList_map {l : List α} (g : α → β) (k : α) :
    (ofList (l.map fun j => (j, g j))).get? k = if k ∈ l then some (g k) else none := by
  by_cases h : k ∈ l
  · have hm : (k, g k) ∈ l.map fun j => (j, g j) := List.mem_map.mpr ⟨k, h, rfl⟩
    obtain ⟨w, hw⟩ := get?_ofList_isSome hm
    obtain ⟨j, -, hj⟩ := List.mem_map.mp (get?_ofList_mem hw)
    obtain ⟨rfl, rfl⟩ := Prod.mk.inj hj
    rw [hw, if_pos h]
  · rw [if_neg h]
    cases hw : (ofList (l.map fun j => (j, g j))).get? k with
    | none => rfl
    | some w =>
        obtain ⟨j, hj, he⟩ := List.mem_map.mp (get?_ofList_mem hw)
        obtain ⟨rfl, -⟩ := Prod.mk.inj he
        exact absurd hj h

theorem get?_ofList_filterMap {γ : Type} (l : List γ) (key : γ → α) (g : α → Option β) (k : α) :
    (ofList (l.filterMap fun c => (g (key c)).map fun v => (key c, v))).get? k =
      if k ∈ l.map key then g k else none := by
  have hvalue : ∀ v, (ofList (l.filterMap fun c => (g (key c)).map fun v => (key c, v))).get? k =
      some v → k ∈ l.map key ∧ g k = some v := by
    intro v hv
    obtain ⟨c, hc, he⟩ := List.mem_filterMap.mp (get?_ofList_mem hv)
    obtain ⟨w, hw, hp⟩ := Option.map_eq_some_iff.mp he
    obtain ⟨rfl, rfl⟩ := Prod.mk.inj hp
    exact ⟨List.mem_map_of_mem hc, hw⟩
  cases hd : (ofList (l.filterMap fun c => (g (key c)).map fun v => (key c, v))).get? k with
  | some v => rw [if_pos (hvalue v hd).1, (hvalue v hd).2]
  | none =>
      split
      case isTrue hk =>
          cases hg : g k with
          | none => rfl
          | some v =>
              obtain ⟨c, hc, rfl⟩ := List.mem_map.mp hk
              have hm : (key c, v) ∈ l.filterMap fun c => (g (key c)).map fun v => (key c, v) :=
                List.mem_filterMap.mpr ⟨c, hc, by rw [hg]; rfl⟩
              obtain ⟨w, hw⟩ := get?_ofList_isSome hm
              rw [hd] at hw
              cases hw
      case isFalse => rfl

end Dict

end PayrollAgent.Lib
