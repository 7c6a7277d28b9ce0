import PayrollAgent.Lib.Dict

namespace PayrollAgent.Lib

variable {α β κ : Type} {p q : α → Prop} {l : List α} {x y : α}

def IsFirst (p : α → Prop) (l : List α) (x : α) : Prop :=
  ∃ before after, l = before ++ x :: after ∧ p x ∧ ∀ y ∈ before, ¬ p y

def IsLast (p : α → Prop) (l : List α) (x : α) : Prop :=
  ∃ before after, l = before ++ x :: after ∧ p x ∧ ∀ y ∈ after, ¬ p y

theorem isFirst_iff [DecidablePred p] : IsFirst p l x ↔ l.find? (fun y => p y) = some x := by
  rw [List.find?_eq_some_iff_append]
  constructor
  · rintro ⟨before, after, hl, hx, hbefore⟩
    exact ⟨decide_eq_true hx, before, after, hl, fun y hy => by simpa using hbefore y hy⟩
  · rintro ⟨hx, before, after, hl, hbefore⟩
    exact ⟨before, after, hl, of_decide_eq_true hx, fun y hy => by simpa using hbefore y hy⟩

theorem isLast_reverse : IsLast p l x ↔ IsFirst p l.reverse x := by
  constructor
  · rintro ⟨before, after, rfl, hx, hafter⟩
    exact ⟨after.reverse, before.reverse, by simp, hx, fun y hy => hafter y (List.mem_reverse.mp hy)⟩
  · rintro ⟨before, after, hl, hx, hbefore⟩
    refine ⟨after.reverse, before.reverse, ?_, hx, fun y hy => hbefore y (List.mem_reverse.mp hy)⟩
    simpa using congrArg List.reverse hl

theorem isLast_iff [DecidablePred p] : IsLast p l x ↔ (l.filter fun y => p y).getLast? = some x := by
  rw [isLast_reverse, isFirst_iff, List.getLast?_filter]

theorem IsFirst.mem (h : IsFirst p l x) : x ∈ l ∧ p x := by
  obtain ⟨before, after, rfl, hx, -⟩ := h
  exact ⟨by simp, hx⟩

theorem IsLast.mem (h : IsLast p l x) : x ∈ l ∧ p x := by
  obtain ⟨before, after, rfl, hx, -⟩ := h
  exact ⟨by simp, hx⟩

theorem exists_isFirst (h : ∃ x ∈ l, p x) : ∃ x, IsFirst p l x := by
  classical
  obtain ⟨x, hx, hp⟩ := h
  have hfound : (l.find? fun y => p y).isSome := List.find?_isSome.mpr ⟨x, hx, decide_eq_true hp⟩
  obtain ⟨y, hy⟩ := Option.isSome_iff_exists.mp hfound
  exact ⟨y, isFirst_iff.mpr hy⟩

theorem exists_isLast (h : ∃ x ∈ l, p x) : ∃ x, IsLast p l x := by
  obtain ⟨x, hx, hp⟩ := h
  obtain ⟨y, hy⟩ := exists_isFirst ⟨x, List.mem_reverse.mpr hx, hp⟩
  exact ⟨y, isLast_reverse.mpr hy⟩

theorem IsFirst.unique (hx : IsFirst p l x) (hy : IsFirst p l y) : x = y := by
  classical
  rw [isFirst_iff] at hx hy
  exact Option.some.inj (hx.symm.trans hy)

theorem IsLast.unique (hx : IsLast p l x) (hy : IsLast p l y) : x = y := by
  classical
  rw [isLast_iff] at hx hy
  exact Option.some.inj (hx.symm.trans hy)

theorem isFirst_congr (h : ∀ x ∈ l, p x ↔ q x) : IsFirst p l x ↔ IsFirst q l x := by
  constructor
  · rintro ⟨before, after, rfl, hx, hbefore⟩
    exact ⟨before, after, rfl, (h x (by simp)).mp hx, fun y hy hq => hbefore y hy
      ((h y (by simp [hy])).mpr hq)⟩
  · rintro ⟨before, after, rfl, hx, hbefore⟩
    exact ⟨before, after, rfl, (h x (by simp)).mpr hx, fun y hy hp => hbefore y hy
      ((h y (by simp [hy])).mp hp)⟩

theorem isLast_congr (h : ∀ x ∈ l, p x ↔ q x) : IsLast p l x ↔ IsLast q l x := by
  rw [isLast_reverse, isLast_reverse]
  exact isFirst_congr fun x hx => h x (List.mem_reverse.mp hx)

theorem isLast_map {g : α → β} {p : β → Prop} {y : β} :
    IsLast p (l.map g) y ↔ ∃ x, IsLast (fun x => p (g x)) l x ∧ g x = y := by
  constructor
  · rintro ⟨before, after, hl, hy, hafter⟩
    obtain ⟨before', rest, rfl, rfl, hrest⟩ := List.map_eq_append_iff.mp hl
    obtain ⟨x, after', rfl, rfl, rfl⟩ := List.map_eq_cons_iff.mp hrest
    exact ⟨x, ⟨before', after', rfl, hy, fun z hz => hafter _ (List.mem_map_of_mem hz)⟩, rfl⟩
  · rintro ⟨x, ⟨before, after, rfl, hx, hafter⟩, rfl⟩
    refine ⟨before.map g, after.map g, by simp, hx, fun y hy => ?_⟩
    obtain ⟨z, hz, rfl⟩ := List.mem_map.mp hy
    exact hafter z hz

/-- Where the head has the property it is the first, otherwise it does not count. -/
theorem isFirst_cons {z : α} : IsFirst p (z :: l) x ↔ (p z ∧ x = z) ∨ (¬ p z ∧ IsFirst p l x) := by
  classical
  rw [isFirst_iff, isFirst_iff, List.find?_cons]
  by_cases hz : p z
  · simp [hz, eq_comm]
  · simp [hz]

namespace Dict

variable [DecidableEq κ] {k : κ}

/-- The members of a list by a key of theirs: the last one of the key stays. -/
theorem get?_ofList_key (f : α → Option κ) :
    (ofList (l.filterMap fun x => (f x).map fun k => (k, x))).get? k = some x ↔
    IsLast (fun x => f x = some k) l x := by
  have hkey : ((l.filterMap fun x => (f x).map fun k => (k, x)).filter fun q => q.1 = k) =
      (l.filter fun x => f x = some k).map fun x => (k, x) := by
    induction l with
    | nil => rfl
    | cons x l ih =>
        cases hx : f x with
        | none => simpa [hx] using ih
        | some j =>
            by_cases hj : j = k
            · subst hj
              simpa [hx] using ih
            · simpa [hx, hj] using ih
  rw [get?_ofList, hkey, List.getLast?_map, Option.map_map, isLast_iff]
  exact Eq.congr_left Option.map_id'

theorem find?_put (p : κ → Bool) (v : β) (l : List (κ × β)) :
    ((put k v l).find? fun q => p q.1).map Prod.fst =
      ((l.find? fun q => p q.1).map Prod.fst).or (if p k then some k else none) := by
  induction l with
  | nil => cases hk : p k <;> simp [put, hk]
  | cons q l ih =>
      obtain ⟨j, w⟩ := q
      by_cases hj : j = k
      · subst hj
        cases hk : p j <;> simp [put, hk]
      · cases hp : p j <;> simp [put, hj, hp, ih]

theorem find?_ofList (p : κ → Bool) (l : List (κ × β)) :
    ((ofList l).entries.find? fun q => p q.1).map Prod.fst = (l.find? fun q => p q.1).map Prod.fst := by
  have hfold : ∀ d : Dict κ β,
      ((l.foldl (fun d q => d.set q.1 q.2) d).entries.find? fun q => p q.1).map Prod.fst =
      ((d.entries.find? fun q => p q.1).map Prod.fst).or ((l.find? fun q => p q.1).map Prod.fst) := by
    induction l with
    | nil => simp
    | cons q l ih =>
        intro d
        rw [List.foldl_cons, ih, set, find?_put, Option.or_assoc]
        cases hq : p q.1 <;> simp [hq]
  exact hfold empty

theorem get?_ofList_total (f : α → κ) :
    (ofList (l.map fun x => (f x, x))).get? k = some x ↔ IsLast (fun x => f x = k) l x := by
  have h := get?_ofList_key (l := l) (k := k) (x := x) fun y => some (f y)
  simpa [List.filterMap_eq_map'] using h

theorem find?_ofList_total (f : α → κ) (p : κ → Bool) :
    ((ofList (l.map fun x => (f x, x))).entries.find? fun q => p q.1).map Prod.snd = some y ↔
      ∃ x, IsFirst (fun x => p (f x) = true) l x ∧ IsLast (fun z => f z = f x) l y := by
  have hkey : ((ofList (l.map fun x => (f x, x))).entries.find? fun q => p q.1).map Prod.fst =
      (l.find? fun x => p (f x)).map f := by
    rw [find?_ofList p, List.find?_map, Option.map_map]
    rfl
  have hfound : ∀ {x}, IsFirst (fun x => p (f x) = true) l x ↔ (l.find? fun x => p (f x)) = some x := by
    intro x
    rw [isFirst_iff]
    simp
  constructor
  · intro h
    obtain ⟨q, hq, rfl⟩ := Option.map_eq_some_iff.mp h
    rw [hq, Option.map_some] at hkey
    obtain ⟨x, hx, hname⟩ := Option.map_eq_some_iff.mp hkey.symm
    refine ⟨x, hfound.mpr hx, (get?_ofList_total f).mp ?_⟩
    rw [hname]
    exact (get?_eq_some_iff ..).mpr (List.mem_of_find?_eq_some hq)
  · rintro ⟨x, hx, hlast⟩
    rw [hfound.mp hx, Option.map_some] at hkey
    obtain ⟨q, hq, hname⟩ := Option.map_eq_some_iff.mp hkey
    have hstored := (get?_eq_some_iff ..).mpr (List.mem_of_find?_eq_some hq)
    rw [hname, (get?_ofList_total f).mpr hlast] at hstored
    rw [hq, Option.map_some, Option.some.inj hstored]

end Dict

end PayrollAgent.Lib
