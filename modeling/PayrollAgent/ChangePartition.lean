import PayrollAgent.HoursVisibility
import PayrollAgent.Lib.Tagged

namespace PayrollAgent.ChangePartition

open Lib Validate HoursVisibility

def dropsOf (current : List NameMatchResult) (id : Uuid) (f : HoursField) (drops : List RawFieldDrop) :
    List RawFieldDrop :=
  drops.filter fun d => (nameToId current).get? d.submittedName = some id ∧ d.field = f

def changesOf (current : List NameMatchResult) (id : Uuid) (f : HoursField) (changes : List HoursChange) :
    List HoursChange :=
  changes.filter fun c => (nameToId current).get? c.submittedName = some id ∧ c.field = f

/-- The two detectors of one round, on one field of one employee. A paid value
is dropped, changed or kept, everything else goes unreported. -/
structure Partitioned (original resumed : Extracted) (prior current : List NameMatchResult) (id : Uuid)
    (f : HoursField) : Prop where
  paid : ∀ o r v, (idKeyed original prior).get? id = some o → (idKeyed resumed current).get? id = some r →
    o.hours f = some v → 0 < v →
      (isPaid (r.hours f) = false ∧
        dropsOf current id f (detectFieldRegression original resumed (some prior) current) =
          [⟨r.submittedName, f, v, r.hours f⟩] ∧
        changesOf current id f (detectHoursChanges original resumed (some prior) current) = []) ∨
      (∃ w, r.hours f = some w ∧ 0 < w ∧ w ≠ v ∧
        dropsOf current id f (detectFieldRegression original resumed (some prior) current) = [] ∧
        changesOf current id f (detectHoursChanges original resumed (some prior) current) =
          [⟨r.submittedName, f, v, w⟩]) ∨
      (r.hours f = some v ∧
        dropsOf current id f (detectFieldRegression original resumed (some prior) current) = [] ∧
        changesOf current id f (detectHoursChanges original resumed (some prior) current) = [])
  unpaid : ∀ o, (idKeyed original prior).get? id = some o → isPaid (o.hours f) = false →
    dropsOf current id f (detectFieldRegression original resumed (some prior) current) = [] ∧
      changesOf current id f (detectHoursChanges original resumed (some prior) current) = []
  missing : (idKeyed original prior).get? id = none ∨ (idKeyed resumed current).get? id = none →
    dropsOf current id f (detectFieldRegression original resumed (some prior) current) = [] ∧
      changesOf current id f (detectHoursChanges original resumed (some prior) current) = []

def fieldDrop (p : ExtractedEmployee × ExtractedEmployee) (f : HoursField) : Option RawFieldDrop :=
  match p.1.hours f with
  | some v =>
      if isPaid (some v) && !isPaid (p.2.hours f) then some ⟨p.2.submittedName, f, v, p.2.hours f⟩
      else none
  | none => none

def fieldChange (p : ExtractedEmployee × ExtractedEmployee) (f : HoursField) : Option HoursChange :=
  match p.1.hours f, p.2.hours f with
  | some v, some w =>
      if isPaid (some v) && isPaid (some w) && v ≠ w then some ⟨p.2.submittedName, f, v, w⟩ else none
  | _, _ => none

theorem fieldDrop_eq_some {p : ExtractedEmployee × ExtractedEmployee} {f : HoursField} {d : RawFieldDrop}
    (h : fieldDrop p f = some d) : d.submittedName = p.2.submittedName ∧ d.field = f := by
  simp only [fieldDrop] at h
  split at h
  · simp only [Option.ite_none_right_eq_some, Option.some.injEq] at h
    obtain ⟨-, rfl⟩ := h
    exact ⟨rfl, rfl⟩
  · cases h

theorem fieldChange_eq_some {p : ExtractedEmployee × ExtractedEmployee} {f : HoursField} {c : HoursChange}
    (h : fieldChange p f = some c) : c.submittedName = p.2.submittedName ∧ c.field = f := by
  simp only [fieldChange] at h
  split at h
  · simp only [Option.ite_none_right_eq_some, Option.some.injEq] at h
    obtain ⟨-, rfl⟩ := h
    exact ⟨rfl, rfl⟩
  · cases h

section

variable {original resumed : Extracted} {prior current : List NameMatchResult}

def pairOf (original resumed : Extracted) (prior current : List NameMatchResult) (id : Uuid) :
    Option (ExtractedEmployee × ExtractedEmployee) :=
  ((idKeyed original prior).get? id).bind fun o => ((idKeyed resumed current).get? id).map fun r => (o, r)

def pairedIds (original : Extracted) (prior : List NameMatchResult) : List Uuid :=
  (idKeyed original prior).keys.insertionSort (· ≤ ·)

theorem pairedIds_nodup (original : Extracted) (prior : List NameMatchResult) :
    (pairedIds original prior).Nodup :=
  (List.perm_insertionSort _ _).nodup_iff.mpr (idKeyed original prior).nodup

theorem mem_pairedIds {id : Uuid} {p : ExtractedEmployee × ExtractedEmployee}
    (h : pairOf original resumed prior current id = some p) : id ∈ pairedIds original prior := by
  obtain ⟨o, ho, -⟩ := Option.bind_eq_some_iff.mp h
  rw [pairedIds, List.mem_insertionSort, Dict.mem_keys_iff]
  exact ⟨o, ho⟩

theorem flatMap_pairByEmployeeId {β : Type}
    (report : ExtractedEmployee × ExtractedEmployee → HoursField → Option β) :
    (pairByEmployeeId original resumed prior current).flatMap
    (fun p => HoursField.all.filterMap (report p)) = (pairedIds original prior).flatMap fun id =>
        (pairOf original resumed prior current id).toList.flatMap fun p =>
          HoursField.all.flatMap fun f => (report p f).toList := by
  change ((pairedIds original prior).filterMap (pairOf original resumed prior current)).flatMap _ = _
  rw [List.filterMap_eq_flatMap_toList, List.flatMap_assoc]
  simp only [List.filterMap_eq_flatMap_toList]

/-- Of one field of one employee, a detector says what it says of the pair. -/
theorem filter_reports {β : Type} (name : β → Str) (field : β → HoursField)
    {report : ExtractedEmployee × ExtractedEmployee → HoursField → Option β}
    (hreport : ∀ {p f b}, report p f = some b → name b = p.2.submittedName ∧ field b = f)
    (id : Uuid) (f : HoursField) :
    ((pairByEmployeeId original resumed prior current).flatMap
        (fun p => HoursField.all.filterMap (report p))).filter
          (fun b => (nameToId current).get? (name b) = some id ∧ field b = f) =
      ((pairOf original resumed prior current id).bind fun p => report p f).toList := by
  have htag : ∀ i, ∀ b ∈ (pairOf original resumed prior current i).toList.flatMap
      (fun p => HoursField.all.flatMap fun g => (report p g).toList),
      (nameToId current).get? (name b) = some i := by
    intro i b hb
    obtain ⟨p, hp, hb⟩ := List.mem_flatMap.mp hb
    obtain ⟨g, -, hb⟩ := List.mem_flatMap.mp hb
    obtain ⟨o, -, hpair⟩ := Option.bind_eq_some_iff.mp (Option.mem_toList.mp hp)
    obtain ⟨r, hr, rfl⟩ := Option.map_eq_some_iff.mp hpair
    rw [(hreport (Option.mem_toList.mp hb)).1]
    exact (idKeyed_mem hr).2
  have hsplit : (fun b => decide ((nameToId current).get? (name b) = some id ∧ field b = f)) =
      fun b => decide (some (field b) = some f) && decide
      ((nameToId current).get? (name b) = some id) := by
    funext b
    simp [Bool.and_comm]
  rw [flatMap_pairByEmployeeId, hsplit, ← List.filter_filter,
    filter_flatMap_of_tag (pairedIds_nodup original prior) htag]
  cases hp : pairOf original resumed prior current id with
  | none => simp
  | some p =>
      have hfield : ∀ g, ∀ b ∈ (report p g).toList, some (field b) = some g := by
        intro g b hb
        rw [(hreport (Option.mem_toList.mp hb)).2]
      rw [if_pos (mem_pairedIds hp), Option.toList_some, List.flatMap_singleton,
        filter_flatMap_of_tag (by decide) hfield, if_pos f.mem_all, Option.bind_some]

theorem dropsOf_detectFieldRegression (id : Uuid) (f : HoursField) :
    dropsOf current id f (detectFieldRegression original resumed (some prior) current) =
      ((pairOf original resumed prior current id).bind fun p => fieldDrop p f).toList :=
  filter_reports RawFieldDrop.submittedName RawFieldDrop.field fieldDrop_eq_some id f

theorem changesOf_detectHoursChanges (id : Uuid) (f : HoursField) :
    changesOf current id f (detectHoursChanges original resumed (some prior) current) =
      ((pairOf original resumed prior current id).bind fun p => fieldChange p f).toList := by
  rw [← filter_reports HoursChange.submittedName HoursChange.field fieldChange_eq_some id f]
  rfl

theorem pairOf_eq_some {id : Uuid} {o r : ExtractedEmployee}
    (ho : (idKeyed original prior).get? id = some o)
    (hr : (idKeyed resumed current).get? id = some r) :
    pairOf original resumed prior current id = some (o, r) := by
  rw [pairOf, ho, hr]
  rfl

theorem partitioned (original resumed : Extracted) (prior current : List NameMatchResult) (id : Uuid)
    (f : HoursField) : Partitioned original resumed prior current id f where
  paid := by
    intro o r v ho hr hv hpaid
    rw [dropsOf_detectFieldRegression, changesOf_detectHoursChanges, pairOf_eq_some ho hr]
    have hwas : isPaid (some v) = true := by simp [isPaid, hpaid]
    cases hw : r.hours f with
    | none =>
        left
        simp [fieldDrop, fieldChange, hv, hw, hwas]
    | some w =>
        by_cases hkept : 0 < w
        · right
          have hnow : isPaid (some w) = true := by simp [isPaid, hkept]
          by_cases hsame : w = v
          · right
            simp [fieldDrop, fieldChange, hv, hw, hsame]
          · left
            refine ⟨w, rfl, hkept, hsame, ?_⟩
            simp [fieldDrop, fieldChange, hv, hw, hwas, hnow, Ne.symm hsame]
        · left
          have hgone : isPaid (some w) = false := by simp [isPaid, hkept]
          simp [fieldDrop, fieldChange, hv, hw, hwas, hgone]
  unpaid := by
    intro o ho hunpaid
    rw [dropsOf_detectFieldRegression, changesOf_detectHoursChanges]
    cases hr : (idKeyed resumed current).get? id with
    | none => simp [pairOf, ho, hr]
    | some r =>
        rw [pairOf_eq_some ho hr]
        cases hv : o.hours f with
        | none => simp [fieldDrop, fieldChange, hv]
        | some v =>
            rw [hv] at hunpaid
            cases hw : r.hours f <;> simp [fieldDrop, fieldChange, hv, hw, hunpaid]
  missing := by
    intro hmissing
    rw [dropsOf_detectFieldRegression, changesOf_detectHoursChanges]
    have hnone : pairOf original resumed prior current id = none := by
      obtain ho | hr := hmissing
      · rw [pairOf, ho, Option.bind_none]
      · cases ho : (idKeyed original prior).get? id <;> simp [pairOf, ho, hr]
    simp [hnone]

/-- Each field of each employee is reported once at most, by one detector, and
no report is about anyone else. -/
theorem detectors_partition (original resumed : Extracted) (prior current : List NameMatchResult) :
    (∀ id f, Partitioned original resumed prior current id f) ∧
      (∀ d ∈ detectFieldRegression original resumed (some prior) current,
        ∃ id, d ∈ dropsOf current id d.field
          (detectFieldRegression original resumed (some prior) current)) ∧
      ∀ c ∈ detectHoursChanges original resumed (some prior) current,
        ∃ id, c ∈ changesOf current id c.field
          (detectHoursChanges original resumed (some prior) current) := by
  refine ⟨partitioned original resumed prior current, ?_, ?_⟩
  · intro d hd
    obtain ⟨⟨o, r⟩, hpair, hreport⟩ := List.mem_flatMap.mp hd
    obtain ⟨id, -, hr⟩ := exists_of_mem_pair hpair
    obtain ⟨f, -, hreport⟩ := List.mem_filterMap.mp hreport
    have hname := (fieldDrop_eq_some hreport).1
    refine ⟨id, List.mem_filter.mpr ⟨hd, ?_⟩⟩
    simp [hname, (idKeyed_mem hr).2]
  · intro c hc
    obtain ⟨⟨o, r⟩, hpair, hreport⟩ := List.mem_flatMap.mp hc
    obtain ⟨id, -, hr⟩ := exists_of_mem_pair hpair
    obtain ⟨f, -, hreport⟩ := List.mem_filterMap.mp hreport
    have hname := (fieldChange_eq_some hreport).1
    refine ⟨id, List.mem_filter.mpr ⟨hc, ?_⟩⟩
    simp [hname, (idKeyed_mem hr).2]

end

end PayrollAgent.ChangePartition
