import PayrollAgent.Validate

namespace PayrollAgent.Backfill

open Lib Validate

def fillFields (id : Uuid) (snap emp : ExtractedEmployee) (resolvedDrops : Pairs)
    (acc : ExtractedEmployee) (f : HoursField) : ExtractedEmployee :=
  if !isPaid (emp.hours f) && isPaid (snap.hours f) && (id, f) ∉ resolvedDrops then
    acc.setHours f (snap.hours f)
  else acc

def backfillEmployee (snapshotById : Dict Uuid ExtractedEmployee) (current : Dict Str Uuid)
    (resolvedDrops : Pairs) (emp : ExtractedEmployee) : ExtractedEmployee :=
  match current.get? emp.submittedName with
  | none => emp
  | some id =>
      match snapshotById.get? id with
      | none => emp
      | some snap => HoursField.all.foldl (fillFields id snap emp resolvedDrops) emp

/-- Fields the client went silent on take the snapshot's value. Both sides are
keyed by employee id. -/
def backfillExtracted (extracted : Extracted) (snapshot : Option Extracted)
    (priorMatches : Option (List NameMatchResult)) (matches' : List NameMatchResult)
    (resolvedDrops : Pairs) : Extracted :=
  match snapshot with
  | none => extracted
  | some snap =>
      { extracted with
        employees := extracted.employees.map
          (backfillEmployee (idKeyed snap (priorMatches.getD [])) (nameToId matches')
            resolvedDrops) }

theorem hours_foldl_fillFields (id : Uuid) (snap emp acc : ExtractedEmployee) (drops : Pairs)
    (fields : List HoursField) (f : HoursField) :
    (fields.foldl (fillFields id snap emp drops) acc).hours f =
      if f ∈ fields ∧ isPaid (emp.hours f) = false ∧ isPaid (snap.hours f) = true ∧
        (id, f) ∉ drops then snap.hours f else acc.hours f := by
  induction fields generalizing acc with
  | nil => simp
  | cons g rest ih =>
      rw [List.foldl_cons, ih]
      by_cases hg : f = g
      · subst hg
        by_cases hfill : isPaid (emp.hours f) = false ∧ isPaid (snap.hours f) = true ∧ (id, f) ∉ drops
        · obtain ⟨h1, h2, h3⟩ := hfill
          simp [fillFields, h1, h2, h3]
        · have hnot : ¬(!isPaid (emp.hours f) && isPaid (snap.hours f) &&
              decide ((id, f) ∉ drops)) = true := by
            simpa [and_assoc] using hfill
          simp only [fillFields, if_neg hnot]
          simp [hfill]
      · have hkeep : (fillFields id snap emp drops acc g).hours f = acc.hours f := by
          unfold fillFields
          split
          · rw [ExtractedEmployee.hours_setHours, if_neg hg]
          · rfl
        simp [hg, hkeep]

theorem foldl_fillFields_of_setHours {β : Type} {g : ExtractedEmployee → β}
    (hg : ∀ e f v, g (ExtractedEmployee.setHours e f v) = g e) (id : Uuid)
    (snap emp acc : ExtractedEmployee) (drops : Pairs) (fields : List HoursField) :
    g (fields.foldl (fillFields id snap emp drops) acc) = g acc := by
  induction fields generalizing acc with
  | nil => rfl
  | cons f rest ih =>
      rw [List.foldl_cons, ih]
      unfold fillFields
      split
      · exact hg _ _ _
      · rfl

theorem backfillEmployee_of_setHours {β : Type} {g : ExtractedEmployee → β}
    (hg : ∀ e f v, g (ExtractedEmployee.setHours e f v) = g e)
    (snapshotById : Dict Uuid ExtractedEmployee) (current : Dict Str Uuid) (drops : Pairs)
    (emp : ExtractedEmployee) : g (backfillEmployee snapshotById current drops emp) = g emp := by
  unfold backfillEmployee
  split
  · rfl
  · split
    · rfl
    · exact foldl_fillFields_of_setHours hg _ _ _ _ _ _

@[simp] theorem submittedName_backfillEmployee (snapshotById : Dict Uuid ExtractedEmployee)
    (current : Dict Str Uuid) (drops : Pairs) (emp : ExtractedEmployee) :
    (backfillEmployee snapshotById current drops emp).submittedName = emp.submittedName :=
  backfillEmployee_of_setHours ExtractedEmployee.submittedName_setHours _ _ _ _

theorem hours_backfillEmployee {snapshotById : Dict Uuid ExtractedEmployee} {current : Dict Str Uuid}
    {drops : Pairs} {emp snap : ExtractedEmployee} {id : Uuid}
    (hid : current.get? emp.submittedName = some id) (hsnap : snapshotById.get? id = some snap)
    (f : HoursField) :
    (backfillEmployee snapshotById current drops emp).hours f =
      if isPaid (emp.hours f) = false ∧ isPaid (snap.hours f) = true ∧ (id, f) ∉ drops then
        snap.hours f
      else emp.hours f := by
  rw [backfillEmployee, hid]
  simp only [hsnap, hours_foldl_fillFields, f.mem_all, true_and]

theorem backfillEmployee_of_unmapped {snapshotById : Dict Uuid ExtractedEmployee}
    {current : Dict Str Uuid} {drops : Pairs} {emp : ExtractedEmployee} {id : Uuid}
    (hid : current.get? emp.submittedName = some id) (hsnap : snapshotById.get? id = none) :
    backfillEmployee snapshotById current drops emp = emp := by
  rw [backfillEmployee, hid]
  simp only [hsnap]

def snapshotEntry (snapshotById : Dict Uuid ExtractedEmployee) (current : Dict Str Uuid) (name : Str) :
    Option (Uuid × ExtractedEmployee) :=
  (current.get? name).bind fun id => (snapshotById.get? id).map fun snap => (id, snap)

structure Carries (entry : Option (Uuid × ExtractedEmployee)) (resolvedDrops : Pairs)
    (emp : ExtractedEmployee) (f : HoursField) (id : Uuid) (snap : ExtractedEmployee) : Prop where
  mapped : entry = some (id, snap)
  silent : isPaid (emp.hours f) = false
  paid : isPaid (snap.hours f) = true
  unanswered : (id, f) ∉ resolvedDrops

/-- An entry before and after: the carried fields take the snapshot's value and
nothing else moves. -/
structure Filled (entry : Option (Uuid × ExtractedEmployee)) (resolvedDrops : Pairs)
    (emp out : ExtractedEmployee) : Prop where
  name : out.submittedName = emp.submittedName
  contribution : out.contribution401kOverride = emp.contribution401kOverride
  carried : ∀ f id snap, Carries entry resolvedDrops emp f id snap → out.hours f = snap.hours f
  changed : ∀ f, out.hours f ≠ emp.hours f → ∃ id snap, Carries entry resolvedDrops emp f id snap

theorem hours_backfillEmployee_of_carries {snapshotById : Dict Uuid ExtractedEmployee}
    {current : Dict Str Uuid} {drops : Pairs} {emp snap : ExtractedEmployee} {f : HoursField} {id : Uuid}
    (h : Carries (snapshotEntry snapshotById current emp.submittedName) drops emp f id snap) :
    (backfillEmployee snapshotById current drops emp).hours f = snap.hours f := by
  obtain ⟨hmapped, hsilent, hpaid, hopen⟩ := h
  obtain ⟨i, hi, hentry⟩ := Option.bind_eq_some_iff.mp hmapped
  obtain ⟨s, hs, hp⟩ := Option.map_eq_some_iff.mp hentry
  obtain ⟨rfl, rfl⟩ := Prod.mk.inj hp
  rw [hours_backfillEmployee hi hs, if_pos ⟨hsilent, hpaid, hopen⟩]

theorem carries_of_hours_ne {snapshotById : Dict Uuid ExtractedEmployee} {current : Dict Str Uuid}
    {drops : Pairs} {emp : ExtractedEmployee} {f : HoursField}
    (h : (backfillEmployee snapshotById current drops emp).hours f ≠ emp.hours f) :
    ∃ id snap, Carries (snapshotEntry snapshotById current emp.submittedName) drops emp f id snap := by
  cases hid : current.get? emp.submittedName with
  | none => exact absurd (by rw [backfillEmployee, hid]) h
  | some id =>
      cases hsnap : snapshotById.get? id with
      | none => exact absurd (by rw [backfillEmployee_of_unmapped hid hsnap]) h
      | some snap =>
          rw [hours_backfillEmployee hid hsnap] at h
          by_cases hfill : isPaid (emp.hours f) = false ∧ isPaid (snap.hours f) = true ∧ (id, f) ∉ drops
          · obtain ⟨hsilent, hpaid, hopen⟩ := hfill
            exact ⟨id, snap, by simp [snapshotEntry, hid, hsnap], hsilent, hpaid, hopen⟩
          · rw [if_neg hfill] at h
            exact absurd rfl h

theorem filled_backfillEmployee (snapshotById : Dict Uuid ExtractedEmployee) (current : Dict Str Uuid)
    (drops : Pairs) (emp : ExtractedEmployee) :
    Filled (snapshotEntry snapshotById current emp.submittedName) drops emp
      (backfillEmployee snapshotById current drops emp) where
  name := submittedName_backfillEmployee _ _ _ _
  contribution := backfillEmployee_of_setHours (fun e f v => by cases f <;> rfl) _ _ _ _
  carried := fun _ _ _ h => hours_backfillEmployee_of_carries h
  changed := fun _ h => carries_of_hours_ne h

theorem backfillEmployee_backfillEmployee (snapshotById : Dict Uuid ExtractedEmployee)
    (current : Dict Str Uuid) (drops : Pairs) (emp : ExtractedEmployee) :
    backfillEmployee snapshotById current drops (backfillEmployee snapshotById current drops emp) =
      backfillEmployee snapshotById current drops emp := by
  have hfilled := filled_backfillEmployee snapshotById current drops emp
  have hagain := filled_backfillEmployee snapshotById current drops
    (backfillEmployee snapshotById current drops emp)
  apply ExtractedEmployee.ext_hours hagain.name hagain.contribution
  intro f
  by_contra hne
  obtain ⟨id, snap, hcarry⟩ := hagain.changed f hne
  have hsilent := hcarry.silent
  rw [hfilled.name] at hcarry
  by_cases hkept : (backfillEmployee snapshotById current drops emp).hours f = emp.hours f
  · have hfirst : Carries (snapshotEntry snapshotById current emp.submittedName) drops emp f id snap :=
      ⟨hcarry.mapped, hkept ▸ hsilent, hcarry.paid, hcarry.unanswered⟩
    have hpaid := hcarry.paid
    rw [← hfilled.carried f id snap hfirst, hsilent] at hpaid
    cases hpaid
  · obtain ⟨i, s, hfirst⟩ := hfilled.changed f hkept
    have hpaid := hfirst.paid
    rw [← hfilled.carried f i s hfirst, hsilent] at hpaid
    cases hpaid

/-- Entry by entry, in order, backfill carries exactly the silent fields the
snapshot paid and the client has not answered, and a second pass finds nothing
to do. -/
theorem backfill_exact (extracted : Extracted) (snapshot : Option Extracted)
    (priorMatches : Option (List NameMatchResult)) (matches' : List NameMatchResult)
    (resolvedDrops : Pairs) :
    let out := backfillExtracted extracted snapshot priorMatches matches' resolvedDrops
    List.Forall₂ (fun emp out => Filled (snapshot.bind fun snap =>
        snapshotEntry (idKeyed snap (priorMatches.getD [])) (nameToId matches') emp.submittedName)
          resolvedDrops emp out)
      extracted.employees out.employees ∧
      out.runId = extracted.runId ∧ out.payPeriodStart = extracted.payPeriodStart ∧
      out.payPeriodEnd = extracted.payPeriodEnd ∧
      backfillExtracted out snapshot priorMatches matches' resolvedDrops = out := by
  cases snapshot with
  | none =>
      refine ⟨?_, rfl, rfl, rfl, rfl⟩
      apply List.forall₂_same.mpr
      intro emp _
      exact ⟨rfl, rfl, fun _ _ _ h => (by cases h.mapped), fun _ h => absurd rfl h⟩
  | some snap =>
      refine ⟨?_, rfl, rfl, rfl, ?_⟩
      · apply List.forall₂_map_right_iff.mpr
        apply List.forall₂_same.mpr
        intro emp _
        exact filled_backfillEmployee _ _ _ _
      · simp only [backfillExtracted, List.map_map, Function.comp_def, backfillEmployee_backfillEmployee]

end PayrollAgent.Backfill
