import PayrollAgent.Calculate
import PayrollAgent.Decide

namespace PayrollAgent.ComputeLineItems

open Lib Calculate ReconcileNames

def matchByName (matches' : List NameMatchResult) : Dict Str NameMatchResult :=
  Dict.ofList (matches'.map (fun m => (m.submittedName, m)))

def empById (roster : Roster) : Dict Uuid Employee :=
  Dict.ofList (roster.employees.map (fun e => (e.id, e)))

def stamp (runId : Uuid) (ee : ExtractedEmployee) (item : PaystubLineItem) : PaystubLineItem :=
  { item with runId := runId, submittedName := ee.submittedName }

/-- One turn of the loop. An unmatched name is skipped, a matched employee who
is not on the roster is an integrity error. -/
def lineItem (runId : Uuid) (matches' : List NameMatchResult) (roster : Roster)
    (ee : ExtractedEmployee) : Except CalculationError (Option PaystubLineItem) :=
  match ((matchByName matches').get? ee.submittedName).bind NameMatchResult.matchedEmployeeId with
  | none => .ok none
  | some id =>
      match (empById roster).get? id with
      | none => .error (.processRunIntegrity id ee.submittedName)
      | some employee => do
          let item ← calculate ee.hours employee ee.contribution401kOverride
          return some (stamp runId ee item)

def lineItems (runId : Uuid) (matches' : List NameMatchResult) (roster : Roster) :
    List ExtractedEmployee → Except CalculationError (List PaystubLineItem)
  | [] => .ok []
  | ee :: rest => do
      let item ← lineItem runId matches' roster ee
      let items ← lineItems runId matches' roster rest
      return item.toList ++ items

def computeLineItems (runId : Uuid) (extracted : Extracted) (matches' : List NameMatchResult)
    (roster : Roster) : Except CalculationError (List PaystubLineItem) :=
  lineItems runId matches' roster extracted.employees

/-- `item` is the paystub of one extracted employee: the stamped result of
`calculate` on that entry's own hours and override, for the roster employee
its name is matched to. -/
def PaystubOf (runId : Uuid) (roster : Roster) (resolve : Str → NameMatchResult)
    (ee : ExtractedEmployee) (item : PaystubLineItem) : Prop :=
  ∃ employee ∈ roster.employees, ∃ computed,
    (resolve ee.submittedName).matchedEmployeeId = some employee.id ∧
    calculate ee.hours employee ee.contribution401kOverride = .ok computed ∧
    item = stamp runId ee computed

theorem PaystubOf.matched {runId : Uuid} {roster : Roster} {resolve : Str → NameMatchResult}
    {ee : ExtractedEmployee} {item : PaystubLineItem} (h : PaystubOf runId roster resolve ee item) :
    (resolve ee.submittedName).matchedEmployeeId = some item.employeeId := by
  obtain ⟨employee, -, computed, hid, hcomputed, rfl⟩ := h
  obtain ⟨item, hitem, he⟩ := calculate_ok ee.hours employee ee.contribution401kOverride
  obtain rfl : item = computed := Except.ok.inj (hitem.symm.trans hcomputed)
  rw [hid, ← he]
  rfl

theorem empById_get? (roster : Roster) {id : Uuid} (h : id ∈ roster.ids) :
    ∃ employee ∈ roster.employees, employee.id = id ∧ (empById roster).get? id = some employee := by
  obtain ⟨employee, hmem, rfl⟩ := List.mem_map.mp h
  refine ⟨employee, hmem, rfl, Dict.get?_ofList_of_nodup ?_ ?_⟩
  · simpa [Function.comp_def] using roster.uniqueIds
  · exact List.mem_map.mpr ⟨employee, hmem, rfl⟩

theorem matchByName_get? {matches' : List NameMatchResult}
    (hnodup : (matches'.map NameMatchResult.submittedName).Nodup) {m : NameMatchResult}
    (hm : m ∈ matches') : (matchByName matches').get? m.submittedName = some m := by
  refine Dict.get?_ofList_of_nodup ?_ (List.mem_map.mpr ⟨m, hm, rfl⟩)
  simpa [Function.comp_def] using hnodup

theorem lineItems_forall₂ (runId : Uuid) (matches' : List NameMatchResult) (roster : Roster)
    (resolve : Str → NameMatchResult) (employees : List ExtractedEmployee)
    (hitem : ∀ ee ∈ employees, ∃ item, lineItem runId matches' roster ee = .ok (some item) ∧
      PaystubOf runId roster resolve ee item) :
    ∃ items, lineItems runId matches' roster employees = .ok items ∧
      List.Forall₂ (PaystubOf runId roster resolve) employees items := by
  induction employees with
  | nil => exact ⟨[], rfl, .nil⟩
  | cons ee rest ih =>
      obtain ⟨item, hok, hpaid⟩ := hitem ee (List.mem_cons_self ..)
      obtain ⟨items, hoks, hall⟩ := ih fun e he => hitem e (List.mem_cons_of_mem _ he)
      refine ⟨item :: items, ?_, .cons hpaid hall⟩
      rw [lineItems, hok, hoks]
      rfl

theorem nodup_employeeIds {runId : Uuid} {roster : Roster} {resolve : Str → NameMatchResult}
    {employees : List ExtractedEmployee} {items : List PaystubLineItem}
    (hall : List.Forall₂ (PaystubOf runId roster resolve) employees items)
    (hids : (employees.map fun ee => (resolve ee.submittedName).matchedEmployeeId).Nodup) :
    (items.map PaystubLineItem.employeeId).Nodup := by
  have hsome : employees.map (fun ee => (resolve ee.submittedName).matchedEmployeeId) =
      (items.map PaystubLineItem.employeeId).map some := by
    induction hall with
    | nil => rfl
    | cons hpaid _ ih =>
        rw [List.map_cons, List.nodup_cons] at hids
        rw [List.map_cons, List.map_cons, List.map_cons, hpaid.matched, ih hids.2]
  rw [hsome] at hids
  exact hids.of_map

section Gate

variable [PyText] {extracted : Extracted} {roster : Roster} {overrides : Option Overrides}
  {issues : List ValidationIssue}

theorem matchedIds_nodup
    (h : Decide.Clean extracted (reconcileNames extracted.names roster overrides) issues) :
    ((reconcileNames extracted.names roster overrides).map
      NameMatchResult.matchedEmployeeId).Nodup := by
  have hnames := h.namesNodup
  rw [map_submittedName_reconcileNames] at hnames
  rw [reconcileNames, List.map_map, List.nodup_map_iff_inj_on hnames]
  intro a ha b hb he
  have hm := reconcileName_mem roster overrides ha
  have hn := reconcileName_mem roster overrides hb
  obtain ⟨id, hid⟩ := (NameMatchResult.resolved_iff _).mp (h.resolved _ hm)
  have hsame := h.sameName _ hm _ hn id hid (he.symm.trans hid)
  simpa using hsame

theorem lineItem_ok (runId : Uuid)
    (h : Decide.Clean extracted (reconcileNames extracted.names roster overrides) issues)
    {ee : ExtractedEmployee} (hee : ee ∈ extracted.employees) :
    ∃ item, lineItem runId (reconcileNames extracted.names roster overrides) roster ee =
        .ok (some item) ∧
      PaystubOf runId roster (reconcileName roster (overrides.getD Dict.empty)) ee item := by
  have hname : ee.submittedName ∈ extracted.names := List.mem_map_of_mem hee
  have hm := reconcileName_mem roster overrides hname
  have hget := matchByName_get? h.namesNodup hm
  rw [submittedName_reconcileName] at hget
  obtain ⟨id, hid⟩ := (NameMatchResult.resolved_iff _).mp (h.resolved _ hm)
  obtain ⟨employee, hemployee, rfl, hrow⟩ := empById_get? roster (reconcileName_mem_roster hid)
  obtain ⟨computed, hcomputed, -⟩ := calculate_ok ee.hours employee ee.contribution401kOverride
  refine ⟨stamp runId ee computed, ?_, employee, hemployee, computed, hid, hcomputed, rfl⟩
  simp only [lineItem, hget, Option.bind_some, hid, hrow, hcomputed]
  rfl

/-- A processed run pays every submitted person exactly once. -/
theorem one_paystub_per_person (runId : Uuid)
    (h : (Decide.decide extracted (reconcileNames extracted.names roster overrides)
      issues).finalAction = .process) :
    ((reconcileNames extracted.names roster overrides).map NameMatchResult.submittedName).Perm
        extracted.names ∧
      (∀ m ∈ reconcileNames extracted.names roster overrides, m.resolved = true) ∧
      ((reconcileNames extracted.names roster overrides).map
        NameMatchResult.matchedEmployeeId).Nodup ∧
      (∀ m ∈ reconcileNames extracted.names roster overrides,
        ∃ id ∈ roster.ids, m.matchedEmployeeId = some id) ∧
      ∃ items,
        computeLineItems runId extracted (reconcileNames extracted.names roster overrides) roster =
          .ok items ∧
        List.Forall₂ (PaystubOf runId roster (reconcileName roster (overrides.getD Dict.empty)))
          extracted.employees items ∧
        (items.map PaystubLineItem.employeeId).Nodup := by
  have hclean := Decide.clean_of_process h
  obtain ⟨items, hitems, hall⟩ := lineItems_forall₂ runId _ roster _ extracted.employees
    fun ee hee => lineItem_ok runId hclean hee
  refine ⟨hclean.oneForOne, hclean.resolved, matchedIds_nodup hclean, ?_, items, hitems, hall,
    nodup_employeeIds hall ?_⟩
  · intro m hm
    obtain ⟨id, hid⟩ := (NameMatchResult.resolved_iff m).mp (hclean.resolved m hm)
    obtain ⟨name, -, rfl⟩ := (mem_reconcileNames_iff _ _ _ _).mp hm
    exact ⟨id, reconcileName_mem_roster hid, hid⟩
  · have hids := matchedIds_nodup hclean
    simpa [reconcileNames, Extracted.names, Function.comp_def] using hids

end Gate

/-- The alias bridges two spellings, and the run pays both people. -/
theorem one_paystub_per_person_alias :
    let _ : PyText := asciiText
    let roster : Roster :=
      ⟨[hourlyWorker 1 "Maria Chen".toList ["m. chen".toList], hourlyWorker 2 "Bob".toList []],
        by decide⟩
    let extracted : Extracted :=
      ⟨9, [reported "BOB".toList (some 38) none, reported "M.  Chen".toList (some 40) (some 2)],
        none, none⟩
    ∃ items,
      computeLineItems 9 extracted (reconcileNames extracted.names roster none) roster = .ok items ∧
        items.length = 2 := by
  intro _ roster extracted
  have hclean : (Decide.decide extracted (reconcileNames extracted.names roster none) []).finalAction =
      .process := by
    decide
  obtain ⟨-, -, -, -, items, hitems, hall, -⟩ := one_paystub_per_person 9 hclean
  exact ⟨items, hitems, hall.length_eq.symm⟩

end PayrollAgent.ComputeLineItems
