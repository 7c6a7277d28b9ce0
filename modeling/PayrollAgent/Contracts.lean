import PayrollAgent.Roster
import PayrollAgent.Lib.Dict

namespace PayrollAgent

open Lib

/-- The five `hours_*` fields, in the order of `HOURS_FIELDS`. -/
inductive HoursField
  | regular
  | overtime
  | vacation
  | sick
  | holiday
  deriving DecidableEq

instance : LawfulBEq (Uuid × HoursField) := inferInstance

def HoursField.all : List HoursField := [.regular, .overtime, .vacation, .sick, .holiday]

theorem HoursField.mem_all (f : HoursField) : f ∈ HoursField.all := by
  cases f <;> decide

def HoursField.name : HoursField → Str
  | .regular => "hours_regular".toList
  | .overtime => "hours_overtime".toList
  | .vacation => "hours_vacation".toList
  | .sick => "hours_sick".toList
  | .holiday => "hours_holiday".toList

def HoursField.ofName (s : Str) : Option HoursField := HoursField.all.find? (fun f => f.name = s)

@[simp] theorem HoursField.ofName_name (f : HoursField) : HoursField.ofName f.name = some f := by
  cases f <;> decide

structure ExtractedEmployee where
  submittedName : Str
  hoursRegular : Option ℚ≥0
  hoursOvertime : Option ℚ≥0
  hoursVacation : Option ℚ≥0
  hoursSick : Option ℚ≥0
  hoursHoliday : Option ℚ≥0
  contribution401kOverride : Option Fraction
  deriving DecidableEq

/-- `getattr(emp, field)`. -/
def ExtractedEmployee.hours (e : ExtractedEmployee) : HoursField → Option ℚ≥0
  | .regular => e.hoursRegular
  | .overtime => e.hoursOvertime
  | .vacation => e.hoursVacation
  | .sick => e.hoursSick
  | .holiday => e.hoursHoliday

/-- `emp.model_copy(update={field: v})`. -/
def ExtractedEmployee.setHours (e : ExtractedEmployee) (f : HoursField) (v : Option ℚ≥0) :
    ExtractedEmployee :=
  match f with
  | .regular => { e with hoursRegular := v }
  | .overtime => { e with hoursOvertime := v }
  | .vacation => { e with hoursVacation := v }
  | .sick => { e with hoursSick := v }
  | .holiday => { e with hoursHoliday := v }

@[simp] theorem ExtractedEmployee.hours_setHours (e : ExtractedEmployee) (f g : HoursField)
    (v : Option ℚ≥0) : (e.setHours f v).hours g = if g = f then v else e.hours g := by
  cases f <;> cases g <;> rfl

@[simp] theorem ExtractedEmployee.submittedName_setHours (e : ExtractedEmployee) (f : HoursField)
    (v : Option ℚ≥0) : (e.setHours f v).submittedName = e.submittedName := by
  cases f <;> rfl

theorem ExtractedEmployee.ext_hours {e e' : ExtractedEmployee}
    (hname : e.submittedName = e'.submittedName)
    (hcontribution : e.contribution401kOverride = e'.contribution401kOverride)
    (hhours : ∀ f, e.hours f = e'.hours f) : e = e' := by
  have hregular := hhours .regular
  have hovertime := hhours .overtime
  have hvacation := hhours .vacation
  have hsick := hhours .sick
  have hholiday := hhours .holiday
  cases e
  cases e'
  simp_all [ExtractedEmployee.hours]

def reported (name : Str) (regular overtime : Option ℚ≥0) : ExtractedEmployee :=
  ⟨name, regular, overtime, none, none, none, none⟩

def whole (n : Nat) : Option ℚ≥0 := some n

abbrev Date := Nat

structure Extracted where
  runId : Uuid
  employees : List ExtractedEmployee
  payPeriodStart : Option Date
  payPeriodEnd : Option Date
  deriving DecidableEq

def Extracted.names (x : Extracted) : List Str := x.employees.map ExtractedEmployee.submittedName

/-- An hours value that was paid and is gone from the reply. A `resumedValue`
of `none` is silence, zero is an explicit removal. -/
structure RawFieldDrop where
  submittedName : Str
  field : HoursField
  originalValue : ℚ≥0
  resumedValue : Option ℚ≥0
  deriving DecidableEq

structure HoursChange where
  submittedName : Str
  field : HoursField
  originalValue : ℚ≥0
  resumedValue : ℚ≥0
  deriving DecidableEq

inductive ClarifiedFieldOutcome
  | asked
  | carriedForward
  | confirmedDropped
  | clientSupplied
  deriving DecidableEq

/-- The `clarified_fields` column: outcome by employee id and field. -/
abbrev ClarifiedFields := Dict Uuid (Dict HoursField ClarifiedFieldOutcome)

def ClarifiedFields.outcome (c : ClarifiedFields) (id : Uuid) (f : HoursField) :
    Option ClarifiedFieldOutcome :=
  (c.get? id).bind (fun fields => fields.get? f)

inductive FinalAction
  | process
  | requestClarification
  deriving DecidableEq

structure Decision where
  finalAction : FinalAction
  gateReasons : List Str
  unresolvedNames : List Str
  missingFields : List Str
  resolutions : List NameMatchResult
  deriving DecidableEq

structure PaystubLineItem where
  runId : Uuid
  employeeId : Uuid
  submittedName : Str
  hours : HoursField → ℚ≥0
  grossPay : ℚ
  pretax401k : ℚ
  ficaSs : ℚ
  ficaMedicare : ℚ
  federalWithholding : ℚ
  stateWithholding : Option ℚ
  netPay : ℚ
  additionalMedicareNotModeled : Bool

end PayrollAgent
