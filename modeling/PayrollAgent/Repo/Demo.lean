import PayrollAgent.Schema
import PayrollAgent.Lib.Calendar

namespace PayrollAgent

def Run.payPeriodStart (run : Run) : Option Date := run.extractedData.bind Extracted.payPeriodStart

def Run.payPeriodEnd (run : Run) : Option Date := run.extractedData.bind Extracted.payPeriodEnd

end PayrollAgent

namespace PayrollAgent.Repo

open Lib Calendar

inductive YtdCategory
  | grossPay
  | federalWithholding
  | ficaSs
  | ficaMedicare
  | stateWithholding
  | pretax401k
  | netPay
  deriving DecidableEq

def YtdCategory.amount : YtdCategory → PaystubLineItem → ℚ
  | .grossPay, item => item.grossPay
  | .federalWithholding, item => item.federalWithholding
  | .ficaSs, item => item.ficaSs
  | .ficaMedicare, item => item.ficaMedicare
  | .stateWithholding, item => item.stateWithholding.getD 0
  | .pretax401k, item => item.pretax401k
  | .netPay, item => item.netPay

def sumOf (c : YtdCategory) (items : List PaystubLineItem) : ℚ := (items.map c.amount).sum

abbrev PriorTotals := YtdCategory → ℚ

/-- The condition on the historical run. A comparison with an absent date does
not hold. -/
def historical (businessId : Uuid) (start : Date) (run : Run) : Bool :=
  run.businessId = businessId && run.status = .reconciled &&
    run.payPeriodStart.any (fun s => dateTruncYear start ≤ s) && run.payPeriodEnd.any (fun e => e < start)

/-- The line items of the employee in the runs that meet a condition. -/
def itemsWhere (db : Db) (p : Run → Bool) (employeeId : Uuid) : List PaystubLineItem :=
  db.runs.entries.flatMap fun e =>
    if p e.2 then e.2.lineItems.filter fun item => item.employeeId = employeeId else []

def priorTotals (db : Db) (businessId : Uuid) (start : Date) (employeeId : Uuid) : Option PriorTotals :=
  let items := itemsWhere db (historical businessId start) employeeId
  if items.isEmpty then none else some fun c => sumOf c items

def loadPriorReconciledPaystubTotals (db : Db) (businessId : Uuid) (employeeIds : List Uuid)
    (payPeriodStart : Option Date) : Dict Uuid PriorTotals :=
  match payPeriodStart with
  | none => Dict.empty
  | some start =>
      Dict.ofList (employeeIds.filterMap fun id =>
        (priorTotals db businessId start id).map fun totals => (id, totals))

theorem loadPriorReconciledPaystubTotals_get? (db : Db) (businessId : Uuid) {employeeIds : List Uuid}
    (start : Date) {id : Uuid} (h : id ∈ employeeIds) (c : YtdCategory) :
    (((loadPriorReconciledPaystubTotals db businessId employeeIds (some start)).get? id).map
        fun totals => totals c).getD 0 =
      sumOf c (itemsWhere db (historical businessId start) id) := by
  have hget : (loadPriorReconciledPaystubTotals db businessId employeeIds (some start)).get? id =
      priorTotals db businessId start id := by
    rw [loadPriorReconciledPaystubTotals, Dict.get?_ofList_filterMap employeeIds (fun i => i),
      List.map_id', if_pos h]
  rw [hget, priorTotals]
  cases itemsWhere db (historical businessId start) id with
  | nil => rfl
  | cons item rest => rfl

end PayrollAgent.Repo
