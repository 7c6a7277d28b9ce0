import PayrollAgent.Repo.Demo
import PayrollAgent.PaystubIdentity
import PayrollAgent.ComputeLineItems
import Mathlib.Algebra.Order.BigOperators.Group.List

namespace PayrollAgent.PaystubYtd

open Lib Calendar Repo PaystubIdentity Calculate ComputeLineItems

abbrev PaystubYtdTotals := YtdCategory → ℚ

/-- The prior values, zero where there are none, and this pay period. -/
def fromPrior (prior : Option PriorTotals) (item : PaystubLineItem) : PaystubYtdTotals :=
  fun c => (prior.map fun totals => totals c).getD 0 + c.amount item

def sumYtdDeductions (ytd : PaystubYtdTotals) : ℚ :=
  ytd .federalWithholding + ytd .ficaSs + ytd .ficaMedicare + ytd .stateWithholding + ytd .pretax401k

/-- The totals that `deliver` prints on one paystub of a run. -/
def printedYtd (db : Db) (run : Run) (item : PaystubLineItem) : PaystubYtdTotals :=
  fromPrior ((loadPriorReconciledPaystubTotals db run.businessId
    (run.lineItems.map PaystubLineItem.employeeId) run.payPeriodStart).get? item.employeeId) item

/-- A reconciled run of the business that starts earlier in the same year. -/
def earlier (businessId : Uuid) (start : Date) (run : Run) : Bool :=
  run.businessId = businessId && run.status = .reconciled &&
    run.payPeriodStart.any fun s => yearOf s = yearOf start ∧ s < start

def Pays (item : PaystubLineItem) : Prop := ∃ c : YtdCategory, c.amount item ≠ 0

/-- Gross is paid out as net or deducted, and only net can be negative. -/
structure Balanced (item : PaystubLineItem) : Prop where
  identity : item.grossPay = item.netPay + sumYtdDeductions fun c => c.amount item
  nonneg : ∀ c : YtdCategory, c ≠ .netPay → 0 ≤ c.amount item

theorem balanced_paystub (hours : HoursField → Option ℚ≥0) (employee : Employee)
    (override : Option Fraction) : Balanced (paystub hours employee override) := by
  have hgross := grossPay_nonneg (resolvedHours hours) employee
  constructor
  · simp only [sumYtdDeductions, YtdCategory.amount, paystub, Option.getD_none]
    ring
  · intro c hc
    cases c with
    | grossPay => exact hgross
    | federalWithholding => exact FederalWithholding.federalWithholding2026_nonneg _ _
    | ficaSs =>
        apply Money.money_nonneg
        exact mul_nonneg (ssTaxable_nonneg hgross employee) (by norm_num [TaxTables2026.ssRate])
    | ficaMedicare =>
        apply Money.money_nonneg
        exact mul_nonneg hgross (by norm_num [TaxTables2026.medicareRate])
    | stateWithholding => exact le_rfl
    | pretax401k =>
        apply Money.money_nonneg
        exact mul_nonneg hgross (by rw [rate401k]; positivity)
    | netPay => exact absurd rfl hc

@[simp] theorem sumOf_nil (c : YtdCategory) : sumOf c [] = 0 := rfl

@[simp] theorem sumOf_append (c : YtdCategory) (xs ys : List PaystubLineItem) :
    sumOf c (xs ++ ys) = sumOf c xs + sumOf c ys := by
  simp [sumOf]

theorem mem_itemsWhere {db : Db} {p : Run → Bool} {employeeId : Uuid} {item : PaystubLineItem} :
    item ∈ itemsWhere db p employeeId ↔ ∃ r run, db.runs.get? r = some run ∧ p run = true ∧
      item ∈ run.lineItems ∧ item.employeeId = employeeId := by
  simp only [itemsWhere, List.mem_flatMap]
  constructor
  · rintro ⟨⟨r, run⟩, hrun, hitem⟩
    by_cases hp : p run = true
    · rw [if_pos hp, List.mem_filter] at hitem
      exact ⟨r, run, (Dict.get?_eq_some_iff _ _ _).mpr hrun, hp, hitem.1, by simpa using hitem.2⟩
    · rw [if_neg hp] at hitem
      cases hitem
  · rintro ⟨r, run, hrun, hp, hmem, hid⟩
    refine ⟨(r, run), (Dict.get?_eq_some_iff _ _ _).mp hrun, ?_⟩
    rw [if_pos hp, List.mem_filter]
    exact ⟨hmem, by simpa using hid⟩

theorem sumOf_itemsWhere_or {db : Db} {p q : Run → Bool}
    (h : ∀ r run, db.runs.get? r = some run → ¬ (p run = true ∧ q run = true)) (employeeId : Uuid)
    (c : YtdCategory) :
    sumOf c (itemsWhere db (fun run => p run || q run) employeeId) =
      sumOf c (itemsWhere db p employeeId) + sumOf c (itemsWhere db q employeeId) := by
  have hentries : ∀ e ∈ db.runs.entries, ¬ (p e.2 = true ∧ q e.2 = true) :=
    fun e he => h e.1 e.2 ((Dict.get?_eq_some_iff _ _ _).mpr he)
  simp only [itemsWhere]
  generalize db.runs.entries = entries at hentries
  induction entries with
  | nil => simp
  | cons e rest ih =>
      have hrest := ih fun e' he' => hentries e' (List.mem_cons_of_mem _ he')
      have hfirst := hentries e (List.mem_cons_self ..)
      rw [List.flatMap_cons, List.flatMap_cons, List.flatMap_cons, sumOf_append, sumOf_append,
        sumOf_append, hrest]
      by_cases hp : p e.2 = true
      · have hq : ¬ q e.2 = true := fun hq => hfirst ⟨hp, hq⟩
        have hor : (p e.2 || q e.2) = true := by simp [hp]
        rw [if_pos hor, if_pos hp, if_neg hq, sumOf_nil]
        ring
      · by_cases hq : q e.2 = true
        · have hor : (p e.2 || q e.2) = true := by simp [hq]
          rw [if_pos hor, if_neg hp, if_pos hq, sumOf_nil]
          ring
        · have hor : ¬ (p e.2 || q e.2) = true := by simp [hp, hq]
          rw [if_neg hor, if_neg hp, if_neg hq, sumOf_nil]
          ring

theorem sumOf_eq_zero_iff {c : YtdCategory} {items : List PaystubLineItem}
    (h : ∀ item ∈ items, 0 ≤ c.amount item) : sumOf c items = 0 ↔ ∀ item ∈ items, c.amount item = 0 := by
  induction items with
  | nil => simp
  | cons item rest ih =>
      have hitem := h item (List.mem_cons_self ..)
      have hrest : 0 ≤ sumOf c rest := by
        apply List.sum_nonneg
        intro a ha
        obtain ⟨i, hi, rfl⟩ := List.mem_map.mp ha
        exact h i (List.mem_cons_of_mem _ hi)
      have hcons : sumOf c (item :: rest) = c.amount item + sumOf c rest := by
        simp [sumOf]
      rw [hcons, add_eq_zero_iff_of_nonneg hitem hrest, ih fun i hi => h i (List.mem_cons_of_mem _ hi)]
      simp

/-- Balanced items show in no total exactly when every total of theirs is zero. -/
theorem sumOf_eq_zero_all_iff {items : List PaystubLineItem} (h : ∀ item ∈ items, Balanced item) :
    (∀ c, sumOf c items = 0) ↔ ∀ item ∈ items, ¬ Pays item := by
  constructor
  · intro hzero item hitem
    have hzeros : ∀ c : YtdCategory, c ≠ .netPay → c.amount item = 0 := fun c hc =>
      (sumOf_eq_zero_iff fun i hi => (h i hi).nonneg c hc).mp (hzero c) item hitem
    have hnet : YtdCategory.netPay.amount item = 0 := by
      have hbalance := (h item hitem).identity
      have hgross : item.grossPay = 0 := hzeros .grossPay (by decide)
      simp only [sumYtdDeductions, hzeros .federalWithholding (by decide), hzeros .ficaSs (by decide),
        hzeros .ficaMedicare (by decide), hzeros .stateWithholding (by decide), hzeros .pretax401k
        (by decide), hgross] at hbalance
      simpa [YtdCategory.amount] using hbalance.symm
    rintro ⟨c, hc⟩
    by_cases hcnet : c = .netPay
    · rw [hcnet] at hc
      exact hc hnet
    · exact hc (hzeros c hcnet)
  · intro hsilent c
    apply List.sum_eq_zero
    intro a ha
    obtain ⟨item, hitem, rfl⟩ := List.mem_map.mp ha
    by_contra hne
    exact hsilent item hitem ⟨c, hne⟩

theorem sumOf_balanced {items : List PaystubLineItem} (h : ∀ item ∈ items, Balanced item) :
    sumOf .grossPay items = sumOf .netPay items + sumYtdDeductions fun c => sumOf c items := by
  induction items with
  | nil => simp [sumYtdDeductions]
  | cons item rest ih =>
      have hrest := ih fun i hi => h i (List.mem_cons_of_mem _ hi)
      have hitem := (h item (List.mem_cons_self ..)).identity
      have hcons : ∀ c, sumOf c (item :: rest) = c.amount item + sumOf c rest := by
        intro c
        simp [sumOf]
      simp only [sumYtdDeductions, hcons] at hrest hitem ⊢
      simp only [YtdCategory.amount] at hrest hitem ⊢
      linarith

theorem Balanced.stamp {item : PaystubLineItem} (h : Balanced item) (runId : Uuid)
    (ee : ExtractedEmployee) : Balanced (stamp runId ee item) := by
  refine ⟨h.identity, fun c hc => ?_⟩
  have hamount := h.nonneg c hc
  cases c <;> exact hamount

theorem balanced_computeLineItems {runId : Uuid} {extracted : Extracted} {matches' : List NameMatchResult}
    {roster : Roster} {items : List PaystubLineItem}
    (h : computeLineItems runId extracted matches' roster = .ok items) :
    ∀ item ∈ items, Balanced item := by
  simp only [computeLineItems] at h
  generalize extracted.employees = employees at h
  induction employees generalizing items with
  | nil =>
      cases h
      simp
  | cons ee rest ih =>
      rw [lineItems] at h
      cases hfirst : lineItem runId matches' roster ee with
      | error _ => simp [hfirst, bind, Except.bind] at h
      | ok first =>
          cases hrest : lineItems runId matches' roster rest with
          | error _ => simp [hfirst, hrest, bind, Except.bind] at h
          | ok more =>
              simp only [hfirst, hrest, bind, Except.bind, pure, Except.pure, Except.ok.injEq] at h
              subst h
              intro item hitem
              obtain hitem | hitem := List.mem_append.mp hitem
              · obtain rfl := Option.mem_toList.mp hitem
                simp only [lineItem, calculate_eq] at hfirst
                split at hfirst
                · cases hfirst
                · split at hfirst
                  · cases hfirst
                  · cases hfirst
                    exact (balanced_paystub _ _ _).stamp runId ee
              · exact ih hrest item hitem

/-- The reconciled runs of the business: no period ends before it starts, and
the line items are balanced. -/
structure Ledger (db : Db) (businessId : Uuid) : Prop where
  ordered : ∀ r run, db.runs.get? r = some run → run.businessId = businessId → run.status = .reconciled →
    ∀ s e, run.payPeriodStart = some s → run.payPeriodEnd = some e → s ≤ e
  balanced : ∀ r run, db.runs.get? r = some run → run.businessId = businessId → run.status = .reconciled →
    ∀ item ∈ run.lineItems, Balanced item

theorem itemsWhere_congr {db : Db} {p q : Run → Bool} (h : ∀ r run, db.runs.get? r = some run →
    p run = q run) (employeeId : Uuid) : itemsWhere db p employeeId = itemsWhere db q employeeId := by
  simp only [itemsWhere]
  apply List.flatMap_congr
  intro e he
  rw [h e.1 e.2 ((Dict.get?_eq_some_iff _ _ _).mpr he)]

def endedBefore (start : Date) (run : Run) : Bool := run.payPeriodEnd.any fun e => e < start

theorem historical_eq {db : Db} {businessId : Uuid} (hledger : Ledger db businessId) (start : Date)
    {r : Uuid} {run : Run} (hrun : db.runs.get? r = some run) :
    historical businessId start run = (earlier businessId start run && endedBefore start run) := by
  rw [Bool.eq_iff_iff]
  simp only [historical, earlier, endedBefore, Bool.and_eq_true, decide_eq_true_eq, Option.any_eq_true]
  constructor
  · rintro ⟨⟨hwhose, s, hs, hyear⟩, e, he, hended⟩
    have horder := hledger.ordered r run hrun hwhose.1 hwhose.2 s e hs he
    have hbefore : s < start := lt_of_le_of_lt horder hended
    have hlow := (dateTruncYear_le_iff start s).mp hyear
    have hhigh := (dateTruncYear_le_iff s start).mp ((dateTruncYear_le s).trans hbefore.le)
    exact ⟨⟨hwhose, s, hs, le_antisymm hhigh hlow, hbefore⟩, e, he, hended⟩
  · rintro ⟨⟨hwhose, s, hs, hyear, -⟩, e, he, hended⟩
    exact ⟨⟨hwhose, s, hs, (dateTruncYear_le_iff start s).mpr hyear.ge⟩, e, he, hended⟩

/-- The earlier runs are the ones the query sums and those it leaves out. -/
theorem sumOf_earlier {db : Db} {businessId : Uuid} (hledger : Ledger db businessId) (start : Date)
    (employeeId : Uuid) (c : YtdCategory) :
    sumOf c (itemsWhere db (earlier businessId start) employeeId) =
      sumOf c (itemsWhere db (historical businessId start) employeeId) +
        sumOf c (itemsWhere db (fun run => earlier businessId start run && !endedBefore start run)
        employeeId) := by
  rw [← sumOf_itemsWhere_or]
  · congr 1
    apply itemsWhere_congr
    intro r run hrun
    rw [historical_eq hledger start hrun]
    cases earlier businessId start run <;> cases endedBefore start run <;> rfl
  · intro r run hrun hboth
    rw [historical_eq hledger start hrun] at hboth
    revert hboth
    cases earlier businessId start run <;> cases endedBefore start run <;> simp

/-- The printed totals are complete exactly where no earlier run that pays the
employee is open-ended or overlaps, and they always balance. -/
theorem ytd_complete_iff (db : Db) (run : Run) (start : Date) (item : PaystubLineItem)
    (hstart : run.payPeriodStart = some start) (hitem : item ∈ run.lineItems) (hbalanced : Balanced item)
    (hledger : Ledger db run.businessId) :
    ((∀ c, printedYtd db run item c =
        sumOf c (itemsWhere db (earlier run.businessId start) item.employeeId) + c.amount item) ↔
      ∀ r other, db.runs.get? r = some other → earlier run.businessId start other = true →
        (∃ i ∈ other.lineItems, i.employeeId = item.employeeId ∧ Pays i) →
          ∃ e, other.payPeriodEnd = some e ∧ e < start) ∧
    printedYtd db run item .grossPay =
      printedYtd db run item .netPay + sumYtdDeductions (printedYtd db run item) := by
  have hprinted : ∀ c, printedYtd db run item c =
      sumOf c (itemsWhere db (historical run.businessId start) item.employeeId) + c.amount item := by
    intro c
    rw [printedYtd, fromPrior, hstart,
      loadPriorReconciledPaystubTotals_get? db run.businessId start (List.mem_map_of_mem hitem)]
  have hwhose : ∀ {p : Run → Bool} {i : PaystubLineItem},
      (∀ other, p other = true → other.businessId = run.businessId ∧ other.status = .reconciled) →
        i ∈ itemsWhere db p item.employeeId → Balanced i := by
    intro p i hp hi
    obtain ⟨r, other, hother, hpother, hmem, -⟩ := mem_itemsWhere.mp hi
    exact hledger.balanced r other hother (hp other hpother).1 (hp other hpother).2 i hmem
  constructor
  · have hcomplete : (∀ c, printedYtd db run item c =
          sumOf c (itemsWhere db (earlier run.businessId start) item.employeeId) + c.amount item) ↔
        ∀ c, sumOf c (itemsWhere db (fun other => earlier run.businessId start other &&
          !endedBefore start other) item.employeeId) = 0 := by
      apply forall_congr'
      intro c
      rw [hprinted, sumOf_earlier hledger]
      constructor <;> intro h <;> linarith
    rw [hcomplete, sumOf_eq_zero_all_iff fun i hi => hwhose (by simp [earlier]; tauto) hi]
    constructor
    · rintro hsilent r other hother hearlier ⟨i, hi, hid, hpays⟩
      by_contra hopen
      apply hsilent i _ hpays
      refine mem_itemsWhere.mpr ⟨r, other, hother, ?_, hi, hid⟩
      rw [hearlier, Bool.true_and, Bool.not_eq_true', Bool.eq_false_iff]
      intro hended
      exact hopen (by simpa [endedBefore, Option.any_eq_true] using hended)
    · intro hall i hi hpays
      obtain ⟨r, other, hother, hleft, hmem, hid⟩ := mem_itemsWhere.mp hi
      rw [Bool.and_eq_true, Bool.not_eq_true'] at hleft
      obtain ⟨e, he, hlt⟩ := hall r other hother hleft.1 ⟨i, hmem, hid, hpays⟩
      have hended : endedBefore start other = true := by simp [endedBefore, he, hlt]
      rw [hended] at hleft
      cases hleft.2
  · have hsum := sumOf_balanced fun i hi =>
      hwhose (p := historical run.businessId start) (by simp [historical]; tauto) hi
    have hone := hbalanced.identity
    simp only [sumYtdDeductions, hprinted] at hsum hone ⊢
    simp only [YtdCategory.amount] at hsum hone ⊢
    linarith

section Weeks

def weekItem : PaystubLineItem :=
  paystub (fun f => if f = .regular then whole 40 else none) (hourlyWorker 1 "ann lee".toList []) none

def weekRun (status : RunStatus) (start : Date) (end' : Option Date) : Run :=
  { Run.created 7 1 0 with
    status := status
    extractedData := some ⟨1, [], some start, end'⟩
    lineItems := [weekItem] }

/-- A reconciled week in June 2026 and, a week later, the current one. -/
def twoWeeks (end' : Option Date) : Db :=
  { Db.empty with
    runs := Dict.ofList [(1, weekRun .reconciled 739782 end'), (2, weekRun .approved 739789 none)] }

theorem twoWeeks_run {end' : Option Date} {r : Uuid} {run : Run}
    (h : (twoWeeks end').runs.get? r = some run) :
    run = weekRun .reconciled 739782 end' ∨ run = weekRun .approved 739789 none := by
  have hmem := Dict.get?_ofList_mem h
  simp only [List.mem_cons, Prod.mk.injEq, List.not_mem_nil, or_false] at hmem
  obtain ⟨-, rfl⟩ | ⟨-, rfl⟩ := hmem
  · exact Or.inl rfl
  · exact Or.inr rfl

theorem twoWeeks_ledger {end' : Option Date} (h : ∀ e, end' = some e → 739782 ≤ e) :
    Ledger (twoWeeks end') 7 where
  ordered := by
    intro r run hrun _ hstatus s e hs he
    obtain rfl | rfl := twoWeeks_run hrun
    · cases hs
      exact h e he
    · cases hstatus
  balanced := by
    intro r run hrun _ _ item hitem
    obtain rfl | rfl := twoWeeks_run hrun <;>
      · obtain rfl := List.mem_singleton.mp hitem
        exact balanced_paystub _ _ _

/-- The first week has no end, and the second paystub does not count it. -/
theorem open_ended_week_left_out :
    ¬ ∀ (db : Db) (run : Run) (start : Date) (item : PaystubLineItem), run.payPeriodStart = some start →
      item ∈ run.lineItems → Balanced item → Ledger db run.businessId → ∀ c, printedYtd db run item c =
        sumOf c (itemsWhere db (earlier run.businessId start) item.employeeId) + c.amount item := by
  intro h
  have hgross := h (twoWeeks none) (weekRun .approved 739789 none) 739789 weekItem rfl
    (List.mem_singleton.mpr rfl) (balanced_paystub _ _ _)
    (twoWeeks_ledger fun e he => by cases he) .grossPay
  revert hgross
  decide +kernel

/-- With its end on file the first week counts. -/
theorem ytd_complete_iff_ended :
    printedYtd (twoWeeks (some 739788)) (weekRun .approved 739789 none) weekItem .grossPay =
      sumOf .grossPay (itemsWhere (twoWeeks (some 739788)) (earlier 7 739789) 1) +
        YtdCategory.grossPay.amount weekItem :=
  (ytd_complete_iff (twoWeeks (some 739788)) (weekRun .approved 739789 none) 739789 weekItem rfl
    (List.mem_singleton.mpr rfl) (balanced_paystub _ _ _)
    (twoWeeks_ledger fun e he => by cases he; decide)).1.mpr (by
      intro r other hother hearlier _
      obtain rfl | rfl := twoWeeks_run hother
      · exact ⟨739788, rfl, by decide⟩
      · cases hearlier) .grossPay

end Weeks

end PayrollAgent.PaystubYtd
