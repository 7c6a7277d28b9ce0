import PayrollAgent.PaystubIdentity
import PayrollAgent.ComputeLineItems
import Mathlib.Data.List.Sort

namespace PayrollAgent.Repo

open Money Calculate ComputeLineItems PaystubIdentity

/-- A row of `paystub_line_items`, with the columns that are written. -/
structure PaystubRow where
  runId : Uuid
  employeeId : Uuid
  submittedName : Str
  hours : HoursField → ℚ
  grossPay : ℚ
  pretax401k : ℚ
  ficaSs : ℚ
  ficaMedicare : ℚ
  federalWithholding : ℚ
  stateWithholding : Option ℚ
  netPay : ℚ

def fits (precision : Nat) (v : ℚ) : Bool := |money v| < 10 ^ (precision - 2)

def amounts (item : PaystubLineItem) : List ℚ :=
  [item.grossPay, item.pretax401k, item.ficaSs, item.ficaMedicare, item.federalWithholding] ++
    item.stateWithholding.toList ++ [item.netPay]

def inRange (item : PaystubLineItem) : Bool :=
  HoursField.all.all (fun f => fits 6 (item.hours f)) && (amounts item).all (fits 12)

/-- The row that is stored: every numeric column at its own scale. The disclaimer
flag has no column. -/
def storedRow (item : PaystubLineItem) : PaystubRow where
  runId := item.runId
  employeeId := item.employeeId
  submittedName := item.submittedName
  hours := fun f => money (item.hours f)
  grossPay := money item.grossPay
  pretax401k := money item.pretax401k
  ficaSs := money item.ficaSs
  ficaMedicare := money item.ficaMedicare
  federalWithholding := money item.federalWithholding
  stateWithholding := item.stateWithholding.map money
  netPay := money item.netPay

/-- An overflow of any column fails the statement. -/
def insertRow (item : PaystubLineItem) : Option PaystubRow :=
  if inRange item then some (storedRow item) else none

def replaceLineItems (r : Uuid) (items : List PaystubLineItem) (table : List PaystubRow) :
    Option (List PaystubRow) :=
  (items.mapM insertRow).map fun rows => table.filter (fun row => row.runId ≠ r) ++ rows

def lineItemOfRow (row : PaystubRow) : PaystubLineItem where
  runId := row.runId
  employeeId := row.employeeId
  submittedName := row.submittedName
  hours := fun f => (row.hours f).toNNRat
  grossPay := row.grossPay
  pretax401k := row.pretax401k
  ficaSs := row.ficaSs
  ficaMedicare := row.ficaMedicare
  federalWithholding := row.federalWithholding
  stateWithholding := row.stateWithholding
  netPay := row.netPay
  additionalMedicareNotModeled := false

def loadLineItems (r : Uuid) (table : List PaystubRow) : List PaystubLineItem :=
  ((table.filter fun row => row.runId = r).insertionSort fun a b => a.employeeId ≤ b.employeeId).map
    lineItemOfRow

/-- A paystub of the run: what `calculate` returns, with the identity that
`_compute_line_items` stamps on it. -/
def Produced (r : Uuid) (item : PaystubLineItem) : Prop :=
  ∃ hours employee override ee, item = stamp r ee (paystub hours employee override)

/-- What the columns keep as it is: hours in whole hundredths and no flag. -/
structure Storable (item : PaystubLineItem) : Prop where
  hours : ∀ f, IsCents (item.hours f) ∧ item.hours f < 10000
  amounts : ∀ a ∈ amounts item, |a| < 10000000000
  unflagged : item.additionalMedicareNotModeled = false

def kept (item : PaystubLineItem) : PaystubLineItem := lineItemOfRow (storedRow item)

theorem mapM_insertRow (items : List PaystubLineItem) : items.mapM insertRow =
    if items.all inRange then some (items.map storedRow) else none := by
  induction items with
  | nil => rfl
  | cons item rest ih =>
      rw [List.mapM_cons, ih, insertRow]
      cases hitem : inRange item <;> cases hrest : rest.all inRange <;> simp [hitem, hrest]

theorem lineItemOfRow_inserted {r : Uuid} {items : List PaystubLineItem}
    (h : ∀ item ∈ items, item.runId = r) (table : List PaystubRow) :
    (loadLineItems r (table.filter (fun row => row.runId ≠ r) ++ items.map storedRow)).Perm
    (items.map kept) := by
  have hold : (table.filter (fun row => row.runId ≠ r)).filter (fun row => row.runId = r) = [] := by
    rw [List.filter_eq_nil_iff]
    intro row hrow
    simpa using (List.mem_filter.mp hrow).2
  have hnew : (items.map storedRow).filter (fun row => row.runId = r) = items.map storedRow := by
    rw [List.filter_eq_self]
    intro row hrow
    obtain ⟨item, hitem, rfl⟩ := List.mem_map.mp hrow
    exact decide_eq_true (h item hitem)
  rw [loadLineItems, List.filter_append, hold, hnew, List.nil_append]
  refine ((List.perm_insertionSort _ _).map lineItemOfRow).trans ?_
  rw [List.map_map]
  exact List.Perm.refl _

theorem kept_kept (item : PaystubLineItem) : kept (kept item) = kept item := by
  have hhours : ∀ f, ((money (item.hours f)).toNNRat : ℚ) = money (item.hours f) := fun f =>
    Rat.coe_toNNRat _ (money_nonneg (NNRat.cast_nonneg _))
  have hidem : ∀ v, money (money v) = money v := fun v => money_of_isCents (isCents_money v)
  simp only [kept, lineItemOfRow, storedRow, hhours, hidem, Option.map_map, Function.comp_def]

theorem perm_map_kept_iff (items : List PaystubLineItem) :
    (items.map kept).Perm items ↔ ∀ item ∈ items, kept item = item := by
  constructor
  · intro h item hitem
    obtain ⟨source, -, rfl⟩ := List.mem_map.mp (h.mem_iff.mpr hitem)
    exact kept_kept source
  · intro h
    rw [List.map_congr_left h, List.map_id']

theorem kept_eq_iff {r : Uuid} {item : PaystubLineItem} (h : Produced r item) : kept item = item ↔
    (∀ f, IsCents (item.hours f)) ∧ item.additionalMedicareNotModeled = false := by
  constructor
  · intro hkept
    constructor
    · intro f
      have hf := congrFun (congrArg PaystubLineItem.hours hkept) f
      have hcast : ((money (item.hours f)).toNNRat : ℚ) = item.hours f := congrArg _ hf
      rw [Rat.coe_toNNRat _ (money_nonneg (NNRat.cast_nonneg _))] at hcast
      rw [← hcast]
      exact isCents_money _
    · rw [← hkept]
      rfl
  · rintro ⟨hhours, hflag⟩
    obtain ⟨hours, employee, override, ee, rfl⟩ := h
    have hties := tiesOut_paystub hours employee override
    have hfield : ∀ f, (money ((stamp r ee (paystub hours employee override)).hours f)).toNNRat =
        (stamp r ee (paystub hours employee override)).hours f := by
      intro f
      rw [money_of_isCents (hhours f)]
      exact NNRat.toNNRat_coe _
    simp only [kept, lineItemOfRow, storedRow, hfield]
    have hgross : money (stamp r ee (paystub hours employee override)).grossPay = _ :=
      money_of_isCents hties.gross
    have hpretax : money (stamp r ee (paystub hours employee override)).pretax401k = _ :=
      money_of_isCents hties.pretax
    have hss : money (stamp r ee (paystub hours employee override)).ficaSs = _ :=
      money_of_isCents hties.ss
    have hmedicare : money (stamp r ee (paystub hours employee override)).ficaMedicare = _ :=
      money_of_isCents hties.medicare
    have hfederal : money (stamp r ee (paystub hours employee override)).federalWithholding = _ :=
      money_of_isCents hties.federal
    have hnet : money (stamp r ee (paystub hours employee override)).netPay = _ :=
      money_of_isCents hties.net
    rw [hgross, hpretax, hss, hmedicare, hfederal, hnet, ← hflag]
    rfl

theorem runId_of_produced {r : Uuid} {item : PaystubLineItem} (h : Produced r item) : item.runId = r := by
  obtain ⟨hours, employee, override, ee, rfl⟩ := h
  rfl

theorem fits_of_isCents {precision : Nat} {v : ℚ} (h : IsCents v) :
    fits precision v = true ↔ |v| < 10 ^ (precision - 2) := by
  rw [fits, money_of_isCents h, decide_eq_true_eq]

theorem isCents_amounts {r : Uuid} {item : PaystubLineItem} (h : Produced r item) :
    ∀ a ∈ amounts item, IsCents a := by
  obtain ⟨hours, employee, override, ee, rfl⟩ := h
  have hties := tiesOut_paystub hours employee override
  intro a ha
  simp only [amounts, stamp, List.cons_append, List.nil_append, List.mem_cons, List.mem_append,
    Option.mem_toList, List.not_mem_nil, or_false] at ha
  obtain rfl | rfl | rfl | rfl | rfl | hstate | rfl := ha
  · exact hties.gross
  · exact hties.pretax
  · exact hties.ss
  · exact hties.medicare
  · exact hties.federal
  · cases hstate
  · exact hties.net

theorem storable_iff {r : Uuid} {item : PaystubLineItem} (h : Produced r item) :
    Storable item ↔ inRange item = true ∧ kept item = item := by
  have hrange : (∀ f, IsCents (item.hours f)) → (inRange item = true ↔
      (∀ f, item.hours f < 10000) ∧ ∀ a ∈ amounts item, |a| < 10000000000) := by
    intro hhours
    simp only [inRange, Bool.and_eq_true, List.all_eq_true]
    apply and_congr
    · constructor
      · intro hall f
        have hf := (fits_of_isCents (hhours f)).mp (hall f f.mem_all)
        rw [abs_of_nonneg (NNRat.cast_nonneg _)] at hf
        exact_mod_cast hf
      · intro hall f _
        rw [fits_of_isCents (hhours f), abs_of_nonneg (NNRat.cast_nonneg _)]
        exact_mod_cast hall f
    · constructor
      · intro hall a ha
        have hfits := (fits_of_isCents (isCents_amounts h a ha)).mp (hall a ha)
        norm_num at hfits
        exact hfits
      · intro hall a ha
        rw [fits_of_isCents (isCents_amounts h a ha)]
        norm_num
        exact hall a ha
  rw [kept_eq_iff h]
  constructor
  · intro hstorable
    have hhours : ∀ f, IsCents (item.hours f) := fun f => (hstorable.hours f).1
    exact ⟨(hrange hhours).mpr ⟨fun f => (hstorable.hours f).2, hstorable.amounts⟩, hhours,
      hstorable.unflagged⟩
  · rintro ⟨hin, hhours, hflag⟩
    obtain ⟨hsmall, hamounts⟩ := (hrange hhours).mp hin
    exact ⟨fun f => ⟨hhours f, hsmall f⟩, hamounts, hflag⟩

/-- The paystubs of a run come back as they were, in some order, exactly where
each is one that the columns can hold. -/
theorem line_items_round_trip_iff (table : List PaystubRow) (r : Uuid) (items : List PaystubLineItem)
    (hitems : ∀ item ∈ items, Produced r item) :
    (∃ table', replaceLineItems r items table = some table' ∧ (loadLineItems r table').Perm items) ↔
      ∀ item ∈ items, Storable item := by
  have hids : ∀ item ∈ items, item.runId = r := fun item hitem => runId_of_produced (hitems item hitem)
  have hloaded := lineItemOfRow_inserted hids table
  have hstorable : (∀ item ∈ items, Storable item) ↔
      items.all inRange = true ∧ ∀ item ∈ items, kept item = item := by
    rw [List.all_eq_true, ← forall₂_and]
    exact forall₂_congr fun item hitem => storable_iff (hitems item hitem)
  rw [hstorable, replaceLineItems, mapM_insertRow]
  constructor
  · rintro ⟨table', htable, hperm⟩
    by_cases hin : items.all inRange = true
    · rw [if_pos hin] at htable
      obtain rfl := Option.some.inj htable
      exact ⟨hin, (perm_map_kept_iff items).mp (hloaded.symm.trans hperm)⟩
    · rw [if_neg hin] at htable
      cases htable
  · rintro ⟨hin, hkept⟩
    rw [if_pos hin]
    exact ⟨_, rfl, hloaded.trans ((perm_map_kept_iff items).mpr hkept)⟩

section HighEarner

def highEarner : PaystubLineItem :=
  stamp 3 (reported "ann lee".toList (whole 40) none)
    (paystub (reported "ann lee".toList (whole 40) none).hours
      { hourlyWorker 1 "ann lee".toList [] with
        compensation := .hourly (500 : ℕ)
        ytdSsWages := (184500 : ℕ) } none)

/-- The paystub that is rendered has lost its disclaimer. -/
theorem disclaimer_lost :
    ¬ ∀ (table : List PaystubRow) (r : Uuid) (items : List PaystubLineItem),
    (∀ item ∈ items, Produced r item) →
      ∃ table', replaceLineItems r items table = some table' ∧ (loadLineItems r table').Perm items := by
  intro h
  obtain ⟨table', htable, hperm⟩ := h [] 3 [highEarner] (by
    intro item hitem
    obtain rfl := List.mem_singleton.mp hitem
    exact ⟨_, _, _, _, rfl⟩)
  have hmem : highEarner ∈ loadLineItems 3 table' := hperm.mem_iff.mpr (List.mem_singleton.mpr rfl)
  have hflag : highEarner.additionalMedicareNotModeled = false := by
    obtain ⟨row, -, hrow⟩ := List.mem_map.mp hmem
    rw [← hrow]
    rfl
  revert hflag
  decide +kernel

/-- A plain week comes back. -/
theorem line_items_round_trip_plain :
    ∃ table', replaceLineItems 3 [stamp 3 (reported "ann lee".toList (some 40) none)
        (paystub (reported "ann lee".toList (some 40) none).hours
        (hourlyWorker 1 "ann lee".toList []) none)] [] =
      some table' ∧ (loadLineItems 3 table').Perm [stamp 3 (reported "ann lee".toList (some 40) none)
        (paystub (reported "ann lee".toList (some 40) none).hours
        (hourlyWorker 1 "ann lee".toList []) none)] :=
  (line_items_round_trip_iff [] 3 [stamp 3 (reported "ann lee".toList (some 40) none)
      (paystub (reported "ann lee".toList (some 40) none).hours (hourlyWorker 1 "ann lee".toList [])
      none)] (by
    intro item hitem
    obtain rfl := List.mem_singleton.mp hitem
    exact ⟨_, _, _, _, rfl⟩)).mpr (by
    intro item hitem
    obtain rfl := List.mem_singleton.mp hitem
    refine ⟨fun f => ?_, by decide +kernel, by decide +kernel⟩
    cases f
    · exact ⟨⟨4000, by decide +kernel⟩, by decide +kernel⟩
    · exact ⟨⟨0, by decide +kernel⟩, by decide +kernel⟩
    · exact ⟨⟨0, by decide +kernel⟩, by decide +kernel⟩
    · exact ⟨⟨0, by decide +kernel⟩, by decide +kernel⟩
    · exact ⟨⟨0, by decide +kernel⟩, by decide +kernel⟩)

end HighEarner

end PayrollAgent.Repo
