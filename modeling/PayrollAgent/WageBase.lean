import PayrollAgent.BoundedQuestions
import PayrollAgent.RunWrites
import PayrollAgent.StageReads
import Mathlib.Algebra.Order.BigOperators.Group.List

namespace PayrollAgent.WageBase

open Lib Repo Money TaxTables2026 Calculate Handlers Effects FreshIds Asking RunWrites StageReads

structure Older (d db : Db) : Prop where
  business : ∀ r run, d.runs.get? r = some run →
    ∃ run', db.runs.get? r = some run' ∧ run'.businessId = run.businessId
  staff : SameStaff d db

/-- Every line item is taxed under the wages that its employee has on file. -/
structure Taxed (db : Db) : Prop where
  fresh : Fresh db
  items : ∀ r run, db.runs.get? r = some run → ∀ item ∈ run.lineItems,
    ∃ roster, db.rosters.get? run.businessId = some roster ∧ Taxes roster item

structure Unpaid (db : Db) : Prop where
  fresh : Fresh db
  items : ∀ r run, db.runs.get? r = some run → run.lineItems = []

def reconciledItems (db : Db) (businessId employeeId : Uuid) (rs : List Uuid) : List PaystubLineItem :=
  rs.flatMap fun r =>
    ((db.runs.get? r).filter fun run => run.businessId = businessId &&
      run.status = .reconciled).elim [] fun run =>
      run.lineItems.filter fun item => item.employeeId = employeeId

/-- The tax over the line items is at most that of the wage base, but for half
a cent each. -/
def Honoured (items : List PaystubLineItem) : Prop :=
  (items.map PaystubLineItem.ficaSs).sum ≤ ssRate * ssWageBase + items.length / 200

def taxable (e : Employee) (item : PaystubLineItem) : ℚ := ssTaxable (grossPay item.hours e) e

variable {d db db' : Db} {r b : Uuid} {roster roster' : Roster} {item : PaystubLineItem}
    {items : List PaystubLineItem} {e : Employee}

theorem mem_of_staff (hstaff : unaliased roster' = unaliased roster) (he : e ∈ roster.employees) :
    ∃ e' ∈ roster'.employees, e' = { e with knownAliases := e'.knownAliases } := by
  have hmem : { e with knownAliases := [] } ∈ unaliased roster' := by
    rw [hstaff]
    exact List.mem_map_of_mem he
  obtain ⟨e', he', hsame⟩ := List.mem_map.mp hmem
  refine ⟨e', he', ?_⟩
  cases e'
  cases hsame
  rfl

theorem taxes_of_staff (h : Taxes roster item) (hstaff : unaliased roster' = unaliased roster) :
    Taxes roster' item := by
  obtain ⟨e, he, hid, htax⟩ := h
  obtain ⟨e', he', hemployee⟩ := mem_of_staff hstaff he
  refine ⟨e', he', ?_, ?_⟩
  · rw [hemployee]
    exact hid
  · rw [hemployee]
    exact htax

theorem Older.refl (db : Db) : Older db db := ⟨fun _ run hrun => ⟨run, hrun, rfl⟩, .same rfl⟩

theorem Older.trans (h : Older d db) (h' : Older db db') : Older d db' := by
  refine ⟨fun r run hrun => ?_, h.staff.trans h'.staff⟩
  obtain ⟨run₁, hrun₁, hbusiness₁⟩ := h.business r run hrun
  obtain ⟨run₂, hrun₂, hbusiness₂⟩ := h'.business r run₁ hrun₁
  exact ⟨run₂, hrun₂, hbusiness₂.trans hbusiness₁⟩

theorem roster_of_staff (h : SameStaff db db') (hroster : db.rosters.get? b = some roster) :
    ∃ roster', db'.rosters.get? b = some roster' ∧ unaliased roster' = unaliased roster := by
  have hsame := h.rosters b
  rw [hroster, Option.map_some] at hsame
  exact Option.map_eq_some_iff.mp hsame

theorem mem_reconciledItems {employeeId : Uuid} {rs : List Uuid}
    (h : item ∈ reconciledItems db b employeeId rs) :
    ∃ r run, db.runs.get? r = some run ∧ run.businessId = b ∧ item ∈ run.lineItems ∧
      item.employeeId = employeeId := by
  obtain ⟨r, -, hitem⟩ := List.mem_flatMap.mp h
  cases hrun : (db.runs.get? r).filter fun run => run.businessId = b && run.status = .reconciled with
  | none =>
      rw [hrun] at hitem
      cases hitem
  | some run =>
      obtain ⟨hstored, hown⟩ := Option.filter_eq_some_iff.mp hrun
      rw [hrun, Option.elim_some, List.mem_filter, decide_eq_true_eq] at hitem
      rw [Bool.and_eq_true, decide_eq_true_eq] at hown
      exact ⟨r, run, hstored, hown.1, hitem.1, hitem.2⟩

theorem taxable_le (e : Employee) (item : PaystubLineItem) :
    taxable e item ≤ max (ssWageBase - e.ytdSsWages) 0 := by
  refine (min_le_right ..).trans ?_
  split
  · exact le_max_right ..
  · exact le_max_left ..

theorem ficaSs_near (h : item.ficaSs = withheld item.hours e) :
    ssRate * taxable e item - 1 / 200 ≤ item.ficaSs ∧
    item.ficaSs ≤ ssRate * taxable e item + 1 / 200 := by
  rw [h, mul_comm]
  exact money_near (taxable e item * ssRate)

theorem sum_ficaSs_near (h : ∀ item ∈ items, item.ficaSs = withheld item.hours e) :
    ssRate * (items.map (taxable e)).sum - items.length / 200 ≤
        (items.map PaystubLineItem.ficaSs).sum ∧
      (items.map PaystubLineItem.ficaSs).sum ≤
        ssRate * (items.map (taxable e)).sum + items.length / 200 := by
  induction items with
  | nil => norm_num
  | cons item rest ih =>
      have hhead := ficaSs_near (h item (List.mem_cons_self ..))
      have htail := ih fun other hother => h other (List.mem_cons_of_mem _ hother)
      rw [List.map_cons, List.map_cons, List.sum_cons, List.sum_cons, List.length_cons]
      push_cast
      constructor
      · linarith [hhead.1, htail.1]
      · linarith [hhead.2, htail.2]

section

variable [PyText] {env : Env} {op : Op} {a : Ans op} {s : Reading}

theorem older_step (h : Effect env db op a db') (hfresh : Fresh db) : Older db db' := by
  refine ⟨fun r run hrun => ?_, sameStaff h⟩
  cases runWrite h hfresh with
  | same hruns => exact ⟨run, by rw [hruns, hrun], rfl⟩
  | wrote r' f hruns hf =>
      rw [hruns, Dict.get?_modify]
      by_cases hr : r = r'
      · rw [if_pos hr, hrun]
        exact ⟨f run, rfl, hf.business run⟩
      · rw [if_neg hr]
        exact ⟨run, hrun, rfl⟩
  | created r' businessId hruns hnew =>
      rw [hruns, Dict.get?_set]
      by_cases hr : r = r'
      · rw [hr, hnew] at hrun
        cases hrun
      · rw [if_neg hr]
        exact ⟨run, hrun, rfl⟩

/-- The pay that a transaction stores is taxed under the roster of the run. -/
def PaysTaxed (db : Db) (op : Op) : Prop :=
  ∀ r st items run, op = .persistStages r st → st.lineItems = some items → db.runs.get? r = some run →
    ∃ roster, db.rosters.get? run.businessId = some roster ∧ ∀ item ∈ items, Taxes roster item

theorem paysTaxed (hop : allows s op) (hseen : ∀ d ∈ s.seen, Older d db) : PaysTaxed db op := by
  rintro r st items run rfl hitems hrun
  obtain ⟨roster, ⟨d, hd, d', hd', run', hrun', hroster⟩, htaxes⟩ := hop items hitems
  obtain ⟨run'', hrun'', hbusiness⟩ := (hseen d hd).business r run' hrun'
  obtain rfl := Option.some.inj (hrun''.symm.trans hrun)
  obtain ⟨roster', hroster', hstaff⟩ := roster_of_staff (hseen d' hd').staff hroster
  exact ⟨roster', by rw [hbusiness, hroster'], fun item hitem => taxes_of_staff
    (htaxes item hitem) hstaff⟩

theorem taxed_step (h : Effect env db op a db') (htaxed : Taxed db) (hpays : PaysTaxed db op) :
    Taxed db' := by
  refine ⟨fresh_step h htaxed.fresh, fun r run' hrun' item hitem => ?_⟩
  have hold : ∀ {run : Run}, db.runs.get? r = some run → run'.businessId = run.businessId →
      (∃ roster, db.rosters.get? run.businessId = some roster ∧ Taxes roster item) →
        ∃ roster, db'.rosters.get? run'.businessId = some roster ∧ Taxes roster item := by
    intro run _ hbusiness htaxes
    obtain ⟨roster, hroster, htaxes⟩ := htaxes
    obtain ⟨roster', hroster', hstaff⟩ := roster_of_staff (sameStaff h) hroster
    exact ⟨roster', by rw [hbusiness, hroster'], taxes_of_staff htaxes hstaff⟩
  cases runWrite h htaxed.fresh with
  | same hruns =>
      rw [hruns] at hrun'
      exact hold hrun' rfl (htaxed.items r run' hrun' item hitem)
  | wrote r' f hruns hf =>
      rw [hruns, Dict.get?_modify] at hrun'
      by_cases hr : r = r'
      · rw [if_pos hr] at hrun'
        obtain ⟨run, hrun, rfl⟩ := Option.map_eq_some_iff.mp hrun'
        refine hold hrun (hf.business run) ?_
        obtain hkept | ⟨st, hop, hst⟩ := hf.lineItems run
        · rw [hkept] at hitem
          exact htaxed.items r run hrun item hitem
        · obtain ⟨roster, hroster, htaxes⟩ := hpays r' st _ run hop hst (hr ▸ hrun)
          exact ⟨roster, hroster, htaxes item hitem⟩
      · rw [if_neg hr] at hrun'
        exact hold hrun' rfl (htaxed.items r run' hrun' item hitem)
  | created r' businessId hruns hnew =>
      rw [hruns, Dict.get?_set] at hrun'
      by_cases hr : r = r'
      · rw [if_pos hr] at hrun'
        obtain rfl := Option.some.inj hrun'
        cases hitem
      · rw [if_neg hr] at hrun'
        exact hold hrun' rfl (htaxed.items r run' hrun' item hitem)

theorem older_exec (hfresh : Fresh db) (hold : Older d db) : Older d (exec env op db).2 := by
  apply exec_preserves hold
  intro a db' htxn
  exact hold.trans (older_step (txn_effect htxn) hfresh)

theorem seen_exec (hfresh : Fresh db) (hseen : ∀ d ∈ s.seen, Older d db) :
    ∀ d ∈ s.seen, Older d (exec env op db).2 :=
  fun d hd => older_exec hfresh (hseen d hd)

theorem taxed_exec (htaxed : Taxed db) (hop : allows s op) (hseen : ∀ d ∈ s.seen, Older d db) :
    Taxed (exec env op db).2 := by
  apply exec_preserves htaxed
  intro a db' htxn
  exact taxed_step (txn_effect htxn) htaxed (paysTaxed hop hseen)

theorem seen_next (hseen : ∀ d ∈ s.seen, Older d (exec env op db).2) :
    ∀ d ∈ (next s op (exec env op db).1).seen, Older d (exec env op db).2 := by
  unfold next
  split
  next d hread =>
    obtain ⟨rfl, hdb, -⟩ := BoundedQuestions.of_query (i := 0) hread
    intro d' hd'
    obtain rfl | hold := List.mem_cons.mp hd'
    · rw [hdb]
      exact .refl _
    · exact hseen d' hold
  · intro d hd
    cases hd
  · intro d hd
    cases hd
  · exact hseen

theorem preserved (hpaid : Unpaid d) : World.Preserved machine thread World.Rules.any
    (Eq d) reading Reading.fresh
    (fun db _ => Taxed db ∧ Older d db) (fun _ s db _ => ∀ d ∈ s.seen, Older d db) where
  init db h := by
    subst h
    refine ⟨⟨hpaid.fresh, fun r run hrun item hitem => ?_⟩, .refl _⟩
    rw [hpaid.items r run hrun] at hitem
    cases hitem
  follows k _ := thread_follows k
  fresh _ _ _ _ d hd := by cases hd
  shared _ _ _ _ _ _ hinv hseen hop _ := ⟨taxed_exec hinv.1 hop hseen, older_exec hinv.1.fresh hinv.2⟩
  own _ _ _ _ _ _ hinv hseen _ _ := seen_next (seen_exec hinv.1.fresh hseen)
  other _ _ _ _ _ _ hinv _ _ _ _ _ _ hseen := seen_exec hinv.1.fresh hseen

section Reached

variable {businessId : Uuid} {w : World Op Ans Exn Db Note}

/-- The wages on file are those that were on file before the first run. -/
theorem wages_on_file (hpaid : Unpaid d) (hreach : World.Reach machine thread World.Rules.any (Eq d) w)
    (hroster : d.rosters.get? businessId = some roster) (he : e ∈ roster.employees) :
    ∃ roster', w.data.rosters.get? businessId = some roster' ∧
      ∃ e' ∈ roster'.employees, e' = { e with knownAliases := e'.knownAliases } := by
  obtain ⟨roster', hroster', hstaff⟩ := roster_of_staff ((preserved hpaid).reach hreach).1.2.staff hroster
  exact ⟨roster', hroster', mem_of_staff hstaff he⟩

/-- The item of an employee is taxed under the wages on file before the first run. -/
theorem item_withheld (hpaid : Unpaid d) (hreach : World.Reach machine thread World.Rules.any (Eq d) w)
    (hroster : d.rosters.get? businessId = some roster) (he : e ∈ roster.employees) (rs : List Uuid) :
    ∀ item ∈ reconciledItems w.data businessId e.id rs, item.ficaSs = withheld item.hours e := by
  intro item hitem
  obtain ⟨htaxed, hold⟩ := ((preserved hpaid).reach hreach).1
  obtain ⟨r, run, hrun, rfl, hmem, hid⟩ := mem_reconciledItems hitem
  obtain ⟨roster₁, hroster₁, htaxes⟩ := htaxed.items r run hrun item hmem
  obtain ⟨roster₂, hroster₂, hstaff⟩ := roster_of_staff hold.staff hroster
  obtain rfl := Option.some.inj (hroster₁.symm.trans hroster₂)
  obtain ⟨e', he', hid', htax⟩ := taxes_of_staff htaxes hstaff.symm
  obtain rfl : e' = e := List.inj_on_of_nodup_map roster.uniqueIds he' he (hid'.symm.trans hid)
  exact htax

/-- The year-to-date wages on file are an input that no run writes. Against them
every run honours the base: its line item is taxed on what they leave of it, to
half a cent. So the base is honoured over all runs where the wages that they taxed
stay within it. -/
theorem wage_base_per_run (hpaid : Unpaid d)
    (hreach : World.Reach machine thread World.Rules.any (Eq d) w)
    (hroster : d.rosters.get? businessId = some roster) (he : e ∈ roster.employees) (rs : List Uuid) :
    let items := reconciledItems w.data businessId e.id rs
    let taxed := (items.map (taxable e)).sum
    let tax := (items.map PaystubLineItem.ficaSs).sum
    (∃ roster', w.data.rosters.get? businessId = some roster' ∧
        ∃ e' ∈ roster'.employees, e' = { e with knownAliases := e'.knownAliases }) ∧
      (∀ item ∈ items, taxable e item ≤ max (ssWageBase - e.ytdSsWages) 0 ∧
        ssRate * taxable e item - 1 / 200 ≤ item.ficaSs ∧
        item.ficaSs ≤ ssRate * taxable e item + 1 / 200) ∧
      (ssRate * taxed - items.length / 200 ≤ tax ∧ tax ≤ ssRate * taxed + items.length / 200) ∧
      (taxed ≤ ssWageBase → Honoured items) := by
  intro items taxed _
  have hitems := item_withheld hpaid hreach hroster he rs
  have hnear := sum_ficaSs_near hitems
  refine ⟨wages_on_file hpaid hreach hroster he, fun item hitem =>
    ⟨taxable_le e item, ficaSs_near (hitems item hitem)⟩, hnear, fun hbase => hnear.2.trans ?_⟩
  have hrate : (0 : ℚ) ≤ ssRate := by norm_num [ssRate]
  exact add_le_add_left (mul_le_mul_of_nonneg_left hbase hrate) _

end Reached

end

section Histories

attribute [local instance] asciiText

open BoundedQuestions

def executive : Employee := { hourlyWorker 1 "Ann Lee".toList [] with compensation := .hourly 5000 }

def executives : Roster := ⟨[executive], by decide⟩

def executiveDb : Db := { emptyDb with rosters := .ofList [(1, executives)] }

def fullWeek : Extracted := ⟨9, [reported "ann lee".toList (whole 40) none], none, none⟩

def paidRun (i : Nat) (messageId r : Uuid) : List (Event Thread Env) :=
  arrives i messageId none ++ works (i + 1) 10 (r + 1) fullWeek ++
    [.spawn (.approve r), .run (i + 2) { envelope := letter }] ++ works (i + 3) 5 (r + 5) fullWeek

theorem unpaid_executiveDb : Unpaid executiveDb := by
  refine ⟨Fresh.of_keys (by decide), fun r run hrun => ?_⟩
  have hnone : executiveDb.runs.get? r = none := rfl
  rw [hnone] at hrun
  cases hrun

/-- Two weeks of 200000 dollars are each taxed on 184500. -/
theorem second_run_taxed_again : ¬ ∀ (d : Db) (w : World Op Ans Exn Db Note) businessId roster e rs,
    Unpaid d →
    World.Reach machine thread World.Rules.any (Eq d) w → d.rosters.get? businessId = some roster →
      e ∈ roster.employees → Honoured (reconciledItems w.data businessId e.id rs) := by
  intro h
  have htaxed : ¬ Honoured (reconciledItems (worldAfter executiveDb
    (paidRun 0 5 11 ++ paidRun 4 6 20)).data 1 1 [11, 20]) := by
    unfold Honoured
    decide +kernel
  have hreach : World.Reach machine thread World.Rules.any (Eq executiveDb)
      (worldAfter executiveDb (paidRun 0 5 11 ++ paidRun 4 6 20)) := reach_worldAfter rfl _
  have hroster : executiveDb.rosters.get? 1 = some executives := rfl
  have he : executive ∈ executives.employees := List.mem_singleton_self _
  exact htaxed (h executiveDb _ 1 executives executive [11, 20] unpaid_executiveDb hreach hroster he)

/-- One such week is taxed on 184500. -/
theorem wage_base_per_run_once :
    (reconciledItems (worldAfter executiveDb (paidRun 0 5 11)).data 1 1 [11]).map
    PaystubLineItem.ficaSs = [11439] ∧
      Honoured (reconciledItems (worldAfter executiveDb (paidRun 0 5 11)).data 1 1 [11]) := by
  have hbase : ((reconciledItems (worldAfter executiveDb (paidRun 0 5 11)).data 1 1 [11]).map
    (taxable executive)).sum ≤ ssWageBase := by
    decide +kernel
  have hreach : World.Reach machine thread World.Rules.any (Eq executiveDb)
    (worldAfter executiveDb (paidRun 0 5 11)) :=
    reach_worldAfter rfl _
  have hroster : executiveDb.rosters.get? 1 = some executives := rfl
  have he : executive ∈ executives.employees := List.mem_singleton_self _
  exact ⟨by decide +kernel, (wage_base_per_run unpaid_executiveDb hreach hroster he [11]).2.2.2 hbase⟩

end Histories

end PayrollAgent.WageBase
