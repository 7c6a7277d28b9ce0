import PayrollAgent.BoundedQuestions
import PayrollAgent.Commits

namespace PayrollAgent.DeliveryReview

open Lib Repo Handlers Effects RunSteps Conduct FreshIds Commits BoundedQuestions

def enters (r : Uuid) (c : Commit) : Bool :=
  c.before.statusOf r ≠ some .needsOperator ∧ c.after.statusOf r = some .needsOperator

def entrance (r : Uuid) (log : List Commit) : Option Commit := log.find? (enters r)

def marked (db : Db) (r : Uuid) : Bool := (db.runs.get? r).any isDeliveryReviewMarker

/-- A run that waits for an operator is marked if and only if a delivery
settlement, or the reaping of a final lease, took it there. -/
def MarkerExact (db : Db) (log : List Commit) : Prop :=
  ∀ r, db.statusOf r = some .needsOperator →
    (marked db r = true ↔ (entrance r log).any (fun c => settlesSend c.op) = true)

def hasReviewReason (run : Run) : Bool :=
  run.errorReason = some .deliveryReview ∨ run.errorReason = some .clarificationDeliveryReview

/-- A committed escalation that takes the run into NEEDS_OPERATOR finds no
reason of an earlier review. -/
def escalatesClean (env : Env) (db : Db) : Op → Bool
  | .escalateToOperator r =>
      (match env.fault with | .before _ => true | _ => false) ||
        (db.runs.get? r).all fun run => run.status = .needsOperator || !hasReviewReason run
  | _ => true

def cleanEscalations : World.Rules Op Db Env Commit Thread :=
  ⟨fun _ => True, fun _ env op db _ => escalatesClean env db op = true⟩

structure Unescalated (db : Db) : Prop where
  fresh : Fresh db
  none : ∀ r, db.statusOf r ≠ some .needsOperator

section

variable [PyText] {env : Env} {op : Op} {a : Ans op} {db db' : Db} {r : Uuid} {run run' : Run}
    {s : Work} {i : Nat} {log : List Commit}

omit [PyText] in
theorem statusOf_some (hrun : db.runs.get? r = some run) : db.statusOf r = some run.status := by
  rw [Db.statusOf, hrun]
  rfl

omit [PyText] in
theorem marked_some (hrun : db.runs.get? r = some run) (hstatus : run.status = .needsOperator) :
    marked db r = hasReviewReason run := by
  rw [marked, hrun, Option.any_some, isDeliveryReviewMarker, hasReviewReason, hstatus]
  simp

omit [PyText] in
theorem hasReviewReason_of_review {purpose : Purpose}
    (h : run.errorReason = some (reviewReason purpose)) : hasReviewReason run = true := by
  rw [hasReviewReason, h]
  cases purpose <;> rfl

/-- How a run comes to wait, or goes on waiting, for an operator. -/
inductive Waits (r : Uuid) (run run' : Run) (op : Op) : Prop
  | stays (hstatus : run.status = .needsOperator) (hreason : run'.errorReason = run.errorReason)
  | escalated (hop : op = .escalateToOperator r) (hreason : run'.errorReason = run.errorReason)
      (hstatus : run.status ≠ .needsOperator)
  | reviewed (hop : settlesSend op = true) (hreason : hasReviewReason run' = true)
      (hstatus : run.status ≠ .needsOperator)

theorem escalated_run {a : Ans (.escalateToOperator r)}
    (h : Effect env db (.escalateToOperator r) a db') (hrun : db.runs.get? r = some run)
    (hrun' : db'.runs.get? r = some run') : run'.errorReason = run.errorReason := by
  cases h with
  | idle hrefused => cases hrefused
  | escalated =>
      rw [ClarificationWrites.escalateToOperator, setStatus, Db.modifyRun_runs,
        Dict.get?_modify_self hrun] at hrun'
      obtain rfl := Option.some.inj hrun'
      rfl

theorem waits (h : Effect env db op a db') (hfresh : Fresh db) (hrule : s.rule op)
    (hrun : db.runs.get? r = some run)
    (hrun' : db'.runs.get? r = some run') (hstatus' : run'.status = .needsOperator) :
    Waits r run run' op := by
  obtain ⟨run'', hrun'', hstep⟩ := runStep h hfresh.runs hrun
  obtain rfl := Option.some.inj (hrun''.symm.trans hrun')
  have hother : ∀ {s : RunStatus}, run''.status = s → s ≠ .needsOperator → False :=
    fun hs hne => hne (hs.symm.trans hstatus')
  cases hstep with
  | kept hkept => exact .stays (hkept.status.symm.trans hstatus') hkept.reason
  | fieldsSet => exact .stays hstatus' rfl
  | @driven _ _ target _ hdrives hmoved =>
      obtain rfl : target = .needsOperator := hmoved.status.symm.trans hstatus'
      cases op with
      | escalateToOperator r₀ =>
          cases hdrives
          have hreason := escalated_run h hrun hrun'
          by_cases hstatus : run.status = .needsOperator
          · exact .stays hstatus hreason
          · exact .escalated rfl hreason hstatus
      | setStatus r₀ target =>
          cases hdrives
          cases hrule.2
      | persistStages r₀ st =>
          rw [drives] at hdrives
          split at hdrives
          · cases hdrives
          · cases hdrives
      | _ => cases hdrives
  | @claimed expected new _ hstatus hmoved =>
      obtain rfl : new = .needsOperator := hmoved.status.symm.trans hstatus'
      rcases hrule with h | ⟨-, h⟩ | ⟨-, -, -, h⟩
      · simp [rejections] at h
      · simp [reentries] at h
      · cases h
  | rewound _ hmoved => exact (hother hmoved.status (by decide)).elim
  | approved _ hmoved hs =>
      refine (hother hmoved.status ?_).elim
      rcases hs with rfl | rfl <;> decide
  | failed _ _ hmoved => exact (hother hmoved.status (by decide)).elim
  | requeued _ _ _ hmoved => exact (hother hmoved.status (by decide)).elim
  | retriggered _ _ hreopened => exact (hother hreopened.status (by decide)).elim
  | reconciled _ hmoved => exact (hother hmoved.status (by decide)).elim
  | @reviewed _ _ purpose _ _ hstatus _ hreason _ hsettles =>
      refine .reviewed hsettles (hasReviewReason_of_review hreason) ?_
      rw [hstatus]
      cases purpose <;> decide
  | markedDelivered _ _ hmoved => exact (hother hmoved.status (by decide)).elim
  | authorizedNew _ _ hreopened => exact (hother hreopened.status (by decide)).elim
  | finishedReview _ _ hmoved =>
      refine (hother hmoved.status ?_).elim
      rcases hrule with rfl | rfl <;> decide

theorem exact_commit (h : Effect env db op a db') (hcommit : ∀ e, env.fault ≠ .before e)
    (hfresh : Fresh db)
    (hrule : s.rule op) (hclean : escalatesClean env db op = true) (hexact : MarkerExact db log) :
    MarkerExact db' (⟨i, op, a, db, db'⟩ :: log) := by
  intro r hwaits
  obtain ⟨run', hrun', hstatus'⟩ := Option.map_eq_some_iff.mp hwaits
  rcases runsGrow (EmailSteps.runsWrite h hfresh) r run' hrun' with
    ⟨run, hrun⟩ | ⟨businessId, e, now, rfl⟩
  · have hbefore := statusOf_some hrun
    rw [marked_some hrun' hstatus']
    cases waits h hfresh hrule hrun hrun' hstatus' with
    | stays hstatus hreason =>
        have henters : enters r ⟨i, op, a, db, db'⟩ = false := by simp [enters, hbefore, hstatus]
        have hsame : hasReviewReason run' = marked db r := by
          rw [marked_some hrun hstatus, hasReviewReason, hasReviewReason, hreason]
        rw [entrance, List.find?_cons_of_neg (by rw [henters]; simp), hsame]
        exact hexact r (by rw [hbefore, hstatus])
    | escalated hop hreason hstatus =>
        subst hop
        have hclean : hasReviewReason run = false := by
          rw [escalatesClean, hrun] at hclean
          simpa [hcommit, hstatus] using hclean
        have henters : enters r ⟨i, .escalateToOperator r, a, db, db'⟩ = true := by
          simp [enters, hbefore, hstatus, hwaits]
        have hsame : hasReviewReason run' = hasReviewReason run := by
          rw [hasReviewReason, hasReviewReason, hreason]
        rw [entrance, List.find?_cons_of_pos henters, Option.any_some, hsame, hclean]
        exact Iff.rfl
    | reviewed hop hreason hstatus =>
        have henters : enters r ⟨i, op, a, db, db'⟩ = true := by simp [enters, hbefore, hstatus, hwaits]
        rw [entrance, List.find?_cons_of_pos henters, Option.any_some, hop, hreason]
  · cases hstatus'

theorem exact_exec (hfresh : Fresh db) (hexact : MarkerExact db log) (hrule : s.rule op)
    (hclean : escalatesClean env db op = true) :
    MarkerExact (exec env op db).2 (commits i env op db ++ log) := by
  rcases commit_cases i env op db with ⟨e, hexec, hcommits⟩ | ⟨a, db', htxn, hdb, hcommits, -⟩
  · rw [hexec, hcommits]
    exact hexact
  · rw [hdb, hcommits]
    refine exact_commit (txn_effect htxn) (fun e hbefore => ?_) hfresh hrule hclean hexact
    rw [Commits.commits, hbefore] at hcommits
    cases hcommits

theorem preserved : World.Preserved recorder thread cleanEscalations Unescalated conduct Work.fresh
    (fun db log => Fresh db ∧ MarkerExact db log) (fun _ _ _ _ => True) where
  init _ h := ⟨h.fresh, fun r hwaits => absurd hwaits (h.none r)⟩
  follows k _ := thread_follows k
  fresh _ _ _ _ := trivial
  shared _ _ _ _ _ _ hG _ hop hclean := ⟨fresh_exec hG.1, exact_exec hG.1 hG.2 hop.1 hclean⟩
  own _ _ _ _ _ _ _ _ _ _ := trivial
  other _ _ _ _ _ _ _ _ _ _ _ _ _ _ := trivial

/-- Where no escalation finds the reason of an earlier review, exactly the runs
that a settled or reaped send took into NEEDS_OPERATOR are delivery reviews. -/
theorem marker_exact {w : World Op Ans Exn Db Commit}
    (hreach : World.Reach recorder thread cleanEscalations Unescalated w) : MarkerExact w.data w.log :=
  (preserved.reach hreach).1.2

end

section Histories

attribute [local instance] asciiText

theorem unescalated_emptyDb : Unescalated emptyDb := by
  refine ⟨Fresh.of_keys (by decide), fun r hstatus => ?_⟩
  have hruns : emptyDb.runs.get? r = none := rfl
  rw [Db.statusOf, hruns] at hstatus
  cases hstatus

instance : DecidablePred cleanEscalations.spawns := fun _ => inferInstanceAs (Decidable True)

instance (i : Nat) (env : Env) (op : Op) (db : Db) (log : List Commit) :
    Decidable (cleanEscalations.permits i env op db log) :=
  inferInstanceAs (Decidable (escalatesClean env db op = true))

/-- The worker sends the message, and the answer of the provider is an error
that ends the delivery. -/
def sendFails (i : Nat) (job : Uuid) : List (Event Thread Env) :=
  works i 3 job misnamed ++ [.run i { fault := .after .value }, .run i {}]

def reviewed : List (Event Thread Env) := arrives 0 5 none ++ works 1 15 12 misnamed ++ sendFails 2 16

/-- The operator marks it handled, the client answers it and two more questions,
and the third reply leaves a name unmatched. -/
def capped : List (Event Thread Env) :=
  reviewed ++ [.spawn (.markHandled 11), .run 3 {}] ++ arrives 4 40 (some 14) ++ works 5 26 20 silent ++
    works 6 5 24 silent ++ arrives 7 41 (some 22) ++ works 8 25 28 misnamed ++ works 9 5 32 misnamed ++
    arrives 10 42 (some 30) ++ works 11 21 36 misnamed

/-- The escalation by the cap is taken for the delivery review of long ago. -/
theorem escalation_taken_for_review : ¬ ∀ w : World Op Ans Exn Db Commit,
    World.Reach recorder thread World.Rules.any Unescalated w → MarkerExact w.data w.log := by
  intro h
  have hreach := reach_recordedAfter unescalated_emptyDb capped
  have hstatus : (recordedAfter emptyDb capped).data.statusOf 11 = some .needsOperator := by
    decide +kernel
  have hmarked : marked (recordedAfter emptyDb capped).data 11 = true := by decide +kernel
  have hentered :
    (entrance 11 (recordedAfter emptyDb capped).log).any (fun c => settlesSend c.op) = false := by
    decide +kernel
  generalize recordedAfter emptyDb capped = w at *
  have hexact := (h w hreach 11 hstatus).mp hmarked
  rw [hentered] at hexact
  cases hexact

/-- The run whose send failed is a delivery review, and a settlement made it
one. -/
theorem marker_exact_reviewed : marked (recordedAfter emptyDb reviewed).data 11 = true ∧
    (entrance 11 (recordedAfter emptyDb reviewed).log).any (fun c => settlesSend c.op) = true := by
  have hreach : World.Reach recorder thread cleanEscalations Unescalated
    (recordedAfter emptyDb reviewed) :=
    reach_recordedAfter_of_permits unescalated_emptyDb (by decide +kernel)
  have hstatus : (recordedAfter emptyDb reviewed).data.statusOf 11 = some .needsOperator := by
    decide +kernel
  have hmarked : marked (recordedAfter emptyDb reviewed).data 11 = true := by decide +kernel
  exact ⟨hmarked, (marker_exact hreach 11 hstatus).mp hmarked⟩

end Histories

end PayrollAgent.DeliveryReview
