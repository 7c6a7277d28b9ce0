import PayrollAgent.BoundedQuestions
import PayrollAgent.Commits
import PayrollAgent.Lib.History
import PayrollAgent.OneRunPerEmail
import PayrollAgent.RunWrites

namespace PayrollAgent.UnaccountedErrors

open Lib History Repo Delivery RunRoutes ClarificationWrites Ingest Handlers Effects RunSteps
  FreshIds JobSteps NewJobs Receipts RunWrites Commits BoundedQuestions

def fails (r : Uuid) (c : Commit) : Bool :=
  c.before.statusOf r ≠ some .error ∧ c.after.statusOf r = some .error

def failure (r : Uuid) (log : List Commit) : Option Commit := log.find? (fails r)

def settlesJobOf (r : Uuid) (c : Commit) : Bool :=
  (c.after.jobs.select fun j row => row.runId = some r ∧ isOpen row = false ∧
    (c.before.jobs.get? j).any isOpen).isSome

def stampOf (db : Db) (r : Uuid) : Option Nat := (db.runs.get? r).map Run.updatedAt

def restamped (r : Uuid) (log : List Commit) : Bool :=
  (log.takeWhile fun c => !fails r c).any fun c => stampOf c.after r ≠ stampOf c.before r

def writes : Op → Bool
  | .query => false
  | .send _ => false
  | .loadConsumedReplies _ => false
  | .extract _ => false
  | .suggest => false
  | .compose => false
  | .fetchInbound _ => false
  | .pass _ => false
  | _ => true

/-- Distinct transactions have distinct timestamps. -/
def Distinct (log : List Commit) : Prop :=
  log.Pairwise fun later earlier => writes later.op = true → writes earlier.op = true →
    later.before.now ≠ earlier.before.now

instance decidableDistinct (log : List Commit) : Decidable (Distinct log) :=
  inferInstanceAs (Decidable (log.Pairwise fun later earlier => writes later.op = true →
    writes earlier.op = true → later.before.now ≠ earlier.before.now))

def settles : Op → Bool
  | .settlePipelineJob _ _ => true
  | .settleOutboundDeliveryJob _ _ => true
  | .reapExpiredFinalAttempt => true
  | _ => false

def unaccounted (db : Db) (r : Uuid) : Bool := (unaccountedErrorRuns db).any fun p => p.1 = r

def newerThan (db : Db) (r : Uuid) : List (Uuid × Run) :=
  (unaccountedErrorRuns db).filter fun p => (stampOf db r).any (· < p.2.updatedAt)

structure Quiet (db : Db) : Prop where
  fresh : Fresh db
  errors : ∀ r, db.statusOf r ≠ some .error
  jobs : ∀ j row, db.jobs.get? j = some row → isOpen row = true

variable {db db' : Db} {op : Op} {r r' j : Uuid} {run run' : Run} {row row' : JobRow} {c c' : Commit}
  {log newer older : List Commit}

theorem unaccounted_iff : unaccounted db r = true ↔
    ∃ run, db.runs.get? r = some run ∧ run.status = .error ∧ accounted db r run = false := by
  rw [unaccounted, List.any_eq_true]
  constructor
  · rintro ⟨⟨q, run⟩, hmem, hq⟩
    obtain rfl := of_decide_eq_true hq
    obtain ⟨hentry, herror⟩ := List.mem_filter.mp hmem
    exact ⟨run, (Dict.get?_eq_some_iff ..).mpr hentry, of_decide_eq_true herror⟩
  · rintro ⟨run, hrun, herror⟩
    refine ⟨(r, run), List.mem_filter.mpr ⟨(Dict.get?_eq_some_iff ..).mp hrun, decide_eq_true herror⟩, ?_⟩
    exact decide_eq_true rfl

theorem accounted_iff : accounted db r run = true ↔
    ∃ j row, db.jobs.get? j = some row ∧ row.runId = some r ∧ isOpen row = false ∧
    row.updatedAt = run.updatedAt := by
  have hclosed : ∀ row : JobRow, (row.state = .done ∨ row.state = .dead) ↔ isOpen row = false := by
    intro row
    rw [isOpen]
    cases row.state <;> simp
  rw [accounted, Option.isSome_iff_exists]
  constructor
  · rintro ⟨⟨j, row⟩, hfound⟩
    obtain ⟨hrow, hp⟩ := Dict.select_some hfound
    obtain ⟨hrun, hstate, hstamp⟩ := of_decide_eq_true hp
    exact ⟨j, row, hrow, hrun, (hclosed row).mp hstate, hstamp⟩
  · rintro ⟨j, row, hrow, hrun, hstate, hstamp⟩
    exact Dict.select_isSome hrow (decide_eq_true ⟨hrun, (hclosed row).mpr hstate, hstamp⟩)

theorem settlesJobOf_iff : settlesJobOf r c = true ↔
    ∃ j row row', c.before.jobs.get? j = some row ∧ isOpen row = true ∧ c.after.jobs.get? j = some row' ∧
      row'.runId = some r ∧ isOpen row' = false := by
  rw [settlesJobOf, Option.isSome_iff_exists]
  constructor
  · rintro ⟨⟨j, row'⟩, hfound⟩
    obtain ⟨hrow', hp⟩ := Dict.select_some hfound
    obtain ⟨hrun, hclosed, hbefore⟩ := of_decide_eq_true hp
    cases hrow : c.before.jobs.get? j with
    | none =>
        rw [hrow] at hbefore
        cases hbefore
    | some row =>
        rw [hrow] at hbefore
        exact ⟨j, row, row', hrow, hbefore, hrow', hrun, hclosed⟩
  · rintro ⟨j, row, row', hrow, hopen, hrow', hrun, hclosed⟩
    exact Dict.select_isSome hrow' (decide_eq_true ⟨hrun, hclosed, by rw [hrow]; exact hopen⟩)

theorem written_stamped (h : RunWrite db op db') (hrun' : db'.runs.get? r = some run')
    (hchanged : db.runs.get? r ≠ some run') : run'.updatedAt = db.now := by
  cases h with
  | same hruns =>
      rw [hruns] at hrun'
      exact absurd hrun' hchanged
  | wrote q f hruns hf =>
      rw [hruns, Dict.get?_modify] at hrun'
      split at hrun'
      · obtain ⟨run, -, rfl⟩ := Option.map_eq_some_iff.mp hrun'
        exact hf.stamped run
      · exact absurd hrun' hchanged
  | created q businessId hruns =>
      rw [hruns, Dict.get?_set] at hrun'
      split at hrun'
      · obtain rfl := Option.some.inj hrun'
        rfl
      · exact absurd hrun' hchanged

theorem written_alone (h : RunWrite db op db') (hr : db'.runs.get? r ≠ db.runs.get? r)
    (hr' : db'.runs.get? r' ≠ db.runs.get? r') : r = r' := by
  have honly : ∀ {q : Uuid}, (∀ q', q' ≠ q → db'.runs.get? q' = db.runs.get? q') → r = r' := by
    intro q hrest
    have hq : r = q := by_contra fun hne => hr (hrest r hne)
    have hq' : r' = q := by_contra fun hne => hr' (hrest r' hne)
    rw [hq, hq']
  cases h with
  | same hruns => exact absurd (by rw [hruns]) hr
  | wrote q f hruns =>
      exact honly fun q' hne => by rw [hruns, Dict.get?_modify_of_ne _ hne]
  | created q businessId hruns =>
      exact honly fun q' hne => by rw [hruns, Dict.get?_set_of_ne _ hne]

section

variable [PyText] {env : Env} {a : Ans op}

theorem writes_of_changed (h : Effect env db op a db')
    (hchanged : db'.runs.get? r ≠ db.runs.get? r) : writes op = true := by
  cases op with
  | query =>
      cases h
      exact absurd rfl hchanged
  | send =>
      cases h
      exact absurd rfl hchanged
  | loadConsumedReplies =>
      cases h
      exact absurd rfl hchanged
  | extract =>
      cases h
      exact absurd rfl hchanged
  | suggest =>
      cases h
      exact absurd rfl hchanged
  | compose =>
      cases h
      exact absurd rfl hchanged
  | fetchInbound =>
      cases h
      exact absurd rfl hchanged
  | pass =>
      cases h with
      | idle => exact absurd rfl hchanged
      | passed => exact absurd rfl hchanged
  | _ => rfl

/-- A row that is closed was closed before, or a settlement closes and stamps it. -/
theorem closed_origin (h : Effect env db op a db') (hfresh : Fresh db)
    (hrow' : db'.jobs.get? j = some row')
    (hclosed : isOpen row' = false) : db.jobs.get? j = some row' ∨
      (∃ row, db.jobs.get? j = some row ∧ isOpen row = true) ∧ settles op = true ∧
      row'.updatedAt = db.now := by
  cases hrow : db.jobs.get? j with
  | none =>
      obtain hold | hnew := (jobsGrow h).jobs j row' hrow'
      · rw [hrow] at hold
        cases hold
      · rw [isOpen, hnew.state] at hclosed
        cases hclosed
  | some row =>
      obtain ⟨row'', hrow'', hstep⟩ := jobStep h hfresh hrow
      obtain rfl := Option.some.inj (hrow''.symm.trans hrow')
      cases hopen : isOpen row with
      | false => exact .inl (congrArg some (OneRunPerEmail.closed_stays hstep hopen).symm)
      | true =>
          refine .inr ⟨⟨row, rfl, hopen⟩, ?_⟩
          have hgave : ∀ {state : JobState}, Unleased db.now state row row'' →
            row''.updatedAt = db.now := by
            rintro state ⟨availableAt, lastError, rfl⟩
            rfl
          cases hstep with
          | kept =>
              rw [hopen] at hclosed
              cases hclosed
          | leased => cases hclosed
          | reapedInvalid _ _ _ _ hrow' => exact ⟨rfl, hgave hrow'⟩
          | reapedReview _ _ _ hrow' => exact ⟨rfl, hgave hrow'⟩
          | reapedOther _ hrow' => exact ⟨rfl, hgave hrow'⟩
          | retired _ _ _ hrow' => exact ⟨rfl, hgave hrow'⟩
          | settled _ _ _ _ hrow' => exact ⟨rfl, hgave hrow'⟩
          | closed _ _ _ _ hrow' => exact ⟨rfl, hgave hrow'⟩
          | released => cases hclosed
          | advanced =>
              rw [isOpen] at hclosed hopen
              rw [hopen] at hclosed
              cases hclosed

theorem error_left (h : Effect env db op a db') (hsettles : settles op = true)
    (herror : db.statusOf r = some .error) : db'.runs.get? r = db.runs.get? r := by
  have hother : ∀ {q : Uuid} {s : RunStatus} {f : Run → Run}, db.statusOf q = some s → s ≠ .error →
      db'.runs = db.runs.modify q f → db'.runs.get? r = db.runs.get? r := by
    intro q s f hq hs hruns
    have hne : r ≠ q := by
      rintro rfl
      exact hs (Option.some.inj (hq.symm.trans herror))
    rw [hruns, Dict.get?_modify_of_ne _ hne]
  have howing : ∀ {q e : Uuid} {m : Outbound} {run : Run}, deliveryContext db q e = some (m, run) →
      db.statusOf q = some m.purpose.expectedStatus ∧ m.purpose.expectedStatus ≠ .error := by
    intro q e m run howed
    obtain ⟨-, -, hrun, -, -, hstatus⟩ := deliveryContext_some howed
    refine ⟨by rw [Db.statusOf, hrun, ← hstatus]; rfl, ?_⟩
    cases m.purpose <;> decide
  have hsent : ∀ {q e : Uuid} {m : Outbound} {run : Run} {db₁ : Db}, deliveryContext db q e =
    some (m, run) →
      db₁.runs = db.runs → db'.runs = (settleSent q e m.purpose db₁).runs →
      db'.runs.get? r = db.runs.get? r := by
    intro q e m run db₁ howed hruns₁ hruns
    obtain ⟨hq, hne⟩ := howing howed
    rw [settleSent_runs, hruns₁] at hruns
    split at hruns
    · exact hother hq hne hruns
    · rw [hruns]
  cases h with
  | idle => rfl
  | reapedInvalid => rfl
  | reapedReview _ _ _ howned =>
      obtain ⟨hq, hne⟩ := howing howned.owed
      exact hother hq hne (enterDeliveryReview_runs ..)
  | reapedRun _ _ _ hstatus hs =>
      refine hother hstatus ?_ (setRunError_runs hstatus)
      rintro rfl
      exact absurd hs (by decide)
  | reapedJob => rfl
  | retired => rfl
  | recorded hctx => exact hsent hctx.owed rfl rfl
  | expired hctx =>
      obtain ⟨hq, hne⟩ := howing hctx.owed
      exact hother hq hne (enterDeliveryReview_runs ..)
  | @sent job result row q e m run h handoff hctx =>
      have hruns : (appendDeliveryAttempt e .sent .none (releaseHandoff h .finalized db)).runs =
        db.runs := rfl
      exact hsent hctx.owed hruns rfl
  | rescheduled => rfl
  | reviewed hctx =>
      obtain ⟨hq, hne⟩ := howing hctx.owed
      exact hother hq hne (enterDeliveryReview_runs ..)
  | closed => rfl
  | @requeued job result row q _ _ _ _ hstatus =>
      have hset : (setStatus q .received db).runs = _ := Db.modifyRun_runs ..
      exact hother hstatus (by decide) hset
  | failed _ _ hstatus => exact hother hstatus (by decide) (setRunError_runs hstatus)
  | _ => cases hsettles

/-- A commit of a history: its transaction, from fresh identifiers. -/
def Committed (c : Commit) : Prop := ∃ env, Effect env c.before c.op c.answer c.after ∧ Fresh c.before

structure Timed (db : Db) (log : List Commit) : Prop where
  linked : ∃ db₀, Quiet db₀ ∧ Linked db₀ db log
  committed : ∀ c ∈ log, Committed c
  distinct : Distinct log

theorem Timed.unique (h : Timed db log) {newer' older' : List Commit} (hlog : log = newer ++ c :: older)
    (hlog' : log = newer' ++ c' :: older') (hwrites : writes c.op = true) (hwrites' : writes c'.op = true)
    (hnow : c.before.now = c'.before.now) : newer = newer' ∧ c = c' := by
  obtain ⟨hnewer, hc, -⟩ := split_unique h.distinct hlog hlog' (fun h => h hwrites hwrites' hnow)
    (fun h => h hwrites' hwrites hnow.symm)
  exact ⟨hnewer, hc⟩

omit [PyText] in
theorem writes_of_settles (h : settles op = true) : writes op = true := by
  cases op with
  | settlePipelineJob => rfl
  | settleOutboundDeliveryJob => rfl
  | reapExpiredFinalAttempt => rfl
  | _ => cases h

/-- The commit that wrote the row of a run in ERROR last, and stamped it. -/
structure WroteLast (r : Uuid) (run : Run) (log newer : List Commit) (c : Commit)
    (older : List Commit) : Prop where
  split : log = newer ++ c :: older
  after : c.after.runs.get? r = some run
  before : c.before.runs.get? r ≠ some run
  later : ∀ c' ∈ newer, c'.after.runs.get? r = c'.before.runs.get? r
  stamped : run.updatedAt = c.before.now
  writes : writes c.op = true

theorem Timed.wroteLast (h : Timed db log) (hrun : db.runs.get? r = some run)
    (herror : run.status = .error) : ∃ newer c older, WroteLast r run log newer c older := by
  obtain ⟨db₀, hquiet, hlinked⟩ := h.linked
  have hne : db.runs.get? r ≠ db₀.runs.get? r := by
    intro hsame
    refine hquiet.errors r ?_
    rw [Db.statusOf, ← hsame, hrun, ← herror]
    rfl
  obtain ⟨newer, c, older, hlast⟩ := hlinked.last_change (f := fun db => db.runs.get? r) hne
  obtain ⟨env, heffect, hfresh⟩ := h.committed c (hlast.split ▸ List.mem_append_right _
    (List.mem_cons_self ..))
  have hafter : c.after.runs.get? r = some run := hlast.left.trans hrun
  have hbefore : c.before.runs.get? r ≠ some run := fun hsame => hlast.changed (hsame.trans hafter.symm)
  refine ⟨newer, c, older, hlast.split, hafter, hbefore, hlast.later, ?_, ?_⟩
  · exact written_stamped (runWrite heffect hfresh) hafter hbefore
  · exact writes_of_changed heffect fun hsame => hlast.changed hsame.symm

structure ClosedBy (j : Uuid) (row : JobRow) (log newer : List Commit) (c : Commit)
    (older : List Commit) : Prop where
  split : log = newer ++ c :: older
  after : c.after.jobs.get? j = some row
  before : ∃ row, c.before.jobs.get? j = some row ∧ isOpen row = true
  stamped : row.updatedAt = c.before.now
  settles : settles c.op = true

theorem Timed.closedBy (h : Timed db log) (hrow : db.jobs.get? j = some row)
    (hclosed : isOpen row = false) : ∃ newer c older, ClosedBy j row log newer c older := by
  obtain ⟨db₀, hquiet, hlinked⟩ := h.linked
  have hne : db.jobs.get? j ≠ db₀.jobs.get? j := by
    intro hsame
    rw [hquiet.jobs j row (hsame.symm.trans hrow)] at hclosed
    cases hclosed
  obtain ⟨newer, c, older, hlast⟩ := hlinked.last_change (f := fun db => db.jobs.get? j) hne
  obtain ⟨env, heffect, hfresh⟩ := h.committed c (hlast.split ▸ List.mem_append_right _
    (List.mem_cons_self ..))
  have hafter : c.after.jobs.get? j = some row := hlast.left.trans hrow
  obtain hbefore | ⟨hopen, hsettles, hstamp⟩ := closed_origin heffect hfresh hafter hclosed
  · exact absurd (hbefore.trans hafter.symm) hlast.changed
  · exact ⟨newer, c, older, hlast.split, hafter, hopen, hstamp, hsettles⟩

omit [PyText] in
theorem failure_split (hlog : log = newer ++ c :: older) (hfails : fails r c = true)
    (hlater : ∀ c' ∈ newer, fails r c' = false) : failure r log = some c := by
  rw [hlog, failure, List.find?_append, List.find?_eq_none.mpr (by simpa using hlater), Option.none_or,
    List.find?_cons_of_pos hfails]

/-- A job that carries the stamp of a run in ERROR was closed by the commit that
took the run there. -/
theorem Timed.vouched (h : Timed db log) (hrun : db.runs.get? r = some run) (herror : run.status = .error)
    (haccounted : accounted db r run = true) : ∃ c, failure r log = some c ∧ settlesJobOf r c = true := by
  obtain ⟨j, row, hrow, hown, hclosed, hstamp⟩ := accounted_iff.mp haccounted
  obtain ⟨newer, c, older, hwrote⟩ := h.wroteLast hrun herror
  obtain ⟨newer', c', older', hby⟩ := h.closedBy hrow hclosed
  obtain ⟨rfl, rfl⟩ := h.unique hwrote.split hby.split hwrote.writes (writes_of_settles hby.settles)
    (hwrote.stamped.symm.trans (hstamp.symm.trans hby.stamped))
  obtain ⟨env, heffect, -⟩ := h.committed c (hwrote.split ▸ List.mem_append_right _
    (List.mem_cons_self ..))
  have hbefore : c.before.statusOf r ≠ some .error := by
    intro hbefore
    exact hwrote.before ((error_left heffect hby.settles hbefore).symm.trans hwrote.after)
  have hafter : c.after.statusOf r = some .error := by
    rw [Db.statusOf, hwrote.after, ← herror]
    rfl
  refine ⟨c, failure_split hwrote.split (decide_eq_true ⟨hbefore, hafter⟩) fun c' hc' => ?_, ?_⟩
  · have hsame : c'.after.statusOf r = c'.before.statusOf r := by
      rw [Db.statusOf, Db.statusOf, hwrote.later c' hc']
    simp [fails, hsame]
  · obtain ⟨row₀, hrow₀, hopen⟩ := hby.before
    exact settlesJobOf_iff.mpr ⟨j, row₀, row, hrow₀, hopen, hby.after, hown, hclosed⟩

theorem Timed.failed (h : Timed db log) (herror : db.statusOf r = some .error) :
    ∃ newer c older, log = newer ++ c :: older ∧ fails r c = true ∧ ∀ c' ∈ newer, fails r c' = false := by
  obtain ⟨db₀, hquiet, hlinked⟩ := h.linked
  have hne : decide (db.statusOf r = some .error) ≠ decide (db₀.statusOf r = some .error) := by
    rw [decide_eq_true herror, decide_eq_false (hquiet.errors r)]
    decide
  obtain ⟨newer, c, older, hlast⟩ :=
    hlinked.last_change (f := fun db => decide (db.statusOf r = some .error)) hne
  have hafter : c.after.statusOf r = some .error :=
    of_decide_eq_true (hlast.left.trans (decide_eq_true herror))
  have hbefore : c.before.statusOf r ≠ some .error := by
    intro hbefore
    exact hlast.changed ((decide_eq_true hbefore).trans (decide_eq_true hafter).symm)
  refine ⟨newer, c, older, hlast.split, decide_eq_true ⟨hbefore, hafter⟩, fun c' hc' => ?_⟩
  have hsame := decide_eq_decide.mp (hlast.later c' hc')
  simp [fails, hsame]

/-- Where the commit that took the run to ERROR closed a job of it, and the row
was not stamped since, that job vouches for the run. -/
theorem Timed.accounted (h : Timed db log) (hrun : db.runs.get? r = some run)
    (hlog : log = newer ++ c :: older)
    (hfails : fails r c = true) (hlater : ∀ c' ∈ newer, fails r c' = false)
    (hsettles : settlesJobOf r c = true)
    (hleft : restamped r log = false) : accounted db r run = true := by
  obtain ⟨db₀, -, hlinked⟩ := h.linked
  obtain ⟨env, heffect, hfresh⟩ := h.committed c (hlog ▸ List.mem_append_right _ (List.mem_cons_self ..))
  obtain ⟨j, row₀, row, hrow₀, hopen, hrow, hown, hclosed⟩ := settlesJobOf_iff.mp hsettles
  obtain ⟨hbefore, hafter⟩ := of_decide_eq_true hfails
  -- the run and the job are stamped by the commit itself
  have hjob : row.updatedAt = c.before.now := by
    obtain hsame | ⟨-, -, hstamp⟩ := closed_origin heffect hfresh hrow hclosed
    · obtain rfl := Option.some.inj (hrow₀.symm.trans hsame)
      rw [hopen] at hclosed
      cases hclosed
    · exact hstamp
  obtain ⟨run₁, hrun₁, -⟩ := Option.map_eq_some_iff.mp hafter
  have hstamped : stampOf c.after r = some c.before.now := by
    have hchanged : c.before.runs.get? r ≠ some run₁ := by
      intro hsame
      refine hbefore ?_
      rw [Db.statusOf, hsame, ← hrun₁]
      exact hafter
    rw [stampOf, hrun₁, Option.map_some, written_stamped (runWrite heffect hfresh) hrun₁ hchanged]
  -- and no later commit touches either stamp
  have htake : log.takeWhile (fun c => !fails r c) = newer := by
    rw [hlog, List.takeWhile_append_of_pos (by simpa using hlater), List.takeWhile_cons_of_neg
      (by simp [hfails]), List.append_nil]
  rw [restamped, htake, List.any_eq_false] at hleft
  have hstamp : stampOf db r = some c.before.now := by
    refine hlinked.stays (P := fun db => stampOf db r = some c.before.now) hlog
      (fun c' hc' hkept => ?_) hstamped
    have hsame := hleft c' hc'
    rw [decide_eq_true_eq, not_not] at hsame
    exact hsame.trans hkept
  have hrow' : db.jobs.get? j = some row := by
    refine hlinked.stays (P := fun db => db.jobs.get? j = some row) hlog (fun c' hc' hkept => ?_) hrow
    obtain ⟨env', heffect', hfresh'⟩ := h.committed c' (hlog ▸ List.mem_append_left _ hc')
    obtain ⟨row', hrow', hstep⟩ := jobStep heffect' hfresh' hkept
    rwa [OneRunPerEmail.closed_stays hstep hclosed] at hrow'
  refine accounted_iff.mpr ⟨j, row, hrow', hown, hclosed, ?_⟩
  rw [stampOf, hrun, Option.map_some] at hstamp
  exact hjob.trans (Option.some.inj hstamp).symm

theorem Timed.stamps_nodup (h : Timed db log) :
    ((unaccountedErrorRuns db).map fun p => p.2.updatedAt).Nodup := by
  have hkeys : (unaccountedErrorRuns db).Pairwise fun p q => p.1 ≠ q.1 :=
    (List.pairwise_map.mp db.runs.nodup).sublist List.filter_sublist
  refine List.pairwise_map.mpr (hkeys.imp_of_mem ?_)
  rintro ⟨r, run⟩ ⟨r', run'⟩ hp hq hne hstamp
  obtain ⟨hentry, herror⟩ := List.mem_filter.mp hp
  obtain ⟨hentry', herror'⟩ := List.mem_filter.mp hq
  obtain ⟨newer, c, older, hwrote⟩ := h.wroteLast ((Dict.get?_eq_some_iff ..).mpr hentry)
    (of_decide_eq_true herror).1
  obtain ⟨newer', c', older', hwrote'⟩ := h.wroteLast ((Dict.get?_eq_some_iff ..).mpr hentry')
    (of_decide_eq_true herror').1
  obtain ⟨-, rfl⟩ := h.unique hwrote.split hwrote'.split hwrote.writes hwrote'.writes
    (hwrote.stamped.symm.trans (Eq.trans hstamp hwrote'.stamped))
  obtain ⟨env, heffect, hfresh⟩ := h.committed c (hwrote.split ▸ List.mem_append_right _
    (List.mem_cons_self ..))
  refine hne (written_alone (runWrite heffect hfresh) (fun hsame => ?_) fun hsame => ?_)
  · exact hwrote.before (hsame.symm.trans hwrote.after)
  · exact hwrote'.before (hsame.symm.trans hwrote'.after)

theorem Timed.listed_iff (h : Timed db log) (limit : Nat) :
    r ∈ (listUnaccountedErrorRuns limit db).map UnaccountedErrorRun.id ↔
      unaccounted db r = true ∧ (newerThan db r).length < limit := by
  have hcount : ∀ run, db.runs.get? r = some run →
      (unaccountedErrorRuns db).filter (fun p => run.updatedAt < p.2.updatedAt) = newerThan db r := by
    intro run hrun
    rw [newerThan, stampOf, hrun]
    rfl
  rw [listUnaccountedErrorRuns, List.map_map, List.mem_map]
  constructor
  · rintro ⟨⟨q, run⟩, hmem, rfl⟩
    obtain ⟨hmem, hlt⟩ := (mem_newest h.stamps_nodup).mp hmem
    obtain ⟨hentry, -⟩ := List.mem_filter.mp hmem
    rw [hcount run ((Dict.get?_eq_some_iff ..).mpr hentry)] at hlt
    exact ⟨List.any_eq_true.mpr ⟨(q, run), hmem, decide_eq_true rfl⟩, hlt⟩
  · rintro ⟨hunaccounted, hlt⟩
    obtain ⟨⟨q, run⟩, hmem, hq⟩ := List.any_eq_true.mp hunaccounted
    obtain rfl := of_decide_eq_true hq
    obtain ⟨hentry, -⟩ := List.mem_filter.mp hmem
    rw [← hcount run ((Dict.get?_eq_some_iff ..).mpr hentry)] at hlt
    exact ⟨(q, run), (mem_newest h.stamps_nodup).mpr ⟨hmem, hlt⟩, rfl⟩

theorem timed {w : World Op Ans Exn Db Commit}
    (hreach : World.Reach recorder thread World.Rules.any Quiet w)
    (hdistinct : Distinct w.log) : Timed w.data w.log := by
  refine ⟨reach_linked hreach, fun c hc => ?_, hdistinct⟩
  obtain ⟨newer, older, hlog⟩ := List.append_of_mem hc
  obtain ⟨w', hreach', hbefore, -, env, -, htxn⟩ := reach_before hreach hlog
  have hfresh : Fresh w'.data := by
    refine reach_history (G := fun db _ => Fresh db) hreach' (fun db hquiet => hquiet.fresh) ?_
    intro i env op a db db' log hfresh _ htxn
    exact fresh_step (txn_effect htxn) hfresh
  exact ⟨env, txn_effect htxn, hbefore ▸ hfresh⟩

/-- The alarm finds every run in ERROR that no job settled for. It finds none
whose transition settled one, as long as nothing stamps the row again. It shows
the newest of what it finds. -/
theorem alarm_exact {w : World Op Ans Exn Db Commit}
    (hreach : World.Reach recorder thread World.Rules.any Quiet w)
    (hdistinct : Distinct w.log) (limit : Nat) :
    (∀ r, w.data.statusOf r = some .error → ∃ c, failure r w.log = some c ∧
      (settlesJobOf r c = false → unaccounted w.data r = true) ∧
        (settlesJobOf r c = true → restamped r w.log = false → unaccounted w.data r = false)) ∧
      ∀ r, r ∈ (listUnaccountedErrorRuns limit w.data).map UnaccountedErrorRun.id ↔
        unaccounted w.data r = true ∧ (newerThan w.data r).length < limit := by
  have htimed := timed hreach hdistinct
  refine ⟨fun r herror => ?_, fun r => htimed.listed_iff limit⟩
  obtain ⟨newer, c, older, hlog, hfails, hlater⟩ := htimed.failed herror
  obtain ⟨run, hrun, hstatus⟩ := Option.map_eq_some_iff.mp herror
  have hfailure := failure_split hlog hfails hlater
  refine ⟨c, hfailure, fun hnone => ?_, fun hsettles hleft => ?_⟩
  · refine unaccounted_iff.mpr ⟨run, hrun, hstatus, ?_⟩
    by_contra haccounted
    rw [Bool.not_eq_false] at haccounted
    obtain ⟨c', hfailure', hsettles⟩ := htimed.vouched hrun hstatus haccounted
    obtain rfl := Option.some.inj (hfailure.symm.trans hfailure')
    rw [hnone] at hsettles
    cases hsettles
  · by_contra hunaccounted
    rw [Bool.not_eq_false] at hunaccounted
    obtain ⟨run', hrun', -, hnone⟩ := unaccounted_iff.mp hunaccounted
    rw [htimed.accounted hrun' hlog hfails hlater hsettles hleft] at hnone
    cases hnone

end

section Histories

attribute [local instance] asciiText

theorem quiet_emptyDb : Quiet emptyDb := by
  have hruns : ∀ r, emptyDb.statusOf r = none := fun _ => rfl
  have hjobs : ∀ j, emptyDb.jobs.get? j = none := fun _ => rfl
  refine ⟨Fresh.of_keys (by decide), fun r herror => ?_, fun j row hrow => ?_⟩
  · rw [hruns] at herror
    cases herror
  · rw [hjobs] at hrow
    cases hrow

/-- A second passes before each of the `n` steps of thread `i`. The first pass
is thread `k`. -/
def slowly (i k n : Nat) (job : Uuid) : List (Event Thread Env) :=
  (List.range n).flatMap fun m => [.spawn (.pass 1), .run (k + m) {},
    .run i { picked := job, extracted := misnamed }]

/-- A worker stands before its first write while its lease runs out. The next
one claims the job again, cannot read the thread and settles the job. -/
def failedOnce : List (Event Thread Env) :=
  arrives 0 5 none ++ [.spawn .worker] ++ slowly 1 2 7 12 ++ [.spawn (.pass 1000), .run 9 {},
    .spawn .worker] ++
    slowly 10 11 8 12 ++ [.run 10 { fault := .before .value }, .spawn (.pass 1), .run 19 {}, .run 10 {}]

def storedLate : List (Event Thread Env) := failedOnce ++ [.spawn (.pass 1), .run 20 {}, .run 1 {}]

/-- The run is reported though its job settled with the error. -/
theorem late_write_raises_alarm : ¬ ∀ (w : World Op Ans Exn Db Commit) r,
    World.Reach recorder thread World.Rules.any Quiet w → Distinct w.log → w.data.statusOf r =
    some .error → (r ∈ (listUnaccountedErrorRuns 50 w.data).map UnaccountedErrorRun.id ↔
        (failure r w.log).any (settlesJobOf r) = false) := by
  intro h
  have hreach := reach_recordedAfter quiet_emptyDb storedLate
  have hdistinct : Distinct (recordedAfter emptyDb storedLate).log := by decide +kernel
  have herror : (recordedAfter emptyDb storedLate).data.statusOf 11 = some .error := by decide +kernel
  have hlisted : 11 ∈ (listUnaccountedErrorRuns 50 (recordedAfter emptyDb storedLate).data).map
    UnaccountedErrorRun.id := by
    decide +kernel
  have hsettled : (failure 11 (recordedAfter emptyDb storedLate).log).any (settlesJobOf 11) =
    true := by decide +kernel
  generalize recordedAfter emptyDb storedLate = w at *
  rw [(h w 11 hreach hdistinct herror).mp hlisted] at hsettled
  cases hsettled

/-- Before that write it is not reported. -/
theorem alarm_silent_once : unaccounted (recordedAfter emptyDb failedOnce).data 11 = false := by
  have hreach := reach_recordedAfter quiet_emptyDb failedOnce
  have hdistinct : Distinct (recordedAfter emptyDb failedOnce).log := by decide +kernel
  have herror : (recordedAfter emptyDb failedOnce).data.statusOf 11 = some .error := by decide +kernel
  have hsettled : (failure 11 (recordedAfter emptyDb failedOnce).log).any (settlesJobOf 11) =
    true := by decide +kernel
  have hleft : restamped 11 (recordedAfter emptyDb failedOnce).log = false := by decide +kernel
  generalize recordedAfter emptyDb failedOnce = w at *
  obtain ⟨c, hfailure, -, hsilent⟩ := (alarm_exact hreach hdistinct 50).1 11 herror
  rw [hfailure, Option.any_some] at hsettled
  exact hsilent hsettled hleft

end Histories

end PayrollAgent.UnaccountedErrors
