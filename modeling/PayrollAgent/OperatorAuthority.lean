import PayrollAgent.BoundedQuestions
import PayrollAgent.Commits
import PayrollAgent.JobKeys

namespace PayrollAgent.OperatorAuthority

open Lib Repo AliasLearning RunStages Delivery RunRoutes ClarificationWrites Ingest Handlers Effects
  FreshIds Conduct NewJobs JobKeys Commits BoundedQuestions

section

variable (db : Db)

theorem setRunError_resolutions (r : Uuid) (reason : ErrorReason) (detail : ErrorDetail) (s : RunStatus) :
    (setRunError r reason detail s db).2.resolutions = db.resolutions := by
  obtain ⟨runs, hframe⟩ := setRunError_frame r reason detail s db
  rw [hframe]

theorem authorizedReplyJob_resolutions (mail : InboundMail) (r e : Uuid) :
    (authorizedReplyJob mail r e db).resolutions = db.resolutions := by
  obtain hsame | ⟨-, hqueued⟩ := authorizedReplyJob_cases mail r e db
  · rw [hsame]
  · rw [hqueued, enqueueJob_resolutions]

theorem persistStages_resolutions (r : Uuid) (s : StageResult) :
    (persistStages r s db).resolutions = db.resolutions := by
  obtain ⟨runs, hframe⟩ := persistStages_frame r s db
  rw [hframe]

theorem reserve_resolutions (r : Uuid) (purpose : Purpose) (round : Nat) (envelope : Envelope)
    (e : Uuid) :
    (enqueueSend r e (reserveOutboundSnapshot r purpose round envelope db).2).resolutions =
    db.resolutions := by
  exact (enqueueJob_resolutions ..).trans (reserveOutboundSnapshot_resolutions ..)

theorem resolve_resolutions {db db' : Db} {r e : Uuid} {resolution : ReleaseReason}
    (h : resolveOutboundProviderHandoffForDeliveryReview r e resolution db = (true, db')) :
    db'.resolutions = db.resolutions := by
  obtain ⟨handoffs, rfl⟩ := resolve_frame h
  rfl

variable [PyText]

theorem writeAliasesIfSafe_resolutions (r : Uuid) :
    (writeAliasesIfSafe r db).resolutions = db.resolutions := by
  obtain ⟨rosters, hframe⟩ := writeAliasesIfSafe_frame r db
  rw [hframe]

theorem settleSent_resolutions (r e : Uuid) (purpose : Purpose) :
    (settleSent r e purpose db).resolutions = db.resolutions := by
  cases purpose with
  | confirmation => exact writeAliasesIfSafe_resolutions ..
  | clarification => rfl
  | clarificationFieldRegression => rfl

theorem deliver_resolutions (r : Uuid) (envelope : Envelope) :
    (deliver r envelope db).resolutions = db.resolutions := by
  obtain ⟨-, hdeliver⟩ | ⟨-, ⟨e, m, -, hdeliver⟩ | ⟨-, hdeliver⟩⟩ := deliver_cases r envelope db
  · rw [hdeliver]
    exact writeAliasesIfSafe_resolutions ..
  · rw [hdeliver]
    exact enqueueJob_resolutions ..
  · rw [hdeliver]
    exact reserve_resolutions ..

end

section

variable [PyText] {env : Env} {op : Op} {a : Ans op} {db db' : Db}

theorem resolutions_same (h : Effect env db op a db')
    (hop : ∀ r overrides remember, op ≠ .commitResolution r overrides remember) :
    db'.resolutions = db.resolutions := by
  cases h with
  | reapedRun => exact setRunError_resolutions ..
  | recorded => exact settleSent_resolutions ..
  | sent => exact settleSent_resolutions ..
  | failed => exact setRunError_resolutions ..
  | persisted => exact persistStages_resolutions ..
  | replayed => exact enqueueJob_resolutions ..
  | reserved => exact reserveClarification_resolutions ..
  | redelivered => exact authorizedReplyJob_resolutions ..
  | created => exact enqueueJob_resolutions ..
  | replied => exact authorizedReplyJob_resolutions ..
  | approved => exact deliver_resolutions ..
  | retriggered _ _ hclaim =>
      obtain ⟨rfl, -⟩ | ⟨rfl, -⟩ := hclaim
      · exact enqueueJob_resolutions ..
      · exact enqueueJob_resolutions ..
  | markedDelivered _ hresolve =>
      have hresolved := resolve_resolutions hresolve
      exact hresolved
  | authorizedNew _ hresolve =>
      have hresolved := resolve_resolutions hresolve
      exact (reserve_resolutions ..).trans hresolved
  | @finishedReview r e m target acknowledge => cases acknowledge <;> rfl
  | resolved => exact absurd rfl (hop _ _ _)
  | _ => rfl

end

def concerns (r : Uuid) : Op → Bool
  | .escalateToOperator r' => r' = r
  | .commitResolution r' _ _ => r' = r
  | _ => false

def isEscalation : Op → Bool
  | .escalateToOperator _ => true
  | _ => false

def awaitsResolution (r : Uuid) (log : List Commit) : Bool :=
  (log.find? fun c => concerns r c.op).any fun c => isEscalation c.op

/-- The generation is the one authoritative generation of its run, superseded
by none, and its job will resume the run. -/
structure Authority (db : Db) (r g : Uuid) : Prop where
  stored : ∃ generation, db.resolutions.get? g = some generation ∧ generation.runId = r ∧
    generation.authoritative = true ∧ generation.supersededBy = none
  only : ∀ g' generation, db.resolutions.get? g' = some generation → generation.runId = r →
    generation.authoritative = true → g' = g
  job : ∃ j row, db.jobs.get? j = some row ∧ row.kind = .operatorResume ∧ row.runId = some r ∧
    row.operatorResolutionId = some g
  prepared : ∀ db', prepareAuthoritativeOperatorResume r g db ≠ .ok (false, db')

def FirstResolves (db : Db) (log : List Commit) : Prop :=
  ∀ newer older i r overrides remember g before after,
    log = newer ++ ⟨i, .commitResolution r overrides remember, g, before, after⟩ :: older →
      awaitsResolution r older = true → Authority db r g

def escalatesUnresolved (env : Env) (db : Db) : Op → Bool
  | .escalateToOperator r =>
      (match env.fault with | .before _ => true | _ => false) || (authoritativeResolution db r).isNone
  | _ => true

def firstEscalations : World.Rules Op Db Env Commit Thread :=
  ⟨fun _ => True, fun _ env op db _ => escalatesUnresolved env db op = true⟩

/-- The database with its unique index, and with the identifiers of its
generations drawn. -/
structure Indexed (db : Db) : Prop where
  fresh : Fresh db
  keys : UniqueKeys db
  drawn : db.resolutions.Below db.nextId

structure Inv (db : Db) (log : List Commit) : Prop extends Indexed db where
  awaits : ∀ r, awaitsResolution r log = true → authoritativeResolution db r = none
  first : FirstResolves db log

section

variable [PyText] {env : Env} {op : Op} {a : Ans op} {db db' : Db} {r g : Uuid} {log : List Commit}
    {i : Nat}

omit [PyText] in
theorem prepare_authoritative {generation : OperatorResolution}
    (hstored : db.resolutions.get? g = some generation)
    (hauthoritative : generation.authoritative = true) :
    prepareAuthoritativeOperatorResume r g db ≠ .ok (false, db') := by
  unfold prepareAuthoritativeOperatorResume
  split
  next run generation' _ hget =>
    obtain rfl := Option.some.inj (hstored.symm.trans hget)
    simp only [hauthoritative, if_true]
    split
    · split
      · simp
      · simp
    · simp
  · simp

omit [PyText] in
theorem enqueueJob_key (kind : JobKind) (dedupKey : DedupKey)
    (runId emailId operatorResolutionId eventId : Option Uuid) (db : Db) :
    ∃ j row,
      (enqueueJob kind dedupKey runId emailId operatorResolutionId eventId db).jobs.get? j = some row ∧
        row.dedupKey = dedupKey := by
  unfold enqueueJob
  split
  next x hfound =>
    obtain ⟨hrow, hkey⟩ := Dict.select_some hfound
    exact ⟨x.1, x.2, hrow, of_decide_eq_true hkey⟩
  · exact ⟨_, _, Dict.get?_set_self .., rfl⟩

omit [PyText] in
theorem lt_enqueueJob_nextId {n : Nat} {kind : JobKind} {dedupKey : DedupKey}
    {runId emailId operatorResolutionId eventId : Option Uuid} (h : n < db.nextId) :
    n < (enqueueJob kind dedupKey runId emailId operatorResolutionId eventId db).nextId :=
  h.trans_le ((JobsGrow.refl db).enqueueJob ..).nextId

omit [PyText] in
theorem commitResolution_ok {overrides : Dict Str Uuid} {remember : Dict Str Bool}
    (h : commitResolution r overrides remember db = .ok (g, db')) :
    g = db.nextId ∧ db'.resolutions = db.resolutions.set db.nextId
      { runId := r
        authoritative := authoritativeResolution db r = none
        supersededBy := (authoritativeResolution db r).map Prod.fst
        overrides := overrides
        remember := remember } ∧
      (∃ j row, db'.jobs.get? j = some row ∧ row.dedupKey = .operatorResume r g) ∧
        db.nextId < db'.nextId := by
  unfold commitResolution commitOperatorResumeResolution at h
  split at h
  · cases h
  next hcommit =>
    split at hcommit
    · cases hcommit
    · split at hcommit
      · cases hcommit
        cases h
        exact ⟨rfl, enqueueJob_resolutions .., enqueueJob_key .., lt_enqueueJob_nextId
          (Nat.lt_succ_self _)⟩
      · cases hcommit

omit [PyText] in
theorem operatorResume_keyed {row : JobRow} (hkeyed : Keyed row)
    (hkey : row.dedupKey = .operatorResume r g) :
    row.kind = .operatorResume ∧ row.runId = some r ∧ row.operatorResolutionId = some g := by
  unfold Keyed at hkeyed
  rw [hkey] at hkeyed
  generalize row.kind = kind, row.runId = r', row.emailId = e, row.operatorResolutionId = g',
    row.eventId = v at hkeyed
  cases hkeyed
  exact ⟨rfl, rfl, rfl⟩

theorem Authority.step (hauthority : Authority db r g) (hindexed : Indexed db)
    (htxn : txn env op db = .ok (a, db')) : Authority db' r g := by
  obtain ⟨generation, hstored, hrun, hauthoritative, hsuperseded⟩ := hauthority.stored
  have hjob : ∃ j row, db'.jobs.get? j = some row ∧ row.kind = .operatorResume ∧ row.runId = some r ∧
      row.operatorResolutionId = some g := by
    obtain ⟨j, row, hrow, hkind, hrunId, hresolution⟩ := hauthority.job
    obtain ⟨row', hrow', hsame⟩ := (jobsWrite (txn_effect htxn) hindexed.fresh).stays hrow
    exact ⟨j, row', hrow', hsame.kind.trans hkind, hsame.runId.trans hrunId,
      hsame.operatorResolutionId.trans hresolution⟩
  by_cases hop : ∀ r overrides remember, op ≠ .commitResolution r overrides remember
  · have hsame := resolutions_same (txn_effect htxn) hop
    refine ⟨⟨generation, by rwa [hsame], hrun, hauthoritative, hsuperseded⟩, fun g' generation' =>
      ?_, hjob, fun db'' =>
      prepare_authoritative (by rwa [hsame]) hauthoritative⟩
    rw [hsame]
    exact hauthority.only g' generation'
  · obtain ⟨r', overrides, remember, rfl⟩ : ∃ r overrides remember,
      op = .commitResolution r overrides remember := by
      simpa [Classical.not_forall] using hop
    obtain ⟨-, hset, -⟩ := commitResolution_ok htxn
    have hold : db'.resolutions.get? g = some generation := by
      rw [hset]
      exact hindexed.drawn.get?_set_next hstored
    refine ⟨⟨generation, hold, hrun, hauthoritative, hsuperseded⟩,
      fun g' generation' hget hrun' hauthoritative' => ?_,
      hjob, fun db'' => prepare_authoritative hold hauthoritative⟩
    rw [hset, Dict.get?_set] at hget
    split at hget
    · obtain rfl := Option.some.inj hget
      obtain rfl : r' = r := hrun'
      have hnone := Dict.select_none.mp (of_decide_eq_true hauthoritative') g generation hstored
      simp [hrun, hauthoritative] at hnone
    · exact hauthority.only g' generation' hget hrun' hauthoritative'

theorem authority_of_commit {overrides : Dict Str Uuid} {remember : Dict Str Bool} (hindexed : Indexed db)
    (hnone : authoritativeResolution db r = none)
    (htxn : txn env (.commitResolution r overrides remember) db = .ok (g, db')) : Authority db' r g := by
  have hkeys := (jobsWrite (txn_effect htxn) hindexed.fresh).uniqueKeys hindexed.keys
  obtain ⟨rfl, hset, ⟨j, row, hrow, hkey⟩, -⟩ := commitResolution_ok htxn
  have hnew := (congrArg (Dict.get? · db.nextId) hset).trans (Dict.get?_set_self ..)
  have hauthoritative : decide (authoritativeResolution db r = none) = true := decide_eq_true hnone
  have hsuperseded : (authoritativeResolution db r).map Prod.fst = none := by rw [hnone, Option.map_none]
  refine ⟨⟨_, hnew, rfl, hauthoritative, hsuperseded⟩, fun g' generation hget hrun hauthoritative' => ?_,
    ⟨j, row, hrow, operatorResume_keyed (hkeys.keyed j row hrow) hkey⟩, fun db'' =>
      prepare_authoritative hnew hauthoritative⟩
  rw [hset, Dict.get?_set] at hget
  split at hget
  next heq => exact heq
  · have hother := Dict.select_none.mp hnone g' generation hget
    simp [hrun, hauthoritative'] at hother

theorem indexed_commit (hindexed : Indexed db) (htxn : txn env op db = .ok (a, db')) : Indexed db' := by
  have hfresh := fresh_step (txn_effect htxn) hindexed.fresh
  have hkeys := (jobsWrite (txn_effect htxn) hindexed.fresh).uniqueKeys hindexed.keys
  refine ⟨hfresh, hkeys, ?_⟩
  by_cases hop : ∀ r overrides remember, op ≠ .commitResolution r overrides remember
  · rw [resolutions_same (txn_effect htxn) hop]
    exact hindexed.drawn.mono (jobsGrow (txn_effect htxn)).nextId
  · obtain ⟨r, overrides, remember, rfl⟩ : ∃ r overrides remember,
      op = .commitResolution r overrides remember := by
      simpa [Classical.not_forall] using hop
    obtain ⟨-, hset, -, hnext⟩ := commitResolution_ok htxn
    rw [hset]
    exact (hindexed.drawn.mono hnext.le).set hnext _

theorem unauthorized_commit (hnone : authoritativeResolution db r = none) (hop : concerns r op = false)
    (htxn : txn env op db = .ok (a, db')) : authoritativeResolution db' r = none := by
  refine Dict.select_none.mpr fun g generation hget => ?_
  have hother := Dict.select_none.mp hnone g generation
  by_cases hcommits : ∀ r overrides remember, op ≠ .commitResolution r overrides remember
  · rw [resolutions_same (txn_effect htxn) hcommits] at hget
    exact hother hget
  · obtain ⟨r', overrides, remember, rfl⟩ : ∃ r overrides remember,
      op = .commitResolution r overrides remember := by
      simpa [Classical.not_forall] using hcommits
    obtain ⟨-, hset, -, -⟩ := commitResolution_ok htxn
    rw [hset, Dict.get?_set] at hget
    split at hget
    · obtain rfl := Option.some.inj hget
      have hr : r' ≠ r := of_decide_eq_false hop
      simp [hr]
    · exact hother hget

theorem inv_commit (hinv : Inv db log) (hcommits : ∀ e, env.fault ≠ .before e)
    (hfirst : escalatesUnresolved env db op = true) (htxn : txn env op db = .ok (a, db')) :
    Inv db' (⟨i, op, a, db, db'⟩ :: log) := by
  refine ⟨indexed_commit hinv.toIndexed htxn, fun r hawaits => ?_, ?_⟩
  · by_cases hconcerns : concerns r op = true
    · simp only [awaitsResolution, List.find?_cons, hconcerns, Option.any_some] at hawaits
      cases op with
      | escalateToOperator r' =>
          obtain rfl : r' = r := of_decide_eq_true hconcerns
          have hnone : authoritativeResolution db r' = none := by
            simpa [escalatesUnresolved, hcommits] using hfirst
          have hsame := resolutions_same (txn_effect htxn) fun r o m h => by cases h
          rwa [authoritativeResolution, hsame]
      | _ => cases hawaits
    · have hother : concerns r op = false := by simpa using hconcerns
      simp only [awaitsResolution, List.find?_cons, hother] at hawaits
      exact unauthorized_commit (hinv.awaits r hawaits) hother htxn
  · intro newer older j r overrides remember g before after hlog hawaits
    cases newer with
    | nil =>
        obtain ⟨hcommit, rfl⟩ := List.cons.inj hlog
        cases hcommit
        exact authority_of_commit hinv.toIndexed (hinv.awaits r hawaits) htxn
    | cons c newer =>
        obtain ⟨-, hlog⟩ := List.cons.inj hlog
        exact (hinv.first newer older j r overrides remember g before after hlog hawaits).step
          hinv.toIndexed htxn

theorem inv_exec (hinv : Inv db log) (hfirst : escalatesUnresolved env db op = true) :
    Inv (exec env op db).2 (commits i env op db ++ log) := by
  rcases commit_cases i env op db with ⟨e, hexec, hcommits⟩ | ⟨a, db', htxn, hdb, hcommits, -⟩
  · rw [hexec, hcommits]
    exact hinv
  · rw [hdb, hcommits]
    refine inv_commit hinv (fun e hbefore => ?_) hfirst htxn
    rw [Commits.commits, hbefore] at hcommits
    cases hcommits

theorem preserved : World.Preserved recorder thread firstEscalations Indexed conduct Work.fresh Inv
    (fun _ _ _ _ => True) where
  init db h := by
    refine { h with
      awaits := fun r hawaits => ?_
      first := fun newer older i r overrides remember g before after hlog => ?_ }
    · cases hawaits
    · simp at hlog
  follows k _ := thread_follows k
  fresh _ _ _ _ := trivial
  shared _ _ _ _ _ _ hinv _ _ hfirst := inv_exec hinv hfirst
  own _ _ _ _ _ _ _ _ _ _ := trivial
  other _ _ _ _ _ _ _ _ _ _ _ _ _ _ := trivial

/-- Where no run is escalated that has an authoritative generation, the first
resolution after each escalation is authoritative for good. -/
theorem first_resolves {w : World Op Ans Exn Db Commit}
    (hreach : World.Reach recorder thread firstEscalations Indexed w) : FirstResolves w.data w.log :=
  (preserved.reach hreach).1.first

end

section Histories

attribute [local instance] asciiText

theorem indexed_emptyDb : Indexed emptyDb := by
  have hjobs : ∀ j, emptyDb.jobs.get? j = none := fun _ => rfl
  refine ⟨Fresh.of_keys (by decide), ⟨fun j row hrow => ?_, fun i j row row' hrow => ?_⟩, fun g _ => rfl⟩
  · simp [hjobs] at hrow
  · simp [hjobs] at hrow

instance : DecidablePred firstEscalations.spawns := fun _ => inferInstanceAs (Decidable True)

instance (i : Nat) (env : Env) (op : Op) (db : Db) (log : List Commit) :
    Decidable (firstEscalations.permits i env op db log) :=
  inferInstanceAs (Decidable (escalatesUnresolved env db op = true))

def resolves (i : Nat) (name : Str) : List (Event Thread Env) :=
  [.spawn (.resolve 11 (.ofList [(name, 2)]) (.ofList [(name, true)])), .run i {}, .run i {}]

/-- The cap escalates the run for the unmatched name, which the operator
resolves. -/
def resolved : List (Event Thread Env) :=
  threeAsked ++ works 8 5 32 misnamed ++ arrives 9 42 (some 30) ++ works 10 21 36 misnamed ++
    resolves 11 "bobby".toList

def misnamedAgain : Extracted :=
  ⟨9, [reported "ann lee".toList (whole 40) (whole 10), reported "bo".toList (whole 30) none], none, none⟩

/-- The resume finds another name unmatched, the cap escalates the run once
more, and the operator resolves that name. -/
def resolvedAgain : List (Event Thread Env) :=
  resolved ++ works 12 20 39 misnamedAgain ++ resolves 13 "bo".toList

def resolvesFirst (r g : Uuid) : List Commit → Bool
  | ⟨_, .commitResolution r' _ _, g', _, _⟩ :: older =>
      r' = r && Nat.beq g' g && awaitsResolution r older
  | _ => false

theorem exists_resolvesFirst {r g : Uuid} {log : List Commit} (h : resolvesFirst r g log = true) :
    ∃ older i overrides remember before after,
      log = ⟨i, .commitResolution r overrides remember, g, before, after⟩ :: older ∧
        awaitsResolution r older = true := by
  match log with
  | [] => cases h
  | ⟨i, op, g', before, after⟩ :: older =>
      cases op with
      | commitResolution r' overrides remember =>
          simp only [resolvesFirst, Bool.and_eq_true, decide_eq_true_eq] at h
          obtain ⟨⟨rfl, hg⟩, hawaits⟩ := h
          obtain rfl := Nat.eq_of_beq_eq_true hg
          exact ⟨older, i, overrides, remember, before, after, rfl, hawaits⟩
      | _ => cases h

/-- The resolution of the second escalation is superseded by that of the first
one. -/
theorem second_resolution_superseded : ¬ ∀ w : World Op Ans Exn Db Commit,
    World.Reach recorder thread World.Rules.any Indexed w → FirstResolves w.data w.log := by
  intro h
  have hreach := reach_recordedAfter indexed_emptyDb resolvedAgain
  have hfirst : resolvesFirst 11 41 (recordedAfter emptyDb resolvedAgain).log = true := by decide +kernel
  have hsuperseded : ((recordedAfter emptyDb resolvedAgain).data.resolutions.get? 41).all
      fun generation => generation.supersededBy = some 38 := by
    decide +kernel
  generalize recordedAfter emptyDb resolvedAgain = w at *
  obtain ⟨older, i, overrides, remember, before, after, hlog, hawaits⟩ := exists_resolvesFirst hfirst
  have hauthority := h w hreach [] older i 11 overrides remember 41 before after hlog hawaits
  obtain ⟨generation, hstored, -, -, hnone⟩ := hauthority.stored
  rw [hstored, Option.all_some, hnone] at hsuperseded
  cases hsuperseded

/-- The resolution of the first escalation has the authority. -/
theorem first_resolves_resolved : Authority (recordedAfter emptyDb resolved).data 11 38 := by
  have hreach : World.Reach recorder thread firstEscalations Indexed (recordedAfter emptyDb resolved) :=
    reach_recordedAfter_of_permits indexed_emptyDb (by decide +kernel)
  have hfirst : resolvesFirst 11 38 (recordedAfter emptyDb resolved).log = true := by decide +kernel
  obtain ⟨older, i, overrides, remember, before, after, hlog, hawaits⟩ := exists_resolvesFirst hfirst
  exact first_resolves hreach [] older i 11 overrides remember 38 before after hlog hawaits

end Histories

end PayrollAgent.OperatorAuthority
