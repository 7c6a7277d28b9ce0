import PayrollAgent.Drain
import PayrollAgent.ReplyLeases

namespace PayrollAgent.HeldTokens

open Lib Repo Handlers Effects FreshIds JobSteps NewJobs JobKeys Commits Drain Conduct

inductive TokenNote
  | held (i : Nat) (job : Job)
  | discarded (i : Nat) (job : Job)
  deriving DecidableEq

def discards (i : Nat) (job : Job) (settled : SettlementOutcome) : List TokenNote :=
  (drainedJob job settled).discarded.toList.map fun _ => .discarded i job

/-- A worker holds the token of the job it is handed, and discards it where the
settlement answers that the lease is settled. -/
def tokenNotes (i : Nat) : (op : Op) → Except Exn (Ans op) → List TokenNote
  | .claimJob, .ok (some job) => [.held i job]
  | .settleOutboundDeliveryJob job _, .ok settled => discards i job settled
  | .settlePipelineJob job _, .ok settled => discards i job settled
  | _, _ => []

def holding (mine : Nat → Bool) (log : List TokenNote) : TokenNote → Option Uuid
  | .held i job => if mine i ∧ .discarded i job ∉ log then some job.leaseToken else none
  | .discarded _ _ => none

def heldTokens (mine : Nat → Bool) (log : List TokenNote) : List Uuid := log.filterMap (holding mine log)

/-- `ck_jobs_ingest_context` and its siblings: every job but an ingest has a run. -/
def RunContext (row : JobRow) : Prop := row.runId = none ↔ row.kind = .ingest

structure Start (db : Db) : Prop where
  fresh : Fresh db
  context : ∀ j row, db.jobs.get? j = some row → RunContext row

/-- A discarded token is no job's lease any more, and a shutdown ends every
lease that its process was handed. -/
structure Tracked (w : World Op Ans Exn Db TokenNote) : Prop where
  forgets : ∀ i job, .discarded i job ∈ w.log → lockedJob w.data job = none
  releases : ∀ mine i job, mine i = true → .held i job ∈ w.log →
    lockedJob (releaseLeases (heldTokens mine w.log) w.data) job = none

/-- The settlement finds the lease gone, or it can end it: no run stands in its
way, or it leaves the run alone, or the run is EXTRACTING. -/
def endsLease (job : Job) (result : PipelineResult) (db : Db) : Bool :=
  (lockedJob db job).isNone || job.kind = .ingest || result.outcome = .ok ||
    job.runId.any fun r => db.statusOf r = some .extracting

def permitted (env : Env) (db : Db) : Op → Bool
  | .settlePipelineJob job result =>
      match env.fault with
      | .none => endsLease job result db
      | _ => true
  | _ => true

def settlements : World.Rules Op Db Env TokenNote Thread :=
  ⟨fun _ => True, fun _ env op db _ => permitted env db op = true⟩

variable {db db' : Db} {job : Job} {result : PipelineResult} {row : JobRow} {i j : Nat}
    {log : List TokenNote}

theorem lockedJob_of_modify {f : JobRow → JobRow} (h : db'.jobs = db.jobs.modify job.id f)
    (hf : ∀ row, (f row).state ≠ .leased) : lockedJob db' job = none := by
  rw [lockedJob, h, Dict.get?_modify, if_pos rfl]
  cases db.jobs.get? job.id with
  | none => rfl
  | some row => simp [hf row]

theorem lockedJob_closeJob {state : JobState} (hstate : state ≠ .leased) (db : Db) :
    lockedJob (closeJob job.id state db) job = none :=
  lockedJob_of_modify (closeJob_jobs ..) fun _ => hstate

theorem lockedJob_finish {state : JobState} (hstate : state ≠ .leased)
    (lastError : Option LastError) (db : Db) :
    lockedJob (finish job.id state lastError db) job = none :=
  lockedJob_of_modify (finish_jobs ..) fun _ => hstate

theorem lockedJob_retryJob (backoff : Nat) (result : PipelineResult) (db : Db) :
    lockedJob (retryJob job.id backoff result db) job = none :=
  lockedJob_of_modify (modifyJob_jobs ..) fun _ => by simp [unlease]

section

variable [PyText]

theorem lockedJob_settleOutbound (job : Job) (result : PipelineResult) (db : Db) :
    lockedJob (settleOutboundDeliveryJob job result db).2 job = none := by
  have hretired : lockedJob (retireInvalidOutboundLease job.id .done db) job = none :=
    lockedJob_finish (by decide) _ db
  unfold settleOutboundDeliveryJob
  split
  next hnone => exact hnone
  · split
    · exact hretired
    · split
      · exact hretired
      · unfold settleInContext
        split
        · split
          · exact lockedJob_closeJob (by decide) _
          · exact hretired
        · split
          · exact lockedJob_finish (by decide) _ _
          · split
            · exact hretired
            · unfold settleOwnedHandoff
              split
              · exact lockedJob_closeJob (by decide) _
              · split
                · exact lockedJob_of_modify (modifyJob_jobs ..) fun _ => by simp [unlease]
                · exact lockedJob_finish (by decide) _ _

end

theorem lockedJob_settleIngestJob (row : JobRow) (backoff : Nat) :
    lockedJob (settleIngestJob job result row backoff db).2 job = none := by
  unfold settleIngestJob
  split
  · split
    · exact lockedJob_retryJob ..
    · exact lockedJob_finish (by decide) _ _
  · exact lockedJob_finish (by decide) _ _
  · exact lockedJob_closeJob (by decide) _

theorem lockedJob_settleRunError {r : Uuid} {reason : ErrorReason} {attempts : Option (Nat × Nat)}
    {state : JobState}
    {outcome : SettlementOutcome} (hstate : state ≠ .leased)
    (hstatus : db.statusOf r = some .extracting) :
    lockedJob (settleRunError job result r reason attempts state outcome db).2 job = none := by
  simp only [settleRunError, setRunError, hstatus, if_true]
  exact lockedJob_finish hstate _ _

/-- A run that is EXTRACTING takes every settlement, and an OK result needs none. -/
theorem lockedJob_settleRunJob {r : Uuid} (backoff : Nat)
    (h : result.outcome = .ok ∨ db.statusOf r = some .extracting) :
    lockedJob (settleRunJob job result row r backoff db).2 job = none := by
  unfold settleRunJob
  split
  · exact lockedJob_closeJob (by decide) _
  next hresult =>
    have hstatus : db.statusOf r = some .extracting := h.resolve_left (by rw [hresult]; decide)
    split
    · simp only [rewindRun, claimStatus, hstatus, if_true]
      exact lockedJob_retryJob ..
    · exact lockedJob_settleRunError (by decide) hstatus
  next hresult =>
    have hstatus : db.statusOf r = some .extracting := h.resolve_left (by rw [hresult]; decide)
    exact lockedJob_settleRunError (by decide) hstatus

theorem settleRunJob_fenced {r : Uuid} (backoff : Nat) (hresult : result.outcome ≠ .ok)
    (hstatus : db.statusOf r ≠ some .extracting) :
    settleRunJob job result row r backoff db = (.fenced, db) := by
  unfold settleRunJob
  split
  next hok => exact absurd hok hresult
  · split
    · simp [rewindRun, claimStatus, hstatus]
    · simp [settleRunError, setRunError, hstatus]
  · simp [settleRunError, setRunError, hstatus]

theorem endsLease_iff : endsLease job result db = true ↔ lockedJob db job = none ∨ job.kind = .ingest ∨
    result.outcome = .ok ∨ ∃ r, job.runId = some r ∧ db.statusOf r = some .extracting := by
  simp [endsLease, Option.any_eq_true, or_assoc]

theorem lockedJob_settlePipeline (hcopied : ReplyLeases.Copied job db)
    (hcontext : ∀ j row, db.jobs.get? j = some row → RunContext row) (backoff : Nat)
    (h : endsLease job result db = true) : lockedJob (settlePipelineJob job result backoff db).2
    job = none := by
  unfold settlePipelineJob
  split
  next hnone => exact hnone
  next row hlocked =>
    obtain ⟨hrow, -, -⟩ := lockedJob_some hlocked
    obtain ⟨row', hrow', hkind, hrun, -⟩ := hcopied.row
    obtain rfl : row = row' := Option.some.inj (hrow.symm.trans hrow')
    have hingest : row.runId = none ↔ row.kind = .ingest := hcontext _ row hrow
    rw [if_neg (not_not.mpr hkind)]
    split
    next hk =>
      have hnone : row.runId = none := hingest.mpr hk
      rw [if_pos ⟨hnone, hrun ▸ hnone⟩]
      exact lockedJob_settleIngestJob ..
    next hk =>
      obtain ⟨r, hr⟩ : ∃ r, row.runId = some r := Option.ne_none_iff_exists'.mp fun hnone => hk
        (hingest.mp hnone)
      have hjob : job.runId = some r := hrun ▸ hr
      rw [hr]
      simp only [hjob, if_true]
      apply lockedJob_settleRunJob
      obtain hgone | hk' | hok | ⟨r', hr', hstatus⟩ := endsLease_iff.mp h
      · rw [hgone] at hlocked
        cases hlocked
      · exact absurd (hkind.trans hk') hk
      · exact .inl hok
      · obtain rfl : r = r' := Option.some.inj (hjob.symm.trans hr')
        exact .inr hstatus

theorem settlePipeline_fenced (backoff : Nat) (h : endsLease job result db = false) :
    settlePipelineJob job result backoff db = (.fenced, db) ∧ lockedJob db job ≠ none := by
  have hends : ¬ endsLease job result db = true := by simp [h]
  rw [endsLease_iff] at hends
  simp only [not_or, not_exists, not_and] at hends
  obtain ⟨hlocked, hkind, hresult, hstatus⟩ := hends
  refine ⟨?_, hlocked⟩
  unfold settlePipelineJob
  split
  · rfl
  · split
    · rfl
    next hsame =>
      split
      next hk => exact absurd ((not_not.mp hsame).symm.trans hk) hkind
      · split
        · rfl
        next r hr =>
          split
          next hjob => exact settleRunJob_fenced backoff hresult (hstatus r hjob)
          · rfl

structure Inv (db : Db) (log : List TokenNote) : Prop where
  start : Start db
  forgotten : ∀ i job, .discarded i job ∈ log → job.leaseToken < db.nextId ∧ lockedJob db job = none

def Carries (s : Work) (db : Db) : Prop := ∀ job, s.lease = some job → ReplyLeases.Copied job db

section

variable [PyText] {env : Env} {op : Op} {s : Work} {k : Nat}

theorem context_step {a : Ans op} (heffect : Effect env db op a db') (h : Start db) : Start db' := by
  refine ⟨fresh_step heffect h.fresh, fun j row' hrow' => ?_⟩
  cases jobsWrite heffect h.fresh with
  | @mapped f hjobs hf =>
      rw [hjobs] at hrow'
      obtain ⟨row, hrow, rfl⟩ := Option.map_eq_some_iff.mp hrow'
      rw [RunContext, (hf j row).runId, (hf j row).kind]
      exact h.context j row hrow
  | @enqueued i new hjobs _ hkeyed =>
      rw [hjobs, Dict.get?_set] at hrow'
      split at hrow'
      · obtain rfl := Option.some.inj hrow'
        unfold Keyed at hkeyed
        unfold RunContext
        generalize new.kind = kind, new.dedupKey = key, new.runId = r, new.emailId = e,
          new.operatorResolutionId = g, new.eventId = v at hkeyed
        cases hkeyed <;> simp
      · exact h.context j row' hrow'

theorem forgotten_step {a : Ans op} (heffect : Effect env db op a db') (hfresh : Fresh db)
    (h : job.leaseToken < db.nextId ∧ lockedJob db job = none) :
    job.leaseToken < db'.nextId ∧ lockedJob db' job = none := by
  refine ⟨h.1.trans_le (jobsGrow heffect).nextId, ?_⟩
  cases hlocked : lockedJob db' job with
  | none => rfl
  | some row =>
      have hback := lockedJob_back heffect hfresh h.1 hlocked
      rw [h.2] at hback
      cases hback

theorem inv_step {a : Ans op} (heffect : Effect env db op a db') (h : Inv db log) : Inv db' log :=
  ⟨context_step heffect h.start, fun i job hjob => forgotten_step heffect h.start.fresh
    (h.forgotten i job hjob)⟩

theorem exec_ok {a : Ans op} (h : (exec env op db).1 = .ok a) :
    env.fault = .none ∧ txn env op db = .ok (a, (exec env op db).2) := by
  revert h
  unfold exec
  cases env.fault with
  | before e =>
      intro h
      cases h
  | none =>
      cases txn env op db with
      | error e =>
          intro h
          cases h
      | ok x =>
          intro h
          obtain rfl := Except.ok.inj h
          exact ⟨rfl, rfl⟩
  | after e =>
      cases txn env op db with
      | error e =>
          intro h
          cases h
      | ok x =>
          intro h
          cases h

omit [PyText] in
theorem op_of_discarded {x : Except Exn (Ans op)} (h : .discarded k job ∈ tokenNotes i op x) :
    (∃ a, x = .ok a) ∧ ((∃ result, op = .settleOutboundDeliveryJob job result) ∨
      ∃ result, op = .settlePipelineJob job result) := by
  cases op with
  | settleOutboundDeliveryJob job' result =>
      cases x with
      | error e => cases h
      | ok settled =>
          obtain ⟨token, -, heq⟩ := List.mem_map.mp h
          cases heq
          exact ⟨⟨_, rfl⟩, .inl ⟨result, rfl⟩⟩
  | settlePipelineJob job' result =>
      cases x with
      | error e => cases h
      | ok settled =>
          obtain ⟨token, -, heq⟩ := List.mem_map.mp h
          cases heq
          exact ⟨⟨_, rfl⟩, .inr ⟨result, rfl⟩⟩
  | claimJob =>
      cases x with
      | error e => cases h
      | ok claimed =>
          cases claimed with
          | none => cases h
          | some job' =>
              obtain heq := List.mem_singleton.mp h
              cases heq
  | _ => cases h

theorem lockedJob_of_discarded (hstart : Start db) (hcarries : Carries s db) (hop : s.allows op)
    (hpermitted : permitted env db op = true)
    (h : .discarded k job ∈ tokenNotes i op (exec env op db).1) :
    job.leaseToken < db.nextId ∧ lockedJob (exec env op db).2 job = none := by
  obtain ⟨⟨a, ha⟩, ⟨result, rfl⟩ | ⟨result, rfl⟩⟩ := op_of_discarded h
  · obtain ⟨-, htxn⟩ := exec_ok ha
    have hdb : (exec env (.settleOutboundDeliveryJob job result) db).2 =
      (settleOutboundDeliveryJob job result db).2 :=
      (Prod.mk.inj (Except.ok.inj htxn)).2.symm
    rw [hdb]
    exact ⟨(hcarries job hop.1.1).drawn, lockedJob_settleOutbound job result db⟩
  · obtain ⟨hfault, htxn⟩ := exec_ok ha
    have hdb : (exec env (.settlePipelineJob job result) db).2 =
      (settlePipelineJob job result env.backoff db).2 :=
      (Prod.mk.inj (Except.ok.inj htxn)).2.symm
    have hends : endsLease job result db = true := by
      rw [permitted, hfault] at hpermitted
      exact hpermitted
    have hcopied := hcarries job hop.1.1
    rw [hdb]
    exact ⟨hcopied.drawn, lockedJob_settlePipeline hcopied hstart.context env.backoff hends⟩

theorem inv_exec (hinv : Inv db log) (hcarries : Carries s db) (hop : s.allows op)
    (hpermitted : permitted env db op = true) :
    Inv (exec env op db).2 (tokenNotes i op (exec env op db).1 ++ log) := by
  have hold : Inv (exec env op db).2 log := by
    refine exec_preserves (P := fun d => Inv d log) hinv fun a db' htxn => ?_
    exact inv_step (txn_effect htxn) hinv
  refine ⟨hold.start, fun k job hjob => ?_⟩
  obtain hnew | hold' := List.mem_append.mp hjob
  · obtain ⟨hdrawn, hlocked⟩ := lockedJob_of_discarded hinv.start hcarries hop hpermitted hnew
    have hgrows : db.nextId ≤ (exec env op db).2.nextId := by
      refine exec_preserves (P := fun d => db.nextId ≤ d.nextId) le_rfl fun a db' htxn => ?_
      exact (jobsGrow (txn_effect htxn)).nextId
    exact ⟨hdrawn.trans_le hgrows, hlocked⟩
  · exact hold.forgotten k job hold'

theorem carries_other (hfresh : Fresh db) (h : Carries s db) : Carries s (exec env op db).2 := by
  apply exec_preserves h
  intro a db' htxn job hlease
  exact (h job hlease).step (txn_effect htxn) hfresh

theorem carries_own (hfresh : Fresh db) (h : Carries s db) :
    Carries (s.next op (exec env op db).1) (exec env op db).2 := by
  rcases exec_cases 0 env op db with ⟨e, hexec, -⟩ | ⟨a, db', htxn, hdb, -, ha | ⟨e, he⟩⟩
  · rw [hexec]
    exact h
  · rw [ha, hdb]
    have heffect := txn_effect htxn
    intro job hlease
    rcases Bookkeeping.mem_told_lease 0 db db' hlease with hlease | hleased
    · exact (h job hlease).step heffect hfresh
    · cases noted hleased
      exact ReplyLeases.copied_claim heffect
  · rw [he, hdb]
    intro job hlease
    exact (h job hlease).step (txn_effect htxn) hfresh

def keeper : Machine Op Ans Exn Db Env TokenNote :=
  ⟨exec, fun i env op db => tokenNotes i op (exec env op db).1⟩

theorem preserved : World.Preserved keeper thread settlements Start conduct Work.fresh Inv
    fun _ s db _ => Carries s db where
  init db h := ⟨h, fun i job hjob => by cases hjob⟩
  follows k _ := thread_follows k
  fresh i db log _ := fun job hlease => by cases hlease
  shared i env op s db log hinv hcarries hop hpermitted := inv_exec hinv hcarries hop hpermitted
  own i env op s db log hinv hcarries _ _ := carries_own hinv.start.fresh hcarries
  other i env op s db log hinv _ _ _ j t _ hcarries := carries_other hinv.start.fresh hcarries

omit [PyText] in
theorem lockedJob_releaseLeases_of_none {tokens : List Uuid} (h : lockedJob db job = none) :
    lockedJob (releaseLeases tokens db) job = none := by
  rw [lockedJob, releaseLeases, Dict.get?_updateWhere]
  cases hrow : db.jobs.get? job.id with
  | none => rfl
  | some row =>
      have hfree : ¬(row.state = .leased ∧ row.leaseToken = some job.leaseToken) := by
        simpa [lockedJob, hrow] using h
      by_cases hreleased : row.state = .leased ∧ row.leaseToken.any (· ∈ tokens)
      · simp [hreleased, unlease]
      · simpa [hreleased] using hfree

omit [PyText] in
theorem lockedJob_releaseLeases_of_mem {tokens : List Uuid} (h : job.leaseToken ∈ tokens) :
    lockedJob (releaseLeases tokens db) job = none := by
  rw [lockedJob, releaseLeases, Dict.get?_updateWhere]
  cases hrow : db.jobs.get? job.id with
  | none => rfl
  | some row =>
      by_cases hreleased : row.state = .leased ∧ row.leaseToken.any (· ∈ tokens)
      · simp [hreleased, unlease]
      · have hother : row.state = .leased → row.leaseToken ≠ some job.leaseToken := by
          rintro hleased htoken
          exact hreleased ⟨hleased, by simp [htoken, h]⟩
        simpa [hreleased] using hother

omit [PyText] in
theorem tracked_of_inv {w : World Op Ans Exn Db TokenNote} (h : Inv w.data w.log) : Tracked w := by
  refine ⟨fun i job hjob => (h.forgotten i job hjob).2, fun mine i job hmine hheld => ?_⟩
  by_cases hdiscarded : .discarded i job ∈ w.log
  · exact lockedJob_releaseLeases_of_none (h.forgotten i job hdiscarded).2
  · apply lockedJob_releaseLeases_of_mem
    exact List.mem_filterMap.mpr ⟨_, hheld, by simp [holding, hmine, hdiscarded]⟩

/-- A settlement that is not permitted lets go of a token its row still carries. -/
theorem not_tracked_of_not_permits {w : World Op Ans Exn Db TokenNote} {e : Event Thread Env}
    (hw : World.Holds conduct Inv (fun _ s db _ => Carries s db) w) (h : ¬World.Permits settlements w e) :
    ¬Tracked (w.step keeper thread e) := by
  intro htracked
  cases e with
  | spawn k => exact h trivial
  | run i env =>
      apply h
      intro k env' op hoperation
      obtain ⟨s, hop, -⟩ := hw.operation hoperation
      obtain ⟨hdata, hlog⟩ := @World.step_operation _ _ _ _ _ _ _ keeper thread _ _ _ _ _ hoperation
      cases op with
      | settlePipelineJob job result =>
          change permitted env' w.data (.settlePipelineJob job result) = true
          cases hfault : env'.fault with
          | before e => simp only [permitted, hfault]
          | after e => simp only [permitted, hfault]
          | none =>
              by_contra hnot
              have hends : endsLease job result w.data = false := by simpa [permitted, hfault] using hnot
              obtain ⟨hfenced, hlocked⟩ := settlePipeline_fenced env'.backoff hends
              have hexec : exec env' (.settlePipelineJob job result) w.data = (.ok .fenced, w.data) := by
                simp only [exec, hfault, txn, hfenced]
              have hnote : .discarded k job ∈ (w.step keeper thread (.run i env)).log := by
                rw [hlog]
                apply List.mem_append_left
                change _ ∈ tokenNotes k _ (exec env' _ w.data).1
                rw [hexec]
                simp [tokenNotes, discards, drainedJob, leaseIsSettled, hop.1.2]
              have hnone := htracked.forgets k job hnote
              rw [hdata] at hnone
              change lockedJob (exec env' _ w.data).2 job = none at hnone
              rw [hexec] at hnone
              exact hlocked hnone
      | _ => rfl

/-- The history of the tokens from `db`. -/
def keptAfter (db : Db) (es : List (Event Thread Env)) : World Op Ans Exn Db TokenNote :=
  World.steps keeper thread ⟨db, [], []⟩ es

theorem tracked_steps_iff {w : World Op Ans Exn Db TokenNote}
    (hw : World.Holds conduct Inv (fun _ s db _ => Carries s db) w)
    (es : List (Event Thread Env)) : (∀ n, Tracked (World.steps keeper thread w (es.take n))) ↔
      World.PermitsAll keeper thread settlements w es := by
  rw [World.permitsAll_iff_along]
  apply Run.forall_take_iff (I := World.Holds conduct Inv fun _ s db _ => Carries s db) _ _ _ hw
  · intro w hw
    exact tracked_of_inv hw.1
  · intro w e hw hpermits
    exact preserved.step hw hpermits
  · intro w e hw htracked
    by_contra hnot
    exact not_tracked_of_not_permits hw hnot htracked

/-- In every state of a run every discarded token is gone from its row and a
shutdown can release what is still leased, exactly where every settlement of the
run that answers its worker can end the lease it finds. -/
theorem tokens_tracked_iff (hstart : Start db) (es : List (Event Thread Env)) :
    (∀ n, Tracked (keptAfter db (es.take n))) ↔ World.PermitsAll keeper thread settlements
    ⟨db, [], []⟩ es :=
  tracked_steps_iff (preserved.reach (.start hstart)) es

end

section Histories

attribute [local instance] asciiText

instance decidableSpawns : DecidablePred settlements.spawns := fun _ => inferInstanceAs (Decidable True)

instance decidablePermits (i : Nat) (env : Env) (op : Op) (db : Db) (log : List TokenNote) :
    Decidable (settlements.permits i env op db log) :=
  inferInstanceAs (Decidable (permitted env db op = true))

def pipelineJob (r : Uuid) : JobRow where
  kind := .runPipeline
  dedupKey := .runPipeline r 0
  runId := some r
  emailId := none
  operatorResolutionId := none
  eventId := none
  state := .pending
  attempts := 0
  maxAttempts := 5
  availableAt := 0
  leaseToken := none
  leasedUntil := none
  lastError := none
  updatedAt := 0

def receivedDb : Db :=
  { Db.empty with
    nextId := 10
    runs := .ofList [(8, Run.created 1 3 0)]
    jobs := .ofList [(6, pipelineJob 8)] }

theorem start_receivedDb : Start receivedDb := by
  refine ⟨Fresh.of_keys (by decide), fun j row hrow => ?_⟩
  obtain ⟨-, rfl⟩ : j = 6 ∧ row = pipelineJob 8 := by simpa using Dict.get?_ofList_mem hrow
  simp [RunContext, pipelineJob]

/-- The database fails under the claim of the run, and is back for the settlement. -/
def outageAtClaim : List (Event Thread Env) :=
  [.spawn .worker, .run 0 { picked := 6 }, .run 0 { fault := .before .runtime }, .run 0 {}]

def outageAfterClaim : List (Event Thread Env) :=
  [.spawn .worker, .run 0 { picked := 6 }, .run 0 {}, .run 0 { fault := .before .runtime }, .run 0 {}]

/-- The worker forgets a lease that its row keeps, and a shutdown leaves it. -/
theorem live_lease_forgotten : ¬ ∀ w : World Op Ans Exn Db TokenNote,
    World.Reach keeper thread World.Rules.any Start w → Tracked w := by
  intro h
  have htracked : Tracked (keptAfter receivedDb outageAtClaim) :=
    h _ ((World.Reach.start start_receivedDb).steps_any outageAtClaim)
  have hdiscarded :
      .discarded 0 (copyOf (pipelineJob 8) 6 10) ∈ (keptAfter receivedDb outageAtClaim).log := by
    decide +kernel
  have hleased :
      (lockedJob (keptAfter receivedDb outageAtClaim).data (copyOf (pipelineJob 8) 6 10)).isSome := by
    decide +kernel
  rw [htracked.forgets 0 _ hdiscarded] at hleased
  cases hleased

theorem tokens_tracked_requeued : Tracked (keptAfter receivedDb outageAfterClaim) := by
  have htracked := (tokens_tracked_iff start_receivedDb outageAfterClaim).mpr (by decide +kernel)
    outageAfterClaim.length
  rwa [List.take_length] at htracked

end Histories

end PayrollAgent.HeldTokens
