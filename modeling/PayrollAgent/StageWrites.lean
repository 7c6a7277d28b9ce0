import PayrollAgent.Drives

namespace PayrollAgent.StageWrites

open Lib Repo Handlers Effects RunSteps Conduct FreshIds Drives

def finalStatuses : List RunStatus := [.approved, .rejected, .reconciled]

/-- The histories in which no write of a stage comes from a worker whose run
was claimed by another one in the meantime. -/
def lastClaimantWrites : World.Rules Op Db Env Note Thread :=
  ⟨fun _ => True, fun i _ op _ log => ByLastClaimant i op log⟩

section

variable [PyText]

theorem preserved : World.Preserved machine thread lastClaimantWrites Fresh conduct Work.fresh
    (fun db _ => Fresh db) InFlight where
  init _ h := h
  follows k _ := thread_follows k
  fresh _ _ _ _ := fun _ hr => by cases hr
  shared _ _ _ _ _ _ hfresh _ _ _ := fresh_exec hfresh
  own _ _ _ _ _ _ hfresh hJ hop _ := inFlight_own hfresh hJ hop
  other _ _ _ _ _ _ hfresh _ hop hguard _ _ hji hJ := inFlight_other hfresh hop hguard hji hJ

/-- No stage persist changes an approved, rejected or reconciled payroll, in
any history whose stage writes all come from the last claimant of their run. -/
theorem final_run_kept {w : World Op Ans Exn Db Note} {e : Event Thread Env} {i : Nat}
    {env : Env} {op : Op} {r : Uuid} {run : Run}
    (hreach : World.Reach machine thread lastClaimantWrites Fresh w)
    (hpermits : World.Permits lastClaimantWrites w e) (hop : w.operation e = some (i, env, op))
    (hstage : (stageWrite op).isSome) (hrun : w.data.runs.get? r = some run)
    (hfinal : run.status ∈ finalStatuses) :
    ∃ run', (w.step machine thread e).data.runs.get? r = some run' ∧
      run'.lineItems = run.lineItems ∧ run'.status = run.status := by
  obtain ⟨r₀, hwrite⟩ := Option.isSome_iff_exists.mp hstage
  have hholds := preserved.reach hreach
  obtain ⟨s, hallows, hJ⟩ := hholds.operation hop
  have hne : r₀ ≠ r := by
    rintro rfl
    obtain ⟨rfl, -⟩ := World.operation_some hop
    obtain ⟨run', hrun', hdriven⟩ :=
      hJ r₀ (run_of_stageWrite hallows hwrite) (hpermits i env op hop r₀ hwrite)
    rw [hrun] at hrun'
    cases hrun'
    revert hfinal hdriven
    cases run.status <;> decide
  rw [(World.step_operation hop).1]
  rcases exec_cases i env op w.data with ⟨e, hexec, -⟩ | ⟨a, db', htxn, hdb, -⟩
  · exact ⟨run, by rw [show machine.exec env op w.data = _ from hexec, hrun], rfl, rfl⟩
  · obtain ⟨run', hrun', hstep⟩ := runStep (txn_effect htxn) hholds.1.runs hrun
    have hkept := hstep.kept_of_stageWrite hwrite hne
    exact ⟨run', by rw [show (machine.exec env op w.data).2 = _ from hdb, hrun'], hkept.lineItems,
      hkept.status⟩

end

section Histories

attribute [local instance] asciiText

def ann : Roster := ⟨[hourlyWorker 7 "Ann".toList []], by decide⟩

def annWorked : Extracted := ⟨0, [reported "Ann".toList (whole 40) none], none, none⟩

def runJob (r : Uuid) : JobRow where
  kind := .runPipeline
  dedupKey := .runPipeline r 0
  runId := some r
  emailId := none
  operatorResolutionId := none
  eventId := none
  state := .pending
  attempts := 0
  maxAttempts := 5
  availableAt := 0
  leaseToken := none
  leasedUntil := none
  lastError := none
  updatedAt := 0

def receivedDb : Db :=
  { Db.empty with
    nextId := 10
    runs := .ofList [(2, .created 1 3 0), (8, .created 1 3 0)]
    inbound := .ofList [(3, ⟨⟨5, none, [], 6, []⟩, none, 0, none⟩)]
    jobs := .ofList [(4, runJob 2), (9, runJob 8)]
    rosters := .ofList [(1, ann)] }

instance : DecidablePred lastClaimantWrites.spawns := fun _ => inferInstanceAs (Decidable True)

instance (i : Nat) (env : Env) (op : Op) (db : Db) (log : List Note) :
    Decidable (lastClaimantWrites.permits i env op db log) :=
  inferInstanceAs (Decidable (ByLastClaimant i op log))

theorem fresh_receivedDb : Fresh receivedDb := Fresh.of_keys (by decide)

/-- `n` steps of a worker, which leases the job and extracts Ann's hours. -/
def work (i n : Nat) (job : Uuid) : List (Event Thread Env) :=
  List.replicate n (.run i { picked := job, extracted := annWorked })

/-- One worker stands before its stage persist while its lease runs out, a
second one processes the run, and the operator approves it. -/
def overtaken : List (Event Thread Env) :=
  [.spawn .worker] ++ work 0 7 4 ++ [.spawn (.pass 1000), .run 1 {}, .spawn .worker] ++ work 2 9 4 ++
    [.spawn (.approve 2), .run 3 {}]

/-- One run is approved while the worker of another stands before its stage
persist. -/
def besides : List (Event Thread Env) :=
  [.spawn .worker] ++ work 0 8 4 ++ [.spawn (.approve 2), .run 1 {}, .spawn .worker] ++ work 2 7 9

/-- The persist of the overtaken worker takes the approved run back to
AWAITING_APPROVAL. -/
theorem overtaken_worker_reopens_approved :
    ¬ ∀ (w : World Op Ans Exn Db Note) (e : Event Thread Env) (i : Nat) (env : Env) (op : Op)
        (r : Uuid) (run : Run),
      World.Reach machine thread World.Rules.any Fresh w → w.operation e = some (i, env, op) →
      (stageWrite op).isSome → w.data.runs.get? r = some run → run.status ∈ finalStatuses →
      ∃ run', (w.step machine thread e).data.runs.get? r = some run' ∧
        run'.lineItems = run.lineItems ∧ run'.status = run.status := by
  intro h
  have hreach : World.Reach machine thread World.Rules.any Fresh (worldAfter receivedDb overtaken) :=
    reach_worldAfter fresh_receivedDb overtaken
  have hop : ((worldAfter receivedDb overtaken).operation (.run 0 {} : Event Thread Env)).any
      fun x => (stageWrite x.2.2).isSome := by
    decide +kernel
  have hbefore : (worldAfter receivedDb overtaken).data.statusOf 2 = some .approved := by decide +kernel
  have hafter : ((worldAfter receivedDb overtaken).step machine thread (.run 0 {})).data.statusOf 2 =
      some .awaitingApproval := by
    decide +kernel
  generalize worldAfter receivedDb overtaken = w at *
  obtain ⟨run, hrun, hstatus⟩ := Option.map_eq_some_iff.mp hbefore
  cases hoperation : w.operation (.run 0 {} : Event Thread Env) with
  | none => simp [hoperation] at hop
  | some x =>
      obtain ⟨i, env, op⟩ := x
      rw [hoperation] at hop
      obtain ⟨run', hrun', -, hsame⟩ := h w _ i env op 2 run hreach hoperation hop hrun
        (by rw [hstatus]; decide)
      rw [Db.statusOf, hrun', Option.map_some, hsame, hstatus] at hafter
      cases hafter

/-- The worker of another run persists its stages beside the approved one. -/
theorem final_run_kept_besides : ∃ run run',
    (worldAfter receivedDb besides).data.runs.get? 2 = some run ∧ run.status = .approved ∧
      ((worldAfter receivedDb besides).step machine thread (.run 2 {})).data.runs.get? 2 = some run' ∧
      run'.status = .approved := by
  have hreach : World.Reach machine thread lastClaimantWrites Fresh (worldAfter receivedDb besides) :=
    reach_worldAfter_of_permits fresh_receivedDb (by decide +kernel)
  have hpermits : World.Permits lastClaimantWrites (worldAfter receivedDb besides) (.run 2 {}) := by
    decide +kernel
  have hop : ((worldAfter receivedDb besides).operation (.run 2 {} : Event Thread Env)).any
      fun x => (stageWrite x.2.2).isSome := by
    decide +kernel
  have hbefore : (worldAfter receivedDb besides).data.statusOf 2 = some .approved := by decide +kernel
  generalize worldAfter receivedDb besides = w at *
  obtain ⟨run, hrun, hstatus⟩ := Option.map_eq_some_iff.mp hbefore
  cases hoperation : w.operation (.run 2 {} : Event Thread Env) with
  | none => simp [hoperation] at hop
  | some x =>
      obtain ⟨i, env, op⟩ := x
      rw [hoperation] at hop
      obtain ⟨run', hrun', -, hsame⟩ := final_run_kept hreach hpermits hoperation hop hrun
        (by rw [hstatus]; decide)
      exact ⟨run, run', hrun, hstatus, hrun', hsame.trans hstatus⟩

end Histories

end PayrollAgent.StageWrites
