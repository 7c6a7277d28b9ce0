import PayrollAgent.OperatorAuthority

namespace PayrollAgent.EscalationExits

open Lib Repo RunRoutes Handlers Effects Text Conduct JobKeys Commits BoundedQuestions OperatorAuthority

/-- What the operator needs for a resolution: names that the stored decision
leaves unresolved, and an employee. -/
structure Offers (db : Db) (run : Run) : Prop where
  unmarked : isDeliveryReviewMarker run = false
  names : ∃ decision, run.decision = some decision ∧ decision.unresolvedNames ≠ [] ∧
    decision.unresolvedNames.Nodup ∧ ∀ name ∈ decision.unresolvedNames, split name ≠ []
  employee : ∃ roster, db.rosters.get? run.businessId = some roster ∧ roster.ids ≠ []

section

variable [PyText] {db db' : Db} {r g : Uuid} {run : Run} {overrides : Dict Str Uuid}
    {remember : Dict Str Bool}

def submitted (db : Db) (r : Uuid) (overrides : Dict Str Uuid) (remember : Dict Str Bool) : Db :=
  (Prog.run machine (thread (.resolve r overrides remember)) [{}, {}] db).2

def Accepts (db : Db) (r : Uuid) (overrides : Dict Str Uuid) (remember : Dict Str Bool) : Prop :=
  ∃ g generation j row, db.resolutions.get? g = none ∧
    (submitted db r overrides remember).resolutions.get? g = some generation ∧ generation.runId = r ∧
    generation.overrides = overrides ∧ generation.remember = remember ∧
    (submitted db r overrides remember).jobs.get? j = some row ∧ row.kind = .operatorResume ∧
    row.runId = some r ∧ row.operatorResolutionId = some g

theorem run_last (env : Env) (op : Op) (db : Db) :
    (Prog.run machine (do let _ ← Prog.perform op; pure () : Prog Op Ans Exn Unit) [env] db).2 =
    (exec env op db).2 := by
  simp only [Prog.perform, bind, Prog.bind, Prog.run]
  cases hexec : (machine.exec env op db).1 with
  | ok a => rfl
  | error e => rfl

theorem submitted_of_run (hrun : db.runs.get? r = some run) : submitted db r overrides remember =
    if run.status = .needsOperator ∧ isDeliveryReviewMarker run = false then
      (exec {} (.commitResolution r overrides remember) db).2
    else db := by
  have hquery : (machine.exec {} .query db).1 = .ok db := rfl
  have hsame : (machine.exec {} .query db).2 = db := rfl
  change (Prog.run machine (resolveRun r overrides remember) [{}, {}] db).2 = _
  unfold resolveRun
  simp only [Orchestrator.query, Orchestrator.perform, Prog.perform, bind, Prog.bind, Prog.run,
    hquery, hsame, hrun]
  split
  · exact run_last ..
  · rfl

omit [PyText] in
theorem offers_of_commit (hrun : db.runs.get? r = some run)
    (hunmarked : isDeliveryReviewMarker run = false)
    (h : commitResolution r overrides remember db = .ok (g, db')) : Offers db run := by
  unfold commitResolution commitOperatorResumeResolution at h
  rw [hrun] at h
  dsimp only at h
  split at h
  · cases h
  next hcommit =>
    split at hcommit
    next hvalid =>
      obtain ⟨hnormal, -, hgeneration⟩ := hvalid
      unfold validGeneration at hgeneration
      split at hgeneration
      next decision roster hdecision hroster =>
        rw [decide_eq_true_eq] at hgeneration
        obtain ⟨hsome, hnodup, -, hcomplete, hids⟩ := hgeneration
        unfold normalizedMapping at hnormal
        rw [decide_eq_true_eq] at hnormal
        obtain ⟨hentries, hnonblank, -, -⟩ := hnormal
        refine ⟨hunmarked, ⟨decision, hdecision, hsome, hnodup, fun name hname => hnonblank name
          (hcomplete name hname)⟩, roster, hroster, ?_⟩
        obtain ⟨entry, hentry⟩ := List.exists_mem_of_ne_nil _ hentries
        exact List.ne_nil_of_mem (hids entry.2 (List.mem_map_of_mem hentry))
      · cases hgeneration
    · cases hcommit

def mapAll (names : List Str) (id : Uuid) : Dict Str Uuid :=
  Dict.ofList (names.map fun name => (name, id))

def rememberAll (names : List Str) : Dict Str Bool := Dict.ofList (names.map fun name => (name, true))

omit [PyText] in
theorem mem_keys_ofList {β : Type} {names : List Str} {f : Str → β} {name : Str} :
    name ∈ (Dict.ofList (names.map fun name => (name, f name))).keys ↔ name ∈ names := by
  rw [Dict.mem_keys_iff, Dict.get?_ofList_map]
  constructor
  · rintro ⟨v, hv⟩
    by_contra hname
    rw [if_neg hname] at hv
    cases hv
  · intro hname
    exact ⟨f name, if_pos hname⟩

omit [PyText] in
theorem mem_values_mapAll {names : List Str} {id id' : Uuid} (h : id' ∈ (mapAll names id).values) :
    id' = id := by
  obtain ⟨name, hget⟩ := (Dict.mem_values_iff _ _).mp h
  obtain ⟨name', -, heq⟩ := List.mem_map.mp (Dict.get?_ofList_mem hget)
  exact (Prod.mk.inj heq).2.symm

omit [PyText] in
/-- Where there is something to offer, the mapping of every name to the same
employee is committed. -/
theorem commit_of_offers (hrun : db.runs.get? r = some run) (hwaits : run.status = .needsOperator)
    (h : Offers db run) :
    ∃ overrides remember g db', commitResolution r overrides remember db = .ok (g, db') := by
  obtain ⟨decision, hdecision, hsome, hnodup, hnonblank⟩ := h.names
  obtain ⟨roster, hroster, hstaff⟩ := h.employee
  obtain ⟨id, hid⟩ := List.exists_mem_of_ne_nil _ hstaff
  have hkeys : ∀ name, name ∈ (mapAll decision.unresolvedNames id).keys ↔
    name ∈ decision.unresolvedNames :=
    fun name => mem_keys_ofList
  have hremember : ∀ name, name ∈ (rememberAll decision.unresolvedNames).keys ↔
    name ∈ decision.unresolvedNames :=
    fun name => mem_keys_ofList
  have hentries : (mapAll decision.unresolvedNames id).entries ≠ [] := by
    obtain ⟨name, hname⟩ := List.exists_mem_of_ne_nil _ hsome
    obtain ⟨entry, hentry, -⟩ := List.mem_map.mp ((hkeys name).mpr hname)
    exact List.ne_nil_of_mem hentry
  have hnormal : normalizedMapping (mapAll decision.unresolvedNames id)
    (rememberAll decision.unresolvedNames) = true :=
    decide_eq_true ⟨hentries, fun name hname => hnonblank name ((hkeys name).mp hname),
      fun name hname => (hkeys name).mpr ((hremember name).mp hname),
      fun name hname => (hremember name).mpr ((hkeys name).mp hname)⟩
  have hvalid : validGeneration db run (mapAll decision.unresolvedNames id) = true := by
    rw [validGeneration, hdecision, hroster]
    exact decide_eq_true ⟨hsome, hnodup, fun name => (hkeys name).mp, fun name => (hkeys name).mpr,
      fun id' hid' => mem_values_mapAll hid' ▸ hid⟩
  refine ⟨mapAll decision.unresolvedNames id, rememberAll decision.unresolvedNames, ?_⟩
  unfold commitResolution commitOperatorResumeResolution
  rw [hrun]
  dsimp only
  rw [if_pos ⟨hnormal, hwaits, hvalid⟩]
  exact ⟨_, _, rfl⟩

theorem exec_commit (h : commitResolution r overrides remember db = .ok (g, db')) :
    (exec {} (.commitResolution r overrides remember) db).2 = db' := by
  have htxn : txn {} (.commitResolution r overrides remember) db = .ok (g, db') := h
  rw [exec, htxn]

theorem exec_refused {e : Exn} (h : commitResolution r overrides remember db = .error e) :
    (exec {} (.commitResolution r overrides remember) db).2 = db := by
  have htxn : txn {} (.commitResolution r overrides remember) db = .error e := h
  rw [exec, htxn]

theorem accepts_of_offers (hindexed : Indexed db) (hrun : db.runs.get? r = some run)
    (hwaits : run.status = .needsOperator) (h : Offers db run) :
    ∃ overrides remember, Accepts db r overrides remember := by
  obtain ⟨overrides, remember, g, db', hcommit⟩ := commit_of_offers hrun hwaits h
  have hsubmitted : submitted db r overrides remember = db' := by
    rw [submitted_of_run hrun, if_pos ⟨hwaits, h.unmarked⟩, exec_commit hcommit]
  have htxn : txn {} (.commitResolution r overrides remember) db = .ok (g, db') := hcommit
  have hkeys := (jobsWrite (txn_effect htxn) hindexed.fresh).uniqueKeys hindexed.keys
  obtain ⟨rfl, hset, ⟨j, row, hrow, hkey⟩, -⟩ := commitResolution_ok hcommit
  obtain ⟨hkind, hrunId, hresolution⟩ := operatorResume_keyed (hkeys.keyed j row hrow) hkey
  have hnew := (congrArg (Dict.get? · db.nextId) hset).trans (Dict.get?_set_self ..)
  exact ⟨overrides, remember, db.nextId, _, j, row, hindexed.drawn _ le_rfl, hsubmitted ▸ hnew, rfl,
    rfl, rfl, hsubmitted ▸ hrow, hkind, hrunId, hresolution⟩

theorem offers_of_accepts (hrun : db.runs.get? r = some run) (h : Accepts db r overrides remember) :
    Offers db run := by
  obtain ⟨g, generation, j, row, hnone, hstored, -⟩ := h
  rw [submitted_of_run hrun] at hstored
  split at hstored
  next hopen =>
    cases hcommit : commitResolution r overrides remember db with
    | ok x => exact offers_of_commit hrun hopen.2 hcommit
    | error e =>
        rw [exec_refused hcommit, hnone] at hstored
        cases hstored
  · rw [hnone] at hstored
    cases hstored

theorem indexed_reach {w : World Op Ans Exn Db Commit}
    (h : World.Reach recorder thread World.Rules.any Indexed w) : Indexed w.data :=
  reach_history (G := fun db _ => Indexed db) h (fun _ hdb => hdb) fun _ _ _ _ _ _ _ hindexed _ htxn =>
    indexed_commit hindexed htxn

/-- A run that waits for an operator can be resolved just where its stored
decision and its roster offer something. -/
theorem resolvable_iff {w : World Op Ans Exn Db Commit}
    (hreach : World.Reach recorder thread World.Rules.any Indexed w)
    (hrun : w.data.runs.get? r = some run) (hwaits : run.status = .needsOperator) :
    (∃ overrides remember, Accepts w.data r overrides remember) ↔ Offers w.data run := by
  constructor
  · rintro ⟨overrides, remember, haccepts⟩
    exact offers_of_accepts hrun haccepts
  · exact accepts_of_offers (indexed_reach hreach) hrun hwaits

end

section Histories

attribute [local instance] asciiText

def hourless : Extracted :=
  ⟨9, [reported "ann lee".toList (whole 40) (whole 10), reported "bob ray".toList none none], none, none⟩

/-- The cap escalates the run, with the extraction `x` of the third reply. -/
def escalatedOn (x : Extracted) : List (Event Thread Env) :=
  threeAsked ++ works 8 5 32 misnamed ++ arrives 9 42 (some 30) ++ works 10 20 36 x

def escalates (r : Uuid) : List Commit → Bool
  | ⟨_, .escalateToOperator r', _, _, _⟩ :: _ => r' = r
  | _ => false

def unresolvedIn (db : Db) (r : Uuid) : List Str :=
  (((db.runs.get? r).bind Run.decision).map Decision.unresolvedNames).getD []

/-- The cap escalates a run for missing hours, and no submission resolves it. -/
theorem escalation_without_exit : ¬ ∀ (w : World Op Ans Exn Db Commit) r,
    World.Reach recorder thread World.Rules.any Indexed w → escalates r w.log = true →
      ∃ overrides remember, Accepts w.data r overrides remember := by
  intro h
  have hreach := reach_recordedAfter indexed_emptyDb (escalatedOn hourless)
  have hescalates : escalates 11 (recordedAfter emptyDb (escalatedOn hourless)).log = true := by
    decide +kernel
  have hrun : ((recordedAfter emptyDb (escalatedOn hourless)).data.runs.get? 11).isSome = true := by
    decide +kernel
  have hnone : unresolvedIn (recordedAfter emptyDb (escalatedOn hourless)).data 11 = [] := by
    decide +kernel
  generalize recordedAfter emptyDb (escalatedOn hourless) = w at *
  obtain ⟨overrides, remember, haccepts⟩ := h w 11 hreach hescalates
  obtain ⟨run, hrun⟩ := Option.isSome_iff_exists.mp hrun
  obtain ⟨decision, hdecision, hsome, -⟩ := (offers_of_accepts hrun haccepts).names
  rw [unresolvedIn, hrun, Option.bind_some, hdecision] at hnone
  exact hsome hnone

def canOffer (db : Db) (r : Uuid) : Bool :=
  (db.runs.get? r).any fun run =>
    run.status = .needsOperator && !isDeliveryReviewMarker run &&
      run.decision.any (fun decision => decision.unresolvedNames ≠ [] && decision.unresolvedNames.Nodup &&
        decision.unresolvedNames.all fun name => split name ≠ []) &&
      (db.rosters.get? run.businessId).any fun roster => roster.ids ≠ []

theorem offers_of_canOffer {db : Db} {r : Uuid} (h : canOffer db r = true) :
    ∃ run, db.runs.get? r = some run ∧ run.status = .needsOperator ∧ Offers db run := by
  obtain ⟨run, hrun, hoffer⟩ := (Option.any_eq_true _ _).mp h
  simp only [Bool.and_eq_true, decide_eq_true_eq, Bool.not_eq_true'] at hoffer
  obtain ⟨⟨⟨hwaits, hunmarked⟩, hnames⟩, hemployee⟩ := hoffer
  obtain ⟨decision, hdecision, hnames⟩ := (Option.any_eq_true _ _).mp hnames
  obtain ⟨roster, hroster, hids⟩ := (Option.any_eq_true _ _).mp hemployee
  simp only [Bool.and_eq_true, decide_eq_true_eq, List.all_eq_true] at hnames hids
  exact ⟨run, hrun, hwaits, hunmarked, ⟨decision, hdecision, hnames.1.1, hnames.1.2, hnames.2⟩,
    roster, hroster, hids⟩

/-- The unmatched name can be resolved. -/
theorem resolvable_misnamed :
    ∃ overrides remember, Accepts (recordedAfter emptyDb (escalatedOn misnamed)).data 11 overrides
    remember := by
  have hreach := reach_recordedAfter indexed_emptyDb (escalatedOn misnamed)
  have hoffer : canOffer (recordedAfter emptyDb (escalatedOn misnamed)).data 11 = true := by
    decide +kernel
  generalize recordedAfter emptyDb (escalatedOn misnamed) = w at *
  obtain ⟨run, hrun, hwaits, hoffers⟩ := offers_of_canOffer hoffer
  exact (resolvable_iff hreach hrun hwaits).mpr hoffers

end Histories

end PayrollAgent.EscalationExits
