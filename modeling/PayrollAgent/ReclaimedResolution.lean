import PayrollAgent.Lib.Marking
import PayrollAgent.OperatorAuthority
import PayrollAgent.ReclaimedResume

namespace PayrollAgent.ReclaimedResolution

open Lib Lib.Prog OutcomeOrder Repo AliasLearning Calculate ReconcileNames RunStages Resume
  Orchestrator Handlers
  Rounds CombinedEmail ClarificationWrites Effects OperatorAuthority ReclaimedResume

def commitsPersist (env : Env) (op : Op) : Bool :=
  isPersist op && (match env.fault with | .before _ => false | _ => true)

structure Names (job : Job) (r g : Uuid) : Prop where
  runId : job.runId = some r
  resolution : job.operatorResolutionId = some g

structure Committed (db : Db) (r g : Uuid) (generation : OperatorResolution) (run : Run)
    (roster : Roster) : Prop where
  committed : db.resolutions.get? g = some generation
  own : generation.runId = r
  stored : db.runs.get? r = some run
  status : run.status = .needsOperator
  roster : db.rosters.get? run.businessId = some roster
  valid : validGeneration db run generation.overrides = true

def resumable : List RunStatus := [.needsOperator, .received, .extracting]

structure Spared (q q' : Run) : Prop where
  business : q'.businessId = q.businessId
  decision : q'.decision = q.decision

structure Resumed (q q' : Run) : Prop extends Spared q q' where
  status : q.status ∈ resumable → q'.status ∈ resumable

theorem Spared.refl (q : Run) : Spared q q := ⟨rfl, rfl⟩

theorem Resumed.refl (q : Run) : Resumed q q := ⟨.refl q, id⟩

section

variable [PyText] {r g : Uuid} {R : Run → Run → Prop}

/-- What a transaction of the operation leaves of what an attempt reads. -/
def Leaves (r : Uuid) (R : Run → Run → Prop) (d d' : Db) : Prop :=
  d'.resolutions = d.resolutions ∧ d'.rosters = d.rosters ∧
    ∀ q, d.runs.get? r = some q → ∃ q', d'.runs.get? r = some q' ∧ R q q'

def Touches (r : Uuid) (R : Run → Run → Prop) (op : Op) : Prop :=
  isPersist op = false ∧ ∀ env d a d', txn env op d = .ok (a, d') → Leaves r R d d'

omit [PyText] in
theorem leaves_modify {d d' : Db} {f : Run → Run} (hresolutions : d'.resolutions = d.resolutions)
    (hrosters : d'.rosters = d.rosters) (hruns : d'.runs = d.runs.modify r f)
    (hf : ∀ q, R q (f q)) : Leaves r R d d' := by
  refine ⟨hresolutions, hrosters, fun q hq => ⟨f q, ?_, hf q⟩⟩
  rw [hruns, Dict.get?_modify_self hq]

omit [PyText] in
theorem leaves_modifyRun {f : Run → Run} (hf : ∀ q, R q (f q)) (d : Db) :
    Leaves r R d (d.modifyRun r f) :=
  leaves_modify rfl rfl rfl hf

omit [PyText] in
theorem leaves_refl (hR : ∀ q, R q q) (d : Db) : Leaves r R d d := ⟨rfl, rfl, fun q hq => ⟨q, hq, hR q⟩⟩

theorem touches_reading {op : Op} (hR : ∀ q, R q q) (hop : isPersist op = false)
    (hread : ∀ env d a d', txn env op d = .ok (a, d') → d' = d) : Touches r R op := by
  refine ⟨hop, fun env d a d' htxn => ?_⟩
  obtain rfl := hread env d a d' htxn
  exact leaves_refl hR d'

theorem touches_query (hR : ∀ q, R q q) : Touches r R .query :=
  touches_reading hR rfl fun _ _ _ _ htxn => (Prod.mk.inj (Except.ok.inj htxn)).2.symm

theorem touches_setClarifiedFields (clarified : ClarifiedFields)
    (hR : ∀ q now, R q { q with clarifiedFields := clarified, updatedAt := now }) :
    Touches r R (.setClarifiedFields r clarified) := by
  refine ⟨rfl, fun env d a d' htxn => ?_⟩
  obtain ⟨-, rfl⟩ := Prod.mk.inj (Except.ok.inj htxn)
  exact leaves_modifyRun (fun q => hR q d.now) d

theorem calls_query (hR : ∀ q, R q q) : Calls (Touches r R) query := .perform (touches_query hR)

omit [PyText] in
theorem calls_staged {α : Type} {P : Op → Prop} {p : Act α} (stage : PipelineStage) (h : Calls P p) :
    Calls P (staged stage p) :=
  .catching h fun _ => trivial

/-! Up to the persist. -/

theorem calls_extract (email : ReadEmail) : Calls (Touches r Resumed) (extract r email) := by
  refine .bind (calls_staged _ (.perform (touches_reading Resumed.refl rfl ?_))) fun _ => trivial
  intro _ _ _ _ htxn
  exact (Prod.mk.inj (Except.ok.inj htxn)).2.symm

theorem calls_loadRun (stage : PipelineStage) : Calls (Touches r Resumed) (loadRun r stage) := by
  refine .bind (calls_staged _ (calls_query Resumed.refl)) fun db => ?_
  cases db.runs.get? r with
  | none => trivial
  | some run => trivial

theorem calls_loadRoster (businessId : Uuid) : Calls (Touches r Resumed) (loadRoster businessId) := by
  refine .bind (calls_staged _ (calls_query Resumed.refl)) fun db => ?_
  cases db.rosters.get? businessId with
  | none => trivial
  | some roster => trivial

theorem calls_resumeContext (inbound : Option InboundMail) :
    Calls (Touches r Resumed) (resumeContext r inbound) := by
  have hconsumed : Touches r Resumed (.loadConsumedReplies r) :=
    touches_reading Resumed.refl rfl fun _ _ _ _ htxn => (Prod.mk.inj (Except.ok.inj htxn)).2.symm
  exact .bind (calls_loadRun _) fun _ => .bind (calls_loadRoster _) fun _ => .bind (calls_loadRun _)
    fun _ =>
    .bind (calls_loadRun _) fun _ => .bind (calls_loadRun _) fun _ =>
      .bind (calls_staged _ (calls_query Resumed.refl)) fun _ =>
        .bind (calls_staged _ (.perform hconsumed)) fun _ => trivial

theorem calls_extractions (ctx : ResumeContext) (emails : ResumeEmails) :
    Calls (Touches r Resumed) (extractions r ctx emails) :=
  .ite (.bind (calls_extract _) fun _ => .bind (calls_extract _) fun _ => trivial)
    (.bind (calls_extract _) fun _ => trivial)

theorem calls_storeAnswers (ctx : ResumeContext) (x : Extractions) :
    Calls (Touches r Resumed) (storeAnswers r ctx x) := by
  refine .ite (calls_staged _ (.perform (touches_setClarifiedFields _ ?_))) trivial
  exact fun q now => ⟨⟨rfl, rfl⟩, id⟩

theorem touches_claim {expected new : RunStatus} (hnew : new ∈ resumable) :
    Touches r Resumed (.claimStatus r expected new) := by
  refine ⟨rfl, fun env d a d' htxn => ?_⟩
  have hclaim := Except.ok.inj htxn
  by_cases hfrom : d.statusOf r = some expected
  · rw [claimStatus_won hfrom] at hclaim
    obtain ⟨-, rfl⟩ := Prod.mk.inj hclaim
    exact leaves_modifyRun (fun q => ⟨⟨rfl, rfl⟩, fun _ => hnew⟩) d
  · rw [claimStatus_lost hfrom] at hclaim
    obtain ⟨-, rfl⟩ := Prod.mk.inj hclaim
    exact leaves_refl Resumed.refl d

theorem touches_rewind : Touches r Resumed (.rewindForReclaim r) := by
  refine ⟨rfl, fun env d a d' htxn => ?_⟩
  have hrewind := congrArg Prod.snd (Except.ok.inj htxn)
  change (rewindForReclaim r d).2 = d' at hrewind
  subst hrewind
  unfold rewindForReclaim
  split
  · exact leaves_refl Resumed.refl d
  · split
    · exact leaves_modifyRun (fun q => ⟨⟨rfl, rfl⟩, fun _ => List.mem_cons_of_mem _ List.mem_cons_self⟩) d
    · exact leaves_refl Resumed.refl d

theorem calls_reenter (job : Job) (status : RunStatus) :
    Calls (Touches r Resumed) (reenter job r .needsOperator status) := by
  have hreceived : RunStatus.received ∈ resumable := List.mem_cons_of_mem _ List.mem_cons_self
  exact .ite (.perform (touches_claim hreceived)) (.ite trivial (.ite (.perform touches_rewind) trivial))

omit [PyText] in
/-- A preparation of the authoritative generation projects the aliases to
remember. -/
theorem prepare_ok {d d' : Db} {authoritative : Bool}
    (h : prepareAuthoritativeOperatorResume r g d = .ok (authoritative, d')) : Leaves r Resumed d d' := by
  unfold prepareAuthoritativeOperatorResume at h
  split at h
  · split at h
    · split at h
      · split at h
        · obtain ⟨-, rfl⟩ := Prod.mk.inj (Except.ok.inj h)
          exact leaves_refl Resumed.refl d
        · obtain ⟨-, rfl⟩ := Prod.mk.inj (Except.ok.inj h)
          exact leaves_modifyRun (fun q => ⟨⟨rfl, rfl⟩, id⟩) d
      · obtain ⟨-, rfl⟩ := Prod.mk.inj (Except.ok.inj h)
        exact leaves_refl Resumed.refl d
    · cases h
  · cases h

theorem calls_prepare : Calls (Touches r Resumed) (prepare r g) := by
  refine .catching (.bind (.perform ⟨rfl, fun env d a d' htxn => prepare_ok htxn⟩) fun _ => trivial)
    fun e => ?_
  exact .ite trivial trivial

/-! After the persist. -/

theorem touches_pauseForReply (round : Nat) (extracted : Extracted) :
    Touches r Spared (.finalizeSentClarification r round extracted) := by
  refine ⟨rfl, fun env d a d' htxn => ?_⟩
  obtain ⟨-, rfl⟩ := Prod.mk.inj (Except.ok.inj htxn)
  exact leaves_modify rfl rfl (pauseForReply_runs ..) fun q => ⟨rfl, rfl⟩

theorem touches_replay (e : Uuid) (extracted : Extracted) :
    Touches r Spared (.replayReservedClarification r e extracted) := by
  refine ⟨rfl, fun env d a d' htxn => ?_⟩
  have hresolutions := resolutions_same (txn_effect htxn) fun _ _ _ h => by cases h
  cases txn_effect htxn with
  | idle => exact leaves_refl Spared.refl d
  | @replayed _ _ _ m =>
      have hruns := pauseForReply_runs r m.round extracted (enqueueSend r e d)
      rw [enqueueSend_runs] at hruns
      exact leaves_modify hresolutions (enqueueSend_rosters ..) hruns fun q => ⟨rfl, rfl⟩

theorem touches_reserve (q : Question) : Touches r Spared (.reserveClarification r q) := by
  refine ⟨rfl, fun env d a d' htxn => ?_⟩
  obtain ⟨-, rfl⟩ := Prod.mk.inj (Except.ok.inj htxn)
  obtain ⟨f, hruns, hf⟩ := reserveClarification_row r q d
  refine leaves_modify (reserveClarification_resolutions ..) (reserveClarification_rosters ..)
    hruns fun run => ?_
  obtain ⟨candidates, now, hrow⟩ := hf run
  rw [hrow]
  exact ⟨rfl, rfl⟩

theorem calls_ask (decision : Decision) (roster : Roster) (extracted : Extracted)
    (purpose : Purpose) (round : Nat) :
    Calls (Touches r Spared) (ask r decision roster extracted purpose round) := by
  refine .bind (.perform (touches_reading Spared.refl rfl ?_)) fun suggestions =>
    .bind (.perform (touches_reading Spared.refl rfl ?_)) fun envelope => .perform (touches_reserve _)
  · intro _ _ _ _ htxn
    exact (Prod.mk.inj (Except.ok.inj htxn)).2.symm
  · intro _ _ _ _ htxn
    exact (Prod.mk.inj (Except.ok.inj htxn)).2.symm

theorem calls_clarify (decision : Decision) (roster : Roster) (extracted : Extracted)
    (purpose : Purpose) : Calls (Touches r Spared) (clarify r decision roster extracted purpose) := by
  have hescalate : Touches r Spared (.escalateToOperator r) := by
    refine ⟨rfl, fun env d a d' htxn => ?_⟩
    obtain ⟨-, rfl⟩ := Prod.mk.inj (Except.ok.inj htxn)
    exact leaves_modifyRun (fun q => ⟨rfl, rfl⟩) d
  refine .bind (calls_query Spared.refl) fun db => .ite (.perform hescalate) ?_
  refine .bind (calls_query Spared.refl) fun db => ?_
  cases getOutboundForRound db r purpose _ with
  | some x => exact .perform (touches_pauseForReply ..)
  | none =>
      refine .bind (calls_query Spared.refl) fun db => ?_
      cases getUnconfirmedOutbound db r purpose _ with
      | some x => exact .perform (touches_replay ..)
      | none => exact calls_ask ..

theorem calls_defer (clarified : ClarifiedFields) (issues : List ValidationIssue) (roster : Roster) :
    Calls (Touches r Spared) (deferFieldRegressionClarification r clarified issues roster) := by
  refine .bind (calls_query Spared.refl) fun db => .bind
    (.perform (touches_setClarifiedFields _ ?_)) fun _ =>
    .bind (calls_query Spared.refl) fun db => ?_
  · exact fun q now => ⟨rfl, rfl⟩
  · cases (db.runs.get? r).bind Run.decision with
    | none => trivial
    | some decision =>
        cases (db.runs.get? r).bind Run.extractedData with
        | none => trivial
        | some extracted => exact calls_clarify ..

theorem calls_bindAliases (roster : Roster) (candidates : AliasCandidates) :
    Calls (Touches r Spared) (bindAliases r roster candidates) := by
  refine .ite trivial (.bind (calls_staged _ (calls_query Spared.refl)) fun db =>
    .ite trivial (calls_staged _ (.perform ⟨rfl, fun env d a d' htxn => ?_⟩)))
  obtain ⟨-, rfl⟩ := Prod.mk.inj (Except.ok.inj htxn)
  exact leaves_modifyRun (fun q => ⟨rfl, rfl⟩) d

/-! The decision with the mapping applied. -/

variable {generation : OperatorResolution} {run : Run} {roster : Roster} {d : Db} {s : Db × Bool}
    {st : StageResult}

omit [PyText] in
theorem overrideId_operator (hvalues : ∀ id ∈ generation.overrides.values, id ∈ roster.ids) {name : Str}
    (hname : name ∈ generation.overrides.keys) :
    ∃ id, overrideId (operatorOverrides generation) roster name = some id := by
  obtain ⟨id, hid⟩ := (Dict.mem_keys_iff _ _).mp hname
  have hroster : id ∈ roster.ids := hvalues id ((Dict.mem_values_iff _ _).mpr ⟨name, hid⟩)
  refine ⟨id, ?_⟩
  rw [overrideId, operatorOverrides, Dict.get?_mapValues, hid]
  exact if_pos hroster

theorem unresolved_of_stages {ctx : ResumeContext} {x : Extractions}
    (hvalues : ∀ id ∈ generation.overrides.values, id ∈ ctx.roster.ids)
    (hs : resumeStages ctx x (some (operatorOverrides generation)) = .ok st) {name : Str}
    (hname : name ∈ st.decision.unresolvedNames) : name ∉ generation.overrides.keys := by
  intro hkey
  obtain ⟨id, hid⟩ := overrideId_operator hvalues hkey
  rw [(stages_of_ok hs).2.2] at hname
  obtain ⟨m, hm, hunresolved, hsubmitted⟩ := (Decide.mem_unresolvedNames _ _).mp hname
  rw [stageMatches, overrides_stagesArgs, mem_reconcileNames_iff] at hm
  obtain ⟨name', -, rfl⟩ := hm
  rw [submittedName_reconcileName] at hsubmitted
  subst hsubmitted
  rw [Option.getD_some, reconcileName, hid] at hunresolved
  cases hunresolved

def Applied (generation : OperatorResolution) (q : Run) : Prop :=
  ∃ decision, q.decision = some decision ∧ ∀ name ∈ decision.unresolvedNames,
    name ∉ generation.overrides.keys

structure Unapplied (run q : Run) : Prop where
  decision : q.decision = run.decision
  status : q.status ∈ resumable

/-- The run after attempts of the generation, with whether one of them has
committed its persist. -/
structure Stands (r g : Uuid) (generation : OperatorResolution) (run : Run) (roster : Roster)
    (s : Db × Bool) : Prop where
  committed : s.1.resolutions.get? g = some generation
  roster : s.1.rosters.get? run.businessId = some roster
  row : ∃ q, s.1.runs.get? r = some q ∧ q.businessId = run.businessId ∧
    (s.2 = false → Unapplied run q) ∧ (s.2 = true → Applied generation q)

abbrev attempting : Machine Op Ans Exn (Db × Bool) Env Note := machine.marking commitsPersist

omit [PyText] in
theorem Stands.resumed {d' : Db} {b : Bool} (h : Stands r g generation run roster (d, b))
    (hl : Leaves r Resumed d d') : Stands r g generation run roster (d', b) := by
  obtain ⟨q, hq, hbusiness, hopen, happlied⟩ := h.row
  obtain ⟨hresolutions, hrosters, hrow⟩ := hl
  obtain ⟨q', hq', hresumed⟩ := hrow q hq
  refine ⟨(congrArg (Dict.get? · g) hresolutions).trans h.committed,
    (congrArg (Dict.get? · run.businessId) hrosters).trans h.roster, q', hq',
    hresumed.business.trans hbusiness, fun hb => ?_, fun hb => ?_⟩
  · exact ⟨hresumed.decision.trans (hopen hb).decision, hresumed.status (hopen hb).status⟩
  · obtain ⟨decision, hdecision, hnames⟩ := happlied hb
    exact ⟨decision, hresumed.decision.trans hdecision, hnames⟩

omit [PyText] in
theorem Stands.spared {d' : Db} (h : Stands r g generation run roster (d, true))
    (hl : Leaves r Spared d d') : Stands r g generation run roster (d', true) := by
  obtain ⟨q, hq, hbusiness, -, happlied⟩ := h.row
  obtain ⟨hresolutions, hrosters, hrow⟩ := hl
  obtain ⟨q', hq', hspared⟩ := hrow q hq
  obtain ⟨decision, hdecision, hnames⟩ := happlied rfl
  exact ⟨(congrArg (Dict.get? · g) hresolutions).trans h.committed,
    (congrArg (Dict.get? · run.businessId) hrosters).trans h.roster, q', hq',
    hspared.business.trans hbusiness,
    fun hb => (by cases hb), fun _ => ⟨decision, hspared.decision.trans hdecision, hnames⟩⟩

theorem touched (env : Env) {op : Op} (h : Touches r R op) (hR : ∀ q, R q q) (s : Db × Bool) :
    ∃ d', (attempting.exec env op s).2 = (d', s.2) ∧ Leaves r R s.1 d' := by
  have hmark : (s.2 || commitsPersist env op) = s.2 := by
    rw [commitsPersist, h.1, Bool.false_and, Bool.or_false]
  refine ⟨(exec env op s.1).2, ?_, ?_⟩
  · change ((exec env op s.1).2, s.2 || commitsPersist env op) = _
    rw [hmark]
  · exact exec_preserves (leaves_refl hR s.1) fun a d' htxn => h.2 env s.1 a d' htxn

theorem keeps_early {α : Type} {p : Act α} (hp : Calls (Touches r Resumed) p)
    (h : Stands r g generation run roster s) :
    Keeps attempting (Stands r g generation run roster) (fun _ _ => True) p s := by
  refine Calls.keeps (fun env op s hop hs => ?_) hp h
  obtain ⟨d', hd, hl⟩ := touched env hop Resumed.refl s
  rw [hd]
  exact hs.resumed hl

theorem keeps_late {α : Type} {p : Act α} (hp : Calls (Touches r Spared) p)
    (h : Stands r g generation run roster s)
    (hmark : s.2 = true) : Keeps attempting (Stands r g generation run roster)
    (fun _ s => s.2 = true) p s := by
  have hkeeps : Keeps attempting (fun s => Stands r g generation run roster s ∧ s.2 = true)
    (fun _ _ => True) p s := by
    refine Calls.keeps (fun env op s hop hs => ?_) hp ⟨h, hmark⟩
    obtain ⟨d', hd, hl⟩ := touched env hop Spared.refl s
    obtain ⟨d, b⟩ := s
    obtain ⟨hs, rfl⟩ := hs
    rw [hd]
    exact ⟨hs.spared hl, rfl⟩
  exact (hkeeps.mono fun _ _ hs _ => hs.2).strengthen fun _ => And.left

omit [PyText] in
theorem Stands.persisted (h : Stands r g generation run roster (d, s.2))
    (hnames : ∀ name ∈ st.decision.unresolvedNames, name ∉ generation.overrides.keys) :
    Stands r g generation run roster (persistStages r st d, true) := by
  obtain ⟨q, hq, hbusiness, -, -⟩ := h.row
  have hrosters : (persistStages r st d).rosters = d.rosters := by
    unfold persistStages
    dsimp only
    split <;> rfl
  refine ⟨(congrArg (Dict.get? · g) (persistStages_resolutions d r st)).trans h.committed,
    (congrArg (Dict.get? · run.businessId) hrosters).trans h.roster, persistedRow st d.now q, ?_, ?_,
    fun hb => (by cases hb), fun _ => ⟨st.decision, ?_, hnames⟩⟩
  · rw [persistStages_rows, Dict.get?_modify_self hq]
  · unfold persistedRow
    dsimp only
    split <;> exact hbusiness
  · unfold persistedRow
    dsimp only
    split <;> rfl

theorem keeps_persist (h : Stands r g generation run roster s)
    (hnames : ∀ name ∈ st.decision.unresolvedNames, name ∉ generation.overrides.keys) :
    Keeps attempting (Stands r g generation run roster) (fun _ s => s.2 = true)
      (Orchestrator.perform (.persistStages r st)) s := by
  refine Keeps.perform h fun env => ?_
  have hcommit : Stands r g generation run roster (persistStages r st s.1, true) :=
    Stands.persisted h hnames
  change Stands r g generation run roster ((exec env (.persistStages r st) s.1).2,
    s.2 || commitsPersist env (.persistStages r st)) ∧
    ∀ a, (exec env (.persistStages r st) s.1).1 = .ok a →
      (s.2 || commitsPersist env (.persistStages r st)) = true
  have htxn : txn env (.persistStages r st) s.1 = .ok ((), persistStages r st s.1) := rfl
  rw [exec, htxn, commitsPersist, isPersist, Bool.true_and]
  cases env.fault with
  | none =>
      rw [Bool.or_true]
      exact ⟨hcommit, fun _ _ => rfl⟩
  | before e =>
      rw [Bool.or_false]
      exact ⟨h, fun a ha => by cases ha⟩
  | after e =>
      rw [Bool.or_true]
      exact ⟨hcommit, fun _ _ => rfl⟩

theorem keeps_marked_staged {α : Type} {I : Db × Bool → Prop} {Q : α → Db × Bool → Prop} {p : Act α}
    (stage : PipelineStage) (h : Keeps attempting I Q p s) : Keeps attempting I Q (staged stage p) s :=
  Keeps.catching h fun _ _ hI => Keeps.raise hI

theorem keeps_branch {ctx : ResumeContext} {x : Extractions} (hroster : ctx.roster = roster)
    (hvalues : ∀ id ∈ generation.overrides.values, id ∈ roster.ids)
    (h : Stands r g generation run roster s) :
    Keeps attempting (Stands r g generation run roster) (fun _ s => s.2 = true)
      (persistAndBranch r ctx.roster (resumeStages ctx x (some (operatorOverrides generation)))) s := by
  cases hs : resumeStages ctx x (some (operatorOverrides generation)) with
  | error e => exact Keeps.raise h
  | ok st =>
      have hnames : ∀ name ∈ st.decision.unresolvedNames, name ∉ generation.overrides.keys :=
        fun name hname =>
        unresolved_of_stages (by rwa [hroster]) hs hname
      refine Keeps.bind (keeps_marked_staged _ (keeps_persist h hnames)) fun _ s h hmark => ?_
      refine Keeps.ite (fun _ => Keeps.pure h hmark) fun _ => ?_
      refine Keeps.bind (keeps_late (calls_staged .clarification (calls_clarify ..)) h hmark)
        fun _ s h hmark => ?_
      exact Keeps.pure h hmark

theorem keeps_resume {ctx : ResumeContext} (emails : ResumeEmails) (hroster : ctx.roster = roster)
    (hvalues : ∀ id ∈ generation.overrides.values, id ∈ roster.ids)
    (h : Stands r g generation run roster s) :
    Keeps attempting (Stands r g generation run roster) (fun _ _ => True)
      (resumeFrom r ctx emails (some (operatorOverrides generation))) s := by
  refine Keeps.bind (keeps_early (calls_extractions ..) h) fun x s h _ => ?_
  refine Keeps.bind (keeps_early (calls_storeAnswers ..) h) fun _ s h _ => ?_
  refine Keeps.bind (keeps_branch hroster hvalues h) fun st s h hmark => ?_
  refine Keeps.ite (fun _ => ?_) fun _ => ?_
  · refine Keeps.bind (keeps_late (calls_staged .clarification (calls_defer ..)) h hmark)
      fun _ s h _ => ?_
    exact Keeps.pure h trivial
  · refine Keeps.bind (keeps_late (calls_bindAliases ..) h hmark) fun _ s h _ => ?_
    exact Keeps.pure h trivial

theorem unmarked {α : Type} {p : Act α} (hp : Calls (Touches r R) p) :
    Calls (fun op => ∀ env, commitsPersist env op = false) p :=
  Calls.mono (fun op hop env => by rw [commitsPersist, hop.1, Bool.false_and]) hp

theorem keeps_pipeline (hvalues : ∀ id ∈ generation.overrides.values, id ∈ roster.ids)
    (h : Stands r g generation run roster s) :
    Keeps attempting (Stands r g generation run roster) (fun _ _ => True)
      (resumePipeline r none .received (some (operatorOverrides generation))) s := by
  have hextracting : RunStatus.extracting ∈ resumable := by decide
  refine Keeps.catching ?_ fun e s h => Keeps.pure h trivial
  refine Keeps.bind (keeps_early (calls_staged .persist (.perform (touches_claim hextracting))) h)
    fun (claimed : Bool) s h _ => ?_
  refine Keeps.ite (fun _ => ?_) fun _ => Keeps.pure h trivial
  refine Keeps.bind (P := fun _ _ => True) (Keeps.pure h trivial) fun _ s h _ => ?_
  obtain ⟨d, b⟩ := s
  obtain ⟨q, hq, hbusiness, -⟩ := h.row
  -- the reads are those of an unmarked execution
  have hread := (keeps_resumeContext (I := fun d => Stands r g generation run roster (d, b))
    none h hq).marking (b := b) (unmarked (calls_resumeContext none))
  refine Keeps.bind (hread.strengthen fun s hs => ?_) ?_
  · obtain ⟨hs, rfl⟩ := hs
    exact hs
  · rintro ⟨ctx, emails⟩ s hs ⟨⟨-, -, hroster⟩, -⟩
    rw [hbusiness] at hroster
    exact keeps_resume emails (Option.some.inj (hroster.symm.trans h.roster)) hvalues hs

theorem keeps_resumeWith (job : Job) (hvalues : ∀ id ∈ generation.overrides.values, id ∈ roster.ids)
    (h : Stands r g generation run roster s) :
    Keeps attempting (Stands r g generation run roster) (fun _ _ => True) (resumeWith job r g) s := by
  obtain ⟨d, b⟩ := s
  have hread := (keeps_query (I := fun d => Stands r g generation run roster (d, b)) h).marking
    (b := b) (unmarked (calls_query (r := r) Resumed.refl))
  have hstands : ∀ s : Db × Bool, Stands r g generation run roster (s.1, b) ∧ s.2 = b →
      Stands r g generation run roster s := by
    rintro ⟨d, _⟩ ⟨hs, rfl⟩
    exact hs
  refine Keeps.bind (hread.strengthen hstands) ?_
  rintro _ s hs ⟨⟨rfl, -⟩, -⟩
  rw [h.committed]
  refine Keeps.bind (keeps_early (calls_query Resumed.refl) hs) fun d' s hs _ => ?_
  cases d'.runs.get? r with
  | none => exact Keeps.pure hs trivial
  | some q =>
      refine Keeps.bind (keeps_early (calls_reenter job q.status) hs) fun entered s hs _ => ?_
      exact Keeps.ite (fun _ => keeps_pipeline hvalues hs) fun _ => Keeps.pure hs trivial

/-- An attempt leaves the run with the decision the mapping answers, or with
one that has no name of the mapping left. -/
theorem keeps_attempt {job : Job} (hnames : Names job r g)
    (hvalues : ∀ id ∈ generation.overrides.values, id ∈ roster.ids)
    (h : Stands r g generation run roster s) :
    Keeps attempting (Stands r g generation run roster) (fun _ _ => True)
      (handleOperatorResume job) s := by
  rw [handleOperatorResume, hnames.runId, hnames.resolution]
  refine Keeps.bind (keeps_early calls_prepare h) fun prepared s h _ => ?_
  cases prepared with
  | none => exact Keeps.pure h trivial
  | some authoritative =>
      cases authoritative with
      | false => exact Keeps.pure h trivial
      | true => exact keeps_resumeWith job hvalues h

/-- A history of one generation: attempts, each of which dies anywhere, and
what else touches the run in between. The mark says whether an attempt has
committed its stage persist. -/
inductive Attempted (r g : Uuid) (db : Db) : Db × Bool → Prop
  | start : Attempted r g db (db, false)
  | died {s : Db × Bool} {job : Job} (h : Attempted r g db s) (hnames : Names job r g) (envs : List Env) :
      Attempted r g db ((handleOperatorResume job).run attempting envs s).2
  | waited {s : Db × Bool} {d : Db} (h : Attempted r g db s) (hwait : Leaves r Resumed s.1 d) :
      Attempted r g db (d, s.2)

variable {db : Db} {job : Job} {X : Extractions}

omit [PyText] in
theorem Committed.values (h : Committed db r g generation run roster) :
    ∀ id ∈ generation.overrides.values, id ∈ roster.ids := by
  have hvalid := h.valid
  rw [validGeneration, h.roster] at hvalid
  cases hdecision : run.decision with
  | none => simp [hdecision] at hvalid
  | some decision =>
      simp only [hdecision, decide_eq_true_eq] at hvalid
      exact hvalid.2.2.2.2

theorem Attempted.stands (hcommitted : Committed db r g generation run roster) (h : Attempted r g db s) :
    Stands r g generation run roster s := by
  induction h with
  | start =>
      refine ⟨hcommitted.committed, hcommitted.roster, run, hcommitted.stored, rfl,
        fun _ => ⟨rfl, ?_⟩, fun h => by cases h⟩
      rw [hcommitted.status]
      exact List.mem_cons_self
  | died _ hnames envs ih => exact (keeps_attempt hnames hcommitted.values ih).invariant envs
  | waited _ hwait ih => exact ih.resumed hwait

omit [PyText] in
/-- No name of the mapping is open any more, and the mapping must name all
that are. -/
theorem prepare_applied (h : Stands r g generation run roster (d, true)) :
    prepareAuthoritativeOperatorResume r g d = .error .value := by
  obtain ⟨q, hq, -, -, happlied⟩ := h.row
  obtain ⟨decision, hdecision, hnames⟩ := happlied rfl
  have hinvalid : ¬ (generation.runId = r ∧ validGeneration d q generation.overrides = true) := by
    rintro ⟨-, hvalid⟩
    rw [validGeneration, hdecision] at hvalid
    split at hvalid
    next decision' _ hsome _ =>
      obtain rfl := Option.some.inj hsome
      rw [decide_eq_true_eq] at hvalid
      obtain ⟨hopen, -, -, hmapped, -⟩ := hvalid
      obtain ⟨name, hname⟩ := List.exists_mem_of_ne_nil _ hopen
      exact hnames name hname (hmapped name hname)
    · cases hvalid
  rw [prepareAuthoritativeOperatorResume, hq, h.committed]
  exact if_neg hinvalid

omit [PyText] in
theorem prepare_unapplied (hcommitted : Committed db r g generation run roster)
    (h : Stands r g generation run roster (d, false)) : ∃ authoritative d',
      prepareAuthoritativeOperatorResume r g d = .ok (authoritative, d') := by
  obtain ⟨q, hq, hbusiness, hopen, -⟩ := h.row
  have hvalid : validGeneration d q generation.overrides = true := by
    have hvalid := hcommitted.valid
    rw [validGeneration, hcommitted.roster] at hvalid
    rw [validGeneration, (hopen rfl).decision, hbusiness, h.roster]
    exact hvalid
  rw [prepareAuthoritativeOperatorResume, hq, h.committed]
  dsimp only
  rw [if_pos ⟨hcommitted.own, hvalid⟩]
  by_cases hauthoritative : generation.authoritative = true
  · rw [if_pos hauthoritative]
    by_cases hnone : (rememberedCandidates generation).entries = []
    · exact ⟨true, d, if_pos hnone⟩
    · exact ⟨true, _, if_neg hnone⟩
  · exact ⟨false, d, if_neg hauthoritative⟩

theorem undisturbed_prepare {u : Undisturbed} {authoritative : Bool} {d' : Db}
    (hprepare : prepareAuthoritativeOperatorResume r g u.db = .ok (authoritative, d')) :
    undisturbed X r (prepare r g) u = .done (.ok (some authoritative)) ⟨d', u.extractions⟩ := by
  have hcall : undisturbed X r (Orchestrator.perform
    (.prepareAuthoritativeOperatorResume r g) : Act Bool) u =
      .done (.ok authoritative) ⟨d', u.extractions⟩ := undisturbed_call rfl fun env => hprepare
  exact upTo_catching_ok ((upTo_bind_ok (f := fun authoritative : Bool => Pure.pure
    (some authoritative)) hcall).trans rfl)

theorem undisturbed_prepare_invalid {u : Undisturbed}
    (hprepare : prepareAuthoritativeOperatorResume r g u.db = .error .value) :
    undisturbed X r (prepare r g) u = .done (.ok none) u := by
  have htxn : txn { extracted := output X r u } (.prepareAuthoritativeOperatorResume r g) u.db =
    .error .value := hprepare
  have hcall : undisturbed X r (Orchestrator.perform
    (.prepareAuthoritativeOperatorResume r g) : Act Bool) u = .done (.error .value) u := by
    refine upTo_perform rfl ?_
    rw [answerTo, exec, htxn]
    rfl
  exact (upTo_catching_error (upTo_bind_error
    (f := fun authoritative : Bool => Pure.pure (some authoritative)) hcall)).trans rfl

/-- The attempt is not disturbed, and brings the mapping to the stages again or
ends well without one. -/
def Lossless (X : Extractions) (r : Uuid) (generation : OperatorResolution) (job : Job) (d : Db) : Prop :=
  (∃ ctx x reached, persists X r (handleOperatorResume job) d = some reached ∧
    resumeStages ctx x (some (operatorOverrides generation)) = .ok reached.stages) ∨
    ∃ u, undisturbed X r (handleOperatorResume job) ⟨d, 0⟩ = .done (.ok .okResult) u

theorem undisturbed_applied (hnames : Names job r g) (h : Stands r g generation run roster (d, true)) :
    undisturbed X r (handleOperatorResume job) ⟨d, 0⟩ = .done (.ok invalidContext) ⟨d, 0⟩ := by
  have hprepare : undisturbed X r (prepare r g) ⟨d, 0⟩ = .done (.ok none) ⟨d, 0⟩ :=
    undisturbed_prepare_invalid (prepare_applied h)
  rw [undisturbed, handleOperatorResume, hnames.runId, hnames.resolution]
  dsimp only
  rw [upTo_bind_ok hprepare]
  rfl

theorem not_lossless (hnames : Names job r g) (h : Stands r g generation run roster (d, true)) :
    ¬ Lossless X r generation job d := by
  have hinvalid := undisturbed_applied (X := X) hnames h
  rintro (⟨ctx, x, y, hpersists, -⟩ | ⟨u, hdone⟩)
  · rw [persists, hinvalid] at hpersists
    cases hpersists
  · rw [hinvalid] at hdone
    cases hdone

theorem persists_mapping {q : Run} (hstands : Stands r g generation run roster (d, false))
    (hq : d.runs.get? r = some q) (hstarts : q.status = .needsOperator ∨
      1 < job.attempts ∧ (q.status = .received ∨ q.status ∈ rewindStatuses)) {n : Nat} (hn : n = 0) :
    ∃ ctx x reached', reached r (undisturbed X r (resumeWith job r g) ⟨d, n⟩) = some reached' ∧
      resumeStages ctx x (some (operatorOverrides generation)) = .ok reached'.stages := by
  subst hn
  obtain ⟨s', run', henter, hrun', hreceived, hbusiness, -, -, hrosters, hcount⟩ :=
    undisturbed_reenter (X := X) (s := ⟨d, 0⟩) roster (by decide) hq hstarts
  obtain ⟨q', hq', hbusiness', -⟩ := hstands.row
  obtain rfl := Option.some.inj (hq'.symm.trans hq)
  have hroster : s'.db.rosters.get? run'.businessId = some roster := by
    rw [hrosters, hbusiness, hbusiness']
    exact hstands.roster
  obtain ⟨st, hs⟩ := OutcomeOrder.exists_resumeStages (contextOf r roster run')
    (given X (contextOf r roster run')) (some (operatorOverrides generation))
  have hresume := reached_resumePipeline none (some (operatorOverrides generation))
    hrun' hreceived hroster hcount hs
  have hwith : undisturbed X r (resumeWith job r g) ⟨d, 0⟩ =
      undisturbed X r (resumePipeline r none .received (some (operatorOverrides generation))) s' := by
    have hgeneration : d.resolutions.get? g = some generation := hstands.committed
    rw [undisturbed, resumeWith, upTo_bind_ok undisturbed_query, hgeneration]
    dsimp only
    rw [upTo_bind_ok undisturbed_query, hq]
    dsimp only
    rw [upTo_bind_ok henter, if_pos rfl]
  exact ⟨_, _, _, (congrArg (reached r) hwith).trans hresume, hs⟩

theorem lossless_unapplied (hcommitted : Committed db r g generation run roster) (hnames : Names job r g)
    (hagain : 1 < job.attempts) (h : Stands r g generation run roster (d, false)) :
    Lossless X r generation job d := by
  obtain ⟨authoritative, d', hprepare⟩ := prepare_unapplied hcommitted h
  have hstands : Stands r g generation run roster (d', false) := h.resumed (prepare_ok hprepare)
  have hprepared : undisturbed X r (prepare r g) ⟨d, 0⟩ = .done (.ok (some authoritative)) ⟨d', 0⟩ :=
    undisturbed_prepare hprepare
  cases authoritative with
  | false =>
      right
      have hhandle : undisturbed X r (handleOperatorResume job) ⟨d, 0⟩ =
          undisturbed X r (Pure.pure PipelineResult.okResult) ⟨d', 0⟩ := by
        rw [undisturbed, handleOperatorResume, hnames.runId, hnames.resolution]
        exact upTo_bind_ok hprepared
      rw [hhandle]
      exact ⟨_, rfl⟩
  | true =>
      left
      have hhandle : undisturbed X r (handleOperatorResume job) ⟨d, 0⟩ = undisturbed X r
        (resumeWith job r g) ⟨d', 0⟩ := by
        rw [undisturbed, handleOperatorResume, hnames.runId, hnames.resolution]
        exact upTo_bind_ok hprepared
      obtain ⟨q, hq, -, hopen, -⟩ := hstands.row
      have hstarts : q.status = .needsOperator ∨
          1 < job.attempts ∧ (q.status = .received ∨ q.status ∈ rewindStatuses) := by
        have hstatus := (hopen rfl).status
        simp only [resumable, List.mem_cons, List.not_mem_nil, or_false] at hstatus
        rcases hstatus with hstatus | hstatus | hstatus
        · exact .inl hstatus
        · exact .inr ⟨hagain, .inl hstatus⟩
        · exact .inr ⟨hagain, .inr (by rw [hstatus]; decide)⟩
      obtain ⟨ctx, x, y, hpersists, hs⟩ := persists_mapping (X := X) hstands hq hstarts rfl
      refine ⟨ctx, x, y, ?_, hs⟩
      rw [persists, hhandle]
      exact hpersists

/-- A reclaimed attempt applies the mapping again, or ends well without one, if
and only if no attempt of its generation has committed its persist. After one
has, the attempt fails on the decision that it finds. -/
theorem reclaimed_resolution_lossless (hcommitted : Committed db r g generation run roster)
    (h : Attempted r g db s) (hnames : Names job r g) (hagain : 1 < job.attempts) (X : Extractions) :
    (Lossless X r generation job s.1 ↔ s.2 = false) ∧
      (s.2 = true → undisturbed X r (handleOperatorResume job) ⟨s.1, 0⟩ = .done (.ok invalidContext)
      ⟨s.1, 0⟩) := by
  have hstands := h.stands hcommitted
  obtain ⟨d, b⟩ := s
  cases b with
  | false =>
      exact ⟨iff_of_true (lossless_unapplied hcommitted hnames hagain hstands) rfl, fun h => by
        cases h⟩
  | true =>
      exact ⟨iff_of_false (not_lossless hnames hstands) Bool.true_eq_false.mp,
        fun _ => undisturbed_applied hnames hstands⟩

end

section Histories

attribute [local instance] asciiText

def misspelled : Extracted := ⟨2, [reported "al ree".toList none none], none, none⟩

def openRun : Run :=
  { Run.created 1 3 0 with
    status := .needsOperator
    extractedData := some misspelled
    reconciliation := reconcileNames misspelled.names HoursVisibility.twoWorkers none
    decision := some (Decide.decide misspelled
      (reconcileNames misspelled.names HoursVisibility.twoWorkers none) []) }

def mapping : OperatorResolution where
  runId := 2
  authoritative := true
  supersededBy := none
  overrides := .ofList [("al ree".toList, 1)]
  remember := .ofList [("al ree".toList, false)]

def mappingJob : JobRow where
  kind := .operatorResume
  dedupKey := .operatorResume 2 5
  runId := some 2
  emailId := none
  operatorResolutionId := some 5
  eventId := none
  state := .leased
  attempts := 1
  maxAttempts := 3
  availableAt := 0
  leaseToken := some 6
  leasedUntil := some 1
  lastError := none
  updatedAt := 0

def openDb : Db :=
  { Db.empty with
    nextId := 7
    now := 2
    runs := .ofList [(2, openRun)]
    inbound := .ofList [(3, ⟨⟨3, none, [], 1, []⟩, none, 0, none⟩)]
    resolutions := .ofList [(5, mapping)]
    jobs := .ofList [(4, mappingJob)]
    rosters := .ofList [(1, HoursVisibility.twoWorkers)] }

def resolutionJob (attempts : Nat) : Job := copyOf { mappingJob with attempts := attempts } 4 6

/-- What the first attempt leaves if its process dies after `n` calls. -/
def dead (n : Nat) : Db × Bool :=
  ((handleOperatorResume (resolutionJob 1)).run attempting
    (List.replicate n { extracted := misspelled, picked := 4 }) (openDb, false)).2

theorem committed_openDb : Committed openDb 2 5 mapping openRun HoursVisibility.twoWorkers where
  committed := rfl
  own := rfl
  stored := rfl
  status := rfl
  roster := rfl
  valid := by decide +kernel

theorem names_resolutionJob (attempts : Nat) : Names (resolutionJob attempts) 2 5 := ⟨rfl, rfl⟩

theorem attempted_dead (n : Nat) : Attempted 2 5 openDb (dead n) :=
  Attempted.start.died (names_resolutionJob 1) _

/-- The process dies just before its persist. -/
theorem reclaimed_before_persist : Lossless silentReply 2 mapping (resolutionJob 2) (dead 13).1 :=
  (reclaimed_resolution_lossless committed_openDb (attempted_dead 13) (names_resolutionJob 2) (by decide)
    silentReply).1.mpr (by decide +kernel)

/-- The process dies after its persist and before the question it was about to
ask. The next worker fails the run. -/
theorem reclaimed_after_persist : (¬ ∀ (db : Db) (r g : Uuid) (generation : OperatorResolution) (run : Run)
    (roster : Roster) (s : Db × Bool) (job : Job) (X : Extractions),
    Committed db r g generation run roster →
    Attempted r g db s → Names job r g → 1 < job.attempts → Lossless X r generation job s.1) ∧
    ((thread .worker).run machine (List.replicate 3 { picked := 4 }) (dead 14).1).2.statusOf 2 =
    some .error := by
  refine ⟨fun hall => ?_, by decide +kernel⟩
  have hmark : dead 14 = ((dead 14).1, true) := Prod.ext rfl (by decide +kernel)
  have hstands := (attempted_dead 14).stands committed_openDb
  rw [hmark] at hstands
  exact not_lossless (names_resolutionJob 2) hstands (hall _ _ _ _ _ _ _ _ silentReply committed_openDb
    (attempted_dead 14) (names_resolutionJob 2) (by decide))

end Histories

end PayrollAgent.ReclaimedResolution
