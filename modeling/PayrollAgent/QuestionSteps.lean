import PayrollAgent.MessageSteps
import PayrollAgent.Rounds

namespace PayrollAgent.QuestionSteps

open Lib Repo AliasLearning RunStages Delivery RunRoutes ClarificationWrites Ingest Effects RunSteps
  MessageSteps FreshIds

def isQuestion (m : Outbound) : Bool := m.purpose ≠ .confirmation

def pausesForReply : Op → Option Uuid
  | .finalizeSentClarification r _ _ => some r
  | .replayReservedClarification r _ _ => some r
  | .reserveClarification r _ => some r
  | _ => none

/-- What a committed transaction does to the round counter of a run. -/
inductive RoundStep (r : Uuid) (run : Run) (op : Op) (run' : Run) : Prop
  | kept (hround : run'.clarificationRound = run.clarificationRound)
      (hepoch : run'.replyEpoch = run.replyEpoch)
  | rewound (hop : op = .rewindForReclaim r) (hepoch : run'.replyEpoch = run.replyEpoch)
  | reopened (hepoch : run'.replyEpoch = run.replyEpoch + 1)
  | asked (hop : pausesForReply op = some r) (hepoch : run'.replyEpoch = run.replyEpoch)

variable {db db' : Db} {r : Uuid} {run : Run} {op : Op}

theorem round_same (h : db'.runs = db.runs) (hrun : db.runs.get? r = some run) :
    ∃ run', db'.runs.get? r = some run' ∧ RoundStep r run op run' :=
  ⟨run, by rw [h, hrun], .kept rfl rfl⟩

theorem round_modify {r₀ : Uuid} {f : Run → Run} (h : db'.runs = db.runs.modify r₀ f)
    (hrun : db.runs.get? r = some run) (hstep : r₀ = r → RoundStep r run op (f run)) :
    ∃ run', db'.runs.get? r = some run' ∧ RoundStep r run op run' := by
  by_cases hr : r₀ = r
  · subst hr
    exact ⟨f run, by rw [h, Dict.get?_modify_self hrun], hstep rfl⟩
  · exact ⟨run, by rw [h, Dict.get?_modify_of_ne _ (Ne.symm hr), hrun], .kept rfl rfl⟩

theorem round_kept {r₀ : Uuid} {f : Run → Run} (h : db'.runs = db.runs.modify r₀ f)
    (hf : ∀ run, (f run).clarificationRound = run.clarificationRound ∧
    (f run).replyEpoch = run.replyEpoch)
    (hrun : db.runs.get? r = some run) : ∃ run', db'.runs.get? r = some run' ∧ RoundStep r run op run' :=
  round_modify h hrun fun _ => .kept (hf run).1 (hf run).2

theorem reserveClarification_round (r : Uuid) (q : Question) (db : Db) :
    ∃ f, (reserveClarification r q db).runs = db.runs.modify r f ∧ ∀ run,
      (f run).clarificationRound = q.round + 1 ∧ (f run).replyEpoch = run.replyEpoch := by
  simp only [reserveClarification, pauseForReply_runs]
  cases q.candidates with
  | none =>
      simp only [enqueueSend_runs, reserveOutboundSnapshot_runs]
      exact ⟨_, rfl, fun run => ⟨rfl, rfl⟩⟩
  | some candidates =>
      simp only [setAliasCandidates, Db.modifyRun, enqueueSend_runs, reserveOutboundSnapshot_runs,
        Dict.modify_modify]
      exact ⟨_, rfl, fun run => ⟨rfl, rfl⟩⟩

theorem persistedRow_round (s : StageResult) (now : Nat) (run : Run) :
    (Rounds.persistedRow s now run).clarificationRound = run.clarificationRound ∧
      (Rounds.persistedRow s now run).replyEpoch = run.replyEpoch := by
  unfold Rounds.persistedRow
  split
  · exact ⟨rfl, rfl⟩
  · exact ⟨rfl, rfl⟩

section

variable [PyText] {env : Env} {a : Ans op}

theorem settleSent_round {r₀ e : Uuid} {purpose : Purpose} {db₁ : Db} (hrun : db.runs.get? r = some run)
    (hdb₁ : db₁.runs = db.runs) (hdb : db'.runs = (settleSent r₀ e purpose db₁).runs) :
    ∃ run', db'.runs.get? r = some run' ∧ RoundStep r run op run' := by
  rw [settleSent_runs, hdb₁] at hdb
  split at hdb
  · exact round_kept hdb (fun _ => ⟨rfl, rfl⟩) hrun
  · exact round_same hdb hrun

omit [PyText] in
theorem review_round {r₀ : Uuid} (e : Uuid) {purpose : Purpose} {category : FailureCategory} {db₁ : Db}
    (hrun : db.runs.get? r = some run) (hdb₁ : db₁.runs = db.runs)
    (hdb : db'.runs = (enterDeliveryReview r₀ e purpose category db₁).runs) :
    ∃ run', db'.runs.get? r = some run' ∧ RoundStep r run op run' := by
  obtain ⟨f, hreview, hf⟩ :
    ∃ f, (enterDeliveryReview r₀ e purpose category db₁).runs = db₁.runs.modify r₀ f ∧
      ∀ run, (f run).clarificationRound = run.clarificationRound ∧ (f run).replyEpoch = run.replyEpoch :=
    ⟨_, Db.modifyRun_runs .., fun _ => ⟨rfl, rfl⟩⟩
  rw [hreview, hdb₁] at hdb
  exact round_kept hdb hf hrun

/-- Only a question, a rewind and a new epoch move the counter of a run. -/
theorem roundStep (h : Effect env db op a db') (hfresh : db.runs.Below db.nextId)
    (hrun : db.runs.get? r = some run) : ∃ run', db'.runs.get? r = some run' ∧
    RoundStep r run op run' := by
  cases h with
  | idle => exact round_same rfl hrun
  | leased => exact round_same rfl hrun
  | reapedInvalid => exact round_same rfl hrun
  | @reapedReview _ _ e => exact review_round e hrun rfl rfl
  | reapedRun _ _ _ hstatus => exact round_kept (setRunError_runs hstatus) (fun _ => ⟨rfl, rfl⟩) hrun
  | reapedJob => exact round_same rfl hrun
  | retired => exact round_same rfl hrun
  | recorded => exact settleSent_round hrun rfl rfl
  | @expired _ _ _ _ e => exact review_round e hrun rfl rfl
  | @sent job result row r₀ e m run₀ h handoff =>
      have hdb : (appendDeliveryAttempt e .sent .none (releaseHandoff h .finalized db)).runs =
        db.runs := rfl
      exact settleSent_round hrun hdb rfl
  | rescheduled => exact round_same rfl hrun
  | @reviewed _ _ _ _ e => exact review_round e hrun rfl rfl
  | closed => exact round_same rfl hrun
  | @requeued job result row r₀ =>
      have hdb : (setStatus r₀ .received db).runs = _ := Db.modifyRun_runs ..
      exact round_kept hdb (fun _ => ⟨rfl, rfl⟩) hrun
  | failed _ _ hstatus => exact round_kept (setRunError_runs hstatus) (fun _ => ⟨rfl, rfl⟩) hrun
  | released => exact round_same rfl hrun
  | handedOver => exact round_same rfl hrun
  | handedAgain => exact round_same rfl hrun
  | adopted => exact round_same rfl hrun
  | claimed => exact round_kept (Db.modifyRun_runs ..) (fun _ => ⟨rfl, rfl⟩) hrun
  | statusSet => exact round_kept (Db.modifyRun_runs ..) (fun _ => ⟨rfl, rfl⟩) hrun
  | rewound =>
      refine round_modify (Db.modifyRun_runs ..) hrun ?_
      rintro rfl
      exact .rewound rfl rfl
  | consumed => exact round_same rfl hrun
  | fieldsSet => exact round_kept (Db.modifyRun_runs ..) (fun _ => ⟨rfl, rfl⟩) hrun
  | candidatesSet => exact round_kept (Db.modifyRun_runs ..) (fun _ => ⟨rfl, rfl⟩) hrun
  | persisted => exact round_kept (Rounds.persistStages_rows ..) (fun _ => persistedRow_round ..) hrun
  | escalated => exact round_kept (Db.modifyRun_runs ..) (fun _ => ⟨rfl, rfl⟩) hrun
  | finalized =>
      refine round_modify (pauseForReply_runs ..) hrun ?_
      rintro rfl
      exact .asked rfl rfl
  | replayed =>
      refine round_modify ((pauseForReply_runs ..).trans (by rw [enqueueSend_runs])) hrun ?_
      rintro rfl
      exact .asked rfl rfl
  | @reserved r₀ q =>
      obtain ⟨f, hf, hcolumns⟩ := reserveClarification_round r₀ q db
      refine round_modify hf hrun ?_
      rintro rfl
      exact .asked rfl (hcolumns run).2
  | redelivered => exact round_same (authorizedReplyJob_runs ..) hrun
  | unknown => exact round_same rfl hrun
  | created =>
      refine ⟨run, ?_, .kept rfl rfl⟩
      rw [enqueueJob_runs]
      exact Dict.Below.get?_set_next (hfresh.mono (Nat.le_succ _)) hrun
  | late => exact round_same rfl hrun
  | replied => exact round_same (authorizedReplyJob_runs ..) hrun
  | prepared => exact round_kept (Db.modifyRun_runs ..) (fun _ => ⟨rfl, rfl⟩) hrun
  | @approved r₀ =>
      obtain hdeliver | hdeliver := deliver_runs r₀ env.envelope (setStatus r₀ .approved db)
      · exact round_kept (hdeliver.trans (Db.modifyRun_runs ..)) (fun _ => ⟨rfl, rfl⟩) hrun
      · rw [setStatus, Db.modifyRun_runs, Dict.modify_modify] at hdeliver
        exact round_kept hdeliver (fun _ => ⟨rfl, rfl⟩) hrun
  | errored => exact round_kept (Db.modifyRun_runs ..) (fun _ => ⟨rfl, rfl⟩) hrun
  | retriggered _ _ hclaim =>
      obtain ⟨rfl, -⟩ | ⟨rfl, -⟩ := hclaim
      · exact round_modify (enqueueJob_runs ..) hrun fun _ => .reopened rfl
      · exact round_modify ((enqueueJob_runs ..).trans (Dict.modify_modify ..)) hrun fun _ =>
          .reopened rfl
  | @markedDelivered r₀ e m db' hload hresolve =>
      exact round_kept (resolved_runs hresolve) (fun _ => ⟨rfl, rfl⟩) hrun
  | @authorizedNew r₀ e m db₁ hload hresolve =>
      exact round_modify (authorizedNew_runs _ hresolve) hrun fun _ => .reopened rfl
  | @finishedReview r₀ e m target acknowledge =>
      exact round_kept (finishedReview_runs ..) (fun _ => ⟨rfl, rfl⟩) hrun
  | advanced => exact round_same rfl hrun
  | resolved => exact round_same (enqueueJob_runs ..) hrun
  | passed => exact round_same rfl hrun

/-- The question was stored by this call, in a slot that was free. -/
structure Stored (db : Db) (op : Op) (e : Uuid) (m : Outbound) (r : Uuid) (q : Question) : Prop where
  op : op = .reserveClarification r q
  free : findSlot db r q.purpose q.round = none
  id : e = db.nextId + 1
  runId : m.runId = r
  purpose : m.purpose = q.purpose
  round : m.round = q.round
  epoch : m.epoch = (db.epochOf r).getD 0

variable {e : Uuid} {m : Outbound}

omit [PyText] in
/-- A message after a reservation is an old one, or that of the free slot. -/
theorem origin_of_reserve {db₁ : Db} {purpose : Purpose} {round : Nat} {envelope : Envelope}
    (hm : (reserveOutboundSnapshot r purpose round envelope db₁).2.outbound.get? e = some m) :
    db₁.outbound.get? e = some m ∨ findSlot db₁ r purpose round = none ∧ e = db₁.nextId + 1 ∧
      m.runId = r ∧ m.purpose = purpose ∧ m.round = round ∧ m.epoch = (db₁.epochOf r).getD 0 := by
  unfold reserveOutboundSnapshot at hm
  split at hm
  · exact .inl hm
  next hfree =>
    rw [Db.insertOutbound, Dict.get?_set] at hm
    split at hm
    next he =>
      obtain rfl := Option.some.inj hm
      exact .inr ⟨hfree, he, rfl, rfl, rfl, rfl⟩
    · exact .inl hm

omit [PyText] in
theorem origin_of_modify {j : Uuid} {f : Outbound → Outbound}
    (h : db'.outbound = db.outbound.modify j f) (hf : ∀ m, Frozen m (f m))
    (hm : db'.outbound.get? e = some m) : ∃ m₀, db.outbound.get? e = some m₀ ∧ Frozen m₀ m := by
  rw [h, Dict.get?_modify] at hm
  split at hm
  · obtain ⟨m₀, hm₀, rfl⟩ := Option.map_eq_some_iff.mp hm
    exact ⟨m₀, hm₀, hf m₀⟩
  · exact ⟨m, hm, .refl m⟩

theorem question_origin (h : Effect env db op a db') (hm : db'.outbound.get? e = some m)
    (hquestion : isQuestion m = true) :
    (∃ m₀, db.outbound.get? e = some m₀ ∧ Frozen m₀ m) ∨ ∃ r q, Stored db op e m r q := by
  have hsame : db'.outbound = db.outbound →
      (∃ m₀, db.outbound.get? e = some m₀ ∧ Frozen m₀ m) ∨ ∃ r q, Stored db op e m r q :=
    fun hout => .inl ⟨m, by rw [← hout, hm], .refl m⟩
  have hconfirms : m.purpose ≠ .confirmation := of_decide_eq_true hquestion
  cases h with
  | reapedRun => exact hsame (setRunError_outbound ..)
  | @recorded job result row r e m =>
      exact .inl (origin_of_modify (settleSent_outbound ..)
        (fun m => ⟨rfl, rfl, rfl, rfl, rfl, .inr rfl⟩) hm)
  | @sent job result row r e m run h handoff =>
      have hout : (settleSent r e m.purpose
          (appendDeliveryAttempt e .sent .none (releaseHandoff h .finalized db))).outbound =
          db.outbound.modify e _ := settleSent_outbound ..
      exact .inl (origin_of_modify hout (fun m => ⟨rfl, rfl, rfl, rfl, rfl, .inr rfl⟩) hm)
  | failed => exact hsame (setRunError_outbound ..)
  | persisted => exact hsame (persistStages_outbound ..)
  | @replayed r e =>
      have hout : (enqueueSend r e db).outbound = db.outbound := enqueueSend_outbound ..
      exact hsame hout
  | @reserved r q =>
      rw [reserveClarification_outbound] at hm
      obtain hold | ⟨hfree, hid, hrun, hpurpose, hround, hepoch⟩ := origin_of_reserve hm
      · exact .inl ⟨m, hold, .refl m⟩
      · exact .inr ⟨r, q, rfl, hfree, hid, hrun, hpurpose, hround, hepoch⟩
  | redelivered => exact hsame (authorizedReplyJob_outbound ..)
  | created => exact hsame (enqueueJob_outbound ..)
  | replied => exact hsame (authorizedReplyJob_outbound ..)
  | @approved r =>
      obtain hout | hreserve := deliver_outbound r env.envelope (setStatus r .approved db)
      · exact hsame hout
      · rw [hreserve] at hm
        obtain hold | ⟨-, -, -, hpurpose, -⟩ := origin_of_reserve hm
        · exact .inl ⟨m, hold, .refl m⟩
        · exact absurd hpurpose hconfirms
  | retriggered _ _ hclaim =>
      obtain ⟨rfl, -⟩ | ⟨rfl, -⟩ := hclaim
      · exact hsame (enqueueJob_outbound ..)
      · exact hsame (enqueueJob_outbound ..)
  | markedDelivered _ hresolve =>
      obtain ⟨handoffs, rfl⟩ := resolve_frame hresolve
      exact hsame rfl
  | @authorizedNew r e' m' db₁ _ hresolve =>
      have hout : (db₁.modifyRun r (openEpoch db₁.now)).outbound = db.outbound := by
        obtain ⟨handoffs, rfl⟩ := resolve_frame hresolve
        rfl
      rw [replaceConfirmation, enqueueSend_outbound] at hm
      obtain hold | ⟨-, -, -, hpurpose, -⟩ := origin_of_reserve hm
      · exact .inl ⟨m, by rw [← hout, hold], .refl m⟩
      · exact absurd hpurpose hconfirms
  | @finishedReview r e' m' target acknowledge =>
      cases acknowledge with
      | false => exact hsame rfl
      | true =>
          refine .inl (origin_of_modify (Db.modifyOutbound_outbound e' _ (setStatus r target db))
            (fun m => ?_) hm)
          split
          · exact ⟨rfl, rfl, rfl, rfl, rfl, .inl rfl⟩
          · exact .refl m
  | resolved => exact hsame (enqueueJob_outbound ..)
  | _ => exact hsame rfl

theorem round_of_reserved {q : Question} {a : Ans (.reserveClarification r q)}
    (h : Effect env db (.reserveClarification r q) a db') (hrun : db.runs.get? r = some run) :
    ∃ run', db'.runs.get? r = some run' ∧ run'.clarificationRound = q.round + 1 ∧
      run'.replyEpoch = run.replyEpoch := by
  cases h with
  | idle hrefused => exact hrefused.elim
  | reserved =>
      obtain ⟨f, hf, hcolumns⟩ := reserveClarification_round r q db
      exact ⟨f run, by rw [hf, Dict.get?_modify_self hrun], hcolumns run⟩

end

end PayrollAgent.QuestionSteps
