import PayrollAgent.FreshIds
import PayrollAgent.RunSteps

namespace PayrollAgent.MessageSteps

open Lib Repo AliasLearning RunStages Delivery RunRoutes ClarificationWrites Ingest Effects RunSteps
  FreshIds

/-- What no transaction changes in a stored message. -/
structure Frozen (m m' : Outbound) : Prop where
  runId : m'.runId = m.runId
  purpose : m'.purpose = m.purpose
  round : m'.round = m.round
  epoch : m'.epoch = m.epoch
  snapshot : m'.snapshot = m.snapshot
  sendState : m'.sendState = m.sendState ∨ m'.sendState = .sent

theorem Frozen.refl (m : Outbound) : Frozen m m := ⟨rfl, rfl, rfl, rfl, rfl, .inl rfl⟩

/-- The columns of the unique slot index. -/
structure SameSlot (m m' : Outbound) : Prop where
  runId : m.runId = m'.runId
  purpose : m.purpose = m'.purpose
  round : m.round = m'.round
  epoch : m.epoch = m'.epoch

/-- A message that was reserved in a slot of its run that was free. -/
structure Reserved (db db' : Db) (e : Uuid) (m' : Outbound) : Prop where
  new : db.outbound.get? e = none
  reserved : m'.sendState = .reserved
  epoch : db'.epochOf m'.runId = some m'.epoch
  round : m'.purpose = .confirmation → m'.round = 0
  free : ∀ j m, db.outbound.get? j = some m → ¬ SameSlot m m'

/-- What a committed transaction does to the outbound messages. -/
inductive MessagesStep (db db' : Db) : Prop
  | same (h : db'.outbound = db.outbound)
  | modified {e : Uuid} {f : Outbound → Outbound} (h : db'.outbound = db.outbound.modify e f)
      (hf : ∀ m, Frozen m (f m))
  | reserved {e : Uuid} {m' : Outbound} (h : db'.outbound = db.outbound.set e m')
      (hm' : Reserved db db' e m')

variable {db db' : Db} {e r : Uuid} {m m' : Outbound} {op : Op}

theorem MessagesStep.stays (h : MessagesStep db db') (hm : db.outbound.get? e = some m) :
    ∃ m', db'.outbound.get? e = some m' ∧ Frozen m m' := by
  cases h with
  | same h => exact ⟨m, by rw [h, hm], .refl m⟩
  | @modified j f h hf =>
      by_cases he : e = j
      · subst he
        exact ⟨f m, by rw [h, Dict.get?_modify_self hm], hf m⟩
      · exact ⟨m, by rw [h, Dict.get?_modify_of_ne _ he, hm], .refl m⟩
  | @reserved j m'' h hm'' =>
      have he : e ≠ j := by
        rintro rfl
        rw [hm''.new] at hm
        cases hm
      exact ⟨m, by rw [h, Dict.get?_set_of_ne _ he, hm], .refl m⟩

theorem MessagesStep.origin (h : MessagesStep db db') (hm' : db'.outbound.get? e = some m') :
    (∃ m, db.outbound.get? e = some m ∧ Frozen m m') ∨ Reserved db db' e m' := by
  cases h with
  | same h => exact .inl ⟨m', by rw [← h, hm'], .refl m'⟩
  | @modified j f h hf =>
      rw [h, Dict.get?_modify] at hm'
      split at hm'
      · obtain ⟨m, hm, rfl⟩ := Option.map_eq_some_iff.mp hm'
        exact .inl ⟨m, hm, hf m⟩
      · exact .inl ⟨m', hm', .refl m'⟩
  | @reserved j m'' h hm'' =>
      rw [h, Dict.get?_set] at hm'
      split at hm'
      next he =>
        subst he
        cases hm'
        exact .inr hm''
      · exact .inl ⟨m', hm', .refl m'⟩

/-- The unique slot index. Confirmations have only their first round. -/
structure Slots (db : Db) : Prop where
  unique : ∀ i j m m', db.outbound.get? i = some m → db.outbound.get? j = some m' →
    SameSlot m m' → i = j
  confirmation : ∀ i m, db.outbound.get? i = some m → m.purpose = .confirmation → m.round = 0

theorem Frozen.slot_iff {m₁ m₁' : Outbound} (h : Frozen m m') (h₁ : Frozen m₁ m₁') :
    SameSlot m' m₁' ↔ SameSlot m m₁ := by
  constructor
  · rintro ⟨hrun, hpurpose, hround, hepoch⟩
    exact ⟨by rw [← h.runId, hrun, h₁.runId], by rw [← h.purpose, hpurpose, h₁.purpose],
      by rw [← h.round, hround, h₁.round], by rw [← h.epoch, hepoch, h₁.epoch]⟩
  · rintro ⟨hrun, hpurpose, hround, hepoch⟩
    exact ⟨by rw [h.runId, hrun, h₁.runId], by rw [h.purpose, hpurpose, h₁.purpose],
      by rw [h.round, hround, h₁.round], by rw [h.epoch, hepoch, h₁.epoch]⟩

theorem SameSlot.symm (h : SameSlot m m') : SameSlot m' m :=
  ⟨h.runId.symm, h.purpose.symm, h.round.symm, h.epoch.symm⟩

theorem MessagesStep.new_unique (h : MessagesStep db db') {i j : Uuid} (hi : db.outbound.get? i = none)
    (hj : db.outbound.get? j = none) (hm : db'.outbound.get? i = some m)
    (hm' : db'.outbound.get? j = some m') : i = j := by
  cases h with
  | same h => simp [h, hi] at hm
  | modified h => simp [h, Dict.get?_modify, hi] at hm
  | @reserved e m'' h =>
      rw [h, Dict.get?_set] at hm hm'
      split at hm
      next hie =>
        split at hm'
        next hje => rw [hie, hje]
        · simp [hj] at hm'
      · simp [hi] at hm

theorem slots_step (h : MessagesStep db db') (hslots : Slots db) : Slots db' := by
  refine ⟨fun i j m m' hm hm' hsame => ?_, fun i m hm hpurpose => ?_⟩
  · rcases h.origin hm with ⟨m₀, hm₀, hfrozen⟩ | hnew <;>
      rcases h.origin hm' with ⟨m₁, hm₁, hfrozen'⟩ | hnew'
    · exact hslots.unique i j m₀ m₁ hm₀ hm₁ ((hfrozen.slot_iff hfrozen').mp hsame)
    · exact absurd ((hfrozen.slot_iff (.refl m')).mp hsame) (hnew'.free i m₀ hm₀)
    · exact absurd ((hfrozen'.slot_iff (.refl m)).mp hsame.symm) (hnew.free j m₁ hm₁)
    · exact h.new_unique hnew.new hnew'.new hm hm'
  · rcases h.origin hm with ⟨m₀, hm₀, hfrozen⟩ | hnew
    · rw [hfrozen.round]
      exact hslots.confirmation i m₀ hm₀ (by rw [← hfrozen.purpose, hpurpose])
    · exact hnew.round hpurpose

theorem findSlot_none {purpose : Purpose} {round n : Nat} (hepoch : db.epochOf r = some n)
    (h : findSlot db r purpose round = none) {j : Uuid} (hm : db.outbound.get? j = some m)
    (hrun : m.runId = r) (hpurpose : m.purpose = purpose) (hround : m.round = round) : m.epoch ≠ n := by
  have hslot := Dict.select_none.mp h j m hm
  intro hn
  simp [hrun, hpurpose, hround, hepoch, hn] at hslot

theorem epochOf_modify {db₁ : Db} {f : Run → Run} {n : Nat} (h : db₁.runs = db.runs.modify r f)
    (hf : ∀ run, (f run).replyEpoch = run.replyEpoch) (hepoch : db.epochOf r = some n) :
    db₁.epochOf r = some n := by
  obtain ⟨run, hrun, rfl⟩ := Option.map_eq_some_iff.mp hepoch
  rw [Db.epochOf, h, Dict.get?_modify_self hrun, Option.map_some, hf]

theorem step_reserve (db₁ : Db) {purpose : Purpose} {round n : Nat} {envelope : Envelope}
    (hfresh : db.outbound.Below db.nextId) (hid : db.nextId ≤ db₁.nextId)
    (hout : db₁.outbound = db.outbound) (hepoch : db₁.epochOf r = some n)
    (hepoch' : db'.epochOf r = some n) (hround : purpose = .confirmation → round = 0)
    (h : db'.outbound = (reserveOutboundSnapshot r purpose round envelope db₁).2.outbound) :
    MessagesStep db db' := by
  unfold reserveOutboundSnapshot at h
  split at h
  · exact .same (h.trans hout)
  next hfree =>
    rw [Db.insertOutbound, hout, hepoch, Option.getD_some] at h
    refine .reserved h ⟨hfresh _ (Nat.le_succ_of_le hid), rfl, hepoch', hround, fun j m hm hsame => ?_⟩
    exact findSlot_none hepoch hfree (by rwa [hout]) hsame.runId hsame.purpose hsame.round hsame.epoch

section

variable [PyText] {env : Env} {a : Ans op}

theorem step_sent (r e : Uuid) (purpose : Purpose) {db₁ : Db} (hout : db₁.outbound = db.outbound)
    (h : db'.outbound = (settleSent r e purpose db₁).outbound) : MessagesStep db db' := by
  rw [settleSent_outbound, hout] at h
  exact .modified h fun m => ⟨rfl, rfl, rfl, rfl, rfl, .inr rfl⟩

/-- Every committed transaction steps the messages, where a question is of a
stored run and no confirmation. -/
theorem messagesStep (h : Effect env db op a db') (hfresh : Fresh db)
    (hasked : ∀ r q, op = .reserveClarification r q →
      q.purpose ≠ .confirmation ∧ ∃ run, db.runs.get? r = some run) :
    MessagesStep db db' := by
  cases h with
  | idle => exact .same rfl
  | leased => exact .same rfl
  | reapedInvalid => exact .same rfl
  | reapedReview => exact .same rfl
  | reapedRun => exact .same (setRunError_outbound ..)
  | reapedJob => exact .same rfl
  | retired => exact .same rfl
  | @recorded job result row r e m =>
      have hsame : db.outbound = db.outbound := rfl
      exact step_sent r e m.purpose hsame rfl
  | expired => exact .same rfl
  | @sent job result row r e m run h handoff =>
      have hsame : (appendDeliveryAttempt e .sent .none (releaseHandoff h .finalized db)).outbound =
          db.outbound := rfl
      exact step_sent r e m.purpose hsame rfl
  | rescheduled => exact .same rfl
  | reviewed => exact .same rfl
  | closed => exact .same rfl
  | requeued => exact .same rfl
  | failed => exact .same (setRunError_outbound ..)
  | released => exact .same rfl
  | handedOver => exact .same rfl
  | handedAgain => exact .same rfl
  | adopted => exact .same rfl
  | claimed => exact .same rfl
  | statusSet => exact .same rfl
  | rewound => exact .same rfl
  | consumed => exact .same rfl
  | fieldsSet => exact .same rfl
  | candidatesSet => exact .same rfl
  | persisted => exact .same (persistStages_outbound ..)
  | escalated => exact .same rfl
  | finalized => exact .same rfl
  | @replayed r e =>
      have hsame : (enqueueSend r e db).outbound = db.outbound := enqueueSend_outbound ..
      exact .same hsame
  | @reserved r q =>
      obtain ⟨hquestion, run, hrun⟩ := hasked r q rfl
      have hepoch : db.epochOf r = some run.replyEpoch := by rw [Db.epochOf, hrun, Option.map_some]
      obtain ⟨f, hf, hcolumns⟩ := reserveClarification_runs r q db
      have hepoch' := epochOf_modify hf (fun run => (hcolumns run).2.1) hepoch
      exact step_reserve db hfresh.outbound le_rfl rfl hepoch hepoch'
        (fun hq => absurd hq hquestion) (reserveClarification_outbound r q db)
  | redelivered => exact .same (authorizedReplyJob_outbound ..)
  | unknown => exact .same rfl
  | created => exact .same (enqueueJob_outbound ..)
  | late => exact .same rfl
  | replied => exact .same (authorizedReplyJob_outbound ..)
  | prepared => exact .same rfl
  | @approved r hstatus =>
      obtain ⟨run, hrun, -⟩ := Option.map_eq_some_iff.mp hstatus
      have hepoch : (setStatus r .approved db).epochOf r = some run.replyEpoch :=
        epochOf_modify (Db.modifyRun_runs ..) (fun _ => rfl) (by rw [Db.epochOf, hrun, Option.map_some])
      have hepoch' : (deliver r env.envelope (setStatus r .approved db)).epochOf r =
          some run.replyEpoch := by
        obtain hdeliver | hdeliver := deliver_runs r env.envelope (setStatus r .approved db)
        · rwa [Db.epochOf, hdeliver]
        · exact epochOf_modify hdeliver (fun _ => rfl) hepoch
      obtain hsame | hreserve := deliver_outbound r env.envelope (setStatus r .approved db)
      · exact .same hsame
      · exact step_reserve (setStatus r .approved db) hfresh.outbound le_rfl rfl hepoch hepoch'
          (fun _ => rfl) hreserve
  | errored => exact .same rfl
  | retriggered _ _ hclaim =>
      obtain ⟨rfl, -⟩ | ⟨rfl, -⟩ := hclaim
      · exact .same (enqueueJob_outbound ..)
      · exact .same (enqueueJob_outbound ..)
  | markedDelivered _ hresolve =>
      obtain ⟨handoffs, rfl⟩ := resolve_frame hresolve
      exact .same rfl
  | @authorizedNew r e m db₁ hload hresolve =>
      obtain ⟨run, hreview⟩ := loadDeliveryReview_some hload
      have hresolved : db₁.runs = (setStatus r .approved db).runs ∧ db₁.outbound = db.outbound ∧
          db₁.nextId = db.nextId := by
        obtain ⟨handoffs, rfl⟩ := resolve_frame hresolve
        exact ⟨rfl, rfl, rfl⟩
      obtain ⟨hruns, hout, hid⟩ := hresolved
      have hrun : db₁.runs.get? r = some { run with status := .approved, updatedAt := db.now } := by
        rw [hruns]
        exact Dict.get?_modify_self hreview.found _
      have hepoch : (db₁.modifyRun r (openEpoch db₁.now)).epochOf r = some (run.replyEpoch + 1) := by
        rw [Db.epochOf, Db.modifyRun_runs, Dict.get?_modify_self hrun]
        rfl
      have hepoch' : (replaceConfirmation r m.snapshot.envelope
          (db₁.modifyRun r (openEpoch db₁.now))).epochOf r = some (run.replyEpoch + 1) := by
        simpa [Db.epochOf, replaceConfirmation] using hepoch
      exact step_reserve (db₁.modifyRun r (openEpoch db₁.now)) hfresh.outbound hid.ge hout hepoch
        hepoch' (fun _ => rfl) (enqueueSend_outbound ..)
  | @finishedReview r e m target acknowledge hload =>
      cases acknowledge with
      | false => exact .same rfl
      | true =>
          refine .modified (Db.modifyOutbound_outbound e _ (setStatus r target db)) fun m => ?_
          split
          · exact ⟨rfl, rfl, rfl, rfl, rfl, .inl rfl⟩
          · exact .refl m
  | advanced => exact .same rfl
  | resolved => exact .same (enqueueJob_outbound ..)
  | passed => exact .same rfl

end

end PayrollAgent.MessageSteps
