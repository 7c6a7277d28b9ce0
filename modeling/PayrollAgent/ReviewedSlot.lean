import PayrollAgent.ConfirmationIdentity
import PayrollAgent.DeliveryReview
import PayrollAgent.RunWrites

namespace PayrollAgent.ReviewedSlot

open Lib Repo AliasLearning RunStages Delivery RunRoutes ClarificationWrites Ingest Handlers Effects
  RunSteps Conduct
  FreshIds Bookkeeping Drives MessageSteps ConfirmationIdentity Commits BoundedQuestions
    DeliveryReview RunWrites

/-- The reservation whose settlement began the current stay with the operator,
as the ledger of that commit names it. -/
def reviewedSlot (r : Uuid) (log : List Commit) : Option Uuid :=
  (entrance r log).bind fun c =>
    if settlesSend c.op then (c.after.attempts.drop c.before.attempts.length).head?.map
      DeliveryAttempt.emailId
    else none

structure Review (db : Db) (r e : Uuid) (m : Outbound) (run : Run) : Prop
    extends UnderReview db r (reviewReason m.purpose) e m run where
  reserved : m.sendState = .reserved
  detail : ∃ category, run.errorDetail = some (.deliveryReview category) ∧ category ≠ .none

def triedBefore (flipped : Bool) : Purpose → List Purpose
  | .clarification => if flipped then [.clarificationFieldRegression] else []
  | .clarificationFieldRegression => if flipped then [] else [.clarification]
  | .confirmation => []

/-- The reservation is of the first round, no other unconfirmed one of that
round is tried before it, and nobody has acknowledged it. -/
structure FoundFirst (db : Db) (r e : Uuid) (flipped : Bool) (m : Outbound) : Prop where
  round : m.round = 0
  unacknowledged : m.operatorAcknowledgedAt = none
  alone : ∀ purpose ∈ triedBefore flipped m.purpose, getUnconfirmedOutbound db r purpose 0 = none
  ledger : (db.attempts.filter (·.emailId = e)).length ≤ 100

variable {db db' : Db} {r e : Uuid} {m m' : Outbound} {run : Run} {flipped : Bool}

theorem unconfirmed_some {purpose : Purpose} {round : Nat}
    (h : getUnconfirmedOutbound db r purpose round = some (e, m)) :
    db.outbound.get? e = some m ∧ m.purpose = purpose ∧ m.round = round := by
  obtain ⟨hslot, -⟩ := Option.filter_eq_some_iff.mp h
  obtain ⟨hm, hown⟩ := Dict.select_some hslot
  rw [decide_eq_true_eq] at hown
  exact ⟨hm, hown.2.1, hown.2.2.1⟩

theorem Review.unconfirmed (h : Review db r e m run) (hslots : Slots db) :
    getUnconfirmedOutbound db r m.purpose m.round = some (e, m) := by
  have hepoch : db.epochOf r = some m.epoch := by rw [epochOf_stored h.found, h.epoch]
  obtain ⟨⟨e', m'⟩, hslot⟩ := Dict.select_isSome (p := fun _ m' =>
      m'.runId = r ∧ m'.purpose = m.purpose ∧ m'.round = m.round ∧ some m'.epoch = db.epochOf r) h.message
    (decide_eq_true ⟨h.own, rfl, rfl, hepoch.symm⟩)
  obtain ⟨hm', hown⟩ := Dict.select_some hslot
  rw [decide_eq_true_eq] at hown
  obtain ⟨hrun, hpurpose, hround, hepoch'⟩ := hown
  have hsame : SameSlot m' m :=
    ⟨hrun.trans h.own.symm, hpurpose, hround, Option.some.inj (hepoch'.trans hepoch)⟩
  obtain rfl := hslots.unique e' e m' m hm' h.message hsame
  obtain rfl := Option.some.inj (hm'.symm.trans h.message)
  rw [getUnconfirmedOutbound, findSlot, hslot, Option.filter_some, if_pos (by simp [h.reserved])]

/-- What the loader tries ends with the purpose of the reservation, or goes past
it. -/
theorem purposes_of_review (flipped : Bool) (purpose : Purpose) : ∃ kind rest,
    deliveryReviewPurposes flipped (reviewReason purpose) =
    some (kind, triedBefore flipped purpose ++ purpose :: rest) ∧
      purpose ∉ triedBefore flipped purpose := by
  cases purpose with
  | confirmation => exact ⟨_, [], rfl, List.not_mem_nil⟩
  | clarification =>
      cases flipped with
      | false => exact ⟨_, [.clarificationFieldRegression], rfl, List.not_mem_nil⟩
      | true => exact ⟨_, [], rfl, by decide⟩
  | clarificationFieldRegression =>
      cases flipped with
      | false => exact ⟨_, [], rfl, by decide⟩
      | true => exact ⟨_, [.clarification], rfl, List.not_mem_nil⟩

theorem findSome_append {α β : Type} {f : α → Option β} {before after : List α} {x : α}
    (h : ∀ y ∈ before, f y = none) :
    (before ++ x :: after).findSome? f = (x :: after).findSome? f := by
  rw [List.findSome?_append, List.findSome?_eq_none_iff.mpr h, Option.none_or]

theorem mem_earlier {α : Type} {before after earlier later : List α} {x y : α} (hnot : x ∉ before)
    (h : before ++ x :: after = earlier ++ x :: later) (hy : y ∈ before) : y ∈ earlier := by
  rcases List.append_eq_append_iff.mp h with ⟨as, rfl, -⟩ | ⟨bs, rfl, hbs⟩
  · exact List.mem_append_left _ hy
  · cases bs with
    | nil => simpa using hy
    | cons b bs =>
        obtain ⟨rfl, -⟩ := List.cons.inj hbs
        exact absurd (List.mem_append_right _ (List.mem_cons_self ..)) hnot

/-- The loader finds the reviewed reservation just where it is of the first
round and found first. -/
theorem Review.loaded_iff (h : Review db r e m run) (hslots : Slots db) :
    (∃ kind, loadDeliveryReview r flipped db = some (kind, e, m) ∧ m.operatorAcknowledgedAt = none) ↔
      FoundFirst db r e flipped m := by
  obtain ⟨category, hdetail, hcategory⟩ := h.detail
  obtain ⟨kind, rest, hpurposes, hnot⟩ := purposes_of_review flipped m.purpose
  have hload : loadDeliveryReview r flipped db =
      ((triedBefore flipped m.purpose ++ m.purpose :: rest).findSome?
      (getUnconfirmedOutbound db r · 0)).bind fun x =>
        if run.status = .needsOperator ∧ (db.attempts.filter (·.emailId = x.1)).length ≤ 100 then
          some (kind, x.1, x.2)
        else none := by
    simp only [loadDeliveryReview, h.found, h.reason, hdetail, hpurposes, reviewDetail, if_neg hcategory,
      Option.bind_eq_bind, Option.bind_some]
  rw [hload]
  constructor
  · rintro ⟨kind', hfound, hunacknowledged⟩
    obtain ⟨⟨e', m''⟩, hfirst, hopen⟩ := Option.bind_eq_some_iff.mp hfound
    split at hopen
    next hledger =>
      cases hopen
      obtain ⟨earlier, purpose, later, hsplit, hfound, hnone⟩ := List.findSome?_eq_some_iff.mp hfirst
      obtain ⟨-, rfl, hround⟩ := unconfirmed_some hfound
      exact ⟨hround, hunacknowledged, fun purpose hpurpose => hnone purpose
        (mem_earlier hnot hsplit hpurpose), hledger.2⟩
    · cases hopen
  · intro hround
    refine ⟨kind, ?_, hround.unacknowledged⟩
    have hself : getUnconfirmedOutbound db r m.purpose 0 = some (e, m) :=
      hround.round ▸ h.unconfirmed hslots
    rw [findSome_append hround.alone, List.findSome?_cons, hself]
    exact if_pos ⟨h.status, hround.ledger⟩

section

variable [PyText] {env : Env} {op : Op} {a : Ans op} {s : Work} {i : Nat} {log : List Commit}

/-- No transaction writes a message of a run that goes on waiting for its
operator. -/
theorem message_stays (h : Effect env db op a db') (hfresh : Fresh db) (hrule : s.rule op)
    (hm : db.outbound.get? e = some m) (hwaits : db.statusOf m.runId = some .needsOperator)
    (hwaits' : db'.statusOf m.runId = some .needsOperator) : db'.outbound.get? e = some m := by
  cases messageWrite h hfresh hm with
  | kept hkept => exact hkept
  | sent howed =>
      obtain ⟨-, hown, hrun, -, -, hstatus⟩ := deliveryContext_some howed
      rw [hown, statusOf_some hrun, hstatus] at hwaits
      cases hpurpose : m.purpose <;> rw [hpurpose] at hwaits <;> cases hwaits
  | acknowledged hop hmoved =>
      subst hop
      obtain rfl := Option.some.inj (hmoved.symm.trans hwaits')
      cases hrule with
      | inl h => cases h
      | inr h => cases h

omit [PyText] in
theorem epoch_waits {run' : Run} (h : RunStep db r run op a run')
    (hwaits : run'.status = .needsOperator) : run'.replyEpoch = run.replyEpoch := by
  cases h with
  | kept hkept => exact hkept.epoch
  | fieldsSet => rfl
  | driven _ hmoved => exact hmoved.epoch
  | claimed _ hmoved => exact hmoved.epoch
  | rewound _ hmoved => exact hmoved.epoch
  | approved _ hmoved => exact hmoved.epoch
  | failed _ _ hmoved => exact hmoved.epoch
  | requeued _ _ _ hmoved => exact hmoved.epoch
  | retriggered _ _ hreopened =>
      rw [hreopened.status] at hwaits
      cases hwaits
  | reconciled _ hmoved => exact hmoved.epoch
  | reviewed _ _ hmoved => exact hmoved.epoch
  | markedDelivered _ _ hmoved => exact hmoved.epoch
  | authorizedNew _ _ hreopened =>
      rw [hreopened.status] at hwaits
      cases hwaits
  | finishedReview _ _ hmoved => exact hmoved.epoch

omit [PyText] in
theorem detail_waits {run' : Run} (h : RunWrite db op db') (hrun : db.runs.get? r = some run)
    (hrun' : db'.runs.get? r = some run') (hwaits : run.status = .needsOperator)
    (hwaits' : run'.status = .needsOperator) : run'.errorDetail = run.errorDetail := by
  cases h with
  | same hruns =>
      rw [hruns, hrun] at hrun'
      obtain rfl := Option.some.inj hrun'
      rfl
  | wrote r' f hruns hf =>
      rw [hruns] at hrun'
      by_cases hr : r = r'
      · subst hr
        rw [Dict.get?_modify_self hrun] at hrun'
        obtain rfl := Option.some.inj hrun'
        rcases hf.detail run hrun hwaits with hsame | herror
        · exact hsame
        · rw [herror] at hwaits'
          cases hwaits'
      · rw [Dict.get?_modify_of_ne _ hr, hrun] at hrun'
        obtain rfl := Option.some.inj hrun'
        rfl
  | created r' businessId hruns hnew =>
      have hr : r ≠ r' := by
        rintro rfl
        rw [hnew] at hrun
        cases hrun
      rw [hruns, Dict.get?_set_of_ne _ hr, hrun] at hrun'
      obtain rfl := Option.some.inj hrun'
      rfl

theorem Review.stays (hreview : Review db r e m run) (h : Effect env db op a db')
    (hfresh : Fresh db) (hrule : s.rule op)
    (hwaits' : db'.statusOf r = some .needsOperator) : ∃ run', Review db' r e m run' := by
  obtain ⟨run', hrun', hstep⟩ := runStep h hfresh.runs hreview.found
  have hstatus' : run'.status = .needsOperator := by
    rw [statusOf_some hrun'] at hwaits'
    exact Option.some.inj hwaits'
  have hbefore : db.statusOf m.runId = some .needsOperator := by
    rw [hreview.own, statusOf_some hreview.found, hreview.status]
  have hreason : run'.errorReason = run.errorReason := by
    cases waits h hfresh hrule hreview.found hrun' hstatus' with
    | stays _ hreason => exact hreason
    | escalated _ hreason => exact hreason
    | reviewed _ _ hnot => exact absurd hreview.status hnot
  have hdetail := detail_waits (runWrite h hfresh) hreview.found hrun' hreview.status hstatus'
  have hepoch := epoch_waits hstep hstatus'
  refine ⟨run', ⟨hrun', hstatus', hreason.trans hreview.reason, ?_, hreview.own,
    hreview.epoch.trans hepoch.symm⟩, hreview.reserved, hdetail ▸ hreview.detail⟩
  exact message_stays h hfresh hrule hreview.message hbefore (hreview.own.symm ▸ hwaits')

/-- The commit takes the run to its operator, and its ledger names the message. -/
structure Enters (db db' : Db) (r e : Uuid) : Prop where
  before : db.statusOf r ≠ some .needsOperator
  after : db'.statusOf r = some .needsOperator
  ledger : (db'.attempts.drop db.attempts.length).head?.map DeliveryAttempt.emailId = some e

omit [PyText] in
theorem Enters.not_same (h : Enters db db' r e) (hruns : db'.runs = db.runs) : False := by
  have hsame : db'.statusOf r = db.statusOf r := by rw [Db.statusOf, Db.statusOf, hruns]
  exact h.before (hsame ▸ h.after)

omit [PyText] in
theorem Enters.of_modify {r' : Uuid} {f : Run → Run} (h : Enters db db' r e)
    (hruns : db'.runs = db.runs.modify r' f) :
    r' = r ∧ ∀ run, db.runs.get? r = some run → (f run).status = .needsOperator := by
  by_cases hr : r = r'
  · subst hr
    refine ⟨rfl, fun run hrun => ?_⟩
    have hafter := h.after
    rw [Db.statusOf, hruns, Dict.get?_modify_self hrun] at hafter
    exact Option.some.inj hafter
  · have hsame : db'.statusOf r = db.statusOf r := by
      rw [Db.statusOf, Db.statusOf, hruns, Dict.get?_modify_of_ne _ hr]
    exact absurd (hsame ▸ h.after) h.before

omit [PyText] in
theorem Enters.review {r' e' : Uuid} {m' : Outbound} {run : Run} {category : FailureCategory}
    (h : Enters db db' r e)
    (howed : deliveryContext db r' e' = some (m', run)) (hcategory : category ≠ .none)
    (hruns : db'.runs = (enterDeliveryReview r' e' m'.purpose category db).runs)
    (hledger : db'.attempts = db.attempts ++ [⟨e', .needsOperator, category⟩])
    (hout : db'.outbound = db.outbound) : ∃ m run', Review db' r e m run' := by
  obtain ⟨hm, hown, hrun, hreserved, hepoch, -⟩ := deliveryContext_some howed
  obtain ⟨rfl, -⟩ := h.of_modify (hruns.trans (enterDeliveryReview_runs ..))
  have hledger' := h.ledger
  rw [hledger, List.drop_left] at hledger'
  obtain rfl := Option.some.inj hledger'
  rw [enterDeliveryReview_runs] at hruns
  have hfound := (congrArg (Dict.get? · r') hruns).trans (Dict.get?_modify_self hrun _)
  exact ⟨m', _, ⟨hfound, rfl, rfl, hout ▸ hm, hown, hepoch⟩, hreserved, category, rfl, hcategory⟩

theorem Enters.not_sent {db₁ : Db} {r' e' : Uuid} {m' : Outbound} {run' : Run} (h : Enters db db' r e)
    (howed : deliveryContext db r' e' = some (m', run')) (hruns : db₁.runs = db.runs)
    (hnow : db₁.now = db.now) (h' : db'.runs = (settleSent r' e' m'.purpose db₁).runs) : False := by
  rw [settleSent_runs, hruns, hnow] at h'
  split at h'
  · obtain ⟨-, -, hrun, -⟩ := deliveryContext_some howed
    obtain ⟨rfl, hstatus⟩ := h.of_modify h'
    cases hstatus run' hrun
  · exact h.not_same h'

omit [PyText] in
theorem failureCategory_ne_none (result : PipelineResult) : deliveryFailureCategory result ≠ .none := by
  unfold deliveryFailureCategory
  split <;> decide

/-- A settlement or a reaping that takes the run to its operator puts the
message of its ledger entry under review. -/
theorem review_of_enters (h : Effect env db op a db') (hsettles : settlesSend op = true)
    (henters : Enters db db' r e) : ∃ m run, Review db' r e m run := by
  cases h with
  | idle => exact (henters.not_same rfl).elim
  | reapedInvalid => exact (henters.not_same rfl).elim
  | reapedReview _ _ _ howned => exact henters.review howned.owed (by decide) rfl rfl rfl
  | reapedRun _ _ _ hstatus =>
      obtain ⟨run, hrun, -⟩ := Option.map_eq_some_iff.mp hstatus
      obtain ⟨rfl, herror⟩ := henters.of_modify (setRunError_runs hstatus)
      cases herror run hrun
  | reapedJob => exact (henters.not_same rfl).elim
  | retired => exact (henters.not_same rfl).elim
  | recorded hctx => exact (henters.not_sent hctx.owed rfl rfl rfl).elim
  | expired hctx => exact henters.review hctx.owed (failureCategory_ne_none _) rfl rfl rfl
  | @sent job result row r e m run i handoff hctx =>
      have hruns : (appendDeliveryAttempt e .sent .none (releaseHandoff i .finalized db)).runs =
        db.runs := rfl
      have hnow : (appendDeliveryAttempt e .sent .none (releaseHandoff i .finalized db)).now =
        db.now := rfl
      exact (henters.not_sent hctx.owed hruns hnow rfl).elim
  | rescheduled => exact (henters.not_same rfl).elim
  | reviewed hctx => exact henters.review hctx.owed (failureCategory_ne_none _) rfl rfl rfl
  | _ => cases hsettles

/-- Every run that its operator holds for a reviewed reservation stands under
review with it. -/
def Reviewed (db : Db) (log : List Commit) : Prop :=
  ∀ r e, db.statusOf r = some .needsOperator → reviewedSlot r log = some e → ∃ m run, Review db r e m run

theorem reviewed_commit (hreviewed : Reviewed db log) (h : Effect env db op a db')
    (hfresh : Fresh db) (hrule : s.rule op) : Reviewed db' (⟨i, op, a, db, db'⟩ :: log) := by
  intro r e hwaits hslot
  by_cases hbefore : db.statusOf r = some .needsOperator
  · have henters : enters r ⟨i, op, a, db, db'⟩ = false := by simp [enters, hbefore]
    rw [reviewedSlot, entrance, List.find?_cons_of_neg (by rw [henters]; simp)] at hslot
    obtain ⟨m, run, hreview⟩ := hreviewed r e hbefore hslot
    obtain ⟨run', hreview'⟩ := hreview.stays h hfresh hrule hwaits
    exact ⟨m, run', hreview'⟩
  · have henters : enters r ⟨i, op, a, db, db'⟩ = true := by simp [enters, hbefore, hwaits]
    rw [reviewedSlot, entrance, List.find?_cons_of_pos henters, Option.bind_some] at hslot
    dsimp only at hslot
    split at hslot
    next hsettles => exact review_of_enters h hsettles ⟨hbefore, hwaits, hslot⟩
    · cases hslot

/-- No run waits for its operator yet, and the slots are unique. -/
structure Prepared (db : Db) : Prop extends Unescalated db where
  slots : Slots db

structure Inv (db : Db) (log : List Commit) : Prop where
  fresh : Fresh db
  slots : Slots db
  reviewed : Reviewed db log

theorem inv_exec (hinv : Inv db log) (hworking : Working s db) (hop : s.allows op) :
    Inv (exec env op db).2 (commits i env op db ++ log) := by
  apply exec_recorded hinv
  intro a db' htxn
  have heffect := txn_effect htxn
  exact ⟨fresh_step heffect hinv.fresh,
    slots_step (messagesStep_of_allows heffect hinv.fresh hworking hop) hinv.slots,
    reviewed_commit hinv.reviewed heffect hinv.fresh hop.1⟩

theorem preserved : World.Preserved recorder thread World.Rules.any Prepared conduct Work.fresh Inv
    (fun _ s db _ => Working s db) where
  init _ h := ⟨h.fresh, h.slots, fun r _ hwaits => absurd hwaits (h.none r)⟩
  follows k _ := thread_follows k
  fresh _ _ _ _ := nofun
  shared _ _ _ _ _ _ hinv hworking hop _ := inv_exec hinv hworking hop
  own _ _ _ _ _ _ hinv hworking hop _ := working_own hinv.fresh hworking hop
  other _ _ _ _ _ _ hinv _ _ _ _ _ _ ht := working_other hinv.fresh ht

/-- The operator page finds the reservation under review just where it is of
the first round and no other unconfirmed one is found before it. -/
theorem review_found_iff {w : World Op Ans Exn Db Commit}
    (hreach : World.Reach recorder thread World.Rules.any Prepared w)
    (hwaits : w.data.statusOf r = some .needsOperator) (hslot : reviewedSlot r w.log = some e) :
    ∃ m, w.data.outbound.get? e = some m ∧
      ((∃ kind, loadDeliveryReview r flipped w.data = some (kind, e, m) ∧
      m.operatorAcknowledgedAt = none) ↔ FoundFirst w.data r e flipped m) := by
  have hinv := (preserved.reach hreach).1
  obtain ⟨m, run, hreview⟩ := hinv.reviewed r e hwaits hslot
  exact ⟨m, hreview.message, hreview.loaded_iff hinv.slots⟩

end

section Histories

attribute [local instance] asciiText

theorem prepared_emptyDb : Prepared emptyDb := by
  have hout : ∀ e, emptyDb.outbound.get? e = none := fun _ => rfl
  refine ⟨unescalated_emptyDb, fun i j m m' hm => ?_, fun i m hm => ?_⟩
  · rw [hout] at hm
    cases hm
  · rw [hout] at hm
    cases hm

/-- The first question is marked handled and answered, and the send of the next
one fails too. -/
def reviewedAgain : List (Event Thread Env) :=
  reviewed ++ [.spawn (.markHandled 11), .run 3 {}] ++ arrives 4 40 (some 14) ++ works 5 26 20 silent ++
    sendFails 6 24

/-- The page of the second review shows the first question, which the operator
has acknowledged. -/
theorem other_slot_loaded : ¬ ∀ (w : World Op Ans Exn Db Commit) r e flipped,
    World.Reach recorder thread World.Rules.any Prepared w → w.data.statusOf r = some .needsOperator →
      reviewedSlot r w.log = some e →
        ∃ kind m, loadDeliveryReview r flipped w.data = some (kind, e, m) ∧
        m.operatorAcknowledgedAt = none := by
  intro h
  have hreach := reach_recordedAfter prepared_emptyDb reviewedAgain
  have hwaits : (recordedAfter emptyDb reviewedAgain).data.statusOf 11 = some .needsOperator := by
    decide +kernel
  have hslot : reviewedSlot 11 (recordedAfter emptyDb reviewedAgain).log = some 23 := by decide +kernel
  have hloaded : ((loadDeliveryReview 11 false (recordedAfter emptyDb reviewedAgain).data).map
    fun x => x.2.1) = some 15 := by
    decide +kernel
  generalize recordedAfter emptyDb reviewedAgain = w at *
  obtain ⟨kind, m, hload, -⟩ := h w 11 23 false hreach hwaits hslot
  rw [hload] at hloaded
  cases hloaded

/-- The first review is found. -/
theorem review_found_first : ∃ kind m,
    loadDeliveryReview 11 false (recordedAfter emptyDb reviewed).data = some (kind, 15, m) ∧
      m.operatorAcknowledgedAt = none := by
  have hreach := reach_recordedAfter prepared_emptyDb reviewed
  have hwaits : (recordedAfter emptyDb reviewed).data.statusOf 11 = some .needsOperator := by
    decide +kernel
  have hslot : reviewedSlot 11 (recordedAfter emptyDb reviewed).log = some 15 := by decide +kernel
  have hfirst : ((recordedAfter emptyDb reviewed).data.outbound.get? 15).all fun m =>
      m.round = 0 && m.operatorAcknowledgedAt = none && m.purpose = .clarification := by
    decide +kernel
  have hledger : ((recordedAfter emptyDb reviewed).data.attempts.filter
    (·.emailId = 15)).length ≤ 100 := by
    decide +kernel
  generalize recordedAfter emptyDb reviewed = w at *
  obtain ⟨m, hm, hfound⟩ := @review_found_iff _ _ false _ _ hreach hwaits hslot
  rw [hm, Option.all_some] at hfirst
  simp only [Bool.and_eq_true, decide_eq_true_eq] at hfirst
  obtain ⟨⟨hround, hunacknowledged⟩, hpurpose⟩ := hfirst
  have halone : ∀ purpose ∈ triedBefore false m.purpose, getUnconfirmedOutbound w.data 11 purpose
    0 = none := by
    intro purpose hp
    rw [hpurpose] at hp
    cases hp
  obtain ⟨kind, hload⟩ := hfound.mpr ⟨hround, hunacknowledged, halone, hledger⟩
  exact ⟨kind, m, hload⟩

end Histories

end PayrollAgent.ReviewedSlot
