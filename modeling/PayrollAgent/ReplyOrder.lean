import PayrollAgent.OutcomeOrder
import PayrollAgent.ReplyFences

namespace PayrollAgent.ReplyOrder

open Lib History Repo Resume Effects RunSteps FreshIds JobSteps Conduct Bookkeeping Handlers Drives
  ReplyJobs SingleDriver ReplyFences
open ReplyReads (Reader reader)

def isFields (i : Nat) (r : Uuid) : Note → Bool
  | .fields i' r' _ _ => i' = i ∧ r' = r
  | _ => false

/-- The note records the question about the field. -/
def asks (r id : Uuid) (f : HoursField) : Note → Bool
  | .fields _ r' before after =>
      r' = r ∧ before.outcome id f ≠ some .asked ∧ after.outcome id f = some .asked
  | _ => false

/-- The question about the field was recorded, and the run was not paused since. -/
def unissued (r id : Uuid) (f : HoursField) (log : List Note) : Bool :=
  since (fun n => !isPause r n) (fun n _ => asks r id f n) log

/-- The thread wrote outcomes after the last claim of the run. -/
def wrote (i : Nat) (r : Uuid) (log : List Note) : Bool :=
  since (fun n => (claimant r n).isNone) (fun n _ => isFields i r n) log

/-- The note is a pause of the run under a lease of the job. -/
def pausesUnder (r j : Uuid) : Note → List Note → Bool
  | .paused i r', older => r' = r && (leaseOf i older).any fun job => job.id = j
  | _, _ => false

/-- A resume claims the run only under a job of whose leases none paused it. -/
def ResumedOnce : Note → List Note → Prop
  | .claimed i r, older => ∀ job, leaseOf i older = some job → job.kind = .resumeReply →
      since (fun _ => true) (pausesUnder r job.id) older = false
  | _, _ => True

/-- An outcome that a drive takes from its reply answers a question that was
issued before the reply was stored. -/
def AnsweredInOrder : Note → List Note → Prop
  | .fields i r before after, older => wrote i r older = false → ∀ e, replyOf i older = some e →
      ∀ id f, before.outcome id f = some .asked → after.outcome id f ≠ some .asked →
        unissued r id f older = false ∧ pausedSince e r older = false
  | _, _ => True

/-- The note records a question about some field of the run. -/
def asksAnew (r : Uuid) : Note → Bool
  | .fields _ r' before after =>
      r' = r && (askedPairs after).any fun p => before.outcome p.1 p.2 ≠ some .asked
  | _ => false

/-- A question was recorded since the run was claimed last. -/
def askedSince (r : Uuid) (log : List Note) : Bool :=
  since (fun n => (claimant r n).isNone) (fun n _ => asksAnew r n) log

/-- The jobs that resume a run with a reply are fenced, and no job is retried
that has recorded a question. -/
def inOrder (i : Nat) (env : Env) (db : Db) (log : List Note) : Op → Bool
  | .settlePipelineJob job result =>
      (returns db (.settlePipelineJob job result)).all fun r => !askedSince r log
  | op => fenced i env db log op

/-- A write of a stage comes from the last claimant of the run, which it finds
EXTRACTING. -/
def DrivesOwn (i : Nat) (op : Op) (db : Db) (log : List Note) : Prop :=
  ∀ r, stageWrite op = some r → lastClaimant r log = some i ∧ db.statusOf r = some .extracting

def orderedReplies : World.Rules Op Db Env Note Thread :=
  ⟨fun _ => True, fun i env op db log => DrivesOwn i op db log ∧ inOrder i env db log op = true⟩

structure Begins (db : Db) : Prop where
  fresh : Fresh db
  stored : RepliesStored db

variable {i j : Nat} {r e id : Uuid} {f : HoursField} {job : Job} {db db' : Db} {log : List Note}
    {op : Op} {a : Ans op} {n : Note} {s : Work} {t : Reader}

theorem fields_of_asks (h : n ∈ notes i op db a db') (hasks : asks r id f n = true) :
    ∃ clarified run, op = .setClarifiedFields r clarified ∧ db.runs.get? r = some run ∧
      n = .fields i r run.clarifiedFields clarified := by
  cases noted h with
  | fields hrun =>
      obtain ⟨rfl, -⟩ : _ = r ∧ _ := of_decide_eq_true hasks
      exact ⟨_, _, rfl, hrun, rfl⟩
  | _ => cases hasks

theorem asksAnew_of_asks (h : asks r id f n = true) : asksAnew r n = true := by
  cases n with
  | fields k r' before after =>
      obtain ⟨rfl, hopen, hasked⟩ : r' = r ∧ _ := of_decide_eq_true h
      rw [asksAnew, Bool.and_eq_true, decide_eq_true_eq]
      refine ⟨rfl, List.any_eq_true.mpr ⟨(id, f), (mem_askedPairs _ _ _).mpr hasked,
        decide_eq_true hopen⟩⟩
  | _ => cases h

theorem unissued_of_notes (hasks : ∀ n ∈ notes i op db a db', asks r id f n = false)
    (h : unissued r id f (notes i op db a db' ++ log) = true) : unissued r id f log = true :=
  since_of_append (fun n hn _ => hasks n hn) h

/-- A question that was recorded and not issued is that of the thread that
claimed the run last. -/
def Asking (db : Db) (log : List Note) : Prop :=
  ∀ r run id f, db.runs.get? r = some run → run.clarifiedFields.outcome id f = some .asked →
    unissued r id f log = true → (run.status = .extracting ∨ run.status = .error) ∧
      askedSince r log = true ∧ ∃ i, lastClaimant r log = some i ∧ wrote i r log = true

/-- A run with outcomes on record is stored. -/
def Recorded (db : Db) (log : List Note) : Prop :=
  ∀ i r before after, Note.fields i r before after ∈ log → ∃ run, db.runs.get? r = some run

structure Inv (db : Db) (log : List Note) : Prop extends Leases db log where
  unpaused : Unpaused db log
  asking : Asking db log
  recorded : Recorded db log
  resumedOnce : Each ResumedOnce log
  answered : Each AnsweredInOrder log

/-- The last claimant of a run drives it for a reply that is newer than its
last pause. -/
def NewReply (i : Nat) (s : Work) (log : List Note) : Prop :=
  ∀ r, s.phase.run = some r → lastClaimant r log = some i → ∀ e, replyOf i log = some e →
    pausedSince e r log = false

/-- What a thread was told, and the reply it drives its run for. -/
structure Held (i : Nat) (s : Work × Reader) (log : List Note) : Prop extends Rests i s log where
  newReply : NewReply i s.1 log

theorem fenced_of_inOrder {env : Env} (h : inOrder i env db log op = true) :
    fenced i env db log op = true := by
  cases op with
  | settlePipelineJob job result => rfl
  | _ => exact h

theorem lease_of_pausesUnder {k : Uuid} (h : since (fun _ => true) (pausesUnder r k) log = true) :
    ∃ j newer oldest job', log = newer ++ .paused j r :: oldest ∧
      leaseOf j oldest = some job' ∧ job'.id = k := by
  obtain ⟨newer, n, oldest, hlog, hpauses, -⟩ := since_iff.mp h
  cases n with
  | paused j r' =>
      rw [pausesUnder, Bool.and_eq_true] at hpauses
      obtain rfl : r' = r := of_decide_eq_true hpauses.1
      obtain ⟨job', hjob', hid⟩ := (Option.any_eq_true _ _).mp hpauses.2
      exact ⟨j, newer, oldest, job', hlog, hjob', of_decide_eq_true hid⟩
  | _ => cases hpauses

theorem resumedOnce_claim (hleases : LeasedReplies db log)
    (hnew : ∀ e, replyOf i log = some e → pausedSince e r log = false)
    (hmails : ∀ j job, Note.leased j job ∈ log → job.kind = .resumeReply → job.emailId.isSome) :
    ResumedOnce (.claimed i r) log := by
  intro job hjob hkind
  refine Bool.eq_false_iff.mpr fun hpauses => ?_
  obtain ⟨j, newer, oldest, job', hlog, hjob', hid⟩ := lease_of_pausesUnder hpauses
  obtain ⟨row, hrow, hrowKind, -, hrowMail⟩ := hleases.copied i job (leased_of_leaseOf hjob)
  have hmem : Note.leased j job' ∈ log := by
    rw [hlog]
    exact List.mem_append_right _ (List.mem_cons_of_mem _ (leased_of_leaseOf hjob'))
  obtain ⟨row', hrow', hrowKind', -, hrowMail'⟩ := hleases.copied j job' hmem
  rw [hid, hrow] at hrow'
  obtain rfl := Option.some.inj hrow'
  obtain ⟨e, hmail⟩ := Option.isSome_iff_exists.mp (hmails i job (leased_of_leaseOf hjob) hkind)
  have hpaused := pausedSince_of_lease hleases hlog hjob' (hrowKind'.symm.trans (hrowKind.trans hkind))
    (hrowMail'.symm.trans (hrowMail.trans hmail))
  have hreply : replyOf i log = some e := (replyOf_of_job hjob hkind).trans hmail
  rw [hnew e hreply] at hpaused
  cases hpaused

/-- The first outcomes of a drive are taken from a reply to issued questions. -/
theorem answered_fields (hasking : Asking db log) {run : Run} {after : ClarifiedFields}
    (hrun : db.runs.get? r = some run) (hlast : lastClaimant r log = some i)
    (hnew : ∀ e, replyOf i log = some e → pausedSince e r log = false) :
    AnsweredInOrder (.fields i r run.clarifiedFields after) log := by
  intro hfirst e hreply id f hasked _
  refine ⟨Bool.eq_false_iff.mpr fun hunissued => ?_, hnew e hreply⟩
  obtain ⟨-, -, j, hj, hwrote⟩ := hasking r run id f hrun hasked hunissued
  rw [hlast] at hj
  cases hj
  rw [hfirst] at hwrote
  cases hwrote

theorem run_of_unissued (hrecorded : Recorded db log) (h : unissued r id f log = true) :
    ∃ run, db.runs.get? r = some run := by
  obtain ⟨newer, n, older, rfl, hasks, -⟩ := since_iff.mp h
  cases n with
  | fields k r' before after =>
      obtain ⟨rfl, -⟩ : r' = r ∧ _ := of_decide_eq_true hasks
      exact hrecorded k r' before after (List.mem_append_right _ List.mem_cons_self)
  | _ => cases hasks

section

variable [PyText] {env : Env} {run run' : Run}

theorem recorded_step (hrecorded : Recorded db log) (hfresh : Fresh db) (h : Effect env db op a db') :
    Recorded db' (notes i op db a db' ++ log) := by
  intro k r before after hmem
  obtain hnew | hold := List.mem_append.mp hmem
  · cases noted hnew with
    | fields hrun => exact run_stays h hfresh ⟨_, hrun⟩
  · exact run_stays h hfresh (hrecorded k r before after hold)

omit [PyText] in
theorem asked_before (hstep : RunStep db r run op a run') (hrun : db.runs.get? r = some run)
    (hnotes : ∀ n ∈ notes i op db a db', asks r id f n = false)
    (hasked : run'.clarifiedFields.outcome id f = some .asked) :
    run.clarifiedFields.outcome id f = some .asked := by
  have hcleared : ∀ {c : ClarifiedFields}, c = Dict.empty → c.outcome id f ≠ some .asked := by
    rintro c rfl
    exact fun hasked => by cases hasked
  cases hstep with
  | kept h => rwa [← h.clarified]
  | @fieldsSet clarified a =>
      by_contra hopen
      have hn : Note.fields i r run.clarifiedFields clarified ∈ notes i
        (.setClarifiedFields r clarified) db a db' := by
        rw [notes, hrun]
        exact List.mem_singleton_self _
      have hunasked := hnotes _ hn
      rw [asks, decide_eq_false_iff_not] at hunasked
      exact hunasked ⟨rfl, hopen, hasked⟩
  | driven _ _ hclarified => rwa [← hclarified]
  | claimed _ _ hclarified => rwa [← hclarified]
  | rewound _ _ hclarified => exact absurd hasked (hcleared hclarified)
  | approved _ _ _ hclarified => rwa [← hclarified]
  | failed _ _ _ hclarified => rwa [← hclarified]
  | requeued _ _ _ _ hclarified => rwa [← hclarified]
  | retriggered _ _ hreopened => exact absurd hasked (hcleared hreopened.clarified)
  | reconciled _ _ hclarified => rwa [← hclarified]
  | reviewed _ _ _ _ hclarified => rwa [← hclarified]
  | markedDelivered _ _ _ hclarified => rwa [← hclarified]
  | authorizedNew _ _ hreopened => exact absurd hasked (hcleared hreopened.clarified)
  | finishedReview _ _ _ hclarified => rwa [← hclarified]

/-- A run that asks stays with its driver until it is paused, or fails. -/
theorem busy_after (htxn : txn env op db = .ok (a, db')) (hop : s.allows op)
    (hrun : db.runs.get? r = some run)
    (hstep : RunStep db r run op a run') (hdrives : ∀ t, drives op = some (r, t) → t = .extracting)
    (hissued : ∀ job result, op = .settlePipelineJob job result → returns db op ≠ some r)
    (hasked : run'.clarifiedFields.outcome id f = some .asked)
    (hbusy : run.status = .extracting ∨ run.status = .error) :
    run'.status = .extracting ∨ run'.status = .error := by
  have hcleared : ∀ {c : ClarifiedFields}, c = Dict.empty → c.outcome id f ≠ some .asked := by
    rintro c rfl
    exact fun hasked => by cases hasked
  have hnot : ∀ {t : RunStatus}, run.status = t → t ≠ .extracting → t ≠ .error → False := by
    intro t ht hextracting herror
    obtain hbusy | hbusy := hbusy
    · exact hextracting (ht.symm.trans hbusy)
    · exact herror (ht.symm.trans hbusy)
  have hstep' := hstep
  cases hstep with
  | kept h => rwa [h.status]
  | fieldsSet => exact hbusy
  | driven hdriven hmoved => exact .inl (hmoved.status.trans (hdrives _ hdriven))
  | claimed hexpected hmoved =>
      exfalso
      obtain hmem | ⟨-, hmem⟩ | ⟨-, -, hmem, -⟩ := hop.1
      · simp only [rejections, List.mem_cons, Prod.mk.injEq, List.not_mem_nil, or_false] at hmem
        obtain ⟨rfl, -⟩ | ⟨rfl, -⟩ | ⟨rfl, -⟩ := hmem <;> exact hnot hexpected (by decide) (by decide)
      · simp only [reentries, List.mem_cons, Prod.mk.injEq, List.not_mem_nil, or_false] at hmem
        obtain ⟨rfl, -⟩ | ⟨rfl, -⟩ := hmem <;> exact hnot hexpected (by decide) (by decide)
      · subst hmem
        exact hnot hexpected (by decide) (by decide)
  | rewound _ _ hclarified => exact absurd hasked (hcleared hclarified)
  | approved hstatus => exact (hnot hstatus (by decide) (by decide)).elim
  | failed _ _ hmoved => exact .inr hmoved.status
  | requeued _ _ hstatus hmoved =>
      have hwas : run.status ≠ .received := by
        rw [hstatus]
        decide
      exact absurd (returns_of_received htxn hop hrun hstep' hwas hmoved.status) (hissued _ _ rfl)
  | retriggered _ _ hreopened => exact absurd hasked (hcleared hreopened.clarified)
  | reconciled hstatus => exact (hnot hstatus (by decide) (by decide)).elim
  | @reviewed _ _ purpose _ _ hstatus =>
      cases purpose <;> exact (hnot hstatus (by decide) (by decide)).elim
  | markedDelivered hstatus => exact (hnot hstatus (by decide) (by decide)).elim
  | authorizedNew hstatus => exact (hnot hstatus (by decide) (by decide)).elim
  | finishedReview hstatus => exact (hnot hstatus (by decide) (by decide)).elim

theorem unclaimed_of_busy (h : Effect env db op a db') (hrun : db.runs.get? r = some run)
    (hbusy : run.status = .extracting ∨ run.status = .error) : claimsRun op a ≠ some r := by
  intro hclaim
  obtain ⟨run₀, hrun₀, hreceived⟩ := received_of_claimsRun h hclaim
  rw [hrun] at hrun₀
  cases hrun₀
  rw [hreceived] at hbusy
  obtain hbusy | hbusy := hbusy <;> cases hbusy

theorem asking_step (hinv : Inv db log) (hop : s.allows op) (htxn : txn env op db = .ok (a, db'))
    (hown : DrivesOwn i op db log) (hordered : inOrder i env db log op = true) :
    Asking db' (notes i op db a db' ++ log) := by
  have heffect := txn_effect htxn
  intro r run' id f hrun' hasked hunissued
  by_cases hasks : ∃ n ∈ notes i op db a db', asks r id f n = true
  · obtain ⟨n, hn, hasks⟩ := hasks
    obtain ⟨clarified, run, rfl, hrun, rfl⟩ := fields_of_asks hn hasks
    obtain ⟨hlast, hextracting⟩ := hown r rfl
    rw [statusOf_eq hrun] at hextracting
    obtain ⟨run₁, hrun₁, hstep⟩ := runStep heffect hinv.fresh.runs hrun
    obtain rfl := Option.some.inj (hrun'.symm.trans hrun₁)
    refine ⟨.inl ?_, ?_, i, ?_, ?_⟩
    · cases hstep with
      | kept h => exact h.status.trans (Option.some.inj hextracting)
      | fieldsSet => exact Option.some.inj hextracting
      | driven hdrives => cases hdrives
      | failed hnone => cases hnone
      | reviewed hnone => cases hnone
    · rw [notes, hrun]
      exact since_cons_of (asksAnew_of_asks hasks)
    · rw [lastClaimant_notes, if_neg (fun hclaim => by cases hclaim)]
      exact hlast
    · rw [notes, hrun]
      exact since_cons_of (decide_eq_true ⟨rfl, rfl⟩)
  · have hnotes : ∀ n ∈ notes i op db a db', asks r id f n = false := fun n hn =>
      Bool.eq_false_iff.mpr fun h => hasks ⟨n, hn, h⟩
    have hold := unissued_of_notes hnotes hunissued
    obtain ⟨run, hrun⟩ := run_of_unissued hinv.recorded hold
    obtain ⟨run₁, hrun₁, hstep⟩ := runStep heffect hinv.fresh.runs hrun
    obtain rfl := Option.some.inj (hrun'.symm.trans hrun₁)
    have hbefore := asked_before hstep hrun hnotes hasked
    obtain ⟨hbusy, hsince, j, hlast, hwrote⟩ := hinv.asking r run id f hrun hbefore hold
    have hunclaimed := unclaimed_of_busy heffect hrun hbusy
    have hnone : ∀ n ∈ notes i op db a db', (claimant r n).isNone = true := fun n hn => by
      rw [claimant_notes hunclaimed n hn]
      rfl
    refine ⟨busy_after htxn hop hrun hstep (fun t hdrives => ?_) (fun job result hsettles hreturns => ?_)
      hasked hbusy, since_append hnone hsince, j, ?_, since_append hnone hwrote⟩
    · obtain hextracting | hpause : t = .extracting ∨ notes i op db a db' = [.paused i r] :=
        paused_of_drives hop hdrives
      · exact hextracting
      · rw [hpause] at hunissued
        exact absurd hunissued (Bool.eq_false_iff.mp (since_cons_of_not (by simp [isPause]) rfl))
    · subst hsettles
      rw [inOrder, hreturns, Option.all_some, hsince] at hordered
      cases hordered
    · rw [lastClaimant_notes, if_neg hunclaimed]
      exact hlast

theorem resumedOnce_step (hinv : Inv db log) (hheld : Held i (s, t) log) (hop : s.allows op)
    (hread : t.allows op) (h : Effect env db op a db') (hordered : inOrder i env db log op = true) :
    Each ResumedOnce (notes i op db a db' ++ log) := by
  refine hinv.resumedOnce.append (notes_length i op db a db') fun n hn => ?_
  cases noted hn with
  | claimed =>
      have hnew := new_of_claim hinv.toLeases hinv.unpaused hheld.toRests hop hread h
        (fenced_of_inOrder hordered)
      exact resumedOnce_claim hinv.toLeasedReplies hnew (mails_of_stored hinv.toLeasedReplies hinv.stored)
  | _ => trivial

omit [PyText] in
theorem answered_step (hinv : Inv db log) (hnew : NewReply i s log) (hop : s.allows op)
    (hown : DrivesOwn i op db log) : Each AnsweredInOrder (notes i op db a db' ++ log) := by
  refine hinv.answered.append (notes_length i op db a db') fun n hn => ?_
  cases noted hn with
  | @fields r clarified run _ hrun =>
      have hlast := (hown r rfl).1
      exact answered_fields hinv.asking hrun hlast (hnew r (run_of_stageWrite hop rfl) hlast)
  | _ => trivial

theorem inv_exec (hinv : Inv db log) (hheld : Held i (s, t) log) (hop : s.allows op) (hread : t.allows op)
    (hrule : orderedReplies.permits i env op db log) :
    Inv (exec env op db).2 (observe i env op db ++ log) := by
  apply exec_observed hinv
  intro a db' htxn
  have heffect := txn_effect htxn
  exact
    { toLeases := leases_step hinv.toLeases heffect
      unpaused := unpaused_step hinv.toLeases hinv.unpaused htxn (fenced_of_inOrder hrule.2)
      asking := asking_step hinv hop htxn hrule.1 hrule.2
      recorded := recorded_step hinv.recorded hinv.fresh heffect
      resumedOnce := resumedOnce_step hinv hheld hop hread heffect hrule.2
      answered := answered_step hinv hheld.newReply hop hrule.1 }

theorem newReply_own (hinv : Inv db log) (hheld : Held i (s, t) log) (hop : s.allows op)
    (hread : t.allows op) (hordered : inOrder i env db log op = true) :
    NewReply i (s.next op (exec env op db).1) (observe i env op db ++ log) := by
  rcases exec_cases i env op db with ⟨e, hexec, -⟩ | ⟨a, db', htxn, hdb, hnotes, hanswer | ⟨e, hanswer⟩⟩
  · rw [hexec]
    exact fun r hr => by cases hr
  · rw [hanswer, hnotes]
    intro r hr hlast e hreply
    refine Bool.eq_false_iff.mpr fun hpaused => ?_
    have hunpaused : ∀ k, Note.paused k r ∉ notes i op db a db' := by
      intro k hmem
      obtain ⟨-, rfl⟩ := stageWrite_of_paused hmem
      have hrests : (s.told op a).phase = .rested := rested_of_paused hmem
      rw [Work.next, hrests] at hr
      cases hr
    have hbefore := pausedSince_of_notes hunpaused hpaused
    obtain hrun | hclaim := told_run hop hr
    · have hunclaimed : claimsRun op a ≠ some r := by
        intro hclaim
        rw [idle_of_claimsRun hop hclaim] at hrun
        cases hrun
      rw [lastClaimant_notes, if_neg hunclaimed] at hlast
      rw [replyOf_notes_of_working hop hrun] at hreply
      rw [hheld.newReply r hrun hlast e hreply] at hbefore
      cases hbefore
    · obtain rfl := claimsRun_eq hclaim
      rw [notes_of_claimsRun hclaim] at hreply
      have heffect := txn_effect htxn
      obtain rfl : a = (true : Bool) := by
        cases (a : Bool) with
        | true => rfl
        | false => cases hclaim
      have hnew := new_of_claim hinv.toLeases hinv.unpaused hheld.toRests hop hread heffect
        (fenced_of_inOrder hordered)
      rw [hnew e hreply] at hbefore
      cases hbefore
  · rw [hanswer]
    exact fun r hr => by cases hr

theorem newReply_other (hown : DrivesOwn i op db log) {j : Nat} {t : Work} (hji : j ≠ i)
    (hJ : NewReply j t log) : NewReply j t (observe i env op db ++ log) := by
  rcases exec_cases i env op db with ⟨e, -, hobserve⟩ | ⟨a, db', -, -, hnotes, -⟩
  · rw [hobserve]
    exact hJ
  · rw [hnotes]
    intro r hr hlast e hreply
    rw [lastClaimant_notes] at hlast
    by_cases hclaim : claimsRun op a = some r
    · rw [if_pos hclaim] at hlast
      exact absurd (Option.some.inj hlast).symm hji
    · rw [if_neg hclaim] at hlast
      rw [replyOf_notes_of_ne (Ne.symm hji)] at hreply
      refine Bool.eq_false_iff.mpr fun hpaused => ?_
      have hunpaused : ∀ k, Note.paused k r ∉ notes i op db a db' := by
        intro k hmem
        have hi := (hown r (stageWrite_of_paused hmem).1).1
        rw [hlast] at hi
        exact hji (Option.some.inj hi)
      have hbefore := pausedSince_of_notes hunpaused hpaused
      rw [hJ r hr hlast e hreply] at hbefore
      cases hbefore

omit [PyText] in
theorem inv_start (h : Begins db) : Inv db [] where
  copied _ _ hmem := by cases hmem
  after newer _ _ _ hlog := by simp at hlog
  fresh := h.fresh
  stored := h.stored
  drawn _ _ hmem := by cases hmem
  last _ _ hlease := by cases hlease
  unpaused _ _ _ _ _ _ _ hpaused := by cases hpaused
  asking _ _ _ _ _ _ hunissued := by cases hunissued
  recorded _ _ _ _ hmem := by cases hmem
  resumedOnce := each_nil
  answered := each_nil

/-- The pauses are by threads that were spawned. -/
def PausedBelow (n : Nat) (log : List Note) : Prop := ∀ i r, Note.paused i r ∈ log → i < n

theorem pausedBelow_exec {n : Nat} (hi : i < n) (h : PausedBelow n log) :
    PausedBelow n (observe i env op db ++ log) := by
  rcases exec_cases i env op db with ⟨e, -, hobserve⟩ | ⟨a, db', -, -, hnotes, -⟩
  · rw [hobserve]
    exact h
  · rw [hnotes]
    intro k r hmem
    obtain hnew | hold := List.mem_append.mp hmem
    · obtain ⟨-, rfl⟩ := stageWrite_of_paused hnew
      exact hi
    · exact h k r hold

omit [PyText] in
theorem held_fresh {n : Nat} (h : PausedBelow n log) : Held n (Work.fresh, Reader.fresh) log where
  lease _ hlease := by cases hlease
  rested r hmem := absurd (h n r hmem) (Nat.lt_irrefl n)
  newReply _ hrun := by cases hrun

theorem thread_follows (k : Thread) :
    Prog.Follows (conduct.both reader) (fun _ _ => True) (thread k) (Work.fresh, Reader.fresh) :=
  ((Conduct.thread_follows k).both (ReplyReads.thread_follows k)).mono fun _ _ _ => trivial

theorem kept : World.Kept machine thread orderedReplies Begins (conduct.both reader)
    (Work.fresh, Reader.fresh)
    (fun n db log => Inv db log ∧ PausedBelow n log) (fun i s _ log => Held i s log) where
  init _ h := ⟨inv_start h, fun _ _ hmem => by cases hmem⟩
  follows k _ := thread_follows k
  fresh n _ _ h := ⟨⟨h.1, fun i r hmem => Nat.lt_succ_of_lt (h.2 i r hmem)⟩, held_fresh h.2⟩
  shared _ _ _ _ _ _ _ hi h hheld hallows hrule :=
    ⟨inv_exec h.1 hheld hallows.1 hallows.2 hrule, pausedBelow_exec hi h.2⟩
  own _ _ _ _ _ _ _ _ h hheld hallows hrule :=
    { toRests := rests_own hheld.toRests hallows.1 hallows.2
      newReply := newReply_own h.1 hheld hallows.1 hallows.2 hrule.2 }
  other _ _ _ _ _ _ _ _ _ _ _ hrule _ _ hji hheld :=
    { toRests := rests_other hji hheld.toRests
      newReply := newReply_other hrule.1 hji hheld.newReply }

/-- No job resumes a run again that its resume paused, and no outcome is taken
from a reply that is older than the question, in every history in which the
replies come in order. -/
theorem replies_in_order {w : World Op Ans Exn Db Note}
    (hreach : World.Reach machine thread orderedReplies Begins w) :
    Each ResumedOnce w.log ∧ Each AnsweredInOrder w.log :=
  have hinv := (kept.reach hreach).1.1
  ⟨hinv.resumedOnce, hinv.answered⟩

end

section Histories

attribute [local instance] asciiText

open OutcomeOrder

instance : DecidablePred orderedReplies.spawns := fun _ => inferInstanceAs (Decidable True)

instance (i : Nat) (op : Op) (db : Db) (log : List Note) : Decidable (DrivesOwn i op db log) :=
  match h : stageWrite op with
  | none => isTrue fun _ h' => by simp [h] at h'
  | some r =>
      decidable_of_iff (lastClaimant r log = some i ∧ db.statusOf r = some .extracting)
        ⟨fun hi r' h' => by
          obtain rfl : r = r' := by simpa [h] using h'
          exact hi, fun hi => hi r h⟩

instance (i : Nat) (env : Env) (op : Op) (db : Db) (log : List Note) :
    Decidable (orderedReplies.permits i env op db log) :=
  inferInstanceAs (Decidable (DrivesOwn i op db log ∧ inOrder i env db log op = true))

/-- The run waits for an answer about a name, and the reply is there. -/
def repliedDb : Db :=
  { Db.empty with
    nextId := 20
    runs := .ofList [(2, { Run.created 1 3 0 with
      status := .awaitingReply
      clarificationRound := 1
      reconciliation := beforeQuestion.reconciliation
      preClarifyExtracted := some twoPaid })]
    inbound := .ofList [(3, ⟨⟨5, none, [], 6, []⟩, some 2, 0, none⟩),
      (5, ⟨⟨7, none, [], 6, []⟩, some 2, 0, none⟩)]
    senders := .ofList [(6, 1)]
    jobs := .ofList [(4, { StageWrites.runJob 2 with
      kind := .resumeReply, dedupKey := .resumeReply 2 5, emailId := some 5 })]
    rosters := .ofList [(1, HoursVisibility.twoWorkers)] }

/-- `n` steps of a worker that resumes with the silent reply. -/
def resume (i n : Nat) : List (Event Thread Env) :=
  List.replicate n (.run i { picked := 4, extracted := silentReply.reply })

/-- The resume asks about the overtime and pauses the run, its worker stops
before the settlement, and the job is claimed again. -/
def resumedAgain : List (Event Thread Env) :=
  [.spawn .worker] ++ resume 0 25 ++ [.spawn (.pass 1000), .run 1 {}, .spawn .worker] ++ resume 2 17

/-- The note is the claim of a resume whose job paused the run before. -/
def resumes : List Note → Bool
  | .claimed i r :: older => (leaseOf i older).any fun job =>
      job.kind = .resumeReply && since (fun _ => true) (pausesUnder r job.id) older
  | _ => false

/-- The note takes the outcome of the field from a reply that is older than the
question. -/
def answersLate (id : Uuid) (f : HoursField) : List Note → Bool
  | .fields i r before after :: older =>
      !wrote i r older && ((replyOf i older).any fun e => pausedSince e r older) &&
        decide (before.outcome id f = some .asked ∧ after.outcome id f ≠ some .asked)
  | _ => false

theorem not_resumedOnce {k : Nat} (h : resumes (log.drop k) = true) : ¬ Each ResumedOnce log := by
  intro hall
  cases hdrop : log.drop k with
  | nil => simp [hdrop, resumes] at h
  | cons n older =>
      rw [hdrop] at h
      have hn := hall.of_drop hdrop
      cases n with
      | claimed i r =>
          obtain ⟨job, hjob, hagain⟩ := (Option.any_eq_true _ _).mp h
          rw [Bool.and_eq_true] at hagain
          have honce := hn job hjob (of_decide_eq_true hagain.1)
          rw [hagain.2] at honce
          cases honce
      | _ => cases h

theorem not_answeredInOrder {k : Nat} (h : answersLate id f (log.drop k) = true) :
    ¬ Each AnsweredInOrder log := by
  intro hall
  cases hdrop : log.drop k with
  | nil => simp [hdrop, answersLate] at h
  | cons n older =>
      rw [hdrop] at h
      have hn := hall.of_drop hdrop
      cases n with
      | fields i r before after =>
          simp only [answersLate, Bool.and_eq_true, decide_eq_true_eq, Bool.not_eq_true'] at h
          obtain ⟨⟨hfirst, hlate⟩, hasked, hanswered⟩ := h
          obtain ⟨e, hreply, hpaused⟩ := (Option.any_eq_true _ _).mp hlate
          rw [(hn hfirst e hreply id f hasked hanswered).2] at hpaused
          cases hpaused
      | _ => cases h

theorem begins_repliedDb : Begins repliedDb where
  fresh := Fresh.of_keys (by decide)
  stored j row hrow _ := by
    obtain ⟨-, rfl⟩ : j = 4 ∧ _ := by simpa using Dict.get?_ofList_mem hrow
    exact ⟨5, rfl, rfl⟩

/-- The reclaimed job resumes with the reply its first lease has paused on, and
takes from it the answer to the question of that pause. -/
theorem reply_answers_later_question :
    (¬ ∀ w : World Op Ans Exn Db Note,
      World.Reach machine thread World.Rules.any Begins w → Each ResumedOnce w.log) ∧
      ¬ ∀ w : World Op Ans Exn Db Note,
        World.Reach machine thread World.Rules.any Begins w → Each AnsweredInOrder w.log := by
  have hreach := reach_worldAfter begins_repliedDb resumedAgain
  have hresumes : resumes ((worldAfter repliedDb resumedAgain).log.drop 1) = true := by decide +kernel
  have hanswers : answersLate 1 .overtime ((worldAfter repliedDb resumedAgain).log.drop 0) = true := by
    decide +kernel
  generalize worldAfter repliedDb resumedAgain = w at *
  exact ⟨fun h => not_resumedOnce hresumes (h w hreach), fun h => not_answeredInOrder hanswers
    (h w hreach)⟩

/-- The first resume settles its question, the client replies to it, and the job
of that reply takes the answer from it. -/
def resumedInOrder : List (Event Thread Env) :=
  [.spawn .worker] ++ resume 0 26 ++ [.spawn (.receive ⟨40, some 21, [], 6, []⟩), .run 1 { picked := 2 },
    .spawn .worker] ++ List.replicate 17 (.run 2 { picked := 25, extracted := silentReply.reply })

def isAnswer (id : Uuid) (f : HoursField) : Note → Bool
  | .fields _ _ before after =>
      decide (before.outcome id f = some .asked ∧ after.outcome id f ≠ some .asked)
  | _ => false

theorem replies_in_order_answered :
    Each ResumedOnce (worldAfter repliedDb resumedInOrder).log ∧
      Each AnsweredInOrder (worldAfter repliedDb resumedInOrder).log ∧
        (worldAfter repliedDb resumedInOrder).log.any (isAnswer 1 .overtime) := by
  have hreach : World.Reach machine thread orderedReplies Begins (worldAfter repliedDb resumedInOrder) :=
    reach_worldAfter_of_permits begins_repliedDb (by decide +kernel)
  exact ⟨(replies_in_order hreach).1, (replies_in_order hreach).2, by decide +kernel⟩

end Histories

end PayrollAgent.ReplyOrder
