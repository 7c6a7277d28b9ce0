import PayrollAgent.Drives
import PayrollAgent.NewJobs
import PayrollAgent.StageWrites

namespace PayrollAgent.SingleDriver

open Lib Repo Effects RunSteps FreshIds JobSteps NewJobs Conduct Bookkeeping Handlers Drives

def holdsLease (db : Db) (job : Job) : Bool :=
  (lockedJob db job).any fun row => row.leasedUntil.any fun t => db.now ≤ t

def leasedBy (i : Nat) : Note → Option Job
  | .leased j job => if j = i then some job else none
  | _ => none

def leaseOf (i : Nat) (log : List Note) : Option Job := log.findSome? (leasedBy i)

def lastClaim (r : Uuid) : List Note → Option (Nat × Job)
  | [] => none
  | .claimed i r' :: older => if r' = r then (leaseOf i older).map (i, ·) else lastClaim r older
  | _ :: older => lastClaim r older

/-- The claims of the run. Where `ends`, a thread that paused the run counts no
more. -/
def claims (ends : Bool) (r : Uuid) : List Note → List (Nat × Job)
  | [] => []
  | .claimed i r' :: older =>
      if r' = r then ((leaseOf i older).map (i, ·)).toList ++ claims ends r older
      else claims ends r older
  | .paused i r' :: older =>
      if ends ∧ r' = r then (claims ends r older).filter fun c => c.1 ≠ i else claims ends r older
  | _ :: older => claims ends r older

def IsDriver (ends : Bool) (w : World Op Ans Exn Db Note) (r : Uuid) (job : Job) : Prop :=
  holdsLease w.data job = true ∧ ∃ i, (i, job) ∈ claims ends r w.log

def returns (db : Db) : Op → Option Uuid
  | .rewindForReclaim r => if (db.statusOf r).any (· ∈ rewindStatuses) then some r else none
  | .claimStatus r expected .received => if db.statusOf r = some expected then some r else none
  | .settlePipelineJob job result => job.runId.filter fun r =>
      result.outcome = .retryable && db.statusOf r = some .extracting &&
        (lockedJob db job).any fun row => row.attempts < row.maxAttempts
  | .retrigger r =>
      match RunRoutes.retrigger r db with
      | .ok (true, _) => some r
      | _ => none
  | _ => none

/-- A rewind follows a claim under an earlier lease of its own job, a retry the
claim of its own lease, and the others a claim whose lease is over. -/
def mayReturn (ends : Bool) (i : Nat) (db : Db) (log : List Note) (claimed : Job) : Op → Bool
  | .rewindForReclaim _ => (leaseOf i log).any fun own =>
      (lockedJob db own).isSome && claimed.id = own.id && claimed.leaseToken ≠ own.leaseToken
  | .settlePipelineJob own _ => claimed = own
  | .claimStatus _ _ _ => ends || !holdsLease db claimed
  | _ => !holdsLease db claimed

def returnsFenced (ends : Bool) (i : Nat) (op : Op) (db : Db) (log : List Note) : Bool :=
  (returns db op).all fun r => (lastClaim r log).all fun c => mayReturn ends i db log c.2 op

/-- The histories in which every return to RECEIVED is fenced by the last
claim, and where a pause ends a drive, every stage write comes from it. -/
def fencedReturns (ends : Bool) : World.Rules Op Db Env Note Thread :=
  ⟨fun _ => True, fun i _ op db log =>
    returnsFenced ends i op db log = true ∧ (ends = true → ByLastClaimant i op log)⟩

variable {ends : Bool} {i j : Nat} {r : Uuid} {job own : Job} {db db' : Db} {log : List Note} {op : Op}
  {a : Ans op} {n : Note} {s : Work}

theorem leasedBy_notes (h : ∀ job, Note.leased i job ∉ notes j op db a db') :
    leaseOf i (notes j op db a db' ++ log) = leaseOf i log := by
  rw [leaseOf, List.findSome?_append, List.findSome?_eq_none_iff.mpr, leaseOf]
  · rfl
  · intro n hn
    cases n with
    | leased k job =>
        rw [leasedBy, if_neg]
        rintro rfl
        exact h job hn
    | _ => rfl

theorem leased_of_leaseOf (h : leaseOf i log = some job) : Note.leased i job ∈ log := by
  obtain ⟨n, hn, hleased⟩ := List.exists_of_findSome?_eq_some h
  cases n with
  | leased k job' =>
      by_cases hk : k = i
      · rw [leasedBy, if_pos hk] at hleased
        cases hleased
        rwa [hk] at hn
      · rw [leasedBy, if_neg hk] at hleased
        cases hleased
  | _ => cases hleased

theorem lastClaim_cons (h : claimant r n = none) : lastClaim r (n :: log) = lastClaim r log := by
  cases n with
  | claimed i r' =>
      by_cases hr : r' = r
      · rw [claimant, if_pos hr] at h
        cases h
      · rw [lastClaim, if_neg hr]
  | _ => rfl

theorem lastClaim_notes (h : claimsRun op a ≠ some r) :
    lastClaim r (notes i op db a db' ++ log) = lastClaim r log := by
  match hnotes : notes i op db a db', notes_length i op db a db' with
  | [], _ => rfl
  | [n], _ =>
      have hn : n ∈ notes i op db a db' := by
        rw [hnotes]
        exact List.mem_singleton_self n
      exact lastClaim_cons (claimant_notes h n hn)

theorem lastClaimant_of_lastClaim (h : lastClaim r log = some (i, job)) :
    lastClaimant r log = some i := by
  induction log with
  | nil => cases h
  | cons n older ih =>
      by_cases hn : claimant r n = none
      · rw [lastClaim_cons hn] at h
        rw [lastClaimant, List.findSome?_cons_of_isNone (by rw [hn]; rfl)]
        exact ih h
      · cases n with
        | claimed k r' =>
            by_cases hr : r' = r
            · rw [lastClaim, if_pos hr] at h
              obtain ⟨job', -, hsame⟩ := Option.map_eq_some_iff.mp h
              cases hsame
              rw [lastClaimant, List.findSome?_cons, claimant, if_pos hr]
            · exact absurd (if_neg hr) hn
        | _ => exact absurd rfl hn

/-- A claim of a longer history is a new one or one that was not ended. -/
theorem mem_claims_cons {c : Nat × Job} (h : c ∈ claims ends r (n :: log)) :
    (n = .claimed c.1 r ∧ leaseOf c.1 log = some c.2) ∨
      (c ∈ claims ends r log ∧ (ends = true → n ≠ .paused c.1 r)) := by
  cases n with
  | claimed i r' =>
      by_cases hr : r' = r
      · rw [claims, if_pos hr, List.mem_append, Option.mem_toList] at h
        obtain hnew | hold := h
        · obtain ⟨job, hjob, rfl⟩ := Option.map_eq_some_iff.mp hnew
          exact .inl ⟨by rw [hr], hjob⟩
        · exact .inr ⟨hold, nofun⟩
      · rw [claims, if_neg hr] at h
        exact .inr ⟨h, nofun⟩
  | paused i r' =>
      by_cases hends : ends = true ∧ r' = r
      · rw [claims, if_pos hends] at h
        obtain ⟨hmem, hne⟩ := List.mem_filter.mp h
        refine .inr ⟨hmem, fun _ heq => ?_⟩
        cases heq
        exact of_decide_eq_true hne rfl
      · rw [claims, if_neg hends] at h
        refine .inr ⟨h, fun hpause heq => hends ?_⟩
        cases heq
        exact ⟨hpause, rfl⟩
  | _ => exact .inr ⟨h, nofun⟩

theorem mem_claims_notes {c : Nat × Job} (h : c ∈ claims ends r (notes i op db a db' ++ log)) :
    (claimsRun op a = some r ∧ c.1 = i ∧ leaseOf i log = some c.2) ∨
      (c ∈ claims ends r log ∧ (ends = true → Note.paused c.1 r ∉ notes i op db a db')) := by
  match hnotes : notes i op db a db', notes_length i op db a db' with
  | [], _ =>
      rw [hnotes] at h
      exact .inr ⟨h, fun _ => List.not_mem_nil⟩
  | [n], _ =>
      rw [hnotes] at h
      obtain ⟨rfl, hlease⟩ | ⟨hmem, hpause⟩ := mem_claims_cons h
      · have hn : Note.claimed c.1 r ∈ notes i op db a db' := by
          rw [hnotes]
          exact List.mem_singleton_self _
        cases noted hn with
        | claimed => exact .inl ⟨rfl, rfl, hlease⟩
      · refine .inr ⟨hmem, fun hends hin => hpause hends ?_⟩
        exact (List.mem_singleton.mp hin).symm

theorem leased_of_claims {c : Nat × Job} (h : c ∈ claims ends r log) : ∃ i, Note.leased i c.2 ∈ log := by
  induction log with
  | nil => cases h
  | cons n older ih =>
      obtain ⟨-, hlease⟩ | ⟨hmem, -⟩ := mem_claims_cons h
      · exact ⟨_, List.mem_cons_of_mem _ (leased_of_leaseOf hlease)⟩
      · obtain ⟨i, hi⟩ := ih hmem
        exact ⟨i, List.mem_cons_of_mem _ hi⟩

theorem holdsLease_iff : holdsLease db job = true ↔
    ∃ row t, lockedJob db job = some row ∧ row.leasedUntil = some t ∧ db.now ≤ t := by
  rw [holdsLease, Option.any_eq_true]
  constructor
  · rintro ⟨row, hrow, hlive⟩
    obtain ⟨t, ht, hle⟩ := (Option.any_eq_true _ _).mp hlive
    exact ⟨row, t, hrow, ht, of_decide_eq_true hle⟩
  · rintro ⟨row, t, hrow, ht, hle⟩
    refine ⟨row, hrow, ?_⟩
    rw [ht]
    exact decide_eq_true hle

theorem token_of_locked {row row' : JobRow} (h : lockedJob db job = some row)
    (h' : lockedJob db own = some row')
    (hid : job.id = own.id) : job.leaseToken = own.leaseToken := by
  obtain ⟨hrow, -, htoken⟩ := lockedJob_some h
  obtain ⟨hrow', -, htoken'⟩ := lockedJob_some h'
  rw [hid, hrow'] at hrow
  cases hrow
  rw [htoken] at htoken'
  exact Option.some.inj htoken'

theorem closeJob_now (k : Uuid) (state : JobState) (db : Db) : (closeJob k state db).now = db.now := rfl

theorem finish_now (k : Uuid) (state : JobState) (lastError : Option LastError) (db : Db) :
    (finish k state lastError db).now = db.now := rfl

theorem reentered_elsewhere {expected : RunStatus} {run : Run}
    (hop : s.allows (.claimStatus r expected .received))
    (hreturns : returns db (.claimStatus r expected .received) = some r)
    (hrun : db.runs.get? r = some run) (hdriven : run.status ∈ drivenStatuses) : False := by
  have hexpected : db.statusOf r = some expected := by
    by_contra hne
    rw [returns, if_neg hne] at hreturns
    cases hreturns
  rw [Db.statusOf, hrun] at hexpected
  obtain rfl := Option.some.inj hexpected
  obtain hmem | ⟨-, hmem⟩ | ⟨-, -, -, hmem⟩ := hop.1
  · simp [rejections] at hmem
  · revert hmem hdriven
    cases run.status <;> decide
  · cases hmem

theorem paused_of_drives {t : RunStatus} (hop : s.allows op) (h : drives op = some (r, t)) :
    t = .extracting ∨ notes i op db a db' = [.paused i r] := by
  cases op with
  | setStatus r' status =>
      cases h
      exact .inl hop.1.2
  | persistStages r' st =>
      by_cases haction : st.decision.finalAction = .process
      · rw [drives, if_pos haction] at h
        cases h
        exact .inr (if_pos haction)
      · rw [drives, if_neg haction] at h
        cases h
  | escalateToOperator r' =>
      cases h
      exact .inr rfl
  | finalizeSentClarification r' round extracted =>
      cases h
      exact .inr rfl
  | replayReservedClarification r' e extracted =>
      cases h
      exact .inr rfl
  | reserveClarification r' q =>
      cases h
      exact .inr rfl
  | _ => cases h

section

variable [PyText] {env : Env}

theorem now_step (h : Effect env db op a db') : db.now ≤ db'.now := by
  cases h with
  | passed => exact Nat.le_add_right _ _
  | retriggered _ _ hclaim =>
      rw [enqueueJob_now]
      obtain ⟨rfl, -⟩ | ⟨rfl, -⟩ := hclaim <;> exact le_rfl
  | markedDelivered _ hresolve =>
      obtain ⟨handoffs, rfl⟩ := resolve_frame hresolve
      exact le_rfl
  | authorizedNew _ hresolve =>
      rw [replaceConfirmation, enqueueSend_now, reserveOutboundSnapshot_now]
      obtain ⟨handoffs, rfl⟩ := resolve_frame hresolve
      exact le_rfl
  | @finishedReview r e m target acknowledge => cases acknowledge <;> exact le_rfl
  | recorded =>
      rw [closeJob_now, settleSent_now]
  | sent =>
      rw [closeJob_now, settleSent_now]
      exact le_rfl
  | reapedRun =>
      rw [closeJob_now, setRunError_now]
  | failed =>
      rw [finish_now, setRunError_now]
  | persisted => rw [persistStages_now]
  | replayed => exact (enqueueSend_now ..).ge
  | reserved => rw [ClarificationWrites.reserveClarification_now]
  | redelivered => rw [Ingest.authorizedReplyJob_now]
  | created =>
      rw [enqueueJob_now]
      exact le_rfl
  | replied =>
      rw [Ingest.authorizedReplyJob_now]
      exact le_rfl
  | approved =>
      rw [Delivery.deliver_now]
      exact le_rfl
  | resolved => rw [enqueueJob_now]
  | _ => exact le_rfl

/-- A lease that was drawn before is held after a step only if it was before. -/
theorem holdsLease_back (h : Effect env db op a db') (hfresh : Fresh db)
    (hdrawn : job.leaseToken < db.nextId)
    (hlive : holdsLease db' job = true) : holdsLease db job = true := by
  obtain ⟨row', t, hlocked, ht, hle⟩ := holdsLease_iff.mp hlive
  exact holdsLease_iff.mpr ⟨row', t, lockedJob_back h hfresh hdrawn hlocked, ht, (now_step h).trans hle⟩

theorem settled_gone {result : PipelineResult} {outcome : Ans (.settlePipelineJob job result)}
    (h : Effect env db (.settlePipelineJob job result) outcome db') :
    db' = db ∨ holdsLease db' job = false := by
  have hgone : ∀ {db₁ : Db} {f : JobRow → JobRow}, (∀ row, (f row).leaseToken = none) →
      holdsLease (db₁.modifyJob job.id f) job = false := by
    intro db₁ f hf
    refine Bool.eq_false_iff.mpr fun hlive => ?_
    obtain ⟨row, t, hlocked, -, -⟩ := holdsLease_iff.mp hlive
    obtain ⟨hrow, -, htoken⟩ := lockedJob_some hlocked
    rw [Db.modifyJob, Dict.get?_modify, if_pos rfl] at hrow
    obtain ⟨row₀, -, rfl⟩ := Option.map_eq_some_iff.mp hrow
    rw [hf] at htoken
    cases htoken
  cases h with
  | idle => exact .inl rfl
  | closed => exact .inr (hgone fun _ => rfl)
  | requeued => exact .inr (hgone fun _ => rfl)
  | failed => exact .inr (hgone fun _ => rfl)

variable {run run' : Run}

omit [PyText] in
theorem statusOf_eq (hrun : db.runs.get? r = some run) : db.statusOf r = some run.status := by
  rw [Db.statusOf, hrun]
  rfl

theorem returns_of_received (htxn : txn env op db = .ok (a, db')) (hop : s.allows op)
    (hrun : db.runs.get? r = some run) (h : RunStep db r run op a run') (hwas : run.status ≠ .received)
    (hback : run'.status = .received) : returns db op = some r := by
  have hstatus := statusOf_eq hrun
  cases h with
  | kept hkept => exact absurd (hkept.status.symm.trans hback) hwas
  | fieldsSet => exact absurd hback hwas
  | driven hdrives hmoved =>
      obtain rfl := hmoved.status.symm.trans hback
      cases op with
      | setStatus r' status =>
          cases hdrives
          exact absurd hop.1.2 (by decide)
      | persistStages r' st =>
          rw [drives] at hdrives
          split at hdrives <;> cases hdrives
      | _ => cases hdrives
  | claimed hexpected hmoved =>
      obtain rfl := hmoved.status.symm.trans hback
      rw [returns, hstatus, hexpected, if_pos rfl]
  | rewound hrewind =>
      rw [returns, hstatus, if_pos]
      exact decide_eq_true hrewind
  | approved _ hmoved hs =>
      obtain rfl := hmoved.status.symm.trans hback
      obtain hs | hs := hs <;> cases hs
  | failed _ _ hmoved => cases hmoved.status.symm.trans hback
  | requeued hjob hresult hexpected _ _ hheld =>
      obtain ⟨row, hlocked, hattempts⟩ := hheld
      rw [returns, hjob]
      refine Option.filter_eq_some_iff.mpr ⟨rfl, ?_⟩
      rw [hresult, hstatus, hexpected, hlocked, Option.any_some, decide_eq_true hattempts]
      rfl
  | retriggered =>
      have hwon : RunRoutes.retrigger r db = .ok (true, db') := htxn
      rw [returns, hwon]
  | reconciled _ hmoved => cases hmoved.status.symm.trans hback
  | reviewed _ _ hmoved => cases hmoved.status.symm.trans hback
  | markedDelivered _ _ hmoved => cases hmoved.status.symm.trans hback
  | authorizedNew _ _ hreopened => cases hreopened.status.symm.trans hback
  | finishedReview _ _ hmoved =>
      obtain rfl := hmoved.status.symm.trans hback
      obtain htarget | htarget := hop.1 <;> cases htarget

omit [PyText] in
/-- A live lease under which the run was claimed last lets no return pass. -/
theorem not_returned (hrule : returnsFenced ends i op db log = true) (hreturns : returns db op = some r)
    (hlast : lastClaim r log = some (j, job)) (hlive : holdsLease db job = true)
    (hpaused : ∀ expected, op = .claimStatus r expected .received → ends = false) :
    ∃ result, op = .settlePipelineJob job result := by
  rw [returnsFenced, hreturns, Option.all_some, hlast, Option.all_some] at hrule
  cases op with
  | rewindForReclaim r' =>
      obtain ⟨own, -, howned⟩ := (Option.any_eq_true _ _).mp hrule
      simp only [Bool.and_eq_true, decide_eq_true_eq] at howned
      obtain ⟨⟨hheld, hid⟩, hother⟩ := howned
      obtain ⟨row, hown⟩ := Option.isSome_iff_exists.mp hheld
      obtain ⟨row', t, hlocked, -⟩ := holdsLease_iff.mp hlive
      exact absurd (token_of_locked hlocked hown hid) hother
  | settlePipelineJob own result =>
      obtain rfl : job = own := of_decide_eq_true hrule
      exact ⟨result, rfl⟩
  | claimStatus r' expected new =>
      have hr : new = .received ∧ r' = r := by
        unfold returns at hreturns
        split at hreturns <;> simp_all
      obtain ⟨rfl, rfl⟩ := hr
      rw [mayReturn, hpaused expected rfl, hlive] at hrule
      cases hrule
  | retrigger r' =>
      have hover : (!holdsLease db job) = true := hrule
      rw [hlive] at hover
      cases hover
  | _ => cases hreturns

/-- Under a live lease a run was claimed last by the one thread that drives
it. -/
structure Inv (ends : Bool) (db : Db) (log : List Note) : Prop where
  fresh : Fresh db
  drawn : ∀ i job, Note.leased i job ∈ log → job.leaseToken < db.nextId
  last : ∀ r c, c ∈ claims ends r log → holdsLease db c.2 = true → lastClaim r log = some c ∧
    ∃ run, db.runs.get? r = some run ∧ run.status ≠ .received ∧
    (ends = true → run.status ∈ drivenStatuses)

theorem drawn_step (hinv : Inv ends db log) (h : Effect env db op a db') :
    ∀ i' job, Note.leased i' job ∈ notes i op db a db' ++ log → job.leaseToken < db'.nextId := by
  intro i' job hmem
  obtain hnew | hold := List.mem_append.mp hmem
  · cases noted hnew with
    | leased =>
        cases h with
        | idle hrefused => cases hrefused
        | leased => exact Nat.lt_succ_self _
  · exact (hinv.drawn i' job hold).trans_le (jobsGrow h).nextId

theorem claimed_extracting (h : Effect env db op a db') (hclaim : claimsRun op a = some r) :
    ∃ run', db'.runs.get? r = some run' ∧ run'.status = .extracting := by
  obtain ⟨run, hrun, -⟩ := received_of_claimsRun h hclaim
  obtain rfl := claimsRun_eq hclaim
  cases h with
  | idle hrefused =>
      obtain rfl : a = (false : Bool) := hrefused
      cases hclaim
  | claimed => exact ⟨_, Dict.get?_modify_self hrun _, rfl⟩

theorem last_step (hinv : Inv ends db log) (hop : s.allows op) (htxn : txn env op db = .ok (a, db'))
    (hrule : (fencedReturns ends).permits i env op db log) {c : Nat × Job}
    (hmem : c ∈ claims ends r (notes i op db a db' ++ log)) (hlive : holdsLease db' c.2 = true) :
    lastClaim r (notes i op db a db' ++ log) = some c ∧ ∃ run', db'.runs.get? r = some run' ∧
      run'.status ≠ .received ∧ (ends = true → run'.status ∈ drivenStatuses) := by
  have heffect := txn_effect htxn
  obtain ⟨hclaim, rfl, hlease⟩ | ⟨hold, hunpaused⟩ := mem_claims_notes hmem
  · obtain ⟨run', hrun', hstatus⟩ := claimed_extracting heffect hclaim
    refine ⟨?_, run', hrun', ?_⟩
    · rw [notes_of_claimsRun hclaim, List.singleton_append, lastClaim, if_pos rfl, hlease]
      rfl
    · rw [hstatus]
      exact ⟨by decide, fun _ => by decide⟩
  · obtain ⟨j, hj⟩ := leased_of_claims hold
    have hheld := holdsLease_back heffect hinv.fresh (hinv.drawn j _ hj) hlive
    obtain ⟨hlast, run, hrun, hwas, hdriven⟩ := hinv.last r c hold hheld
    have hunclaimed : claimsRun op a ≠ some r := by
      intro hclaim
      obtain ⟨run₀, hrun₀, hreceived⟩ := received_of_claimsRun heffect hclaim
      rw [hrun] at hrun₀
      cases hrun₀
      exact hwas hreceived
    obtain ⟨run', hrun', hstep⟩ := runStep heffect hinv.fresh.runs hrun
    refine ⟨?_, run', hrun', ?_, ?_⟩
    · rw [lastClaim_notes hunclaimed, hlast]
    · intro hback
      have hreturns := returns_of_received htxn hop hrun hstep hwas hback
      have hwaits : ∀ expected, op = .claimStatus r expected .received → ends = false := by
        intro expected hreenters
        subst hreenters
        by_contra hends
        exact reentered_elsewhere hop hreturns hrun (hdriven (Bool.eq_true_of_not_eq_false hends))
      obtain ⟨result, rfl⟩ := not_returned hrule.1 hreturns hlast hheld hwaits
      obtain rfl | hgone := settled_gone heffect
      · rw [hrun] at hrun'
        cases hrun'
        exact hwas hback
      · rw [hgone] at hlive
        cases hlive
    · intro hends
      by_cases hdrives : ∃ t, drives op = some (r, t)
      · obtain ⟨t, hdrives⟩ := hdrives
        obtain rfl | hpause : t = .extracting ∨ notes i op db a db' = [.paused i r] :=
          paused_of_drives hop hdrives
        · exact driven_of_extracting hstep hdrives (hdriven hends)
        · have hlastClaimant : lastClaimant r log = some c.1 := lastClaimant_of_lastClaim hlast
          rw [hrule.2 hends r (stageWrite_of_drives hdrives)] at hlastClaimant
          refine absurd ?_ (hunpaused hends)
          rw [hpause, ← Option.some.inj hlastClaimant]
          exact List.mem_singleton_self _
      · exact driven_of_not_drives hstep hop (not_exists.mp hdrives) (hdriven hends)

theorem inv_exec (hinv : Inv ends db log) (hop : s.allows op)
    (hrule : (fencedReturns ends).permits i env op db log) :
    Inv ends (exec env op db).2 (observe i env op db ++ log) := by
  apply exec_observed hinv
  intro a db' htxn
  exact ⟨fresh_step (txn_effect htxn) hinv.fresh, drawn_step hinv (txn_effect htxn),
    fun r c => last_step hinv hop htxn hrule⟩

theorem preserved : World.Preserved machine thread (fencedReturns ends) Fresh conduct Work.fresh
    (Inv ends) (fun _ _ _ _ => True) where
  init _ h := ⟨h, nofun, nofun⟩
  follows k _ := thread_follows k
  fresh _ _ _ _ := trivial
  shared _ _ _ _ _ _ hinv _ hop hrule := inv_exec hinv hop hrule
  own _ _ _ _ _ _ _ _ _ _ := trivial
  other _ _ _ _ _ _ _ _ _ _ _ _ _ _ := trivial

/-- One job at most holds a live lease under which it claimed a run, and none
does when a reclaimed job rewinds the run, in every history whose returns to
RECEIVED are fenced. -/
theorem single_driver {w : World Op Ans Exn Db Note}
    (hreach : World.Reach machine thread (fencedReturns ends) Fresh w) :
    (∀ r job job', IsDriver ends w r job → IsDriver ends w r job' → job = job') ∧
      ∀ (e : Event Thread Env) i env r, w.operation e = some (i, env, .rewindForReclaim r) →
        World.Permits (fencedReturns ends) w e → (rewindForReclaim r w.data).1 = true →
          ∀ job, ¬ IsDriver ends w r job := by
  have hinv := (preserved.reach hreach).1
  refine ⟨?_, ?_⟩
  · rintro r job job' ⟨hlive, i, hmem⟩ ⟨hlive', i', hmem'⟩
    have hlast := (hinv.last r _ hmem hlive).1
    rw [(hinv.last r _ hmem' hlive').1] at hlast
    cases hlast
    rfl
  · rintro e i env r hop hpermits hrewinds job ⟨hlive, j, hmem⟩
    have hreturns : returns w.data (.rewindForReclaim r) = some r := by
      rw [returns, if_pos]
      revert hrewinds
      unfold rewindForReclaim
      cases w.data.statusOf r with
      | none => exact nofun
      | some status =>
          by_cases hmem : status ∈ rewindStatuses
          · exact fun _ => decide_eq_true hmem
          · simp [hmem]
    have hlast := (hinv.last r _ hmem hlive).1
    obtain ⟨rfl, -⟩ := World.operation_some hop
    obtain ⟨result, hsettles⟩ := not_returned (hpermits i env _ hop).1 hreturns hlast hlive nofun
    cases hsettles

end

section Histories

attribute [local instance] asciiText

open StageWrites

instance : DecidablePred (fencedReturns ends).spawns := fun _ => inferInstanceAs (Decidable True)

instance (i : Nat) (env : Env) (op : Op) (db : Db) (log : List Note) :
    Decidable ((fencedReturns ends).permits i env op db log) :=
  inferInstanceAs (Decidable (returnsFenced ends i op db log = true ∧
    (ends = true → ByLastClaimant i op log)))

/-- The worker of the first job stops at once, and the run is retriggered. The
second job claims the run, and the first one is reclaimed. -/
def retriggered : List (Event Thread Env) :=
  [.spawn .worker, .run 0 { picked := 4 }, .spawn (.pass 1000), .run 1 {}, .spawn (.retrigger 2),
    .run 2 {},
    .spawn .worker, .run 3 { picked := 11 }, .run 3 {}, .spawn .worker, .run 4 { picked := 4 }]

def driver (w : World Op Ans Exn Db Note) (r j : Uuid) : Option (Nat × Job) :=
  (claims true r w.log).find? fun c => holdsLease w.data c.2 && c.2.id = j

theorem isDriver_of_driver {w : World Op Ans Exn Db Note} {r j : Uuid} (h : (driver w r j).isSome) :
    ∃ job, IsDriver true w r job ∧ job.id = j := by
  obtain ⟨c, hc⟩ := Option.isSome_iff_exists.mp h
  have hdriver := List.find?_some hc
  simp only [Bool.and_eq_true, decide_eq_true_eq] at hdriver
  exact ⟨c.2, ⟨hdriver.1, c.1, List.mem_of_find?_eq_some hc⟩, hdriver.2⟩

def isRewind (r : Uuid) : Op → Bool
  | .rewindForReclaim r' => r' = r
  | _ => false

theorem operation_of_isRewind {w : World Op Ans Exn Db Note} {i : Nat} {env : Env} {r : Uuid}
    (h : (w.operation (.run i env : Event Thread Env)).any fun x => isRewind r x.2.2) :
    w.operation (.run i env : Event Thread Env) = some (i, env, .rewindForReclaim r) := by
  obtain ⟨⟨i', env', op⟩, hop, hrewind⟩ := (Option.any_eq_true _ _).mp h
  obtain ⟨hsame, -⟩ := World.operation_some hop
  cases hsame
  cases op with
  | rewindForReclaim r' =>
      obtain rfl : r' = r := of_decide_eq_true hrewind
      exact hop
  | _ => cases hrewind

/-- The reclaimed first job rewinds the run under the live lease of the second
one, and claims it too. -/
theorem rewound_under_driver :
    (¬ ∀ (w : World Op Ans Exn Db Note) (e : Event Thread Env) (i : Nat) (env : Env) (r : Uuid) (own job : Job),
      World.Reach machine thread World.Rules.any Fresh w →
        w.operation e = some (i, env, .rewindForReclaim r) → (rewindForReclaim r w.data).1 = true →
          leaseOf i w.log = some own → IsDriver true w r job → job.id = own.id) ∧
      ¬ ∀ (w : World Op Ans Exn Db Note) (r : Uuid) (job job' : Job),
        World.Reach machine thread World.Rules.any Fresh w → IsDriver true w r job →
        IsDriver true w r job' → job = job' := by
  refine ⟨fun h => ?_, fun h => ?_⟩
  · have hreach := reach_worldAfter fresh_receivedDb retriggered
    have hop : ((worldAfter receivedDb retriggered).operation (.run 4 {} : Event Thread Env)).any
        fun x => isRewind 2 x.2.2 := by
      decide +kernel
    have hrewinds : (rewindForReclaim 2 (worldAfter receivedDb retriggered).data).1 = true := by
      decide +kernel
    have hown : (leaseOf 4 (worldAfter receivedDb retriggered).log).any fun job => job.id = 4 := by
      decide +kernel
    have hdriver : (driver (worldAfter receivedDb retriggered) 2 11).isSome := by decide +kernel
    generalize worldAfter receivedDb retriggered = w at *
    obtain ⟨job, hjob, hid⟩ := isDriver_of_driver hdriver
    obtain ⟨own, hown, hfirst⟩ := (Option.any_eq_true _ _).mp hown
    have hsame := h w _ 4 _ 2 own job hreach (operation_of_isRewind hop) hrewinds hown hjob
    rw [hid, of_decide_eq_true hfirst] at hsame
    exact absurd hsame (by decide)
  · have hreach := reach_worldAfter fresh_receivedDb (retriggered ++ [.run 4 {}, .run 4 {}])
    have hfirst : (driver (worldAfter receivedDb (retriggered ++ [.run 4 {}, .run 4 {}]))
      2 4).isSome := by
      decide +kernel
    have hsecond : (driver (worldAfter receivedDb (retriggered ++ [.run 4 {}, .run 4 {}]))
      2 11).isSome := by
      decide +kernel
    generalize worldAfter receivedDb (retriggered ++ [.run 4 {}, .run 4 {}]) = w at *
    obtain ⟨job, hjob, hid⟩ := isDriver_of_driver hfirst
    obtain ⟨job', hjob', hid'⟩ := isDriver_of_driver hsecond
    have hsame := h w 2 job job' hreach hjob hjob'
    rw [hsame, hid'] at hid
    exact absurd hid (by decide)

def reclaimed : List (Event Thread Env) :=
  [.spawn .worker, .run 0 { picked := 4 }, .run 0 {}, .run 0 {}, .spawn (.pass 1000), .run 1 {},
    .spawn .worker, .run 2 { picked := 4 }]

/-- Nobody drives the run the job rewinds, and then it alone does. -/
theorem single_driver_reclaimed :
    (∀ job, ¬ IsDriver true (worldAfter receivedDb reclaimed) 2 job) ∧
      ∃ job, IsDriver true (worldAfter receivedDb (reclaimed ++ [.run 2 {}, .run 2 {}])) 2 job ∧
        ∀ job', IsDriver true (worldAfter receivedDb (reclaimed ++ [.run 2 {}, .run 2 {}])) 2 job' →
          job = job' := by
  have hreach : World.Reach machine thread (fencedReturns true) Fresh (worldAfter receivedDb reclaimed) :=
    reach_worldAfter_of_permits fresh_receivedDb (by decide +kernel)
  have hafter : World.Reach machine thread (fencedReturns true) Fresh
      (worldAfter receivedDb (reclaimed ++ [.run 2 {}, .run 2 {}])) :=
    reach_worldAfter_of_permits fresh_receivedDb (by decide +kernel)
  have hpermits : World.Permits (fencedReturns true) (worldAfter receivedDb reclaimed) (.run 2 {}) := by
    decide +kernel
  have hop : ((worldAfter receivedDb reclaimed).operation (.run 2 {} : Event Thread Env)).any
      fun x => isRewind 2 x.2.2 := by
    decide +kernel
  have hrewinds : (rewindForReclaim 2 (worldAfter receivedDb reclaimed).data).1 = true := by
    decide +kernel
  have hdriver : (driver (worldAfter receivedDb (reclaimed ++ [.run 2 {}, .run 2 {}])) 2 4).isSome := by
    decide +kernel
  refine ⟨(single_driver hreach).2 _ 2 {} 2 (operation_of_isRewind hop) hpermits hrewinds, ?_⟩
  obtain ⟨job, hjob, -⟩ := isDriver_of_driver hdriver
  exact ⟨job, hjob, fun job' => (single_driver hafter).1 2 job job' hjob⟩

end Histories

end PayrollAgent.SingleDriver
