import PayrollAgent.Drives
import PayrollAgent.HandoffSteps
import PayrollAgent.StageWrites

namespace PayrollAgent.DeliveredFinal

open Lib Repo Handlers Effects RunSteps Conduct FreshIds Drives Bookkeeping HandoffSteps

def Finalizes (r : Uuid) : Note → Prop
  | .delivered r' => r' = r
  | .markedDelivered r' => r' = r
  | _ => False

def Requests (r : Uuid) : Note → Prop
  | .requested _ a => a.runId = r ∧ a.purpose = .confirmation
  | _ => False

/-- After its delivery only an explicit new authorization lets a confirmation of
the run go to the provider. -/
def Final (log : List Note) : Prop :=
  ∀ r later n earlier, log = later ++ n :: earlier → Finalizes r n → (∃ x ∈ later, Requests r x) →
    Note.authorizedNew r ∈ later

def underHandoff (db : Db) : Op → Bool
  | .send a => (activeHandoff db a.runId).any fun p => p.1 = a.handoffId ∧ p.2.leaseToken = a.leaseToken
  | _ => true

/-- The histories in which every write of a stage comes from the last claimant
of its run, and every request is made under a handoff still owned. -/
def ownedWrites : World.Rules Op Db Env Note Thread :=
  ⟨fun _ => True, fun i _ op db log => ByLastClaimant i op log ∧ underHandoff db op = true⟩

structure WellFormed (db : Db) : Prop where
  fresh : Fresh db
  oneActive : OneActive db
  provided : Provided db

structure Settled (db : Db) (r : Uuid) : Prop where
  reconciled : ∃ run, db.runs.get? r = some run ∧ run.status = .reconciled
  inactive : activeHandoff db r = none

structure Inv (db : Db) (log : List Note) : Prop extends WellFormed db where
  settled : ∀ r, ∀ n ∈ log, Finalizes r n → Settled db r
  ordered : log.Pairwise fun later earlier => ∀ r, Finalizes r earlier → ¬ Requests r later

variable {s : Work} {op : Op} {answer : Ans op} {i : Nat} {db db' : Db} {log : List Note} {r : Uuid}

section

variable [PyText] {env : Env}

theorem inactive_step {run : Run} (heffect : Effect env db op answer db')
    (hrun : db.runs.get? r = some run) (hstatus : run.status = .reconciled)
    (h : activeHandoff db r = none) : activeHandoff db' r = none := by
  rw [activeHandoff_none] at h ⊢
  intro j row' hrow' hr hactive
  rcases (handoffStep heffect hrow').active hactive with
    ⟨row, hrow, hrun', -, -, hactive⟩ | ⟨_, _, _, _, _, htaken⟩
  · exact h j row hrow (hrun'.trans hr) hactive
  · subst hr
    obtain ⟨-, -, hrun', -, -, hexpected⟩ := deliveryContext_some htaken.may.owed
    rw [hrun] at hrun'
    cases hrun'
    exact status_ne_expected (by decide) _ (hstatus.symm.trans hexpected)

theorem settled_step (hfresh : Fresh db) (heffect : Effect env db op answer db') (hop : s.allows op)
    (hfly : InFlight i s db log) (hguard : ByLastClaimant i op log) (h : Settled db r) :
    Settled db' r := by
  obtain ⟨⟨run, hrun, hstatus⟩, hnone⟩ := h
  refine ⟨?_, inactive_step heffect hrun hstatus hnone⟩
  obtain ⟨run', hrun', hstep⟩ := runStep heffect hfresh.runs hrun
  refine ⟨run', hrun', (closed_step hstep hop (fun t hdrives => ?_) (by rw [hstatus]; decide)).trans
    hstatus⟩
  have hwrite := stageWrite_of_drives hdrives
  obtain ⟨run₀, hrun₀, hdriven⟩ := hfly r (run_of_stageWrite hop hwrite) (hguard r hwrite)
  rw [hrun] at hrun₀
  cases hrun₀
  rw [hstatus] at hdriven
  exact absurd hdriven (by decide)

/-- The confirmation whose delivery a settlement records is that of its own
context, and its run is reconciled. -/
theorem reconciled_of_sent (db₁ : Db) {r₀ e₀ e : Uuid} {m₀ m m' : Outbound} {run₀ : Run}
    (howed : deliveryContext db r₀ e₀ = some (m₀, run₀)) (hout₁ : db₁.outbound = db.outbound)
    (hruns₁ : db₁.runs = db.runs) (hout : db'.outbound = (settleSent r₀ e₀ m₀.purpose db₁).outbound)
    (hruns : db'.runs = (settleSent r₀ e₀ m₀.purpose db₁).runs)
    (hm : db.outbound.get? e = some m) (hm' : db'.outbound.get? e = some m')
    (hpurpose : m.purpose = .confirmation) (hunsent : m.sendState ≠ .sent)
    (hsent : m'.sendState = .sent) :
    m.runId = r₀ ∧ ∃ run, db'.runs.get? r₀ = some run ∧ run.status = .reconciled := by
  obtain ⟨hm₀, hown, hrun₀, -⟩ := deliveryContext_some howed
  rw [hout, settleSent_outbound, hout₁, Dict.get?_modify] at hm'
  split at hm'
  next he =>
    subst he
    rw [hm] at hm₀
    cases hm₀
    have hrun₁ : (markSent e db₁).runs.get? r₀ = some run₀ := by
      rw [markSent, Db.modifyOutbound, hruns₁, hrun₀]
    have hrun' := Dict.get?_modify_self hrun₁ fun run =>
      { run with status := .reconciled, updatedAt := (markSent e db₁).now }
    rw [← completeConfirmationAfterSend_runs] at hrun'
    exact ⟨hown, _, by rw [hruns, hpurpose]; exact hrun', rfl⟩
  · rw [hm] at hm'
    cases hm'
    exact absurd hsent hunsent

theorem settled_delivered {job : Job} {result : PipelineResult}
    {outcome : Ans (.settleOutboundDeliveryJob job result)} {e : Uuid} {m m' : Outbound}
    (hwell : WellFormed db) (heffect : Effect env db (.settleOutboundDeliveryJob job result) outcome db')
    (hm : db.outbound.get? e = some m) (hm' : db'.outbound.get? e = some m')
    (hpurpose : m.purpose = .confirmation) (hunsent : m.sendState ≠ .sent)
    (hsent : m'.sendState = .sent) : Settled db' m.runId := by
  have hchanged : db'.outbound ≠ db.outbound := fun hsame => by
    rw [hsame, hm] at hm'
    cases hm'
    exact hunsent hsent
  cases heffect with
  | idle => exact absurd rfl hchanged
  | retired => exact absurd rfl hchanged
  | @recorded _ _ row r₀ e₀ m₀ run₀ hctx honly =>
      obtain ⟨hown, hrun⟩ :=
        reconciled_of_sent db hctx.owed rfl rfl rfl rfl hm hm' hpurpose hunsent hsent
      rw [hown]
      obtain ⟨-, -, hrun₀, -⟩ := deliveryContext_some hctx.owed
      have hsame : (settleSent r₀ e₀ m₀.purpose db).handoffs = db.handoffs := settleSent_handoffs ..
      exact ⟨hrun, inactive_congr (hwell.provided.inactive hrun₀ honly) hsame⟩
  | expired => exact absurd rfl hchanged
  | @sent _ _ row r₀ e₀ m₀ run₀ h handoff hctx howned =>
      obtain ⟨hown, hrun⟩ := reconciled_of_sent (appendDeliveryAttempt e₀ .sent .none
        (releaseHandoff h .finalized db)) hctx.owed rfl rfl rfl rfl hm hm' hpurpose hunsent hsent
      rw [hown]
      obtain ⟨hh, hr, -, -, -, -, hactive⟩ := currentProviderHandoff_some howned
      have hsame : (settleSent r₀ e₀ m₀.purpose (appendDeliveryAttempt e₀ .sent .none
          (releaseHandoff h .finalized db))).handoffs = (releaseHandoff h .finalized db).handoffs :=
        settleSent_handoffs ..
      exact ⟨hrun, released_inactive hwell.oneActive hh hr hactive hsame⟩
  | rescheduled => exact absurd rfl hchanged
  | reviewed => exact absurd rfl hchanged

theorem settled_markedDelivered (hwell : WellFormed db)
    (heffect : Effect env db (.markDeliveryDelivered r) (true : Bool) db') : Settled db' r := by
  cases heffect with
  | idle hrefused => cases hrefused
  | @markedDelivered _ e m _ hload hresolve =>
      obtain ⟨run, hreview⟩ := loadDeliveryReview_some hload
      have hone : OneActive (setStatus r .reconciled db) := hwell.oneActive
      refine ⟨⟨{ run with status := .reconciled, updatedAt := db.now }, ?_, rfl⟩,
        resolve_inactive hone hresolve⟩
      rw [resolved_runs hresolve]
      exact Dict.get?_modify_self hreview.found _

theorem settled_noted (hwell : WellFormed db) (heffect : Effect env db op answer db') {n : Note}
    (hn : n ∈ notes i op db answer db') (hfinal : Finalizes r n) : Settled db' r := by
  cases noted hn with
  | delivered _ hm hm' hpurpose hunsent hsent =>
      cases hfinal
      exact settled_delivered hwell heffect hm hm' hpurpose hunsent hsent
  | markedDelivered =>
      cases hfinal
      exact settled_markedDelivered hwell heffect
  | _ => cases hfinal

omit [PyText] in
theorem ordered_step (hsettled : ∀ r, ∀ n ∈ log, Finalizes r n → Settled db r)
    (hunder : underHandoff db op = true)
    (h : log.Pairwise fun later earlier => ∀ r, Finalizes r earlier → ¬ Requests r later) :
    (notes i op db answer db' ++ log).Pairwise
      fun later earlier => ∀ r, Finalizes r earlier → ¬ Requests r later := by
  refine List.pairwise_append.mpr ⟨List.pairwise_of_forall_mem_list ?_, h, ?_⟩
  · intro later hlater earlier hearlier r hfinal hrequest
    cases noted hlater with
    | requested =>
        cases noted hearlier
        cases hfinal
    | _ => cases hrequest
  · intro later hlater earlier hearlier r hfinal hrequest
    cases noted hlater with
    | requested =>
        obtain ⟨rfl, -⟩ := hrequest
        simp [underHandoff, (hsettled _ earlier hearlier hfinal).inactive] at hunder
    | _ => cases hrequest

theorem inv_exec (hinv : Inv db log) (hfly : InFlight i s db log) (hop : s.allows op)
    (hguard : ByLastClaimant i op log) (hunder : underHandoff db op = true) :
    Inv (exec env op db).2 (observe i env op db ++ log) := by
  apply exec_observed hinv
  intro answer db' htxn
  have heffect := txn_effect htxn
  refine ⟨⟨fresh_step heffect hinv.fresh, oneActive_step heffect hinv.oneActive,
    provided_step hinv.fresh heffect hinv.provided⟩, fun r n hn hfinal => ?_,
    ordered_step hinv.settled hunder hinv.ordered⟩
  rcases List.mem_append.mp hn with hn | hn
  · exact settled_noted hinv.toWellFormed heffect hn hfinal
  · exact settled_step hinv.fresh heffect hop hfly hguard (hinv.settled r n hn hfinal)

theorem preserved : World.Preserved machine thread ownedWrites WellFormed conduct Work.fresh Inv
    InFlight where
  init _ h := ⟨h, nofun, .nil⟩
  follows k _ := thread_follows k
  fresh _ _ _ _ := fun _ hr => by cases hr
  shared _ _ _ _ _ _ hinv hfly hop hpermits := inv_exec hinv hfly hop hpermits.1 hpermits.2
  own _ _ _ _ _ _ hinv hfly hop _ := inFlight_own hinv.fresh hfly hop
  other _ _ _ _ _ _ hinv _ hop hpermits _ _ hji ht := inFlight_other hinv.fresh hop hpermits.1 hji ht

/-- A delivered confirmation is final, where the writes of a stage and the
requests come from the owners of their runs and handoffs. -/
theorem delivered_final {w : World Op Ans Exn Db Note}
    (hreach : World.Reach machine thread ownedWrites WellFormed w) : Final w.log := by
  obtain ⟨hinv, -⟩ := preserved.reach hreach
  intro r later n earlier hlog hfinal hrequest
  obtain ⟨x, hx, hrequest⟩ := hrequest
  have hordered := hinv.ordered
  rw [hlog] at hordered
  have hquiet := (List.pairwise_append.mp hordered).2.2 x hx n (List.mem_cons_self ..)
  exact absurd hrequest (hquiet r hfinal)

end

section Histories

attribute [local instance] asciiText

open StageWrites

instance : DecidablePred ownedWrites.spawns := fun _ => inferInstanceAs (Decidable True)

instance (i : Nat) (env : Env) (op : Op) (db : Db) (log : List Note) :
    Decidable (ownedWrites.permits i env op db log) :=
  inferInstanceAs (Decidable (ByLastClaimant i op log ∧ underHandoff db op = true))

theorem wellFormed_receivedDb : WellFormed receivedDb := by
  have hhandoffs : ∀ i, receivedDb.handoffs.get? i = none := fun _ => rfl
  refine ⟨fresh_receivedDb, fun i j row row' hrow => ?_, fun j row hrow => ?_⟩
  · simp [hhandoffs] at hrow
  · simp [hhandoffs] at hrow

/-- The approval by thread `i`, and the send of job `j` by the worker after it. -/
def approveAndSend (i : Nat) (r j : Uuid) : List (Event Thread Env) :=
  [.spawn (.approve r), .run i { envelope := letter }, .spawn .worker] ++
    List.replicate 4 (.run (i + 1) { picked := j })

/-- A worker stands before its first write while its lease runs out. A second
one processes the run, whose confirmation is delivered. The first one writes
EXTRACTING and stops, and fifteen minutes later the run is retriggered, processed
and approved again. -/
def confirmedAgain : List (Event Thread Env) :=
  [.spawn .worker] ++ work 0 5 4 ++ [.spawn (.pass 1000), .run 1 {}, .spawn .worker] ++ work 2 9 4 ++
    approveAndSend 3 2 14 ++ [.run 4 {}, .run 0 {}, .spawn (.pass 1000), .run 5 {},
    .spawn (.retrigger 2), .run 6 {}, .spawn .worker] ++ work 7 8 17 ++ approveAndSend 8 2 21

def confirmedOnce : List (Event Thread Env) :=
  [.spawn .worker] ++ work 0 8 4 ++ approveAndSend 1 2 13 ++ [.run 2 {}, .spawn .worker] ++
    work 3 8 9 ++ approveAndSend 4 8 19

def isDelivered (r : Uuid) : Note → Bool
  | .delivered r' => r' = r
  | _ => false

def isRequest (r : Uuid) : Note → Bool
  | .requested _ a => a.runId = r ∧ a.purpose = .confirmation
  | _ => false

theorem finalizes_of_isDelivered {r : Uuid} {n : Note} (h : isDelivered r n = true) : Finalizes r n := by
  cases n with
  | delivered r' => simpa only [isDelivered, decide_eq_true_eq, Finalizes] using h
  | _ => cases h

theorem requests_of_isRequest {r : Uuid} {n : Note} (h : isRequest r n = true) : Requests r n := by
  cases n with
  | requested i a => simpa only [isRequest, decide_eq_true_eq, Requests] using h
  | _ => cases h

def isAuthorizedNew (r : Uuid) : Note → Bool
  | .authorizedNew r' => r' = r
  | _ => false

/-- The confirmation of the second epoch goes out after the delivery of the
first one. -/
theorem confirmed_again_after_delivery :
    ¬ ∀ w : World Op Ans Exn Db Note,
      World.Reach machine thread World.Rules.any WellFormed w → Final w.log := by
  intro h
  have hfinal := h _ (reach_worldAfter wellFormed_receivedDb confirmedAgain)
  have hdelivered : ((worldAfter receivedDb confirmedAgain).log[6]?).any (isDelivered 2) := by
    decide +kernel
  have hrequest : ((worldAfter receivedDb confirmedAgain).log.take 6).any (isRequest 2) := by
    decide +kernel
  have hnew : ((worldAfter receivedDb confirmedAgain).log.take 6).all fun n => ¬ isAuthorizedNew 2 n := by
    decide +kernel
  generalize worldAfter receivedDb confirmedAgain = w at *
  cases hn : w.log[6]? with
  | none => simp [hn] at hdelivered
  | some n =>
      rw [hn, Option.any_some] at hdelivered
      obtain ⟨hlt, rfl⟩ := List.getElem?_eq_some_iff.mp hn
      have hlog : w.log = w.log.take 6 ++ w.log[6] :: w.log.drop 7 := by
        rw [← List.drop_eq_getElem_cons hlt, List.take_append_drop]
      obtain ⟨x, hx, hrequest⟩ := List.any_eq_true.mp hrequest
      have hmem := hfinal 2 _ _ _ hlog (finalizes_of_isDelivered hdelivered)
        ⟨x, hx, requests_of_isRequest hrequest⟩
      simpa [isAuthorizedNew] using List.all_eq_true.mp hnew _ hmem

/-- After the delivery of one run only the confirmation of the other goes out. -/
theorem delivered_final_once : Final (worldAfter receivedDb confirmedOnce).log ∧
    (worldAfter receivedDb confirmedOnce).log.any (isDelivered 2) ∧
    (worldAfter receivedDb confirmedOnce).log.any (isRequest 8) := by
  have hreach : World.Reach machine thread ownedWrites WellFormed (worldAfter receivedDb confirmedOnce) :=
    reach_worldAfter_of_permits wellFormed_receivedDb (by decide +kernel)
  exact ⟨delivered_final hreach, by decide +kernel, by decide +kernel⟩

end Histories

end PayrollAgent.DeliveredFinal
