import PayrollAgent.AttemptCosts
import PayrollAgent.Bookkeeping
import PayrollAgent.FailedRuns
import PayrollAgent.JobKeys
import PayrollAgent.OwedSends

namespace PayrollAgent.BoundedRequests

open Lib Repo Handlers Effects FreshIds JobSteps NewJobs JobKeys Commits Conduct FailedRuns AttemptCosts

/-- A call of thread `thread`, with what it was answered. -/
structure Call where
  thread : Nat
  op : Op
  answer : Except Exn (Ans op)

def Call.handed : Call → Option Job
  | ⟨_, .claimJob, .ok job⟩ => job
  | _ => none

def calls [PyText] (i : Nat) (env : Env) (op : Op) (db : Db) : List Call := [⟨i, op, (exec env op db).1⟩]

def caller [PyText] : Machine Op Ans Exn Db Env Call := ⟨exec, calls⟩

def handings (j : Uuid) (log : List Call) : Nat := log.countP fun c => c.handed.any fun job => job.id = j

/-- Thread `i` was handed job `j`. -/
def worksOn (i : Nat) (j : Uuid) (log : List Call) : Bool :=
  log.any fun c => c.thread = i ∧ c.handed.any fun job => job.id = j

def spentOn (j : Uuid) (log : List Call) : Nat :=
  (log.map fun c => if worksOn c.thread j log then price c.op else 0).sum

def delivers (e : Uuid) : Op → Bool
  | .send a => a.emailId = e
  | _ => false

def deliveries (e : Uuid) (log : List Call) : Nat :=
  (log.map fun c => if delivers e c.op then 1 else 0).sum

def spentBy (i : Nat) (log : List Call) : Nat :=
  ((log.filter fun c => c.thread = i).map fun c => price c.op).sum

def quota (lease : Option Job) : Nat := (lease.map fun job => perAttempt job.kind).getD 0

structure Accounts (i : Nat) (s : Work × Nat) (log : List Call) : Prop where
  listed : ∀ job, s.1.lease = some job → ∃ c ∈ log, c.thread = i ∧ c.handed = some job
  handed : ∀ c ∈ log, c.thread = i → ∀ job, c.handed = some job → s.1.lease = some job
  spent : spentBy i log + s.2 ≤ quota s.1.lease
  auths : ∀ a ∈ s.1.auths, ∃ job, s.1.lease = some job ∧ job.kind = .sendOutbound ∧
    job.emailId = some a.emailId

structure Ledger (n : Nat) (db : Db) (log : List Call) : Prop where
  fresh : Fresh db
  keys : UniqueKeys db
  ladder : JobsLaddered db
  threads : ∀ c ∈ log, c.thread < n
  rows : ∀ c ∈ log, ∀ job, c.handed = some job →
    ∃ row, db.jobs.get? job.id = some row ∧ row.kind = job.kind ∧ row.emailId = job.emailId
  attempts : ∀ j row, db.jobs.get? j = some row → handings j log ≤ row.attempts
  paid : ∀ c ∈ log, price c.op ≠ 0 → ∃ c' ∈ log, c'.thread = c.thread ∧ ∃ job, c'.handed = some job
  sends : ∀ c ∈ log, ∀ a, c.op = .send a → ∃ c' ∈ log, c'.thread = c.thread ∧
    ∃ job, c'.handed = some job ∧ job.kind = .sendOutbound ∧ job.emailId = some a.emailId

structure Start (db : Db) : Prop where
  fresh : Fresh db
  keys : UniqueKeys db
  enqueued : ∀ j row, db.jobs.get? j = some row → Enqueued row

section

variable [PyText] {env : Env} {db db' : Db} {op : Op} {a : Ans op} {i n : Nat} {j e : Uuid}
    {row row' : JobRow} {job : Job} {log : List Call} {c : Call} {s : Work × Nat}

theorem exec_cases (env : Env) (op : Op) (db : Db) :
    (exec env op db).2 = db ∨ ∃ a, Effect env db op a (exec env op db).2 := by
  rcases commit_cases 0 env op db with ⟨e, hexec, -⟩ | ⟨a, db', htxn, rfl, -⟩
  · exact .inl (by rw [hexec])
  · exact .inr ⟨a, txn_effect htxn⟩

omit [PyText] in
theorem attempts_le (h : JobStep env db db' j row op a row') : row.attempts ≤ row'.attempts := by
  have hgave : ∀ {state : JobState}, Unleased db.now state row row' → row.attempts ≤ row'.attempts := by
    rintro state ⟨availableAt, lastError, rfl⟩
    exact le_rfl
  cases h with
  | kept => exact le_rfl
  | leased => exact Nat.le_succ _
  | reapedInvalid _ _ _ _ hrow' => exact hgave hrow'
  | reapedReview _ _ _ hrow' => exact hgave hrow'
  | reapedOther _ hrow' => exact hgave hrow'
  | retired _ _ _ hrow' => exact hgave hrow'
  | settled _ _ _ _ hrow' => exact hgave hrow'
  | closed _ _ _ _ hrow' => exact hgave hrow'
  | released => exact le_rfl
  | advanced => exact le_rfl

theorem row_stays (hfresh : Fresh db) (hrow : db.jobs.get? j = some row) :
    ∃ row', (exec env op db).2.jobs.get? j = some row' ∧ SameKey row row' ∧
    row.attempts ≤ row'.attempts := by
  rcases exec_cases env op db with hdb | ⟨a, heffect⟩
  · exact ⟨row, by rw [hdb, hrow], .refl row, le_rfl⟩
  · obtain ⟨row', hrow', hsame⟩ := (jobsWrite heffect hfresh).stays hrow
    obtain ⟨row'', hrow'', hstep⟩ := jobStep heffect hfresh hrow
    obtain rfl := Option.some.inj (hrow''.symm.trans hrow')
    exact ⟨row'', hrow', hsame, attempts_le hstep⟩

theorem handed_exec (h : (Call.mk i op (exec env op db).1).handed = some job) :
    op = .claimJob ∧ ∃ row row', db.jobs.get? job.id = some row ∧
    (exec env op db).2.jobs.get? job.id = some row' ∧
      row'.attempts = row.attempts + 1 ∧ row'.kind = job.kind ∧ row'.emailId = job.emailId := by
  cases op with
  | claimJob =>
      refine ⟨rfl, ?_⟩
      rcases commit_cases 0 env .claimJob db with ⟨e, hexec, -⟩ | ⟨a, db', htxn, hdb, -, hanswer⟩
      · rw [hexec] at h
        cases h
      · obtain hok | ⟨e, herror⟩ := hanswer
        · rw [hok] at h
          obtain rfl : a = some job := h
          rw [hdb]
          have hclaim : claimJob env.picked db = (some job, db') := Except.ok.inj htxn
          unfold claimJob at hclaim
          split at hclaim
          · cases hclaim
          next row hrow =>
            split at hclaim
            · cases hclaim
              exact ⟨row, _, hrow, Dict.get?_set_self .., rfl, rfl, rfl⟩
            · cases hclaim
        · rw [herror] at h
          cases h
  | _ => cases h

theorem jobsLaddered_exec (hfresh : Fresh db) (h : JobsLaddered db) :
    JobsLaddered (exec env op db).2 := by
  apply exec_preserves h
  intro a db' htxn
  exact jobsLaddered_step h (txn_effect htxn) hfresh

def duty : Prog.Monitor Op Ans Exn (Work × Nat) := conduct.both tariff.monitor

omit [PyText] in
theorem handings_cons : handings j (c :: log) = handings j log + if c.handed.any
    (fun job => job.id = j) then 1 else 0 :=
  List.countP_cons ..

omit [PyText] in
theorem spentBy_cons :
    spentBy i (c :: log) = (if c.thread = i then price c.op else 0) + spentBy i log := by
  unfold spentBy
  by_cases hc : c.thread = i
  · rw [List.filter_cons_of_pos (by simpa using hc), List.map_cons, List.sum_cons, if_pos hc]
  · rw [List.filter_cons_of_neg (by simpa using hc), if_neg hc, Nat.zero_add]

omit [PyText] in
theorem Ledger.handings_zero (h : Ledger n db log) (hrow : db.jobs.get? j = none) :
    handings j log = 0 := by
  refine List.countP_eq_zero.mpr fun c hc hhanded => ?_
  obtain ⟨job, hjob, hid⟩ := (Option.any_eq_true _ _).mp hhanded
  obtain ⟨row, hrow', -⟩ := h.rows c hc job hjob
  rw [of_decide_eq_true hid, hrow] at hrow'
  cases hrow'

theorem Ledger.shared (h : Ledger n db log) (hi : i < n) (hs : Accounts i s log)
    (hallows : duty.allows s op) :
    Ledger n (exec env op db).2 (⟨i, op, (exec env op db).1⟩ :: log) where
  fresh := fresh_exec h.fresh
  keys := uniqueKeys_exec env op h.fresh h.keys
  ladder := jobsLaddered_exec h.fresh h.ladder
  threads := List.forall_mem_cons.mpr ⟨hi, h.threads⟩
  rows := by
    refine List.forall_mem_cons.mpr ⟨fun job hjob => ?_, fun c hc job hjob => ?_⟩
    · obtain ⟨-, row, row', -, hrow', -, hkind, hmail⟩ := handed_exec hjob
      exact ⟨row', hrow', hkind, hmail⟩
    · obtain ⟨row, hrow, hkind, hmail⟩ := h.rows c hc job hjob
      obtain ⟨row', hrow', hsame, -⟩ := @row_stays _ env db op _ row h.fresh hrow
      exact ⟨row', hrow', hsame.kind.trans hkind, hsame.emailId.trans hmail⟩
  attempts := by
    intro j row' hrow'
    rw [handings_cons]
    cases hhanded : (Call.mk i op (exec env op db).1).handed.any fun job => job.id = j with
    | true =>
        obtain ⟨job, hjob, hid⟩ := (Option.any_eq_true _ _).mp hhanded
        obtain rfl := of_decide_eq_true hid
        obtain ⟨-, row, row'', hrow, hrow'', hcount, -⟩ := handed_exec hjob
        obtain rfl := Option.some.inj (hrow''.symm.trans hrow')
        rw [hcount]
        exact Nat.succ_le_succ (h.attempts _ row hrow)
    | false =>
        cases hrow : db.jobs.get? j with
        | none =>
            rw [h.handings_zero hrow]
            exact Nat.zero_le _
        | some row =>
            obtain ⟨row'', hrow'', -, hle⟩ := @row_stays _ env db op j row h.fresh hrow
            obtain rfl := Option.some.inj (hrow''.symm.trans hrow')
            exact (h.attempts j row hrow).trans hle
  paid := by
    have holder : ∀ c ∈ log, price c.op ≠ 0 → ∃ c' ∈ Call.mk i op (exec env op db).1 :: log,
      c'.thread = c.thread ∧ ∃ job, c'.handed = some job := fun c hc hprice => by
      obtain ⟨c', hc', hsame⟩ := h.paid c hc hprice
      exact ⟨c', List.mem_cons_of_mem _ hc', hsame⟩
    refine List.forall_mem_cons.mpr ⟨fun hprice => ?_, holder⟩
    have hleft : price op ≤ s.2 := hallows.2
    have hquota := hs.spent
    cases hlease : s.1.lease with
    | none =>
        rw [hlease] at hquota
        change _ ≤ 0 at hquota
        exact absurd (show price op = 0 by omega) hprice
    | some job =>
        obtain ⟨c', hc', hthread, hjob⟩ := hs.listed job hlease
        exact ⟨c', List.mem_cons_of_mem _ hc', hthread, job, hjob⟩
  sends := by
    have holder : ∀ c ∈ log, ∀ a, c.op = .send a → ∃ c' ∈ Call.mk i op (exec env op db).1 :: log,
      c'.thread = c.thread ∧
        ∃ job, c'.handed = some job ∧ job.kind = .sendOutbound ∧ job.emailId = some a.emailId :=
        fun c hc a ha => by
      obtain ⟨c', hc', hsame⟩ := h.sends c hc a ha
      exact ⟨c', List.mem_cons_of_mem _ hc', hsame⟩
    refine List.forall_mem_cons.mpr ⟨?_, holder⟩
    rintro a rfl
    obtain ⟨job, hlease, hkind, hmail⟩ := hs.auths a hallows.1.1
    obtain ⟨c', hc', hthread, hjob⟩ := hs.listed job hlease
    exact ⟨c', List.mem_cons_of_mem _ hc', hthread, job, hjob, hkind, hmail⟩

omit [PyText] in
theorem lease_next {t : Work} (x : Except Exn (Ans op)) (h : (Call.mk i op x).handed = none) :
    (conduct.next t op x).lease = t.lease := by
  cases x with
  | error e => rfl
  | ok a =>
      show (t.told op a).lease = t.lease
      unfold Work.told
      split
      · cases h
      · rfl
      · rfl
      · split <;> rfl
      all_goals rfl

omit [PyText] in
theorem auths_next {t : Work} {x : Except Exn (Ans op)} {a : Authorization}
    (h : a ∈ (conduct.next t op x).auths) :
    a ∈ t.auths ∨ ∃ job, op = .authorizeOutboundProviderHandoff job ∧
      x ≍ (.ok (.authorized a) : Except Exn (Ans (.authorizeOutboundProviderHandoff job))) := by
  cases x with
  | error e => exact .inl h
  | ok answer =>
      change a ∈ (t.told op answer).auths at h
      unfold Work.told at h
      split at h
      · exact .inl h
      · exact .inl h
      · exact .inl h
      · split at h <;> exact .inl h
      · exact .inl h
      · exact .inl h
      · exact .inl h
      · exact .inl h
      next job a' =>
        obtain rfl | h := List.mem_cons.mp h
        · exact .inr ⟨job, rfl, HEq.rfl⟩
        · exact .inl h
      · exact .inl h

omit [PyText] in
theorem left_next {left : Nat} (x : Except Exn (Ans op)) (h : (Call.mk i op x).handed = none) :
    tariff.monitor.next left op x = left - price op := by
  have hgrant : grant op x = none := by
    unfold grant
    split
    · cases h
    · rfl
  show (grant op x).getD (left - price op) = left - price op
  rw [hgrant, Option.getD_none]

theorem Ledger.authorized (h : Ledger n db log) (hs : Accounts i s log) {a : Authorization}
    (hlease : s.1.lease = some job)
    (hok : (exec env (.authorizeOutboundProviderHandoff job) db).1 = .ok (.authorized a)) :
    job.emailId = some a.emailId := by
  rcases commit_cases 0 env (.authorizeOutboundProviderHandoff job) db with
    ⟨e, hexec, -⟩ | ⟨answer, db', htxn, -, -, hanswer⟩
  · rw [hexec] at hok
    cases hok
  · obtain hanswer | ⟨e, herror⟩ := hanswer
    · rw [hanswer] at hok
      obtain rfl := Except.ok.inj hok
      obtain ⟨row, leasedUntil, m, run, hover⟩ := Bookkeeping.handedOver (txn_effect htxn)
      obtain ⟨hrow, -⟩ := lockedJob_some hover.may.locked
      obtain ⟨-, hmail, -⟩ := sendContext_some hover.may.names
      obtain ⟨c, hc, -, hjob⟩ := hs.listed job hlease
      obtain ⟨row', hrow', -, hsame⟩ := h.rows c hc job hjob
      obtain rfl := Option.some.inj (hrow.symm.trans hrow')
      exact hsame.symm.trans hmail
    · rw [herror] at hok
      cases hok

theorem Ledger.own (h : Ledger n db log) (hs : Accounts i s log) (hallows : duty.allows s op) :
    Accounts i (duty.next s op (exec env op db).1) (⟨i, op, (exec env op db).1⟩ :: log) := by
  have hspent := hs.spent
  cases hhanded : (Call.mk i op (exec env op db).1).handed with
  | some job =>
      obtain ⟨rfl, -⟩ := handed_exec hhanded
      have hanswer : (exec env .claimJob db).1 = .ok (some job) := by
        cases hx : (exec env .claimJob db).1 with
        | error e =>
            rw [hx] at hhanded
            cases hhanded
        | ok answer =>
            rw [hx] at hhanded
            exact congrArg Except.ok hhanded
      rw [hanswer] at hhanded ⊢
      -- a thread claims once
      have hnone : s.1.lease = none := hallows.1.1.1
      rw [hnone] at hspent
      change spentBy i log + s.2 ≤ 0 at hspent
      refine ⟨?_, List.forall_mem_cons.mpr ⟨fun _ => ?_, fun c hc hthread job' hjob' => ?_⟩, ?_,
        fun a ha => ?_⟩
      · rintro _ ⟨⟩
        exact ⟨_, List.mem_cons_self, rfl, hhanded⟩
      · intro job' hjob'
        rw [hhanded] at hjob'
        cases hjob'
        rfl
      · have hlease := hs.handed c hc hthread job' hjob'
        rw [hnone] at hlease
        cases hlease
      · rw [spentBy_cons, if_pos rfl]
        show 0 + spentBy i log + perAttempt job.kind ≤ perAttempt job.kind
        omega
      · obtain ⟨job', hlease, -⟩ := hs.auths a ha
        rw [hnone] at hlease
        cases hlease
  | none =>
      have hlease : (duty.next s op (exec env op db).1).1.lease = s.1.lease := lease_next _ hhanded
      have hleft : (duty.next s op (exec env op db).1).2 = s.2 - price op := left_next _ hhanded
      have hprice : price op ≤ s.2 := hallows.2
      refine ⟨fun job hjob => ?_, List.forall_mem_cons.mpr ⟨fun _ job hjob => ?_,
        fun c hc hthread job hjob => ?_⟩, ?_, fun a ha => ?_⟩
      · rw [hlease] at hjob
        obtain ⟨c, hc, hsame⟩ := hs.listed job hjob
        exact ⟨c, List.mem_cons_of_mem _ hc, hsame⟩
      · rw [hhanded] at hjob
        cases hjob
      · rw [hlease]
        exact hs.handed c hc hthread job hjob
      · rw [hlease, hleft, spentBy_cons, if_pos rfl]
        show price op + spentBy i log + (s.2 - price op) ≤ quota s.1.lease
        omega
      · rw [hlease]
        obtain ha | ⟨job, rfl, hanswer⟩ := auths_next ha
        · exact hs.auths a ha
        · obtain ⟨hjob, hkind⟩ : s.1.lease = some job ∧ job.kind = .sendOutbound := hallows.1.1
          exact ⟨job, hjob, hkind, h.authorized hs hjob (eq_of_heq hanswer)⟩

omit [PyText] in
theorem Accounts.other {k : Nat} (hs : Accounts i s log) (hk : c.thread = k) (hi : i ≠ k) :
    Accounts i s (c :: log) := by
  have hne : c.thread ≠ i := fun h => hi (h.symm.trans hk)
  refine ⟨fun job hjob => ?_, List.forall_mem_cons.mpr ⟨fun h => absurd h hne, hs.handed⟩, ?_, hs.auths⟩
  · obtain ⟨c', hc', hsame⟩ := hs.listed job hjob
    exact ⟨c', List.mem_cons_of_mem _ hc', hsame⟩
  · rw [spentBy_cons, if_neg hne, Nat.zero_add]
    exact hs.spent

omit [PyText] in
theorem spentBy_zero (h : ∀ c ∈ log, c.thread ≠ i) : spentBy i log = 0 := by
  unfold spentBy
  rw [List.filter_eq_nil_iff.mpr fun c hc => by simpa using h c hc]
  rfl

omit [PyText] in
theorem Start.ledger (h : Start db) : Ledger 0 db [] where
  fresh := h.fresh
  keys := h.keys
  ladder j row hrow := laddered_of_enqueued (h.enqueued j row hrow)
  threads _ hc := absurd hc List.not_mem_nil
  rows _ hc := absurd hc List.not_mem_nil
  attempts _ _ _ := Nat.zero_le _
  paid _ hc := absurd hc List.not_mem_nil
  sends _ hc := absurd hc List.not_mem_nil

omit [PyText] in
theorem Ledger.spawned (h : Ledger n db log) : Ledger (n + 1) db log ∧ Accounts n (Work.fresh, 0)
    log := by
  refine ⟨{ h with threads := fun c hc => (h.threads c hc).trans (Nat.lt_succ_self n) }, ?_⟩
  refine ⟨fun _ hlease => ?_, fun c hc hthread => ?_, ?_, fun a ha => absurd ha List.not_mem_nil⟩
  · cases hlease
  · exact absurd (h.threads c hc) (by omega)
  · rw [spentBy_zero fun c hc => (h.threads c hc).ne]
    exact le_rfl

theorem thread_follows_duty (t : Thread) : Prog.Follows duty (fun _ _ => True) (thread t)
    (Work.fresh, 0) :=
  ((Conduct.thread_follows t).both (thread_within t)).mono fun _ _ _ => trivial

theorem kept : World.Kept caller thread World.Rules.any Start duty (Work.fresh, 0)
    Ledger fun i s _ log => Accounts i s log where
  init _ h := h.ledger
  follows k _ := thread_follows_duty k
  fresh _ _ _ h := h.spawned
  shared _ _ _ _ _ _ _ hi hG hs hallows _ := hG.shared hi hs hallows
  own _ _ _ _ _ _ _ _ hG hs hallows _ := hG.own hs hallows
  other _ _ _ _ _ _ _ _ _ _ _ _ _ _ hj hs := hs.other rfl hj

omit [PyText] in
theorem worksOn_iff : worksOn i j log = true ↔ ∃ c ∈ log, c.thread = i ∧
    ∃ job, c.handed = some job ∧ job.id = j := by
  simp [worksOn, List.any_eq_true, Option.any_eq_true]

section Reached

variable {w : World Op Ans Exn Db Call}

theorem spentBy_le (hreach : World.Reach caller thread World.Rules.any Start w) (hc : c ∈ w.log)
    (hthread : c.thread = i)
    (hjob : c.handed = some job) : spentBy i w.log ≤ perAttempt job.kind := by
  obtain ⟨hledger, hthreads⟩ := kept.reach hreach
  have hi : i < w.threads.length := hthread ▸ hledger.threads c hc
  obtain ⟨s, -, hs⟩ := hthreads i _ (List.getElem?_eq_getElem hi)
  have hspent := hs.spent
  rw [hs.handed c hc hthread job hjob] at hspent
  exact (Nat.le_add_right _ _).trans hspent

theorem spentOn_group (hreach : World.Reach caller thread World.Rules.any Start w)
    (hrow : w.data.jobs.get? j = some row)
    (k : Nat) : ((w.log.filter fun c => c.thread = k).map fun c => if worksOn c.thread j w.log then
    price c.op else 0).sum ≤ perAttempt row.kind := by
  cases hworks : worksOn k j w.log with
  | true =>
      obtain ⟨c, hc, hthread, job, hjob, rfl⟩ := worksOn_iff.mp hworks
      obtain ⟨row', hrow', hkind, -⟩ := (kept.reach hreach).1.rows c hc job hjob
      obtain rfl := Option.some.inj (hrow'.symm.trans hrow)
      rw [hkind]
      refine (List.sum_le_sum fun c _ => ?_).trans (spentBy_le hreach hc hthread hjob)
      split
      · exact le_rfl
      · exact Nat.zero_le _
  | false =>
      rw [List.sum_eq_zero]
      · exact Nat.zero_le _
      · intro x hx
        obtain ⟨c, hc, rfl⟩ := List.mem_map.mp hx
        have hthread : c.thread = k := by simpa using (List.mem_filter.mp hc).2
        rw [hthread, hworks]
        rfl

theorem handings_le (hreach : World.Reach caller thread World.Rules.any Start w)
    (hrow : w.data.jobs.get? j = some row) :
    handings j w.log ≤ row.attempts ∧ row.attempts ≤ maxAttempts row.kind := by
  have hledger := (kept.reach hreach).1
  have hladder := hledger.ladder j row hrow
  exact ⟨hledger.attempts j row hrow, hladder.maxAttempts ▸ hladder.attempts⟩

/-- However the workers crash, lose their leases and retry, a job is handed out
at most as often as its counter says and its ladder allows, all its attempts
together make so many requests and no more, and no request is made for no job. -/
theorem requests_bounded (hreach : World.Reach caller thread World.Rules.any Start w)
    (hrow : w.data.jobs.get? j = some row) :
    handings j w.log ≤ row.attempts ∧ row.attempts ≤ maxAttempts row.kind ∧
      spentOn j w.log ≤ handings j w.log * perAttempt row.kind ∧
        ∀ c ∈ w.log, price c.op ≠ 0 → ∃ i row, w.data.jobs.get? i = some row ∧
        worksOn c.thread i w.log = true := by
  have hledger := (kept.reach hreach).1
  obtain ⟨hcount, hladder⟩ := handings_le hreach hrow
  refine ⟨hcount, hladder, ?_, fun c hc hprice => ?_⟩
  · refine sum_le_marks Call.thread _ w.log (spentOn_group hreach hrow) fun c hc hweight => ?_
    have hworks : worksOn c.thread j w.log = true := by
      by_contra hidle
      exact hweight (if_neg hidle)
    obtain ⟨c', hc', hthread, job, hjob, hid⟩ := worksOn_iff.mp hworks
    exact ⟨c', hc', (Option.any_eq_true _ _).mpr ⟨job, hjob, decide_eq_true hid⟩, hthread⟩
  · obtain ⟨c', hc', hthread, job, hjob⟩ := hledger.paid c hc hprice
    obtain ⟨row', hrow', -⟩ := hledger.rows c' hc' job hjob
    exact ⟨job.id, row', hrow', worksOn_iff.mpr ⟨c', hc', hthread, job, hjob, rfl⟩⟩

def handsSend (e : Uuid) (c : Call) : Bool := c.handed.any fun job => job.kind = .sendOutbound ∧
    job.emailId = some e

omit [PyText] in
theorem handsSend_iff : handsSend e c = true ↔ ∃ job, c.handed = some job ∧
    job.kind = .sendOutbound ∧ job.emailId = some e := by
  simp [handsSend, Option.any_eq_true]

omit [PyText] in
theorem delivers_iff : delivers e op = true ↔ ∃ a, op = .send a ∧ a.emailId = e := by
  cases op <;> simp [delivers]

theorem deliveries_group (hreach : World.Reach caller thread World.Rules.any Start w) (e : Uuid)
    (k : Nat) :
    ((w.log.filter fun c => c.thread = k).map fun c => if delivers e c.op then 1 else 0).sum ≤ 1 := by
  by_cases hsends : ∃ c ∈ w.log, c.thread = k ∧ delivers e c.op = true
  · obtain ⟨c, hc, hthread, hdelivers⟩ := hsends
    obtain ⟨a, ha, rfl⟩ := delivers_iff.mp hdelivers
    obtain ⟨c', hc', hsame, job, hjob, hkind, -⟩ := (kept.reach hreach).1.sends c hc a ha
    have hquota := spentBy_le hreach hc' (hsame.trans hthread) hjob
    rw [hkind] at hquota
    refine (List.sum_le_sum fun c _ => ?_).trans hquota
    split
    next h =>
      obtain ⟨a', ha', -⟩ := delivers_iff.mp h
      rw [ha']
      exact le_rfl
    · exact Nat.zero_le _
  · rw [List.sum_eq_zero]
    · exact Nat.zero_le _
    · intro x hx
      obtain ⟨c, hc, rfl⟩ := List.mem_map.mp hx
      obtain ⟨hc, hthread⟩ := List.mem_filter.mp hc
      rw [if_neg]
      exact fun h => hsends ⟨c, hc, by simpa using hthread, h⟩

/-- No message is handed to the provider more often than the ladder of its one
send job allows. -/
theorem deliveries_bounded (hreach : World.Reach caller thread World.Rules.any Start w) (e : Uuid) :
    deliveries e w.log ≤ 8 := by
  have hledger := (kept.reach hreach).1
  have hmarks : deliveries e w.log ≤ w.log.countP (handsSend e) * 1 := by
    refine sum_le_marks Call.thread _ w.log (deliveries_group hreach e) fun c hc hweight => ?_
    have hdelivers : delivers e c.op = true := by
      by_contra hother
      exact hweight (if_neg hother)
    obtain ⟨a, ha, rfl⟩ := delivers_iff.mp hdelivers
    obtain ⟨c', hc', hthread, hjob⟩ := hledger.sends c hc a ha
    exact ⟨c', hc', handsSend_iff.mpr hjob, hthread⟩
  rw [Nat.mul_one] at hmarks
  refine hmarks.trans ?_
  by_cases hnone : ∃ c ∈ w.log, handsSend e c = true
  · obtain ⟨c, hc, hhands⟩ := hnone
    obtain ⟨job, hjob, hkind, hmail⟩ := handsSend_iff.mp hhands
    obtain ⟨row, hrow, hsame, hsameMail⟩ := hledger.rows c hc job hjob
    -- the message has one send job
    have hone : w.log.countP (handsSend e) ≤ handings job.id w.log := by
      refine List.countP_mono_left fun c' hc' hhands' => ?_
      obtain ⟨job', hjob', hkind', hmail'⟩ := handsSend_iff.mp hhands'
      obtain ⟨row', hrow', hsame', hsameMail'⟩ := hledger.rows c' hc' job' hjob'
      have hid := hledger.keys.send_unique hrow' hrow (hsame'.trans hkind') (hsame.trans hkind)
        (hsameMail'.trans hmail') (hsameMail.trans hmail)
      exact (Option.any_eq_true _ _).mpr ⟨job', hjob', decide_eq_true hid⟩
    obtain ⟨hcount, hladder⟩ := handings_le hreach hrow
    rw [hsame, hkind] at hladder
    exact hone.trans (hcount.trans hladder)
  · rw [List.countP_eq_zero.mpr fun c hc h => hnone ⟨c, hc, h⟩]
    exact Nat.zero_le _

end Reached

/-- The history that starts in `db`, with all its calls. -/
def calledAfter (db : Db) (es : List (Event Thread Env)) : World Op Ans Exn Db Call :=
  World.steps caller thread ⟨db, [], []⟩ es

end

section Histories

attribute [local instance] asciiText

theorem start_owedDb : Start OwedSends.owedDb := by
  have hjob : ∀ {j row}, OwedSends.owedDb.jobs.get? j = some row → j = 6 ∧ row = sendJob 2 5 :=
    fun h => by
    simpa using Dict.get?_ofList_mem h
  refine ⟨Fresh.of_keys (by decide), ⟨fun j row hrow => ?_, fun i j row row' hi hj _ => ?_⟩,
    fun j row hrow => ?_⟩
  · obtain ⟨rfl, rfl⟩ := hjob hrow
    exact .sendOutbound 2 5
  · rw [(hjob hi).1, (hjob hj).1]
  · obtain ⟨rfl, rfl⟩ := hjob hrow
    exact ⟨rfl, rfl, rfl, rfl, rfl⟩

def sentTwice : List (Event Thread Env) :=
  OwedSends.retriedSend ++ [.spawn (.pass 5000), .run 1 {}, .spawn .worker, .run 2 { picked := 6 }] ++
    List.replicate 4 (.run 2 {})

theorem requests_bounded_twice :
    ∃ row, (calledAfter OwedSends.owedDb sentTwice).data.jobs.get? 6 = some row ∧
      handings 6 (calledAfter OwedSends.owedDb sentTwice).log = 2 ∧ 2 ≤ row.attempts ∧
      spentOn 6 (calledAfter OwedSends.owedDb sentTwice).log ≤ 2 * perAttempt row.kind := by
  have hreach : World.Reach caller thread World.Rules.any Start
    (calledAfter OwedSends.owedDb sentTwice) :=
    (World.Reach.start start_owedDb).steps_any sentTwice
  have hjob : ((calledAfter OwedSends.owedDb sentTwice).data.jobs.get? 6).isSome = true := by
    decide +kernel
  have hhanded : handings 6 (calledAfter OwedSends.owedDb sentTwice).log = 2 := by decide +kernel
  generalize calledAfter OwedSends.owedDb sentTwice = w at *
  obtain ⟨row, hrow⟩ := Option.isSome_iff_exists.mp hjob
  obtain ⟨hcount, -, hspent, -⟩ := requests_bounded hreach hrow
  rw [hhanded] at hcount hspent
  exact ⟨row, hrow, hhanded, hcount, hspent⟩

theorem deliveries_bounded_twice : deliveries 5 (calledAfter OwedSends.owedDb sentTwice).log = 2 ∧
    deliveries 5 (calledAfter OwedSends.owedDb sentTwice).log ≤ 8 :=
  ⟨by decide +kernel, deliveries_bounded ((World.Reach.start start_owedDb).steps_any sentTwice) 5⟩

end Histories

end PayrollAgent.BoundedRequests
