import PayrollAgent.HeldTokens
import PayrollAgent.Lib.Interpret

namespace PayrollAgent.ClaimWindow

open Lib Repo Handlers Effects FreshIds NewJobs Drain

structure Process where
  db : Db
  held : List Uuid
  claimsInFlight : Nat

/-- A transaction, or what a thread does while it holds the lock of the tokens. -/
inductive Call
  | core (op : Op)
  | enter
  | claim
  | leave (claimed : Option Job)
  | forget (job : Job)
  | look
  | lastLook
  | release (tokens : List Uuid)

def Reply : Call → Type
  | .core op => Ans op
  | .claim => Option Job
  | .look => Option (List Uuid)
  | .lastLook => List Uuid
  | _ => Unit

abbrev Act (α : Type) := Prog Call Reply Exn α

def perform (call : Call) : Act (Reply call) := Prog.perform call

def lift {α : Type} (p : Orchestrator.Act α) : Act α := p.interpret fun op => perform (.core op)

/-- The claim between the two steps under the lock. An exception leaves `job`
at None, and escapes. -/
def claimJob : Act (Option Job) := do
  perform .enter
  let claimed : Option Job ← (perform .claim).catching fun e => do
    perform (.leave none)
    .raise e
  perform (.leave claimed)
  pure claimed

/-- `heldTokens polls` sleeps at most `polls` times before its deadline. -/
def heldTokens : Nat → Act (List Uuid)
  | 0 => perform .lastLook
  | polls + 1 => do
      let tokens : Option (List Uuid) ← perform .look
      match tokens with
      | some tokens => pure tokens
      | none => heldTokens polls

/-- What `stop()` does after it joined its threads. -/
def releaseHeld (polls : Nat) : Act Unit := do
  let tokens ← heldTokens polls
  perform (.release tokens)

/-- What the threads did with the leases, newest first. A look carries the
number of claims in flight. -/
inductive Note
  | entered (i : Nat)
  | granted (i : Nat) (job : Job)
  | left (i : Nat)
  | forgot (i : Nat) (job : Job)
  | looked (i : Nat) (pending : Nat)
  | released (i : Nat)
  deriving DecidableEq

def Note.thread : Note → Nat
  | .entered i | .granted i _ | .left i | .forgot i _ | .looked i _ | .released i => i

section

variable [PyText]

def drainOnce : Act Drained := do
  let claimed ← claimJob
  match claimed with
  | none => do
      let reaped : Option SettlementOutcome ← perform (.core .reapExpiredFinalAttempt)
      match reaped with
      | none => pure { outcome := .empty }
      | some settled => pure { outcome := mapSettlementOutcome settled }
  | some job => do
      let result ← lift (attempt job)
      let settled ← lift (settle job (settledResult job result))
      if leaseIsSettled job.kind settled then do
        perform (.forget job)
        pure (drainedJob job settled)
      else pure (drainedJob job settled)

def exec (env : Env) : (call : Call) → Process → Except Exn (Reply call) × Process
  | .core op, p => ((PayrollAgent.exec env op p.db).1, { p with db := (PayrollAgent.exec env op p.db).2 })
  | .claim, p =>
      ((PayrollAgent.exec env .claimJob p.db).1,
        { p with db := (PayrollAgent.exec env .claimJob p.db).2 })
  | .enter, p => (.ok (), { p with claimsInFlight := p.claimsInFlight + 1 })
  | .leave claimed, p =>
      (.ok (),
        { p with
          held := (claimed.map Job.leaseToken).toList ++ p.held
          claimsInFlight := p.claimsInFlight - 1 })
  | .forget job, p => (.ok (), { p with held := p.held.filter (· ≠ job.leaseToken) })
  | .look, p => (.ok (if p.claimsInFlight = 0 then some p.held else none), p)
  | .lastLook, p => (.ok p.held, p)
  | .release tokens, p =>
      ((PayrollAgent.exec env (.releaseLeases tokens) p.db).1,
        { p with db := (PayrollAgent.exec env (.releaseLeases tokens) p.db).2 })

def notes (i : Nat) (p : Process) : (call : Call) → Except Exn (Reply call) → List Note
  | .enter, .ok _ => [.entered i]
  | .claim, .ok (some job) => [.granted i job]
  | .leave _, .ok _ => [.left i]
  | .forget job, .ok _ => [.forgot i job]
  | .look, .ok (some _) | .lastLook, .ok _ => [.looked i p.claimsInFlight]
  | .release _, .ok _ => [.released i]
  | _, _ => []

def window : Machine Call Reply Exn Process Env Note :=
  ⟨exec, fun i env call p => notes i p call (exec env call p).1⟩

/-- A call of `drain_once` by a worker or the pump, the release of a shutdown,
and any other thread over the same database, of this process or another. -/
inductive Party
  | drain
  | stop (polls : Nat)
  | other (k : Handlers.Thread)

def party : Party → Act Unit
  | .drain => do
      let _ ← drainOnce
      pure ()
  | .stop polls => releaseHeld polls
  | .other k => lift (thread k)

def outer : (call : Call) → Orchestrator.Act (Reply call)
  | .core op => Orchestrator.perform op
  | .claim => Orchestrator.perform .claimJob
  | .look => pure none
  | .lastLook => pure []
  | .release tokens => Orchestrator.perform (.releaseLeases tokens)
  | .enter | .leave _ | .forget _ => pure ()

omit [PyText] in
theorem outer_lift {α : Type} (p : Orchestrator.Act α) : (lift p).interpret outer = p :=
  Prog.interpret_interpret p fun op => by
    refine congrArg (Prog.call op) (funext fun x => ?_)
    cases x with
    | ok a => rfl
    | error e => rfl

/-- Under its lock `drain_once` does what it does without. -/
theorem outer_drainOnce : drainOnce.interpret outer = Drain.drainOnce := by
  have hclaim : ∀ f : Option Job → Act Drained,
      (claimJob >>= f).interpret outer =
        ((Orchestrator.perform .claimJob : Orchestrator.Act (Option Job)) >>= fun claimed =>
        (f claimed).interpret outer) := by
    intro f
    refine congrArg (Prog.call Op.claimJob) (funext fun x => ?_)
    cases x with
    | ok a => rfl
    | error e => rfl
  refine (hclaim _).trans (congrArg (Prog.bind _) (funext fun claimed => ?_))
  cases claimed with
  | none =>
      refine congrArg (Prog.call Op.reapExpiredFinalAttempt) (funext fun x => ?_)
      cases x with
      | ok reaped =>
          cases reaped with
          | none => rfl
          | some settled => rfl
      | error e => rfl
  | some job =>
      refine (Prog.interpret_bind _ _).trans ?_
      rw [outer_lift]
      refine congrArg (Prog.bind _) (funext fun result => ?_)
      refine (Prog.interpret_bind _ _).trans ?_
      rw [outer_lift]
      refine congrArg (Prog.bind _) (funext fun settled => ?_)
      by_cases hsettled : leaseIsSettled job.kind settled = true
      · rw [if_pos hsettled]
        rfl
      · rw [if_neg hsettled]
        rfl

end

inductive Stage
  | outside
  | inside (claimed : Option Job)
  | left (claimed : Option Job)
  | looked (tokens : List Uuid)
  | finished

def Stage.allows (s : Stage) : Call → Prop
  | .core _ => True
  | .enter => s = .outside
  | .claim => s = .inside none
  | .leave claimed => s = .inside claimed
  | .forget job => s = .left (some job)
  | .look | .lastLook => s = .outside
  | .release tokens => s = .looked tokens

def Stage.next (s : Stage) : (call : Call) → Except Exn (Reply call) → Stage
  | .enter, .ok _ => .inside none
  | .claim, .ok (some job) => .inside (some job)
  | .leave claimed, .ok _ => .left claimed
  | .forget _, .ok _ => .finished
  | .look, .ok (some tokens) | .lastLook, .ok tokens => .looked tokens
  | .release _, .ok _ => .finished
  | _, _ => s

def order : Prog.Monitor Call Reply Exn Stage := ⟨Stage.allows, Stage.next⟩

theorem follows_lift {α : Type} (p : Orchestrator.Act α) (s : Stage) :
    Prog.Follows order (fun t _ => t = s) (lift p) s := by
  refine Prog.Follows.interpret p fun op => ?_
  refine Prog.follows_perform.mpr ⟨trivial, fun x => ?_⟩
  cases x with
  | ok a => rfl
  | error e => rfl

theorem follows_claimJob :
    Prog.Follows order (fun t x => ∀ claimed, x = .ok claimed → t = .left claimed) claimJob .outside := by
  refine ⟨rfl, fun entered => ?_⟩
  cases entered with
  | error e =>
      intro claimed h
      cases h
  | ok _ =>
      refine ⟨rfl, fun answer => ?_⟩
      cases answer with
      | error e =>
          refine ⟨rfl, fun _ => ?_⟩
          cases ‹Except Exn Unit› with
          | error e =>
              intro claimed h
              cases h
          | ok _ =>
              intro claimed h
              cases h
      | ok claimed =>
          have hinside : (Stage.inside none).next .claim (.ok claimed) = .inside claimed := by
            cases claimed with
            | none => rfl
            | some job => rfl
          refine ⟨hinside, fun x => ?_⟩
          cases x with
          | error e =>
              intro claimed' h
              cases h
          | ok _ =>
              intro claimed' h
              cases h
              rfl

theorem follows_drainOnce [PyText] : Prog.Follows order (fun _ _ => True) drainOnce .outside := by
  refine follows_claimJob.bind (fun t claimed hleft => ?_) fun _ _ _ => trivial
  rw [hleft claimed rfl]
  cases claimed with
  | none =>
      refine ⟨trivial, fun x => ?_⟩
      cases x with
      | error e => trivial
      | ok reaped =>
          cases reaped with
          | none => trivial
          | some settled => trivial
  | some job =>
      refine (follows_lift _ _).bind (fun t result ht => ?_) fun _ _ _ => trivial
      refine (follows_lift _ _).bind (fun u settled hu => ?_) fun _ _ _ => trivial
      rw [hu, ht]
      refine Prog.Follows.ite (fun _ => ?_) fun _ => trivial
      refine ⟨rfl, fun x => ?_⟩
      cases x with
      | ok _ => trivial
      | error e => trivial

theorem follows_heldTokens (polls : Nat) :
    Prog.Follows order (fun t x => ∀ tokens, x = .ok tokens → t = .looked tokens) (heldTokens polls)
    .outside := by
  induction polls with
  | zero =>
      refine ⟨rfl, fun x => ?_⟩
      cases x with
      | error e =>
          intro tokens h
          cases h
      | ok answer =>
          intro tokens h
          cases h
          rfl
  | succ polls ih =>
      refine ⟨rfl, fun x => ?_⟩
      cases x with
      | error e =>
          intro tokens h
          cases h
      | ok answer =>
          cases answer with
          | none => exact ih
          | some tokens =>
              intro tokens' h
              cases h
              rfl

theorem follows_party [PyText] (k : Party) : Prog.Follows order (fun _ _ => True) (party k) .outside := by
  cases k with
  | drain => exact follows_drainOnce.bind (fun _ _ _ => trivial) fun _ _ _ => trivial
  | stop polls =>
      refine (follows_heldTokens polls).bind (fun t tokens ht => ?_) fun _ _ _ => trivial
      rw [ht tokens rfl]
      refine ⟨rfl, fun x => ?_⟩
      cases x with
      | ok _ => trivial
      | error e => trivial
  | other k => exact (follows_lift _ _).mono fun _ _ _ => trivial

def inWindow (log : List Note) (i : Nat) : Bool := .entered i ∈ log && .left i ∉ log

/-- A lease that this process was handed, recorded and has not let go. -/
def Keeps (log : List Note) (i : Nat) (job : Job) : Prop :=
  .granted i job ∈ log ∧ .left i ∈ log ∧ .forgot i job ∉ log

/-- A lease that the process had and had not let go when a look of thread `k`
found no claim in flight. -/
def Seen (k : Nat) (job : Job) (log : List Note) : Prop :=
  ∃ since before, log = since ++ .looked k 0 :: before ∧ ∃ i, .granted i job ∈ before ∧
    .forgot i job ∉ before

def GivenBack (job : Job) (log : List Note) : Prop :=
  ∃ k since before, log = since ++ .released k :: before ∧ Seen k job before

structure Inv (n : Nat) (p : Process) (log : List Note) : Prop where
  fresh : Fresh p.db
  known : ∀ note ∈ log, note.thread < n
  counted : p.claimsInFlight = (List.range n).countP (inWindow log)
  held : ∀ token, token ∈ p.held ↔ ∃ i job, Keeps log i job ∧ job.leaseToken = token
  drawn : ∀ i job, .granted i job ∈ log → job.leaseToken < p.db.nextId
  apart : ∀ i job k job', .granted i job ∈ log → .granted k job' ∈ log →
    job.leaseToken = job'.leaseToken → i = k ∧ job = job'
  entered : ∀ i job, .granted i job ∈ log → .entered i ∈ log
  returned : ∀ job, GivenBack job log → job.leaseToken < p.db.nextId ∧ lockedJob p.db job = none

def Stage.Noted (i : Nat) (log : List Note) : Stage → Prop
  | .outside => ∀ note ∈ log, note.thread ≠ i
  | .inside claimed => .entered i ∈ log ∧ .left i ∉ log ∧ (∀ job, .forgot i job ∉ log) ∧
      ∀ job, .granted i job ∈ log ↔ claimed = some job
  | .left claimed =>
      .left i ∈ log ∧ (∀ job, .forgot i job ∉ log) ∧ ∀ job, .granted i job ∈ log ↔ claimed = some job
  | .looked tokens => ∀ job, Seen i job log → job.leaseToken ∈ tokens
  | .finished => True

variable {p : Process} {log : List Note} {n i j k : Nat} {job : Job} {note : Note} {claimed : Option Job}

theorem seen_cons (hnote : note ≠ .looked k 0) (h : Seen k job (note :: log)) : Seen k job log := by
  obtain ⟨since, before, hsplit, hseen⟩ := h
  cases since with
  | nil =>
      rw [List.nil_append] at hsplit
      exact absurd (List.cons.inj hsplit).1 hnote
  | cons _ since => exact ⟨since, before, (List.cons.inj hsplit).2, hseen⟩

theorem givenBack_cons (hnote : ∀ k, note ≠ .released k) (h : GivenBack job (note :: log)) :
    GivenBack job log := by
  obtain ⟨k, since, before, hsplit, hseen⟩ := h
  cases since with
  | nil =>
      rw [List.nil_append] at hsplit
      exact absurd (List.cons.inj hsplit).1 (hnote k)
  | cons _ since => exact ⟨k, since, before, (List.cons.inj hsplit).2, hseen⟩

theorem not_seen (h : ∀ note ∈ log, note.thread ≠ k) : ¬Seen k job log := by
  rintro ⟨since, before, rfl, -⟩
  exact h (.looked k 0) (by simp) rfl

theorem granted_of_seen (h : Seen k job log) : ∃ i, .granted i job ∈ log := by
  obtain ⟨since, before, rfl, i, hgranted, -⟩ := h
  exact ⟨i, by simp [hgranted]⟩

theorem countP_range_succ_of_flip {P Q : Nat → Bool} (hi : i < n) (hsame : ∀ j, j ≠ i → Q j = P j)
    (hbefore : P i = false) (hafter : Q i = true) :
    (List.range n).countP Q = (List.range n).countP P + 1 := by
  induction n with
  | zero => omega
  | succ n ih =>
      rw [List.range_succ, List.countP_append, List.countP_append]
      by_cases hlast : i = n
      · subst hlast
        have hrest : (List.range i).countP Q = (List.range i).countP P := by
          apply List.countP_congr
          intro j hj
          rw [hsame j (List.mem_range.mp hj).ne]
        simp [hrest, hbefore, hafter]
      · have hlt : i < n := by omega
        have hn : Q n = P n := hsame n (Ne.symm hlast)
        simp [ih hlt, hn]
        omega

theorem inWindow_cons_of_ne (h : note.thread ≠ j) : inWindow (note :: log) j = inWindow log j := by
  have hentered : note ≠ .entered j := fun heq => h (heq ▸ rfl)
  have hleft : note ≠ .left j := fun heq => h (heq ▸ rfl)
  simp [inWindow, Ne.symm hentered, Ne.symm hleft]

theorem inWindow_cons_quiet (hentered : ∀ j, note ≠ .entered j) (hleft : ∀ j, note ≠ .left j) :
    inWindow (note :: log) = inWindow log := by
  funext j
  simp [inWindow, Ne.symm (hentered j), Ne.symm (hleft j)]

namespace Inv

theorem quiet (h : Inv n p log) (hthread : note.thread < n) (hentered : ∀ j, note ≠ .entered j)
    (hleft : ∀ j, note ≠ .left j) (hgranted : ∀ j job, note ≠ .granted j job)
    (hforgot : ∀ j job, note ≠ .forgot j job)
    (hreleased : ∀ j, note ≠ .released j) : Inv n p (note :: log) where
  fresh := h.fresh
  known := List.forall_mem_cons.mpr ⟨hthread, h.known⟩
  counted := by rw [inWindow_cons_quiet hentered hleft, h.counted]
  held token := by
    rw [h.held]
    simp [Keeps, Ne.symm (hgranted _ _), Ne.symm (hleft _), Ne.symm (hforgot _ _)]
  drawn i job hjob := h.drawn i job (by simpa [Ne.symm (hgranted i job)] using hjob)
  apart i job k job' hi hk := by
    apply h.apart i job k job'
    · simpa [Ne.symm (hgranted i job)] using hi
    · simpa [Ne.symm (hgranted k job')] using hk
  entered i job hjob := List.mem_cons_of_mem _
    (h.entered i job (by simpa [Ne.symm (hgranted i job)] using hjob))
  returned job hjob := h.returned job (givenBack_cons hreleased hjob)

theorem enter (h : Inv n p log) (hi : i < n) (hnew : ∀ note ∈ log, note.thread ≠ i) :
    Inv n { p with claimsInFlight := p.claimsInFlight + 1 } (.entered i :: log) where
  fresh := h.fresh
  known := List.forall_mem_cons.mpr ⟨hi, h.known⟩
  counted := by
    have hnoleft : Note.left i ∉ log := fun hmem => hnew _ hmem rfl
    have hnoentered : Note.entered i ∉ log := fun hmem => hnew _ hmem rfl
    have hflip : (List.range n).countP (inWindow (.entered i :: log)) = (List.range n).countP
      (inWindow log) + 1 := by
      apply countP_range_succ_of_flip hi
      · intro j hj
        exact inWindow_cons_of_ne (Ne.symm hj)
      · simp [inWindow, hnoentered]
      · simp [inWindow, hnoleft]
    rw [hflip, h.counted]
  held token := by
    rw [h.held]
    simp [Keeps]
  drawn i job hjob := h.drawn i job (by simpa using hjob)
  apart i job k job' hi hk := h.apart i job k job' (by simpa using hi) (by simpa using hk)
  entered i job hjob := List.mem_cons_of_mem _ (h.entered i job (by simpa using hjob))
  returned job hjob := h.returned job (givenBack_cons (by simp) hjob)

theorem leave (h : Inv n p log) (hi : i < n) (hentered : .entered i ∈ log) (hleft : .left i ∉ log)
    (hforgot : ∀ job, .forgot i job ∉ log) (hgranted : ∀ job, .granted i job ∈ log ↔ claimed = some job) :
    Inv n { p with held := (claimed.map Job.leaseToken).toList ++ p.held, claimsInFlight := p.claimsInFlight - 1 }
      (.left i :: log) where
  fresh := h.fresh
  known := List.forall_mem_cons.mpr ⟨hi, h.known⟩
  counted := by
    have hflip : (List.range n).countP (inWindow log) = (List.range n).countP
      (inWindow (.left i :: log)) + 1 := by
      apply countP_range_succ_of_flip hi
      · intro j hj
        exact (inWindow_cons_of_ne (Ne.symm hj)).symm
      · simp [inWindow]
      · simp [inWindow, hentered, hleft]
    simp only [h.counted, hflip]
    omega
  held token := by
    have hold : (∃ j job, Keeps (.left i :: log) j job ∧ job.leaseToken = token) ↔
        (∃ j job, Keeps log j job ∧ job.leaseToken = token) ∨ ∃ job, claimed = some job ∧
        job.leaseToken = token := by
      constructor
      · rintro ⟨j, job, ⟨hjob, hjleft, hjforgot⟩, htoken⟩
        simp only [List.mem_cons, reduceCtorEq, false_or] at hjob hjforgot
        by_cases hj : j = i
        · subst hj
          exact .inr ⟨job, (hgranted job).mp hjob, htoken⟩
        · have hjleft' : Note.left j ∈ log := by simpa [hj] using hjleft
          exact .inl ⟨j, job, ⟨hjob, hjleft', hjforgot⟩, htoken⟩
      · rintro (⟨j, job, ⟨hjob, hjleft, hjforgot⟩, htoken⟩ | ⟨job, hclaimed, htoken⟩)
        · exact ⟨j, job, ⟨by simp [hjob], by simp [hjleft], by simp [hjforgot]⟩, htoken⟩
        · exact ⟨i, job, ⟨by simp [(hgranted job).mpr hclaimed], by simp, by simp [hforgot]⟩, htoken⟩
    rw [hold, ← h.held]
    cases claimed with
    | none => simp
    | some job => simp [or_comm, eq_comm]
  drawn i job hjob := h.drawn i job (by simpa using hjob)
  apart i job k job' hi hk := h.apart i job k job' (by simpa using hi) (by simpa using hk)
  entered i job hjob := List.mem_cons_of_mem _ (h.entered i job (by simpa using hjob))
  returned job hjob := h.returned job (givenBack_cons (by simp) hjob)

theorem forget (h : Inv n p log) (hi : i < n) (hgranted : .granted i job ∈ log) :
    Inv n { p with held := p.held.filter (· ≠ job.leaseToken) } (.forgot i job :: log) where
  fresh := h.fresh
  known := List.forall_mem_cons.mpr ⟨hi, h.known⟩
  counted := by rw [inWindow_cons_quiet (by simp) (by simp), h.counted]
  held token := by
    simp only [List.mem_filter, h.held, decide_eq_true_eq]
    constructor
    · rintro ⟨⟨j, job', ⟨hjob, hleft, hforgot⟩, rfl⟩, hother⟩
      refine ⟨j, job', ⟨by simp [hjob], by simp [hleft], ?_⟩, rfl⟩
      rw [List.mem_cons, not_or]
      refine ⟨fun heq => hother ?_, hforgot⟩
      injection heq with _ hjob'
      rw [hjob']
    · rintro ⟨j, job', ⟨hjob, hleft, hforgot⟩, rfl⟩
      simp only [List.mem_cons, reduceCtorEq, false_or, not_or] at hjob hleft hforgot
      refine ⟨⟨j, job', ⟨hjob, hleft, hforgot.2⟩, rfl⟩, fun htoken => hforgot.1 ?_⟩
      obtain ⟨rfl, rfl⟩ := h.apart j job' i job hjob hgranted htoken
      rfl
  drawn i job hjob := h.drawn i job (by simpa using hjob)
  apart i job k job' hi hk := h.apart i job k job' (by simpa using hi) (by simpa using hk)
  entered i job hjob := List.mem_cons_of_mem _ (h.entered i job (by simpa using hjob))
  returned job hjob := h.returned job (givenBack_cons (by simp) hjob)

section

variable [PyText] {env : Env}

theorem transaction (h : Inv n p log) (op : Op) :
    Inv n { p with db := (PayrollAgent.exec env op p.db).2 } log := by
  have hgrows : p.db.nextId ≤ (PayrollAgent.exec env op p.db).2.nextId :=
    exec_preserves (P := fun db => p.db.nextId ≤ db.nextId) le_rfl fun _ _ htxn =>
      (jobsGrow (txn_effect htxn)).nextId
  exact {
    fresh := exec_preserves h.fresh fun _ _ htxn => fresh_step (txn_effect htxn) h.fresh
    known := h.known
    counted := h.counted
    held := h.held
    drawn := fun i job hjob => (h.drawn i job hjob).trans_le hgrows
    apart := h.apart
    entered := h.entered
    returned := fun job hjob =>
      exec_preserves (P := fun db => job.leaseToken < db.nextId ∧ lockedJob db job = none)
        (h.returned job hjob)
        fun _ _ htxn => HeldTokens.forgotten_step (txn_effect htxn) h.fresh (h.returned job hjob) }

omit [PyText] in
theorem grant (h : Inv n p log) (hi : i < n) (hentered : .entered i ∈ log) (hleft : .left i ∉ log)
    {db : Db} (hgranted : ∀ job, .granted i job ∉ log) (hdrawn : job.leaseToken = p.db.nextId)
    (h' : Inv n { p with db := db } log) (hnext : p.db.nextId < db.nextId) :
    Inv n { p with db := db } (.granted i job :: log) where
  fresh := h'.fresh
  known := List.forall_mem_cons.mpr ⟨hi, h.known⟩
  counted := by rw [inWindow_cons_quiet (by simp) (by simp), h'.counted]
  held token := by
    rw [h'.held]
    constructor
    · rintro ⟨j, job', ⟨hjob, hjleft, hforgot⟩, htoken⟩
      exact ⟨j, job', ⟨by simp [hjob], by simp [hjleft], by simp [hforgot]⟩, htoken⟩
    · rintro ⟨j, job', ⟨hjob, hjleft, hforgot⟩, htoken⟩
      simp only [List.mem_cons, reduceCtorEq, false_or, Note.granted.injEq] at hjob hjleft hforgot
      obtain ⟨rfl, rfl⟩ | hjob := hjob
      · exact absurd hjleft hleft
      · exact ⟨j, job', ⟨hjob, hjleft, hforgot⟩, htoken⟩
  drawn j job' hjob := by
    simp only [List.mem_cons, Note.granted.injEq] at hjob
    obtain ⟨rfl, rfl⟩ | hjob := hjob
    · exact hdrawn ▸ hnext
    · exact h'.drawn j job' hjob
  apart j job₁ k job₂ hj hk htoken := by
    simp only [List.mem_cons, Note.granted.injEq] at hj hk
    obtain ⟨rfl, rfl⟩ | hj := hj
    · obtain ⟨rfl, rfl⟩ | hk := hk
      · exact ⟨rfl, rfl⟩
      · have hlt := h.drawn k job₂ hk
        rw [← htoken, hdrawn] at hlt
        exact absurd hlt (lt_irrefl _)
    · obtain ⟨rfl, rfl⟩ | hk := hk
      · have hlt := h.drawn j job₁ hj
        rw [htoken, hdrawn] at hlt
        exact absurd hlt (lt_irrefl _)
      · exact h.apart j job₁ k job₂ hj hk htoken
  entered j job' hjob := by
    simp only [List.mem_cons, Note.granted.injEq] at hjob
    obtain ⟨rfl, rfl⟩ | hjob := hjob
    · simp [hentered]
    · simp [h.entered j job' hjob]
  returned job' hjob := h'.returned job' (givenBack_cons (by simp) hjob)

theorem release (h : Inv n p log) (hi : i < n) {tokens : List Uuid}
    (hseen : ∀ job, Seen i job log → job.leaseToken ∈ tokens)
    (hdb : (PayrollAgent.exec env (.releaseLeases tokens) p.db).2 = releaseLeases tokens p.db) :
    Inv n { p with db := (PayrollAgent.exec env (.releaseLeases tokens) p.db).2 }
      (.released i :: log) := by
  have h' := @transaction _ _ _ _ env h (.releaseLeases tokens)
  exact {
    fresh := h'.fresh
    known := List.forall_mem_cons.mpr ⟨hi, h.known⟩
    counted := by rw [inWindow_cons_quiet (by simp) (by simp), h'.counted]
    held := fun token => by
      rw [h'.held]
      simp [Keeps]
    drawn := fun j job hjob => h'.drawn j job (by simpa using hjob)
    apart := fun j job k job' hj hk => h'.apart j job k job' (by simpa using hj) (by simpa using hk)
    entered := fun j job hjob => List.mem_cons_of_mem _ (h'.entered j job (by simpa using hjob))
    returned := fun job hjob => by
      obtain ⟨k, since, before, hsplit, hback⟩ := hjob
      cases since with
      | cons _ since => exact h'.returned job ⟨k, since, before, (List.cons.inj hsplit).2, hback⟩
      | nil =>
          rw [List.nil_append] at hsplit
          obtain ⟨hhead, rfl⟩ := List.cons.inj hsplit
          injection hhead with hk
          subst hk
          obtain ⟨j, hgranted⟩ := granted_of_seen hback
          rw [hdb]
          exact ⟨h.drawn j job hgranted, HeldTokens.lockedJob_releaseLeases_of_mem (hseen job hback)⟩ }

end

theorem left_of_granted (h : Inv n p log) (hnone : p.claimsInFlight = 0)
    (hgranted : .granted i job ∈ log) : .left i ∈ log := by
  have hzero : (List.range n).countP (inWindow log) = 0 := h.counted ▸ hnone
  have hout := List.countP_eq_zero.mp hzero i (List.mem_range.mpr (h.known _ hgranted))
  simpa [inWindow, h.entered i job hgranted] using hout

theorem seen_held (h : Inv n p log) (hnone : p.claimsInFlight = 0) (hnew : ∀ note ∈ log, note.thread ≠ i)
    (hseen : Seen i job (.looked i p.claimsInFlight :: log)) : job.leaseToken ∈ p.held := by
  obtain ⟨since, before, hsplit, j, hgranted, hforgot⟩ := hseen
  cases since with
  | nil =>
      obtain ⟨-, rfl⟩ := List.cons.inj hsplit
      exact (h.held _).mpr ⟨j, job, ⟨hgranted, h.left_of_granted hnone hgranted, hforgot⟩, rfl⟩
  | cons _ since =>
      have hlooked : Note.looked i 0 ∈ log := by
        rw [(List.cons.inj hsplit).2]
        simp
      exact absurd rfl (hnew _ hlooked)

end Inv

theorem granted_of_claim [PyText] {env : Env} {p : Process} {job : Job}
    (h : (PayrollAgent.exec env .claimJob p.db).1 = .ok (some job)) :
    job.leaseToken = p.db.nextId ∧ p.db.nextId < (PayrollAgent.exec env .claimJob p.db).2.nextId := by
  obtain ⟨-, htxn⟩ := @HeldTokens.exec_ok _ _ _ .claimJob _ h
  generalize (PayrollAgent.exec env .claimJob p.db).2 = db' at htxn ⊢
  cases txn_effect htxn with
  | idle hrefused => cases hrefused
  | leased => exact ⟨rfl, Nat.lt_succ_self _⟩

section

variable [PyText] {env : Env} {s : Stage} {call : Call}

theorem inv_step (h : Inv n p log) (hi : i < n) (hs : s.Noted i log) (hallows : s.allows call) :
    Inv n (exec env call p).2 (notes i p call (exec env call p).1 ++ log) := by
  cases call with
  | core op => exact h.transaction op
  | enter =>
      obtain rfl : s = .outside := hallows
      exact h.enter hi hs
  | claim =>
      obtain rfl : s = .inside none := hallows
      obtain ⟨hentered, hleft, -, hgranted⟩ := hs
      have h' := @Inv.transaction _ _ _ _ env h .claimJob
      change Inv n { p with db := (PayrollAgent.exec env .claimJob p.db).2 }
        (notes i p .claim (PayrollAgent.exec env .claimJob p.db).1 ++ log)
      cases hanswer : (PayrollAgent.exec env .claimJob p.db).1 with
      | error e => exact h'
      | ok answer =>
          cases answer with
          | none => exact h'
          | some job =>
              obtain ⟨hdrawn, hnext⟩ := granted_of_claim hanswer
              exact h.grant hi hentered hleft (fun job hjob => by cases (hgranted job).mp hjob)
                hdrawn h' hnext
  | leave claimed =>
      obtain rfl : s = .inside claimed := hallows
      obtain ⟨hentered, hleft, hforgot, hgranted⟩ := hs
      exact h.leave hi hentered hleft hforgot hgranted
  | forget job =>
      obtain rfl : s = .left (some job) := hallows
      exact h.forget hi ((hs.2.2 job).mpr rfl)
  | look =>
      by_cases hnone : p.claimsInFlight = 0
      · simp only [exec, hnone, notes]
        exact h.quiet hi (by simp) (by simp) (by simp) (by simp) (by simp)
      · simp only [exec, hnone, notes]
        exact h
  | lastLook => exact h.quiet hi (by simp) (by simp) (by simp) (by simp) (by simp)
  | release tokens =>
      obtain rfl : s = .looked tokens := hallows
      change Inv n { p with db := (PayrollAgent.exec env (.releaseLeases tokens) p.db).2 }
        (notes i p (.release tokens) (PayrollAgent.exec env (.releaseLeases tokens) p.db).1 ++ log)
      cases hanswer : (PayrollAgent.exec env (.releaseLeases tokens) p.db).1 with
      | error e => exact h.transaction _
      | ok _ =>
          obtain ⟨-, htxn⟩ := @HeldTokens.exec_ok _ _ _ (.releaseLeases tokens) _ hanswer
          exact h.release hi hs (Prod.mk.inj (Except.ok.inj htxn)).2.symm

omit [PyText] in
theorem notes_thread (i : Nat) (p : Process) (x : Except Exn (Reply call)) :
    ∀ note ∈ notes i p call x, note.thread = i := by
  unfold notes
  split <;> simp [Note.thread]

omit [PyText] in
theorem noted_append {log' : List Note} (hother : ∀ note ∈ log', note.thread ≠ i) (h : s.Noted i log) :
    s.Noted i (log' ++ log) := by
  induction log' with
  | nil => exact h
  | cons note log' ih =>
      have h' := ih fun note hnote => hother note (List.mem_cons_of_mem _ hnote)
      have hnote : note.thread ≠ i := hother note List.mem_cons_self
      have hentered : note ≠ .entered i := fun heq => hnote (heq ▸ rfl)
      have hleft : note ≠ .left i := fun heq => hnote (heq ▸ rfl)
      have hgranted : ∀ job, note ≠ .granted i job := fun job heq => hnote (heq ▸ rfl)
      have hforgot : ∀ job, note ≠ .forgot i job := fun job heq => hnote (heq ▸ rfl)
      cases s with
      | outside => exact List.forall_mem_cons.mpr ⟨hnote, h'⟩
      | inside claimed =>
          simpa [Stage.Noted, Ne.symm hentered, Ne.symm hleft, Ne.symm (hgranted _),
            Ne.symm (hforgot _)] using h'
      | left claimed =>
          simpa [Stage.Noted, Ne.symm hleft, Ne.symm (hgranted _), Ne.symm (hforgot _)] using h'
      | looked tokens =>
          exact fun job hseen => h' job (seen_cons (fun heq => hnote (by rw [heq]; rfl)) hseen)
      | finished => trivial

theorem noted_own (h : Inv n p log) (hs : s.Noted i log) (hallows : s.allows call) :
    (s.next call (exec env call p).1).Noted i (notes i p call (exec env call p).1 ++ log) := by
  cases call with
  | core op => exact hs
  | enter =>
      obtain rfl : s = .outside := hallows
      refine ⟨List.mem_cons_self, fun hleft => ?_, fun job hforgot => ?_, fun job => ?_⟩
      · exact hs (.left i) (by simpa [notes, exec] using hleft) rfl
      · exact hs (.forgot i job) (by simpa [notes, exec] using hforgot) rfl
      · have hnone : Note.granted i job ∉ log := fun hmem => hs _ hmem rfl
        simp [notes, exec, hnone]
  | claim =>
      obtain rfl : s = .inside none := hallows
      change (Stage.next (.inside none) .claim (PayrollAgent.exec env .claimJob p.db).1).Noted i
        (notes i p .claim (PayrollAgent.exec env .claimJob p.db).1 ++ log)
      cases (PayrollAgent.exec env .claimJob p.db).1 with
      | error e => exact hs
      | ok answer =>
          cases answer with
          | none => exact hs
          | some job =>
              obtain ⟨hentered, hleft, hforgot, hgranted⟩ := hs
              refine ⟨by simp [hentered], by simpa [notes] using hleft, by
                simpa [notes] using hforgot, fun job' => ?_⟩
              simp [notes, hgranted, eq_comm]
  | leave claimed =>
      obtain rfl : s = .inside claimed := hallows
      obtain ⟨hentered, hleft, hforgot, hgranted⟩ := hs
      exact ⟨List.mem_cons_self, by simpa [notes, exec] using hforgot, by
        simpa [notes, exec] using hgranted⟩
  | forget job => trivial
  | look =>
      obtain rfl : s = .outside := hallows
      by_cases hnone : p.claimsInFlight = 0
      · have hanswer : (exec env .look p).1 = .ok (some p.held) := by simp [exec, hnone]
        rw [hanswer]
        exact fun job hseen => h.seen_held hnone hs hseen
      · have hanswer : (exec env .look p).1 = .ok none := by simp [exec, hnone]
        rw [hanswer]
        exact hs
  | lastLook =>
      obtain rfl : s = .outside := hallows
      intro job hseen
      by_cases hnone : p.claimsInFlight = 0
      · exact h.seen_held hnone hs hseen
      · exact absurd (seen_cons (by simpa using hnone) hseen) (not_seen hs)
  | release tokens =>
      obtain rfl : s = .looked tokens := hallows
      change (Stage.next (.looked tokens) (.release tokens)
        (PayrollAgent.exec env (.releaseLeases tokens) p.db).1).Noted i
        (notes i p (.release tokens) (PayrollAgent.exec env (.releaseLeases tokens) p.db).1 ++ log)
      cases (PayrollAgent.exec env (.releaseLeases tokens) p.db).1 with
      | error e => exact hs
      | ok _ => trivial

def Ready (p : Process) : Prop := Fresh p.db ∧ p.held = [] ∧ p.claimsInFlight = 0

theorem kept : World.Kept window party World.Rules.any Ready order .outside Inv fun i s _ log =>
    s.Noted i log where
  init p hp := by
    obtain ⟨hfresh, hheld, hflight⟩ := hp
    refine ⟨hfresh, by simp, by simp [hflight], by simp [hheld, Keeps], by simp, by simp, by simp,
      fun job hjob => ?_⟩
    obtain ⟨k, since, before, hsplit, -⟩ := hjob
    simp at hsplit
  follows k _ := follows_party k
  fresh n p log h := by
    have hnew : ∀ note ∈ log, note.thread ≠ n := fun note hnote => (h.known note hnote).ne
    refine ⟨{ h with known := fun note hnote => (h.known note hnote).trans (Nat.lt_succ_self n), counted := ?_ }, hnew⟩
    have hout : inWindow log n = false := by
      have hentered : Note.entered n ∉ log := fun hmem => hnew _ hmem rfl
      simp [inWindow, hentered]
    rw [List.range_succ, List.countP_append, h.counted]
    simp [hout]
  shared _ i env call s p log hi h hs hallows _ := inv_step h hi hs hallows
  own _ i env call s p log hi h hs hallows _ := noted_own h hs hallows
  other _ i env call s p log _ _ _ _ _ j t hj ht := by
    refine noted_append (fun note hnote => ?_) ht
    rw [notes_thread i p _ note hnote]
    exact Ne.symm hj

/-- The process after a history that starts in `p`. -/
def processAfter (p : Process) (es : List (Event Party Env)) : World Call Reply Exn Process Note :=
  World.steps window party ⟨p, [], []⟩ es

theorem inv_processAfter {p : Process} (hp : Ready p) (es : List (Event Party Env)) :
    Inv (processAfter p es).threads.length (processAfter p es).data (processAfter p es).log :=
  (kept.reach ((World.Reach.start hp).steps_any es)).1

omit [PyText] in
theorem Inv.length_missed_le (h : Inv n p log) {calls : List Nat} (hcalls : calls.Nodup)
    (hmissed : ∀ i ∈ calls, ∃ job, .granted i job ∈ log ∧ .forgot i job ∉ log ∧ job.leaseToken ∉ p.held) :
    calls.length ≤ p.claimsInFlight := by
  rw [h.counted, List.countP_eq_length_filter]
  apply List.Subperm.length_le
  apply List.subperm_of_subset hcalls
  intro i hi
  obtain ⟨job, hgranted, hforgot, hheld⟩ := hmissed i hi
  have hleft : Note.left i ∉ log := fun hleft =>
    hheld ((h.held _).mpr ⟨i, job, ⟨hgranted, hleft, hforgot⟩, rfl⟩)
  refine List.mem_filter.mpr ⟨List.mem_range.mpr (h.known _ hgranted), ?_⟩
  simp [inWindow, h.entered i job hgranted, hleft]

/-- In every run: once a shutdown that found no claim in flight has released, no
row stands under a lease the process had when it looked, and a look misses at
most as many leases as there are claims in flight. -/
theorem shutdown_gives_back {p : Process} (hp : Ready p) (es : List (Event Party Env)) :
    (∀ job, GivenBack job (processAfter p es).log → lockedJob (processAfter p es).data.db job = none) ∧
      ∀ calls : List Nat, calls.Nodup →
        (∀ i ∈ calls, ∃ job, .granted i job ∈ (processAfter p es).log ∧
        .forgot i job ∉ (processAfter p es).log ∧ job.leaseToken ∉ (processAfter p es).data.held) →
        calls.length ≤ (processAfter p es).data.claimsInFlight := by
  have hinv := inv_processAfter hp es
  constructor
  · intro job hjob
    exact (hinv.returned job hjob).2
  · intro calls hcalls hmissed
    exact hinv.length_missed_le hcalls hmissed

end

section Histories

attribute [local instance] asciiText

/-- A worker is handed the job of a run while the shutdown looks. The look comes
back after the token is recorded, and the release follows. -/
def stopDuringClaim : List (Event Party Env) :=
  [.spawn .drain, .spawn (.stop 3), .run 0 {}, .run 0 { picked := 6 }, .run 1 {}, .run 0 {},
    .run 1 {}, .run 1 {}]

theorem stopDuringClaim_gives_back :
    lockedJob (processAfter ⟨HeldTokens.receivedDb, [], 0⟩ stopDuringClaim).data.db
      (copyOf (HeldTokens.pipelineJob 8) 6 10) = none := by
  refine (shutdown_gives_back ⟨HeldTokens.start_receivedDb.fresh, rfl, rfl⟩ stopDuringClaim).1 _ ?_
  have hlog : (processAfter ⟨HeldTokens.receivedDb, [], 0⟩ stopDuringClaim).log =
      [.released 1, .looked 1 0, .left 0, .granted 0 (copyOf (HeldTokens.pipelineJob 8) 6 10),
      .entered 0] := by
    decide +kernel
  rw [hlog]
  refine ⟨1, [], _, rfl, [], _, rfl, 0, ?_, ?_⟩
  · decide
  · decide

end Histories

end PayrollAgent.ClaimWindow
