import PayrollAgent.Handlers

namespace PayrollAgent.Conduct

open Lib Repo AliasLearning Orchestrator Handlers ClarificationWrites RunStages Resume

/-- How far a thread is with the run it claimed. It rests after the write that
pauses the run, and after any exception. -/
inductive Phase
  | idle
  | driving (r : Uuid)
  | answered (r : Uuid)
  | staged (r : Uuid)
  | asked (r : Uuid)
  | rested
  deriving DecidableEq

def Phase.run : Phase → Option Uuid
  | .driving r | .answered r | .staged r | .asked r => some r
  | _ => none

structure Work where
  lease : Option Job
  phase : Phase
  auths : List Authorization

def Work.fresh : Work := ⟨none, .idle, []⟩

def Work.OnRun (s : Work) : Prop := ∃ job, s.lease = some job ∧ job.kind ≠ .sendOutbound

def isSendCall : Op → Bool
  | .query => true
  | .settleOutboundDeliveryJob _ _ => true
  | .authorizeOutboundProviderHandoff _ => true
  | .send _ => true
  | _ => false

def rejections : List (RunStatus × RunStatus) :=
  [(.awaitingApproval, .rejected), (.needsOperator, .rejected), (.awaitingReply, .rejected)]

def reentries : List (RunStatus × RunStatus) :=
  [(.awaitingReply, .received), (.needsOperator, .received)]

def Work.MayPersist (s : Work) (r : Uuid) : Prop := s.phase = .driving r ∨ s.phase = .answered r

def Work.MayPause (s : Work) (r : Uuid) : Prop := s.phase = .staged r ∨ s.phase = .asked r

def Work.rule (s : Work) : Op → Prop
  | .settleOutboundDeliveryJob job _ => s.lease = some job ∧ job.kind = .sendOutbound
  | .settlePipelineJob job _ => s.lease = some job ∧ job.kind ≠ .sendOutbound
  | .authorizeOutboundProviderHandoff job => s.lease = some job ∧ job.kind = .sendOutbound
  | .send a => a ∈ s.auths
  | .claimJob => s.lease = none ∧ s.phase = .idle
  | .claimStatus _ expected new =>
      (expected, new) ∈ rejections ∨ (s.OnRun ∧ (expected, new) ∈ reentries) ∨
        (s.OnRun ∧ s.phase = .idle ∧ expected = .received ∧ new = .extracting)
  | .setStatus r status => s.phase = .driving r ∧ status = .extracting
  | .setClarifiedFields r _ => s.phase = .driving r ∨ s.phase = .staged r
  | .persistStages r _ => s.MayPersist r
  | .escalateToOperator r => s.MayPause r
  | .finalizeSentClarification r _ _ => s.MayPause r
  | .replayReservedClarification r _ _ => s.MayPause r
  | .reserveClarification r q => s.MayPause r ∧ q.purpose ≠ .confirmation
  | .finishClarificationDeliveryReview _ target _ => target = .awaitingReply ∨ target = .rejected
  | .rewindForReclaim _ => s.OnRun
  | _ => True

def Work.allows (s : Work) (op : Op) : Prop :=
  s.rule op ∧ ∀ job, s.lease = some job → job.kind = .sendOutbound → isSendCall op = true

def Work.rest (s : Work) : Work := { s with phase := .rested }

def Phase.afterFields : Phase → Phase
  | .driving r => .answered r
  | .staged r => .asked r
  | phase => phase

def Work.told (s : Work) : (op : Op) → Ans op → Work
  | .claimJob, some job => { s with lease := some job }
  | .claimStatus r .received .extracting, true => { s with phase := .driving r }
  | .setClarifiedFields _ _, _ => { s with phase := s.phase.afterFields }
  | .persistStages r st, _ =>
      if st.decision.finalAction = .process then s.rest else { s with phase := .staged r }
  | .escalateToOperator _, _ => s.rest
  | .finalizeSentClarification _ _ _, _ => s.rest
  | .replayReservedClarification _ _ _, _ => s.rest
  | .reserveClarification _ _, _ => s.rest
  | .authorizeOutboundProviderHandoff _, .authorized a => { s with auths := a :: s.auths }
  | _, _ => s

def Work.next (s : Work) (op : Op) : Except Exn (Ans op) → Work
  | .ok a => s.told op a
  | .error _ => s.rest

def conduct : Prog.Monitor Op Ans Exn Work := ⟨Work.allows, Work.next⟩

/-- The program obeys the rules from `s` and keeps its lease, and `Q` holds when
it returns. -/
def Obeys {α : Type} (p : Act α) (s : Work) (Q : Work → α → Prop) : Prop :=
  Prog.Follows conduct (fun t x => t.lease = s.lease ∧ ∀ a, x = .ok a → Q t a) p s

variable {α β : Type} {s : Work} {Q : Work → α → Prop}

theorem Obeys.pure {a : α} (h : Q s a) : Obeys (Pure.pure a) s Q := by
  refine ⟨rfl, fun b hb => ?_⟩
  cases hb
  exact h

theorem Obeys.raise (e : Exn) : Obeys (Orchestrator.raise e) s Q :=
  ⟨rfl, fun _ h => by cases h⟩

theorem Obeys.perform {op : Op} {Q : Work → Ans op → Prop} (hop : s.allows op)
    (hlease : ∀ a, (s.told op a).lease = s.lease) (h : ∀ a, Q (s.told op a) a) :
    Obeys (Orchestrator.perform op) s Q := by
  refine Prog.follows_perform.mpr ⟨hop, fun x => ?_⟩
  cases x with
  | ok a =>
      refine ⟨hlease a, fun b hb => ?_⟩
      cases hb
      exact h a
  | error e => exact ⟨rfl, fun b hb => by cases hb⟩

theorem Obeys.bind {p : Act β} {f : β → Act α} {P : Work → β → Prop} (hp : Obeys p s P)
    (hf : ∀ t b, t.lease = s.lease → P t b → Obeys (f b) t Q) : Obeys (p >>= f) s Q := by
  refine Prog.Follows.bind hp (fun t b h => ?_) fun t e h => ⟨h.1, fun _ hb => by cases hb⟩
  exact Prog.Follows.mono (fun u x hu => ⟨hu.1.trans h.1, hu.2⟩) (hf t b h.1 (h.2 b rfl))

theorem Obeys.ite {c : Prop} [Decidable c] {p q : Act α} (hp : c → Obeys p s Q)
    (hq : ¬c → Obeys q s Q) : Obeys (if c then p else q) s Q := by
  split
  next h => exact hp h
  next h => exact hq h

theorem Obeys.mono {p : Act α} {R : Work → α → Prop} (hp : Obeys p s Q)
    (h : ∀ t a, t.lease = s.lease → Q t a → R t a) : Obeys p s R :=
  Prog.Follows.mono (fun t _ ht => ⟨ht.1, fun a ha => h t a ht.1 (ht.2 a ha)⟩) hp

theorem Obeys.catching {p : Act α} {h : Exn → Act α} (hp : Obeys p s Q)
    (hh : ∀ t e, t.lease = s.lease → Obeys (h e) t Q) : Obeys (Prog.catching p h) s Q := by
  refine Prog.Follows.catching hp (fun t a ht => ht) fun t e ht => ?_
  exact Prog.Follows.mono (fun u x hu => ⟨hu.1.trans ht.1, hu.2⟩) (hh t e ht.1)

theorem Obeys.staged {stage : PipelineStage} {p : Act α} (hp : Obeys p s Q) :
    Obeys (Orchestrator.staged stage p) s Q :=
  hp.catching fun _ _ _ => .raise _

theorem Work.OnRun.allows {op : Op} (hs : s.OnRun) (hrule : s.rule op) : s.allows op := by
  obtain ⟨job, hlease, hkind⟩ := hs
  refine ⟨hrule, fun job' hlease' hkind' => absurd hkind' ?_⟩
  rw [hlease] at hlease'
  cases hlease'
  exact hkind

theorem Work.OnRun.of_lease {t : Work} (hs : s.OnRun) (h : t.lease = s.lease) : t.OnRun := by
  obtain ⟨job, hlease, hkind⟩ := hs
  exact ⟨job, h.trans hlease, hkind⟩

theorem Obeys.quiet {op : Op} (hs : s.OnRun) (hrule : s.rule op) (htold : ∀ a, s.told op a = s) :
    Obeys (Orchestrator.perform op) s fun t _ => t = s :=
  .perform (hs.allows hrule) (fun a => by rw [htold]) htold

theorem Obeys.query (hs : s.OnRun) : Obeys Orchestrator.query s fun t _ => t = s :=
  .quiet hs trivial fun _ => rfl

theorem allows_sendCall {op : Op} (hrule : s.rule op) (hcall : isSendCall op = true) : s.allows op :=
  ⟨hrule, fun _ _ _ => hcall⟩

def Work.OnSend (s : Work) (job : Job) : Prop := s.lease = some job ∧ job.kind = .sendOutbound

variable {job : Job}

theorem Work.OnSend.of_lease {t : Work} (hs : s.OnSend job) (h : t.lease = s.lease) : t.OnSend job :=
  ⟨h.trans hs.1, hs.2⟩

structure Work.Holds (s : Work) (job : Job) : Prop where
  lease : s.lease = some job
  idle : s.phase = .idle

theorem Work.Holds.onRun (hs : s.Holds job) (hkind : job.kind ≠ .sendOutbound) : s.OnRun :=
  ⟨job, hs.lease, hkind⟩

theorem Obeys.follows {p : Act α} (h : Obeys p s Q) : Prog.Follows conduct (fun _ _ => True) p s :=
  Prog.Follows.mono (fun _ _ _ => trivial) h

theorem allows_fresh {op : Op} (h : Work.fresh.rule op) : Work.fresh.allows op :=
  ⟨h, fun _ hlease => by cases hlease⟩

end PayrollAgent.Conduct
