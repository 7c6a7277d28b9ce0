import PayrollAgent.Lib.Pool
import PayrollAgent.Operations

namespace PayrollAgent

open Lib Repo AliasLearning RunStages RunRoutes ClarificationWrites Ingest

inductive Note
  | leased (i : Nat) (job : Job)
  | claimed (i : Nat) (r : Uuid)
  | fields (i : Nat) (r : Uuid) (before after : ClarifiedFields)
  | persisted (i : Nat) (r : Uuid)
  | paused (i : Nat) (r : Uuid)
  | ingested (e : Uuid)
  | authorized (a : Authorization)
  | requested (i : Nat) (a : Authorization)
  | delivered (r : Uuid)
  | markedDelivered (r : Uuid)
  | authorizedNew (r : Uuid)
  | rejectedReview (r : Uuid)

def deliveredBy (db db' : Db) (e : Uuid) : List Note :=
  match db.outbound.get? e, db'.outbound.get? e with
  | some m, some m' =>
      if m.purpose = .confirmation ∧ m.sendState ≠ .sent ∧ m'.sendState = .sent then
        [.delivered m.runId]
      else []
  | _, _ => []

def rejectionOf (db : Db) (r : Uuid) (expected new : RunStatus) : List Note :=
  if expected = .needsOperator ∧ new = .rejected ∧
      (db.runs.get? r).any (fun run => run.errorReason = some .deliveryReview) then
    [.rejectedReview r]
  else []

/-- A mail that is no duplicate is stored under the next identifier. -/
def storedBy (db : Db) : IngestOutcome → List Note
  | .duplicate => []
  | _ => [.ingested db.nextId]

/-- What a committed operation of thread `i` adds to the history. -/
def notes (i : Nat) : (op : Op) → Db → Ans op → Db → List Note
  | .claimJob, _, some job, _ => [.leased i job]
  | .claimStatus r .received .extracting, _, true, _ => [.claimed i r]
  | .claimStatus r expected new, db, true, _ => rejectionOf db r expected new
  | .setClarifiedFields r clarified, db, _, _ =>
      match db.runs.get? r with
      | some run => [.fields i r run.clarifiedFields clarified]
      | none => []
  | .persistStages r s, _, _, _ =>
      if s.decision.finalAction = .process then [.paused i r] else [.persisted i r]
  | .escalateToOperator r, _, _, _ => [.paused i r]
  | .finalizeSentClarification r _ _, _, _, _ => [.paused i r]
  | .replayReservedClarification r _ _, _, _, _ => [.paused i r]
  | .reserveClarification r _, _, _, _ => [.paused i r]
  | .ingestEmail _, db, outcome, _ => storedBy db outcome
  | .authorizeOutboundProviderHandoff _, _, .authorized a, _ => [.authorized a]
  | .send a, _, _, _ => [.requested i a]
  | .settleOutboundDeliveryJob job _, db, _, db' => (job.emailId.map (deliveredBy db db')).getD []
  | .markDeliveryDelivered r, _, true, _ => [.markedDelivered r]
  | .authorizeNewConfirmation r, _, true, _ => [.authorizedNew r]
  | _, _, _, _ => []

/-- Every note of a committed operation, with what it says of the step. -/
inductive Noted (i : Nat) (db db' : Db) : (op : Op) → Ans op → Note → Prop
  | leased {job : Job} : Noted i db db' .claimJob (some job) (.leased i job)
  | claimed {r : Uuid} :
      Noted i db db' (.claimStatus r .received .extracting) (true : Bool) (.claimed i r)
  | rejectedReview {r : Uuid} (hreview : (db.runs.get? r).any
      fun run => run.errorReason = some .deliveryReview) :
      Noted i db db' (.claimStatus r .needsOperator .rejected) (true : Bool) (.rejectedReview r)
  | fields {r : Uuid} {clarified : ClarifiedFields} {run : Run}
      {a : Ans (.setClarifiedFields r clarified)} (hrun : db.runs.get? r = some run) :
      Noted i db db' (.setClarifiedFields r clarified) a (.fields i r run.clarifiedFields clarified)
  | persisted {r : Uuid} {s : StageResult} {a : Ans (.persistStages r s)}
      (haction : s.decision.finalAction ≠ .process) :
      Noted i db db' (.persistStages r s) a (.persisted i r)
  | processed {r : Uuid} {s : StageResult} {a : Ans (.persistStages r s)}
      (haction : s.decision.finalAction = .process) :
      Noted i db db' (.persistStages r s) a (.paused i r)
  | escalated {r : Uuid} {a : Ans (.escalateToOperator r)} :
      Noted i db db' (.escalateToOperator r) a (.paused i r)
  | finalized {r : Uuid} {round : Nat} {x : Extracted} {a : Ans (.finalizeSentClarification r round x)} :
      Noted i db db' (.finalizeSentClarification r round x) a (.paused i r)
  | replayed {r e : Uuid} {x : Extracted} {a : Ans (.replayReservedClarification r e x)} :
      Noted i db db' (.replayReservedClarification r e x) a (.paused i r)
  | reserved {r : Uuid} {q : Question} {a : Ans (.reserveClarification r q)} :
      Noted i db db' (.reserveClarification r q) a (.paused i r)
  | ingested {mail : InboundMail} {outcome : IngestOutcome} (hnew : outcome ≠ .duplicate) :
      Noted i db db' (.ingestEmail mail) outcome (.ingested db.nextId)
  | authorized {job : Job} {a : Authorization} :
      Noted i db db' (.authorizeOutboundProviderHandoff job) (.authorized a) (.authorized a)
  | requested {a : Authorization} {answer : Ans (.send a)} :
      Noted i db db' (.send a) answer (.requested i a)
  | delivered {job : Job} {result : PipelineResult}
      {outcome : Ans (.settleOutboundDeliveryJob job result)}
      {e : Uuid} {m m' : Outbound} (hjob : job.emailId = some e) (hm : db.outbound.get? e = some m)
      (hm' : db'.outbound.get? e = some m') (hpurpose : m.purpose = .confirmation)
      (hunsent : m.sendState ≠ .sent) (hsent : m'.sendState = .sent) :
      Noted i db db' (.settleOutboundDeliveryJob job result) outcome (.delivered m.runId)
  | markedDelivered {r : Uuid} :
      Noted i db db' (.markDeliveryDelivered r) (true : Bool) (.markedDelivered r)
  | authorizedNew {r : Uuid} :
      Noted i db db' (.authorizeNewConfirmation r) (true : Bool) (.authorizedNew r)

theorem noted_deliveredBy {i : Nat} {db db' : Db} {job : Job} {result : PipelineResult}
    {outcome : Ans (.settleOutboundDeliveryJob job result)} {n : Note}
    (h : n ∈ (job.emailId.map (deliveredBy db db')).getD []) :
    Noted i db db' (.settleOutboundDeliveryJob job result) outcome n := by
  cases he : job.emailId with
  | none => simp [he] at h
  | some e =>
      rw [he, Option.map_some, Option.getD_some, deliveredBy] at h
      split at h
      next m m' hm hm' =>
        split at h
        next hsent =>
          obtain rfl := List.mem_singleton.mp h
          exact .delivered he hm hm' hsent.1 hsent.2.1 hsent.2.2
        · cases h
      · cases h

theorem mem_storedBy {db : Db} {outcome : IngestOutcome} {n : Note} (h : n ∈ storedBy db outcome) :
    outcome ≠ .duplicate ∧ n = .ingested db.nextId := by
  cases outcome with
  | duplicate => cases h
  | _ => exact ⟨by simp, List.mem_singleton.mp h⟩

theorem noted {i : Nat} {op : Op} {db db' : Db} {a : Ans op} {n : Note}
    (h : n ∈ notes i op db a db') : Noted i db db' op a n := by
  unfold notes at h
  split at h
  · obtain rfl := List.mem_singleton.mp h
    exact .leased
  · obtain rfl := List.mem_singleton.mp h
    exact .claimed
  · unfold rejectionOf at h
    split at h
    next hreject =>
      obtain rfl := List.mem_singleton.mp h
      obtain ⟨rfl, rfl, hreview⟩ := hreject
      exact .rejectedReview hreview
    · cases h
  · split at h
    next hrun =>
      obtain rfl := List.mem_singleton.mp h
      exact .fields hrun
    · cases h
  · split at h
    next haction =>
      obtain rfl := List.mem_singleton.mp h
      exact .processed haction
    next haction =>
      obtain rfl := List.mem_singleton.mp h
      exact .persisted haction
  · obtain rfl := List.mem_singleton.mp h
    exact .escalated
  · obtain rfl := List.mem_singleton.mp h
    exact .finalized
  · obtain rfl := List.mem_singleton.mp h
    exact .replayed
  · obtain rfl := List.mem_singleton.mp h
    exact .reserved
  · obtain ⟨hnew, rfl⟩ := mem_storedBy h
    exact .ingested hnew
  · obtain rfl := List.mem_singleton.mp h
    exact .authorized
  · obtain rfl := List.mem_singleton.mp h
    exact .requested
  · exact noted_deliveredBy h
  · obtain rfl := List.mem_singleton.mp h
    exact .markedDelivered
  · obtain rfl := List.mem_singleton.mp h
    exact .authorizedNew
  · cases h

theorem deliveredBy_length (db db' : Db) (e : Uuid) : (deliveredBy db db' e).length ≤ 1 := by
  unfold deliveredBy
  split
  · split
    · exact le_rfl
    · exact Nat.zero_le 1
  · exact Nat.zero_le 1

theorem settledNotes_length (db db' : Db) (emailId : Option Uuid) :
    ((emailId.map (deliveredBy db db')).getD []).length ≤ 1 := by
  cases emailId with
  | none => exact Nat.zero_le 1
  | some e => exact deliveredBy_length db db' e

theorem rejectionOf_length (db : Db) (r : Uuid) (expected new : RunStatus) :
    (rejectionOf db r expected new).length ≤ 1 := by
  unfold rejectionOf
  split
  · exact le_rfl
  · exact Nat.zero_le 1

theorem storedBy_length (db : Db) (outcome : IngestOutcome) : (storedBy db outcome).length ≤ 1 := by
  cases outcome <;> simp [storedBy]

theorem notes_length (i : Nat) (op : Op) (db : Db) (a : Ans op) (db' : Db) :
    (notes i op db a db').length ≤ 1 := by
  unfold notes
  split
  case h_3 => exact rejectionOf_length ..
  case h_4 =>
    split
    · exact le_rfl
    · exact Nat.zero_le 1
  case h_5 => split <;> exact le_rfl
  case h_10 => exact storedBy_length ..
  case h_13 => exact settledNotes_length ..
  all_goals simp

section

variable [PyText]

def observe (i : Nat) (env : Env) (op : Op) (db : Db) : List Note :=
  match env.fault, txn env op db with
  | .before _, _ => []
  | _, .error _ => []
  | _, .ok (a, db') => notes i op db a db'

def machine : Machine Op Ans Exn Db Env Note := ⟨exec, observe⟩

theorem exec_cases (i : Nat) (env : Env) (op : Op) (db : Db) :
    (∃ e, exec env op db = (.error e, db) ∧ observe i env op db = []) ∨
    ∃ a db', txn env op db = .ok (a, db') ∧ (exec env op db).2 = db' ∧
      observe i env op db = notes i op db a db' ∧
      ((exec env op db).1 = .ok a ∨ ∃ e, (exec env op db).1 = .error e) := by
  unfold exec observe
  cases env.fault with
  | before e => exact .inl ⟨e, rfl, rfl⟩
  | none =>
      cases txn env op db with
      | error e => exact .inl ⟨e, rfl, rfl⟩
      | ok x => exact .inr ⟨x.1, x.2, rfl, rfl, rfl, .inl rfl⟩
  | after e =>
      cases txn env op db with
      | error e' => exact .inl ⟨e', rfl, rfl⟩
      | ok x => exact .inr ⟨x.1, x.2, rfl, rfl, rfl, .inr ⟨e, rfl⟩⟩

section Call

variable {i : Nat} {env : Env} {op : Op} {db : Db} {log : List Note}

theorem exec_preserves {P : Db → Prop} (h : P db)
    (hcommit : ∀ a db', txn env op db = .ok (a, db') → P db') :
    P (exec env op db).2 := by
  rcases exec_cases 0 env op db with ⟨e, hexec, -⟩ | ⟨a, db', htxn, hdb, -⟩
  · rw [hexec]
    exact h
  · rw [hdb]
    exact hcommit a db' htxn

theorem exec_observed {P : Db → List Note → Prop} (h : P db log)
    (hcommit : ∀ a db', txn env op db = .ok (a, db') → P db' (notes i op db a db' ++ log)) :
    P (exec env op db).2 (observe i env op db ++ log) := by
  rcases exec_cases i env op db with ⟨e, hexec, hobserve⟩ | ⟨a, db', htxn, hdb, hnotes, -⟩
  · rw [hexec, hobserve]
    exact h
  · rw [hdb, hnotes]
    exact hcommit a db' htxn

end Call

end

end PayrollAgent
