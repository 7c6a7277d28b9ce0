import PayrollAgent.BoundedQuestions
import PayrollAgent.Commits
import Mathlib.Data.List.Pairwise
import Mathlib.Data.Prod.Lex

namespace PayrollAgent.PriorReplies

open Lib Repo AliasLearning Handlers ClarificationWrites Effects RunSteps FreshIds EmailSteps
  QuestionSteps Asking Commits CombinedEmail Ingest RunRoutes BoundedQuestions

def epochNow (db : Db) (r : Uuid) : Nat := (db.epochOf r).getD 0

def inEpoch (db : Db) (r : Uuid) (m : Inbound) : Bool := m.runId = some r && m.epoch = epochNow db r

def consumedRounds (db : Db) (r : Uuid) : List Nat :=
  (db.inbound.entries.filter fun p => inEpoch db r p.2).filterMap fun p => p.2.consumedRound

/-- The replies that the transaction consumed, for the first time. -/
def consumedBy (c : Commit) : List Uuid :=
  (c.after.inbound.entries.filter fun p =>
    p.2.consumedRound.isSome && (c.before.inbound.get? p.1).all fun m => m.consumedRound.isNone).map
      Prod.fst

def consumptions (log : List Commit) : List Uuid := log.reverse.flatMap consumedBy

def consumedReplies (db : Db) (r : Uuid) (log : List Commit) : List (Uuid × Inbound) :=
  (consumptions log).filterMap fun e =>
    ((db.inbound.get? e).filter fun m => m.runId = some r && db.epochOf r = some m.epoch).map
      fun m => (e, m)

/-- A reply is consumed under the run's own counter, and no other reply of the
epoch was consumed under it. -/
def marksInTurn (db : Db) : Op → Bool
  | .markReplyConsumed messageId round =>
      db.inbound.entries.all fun p =>
        p.2.mail.messageId ≠ messageId || p.2.consumedRound.isSome ||
          p.2.runId.all fun r => !inEpoch db r p.2 || (round = roundOf db r &&
          round ∉ consumedRounds db r)
  | _ => true

def rewindsUnread (db : Db) (op : Op) : Bool := (rewinds op).all fun r => consumedRounds db r = []

def asksRound (db : Db) : Op → Option (Uuid × Nat)
  | .finalizeSentClarification r round _ => some (r, round)
  | .replayReservedClarification r e _ => (db.outbound.get? e).map fun m => (r, m.round)
  | .reserveClarification r q => some (r, q.round)
  | _ => none

def asksOnward (db : Db) (op : Op) : Bool := (asksRound db op).all fun p => roundOf db p.1 ≤ p.2 + 1

/-- The histories in which the counter of a run never falls behind the replies it
consumed. -/
def countedReplies : World.Rules Op Db Env Commit Thread :=
  ⟨fun _ => True, fun _ _ op db _ => marksInTurn db op = true ∧ rewindsUnread db op = true ∧
    asksOnward db op = true⟩

structure Unread (db : Db) : Prop where
  fresh : Fresh db
  unique : UniqueMails db
  past : ∀ e m r, db.inbound.get? e = some m → m.runId = some r → m.epoch ≤ epochNow db r
  unread : ∀ e m, db.inbound.get? e = some m → m.consumedRound = none

structure OfEpoch (db : Db) (r e : Uuid) (m : Inbound) : Prop where
  stored : db.inbound.get? e = some m
  linked : m.runId = some r
  epoch : m.epoch = epochNow db r

/-- The rounds of the replies ascend in the order of their consumption, up to
the counter of the run. -/
structure Ascending (db : Db) (log : List Commit) : Prop where
  fresh : Fresh db
  unique : UniqueMails db
  past : ∀ e m r, db.inbound.get? e = some m → m.runId = some r → m.epoch ≤ epochNow db r
  behind : ∀ r e m round, OfEpoch db r e m → m.consumedRound = some round → round ≤ roundOf db r
  consumed : ∀ e, e ∈ consumptions log ↔ ∃ m, db.inbound.get? e = some m ∧ m.consumedRound.isSome
  ascending : (consumptions log).Pairwise fun e e' => e ≠ e' ∧ ∀ r m m', OfEpoch db r e m →
    OfEpoch db r e' m' → m.consumedRound.getD 0 < m'.consumedRound.getD 0

variable {db db' : Db} {op : Op} {a : Ans op} {env : Env} {i : Nat} {r e : Uuid} {m m' : Inbound}
    {run : Run} {log : List Commit} {c : Commit}

theorem consumptions_cons : consumptions (c :: log) = consumptions log ++ consumedBy c := by
  simp [consumptions]

theorem inEpoch_iff : inEpoch db r m = true ↔ m.runId = some r ∧ m.epoch = epochNow db r := by
  simp [inEpoch]

theorem OfEpoch.mem_rounds {round : Nat} (h : OfEpoch db r e m) (hround : m.consumedRound = some round) :
    round ∈ consumedRounds db r := by
  apply List.mem_filterMap.mpr
  refine ⟨(e, m), List.mem_filter.mpr ⟨(Dict.get?_eq_some_iff _ _ _).mp h.stored, ?_⟩, hround⟩
  exact inEpoch_iff.mpr ⟨h.linked, h.epoch⟩

theorem mem_consumedBy : e ∈ consumedBy c ↔ ∃ m, c.after.inbound.get? e = some m ∧
    m.consumedRound.isSome = true ∧
    ∀ m₀, c.before.inbound.get? e = some m₀ → m₀.consumedRound = none := by
  simp only [consumedBy, List.mem_map, List.mem_filter, Bool.and_eq_true]
  constructor
  · rintro ⟨⟨e', m⟩, ⟨hm, hsome, hnew⟩, rfl⟩
    refine ⟨m, (Dict.get?_eq_some_iff _ _ _).mpr hm, hsome, fun m₀ hm₀ => ?_⟩
    simpa [hm₀] using hnew
  · rintro ⟨m, hm, hsome, hnew⟩
    refine ⟨(e, m), ⟨(Dict.get?_eq_some_iff _ _ _).mp hm, hsome, ?_⟩, rfl⟩
    cases hm₀ : c.before.inbound.get? e with
    | none => rfl
    | some m₀ => simp [hnew m₀ hm₀]

theorem nodup_consumedBy (c : Commit) : (consumedBy c).Nodup := by
  apply List.Nodup.sublist _ c.after.inbound.nodup
  exact (List.filter_sublist).map _

theorem epochNow_of_run (h : db.runs.get? r = some run) : epochNow db r = run.replyEpoch := by
  rw [epochNow, Db.epochOf, h]
  rfl

/-- What a transaction does to the counter and to the epoch of a run. -/
inductive Ticks (db db' : Db) (op : Op) (r : Uuid) : Prop
  | kept (hround : roundOf db' r = roundOf db r) (hepoch : epochNow db' r = epochNow db r)
  | rewound (hop : op = .rewindForReclaim r) (hepoch : epochNow db' r = epochNow db r)
  | reopened (hepoch : epochNow db' r = epochNow db r + 1)
  | asked (n : Nat) (hop : asksRound db op = some (r, n)) (hround : roundOf db' r = n + 1)
      (hepoch : epochNow db' r = epochNow db r)

section

variable [PyText]

theorem asked_round {run' : Run} (h : Effect env db op a db') (hop : pausesForReply op = some r)
    (hrun : db.runs.get? r = some run) (hrun' : db'.runs.get? r = some run') :
    run' = run ∨ ∃ n, asksRound db op = some (r, n) ∧ run'.clarificationRound = n + 1 := by
  cases h with
  | idle => exact Or.inl (Option.some.inj (hrun'.symm.trans hrun))
  | finalized =>
      cases hop
      rw [pauseForReply_runs, Dict.get?_modify_self hrun] at hrun'
      exact Or.inr ⟨_, rfl, by rw [← Option.some.inj hrun']⟩
  | @replayed r' e' extracted m hm =>
      cases hop
      obtain ⟨hstored, -⟩ := Option.filter_eq_some_iff.mp hm
      rw [pauseForReply_runs, enqueueSend_runs, Dict.get?_modify_self hrun] at hrun'
      refine Or.inr ⟨m.round, ?_, by rw [← Option.some.inj hrun']⟩
      rw [asksRound, hstored, Option.map_some]
  | @reserved r' q =>
      cases hop
      obtain ⟨f, hf, hcolumns⟩ := reserveClarification_round r q db
      rw [hf, Dict.get?_modify_self hrun] at hrun'
      exact Or.inr ⟨q.round, rfl, by rw [← Option.some.inj hrun', (hcolumns run).1]⟩
  | _ => cases hop

theorem ticks (h : Effect env db op a db') (hfresh : Fresh db) (r : Uuid) : Ticks db db' op r := by
  cases hrun : db.runs.get? r with
  | none =>
      have hbefore : roundOf db r = 0 ∧ epochNow db r = 0 := by simp [roundOf, epochNow, Db.epochOf, hrun]
      have hafter : roundOf db' r = 0 ∧ epochNow db' r = 0 := by
        cases runsWrite h hfresh with
        | kept hkept =>
            have hnone : db'.runs.get? r = none := by simpa [hrun] using hkept r
            simp [roundOf, epochNow, Db.epochOf, hnone]
        | @created mail r₀ businessId hstores hruns =>
            by_cases hr : r = r₀
            · simp [roundOf, epochNow, Db.epochOf, hruns, hr, Run.created]
            · simp [roundOf, epochNow, Db.epochOf, hruns, Dict.get?_set_of_ne _ hr, hrun]
      exact .kept (hafter.1.trans hbefore.1.symm) (hafter.2.trans hbefore.2.symm)
  | some run =>
      obtain ⟨run', hrun', hstep⟩ := roundStep h hfresh.runs hrun
      have hround : roundOf db' r = run'.clarificationRound ∧ roundOf db r = run.clarificationRound :=
        ⟨roundOf_stored hrun', roundOf_stored hrun⟩
      have hepoch : epochNow db' r = run'.replyEpoch ∧ epochNow db r = run.replyEpoch :=
        ⟨epochNow_of_run hrun', epochNow_of_run hrun⟩
      cases hstep with
      | kept hsame hsame' => exact .kept (by omega) (by omega)
      | rewound hop hsame => exact .rewound hop (by omega)
      | reopened hnext => exact .reopened (by omega)
      | asked hop hsame =>
          obtain rfl | ⟨n, hasks, hnext⟩ := asked_round h hop hrun hrun'
          · exact .kept (by omega) (by omega)
          · exact .asked n hasks (by omega) (by omega)

theorem before_of_epoch (h : OfEpoch db' r e m') (hm : db.inbound.get? e = some m)
    (htxn : txn env op db = .ok (a, db'))
    (hinv : Ascending db log) : OfEpoch db r e m ∧ epochNow db' r = epochNow db r := by
  obtain ⟨m₁, hm₁, -, hlinked, hepoch⟩ := (inboundWrite htxn).stays hinv.fresh hm
  obtain rfl := Option.some.inj (hm₁.symm.trans h.stored)
  have hrun : m.runId = some r := hlinked.symm.trans h.linked
  have hpast := hinv.past e m r hm hrun
  have hnow : m.epoch = epochNow db' r := hepoch.symm.trans h.epoch
  have hsame : epochNow db' r = epochNow db r := by
    cases ticks (txn_effect htxn) hinv.fresh r with
    | kept _ hsame => exact hsame
    | rewound _ hsame => exact hsame
    | reopened hnext => omega
    | asked n _ _ hsame => exact hsame
  exact ⟨⟨hm, hrun, hnow.trans hsame⟩, hsame⟩

theorem round_step (htxn : txn env op db = .ok (a, db')) (hfresh : Fresh db)
    (hm' : db'.inbound.get? e = some m') :
    (∃ m, db.inbound.get? e = some m ∧ m'.consumedRound = m.consumedRound) ∨
      (∃ m messageId round, db.inbound.get? e = some m ∧ op = .markReplyConsumed messageId round ∧
        m.mail.messageId = messageId ∧ m.consumedRound = none ∧ m'.consumedRound = some round) ∨
      db.inbound.get? e = none ∧ m'.consumedRound = none := by
  cases inboundWrite htxn with
  | same hsame => exact Or.inl ⟨m', by rw [← hsame, hm'], rfl⟩
  | @consumed messageId round hmarked =>
      rw [hmarked, markReplyConsumed, Dict.get?_updateWhere] at hm'
      obtain ⟨m, hm, hrow⟩ := Option.map_eq_some_iff.mp hm'
      split at hrow
      next hmarks =>
        obtain ⟨hid, hnone⟩ := of_decide_eq_true hmarks
        exact Or.inr (Or.inl ⟨m, messageId, round, hm, rfl, hid, hnone, by rw [← hrow]⟩)
      · exact Or.inl ⟨m, hm, by rw [hrow]⟩
  | @stored mail link hstored hnew =>
      rw [hstored e] at hm'
      split at hm'
      next hid =>
        refine Or.inr (Or.inr ⟨hfresh.inbound e (Nat.le_of_eq hid.symm), ?_⟩)
        rw [← Option.some.inj hm']
        rfl
      · exact Or.inl ⟨m', hm', rfl⟩

omit [PyText] in
theorem marked_in_turn {messageId round : Nat}
    (h : marksInTurn db (.markReplyConsumed messageId round) = true)
    (hm : OfEpoch db r e m) (hid : m.mail.messageId = messageId) (hnone : m.consumedRound = none) :
    round = roundOf db r ∧ round ∉ consumedRounds db r := by
  have hrow := List.all_eq_true.mp h (e, m) ((Dict.get?_eq_some_iff _ _ _).mp hm.stored)
  simpa [hid, hnone, hm.linked, inEpoch_iff.mpr ⟨hm.linked, hm.epoch⟩] using hrow

theorem past_step (htxn : txn env op db = .ok (a, db')) (hinv : Ascending db log)
    (hm' : db'.inbound.get? e = some m')
    (hlinked : m'.runId = some r) : m'.epoch ≤ epochNow db' r := by
  have hmono : epochNow db r ≤ epochNow db' r := by
    cases ticks (txn_effect htxn) hinv.fresh r with
    | kept _ hsame => omega
    | rewound _ hsame => omega
    | reopened hnext => omega
    | asked n _ _ hsame => omega
  cases hm : db.inbound.get? e with
  | some m =>
      obtain ⟨m₁, hm₁, -, hrun, hepoch⟩ := (inboundWrite htxn).stays hinv.fresh hm
      obtain rfl := Option.some.inj (hm₁.symm.trans hm')
      have hpast := hinv.past e m r hm (hrun.symm.trans hlinked)
      omega
  | none =>
      cases inboundWrite htxn with
      | same hsame =>
          rw [hsame, hm] at hm'
          cases hm'
      | consumed hmarked =>
          rw [hmarked, markReplyConsumed, Dict.get?_updateWhere, hm] at hm'
          cases hm'
      | @stored mail link hstored hnew =>
          rw [hstored e] at hm'
          split at hm'
          · obtain rfl := Option.some.inj hm'
            obtain rfl : link = some r := hlinked
            exact hmono
          · rw [hm] at hm'
            cases hm'

theorem behind_step {round : Nat} (htxn : txn env op db = .ok (a, db')) (hinv : Ascending db log)
    (hmarks : marksInTurn db op = true) (hrewinds : rewindsUnread db op = true)
    (hasks : asksOnward db op = true)
    (hof : OfEpoch db' r e m') (hround : m'.consumedRound = some round) : round ≤ roundOf db' r := by
  have hticks := ticks (txn_effect htxn) hinv.fresh r
  obtain ⟨m, hm, hsame⟩ | ⟨m, messageId, round', hm, rfl, hid, hnone, hmarked⟩ | ⟨-, hnone⟩ :=
    round_step htxn hinv.fresh hof.stored
  · obtain ⟨hbefore, hepoch⟩ := before_of_epoch hof hm htxn hinv
    have hconsumed := hsame.symm.trans hround
    have hle := hinv.behind r e m round hbefore hconsumed
    cases hticks with
    | kept hkept => omega
    | rewound hop =>
        subst hop
        have hempty : consumedRounds db r = [] := by simpa [rewindsUnread, rewinds] using hrewinds
        have hmem := hbefore.mem_rounds hconsumed
        rw [hempty] at hmem
        cases hmem
    | reopened hnext => omega
    | asked n hop hnext =>
        have honward : roundOf db r ≤ n + 1 := by simpa [asksOnward, hop] using hasks
        omega
  · obtain ⟨hbefore, hepoch⟩ := before_of_epoch hof hm htxn hinv
    obtain ⟨hcounter, -⟩ := marked_in_turn hmarks hbefore hid hnone
    obtain rfl := Option.some.inj (hmarked.symm.trans hround)
    cases hticks with
    | kept hkept => omega
    | rewound hop => cases hop
    | reopened hnext => omega
    | asked n hop => cases hop
  · rw [hnone] at hround
    cases hround

theorem consumed_step (htxn : txn env op db = .ok (a, db')) (hinv : Ascending db log) (e : Uuid) :
    e ∈ consumptions (⟨i, op, a, db, db'⟩ :: log) ↔ ∃ m, db'.inbound.get? e = some m ∧
    m.consumedRound.isSome := by
  rw [consumptions_cons, List.mem_append, hinv.consumed, mem_consumedBy]
  constructor
  · rintro (⟨m, hm, hsome⟩ | ⟨m, hm, hsome, -⟩)
    · obtain ⟨m', hm', -⟩ := (inboundWrite htxn).stays hinv.fresh hm
      refine ⟨m', hm', ?_⟩
      obtain ⟨m₁, hm₁, hsame⟩ | ⟨m₁, messageId, round, hm₁, -, -, hnone, hmarked⟩ | ⟨hnone, -⟩ :=
        round_step htxn hinv.fresh hm'
      · obtain rfl := Option.some.inj (hm.symm.trans hm₁)
        rw [hsame, hsome]
      · rw [hmarked]
        rfl
      · rw [hm] at hnone
        cases hnone
    · exact ⟨m, hm, hsome⟩
  · rintro ⟨m', hm', hsome⟩
    obtain ⟨m, hm, hsame⟩ | ⟨m, messageId, round, hm, -, -, hnone, -⟩ | ⟨-, hnone⟩ :=
      round_step htxn hinv.fresh hm'
    · exact Or.inl ⟨m, hm, by rw [← hsame, hsome]⟩
    · refine Or.inr ⟨m', hm', hsome, fun m₀ hm₀ => ?_⟩
      change db.inbound.get? e = some m₀ at hm₀
      rw [← Option.some.inj (hm.symm.trans hm₀), hnone]
    · rw [hnone] at hsome
      cases hsome

theorem consumed_now (htxn : txn env op db = .ok (a, db')) (hinv : Ascending db log)
    (he : e ∈ consumedBy ⟨i, op, a, db, db'⟩) : ∃ m messageId round, db.inbound.get? e = some m ∧
      op = .markReplyConsumed messageId round ∧ m.mail.messageId = messageId ∧ m.consumedRound = none ∧
        ∀ m', db'.inbound.get? e = some m' → m'.consumedRound = some round := by
  obtain ⟨m', hm', hsome, hnew⟩ := mem_consumedBy.mp he
  obtain ⟨m, hm, hsame⟩ | ⟨m, messageId, round, hm, hop, hid, hnone, hmarked⟩ | ⟨-, hnone⟩ :=
    round_step htxn hinv.fresh hm'
  · rw [hsame, hnew m hm] at hsome
    cases hsome
  · refine ⟨m, messageId, round, hm, hop, hid, hnone, fun m₁ hm₁ => ?_⟩
    obtain rfl := Option.some.inj (hm'.symm.trans hm₁)
    exact hmarked
  · rw [hnone] at hsome
    cases hsome

theorem kept_of_consumed (htxn : txn env op db = .ok (a, db')) (hinv : Ascending db log)
    (he : e ∈ consumptions log)
    (hof : OfEpoch db' r e m') : ∃ m round, OfEpoch db r e m ∧ m.consumedRound = some round ∧
    m'.consumedRound = some round := by
  obtain ⟨m, hm, hsome⟩ := (hinv.consumed e).mp he
  obtain ⟨round, hround⟩ := Option.isSome_iff_exists.mp hsome
  refine ⟨m, round, (before_of_epoch hof hm htxn hinv).1, hround, ?_⟩
  obtain ⟨m₁, hm₁, hsame⟩ | ⟨m₁, messageId, round', hm₁, -, -, hnone, -⟩ | ⟨hnew, -⟩ :=
    round_step htxn hinv.fresh hof.stored
  · rw [hsame, ← Option.some.inj (hm.symm.trans hm₁), hround]
  · rw [← Option.some.inj (hm.symm.trans hm₁), hround] at hnone
    cases hnone
  · rw [hm] at hnew
    cases hnew

/-- The round of a reply that was consumed before stays below that of one that is
consumed now. -/
theorem below_of_consumed {e₀ : Uuid} {m₀' : Inbound} (htxn : txn env op db = .ok (a, db'))
    (hinv : Ascending db log)
    (hmarks : marksInTurn db op = true) (hold : e₀ ∈ consumptions log)
    (he : e ∈ consumedBy ⟨i, op, a, db, db'⟩)
    (hof₀ : OfEpoch db' r e₀ m₀') (hof : OfEpoch db' r e m') :
    m₀'.consumedRound.getD 0 < m'.consumedRound.getD 0 := by
  obtain ⟨m, messageId, round, hm, rfl, hid, hnone, hmarked⟩ := consumed_now htxn hinv he
  obtain ⟨hbefore, -⟩ := before_of_epoch hof hm htxn hinv
  obtain ⟨hcounter, hfree⟩ := marked_in_turn hmarks hbefore hid hnone
  obtain ⟨m₀, round₀, hbefore₀, hround₀, hsame⟩ := kept_of_consumed htxn hinv hold hof₀
  have hle := hinv.behind r e₀ m₀ round₀ hbefore₀ hround₀
  have hne : round₀ ≠ round := by
    rintro rfl
    exact hfree (hbefore₀.mem_rounds hround₀)
  rw [hsame, hmarked m' hof.stored, Option.getD_some, Option.getD_some]
  omega

theorem ascending_step (htxn : txn env op db = .ok (a, db')) (hinv : Ascending db log)
    (hmarks : marksInTurn db op = true) :
    (consumptions (⟨i, op, a, db, db'⟩ :: log)).Pairwise fun e e' => e ≠ e' ∧ ∀ r m m',
    OfEpoch db' r e m → OfEpoch db' r e' m' → m.consumedRound.getD 0 < m'.consumedRound.getD 0 := by
  rw [consumptions_cons, List.pairwise_append]
  refine ⟨?_, ?_, ?_⟩
  · apply hinv.ascending.imp_of_mem
    rintro e e' he he' ⟨hne, hless⟩
    refine ⟨hne, fun r m m' hof hof' => ?_⟩
    obtain ⟨m₁, round, hbefore, hround, hsame⟩ := kept_of_consumed htxn hinv he hof
    obtain ⟨m₁', round', hbefore', hround', hsame'⟩ := kept_of_consumed htxn hinv he' hof'
    have hbelow := hless r m₁ m₁' hbefore hbefore'
    rwa [hround, hround', ← hsame, ← hsame'] at hbelow
  · apply (nodup_consumedBy _).imp_of_mem
    intro e e' he he' hne
    obtain ⟨m, messageId, round, hm, hop, hid, -⟩ := consumed_now htxn hinv he
    obtain ⟨m', messageId', round', hm', hop', hid', -⟩ := consumed_now htxn hinv he'
    obtain ⟨rfl, -⟩ := Op.markReplyConsumed.inj (hop.symm.trans hop')
    exact absurd (hinv.unique e e' m m' hm hm' (hid.trans hid'.symm)) hne
  · intro e he e' he'
    refine ⟨?_, fun r m m' hof hof' => below_of_consumed htxn hinv hmarks he he' hof hof'⟩
    rintro rfl
    obtain ⟨m, hm, hsome⟩ := (hinv.consumed e).mp he
    obtain ⟨m', -, -, hm', -, -, hnone, -⟩ := consumed_now htxn hinv he'
    rw [Option.some.inj (hm.symm.trans hm'), hnone] at hsome
    cases hsome

theorem inv_commit (htxn : txn env op db = .ok (a, db')) (hinv : Ascending db log)
    (hrules : countedReplies.permits i env op db log) : Ascending db' (⟨i, op, a, db, db'⟩ :: log) where
  fresh := fresh_step (txn_effect htxn) hinv.fresh
  unique := (inboundWrite htxn).uniqueMails hinv.unique
  past _ _ _ hm hlinked := past_step htxn hinv hm hlinked
  behind _ _ _ _ hof hround := behind_step htxn hinv hrules.1 hrules.2.1 hrules.2.2 hof hround
  consumed := consumed_step htxn hinv
  ascending := ascending_step htxn hinv hrules.1

omit [PyText] in
theorem ascending_unread (h : Unread db) : Ascending db [] where
  fresh := h.fresh
  unique := h.unique
  past := h.past
  behind r e m round hof hround := by
    rw [h.unread e m hof.stored] at hround
    cases hround
  consumed e := by
    constructor
    · intro he
      cases he
    · rintro ⟨m, hm, hsome⟩
      rw [h.unread e m hm] at hsome
      cases hsome
  ascending := .nil

theorem ascending {w : World Op Ans Exn Db Commit}
    (hreach : World.Reach recorder thread countedReplies Unread w) : Ascending w.data w.log :=
  reach_history hreach (fun _ h => ascending_unread h) fun _ _ _ _ _ _ _ hinv hrules htxn =>
    inv_commit htxn hinv hrules

omit [PyText] in
theorem mem_consumedReplies {p : Uuid × Inbound} : p ∈ consumedReplies db r log ↔ p.1 ∈ consumptions log ∧
    db.inbound.get? p.1 = some p.2 ∧ p.2.runId = some r ∧ db.epochOf r = some p.2.epoch := by
  obtain ⟨e, m⟩ := p
  simp [consumedReplies, Option.filter_eq_some_iff, and_assoc]

omit [PyText] in
theorem pairwise_consumedReplies (hinv : Ascending db log) :
    (consumedReplies db r log).Pairwise fun p q =>
    p.2.consumedRound.getD 0 < q.2.consumedRound.getD 0 := by
  have hof : ∀ e p, (((db.inbound.get? e).filter fun m => m.runId = some r && db.epochOf r =
    some m.epoch).map fun m => (e, m)) = some p → OfEpoch db r e p.2 := by
    intro e p hp
    obtain ⟨m, hm, rfl⟩ := Option.map_eq_some_iff.mp hp
    obtain ⟨hstored, hown⟩ := Option.filter_eq_some_iff.mp hm
    simp only [Bool.and_eq_true, decide_eq_true_eq] at hown
    exact ⟨hstored, hown.1, by rw [epochNow, hown.2, Option.getD_some]⟩
  apply hinv.ascending.filterMap
  intro e e' hless p hp q hq
  exact hless.2 r p.2 q.2 (hof e p hp) (hof e' q hq)

omit [PyText] in
theorem nodup_consumedReplies (hinv : Ascending db log) :
    ((consumedReplies db r log).map Prod.fst).Nodup := by
  apply List.pairwise_map.mpr
  apply hinv.ascending.filterMap
  rintro e e' ⟨hne, -⟩ p hp q hq
  obtain ⟨m, -, rfl⟩ := Option.map_eq_some_iff.mp hp
  obtain ⟨m', -, rfl⟩ := Option.map_eq_some_iff.mp hq
  exact hne

omit [PyText] in
theorem perm_consumedReplies (hinv : Ascending db log) (rank : Uuid → Nat) :
    (loadConsumedReplies rank r db).Perm (consumedReplies db r log) := by
  apply (List.perm_insertionSort _ _).trans
  apply (List.perm_ext_iff_of_nodup _ _).mpr
  · intro p
    rw [mem_consumedReplies, hinv.consumed, List.mem_filter, decide_eq_true_eq]
    constructor
    · rintro ⟨hp, hlinked, hconsumed, hepoch⟩
      have hstored := (Dict.get?_eq_some_iff _ _ _).mpr hp
      exact ⟨⟨p.2, hstored, Option.isSome_iff_ne_none.mpr hconsumed⟩, hstored, hlinked, hepoch⟩
    · rintro ⟨⟨m, hm, hsome⟩, hstored, hlinked, hepoch⟩
      obtain rfl := Option.some.inj (hm.symm.trans hstored)
      exact ⟨(Dict.get?_eq_some_iff _ _ _).mp hstored, hlinked,
        Option.isSome_iff_ne_none.mp hsome, hepoch⟩
  · exact db.inbound.nodup.of_map.filter _
  · apply (pairwise_consumedReplies (r := r) hinv).imp
    rintro p q hless rfl
    exact Nat.lt_irrefl _ hless

omit [PyText] in
theorem pairwise_loaded (rank : Uuid → Nat) (r : Uuid) (db : Db) :
    (loadConsumedReplies rank r db).Pairwise fun p q =>
    p.2.consumedRound.getD 0 ≤ q.2.consumedRound.getD 0 := by
  have hsorted : ((loadConsumedReplies rank r db).map fun p => toLex (p.2.consumedRound.getD 0,
    rank p.1)).Pairwise (· ≤ ·) := by
    rw [loadConsumedReplies, List.map_insertionSort _ (· ≤ ·)]
    · exact List.pairwise_insertionSort (· ≤ ·) _
    · intro p hp q hq
      simp only [List.mem_filter, decide_eq_true_eq] at hp hq
      obtain ⟨-, -, hp, -⟩ := hp
      obtain ⟨-, -, hq, -⟩ := hq
      obtain ⟨n, hn⟩ := Option.ne_none_iff_exists'.mp hp
      obtain ⟨n', hn'⟩ := Option.ne_none_iff_exists'.mp hq
      simp [Prod.Lex.toLex_le_toLex, hn, hn']
  apply (List.pairwise_map.mp hsorted).imp
  intro p q hle
  rw [Prod.Lex.toLex_le_toLex] at hle
  omega

omit [PyText] in
/-- The rows come in the order of their consumption, however the database breaks
ties. -/
theorem loaded_in_order (hinv : Ascending db log) (rank : Uuid → Nat) :
    loadConsumedReplies rank r db = consumedReplies db r log := by
  have hless := pairwise_consumedReplies (r := r) hinv
  have hperm := perm_consumedReplies (r := r) hinv rank
  have hdistinct : (consumedReplies db r log).Pairwise fun p q =>
    p.2.consumedRound.getD 0 ≠ q.2.consumedRound.getD 0 :=
    hless.imp Nat.ne_of_lt
  have hsymm : Std.Symm fun p q : Uuid × Inbound => p.2.consumedRound.getD 0 ≠ q.2.consumedRound.getD 0 :=
    ⟨fun _ _ h => h.symm⟩
  apply hperm.eq_of_pairwise _ (pairwise_loaded rank r db) (hless.imp Nat.le_of_lt)
  intro p q hp hq hle hge
  by_contra hne
  exact hdistinct.forall (hperm.mem_iff.mp hp) hq hne (Nat.le_antisymm hle hge)

/-- The prior replies of a resume are the other replies that were consumed in the
epoch, each once and in the order of their consumption. -/
theorem prior_replies_in_order {w : World Op Ans Exn Db Commit}
    (hreach : World.Reach recorder thread countedReplies Unread w) {newer older : List Commit}
    {rows : Ans (.loadConsumedReplies r)}
    (hlog : w.log = newer ++ ⟨i, .loadConsumedReplies r, rows, db, db'⟩ :: older)
    (inbound : Option InboundMail) :
    priorReplies inbound rows = ((consumedReplies db r older).map Prod.snd).filter
        (fun row => some row.mail.messageId ≠ inbound.map InboundMail.messageId) ∧
      ((consumedReplies db r older).map Prod.fst).Nodup := by
  obtain ⟨w', hreach', rfl, rfl, env, -, htxn⟩ := reach_before hreach hlog
  have hinv := ascending hreach'
  have hrows : loadConsumedReplies env.rank r w'.data = rows := congrArg Prod.fst (Except.ok.inj htxn)
  refine ⟨?_, ?_⟩
  · rw [← hrows, loaded_in_order hinv env.rank]
    rfl
  · exact nodup_consumedReplies hinv

end

section Histories

attribute [local instance] asciiText

instance decidableSpawns : DecidablePred countedReplies.spawns :=
  fun _ => inferInstanceAs (Decidable True)

instance decidablePermits (i : Nat) (env : Env) (op : Op) (db : Db) (log : List Commit) :
    Decidable (countedReplies.permits i env op db log) :=
  inferInstanceAs (Decidable (marksInTurn db op = true ∧ rewindsUnread db op = true ∧
    asksOnward db op = true))

theorem unread_emptyDb : Unread emptyDb := by
  have hinbound : ∀ e, emptyDb.inbound.get? e = none := fun _ => rfl
  constructor
  · exact Fresh.of_keys (by decide)
  · intro e e' m m' hm
    rw [hinbound] at hm
    cases hm
  · intro e m r hm
    rw [hinbound] at hm
    cases hm
  · intro e m hm
    rw [hinbound] at hm
    cases hm

def fourthReply : InboundMail := ⟨43, some 30, [], 6, []⟩

/-- The Message-IDs of the prior replies that the last commit loads, and of those
that it should load. -/
def loads (mail : InboundMail) : List Commit → Option (List Uuid × List Uuid)
  | ⟨_, .loadConsumedReplies r, rows, db, _⟩ :: older =>
      some ((priorReplies (some mail) rows).map fun row => row.mail.messageId,
        (((consumedReplies db r older).map Prod.snd).filter
          fun row => some row.mail.messageId ≠ (some mail).map InboundMail.messageId).map fun row =>
          row.mail.messageId)
  | _ => none

theorem loads_some {mail : InboundMail} {p : List Uuid × List Uuid} (h : loads mail log = some p) :
    ∃ i r rows db db' older, log = ⟨i, .loadConsumedReplies r, rows, db, db'⟩ :: older ∧
      (priorReplies (some mail) rows).map (fun row => row.mail.messageId) = p.1 ∧
        (((consumedReplies db r older).map Prod.snd).filter
          fun row => some row.mail.messageId ≠ (some mail).map InboundMail.messageId).map
            (fun row => row.mail.messageId) = p.2 := by
  unfold loads at h
  split at h
  next i r rows db db' older =>
    obtain rfl := Option.some.inj h
    exact ⟨i, r, rows, db, db', older, rfl, rfl, rfl⟩
  · cases h

/-- The third reply was consumed after a rewind, so the fourth one finds it before
the replies that it corrects. -/
theorem corrections_reordered : ¬ ∀ (w : World Op Ans Exn Db Commit) newer i r (rows : Ans (.loadConsumedReplies r)) db
    db' older (inbound : Option InboundMail), World.Reach recorder thread World.Rules.any Unread w →
      w.log = newer ++ ⟨i, .loadConsumedReplies r, rows, db, db'⟩ :: older →
        priorReplies inbound rows = ((consumedReplies db r older).map Prod.snd).filter
          fun row => some row.mail.messageId ≠ inbound.map InboundMail.messageId := by
  intro h
  have hreach := reach_recordedAfter unread_emptyDb fourAsked
  have hloads : loads fourthReply ((recordedAfter emptyDb fourAsked).log.drop 9) =
    some ([42, 40, 41], [40, 41, 42]) := by
    decide +kernel
  generalize recordedAfter emptyDb fourAsked = w at *
  obtain ⟨i, r, rows, db, db', older, hdrop, hloaded, hordered⟩ := loads_some hloads
  have hlog := (List.take_append_drop 9 w.log).symm
  rw [hdrop] at hlog
  have hprior := h w _ i r rows db db' older (some fourthReply) hreach hlog
  rw [hprior, hordered] at hloaded
  cases hloaded

/-- The replies of three rounds, and the worker of the third one has loaded the
others. -/
def threeAnswered : List (Event Thread Env) :=
  threeAsked ++ works 8 5 32 misnamed ++ arrives 9 42 (some 30) ++ works 10 14 36 misnamed

theorem prior_replies_in_order_three : ∃ i r, ∃ rows : Ans (.loadConsumedReplies r), ∃ db db' older,
    (recordedAfter emptyDb threeAnswered).log = ⟨i, .loadConsumedReplies r, rows, db, db'⟩ :: older ∧
      priorReplies (some ⟨42, some 30, [], 6, []⟩) rows =
        ((consumedReplies db r older).map Prod.snd).filter
        fun row => some row.mail.messageId ≠ some 42 := by
  have hreach : World.Reach recorder thread countedReplies Unread (recordedAfter emptyDb threeAnswered) :=
    reach_recordedAfter_of_permits unread_emptyDb (by decide +kernel)
  have hloads : loads ⟨42, some 30, [], 6, []⟩ (recordedAfter emptyDb threeAnswered).log =
    some ([40, 41], [40, 41]) := by
    decide +kernel
  generalize recordedAfter emptyDb threeAnswered = w at *
  obtain ⟨i, r, rows, db, db', older, hlog, -⟩ := loads_some hloads
  have hsplit : w.log = [] ++ ⟨i, .loadConsumedReplies r, rows, db, db'⟩ :: older := hlog
  have hordered := prior_replies_in_order hreach hsplit (some ⟨42, some 30, [], 6, []⟩)
  exact ⟨i, r, rows, db, db', older, hlog, hordered.1⟩

end Histories

end PayrollAgent.PriorReplies
