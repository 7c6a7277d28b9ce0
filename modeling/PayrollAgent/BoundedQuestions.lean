import PayrollAgent.Asking
import PayrollAgent.Drives
import PayrollAgent.HoursVisibility

namespace PayrollAgent.BoundedQuestions

open Lib Repo Handlers ClarificationWrites Effects RunSteps FreshIds MessageSteps QuestionSteps
  Drives Asking

/-- The questions of the run's current epoch are of rounds below the counter
that `d` shows. -/
def Above (r : Uuid) (d db : Db) : Prop :=
  ∀ e m, db.outbound.get? e = some m → m.runId = r → isQuestion m = true → db.epochOf r = some m.epoch →
    m.round < roundOf d r

/-- The counter of a run is ahead of the questions of its epoch, and each of
its rounds has one question at most. -/
structure Counted (db : Db) : Prop where
  fresh : Fresh db
  epoch : ∀ e m, db.outbound.get? e = some m → isQuestion m = true →
    ∃ run, db.runs.get? m.runId = some run ∧ m.epoch ≤ run.replyEpoch
  above : ∀ r, Above r db db
  capped : ∀ e m, db.outbound.get? e = some m → isQuestion m = true → m.round < maxClarificationRounds
  distinct : ∀ i j m m', db.outbound.get? i = some m → db.outbound.get? j = some m' →
    isQuestion m = true →
    isQuestion m' = true → m.runId = m'.runId → m.round = m'.round → m.epoch = m'.epoch → i = j

def hasQuestion (db : Db) (r : Uuid) : Bool :=
  (db.outbound.select fun _ m => m.runId = r ∧ isQuestion m ∧ db.epochOf r = some m.epoch).isSome

def rewinds : Op → Option Uuid
  | .rewindForReclaim r => some r
  | _ => none

def RewindsUnasked (op : Op) (db : Db) : Prop := ∀ r ∈ rewinds op, hasQuestion db r = false

instance (op : Op) (db : Db) : Decidable (RewindsUnasked op db) :=
  inferInstanceAs (Decidable (∀ r ∈ rewinds op, hasQuestion db r = false))

/-- The histories in which the stage writes come from the last claimant, and
no rewind takes the counter of a run behind its questions. -/
def keptQuestions : World.Rules Op Db Env Note Thread :=
  ⟨fun _ => True, fun i _ op db log => ByLastClaimant i op log ∧ RewindsUnasked op db⟩

def ReadAbove (i : Nat) (s : Reading) (db : Db) (log : List Note) : Prop :=
  ∀ r, s.run = some r → (∃ run, db.runs.get? r = some run) ∧
    (lastClaimant r log = some i → (db :: s.seen).Pairwise fun newer older => Above r older newer)

section

variable [PyText] {env : Env} {db db' d : Db} {op : Op} {a : Ans op} {i : Nat} {s : Reading}
    {log : List Note} {r e : Uuid} {m : Outbound} {run : Run}

omit [PyText] in
theorem roundOf_stored (hrun : db.runs.get? r = some run) : roundOf db r = run.clarificationRound := by
  rw [roundOf, hrun]
  rfl

omit [PyText] in
theorem epochOf_stored (hrun : db.runs.get? r = some run) : db.epochOf r = some run.replyEpoch := by
  rw [Db.epochOf, hrun]
  rfl

omit [PyText] in
theorem question_of_frozen {m' : Outbound} (h : Frozen m m') : isQuestion m' = isQuestion m := by
  rw [isQuestion, isQuestion, h.purpose]

omit [PyText] in
theorem not_asked (h : hasQuestion db r = false) (hm : db.outbound.get? e = some m) (hrun : m.runId = r)
    (hquestion : isQuestion m = true) : db.epochOf r ≠ some m.epoch := by
  rw [hasQuestion, Option.isSome_eq_false_iff, Option.isNone_iff_eq_none, Dict.select_none] at h
  intro hepoch
  have hslot := h e m hm
  simp [hrun, hquestion, hepoch] at hslot

/-- A question that is current after a step, and that the step did not store,
was current before it. -/
theorem current_before {m₀ : Outbound} (h : Effect env db op a db') (hcounted : Counted db)
    (hm₀ : db.outbound.get? e = some m₀) (hfrozen : Frozen m₀ m) (hrun : m.runId = r)
    (hquestion : isQuestion m = true) (hepoch : db'.epochOf r = some m.epoch) :
    ∃ run run', db.runs.get? r = some run ∧ db'.runs.get? r = some run' ∧ RoundStep r run op run' ∧
      db.epochOf r = some m₀.epoch ∧ run'.replyEpoch = run.replyEpoch := by
  rw [← hrun, hfrozen.runId] at hepoch ⊢
  obtain ⟨run, hstored, hle⟩ := hcounted.epoch e m₀ hm₀ (by rw [← question_of_frozen hfrozen, hquestion])
  obtain ⟨run', hstored', hstep⟩ := roundStep h hcounted.fresh.runs hstored
  rw [epochOf_stored hstored', hfrozen.epoch] at hepoch
  have hcurrent := Option.some.inj hepoch
  have hsame : run'.replyEpoch = run.replyEpoch := by
    cases hstep with
    | kept _ hsame => exact hsame
    | rewound _ hsame => exact hsame
    | reopened hnext => omega
    | asked _ hsame => exact hsame
  exact ⟨run, run', hstored, hstored', hstep, by rw [epochOf_stored hstored, ← hcurrent, hsame], hsame⟩

theorem above_kept (h : Effect env db op a db') (hcounted : Counted db) (hop : pausesForReply op ≠ some r)
    (habove : Above r d db) : Above r d db' := by
  intro e m hm hrun hquestion hepoch
  obtain ⟨m₀, hm₀, hfrozen⟩ | ⟨r', q, hstored⟩ := question_origin h hm hquestion
  · obtain ⟨-, -, -, -, -, hbefore, -⟩ := current_before h hcounted hm₀ hfrozen hrun hquestion hepoch
    rw [hfrozen.round]
    exact habove e m₀ hm₀ (by rw [← hfrozen.runId, hrun])
      (by rw [← question_of_frozen hfrozen, hquestion]) hbefore
  · refine absurd ?_ hop
    rw [hstored.op, ← hrun, hstored.runId]
    rfl

omit [PyText] in
theorem not_found (hJ : ReadAbove i s db log) (hrun : s.run = some r)
    (hlast : lastClaimant r log = some i) : ¬ s.Found r := by
  rintro ⟨purpose, d₁, d₂, hpurpose, hseen, hfound⟩
  have hpairs := (List.pairwise_cons.mp ((hJ r hrun).2 hlast)).2
  have habove : Above r d₁ d₂ := by
    simpa using hpairs.sublist hseen
  obtain ⟨⟨e, m⟩, hslot⟩ := Option.isSome_iff_exists.mp hfound
  obtain ⟨hm, hown⟩ := Dict.select_some hslot
  rw [decide_eq_true_eq] at hown
  obtain ⟨hrunId, hpurpose', hround, hepoch⟩ := hown
  have hlt := habove e m hm hrunId (decide_eq_true (by rw [hpurpose']; exact hpurpose)) hepoch.symm
  exact Nat.lt_irrefl _ (hround ▸ hlt)

/-- A new question of the run, of a round that is above the others. -/
structure NewQuestion (db : Db) (op : Op) (r : Uuid) (q : Question) : Prop where
  op : op = .reserveClarification r q
  purpose : q.purpose ≠ .confirmation
  capped : q.round < maxClarificationRounds
  stored : ∃ run, db.runs.get? r = some run
  above : ∀ e m, db.outbound.get? e = some m → m.runId = r → isQuestion m = true →
    db.epochOf r = some m.epoch → m.round < q.round

omit [PyText] in
theorem stageWrite_of_pauses (h : pausesForReply op = some r) : stageWrite op = some r := by
  cases op with
  | finalizeSentClarification r' round x => exact h
  | replayReservedClarification r' e x => exact h
  | reserveClarification r' q => exact h
  | _ => cases h

omit [PyText] in
theorem newQuestion_of_pauses (hJ : ReadAbove i s db log) (hop : s.allows op)
    (hguard : ByLastClaimant i op log)
    (hpauses : pausesForReply op = some r) : ∃ q, NewQuestion db op r q := by
  have hlast := hguard r (stageWrite_of_pauses hpauses)
  cases op with
  | finalizeSentClarification r' round x =>
      cases hpauses
      exact absurd hop.2 (not_found hJ hop.1 hlast)
  | replayReservedClarification r' e x =>
      cases hpauses
      exact absurd hop.2 (not_found hJ hop.1 hlast)
  | reserveClarification r' q =>
      cases hpauses
      obtain ⟨hrun, hpurpose, hcapped, d, hseen, hround⟩ := hop
      have habove := (List.pairwise_cons.mp ((hJ r hrun).2 hlast)).1 d hseen
      exact ⟨q, rfl, hpurpose, hcapped, (hJ r hrun).1, by rwa [hround]⟩
  | _ => cases hpauses

/-- What a question of the transaction is. -/
def Asks (db : Db) (op : Op) : Prop := ∀ r, pausesForReply op = some r → ∃ q, NewQuestion db op r q

omit [PyText] in
theorem Asks.stored {q : Question} (h : Asks db op) (hstored : Stored db op e m r q) :
    NewQuestion db op r q := by
  obtain ⟨q', hq'⟩ := h r (by rw [hstored.op]; rfl)
  obtain ⟨-, rfl⟩ := Op.reserveClarification.inj (hstored.op.symm.trans hq'.op)
  exact hq'

theorem epoch_step (h : Effect env db op a db') (hcounted : Counted db) (hasks : Asks db op)
    (hm : db'.outbound.get? e = some m) (hquestion : isQuestion m = true) :
    ∃ run, db'.runs.get? m.runId = some run ∧ m.epoch ≤ run.replyEpoch := by
  obtain ⟨m₀, hm₀, hfrozen⟩ | ⟨r, q, hstored⟩ := question_origin h hm hquestion
  · obtain ⟨run, hrun, hle⟩ := hcounted.epoch e m₀ hm₀ (by rw [← question_of_frozen hfrozen, hquestion])
    obtain ⟨run', hrun', hstep⟩ := runStep h hcounted.fresh.runs hrun
    refine ⟨run', by rw [hfrozen.runId, hrun'], ?_⟩
    rw [hfrozen.epoch]
    exact hle.trans hstep.epoch_le
  · obtain ⟨run, hrun⟩ := (hasks.stored hstored).stored
    obtain ⟨run', hrun', hstep⟩ := runStep h hcounted.fresh.runs hrun
    refine ⟨run', by rw [hstored.runId, hrun'], ?_⟩
    rw [hstored.epoch, epochOf_stored hrun]
    exact hstep.epoch_le

theorem above_step_stored {m₀ : Outbound} (h : Effect env db op a db') (hcounted : Counted db)
    (hasks : Asks db op)
    (hrewinds : RewindsUnasked op db) (hm₀ : db.outbound.get? e = some m₀) (hfrozen : Frozen m₀ m)
    (hrun : m.runId = r) (hquestion : isQuestion m = true) (hepoch : db'.epochOf r = some m.epoch) :
    m.round < roundOf db' r := by
  obtain ⟨run, run', hrun₀, hrun', hstep, hbefore, hsame⟩ :=
    current_before h hcounted hm₀ hfrozen hrun hquestion hepoch
  have hown : m₀.runId = r := by rw [← hfrozen.runId, hrun]
  have hquestion₀ : isQuestion m₀ = true := by rw [← question_of_frozen hfrozen, hquestion]
  rw [hfrozen.round, roundOf_stored hrun']
  cases hstep with
  | kept hround =>
      rw [hround, ← roundOf_stored hrun₀]
      exact hcounted.above r e m₀ hm₀ hown hquestion₀ hbefore
  | rewound hop => exact absurd hbefore (not_asked (hrewinds r (by rw [hop]; rfl)) hm₀ hown hquestion₀)
  | reopened hnext => omega
  | asked hop =>
      obtain ⟨q, hq⟩ := hasks r hop
      obtain rfl := hq.op
      obtain ⟨run'', hrun'', hround, -⟩ := round_of_reserved h hrun₀
      rw [hrun''] at hrun'
      obtain rfl := Option.some.inj hrun'
      rw [hround]
      exact (hq.above e m₀ hm₀ hown hquestion₀ hbefore).trans (Nat.lt_succ_self _)

theorem above_step (h : Effect env db op a db') (hcounted : Counted db) (hasks : Asks db op)
    (hrewinds : RewindsUnasked op db) (r : Uuid) : Above r db' db' := by
  intro e m hm hrun hquestion hepoch
  obtain ⟨m₀, hm₀, hfrozen⟩ | ⟨r', q, hstored⟩ := question_origin h hm hquestion
  · exact above_step_stored h hcounted hasks hrewinds hm₀ hfrozen hrun hquestion hepoch
  · obtain ⟨run, hrun₀⟩ := (hasks.stored hstored).stored
    obtain rfl := hstored.op
    obtain ⟨run', hrun', hround, -⟩ := round_of_reserved h hrun₀
    rw [← hrun, hstored.runId, roundOf_stored hrun', hround, hstored.round]
    exact Nat.lt_succ_self _

omit [PyText] in
theorem round_ne_of_stored {q : Question} {m₀ m' : Outbound} {j : Uuid} (hasks : Asks db op)
    (hstored : Stored db op e m r q) (hm₀ : db.outbound.get? j = some m₀) (hfrozen : Frozen m₀ m')
    (hquestion : isQuestion m' = true) (hrun : m.runId = m'.runId) (hepoch : m.epoch = m'.epoch) :
    m.round ≠ m'.round := by
  have hnew := hasks.stored hstored
  obtain ⟨run, hrun₀⟩ := hnew.stored
  have hcurrent : db.epochOf r = some m₀.epoch := by
    rw [← hfrozen.epoch, ← hepoch, hstored.epoch, epochOf_stored hrun₀]
    rfl
  have hlt := hnew.above j m₀ hm₀ (by rw [← hfrozen.runId, ← hrun, hstored.runId])
    (by rw [← question_of_frozen hfrozen, hquestion]) hcurrent
  rw [hstored.round, hfrozen.round]
  exact hlt.ne'

theorem distinct_step (h : Effect env db op a db') (hcounted : Counted db) (hasks : Asks db op) {j : Uuid}
    {m' : Outbound} (hm : db'.outbound.get? e = some m) (hm' : db'.outbound.get? j = some m')
    (hquestion : isQuestion m = true) (hquestion' : isQuestion m' = true) (hrun : m.runId = m'.runId)
    (hround : m.round = m'.round) (hepoch : m.epoch = m'.epoch) : e = j := by
  obtain ⟨m₀, hm₀, hfrozen⟩ | ⟨r, q, hstored⟩ := question_origin h hm hquestion
  · obtain ⟨m₁, hm₁, hfrozen'⟩ | ⟨r', q', hstored'⟩ := question_origin h hm' hquestion'
    · exact hcounted.distinct e j m₀ m₁ hm₀ hm₁ (by rw [← question_of_frozen hfrozen, hquestion])
        (by rw [← question_of_frozen hfrozen', hquestion'])
        (by rw [← hfrozen.runId, hrun, hfrozen'.runId])
        (by rw [← hfrozen.round, hround, hfrozen'.round])
        (by rw [← hfrozen.epoch, hepoch, hfrozen'.epoch])
    · exact absurd hround.symm (round_ne_of_stored hasks hstored' hm₀ hfrozen hquestion hrun.symm
        hepoch.symm)
  · obtain ⟨m₁, hm₁, hfrozen'⟩ | ⟨r', q', hstored'⟩ := question_origin h hm' hquestion'
    · exact absurd hround (round_ne_of_stored hasks hstored hm₁ hfrozen' hquestion' hrun hepoch)
    · rw [hstored.id, hstored'.id]

theorem counted_step (h : Effect env db op a db') (hcounted : Counted db) (hfresh : Fresh db')
    (hasks : Asks db op) (hrewinds : RewindsUnasked op db) : Counted db' where
  fresh := hfresh
  epoch e m := epoch_step h hcounted hasks
  above := above_step h hcounted hasks hrewinds
  capped e m hm hquestion := by
    obtain ⟨m₀, hm₀, hfrozen⟩ | ⟨r, q, hstored⟩ := question_origin h hm hquestion
    · rw [hfrozen.round]
      exact hcounted.capped e m₀ hm₀ (by rw [← question_of_frozen hfrozen, hquestion])
    · rw [hstored.round]
      exact (hasks.stored hstored).capped
  distinct i j m m' hm hm' := distinct_step h hcounted hasks hm hm'

theorem counted_exec (hcounted : Counted db) (hJ : ReadAbove i s db log) (hop : s.allows op)
    (hguard : ByLastClaimant i op log) (hrewinds : RewindsUnasked op db) :
    Counted (exec env op db).2 := by
  apply exec_preserves hcounted
  intro a db' htxn
  exact counted_step (txn_effect htxn) hcounted (fresh_step (txn_effect htxn) hcounted.fresh)
    (fun r => newQuestion_of_pauses hJ hop hguard) hrewinds

/-- What was read holds on after a step that asks no question of the run. -/
theorem pairwise_kept {seen : List Db} (h : Effect env db op a db') (hcounted : Counted db)
    (hop : pausesForReply op ≠ some r)
    (hseen : (db :: seen).Pairwise fun newer older => Above r older newer) :
    (db' :: seen).Pairwise fun newer older => Above r older newer := by
  obtain ⟨hnow, hpast⟩ := List.pairwise_cons.mp hseen
  exact List.pairwise_cons.mpr ⟨fun d hd => above_kept h hcounted hop (hnow d hd), hpast⟩

omit [PyText] in
theorem readAbove_fresh : ReadAbove i .fresh db log := fun _ hrun => by cases hrun

/-- A transaction that asks no question of the run, and does not take it over,
leaves what its last claimant knows. -/
theorem readAbove_step {j : Nat} (h : Effect env db op a db') (hcounted : Counted db)
    (hJ : ReadAbove j s db log)
    (hkept : ∀ r, s.run = some r → lastClaimant r (notes i op db a db' ++ log) = some j →
      lastClaimant r log = some j ∧ pausesForReply op ≠ some r) :
    ReadAbove j s db' (notes i op db a db' ++ log) := by
  intro r hrun
  obtain ⟨hstored, hpairs⟩ := hJ r hrun
  refine ⟨run_stays h hcounted.fresh hstored, fun hlast => ?_⟩
  obtain ⟨hbefore, hop⟩ := hkept r hrun hlast
  exact pairwise_kept h hcounted hop (hpairs hbefore)

theorem readAbove_quiet (h : Effect env db op a db') (hcounted : Counted db) (hJ : ReadAbove i s db log)
    (hquiet : Quiet op) : ReadAbove i s db' (notes i op db a db' ++ log) := by
  refine readAbove_step h hcounted hJ fun r hrun hlast => ⟨?_, by rw [hquiet.1]; nofun⟩
  have hunclaimed : claimsRun op a ≠ some r := fun hclaim => hquiet.2 r (claimsRun_eq hclaim)
  rwa [lastClaimant_notes, if_neg hunclaimed] at hlast

theorem of_query (h : (exec env .query db).1 = .ok d) :
    d = db ∧ (exec env .query db).2 = db ∧ observe i env .query db = [] := by
  rcases exec_cases i env .query db with ⟨e, hexec, -⟩ | ⟨a, db', htxn, hdb, hnotes,
    hanswer | ⟨e, hanswer⟩⟩
  · rw [hexec] at h
    cases h
  · cases htxn
    exact ⟨Except.ok.inj (h.symm.trans hanswer), hdb, hnotes⟩
  · rw [hanswer] at h
    cases h

omit [PyText] in
theorem readAbove_query (hcounted : Counted db) (hJ : ReadAbove i s db log) :
    ReadAbove i { s with seen := db :: s.seen } db log := by
  intro r hrun
  obtain ⟨hstored, hpairs⟩ := hJ r hrun
  refine ⟨hstored, fun hlast => List.pairwise_cons.mpr ⟨fun d hd => ?_, hpairs hlast⟩⟩
  rcases List.mem_cons.mp hd with rfl | hd
  · exact hcounted.above r
  · exact (List.pairwise_cons.mp (hpairs hlast)).1 d hd

theorem readAbove_claimed {a : Ans (.claimStatus r .received .extracting)}
    (h : Effect env db (.claimStatus r .received .extracting) a db') (hcounted : Counted db)
    (hwon : a = true) : ReadAbove i ⟨some r, []⟩ db' log := by
  rintro r' hrun
  obtain rfl := Option.some.inj hrun
  obtain ⟨run, hrun, -⟩ := received_of_claimsRun h (by rw [hwon]; rfl)
  exact ⟨run_stays h hcounted.fresh ⟨run, hrun⟩, fun _ => List.pairwise_singleton _ _⟩

theorem readAbove_own (hcounted : Counted db) (hJ : ReadAbove i s db log) :
    ReadAbove i (s.next op (exec env op db).1) (exec env op db).2 (observe i env op db ++ log) := by
  by_cases hpauses : ∃ r, pausesForReply op = some r
  · obtain ⟨r, hpauses⟩ := hpauses
    rw [next_of_pauses hpauses]
    exact readAbove_fresh
  by_cases hclaims : ∃ r, op = .claimStatus r .received .extracting
  · obtain ⟨r, rfl⟩ := hclaims
    obtain hnext | ⟨hwon, hnext⟩ := next_claim (s := s) r
      (exec env (.claimStatus r .received .extracting) db).1
    · rw [hnext]
      exact readAbove_fresh
    · rw [hnext]
      rcases exec_cases i env (.claimStatus r .received .extracting) db with
        ⟨e, hexec, -⟩ | ⟨a, db', htxn, hdb, -, hanswer | ⟨e, hanswer⟩⟩
      · rw [hexec] at hwon
        cases hwon
      · rw [hdb]
        exact readAbove_claimed (txn_effect htxn) hcounted (Except.ok.inj (hanswer.symm.trans hwon))
      · rw [hanswer] at hwon
        cases hwon
  have hquiet : Quiet op := by
    refine ⟨Option.eq_none_iff_forall_ne_some.mpr fun r h => hpauses ⟨r, h⟩, fun r h => hclaims ⟨r, h⟩⟩
  have hkept : ReadAbove i s (exec env op db).2 (observe i env op db ++ log) := by
    apply exec_observed hJ
    intro a db' htxn
    exact readAbove_quiet (txn_effect htxn) hcounted hJ hquiet
  by_cases hquery : op = .query
  · subst hquery
    obtain hnext | ⟨d, hread, hnext⟩ := next_query (s := s) (exec env .query db).1
    · rw [hnext]
      exact hkept
    · obtain ⟨rfl, hdb, hnotes⟩ := of_query (i := i) hread
      rw [hnext, hdb, hnotes]
      exact readAbove_query hcounted hJ
  · rw [next_same hquiet hquery]
    exact hkept

theorem readAbove_other (hcounted : Counted db) (hguard : ByLastClaimant i op log) {j : Nat} (hji : j ≠ i)
    (hJ : ReadAbove j s db log) : ReadAbove j s (exec env op db).2 (observe i env op db ++ log) := by
  apply exec_observed hJ
  intro a db' htxn
  refine readAbove_step (txn_effect htxn) hcounted hJ fun r hrun hlast => ?_
  rw [lastClaimant_notes] at hlast
  split at hlast
  · exact absurd (Option.some.inj hlast).symm hji
  · refine ⟨hlast, fun hpauses => hji ?_⟩
    have hi := hguard r (stageWrite_of_pauses hpauses)
    rw [hlast] at hi
    exact Option.some.inj hi

theorem preserved : World.Preserved machine thread keptQuestions Counted asking Reading.fresh
    (fun db _ => Counted db) ReadAbove where
  init _ h := h
  follows k _ := thread_follows k
  fresh _ _ _ _ := readAbove_fresh
  shared _ _ _ _ _ _ hcounted hJ hop hrule := counted_exec hcounted hJ hop hrule.1 hrule.2
  own _ _ _ _ _ _ hcounted hJ _ _ := readAbove_own hcounted hJ
  other _ _ _ _ _ _ hcounted _ _ hrule _ _ hji hJ := readAbove_other hcounted hrule.1 hji hJ

def identities (db : Db) (r : Uuid) (n : Nat) : List (Purpose × Nat) :=
  (db.outbound.entries.filter fun p => p.2.runId = r ∧ isQuestion p.2 = true ∧ p.2.epoch = n).map
    fun p => (p.2.purpose, p.2.round)

omit [PyText] in
theorem mem_identities {x : Purpose × Nat} {n : Nat} : x ∈ identities db r n ↔
    ∃ e m, db.outbound.get? e = some m ∧ m.runId = r ∧ isQuestion m = true ∧ m.epoch = n ∧
      (m.purpose, m.round) = x := by
  simp only [identities, List.mem_map, List.mem_filter, decide_eq_true_eq]
  constructor
  · rintro ⟨⟨e, m⟩, ⟨hm, hrun, hquestion, hepoch⟩, hx⟩
    exact ⟨e, m, (Dict.get?_eq_some_iff _ _ _).mpr hm, hrun, hquestion, hepoch, hx⟩
  · rintro ⟨e, m, hm, hrun, hquestion, hepoch, hx⟩
    exact ⟨(e, m), ⟨(Dict.get?_eq_some_iff _ _ _).mp hm, hrun, hquestion, hepoch⟩, hx⟩

theorem identity_stays (hfresh : Fresh db) (hasks : Asks db op) {x : Purpose × Nat} {n : Nat}
    (hx : x ∈ identities db r n) : x ∈ identities (exec env op db).2 r n := by
  apply exec_preserves (P := fun d => x ∈ identities d r n) hx
  intro a db' htxn
  have hmessages : MessagesStep db db' := by
    refine messagesStep (txn_effect htxn) hfresh fun r' q hop => ?_
    obtain ⟨q', hnew⟩ := hasks r' (by rw [hop]; rfl)
    obtain ⟨-, rfl⟩ := Op.reserveClarification.inj (hop.symm.trans hnew.op)
    exact ⟨hnew.purpose, hnew.stored⟩
  obtain ⟨e, m, hm, hrun, hquestion, hepoch, rfl⟩ := mem_identities.mp hx
  obtain ⟨m', hm', hfrozen⟩ := hmessages.stays hm
  refine mem_identities.mpr ⟨e, m', hm', by rw [hfrozen.runId, hrun],
    by rw [question_of_frozen hfrozen, hquestion], by rw [hfrozen.epoch, hepoch], ?_⟩
  rw [hfrozen.purpose, hfrozen.round]

omit [PyText] in
theorem identities_length (hcounted : Counted db) (r : Uuid) (n : Nat) :
    (identities db r n).length ≤ maxClarificationRounds := by
  have hrounds : ((identities db r n).map Prod.snd).Nodup := by
    rw [identities, List.map_map]
    refine List.Nodup.map_on ?_ (db.outbound.nodup.of_map.filter _)
    rintro ⟨e, m⟩ hm ⟨e', m'⟩ hm' hround
    simp only [List.mem_filter, decide_eq_true_eq] at hm hm'
    obtain ⟨hm, hrun, hquestion, hepoch⟩ := hm
    obtain ⟨hm', hrun', hquestion', hepoch'⟩ := hm'
    rw [← Dict.get?_eq_some_iff] at hm hm'
    obtain rfl := hcounted.distinct e e' m m' hm hm' hquestion hquestion' (hrun.trans hrun'.symm) hround
      (hepoch.trans hepoch'.symm)
    rw [hm] at hm'
    obtain rfl := Option.some.inj hm'
    rfl
  have hsubset : (identities db r n).map Prod.snd ⊆ List.range maxClarificationRounds := by
    intro round hround
    obtain ⟨x, hx, rfl⟩ := List.mem_map.mp hround
    obtain ⟨e, m, hm, -, hquestion, -, rfl⟩ := mem_identities.mp hx
    exact List.mem_range.mpr (hcounted.capped e m hm hquestion)
  have hlength := hrounds.length_le_of_subset hsubset
  rwa [List.length_map, List.length_range] at hlength

/-- A run asks at most `maxClarificationRounds` questions in an epoch, and every
question it reserved stays on record. -/
theorem questions_bounded {w : World Op Ans Exn Db Note}
    (hreach : World.Reach machine thread keptQuestions Counted w) (r : Uuid) (n : Nat) :
    (identities w.data r n).dedup.length ≤ maxClarificationRounds ∧
      ∀ e : Event Thread Env, World.Permits keptQuestions w e →
        identities w.data r n ⊆ identities (w.step machine thread e).data r n := by
  have hholds := preserved.reach hreach
  have hcounted := hholds.1
  refine ⟨(List.dedup_sublist _).length_le.trans (identities_length hcounted r n),
    fun e hpermits x hx => ?_⟩
  cases hop : w.operation e with
  | none => rwa [(World.step_of_none hop).1]
  | some y =>
      obtain ⟨i, env, op⟩ := y
      obtain ⟨s, hallows, hJ⟩ := hholds.operation hop
      obtain ⟨rfl, -⟩ := World.operation_some hop
      rw [(World.step_operation hop).1]
      exact identity_stays hcounted.fresh (fun r => newQuestion_of_pauses hJ hallows
        (hpermits i env op hop).1) hx

def Asked (db db' : Db) (r : Uuid) : Prop :=
  ∃ e m, db.outbound.get? e = none ∧ db'.outbound.get? e = some m ∧ m.runId = r ∧ isQuestion m = true ∧
    db'.epochOf r = some m.epoch

def answered (db : Db) (m : Outbound) : Bool :=
  (db.inbound.select fun _ row =>
    row.runId = some m.runId ∧ row.epoch = m.epoch ∧ row.consumedRound.any fun round =>
      m.round < round).isSome

/-- The row that passes for sent is of a question of the current epoch that
nobody has answered. -/
def SentAndOpen (db : Db) (op : Op) : Prop :=
  ∀ r round x, op = .finalizeSentClarification r round x → ∃ e m, db.outbound.get? e = some m ∧
    m.runId = r ∧
    isQuestion m = true ∧ m.round = round ∧ db.epochOf r = some m.epoch ∧ answered db m = false

theorem asked_of_new {q : Question} (h : Effect env db op a db') (hfresh : Fresh db)
    (hnew : NewQuestion db op r q) : Asked db db' r := by
  obtain rfl := hnew.op
  obtain ⟨run, hrun⟩ := hnew.stored
  obtain ⟨run', hrun', -, hepoch⟩ := round_of_reserved h hrun
  cases h with
  | idle hrefused => exact hrefused.elim
  | reserved =>
      have hfree : findSlot db r q.purpose q.round = none := by
        refine Dict.select_none.mpr fun e m hm => decide_eq_false ?_
        rintro ⟨hown, hpurpose, hround, hcurrent⟩
        have hquestion : isQuestion m = true := decide_eq_true (by rw [hpurpose]; exact hnew.purpose)
        exact (hnew.above e m hm hown hquestion hcurrent.symm).ne hround
      refine ⟨db.nextId + 1, ⟨r, q.purpose, q.round, run.replyEpoch, .reserved, none,
        ⟨db.nextId, q.envelope, db.now⟩⟩,
        hfresh.outbound _ (Nat.le_succ _), ?_, rfl, decide_eq_true hnew.purpose, ?_⟩
      · rw [reserveClarification_outbound, reserveOutboundSnapshot, hfree, epochOf_stored hrun]
        exact Dict.get?_set_self ..
      · rw [epochOf_stored hrun', hepoch]

/-- A run is paused for a reply with a question of its own. -/
theorem paused_with_question {w : World Op Ans Exn Db Note}
    (hreach : World.Reach machine thread keptQuestions Counted w) {e : Event Thread Env}
    (hpermits : World.Permits keptQuestions w e) (hop : w.operation e = some (i, env, op))
    (hpauses : pausesForReply op = some r) (hcommits : .paused i r ∈ machine.observe i env op w.data) :
    Asked w.data (w.step machine thread e).data r ∧ SentAndOpen w.data op := by
  have hholds := preserved.reach hreach
  have hcounted := hholds.1
  obtain ⟨s, hallows, hJ⟩ := hholds.operation hop
  obtain ⟨rfl, -⟩ := World.operation_some hop
  obtain ⟨q, hnew⟩ := newQuestion_of_pauses hJ hallows (hpermits i env op hop).1 hpauses
  refine ⟨?_, fun r' round x hsent => ?_⟩
  · rw [(World.step_operation hop).1]
    rcases exec_cases i env op w.data with ⟨e, hexec, hobserve⟩ | ⟨a, db', htxn, hdb, -⟩
    · have hnone : observe i env op w.data = [] := hobserve
      rw [show machine.observe i env op w.data = [] from hnone] at hcommits
      cases hcommits
    · rw [show (machine.exec env op w.data).2 = db' from hdb]
      exact asked_of_new (txn_effect htxn) hcounted.fresh hnew
  · rw [hnew.op] at hsent
    cases hsent

end

section Histories

attribute [local instance] asciiText

instance : DecidablePred keptQuestions.spawns := fun _ => inferInstanceAs (Decidable True)

instance (i : Nat) (env : Env) (op : Op) (db : Db) (log : List Note) :
    Decidable (keptQuestions.permits i env op db log) :=
  inferInstanceAs (Decidable (ByLastClaimant i op log ∧ RewindsUnasked op db))

def emptyDb : Db :=
  { Db.empty with
    nextId := 10
    rosters := .ofList [(1, HoursVisibility.twoWorkers)]
    senders := .ofList [(6, 1)] }

def misnamed : Extracted :=
  ⟨9, [reported "ann lee".toList (whole 40) (whole 10), reported "bobby".toList (whole 30) none],
    none, none⟩

def silent : Extracted :=
  ⟨9, [reported "ann lee".toList (whole 40) none, reported "bob ray".toList (whole 30) none], none, none⟩

/-- A mail of the sender arrives, in reply to a message or as the first one. -/
def arrives (i : Nat) (messageId : Uuid) (inReplyTo : Option Uuid) : List (Event Thread Env) :=
  [.spawn (.receive ⟨messageId, inReplyTo, [], 6, []⟩), .run i {}]

/-- A worker takes the job and makes `n` steps. -/
def works (i n : Nat) (job : Uuid) (x : Extracted) : List (Event Thread Env) :=
  .spawn .worker :: List.replicate n (.run i { picked := job, extracted := x, envelope := letter })

/-- The run is asked about the name, in a clarification that is sent, and the
client replies. -/
def oneAnswered : List (Event Thread Env) :=
  arrives 0 5 none ++ works 1 15 12 misnamed ++ works 2 5 16 misnamed ++ arrives 3 40 (some 14)

/-- The worker of the reply stops after its claim, and the job is claimed
again. The rewound run is about to be paused. -/
def reclaimedResume : List (Event Thread Env) :=
  oneAnswered ++ works 4 7 20 misnamed ++ [.spawn (.pass 1000), .run 5 {}] ++ works 6 18 20 misnamed

/-- The overtime is asked about next, and the worker of the second reply stands
before the reservation of a third question. -/
def aboutToAsk : List (Event Thread Env) :=
  oneAnswered ++ works 4 26 20 silent ++ works 5 5 24 silent ++ arrives 6 41
    (some 22) ++ works 7 23 28 misnamed

def threeAsked : List (Event Thread Env) := aboutToAsk ++ [.run 7 { envelope := letter }, .run 7 {}]

/-- The third reply is reclaimed: its run starts at round 0, where the first
question passes for sent, and the next reply is answered with a fourth one. -/
def fourAsked : List (Event Thread Env) :=
  threeAsked ++ works 8 5 32 misnamed ++ arrives 9 42 (some 30) ++ works 10 5 36 misnamed ++
    [.spawn (.pass 1000), .run 11 {}] ++ works 12 20 36 misnamed ++ arrives 13 43 (some 30) ++
      works 14 23 40 misnamed

theorem counted_emptyDb : Counted emptyDb := by
  have hout : ∀ e, emptyDb.outbound.get? e = none := fun _ => rfl
  refine ⟨Fresh.of_keys (by decide), fun e m hm => ?_, fun r e m hm => ?_, fun e m hm => ?_,
    fun i j m m' hm => ?_⟩
  all_goals
    rw [hout] at hm
    cases hm

/-- A run has asked four questions in its first epoch. -/
theorem questions_unbounded : ¬ ∀ (w : World Op Ans Exn Db Note) r n,
    World.Reach machine thread World.Rules.any Counted w →
      (identities w.data r n).dedup.length ≤ maxClarificationRounds := by
  intro h
  have hreach := reach_worldAfter counted_emptyDb fourAsked
  have hasked : (identities (worldAfter emptyDb fourAsked).data 11 0).dedup.length = 4 := by
    decide +kernel
  generalize worldAfter emptyDb fourAsked = w at *
  have hbound := h w 11 0 hreach
  rw [hasked] at hbound
  exact absurd hbound (by decide)

/-- Three questions are asked of a run that is not rewound. -/
theorem questions_bounded_three :
    (identities (worldAfter emptyDb threeAsked).data 11 0).dedup.length = 3 ∧
    (identities (worldAfter emptyDb threeAsked).data 11 0).dedup.length ≤ maxClarificationRounds := by
  have hreach : World.Reach machine thread keptQuestions Counted (worldAfter emptyDb threeAsked) :=
    reach_worldAfter_of_permits counted_emptyDb (by decide +kernel)
  exact ⟨by decide +kernel, (questions_bounded hreach 11 0).1⟩

def isPause (i : Nat) (r : Uuid) : Note → Bool
  | .paused i' r' => i' = i ∧ r' = r
  | _ => false

def pauses (r : Uuid) (w : World Op Ans Exn Db Note) (e : Event Thread Env) : Bool :=
  (w.operation e).any fun x =>
    pausesForReply x.2.2 = some r && (machine.observe x.1 x.2.1 x.2.2 w.data).any (isPause x.1 r)

theorem exists_pause {w : World Op Ans Exn Db Note} {e : Event Thread Env} {r : Uuid}
    (h : pauses r w e = true) :
    ∃ i env op, w.operation e = some (i, env, op) ∧ pausesForReply op = some r ∧
      .paused i r ∈ machine.observe i env op w.data := by
  obtain ⟨⟨i, env, op⟩, hop, hpause⟩ := (Option.any_eq_true _ _).mp h
  simp only [Bool.and_eq_true, decide_eq_true_eq, List.any_eq_true] at hpause
  obtain ⟨hpauses, n, hn, hpaused⟩ := hpause
  cases n with
  | paused i' r' =>
      obtain ⟨rfl, rfl⟩ := of_decide_eq_true hpaused
      exact ⟨i', env, op, hop, hpauses, hn⟩
  | _ => cases hpaused

theorem not_asked_of_keys {db db' : Db} {r : Uuid} (h : db'.outbound.keys = db.outbound.keys) :
    ¬ Asked db db' r := by
  rintro ⟨e, m, hnone, hm, -⟩
  have hmem : e ∈ db.outbound.keys := by
    rw [← h]
    exact (Dict.mem_keys_iff _ _).mpr ⟨m, hm⟩
  exact (Dict.get?_eq_none_iff _ _).mp hnone hmem

def passesForSent (r : Uuid) : Op → Bool
  | .finalizeSentClarification r' _ _ => r' = r
  | _ => false

theorem not_sentAndOpen {db : Db} {op : Op} {r : Uuid} (hsent : passesForSent r op = true)
    (hanswered : db.outbound.entries.all fun p => answered db p.2) : ¬ SentAndOpen db op := by
  intro h
  cases op with
  | finalizeSentClarification r' round x =>
      obtain ⟨e, m, hm, -, -, -, -, hopen⟩ := h r' round x rfl
      have hall := List.all_eq_true.mp hanswered (e, m) ((Dict.get?_eq_some_iff _ _ _).mp hm)
      rw [hall] at hopen
      cases hopen
  | _ => cases hsent

/-- The rewound run is paused on the strength of its first question, which was
answered long ago, and no question is stored. -/
theorem paused_without_question : ¬ ∀ (w : World Op Ans Exn Db Note) (e : Event Thread Env) i env op r,
    World.Reach machine thread World.Rules.any Counted w → w.operation e = some (i, env, op) →
      pausesForReply op = some r → .paused i r ∈ machine.observe i env op w.data →
        Asked w.data (w.step machine thread e).data r ∨ SentAndOpen w.data op := by
  intro h
  have hreach := reach_worldAfter counted_emptyDb reclaimedResume
  have hpauses : pauses 11 (worldAfter emptyDb reclaimedResume) (.run 6 {}) = true := by decide +kernel
  have hsent : ((worldAfter emptyDb reclaimedResume).operation (.run 6 {} : Event Thread Env)).all
      fun x => passesForSent 11 x.2.2 := by
    decide +kernel
  have hkeys : ((worldAfter emptyDb reclaimedResume).step machine thread (.run 6 {})).data.outbound.keys =
      (worldAfter emptyDb reclaimedResume).data.outbound.keys := by
    decide +kernel
  have hanswered : (worldAfter emptyDb reclaimedResume).data.outbound.entries.all
      fun p => answered (worldAfter emptyDb reclaimedResume).data p.2 := by
    decide +kernel
  generalize worldAfter emptyDb reclaimedResume = w at *
  obtain ⟨i, env, op, hop, hpauses, hpaused⟩ := exists_pause hpauses
  rw [hop] at hsent
  exact (h w _ i env op 11 hreach hop hpauses hpaused).elim (not_asked_of_keys hkeys)
    (not_sentAndOpen hsent hanswered)

/-- The third question is stored by the step that pauses the run for it. -/
theorem paused_with_question_third : Asked (worldAfter emptyDb aboutToAsk).data
    ((worldAfter emptyDb aboutToAsk).step machine thread (.run 7 { envelope := letter })).data 11 := by
  have hreach : World.Reach machine thread keptQuestions Counted (worldAfter emptyDb aboutToAsk) :=
    reach_worldAfter_of_permits counted_emptyDb (by decide +kernel)
  have hpermits : World.Permits keptQuestions (worldAfter emptyDb aboutToAsk)
    (.run 7 { envelope := letter }) := by
    decide +kernel
  have hpauses : pauses 11 (worldAfter emptyDb aboutToAsk) (.run 7 { envelope := letter }) = true := by
    decide +kernel
  obtain ⟨i, env, op, hop, hpauses, hpaused⟩ := exists_pause hpauses
  exact (paused_with_question hreach hpermits hop hpauses hpaused).1

end Histories

end PayrollAgent.BoundedQuestions
