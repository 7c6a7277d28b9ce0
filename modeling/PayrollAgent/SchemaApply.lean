import PayrollAgent.BoundedQuestions

namespace PayrollAgent.SchemaApply

open Lib Repo Handlers QuestionSteps Asking BoundedQuestions

/-- `sent_count`, over the rows of either clarification purpose. -/
def sentCount (db : Db) (r : Uuid) (epoch : Nat) : Nat :=
  db.outbound.values.countP fun m => m.runId = r && isQuestion m && m.sendState = .sent && m.epoch = epoch

/-- The join finds a group where it has a row, and updates where the counts
differ. -/
def backfillClarificationRound (db : Db) (r : Uuid) (run : Run) : Run :=
  if sentCount db r run.replyEpoch ≠ 0 ∧ run.clarificationRound ≠ sentCount db r run.replyEpoch then
    { run with clarificationRound := sentCount db r run.replyEpoch }
  else run

def applySchema (db : Db) : Db := { db with runs := db.runs.mapValues (backfillClarificationRound db) }

/-- No question of the epoch is marked sent, or as many as the counter says. -/
def CountedBySent (db : Db) (r : Uuid) (run : Run) : Prop :=
  sentCount db r run.replyEpoch = 0 ∨ sentCount db r run.replyEpoch = run.clarificationRound

variable {db : Db} {r : Uuid} {run : Run}

theorem backfill_epoch (db : Db) (r : Uuid) (run : Run) :
    (backfillClarificationRound db r run).replyEpoch = run.replyEpoch := by
  unfold backfillClarificationRound
  split
  · rfl
  · rfl

theorem backfill_round_iff : (backfillClarificationRound db r run).clarificationRound =
    run.clarificationRound ↔ CountedBySent db r run := by
  unfold backfillClarificationRound
  split
  next hdiffers =>
    constructor
    · intro hround
      exact absurd hround.symm hdiffers.2
    · intro hcounted
      exact hcounted.elim (fun hnone => absurd hnone hdiffers.1) fun hsame => hsame
  next hkept =>
    refine ⟨fun _ => ?_, fun _ => rfl⟩
    by_cases hnone : sentCount db r run.replyEpoch = 0
    · exact .inl hnone
    · exact .inr (not_not.mp fun hne => hkept ⟨hnone, Ne.symm hne⟩)

theorem applySchema_run (db : Db) (r : Uuid) :
    (applySchema db).runs.get? r = (db.runs.get? r).map (backfillClarificationRound db r) :=
  Dict.get?_mapValues ..

theorem applySchema_epoch (db : Db) (r : Uuid) : (applySchema db).epochOf r = db.epochOf r := by
  rw [Db.epochOf, Db.epochOf, applySchema_run, Option.map_map]
  exact congrArg (Option.map · _) (funext fun run => backfill_epoch db r run)

theorem applySchema_slot (db : Db) (r : Uuid) (purpose : Purpose) (round : Nat) :
    findSlot (applySchema db) r purpose round = findSlot db r purpose round := by
  unfold findSlot
  rw [applySchema_epoch]
  rfl

theorem applySchema_round_iff (hrun : db.runs.get? r = some run) :
    roundOf (applySchema db) r = roundOf db r ↔ CountedBySent db r run := by
  rw [roundOf_stored hrun, roundOf, applySchema_run, hrun]
  exact backfill_round_iff

/-- Running schema.sql again keeps the counters of all runs, and with them the
slots their next questions select, just where every run is counted by its sent
questions. -/
theorem schema_keeps_rounds (db : Db) :
    (∀ r, roundOf (applySchema db) r = roundOf db r ∧ ∀ purpose,
      findSlot (applySchema db) r purpose (roundOf (applySchema db) r) = findSlot db r purpose
      (roundOf db r)) ↔
    ∀ r run, db.runs.get? r = some run → CountedBySent db r run := by
  constructor
  · intro hkept r run hrun
    exact (applySchema_round_iff hrun).mp (hkept r).1
  · intro hcounted r
    have hround : roundOf (applySchema db) r = roundOf db r := by
      cases hrun : db.runs.get? r with
      | some run => exact (applySchema_round_iff hrun).mpr (hcounted r run hrun)
      | none =>
          rw [roundOf, roundOf, applySchema_run, hrun]
          rfl
    refine ⟨hround, fun purpose => ?_⟩
    rw [hround, applySchema_slot]

def sentRounds (db : Db) (r : Uuid) (epoch : Nat) : List Nat :=
  (db.outbound.entries.filter fun p => p.2.runId = r && isQuestion p.2 && p.2.sendState = .sent &&
    p.2.epoch = epoch).map fun p => p.2.round

theorem sentRounds_length (db : Db) (r : Uuid) (epoch : Nat) :
    (sentRounds db r epoch).length = sentCount db r epoch := by
  rw [sentRounds, List.length_map, sentCount, Dict.values, List.countP_map, List.countP_eq_length_filter]
  rfl

theorem mem_sentRounds {epoch n : Nat} : n ∈ sentRounds db r epoch ↔
    ∃ e m, db.outbound.get? e = some m ∧ m.runId = r ∧
    isQuestion m = true ∧ m.sendState = .sent ∧ m.epoch = epoch ∧ m.round = n := by
  simp only [sentRounds, List.mem_map, List.mem_filter, Bool.and_eq_true, decide_eq_true_eq]
  constructor
  · rintro ⟨⟨e, m⟩, ⟨hm, ⟨⟨hown, hquestion⟩, hsent⟩, hepoch⟩, hround⟩
    exact ⟨e, m, (Dict.get?_eq_some_iff _ _ _).mpr hm, hown, hquestion, hsent, hepoch, hround⟩
  · rintro ⟨e, m, hm, hown, hquestion, hsent, hepoch, hround⟩
    exact ⟨(e, m), ⟨(Dict.get?_eq_some_iff _ _ _).mp hm, ⟨⟨hown, hquestion⟩, hsent⟩, hepoch⟩, hround⟩

theorem sentRounds_nodup (hcounted : Counted db) (r : Uuid) (epoch : Nat) :
    (sentRounds db r epoch).Nodup := by
  refine List.Nodup.map_on ?_ (db.outbound.nodup.of_map.filter _)
  rintro ⟨e, m⟩ hm ⟨e', m'⟩ hm' hround
  simp only [List.mem_filter, Bool.and_eq_true, decide_eq_true_eq] at hm hm'
  obtain ⟨hm, ⟨⟨hown, hquestion⟩, -⟩, hepoch⟩ := hm
  obtain ⟨hm', ⟨⟨hown', hquestion'⟩, -⟩, hepoch'⟩ := hm'
  rw [← Dict.get?_eq_some_iff] at hm hm'
  obtain rfl := hcounted.distinct e e' m m' hm hm' hquestion hquestion' (hown.trans hown'.symm) hround
    (hepoch.trans hepoch'.symm)
  rw [hm] at hm'
  obtain rfl := Option.some.inj hm'
  rfl

theorem sentRounds_subset (hcounted : Counted db) (hrun : db.runs.get? r = some run) :
    sentRounds db r run.replyEpoch ⊆ List.range run.clarificationRound := by
  intro n hn
  obtain ⟨e, m, hm, hown, hquestion, -, hepoch, rfl⟩ := mem_sentRounds.mp hn
  have hlt := hcounted.above r e m hm hown hquestion (by rw [epochOf_stored hrun, hepoch])
  rw [roundOf_stored hrun] at hlt
  exact List.mem_range.mpr hlt

/-- Every round that the live counter counts has its question marked sent. -/
def AllSent (db : Db) (r : Uuid) (run : Run) : Prop :=
  ∀ n < run.clarificationRound, ∃ e m, db.outbound.get? e = some m ∧ m.runId = r ∧ isQuestion m = true ∧
    m.sendState = .sent ∧ m.epoch = run.replyEpoch ∧ m.round = n

theorem sentCount_le (hcounted : Counted db) (hrun : db.runs.get? r = some run) :
    sentCount db r run.replyEpoch ≤ run.clarificationRound := by
  have hlength := (sentRounds_nodup hcounted r run.replyEpoch).length_le_of_subset
    (sentRounds_subset hcounted hrun)
  rwa [sentRounds_length, List.length_range] at hlength

theorem sentCount_eq_iff (hcounted : Counted db) (hrun : db.runs.get? r = some run) :
    sentCount db r run.replyEpoch = run.clarificationRound ↔ AllSent db r run := by
  have hnodup := sentRounds_nodup hcounted r run.replyEpoch
  rw [← sentRounds_length]
  constructor
  · intro hlength n hn
    have hsame : (sentRounds db r run.replyEpoch).Perm (List.range run.clarificationRound) :=
      (List.subperm_of_subset hnodup (sentRounds_subset hcounted hrun)).perm_of_length_le
        (by rw [hlength, List.length_range])
    exact mem_sentRounds.mp (hsame.mem_iff.mpr (List.mem_range.mpr hn))
  · intro hall
    refine Nat.le_antisymm (sentRounds_length db r _ ▸ sentCount_le hcounted hrun) ?_
    have hsubset : List.range run.clarificationRound ⊆ sentRounds db r run.replyEpoch := fun n hn =>
      mem_sentRounds.mpr (hall n (List.mem_range.mp hn))
    have hle := List.nodup_range.length_le_of_subset hsubset
    rwa [List.length_range] at hle

/-- Where no rewind takes a counter behind its questions, a deploy raises none, and
keeps that of a run of whose counted questions none is sent, or all are. Beside a
sent one, a question that is only reserved or acknowledged loses its round. -/
theorem schema_rounds_reached [PyText] {w : World Op Ans Exn Db Note}
    (hreach : World.Reach machine thread keptQuestions Counted w) (hrun : w.data.runs.get? r = some run) :
    roundOf (applySchema w.data) r ≤ roundOf w.data r ∧
      (roundOf (applySchema w.data) r = roundOf w.data r ↔
        sentCount w.data r run.replyEpoch = 0 ∨ AllSent w.data r run) := by
  have hcounted := (preserved.reach hreach).1
  refine ⟨?_, (applySchema_round_iff hrun).trans (or_congr_right (sentCount_eq_iff hcounted hrun))⟩
  rw [roundOf_stored hrun, roundOf, applySchema_run, hrun]
  show (backfillClarificationRound w.data r run).clarificationRound ≤ run.clarificationRound
  unfold backfillClarificationRound
  split
  · exact sentCount_le hcounted hrun
  · exact le_rfl

section Histories

attribute [local instance] asciiText

def secondReserved : List (Event Thread Env) := oneAnswered ++ works 4 26 20 silent

/-- A deploy takes the counter of the run from 2 to 1, where the reserved
question is selected again. -/
theorem schema_moves_round :
    ¬ (∀ w : World Op Ans Exn Db Note, World.Reach machine thread World.Rules.any Counted w →
      ∀ r, roundOf (applySchema w.data) r = roundOf w.data r) ∧
    ¬ ∀ w : World Op Ans Exn Db Note, World.Reach machine thread World.Rules.any Counted w →
      ∀ r purpose, findSlot w.data r purpose (roundOf w.data r) = none →
        findSlot (applySchema w.data) r purpose (roundOf (applySchema w.data) r) = none := by
  have hreach := reach_worldAfter counted_emptyDb secondReserved
  have hround : roundOf (worldAfter emptyDb secondReserved).data 11 = 2 := by decide +kernel
  have happlied : roundOf (applySchema (worldAfter emptyDb secondReserved).data) 11 = 1 := by
    decide +kernel
  have hfree :
      (findSlot (worldAfter emptyDb secondReserved).data 11 .clarificationFieldRegression 2).isNone := by
    decide +kernel
  have hused :
      (findSlot (worldAfter emptyDb secondReserved).data 11 .clarificationFieldRegression 1).isSome := by
    decide +kernel
  generalize worldAfter emptyDb secondReserved = w at *
  constructor
  · intro h
    have hkept := h w hreach 11
    rw [hround, happlied] at hkept
    exact absurd hkept (by decide)
  · intro h
    have hselected := h w hreach 11 .clarificationFieldRegression
    rw [hround, happlied, applySchema_slot] at hselected
    rw [hselected (Option.isNone_iff_eq_none.mp hfree)] at hused
    cases hused

end Histories

end PayrollAgent.SchemaApply
