import PayrollAgent.LeaseFencing

namespace PayrollAgent.StrandedJobs

open Lib Repo Effects FreshIds JobSteps NewJobs LeaseFencing

/-- A pending job can be claimed once it is due, and a leased one can be
claimed or reaped once its lease expired. -/
structure Serviceable (row : JobRow) : Prop where
  pending : row.state = .pending → row.attempts < row.maxAttempts ∧
    ∀ now, row.availableAt ≤ now → claimable now row = true
  leased : row.state = .leased → ∃ leasedUntil, row.leasedUntil = some leasedUntil ∧
    ∀ now, leasedUntil < now → claimable now row = true ∨ reapable now row = true

def Held (tokens : List Uuid) (row : JobRow) : Prop :=
  row.state = .leased ∧ row.leaseToken.any (· ∈ tokens) = true

def sparesLastAttempts (_ : Env) (w : Write) (db : Db) : Prop :=
  ∀ tokens, w = .call (.releaseLeases tokens) →
    ∀ i row, db.jobs.get? i = some row → Held tokens row → row.attempts < row.maxAttempts

/-- What the writes keep of a row: an attempt is left while it is pending. -/
structure Retryable (row : JobRow) : Prop where
  maxAttempts : row.maxAttempts = maxAttempts row.kind
  pending : row.state = .pending → row.attempts < row.maxAttempts

theorem retryable_of_enqueued {row : JobRow} (h : Enqueued row) : Retryable row where
  maxAttempts := h.maxAttempts
  pending := fun _ => by
    rw [h.attempts, h.maxAttempts]
    cases row.kind <;> decide

theorem Retryable.serviceable {row : JobRow} {log : List LeaseNote} {nextId : Nat} (h : Retryable row)
    (hfenced : Fenced row log nextId) : Serviceable row where
  pending := fun hpending => by
    have hroom := h.pending hpending
    refine ⟨hroom, fun now hdue => ?_⟩
    simp [claimable, hroom, hpending, hdue]
  leased := fun hleased => by
    obtain ⟨-, huntil⟩ := hfenced.coherent.leased_iff.mp hleased
    obtain ⟨leasedUntil, huntil⟩ := Option.isSome_iff_exists.mp huntil
    refine ⟨leasedUntil, huntil, fun now hexpired => ?_⟩
    obtain hroom | hlast := hfenced.bounded.lt_or_eq
    · left
      simp [claimable, hroom, hleased, huntil, hexpired]
    · right
      simp [reapable, hlast, hleased, huntil, hexpired]

section

variable [PyText] {env : Env} {w : Write} {db : Db} {j : Uuid} {row row' : JobRow}
  {log notes : List LeaseNote}

theorem retryable_step (hstep : RowStep env w db j row row' notes) (h : Retryable row)
    (hrow : db.jobs.get? j = some row) (hok : sparesLastAttempts env w db) : Retryable row' := by
  cases hstep with
  | kept => exact h
  | claimed => exact ⟨h.maxAttempts, nofun⟩
  | reaped _ _ hunleased =>
      obtain ⟨availableAt, lastError, rfl⟩ := hunleased
      exact ⟨h.maxAttempts, nofun⟩
  | @settled _ token state _ htoken hleased hheld _ hleaves hunleased =>
      obtain ⟨availableAt, lastError, rfl⟩ := hunleased
      refine ⟨h.maxAttempts, fun hpending => ?_⟩
      cases hreleases : w.releases with
      | false =>
          have hleft := hleaves hreleases h.maxAttempts
          obtain rfl : state = .pending := hpending
          exact hleft
      | true =>
          obtain ⟨tokens, rfl⟩ : ∃ tokens, w = .call (.releaseLeases tokens) := by
            unfold Write.releases at hreleases
            split at hreleases
            · exact ⟨_, rfl⟩
            · cases hreleases
          have hmem : token ∈ tokens := htoken
          exact hok tokens rfl j row hrow ⟨hleased, by simp [hheld, hmem]⟩
  | advanced => exact ⟨h.maxAttempts, h.pending⟩

theorem retryable_reaches (h : Reaches sparesLastAttempts j db log) :
    ∀ row, db.jobs.get? j = some row → Retryable row := by
  induction h with
  | start _ hnew => exact fun row hrow => retryable_of_enqueued (hnew j row hrow)
  | @step db log env w h hok ih =>
      intro row' hrow'
      cases hrow : db.jobs.get? j with
      | none =>
          obtain hsome | henqueued := (apply_grow env w db).jobs j row' hrow'
          · rw [hrow] at hsome
            cases hsome
          · exact retryable_of_enqueued henqueued
      | some row =>
          obtain ⟨row₁, hrow₁, hstep⟩ := rowStep env w h.fencing.fresh hrow
          rw [hrow'] at hrow₁
          cases hrow₁
          exact retryable_step hstep (ih row hrow) hrow hok

theorem release_strands {tokens : List Uuid} (hrow : db.jobs.get? j = some row) (hheld : Held tokens row)
    (hlast : row.maxAttempts ≤ row.attempts) (hfault : env.fault = .none) :
    ∃ row', ((Write.call (.releaseLeases tokens)).apply env db).jobs.get? j = some row' ∧
      ¬ Serviceable row' := by
  refine ⟨unlease row .pending db.now row.lastError db.now, ?_, fun h => ?_⟩
  · have hdb : (Write.call (.releaseLeases tokens)).apply env db = releaseLeases tokens db := by
      simp [Write.apply, exec, hfault, txn, writing]
    rw [hdb, releaseLeases, Dict.get?_updateWhere, hrow, Option.map_some, if_pos]
    exact decide_eq_true hheld
  · exact absurd (h.pending rfl).1 (Nat.not_lt.mpr hlast)

/-- As long as no shutdown gives a last attempt up, every job is claimed or
reaped in the end, and the release of a last attempt strands its job. -/
theorem no_job_stranded :
    (∀ j db log row, Reaches sparesLastAttempts j db log → db.jobs.get? j = some row →
      Serviceable row) ∧
      ∀ (env : Env) tokens j db log row, Reaches (fun _ _ _ => True) j db log →
        db.jobs.get? j = some row → Held tokens row → row.maxAttempts ≤ row.attempts →
        env.fault = .none →
          ∃ row', ((Write.call (.releaseLeases tokens)).apply env db).jobs.get? j = some row' ∧
            ¬ Serviceable row' := by
  constructor
  · intro j db log row h hrow
    exact (retryable_reaches h row hrow).serviceable (h.fencing.row row hrow)
  · intro env tokens j db log row _ hrow hheld hlast hfault
    exact release_strands hrow hheld hlast hfault

end

section Histories

attribute [local instance] asciiText

def claimedDb : Db := (Write.call .claimJob).apply { picked := 6 } queuedDb

theorem claimedDb_spared : sparesLastAttempts { picked := 6 } (.call (.releaseLeases [7])) claimedDb := by
  have hroom : claimedDb.jobs.entries.all fun p => p.2.attempts < p.2.maxAttempts := by decide +kernel
  intro tokens _ i row hrow _
  simpa using List.all_eq_true.mp hroom (i, row) ((Dict.get?_eq_some_iff _ _ _).mp hrow)

/-- A shutdown in the first attempt leaves its job claimable. -/
theorem no_job_stranded_released :
    ∃ row, ((Write.call (.releaseLeases [7])).apply { picked := 6 } claimedDb).jobs.get? 6 = some row ∧
      Serviceable row := by
  have hclaimed : Reaches sparesLastAttempts 6 claimedDb
      (notesOf { picked := 6 } (.call .claimJob) queuedDb 6 ++ []) :=
    (Reaches.start fresh_queuedDb enqueued_queuedDb).step nofun
  have hsome : (((Write.call (.releaseLeases [7])).apply { picked := 6 } claimedDb).jobs.get?
    6).isSome := by
    decide +kernel
  obtain ⟨row, hrow⟩ := Option.isSome_iff_exists.mp hsome
  exact ⟨row, hrow, no_job_stranded.1 _ _ _ row (hclaimed.step claimedDb_spared) hrow⟩

def crashedClaim : List (Env × Write) := [({ picked := 0 }, .call .claimJob),
    ({ picked := 0 }, .call (.pass 1000))]

def releasedLast : List (Env × Write) :=
  ({ picked := 0 }, .enqueueJob .runPipeline (.runPipeline 2 0) (some 2) none none none) ::
    crashedClaim ++ crashedClaim ++ crashedClaim ++ crashedClaim ++
      [({ picked := 0 }, .call .claimJob), ({ picked := 0 }, .call (.releaseLeases [5]))]

theorem fresh_empty : Fresh Db.empty := Fresh.of_keys (by decide)

theorem enqueued_empty (i : Uuid) (row : JobRow) (h : Db.empty.jobs.get? i = some row) :
    Enqueued row := by
  rw [Db.empty, Dict.get?_empty] at h
  cases h

theorem stranded_by_shutdown :
    ¬ ∀ j db log row, Reaches (fun _ _ _ => True) j db log → db.jobs.get? j = some row →
      Serviceable row := by
  intro hall
  have hreach : Reaches (fun _ _ _ => True) 0 (afterWrites 0 Db.empty releasedLast).1
      (afterWrites 0 Db.empty releasedLast).2 :=
    reaches_afterWrites fresh_empty enqueued_empty releasedLast
  have hspent : ((afterWrites 0 Db.empty releasedLast).1.jobs.get? 0).any fun row =>
      row.state = .pending ∧ row.attempts = row.maxAttempts := by
    decide +kernel
  generalize afterWrites 0 Db.empty releasedLast = s at *
  cases hrow : s.1.jobs.get? 0 with
  | none => simp [hrow] at hspent
  | some row =>
      have hspent : row.state = .pending ∧ row.attempts = row.maxAttempts := by simpa [hrow] using hspent
      exact absurd ((hall 0 s.1 s.2 row hreach hrow).pending hspent.1).1 hspent.2.not_lt

end Histories

end PayrollAgent.StrandedJobs
