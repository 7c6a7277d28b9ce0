import PayrollAgent.Drain
import PayrollAgent.Lib.Sequential

namespace PayrollAgent.Pump

open Lib Drain

def maxJobsPerPump : Nat := 20

def maxWallClockSeconds : Nat := 120

def authorized (pumpToken : Str) (authorization : Option Str) : Bool :=
  if pumpToken = [] then false
  else authorization.getD [] = "Bearer ".toList ++ pumpToken

/-- What the `try` block can raise: what one of its calls raises, or the
KeyError of the table of counts. -/
inductive Raised
  | call (e : Exn)
  | key (outcome : DrainOutcome)

structure Tally where
  claimed : Nat
  counts : Dict DrainOutcome Nat

def keys : List DrainOutcome := [.done, .retried, .dead, .fenced, .reapedFinalLease]

def noCounts : Tally where
  claimed := 0
  counts := Dict.ofList (keys.map fun key => (key, 0))

def increment (outcome : DrainOutcome) (counts : Dict DrainOutcome Nat) :
    Except Raised (Dict DrainOutcome Nat) :=
  match counts.get? outcome with
  | none => .error (.key outcome)
  | some n => .ok (counts.set outcome (n + 1))

def count (outcome : DrainOutcome) (tally : Tally) : Except Raised Tally :=
  if outcome = .reapedFinalLease then do
    let counts ← increment .dead tally.counts
    let counts ← increment .reapedFinalLease counts
    pure { tally with counts := counts }
  else do
    let counts ← increment outcome tally.counts
    pure { claimed := tally.claimed + 1, counts := counts }

/-- What a request meets: the readings of the clock, what the calls of
`drain_once` return or raise, and what the two calls after the loop do. -/
structure Surroundings where
  monotonic : Nat → ℚ
  drainOnce : Nat → Except Exn DrainOutcome
  purgeTerminalInboundEvents : Except Exn Nat
  countOpenJobs : Except Exn Nat

/-- The loop after `drained` counted calls, of which `left` more fit under the
cap. The first reading of the clock set the deadline. -/
def drainLoop (s : Surroundings) (deadline : ℚ) : Nat → Nat → Tally → Except Raised Tally
  | 0, _, tally => .ok tally
  | left + 1, drained, tally =>
      if s.monotonic (drained + 1) < deadline then do
        let outcome ← (s.drainOnce drained).mapError .call
        if outcome = .empty then pure tally
        else do
          let tally ← count outcome tally
          drainLoop s deadline left (drained + 1) tally
      else .ok tally

structure HttpException where
  statusCode : Nat
  detail : Str
  deriving DecidableEq

structure Report where
  tally : Tally
  queueDepth : Nat

def drainAndMeasure (s : Surroundings) : Except Raised Report := do
  let tally ← drainLoop s (s.monotonic 0 + maxWallClockSeconds) maxJobsPerPump 0 noCounts
  let _ ← s.purgeTerminalInboundEvents.mapError .call
  let queueDepth ← s.countOpenJobs.mapError .call
  pure ⟨tally, queueDepth⟩

def pump (pumpToken : Str) (authorization : Option Str) (s : Surroundings) :
    Except HttpException Report :=
  if authorized pumpToken authorization then
    (drainAndMeasure s).mapError fun _ => ⟨503, "pump unavailable".toList⟩
  else .error ⟨401, "unauthorized".toList⟩

/-- The table has its five counts, and the calls balance:
`claimed == done + retried + (dead - reaped_final_lease) + fenced`. -/
def Balanced (tally : Tally) : Prop :=
  ∃ entry : DrainOutcome → Nat, (∀ key ∈ keys, tally.counts.get? key = some (entry key)) ∧
    (tally.claimed : ℤ) =
      entry .done + entry .retried + (entry .dead - entry .reapedFinalLease) + entry .fenced

def Counted (outcome : DrainOutcome) : Prop := outcome ≠ .lostLease ∧ outcome ≠ .invalidContext

structure Kept (tally : Tally) : Prop where
  balanced : Balanced tally
  others : ∀ outcome, outcome ∉ keys → tally.counts.get? outcome = none

/-- The loop that starts after `drained` counted calls makes call `n`. -/
structure Makes (s : Surroundings) (deadline : ℚ) (drained left n : Nat) : Prop where
  capped : drained ≤ n ∧ n < drained + left
  inTime : ∀ m, drained ≤ m → m ≤ n → s.monotonic (m + 1) < deadline
  goesOn : ∀ m, drained ≤ m → m < n → ∃ outcome, s.drainOnce m = .ok outcome ∧ outcome ≠ .empty

variable {s : Surroundings} {deadline : ℚ} {left drained n : Nat} {tally : Tally} {outcome : DrainOutcome}
  {counts : Dict DrainOutcome Nat} {entry : DrainOutcome → Nat}

theorem mem_keys_iff : outcome ∈ keys ↔ outcome ≠ .empty ∧ Counted outcome := by
  cases outcome <;> simp [keys, Counted]

theorem kept_noCounts : Kept noCounts := by
  constructor
  · exact ⟨fun _ => 0, by decide, rfl⟩
  · intro outcome hother
    cases outcome <;> first | rfl | exact absurd (by decide) hother

theorem increment_of_none (h : counts.get? outcome = none) :
    increment outcome counts = .error (.key outcome) := by
  simp [increment, h]

theorem increment_of_entries (hentries : ∀ key ∈ keys, counts.get? key = some (entry key))
    (hothers : ∀ outcome, outcome ∉ keys → counts.get? outcome = none) (hmem : outcome ∈ keys) :
    ∃ counts', increment outcome counts = .ok counts' ∧
      (∀ key ∈ keys, counts'.get? key = some (Function.update entry outcome (entry outcome + 1) key)) ∧
      ∀ other, other ∉ keys → counts'.get? other = none := by
  refine ⟨counts.set outcome (entry outcome + 1), by simp [increment, hentries outcome hmem], ?_, ?_⟩
  · intro key hkey
    rw [Dict.get?_set, Function.update_apply]
    split
    · rfl
    · exact hentries key hkey
  · intro other hother
    have hne : other ≠ outcome := by
      rintro rfl
      exact hother hmem
    rw [Dict.get?_set_of_ne _ hne]
    exact hothers other hother

theorem kept_count (h : Kept tally) (hne : outcome ≠ .empty) (hcounted : Counted outcome) :
    ∃ tally', count outcome tally = .ok tally' ∧ Kept tally' := by
  obtain ⟨⟨entry, hentries, hsum⟩, hothers⟩ := h
  by_cases hreaped : outcome = .reapedFinalLease
  · subst hreaped
    obtain ⟨dead, hdead, hentries', hothers'⟩ := increment_of_entries hentries hothers
      (show DrainOutcome.dead ∈ keys by decide)
    obtain ⟨reaped, hreaped, hentries'', hothers''⟩ := increment_of_entries hentries' hothers'
      (show DrainOutcome.reapedFinalLease ∈ keys by decide)
    refine ⟨{ tally with counts := reaped }, ?_, ⟨⟨_, hentries'', ?_⟩, hothers''⟩⟩
    · rw [count, if_pos rfl, hdead]
      change (increment .reapedFinalLease dead >>= _) = _
      rw [hreaped]
      rfl
    · simpa using hsum
  · obtain ⟨counts, hcount, hentries', hothers'⟩ := increment_of_entries hentries hothers
      (mem_keys_iff.mpr ⟨hne, hcounted⟩)
    refine ⟨⟨tally.claimed + 1, counts⟩, ?_, ⟨⟨_, hentries', ?_⟩, hothers'⟩⟩
    · rw [count, if_neg hreaped, hcount]
      rfl
    · -- each of the other four counts stands once in the sum
      cases outcome with
      | empty => exact absurd rfl hne
      | lostLease => exact absurd rfl hcounted.1
      | invalidContext => exact absurd rfl hcounted.2
      | reapedFinalLease => exact absurd rfl hreaped
      | done | retried | dead | fenced =>
          simp only [Function.update_apply, reduceCtorEq, if_false, if_true, Nat.cast_add, Nat.cast_one]
          omega

theorem count_of_not_counted (h : Kept tally) (hcounted : ¬Counted outcome) :
    count outcome tally = .error (.key outcome) := by
  have hne : outcome ≠ .reapedFinalLease := by
    rintro rfl
    exact hcounted ⟨by decide, by decide⟩
  have hother : outcome ∉ keys := fun hmem => hcounted (mem_keys_iff.mp hmem).2
  rw [count, if_neg hne, increment_of_none (h.others outcome hother)]
  rfl

theorem makes_first (hclock : s.monotonic (drained + 1) < deadline) :
    Makes s deadline drained (left + 1) drained := by
  constructor
  · omega
  · intro m hfrom hto
    obtain rfl : m = drained := by omega
    exact hclock
  · intro m hfrom hto
    omega

theorem makes_succ_iff (hclock : s.monotonic (drained + 1) < deadline)
    (hcall : s.drainOnce drained = .ok outcome) (hne : outcome ≠ .empty) :
    Makes s deadline (drained + 1) left n ↔ Makes s deadline drained (left + 1) n ∧ n ≠ drained := by
  constructor
  · rintro ⟨hcapped, hclocks, hgoes⟩
    refine ⟨⟨by omega, fun m hfrom hto => ?_, fun m hfrom hto => ?_⟩, by omega⟩
    · by_cases hm : m = drained
      · rw [hm]
        exact hclock
      · exact hclocks m (by omega) hto
    · by_cases hm : m = drained
      · rw [hm]
        exact ⟨outcome, hcall, hne⟩
      · exact hgoes m (by omega) hto
  · rintro ⟨⟨hcapped, hclocks, hgoes⟩, hn⟩
    constructor
    · omega
    · intro m hfrom hto
      exact hclocks m (by omega) hto
    · intro m hfrom hto
      exact hgoes m (by omega) hto

/-- The loop ends with balanced counts exactly where it makes no call that
raises and gets no outcome without an entry. -/
theorem drainLoop_iff (h : Kept tally) :
    (∃ tally', drainLoop s deadline left drained tally = .ok tally' ∧ Balanced tally') ↔
    ∀ n, Makes s deadline drained left n → ∃ outcome, s.drainOnce n = .ok outcome ∧ Counted outcome := by
  induction left generalizing drained tally with
  | zero =>
      constructor
      · intro _ n hn
        have hcapped := hn.capped
        omega
      · intro _
        exact ⟨tally, rfl, h.balanced⟩
  | succ left ih =>
      by_cases hclock : s.monotonic (drained + 1) < deadline
      · rw [drainLoop, if_pos hclock]
        have hfirst : Makes s deadline drained (left + 1) drained := makes_first hclock
        cases hcall : s.drainOnce drained with
        | error e =>
            constructor
            · rintro ⟨tally', hloop, -⟩
              cases hloop
            · intro hall
              obtain ⟨outcome, hok, -⟩ := hall drained hfirst
              rw [hcall] at hok
              cases hok
        | ok outcome =>
            change (∃ tally', (if outcome = .empty then pure tally else _ : Except Raised Tally) =
              .ok tally' ∧ _) ↔ _
            by_cases hempty : outcome = .empty
            · subst hempty
              rw [if_pos rfl]
              constructor
              · intro _ n hn
                by_cases hn' : n = drained
                · exact ⟨.empty, by rw [hn', hcall], by decide, by decide⟩
                · have hcapped := hn.capped
                  obtain ⟨outcome, hok, hne⟩ := hn.goesOn drained le_rfl (by omega)
                  rw [hcall] at hok
                  cases hok
                  exact absurd rfl hne
              · intro _
                exact ⟨tally, rfl, h.balanced⟩
            · rw [if_neg hempty]
              by_cases hcounted : Counted outcome
              · obtain ⟨tally', hcount, hkept⟩ := kept_count h hempty hcounted
                rw [hcount]
                change (∃ t, drainLoop s deadline left (drained + 1) tally' = .ok t ∧ _) ↔ _
                rw [ih hkept]
                constructor
                · intro hall n hn
                  by_cases hn' : n = drained
                  · exact ⟨outcome, by rw [hn', hcall], hcounted⟩
                  · exact hall n ((makes_succ_iff hclock hcall hempty).mpr ⟨hn, hn'⟩)
                · intro hall n hn
                  exact hall n ((makes_succ_iff hclock hcall hempty).mp hn).1
              · rw [count_of_not_counted h hcounted]
                constructor
                · rintro ⟨tally', hloop, -⟩
                  cases hloop
                · intro hall
                  obtain ⟨outcome', hok, hcounted'⟩ := hall drained hfirst
                  rw [hcall] at hok
                  cases hok
                  exact absurd hcounted' hcounted
      · rw [drainLoop, if_neg hclock]
        constructor
        · intro _ n hn
          exact absurd (hn.inTime drained le_rfl hn.capped.1) hclock
        · intro _
          exact ⟨tally, rfl, h.balanced⟩

/-- The endpoint reports balanced counts exactly where the request carries the
token, nothing raises, and no outcome the loop gets is a lost lease or an invalid
context. -/
theorem pump_balances_iff (pumpToken : Str) (authorization : Option Str) (s : Surroundings) :
    (∃ report, pump pumpToken authorization s = .ok report ∧ Balanced report.tally) ↔
      authorized pumpToken authorization = true ∧
        (∀ n, Makes s (s.monotonic 0 + maxWallClockSeconds) 0 maxJobsPerPump n →
          ∃ outcome, s.drainOnce n = .ok outcome ∧ outcome ≠ .lostLease ∧ outcome ≠ .invalidContext) ∧
        (∃ purged, s.purgeTerminalInboundEvents = .ok purged) ∧
        ∃ queueDepth, s.countOpenJobs = .ok queueDepth := by
  have hloop := @drainLoop_iff s (s.monotonic 0 + maxWallClockSeconds) maxJobsPerPump 0 noCounts
    kept_noCounts
  change _ ↔ _ ∧ (∀ n, _ → ∃ outcome, s.drainOnce n = .ok outcome ∧ Counted outcome) ∧ _
  rw [← hloop, pump]
  by_cases hauthorized : authorized pumpToken authorization = true
  · rw [if_pos hauthorized, drainAndMeasure]
    cases drainLoop s (s.monotonic 0 + maxWallClockSeconds) maxJobsPerPump 0 noCounts with
    | error e =>
        constructor
        · rintro ⟨report, hreport, -⟩
          cases hreport
        · rintro ⟨-, ⟨tally, htally, -⟩, -⟩
          cases htally
    | ok tally =>
        cases hpurge : s.purgeTerminalInboundEvents with
        | error e =>
            constructor
            · rintro ⟨report, hreport, -⟩
              cases hreport
            · rintro ⟨-, -, ⟨purged, hpurged⟩, -⟩
              cases hpurged
        | ok purged =>
            cases hcount : s.countOpenJobs with
            | error e =>
                constructor
                · rintro ⟨report, hreport, -⟩
                  cases hreport
                · rintro ⟨-, -, -, queueDepth, hdepth⟩
                  cases hdepth
            | ok queueDepth =>
                constructor
                · rintro ⟨report, hreport, hbalanced⟩
                  obtain rfl := Except.ok.inj hreport
                  exact ⟨hauthorized, ⟨tally, rfl, hbalanced⟩, ⟨purged, rfl⟩, queueDepth, rfl⟩
                · rintro ⟨-, ⟨tally', htally, hbalanced⟩, -⟩
                  obtain rfl := Except.ok.inj htally
                  exact ⟨⟨tally, queueDepth⟩, rfl, hbalanced⟩
  · rw [if_neg hauthorized]
    constructor
    · rintro ⟨report, hreport, -⟩
      cases hreport
    · rintro ⟨hyes, -⟩
      exact absurd hyes hauthorized

section Histories

open Repo Handlers

attribute [local instance] asciiText

/-- An operator rejected the run while the send of its question was queued. -/
def rejectedDb : Db :=
  { Db.empty with
    nextId := 10
    runs := .ofList [(8, { Run.created 1 3 0 with status := .rejected })]
    outbound := .ofList [(5, reservedMessage 8 .clarification 7)]
    jobs := .ofList [(6, sendJob 8 5)] }

/-- What the first call of `drain_once` returns then. -/
def drainedRejected : Option (Except Exn Drained) :=
  (Drain.drainOnce.run machine (List.replicate 3 { picked := 6 }) rejectedDb).1

def rejectedSurroundings : Surroundings where
  monotonic := fun n => n
  drainOnce := fun n => .ok (if n = 0 then .invalidContext else .empty)
  purgeTerminalInboundEvents := .ok 0
  countOpenJobs := .ok 0

/-- The send is settled for good, and its pump answers 503. -/
theorem settled_send_unavailable :
    drainedRejected = some (.ok { outcome := .invalidContext, discarded := some 10 }) ∧
      ¬ ∃ report, pump ['t'] (some "Bearer t".toList) rejectedSurroundings = .ok report ∧
      Balanced report.tally := by
  constructor
  · decide +kernel
  · rintro ⟨report, hreport, -⟩
    have hclock : rejectedSurroundings.monotonic 1 < rejectedSurroundings.monotonic 0 +
      maxWallClockSeconds := by
      norm_num [rejectedSurroundings, maxWallClockSeconds]
    have hloop : drainLoop rejectedSurroundings (rejectedSurroundings.monotonic 0 + maxWallClockSeconds)
        maxJobsPerPump 0 noCounts = .error (.key .invalidContext) := by
      rw [maxJobsPerPump, drainLoop, if_pos hclock]
      rfl
    rw [pump, if_pos (by decide), drainAndMeasure, hloop] at hreport
    cases hreport

end Histories

end PayrollAgent.Pump
