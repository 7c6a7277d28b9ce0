import Mathlib.Logic.Function.Basic
import PayrollAgent.Lib.Run

namespace PayrollAgent.WorkerLoop

open Lib

/-- Where a worker thread stands: before its next operation on one of the
events, in `drain_once`, or in its timed wait. -/
inductive Point
  | unborn
  | top
  | clearing
  | draining
  | rechecking
  | waiting
  | asleep
  | exited
  deriving DecidableEq

def Point.alive : Point → Bool
  | .unborn | .exited => false
  | _ => true

/-- How far the `stop()` that holds the lifecycle lock is: it set the stop event,
or it also set the wake event. -/
inductive Closing
  | flagged
  | joining
  deriving DecidableEq

/-- The module state, the events, and the worker threads with their arguments.
The stop events are named by their generations. -/
structure Pool (ι : Type) where
  point : ι → Point
  gen : ι → Nat
  stopSet : Nat → Bool
  wake : Bool
  generation : Nat
  stop : Option Nat
  threads : List ι
  orphans : List ι
  closing : Option Closing

inductive Event (ι : Type)
  | start (ids : List ι)
  | stop
  | stopWakes
  | stopReleases (raises : Bool)
  | produce
  | work (i : ι) (drained : Bool)
  | raises (i : ι)
  | timeout (i : ι)

namespace Pool

variable {ι : Type}

def boot : Pool ι where
  point := fun _ => .unborn
  gen := fun _ => 0
  stopSet := fun _ => false
  wake := false
  generation := 0
  stop := none
  threads := []
  orphans := []
  closing := none

/-- `Event.set()` also ends every wait that is under way. -/
def signal (p : Pool ι) : Pool ι :=
  { p with
    wake := true
    point := fun i => if p.point i = .asleep then .top else p.point i }

variable [DecidableEq ι]

def move (p : Pool ι) (i : ι) (point : Point) : Pool ι :=
  { p with point := Function.update p.point i point }

def alive (p : Pool ι) (i : ι) : Bool := (p.point i).alive

/-- `start(len(ids))`, with the threads it creates. It refuses while a thread or
an orphan is alive. -/
def start (ids : List ι) (p : Pool ι) : Pool ι :=
  let orphans := p.orphans.filter p.alive
  if p.threads ≠ [] ∨ orphans ≠ [] ∨ ids = [] then { p with orphans := orphans }
  else
    { p with
      point := fun i => if i ∈ ids then .top else p.point i
      gen := fun i => if i ∈ ids then p.generation + 1 else p.gen i
      generation := p.generation + 1
      stop := some (p.generation + 1)
      threads := ids
      orphans := orphans }

/-- The next operation of a worker. `drained` is the truth value of what
`drain_once()` returns. -/
def work (i : ι) (drained : Bool) (p : Pool ι) : Pool ι :=
  match p.point i with
  | .top => p.move i (if p.stopSet (p.gen i) = true ∨ p.gen i ≠ p.generation then .exited else .clearing)
  | .clearing => { p.move i .draining with wake := false }
  | .draining => p.move i (if drained then .top else .rechecking)
  | .rechecking => p.move i (if p.stopSet (p.gen i) then .exited else .waiting)
  | .waiting => p.move i (if p.wake then .top else .asleep)
  | _ => p

/-- One atomic operation. What is not possible at its moment does nothing: the
lifecycle lock is held, or the thread stands elsewhere. -/
def step (p : Pool ι) : Event ι → Pool ι
  | .start ids => if p.closing = none ∧ ∀ i ∈ ids, p.point i = .unborn then p.start ids else p
  | .stop =>
      match p.closing, p.stop with
      | none, some g => { p with stopSet := Function.update p.stopSet g true, closing := some .flagged }
      | _, _ => p
  | .stopWakes => if p.closing = some .flagged then { p.signal with closing := some .joining } else p
  | .stopReleases raises =>
      if p.closing = some .joining then
        if raises then { p with closing := none }
        else
          { p with
            orphans := p.orphans ++ p.threads.filter p.alive
            threads := []
            stop := none
            closing := none }
      else p
  | .produce => p.signal
  | .work i drained => p.work i drained
  | .raises i => if p.point i = .draining ∨ p.point i = .waiting then p.move i .top else p
  | .timeout i => if p.point i = .asleep then p.move i .top else p

def steps (p : Pool ι) (es : List (Event ι)) : Pool ι := es.foldl step p

def Enters (p : Pool ι) (e : Event ι) (i : ι) : Prop := p.point i ≠ .asleep ∧ (p.step e).point i = .asleep

/-- No operation takes a worker into its timed wait with its stop flag set and
the wake event clear. -/
def Awake (p : Pool ι) : Prop := ∀ e i, p.Enters e i → ¬(p.stopSet (p.gen i) = true ∧ p.wake = false)

/-- No worker clears the wake event while one whose stop flag is set stands
between its recheck of the flag and its wait. -/
def ClearsSafely (p : Pool ι) : Event ι → Prop
  | .work i _ => p.point i = .clearing → ∀ k, p.stopSet (p.gen k) = true → p.point k ≠ .waiting
  | _ => True

/-- `stop()` does not set the flag of a worker that stands there with the wake
event clear. -/
def FlagsSafely (p : Pool ι) : Event ι → Prop
  | .stop =>
      ∀ g, p.closing = none → p.stop = some g → p.wake = false → ∀ k, p.gen k = g →
        p.point k ≠ .waiting
  | _ => True

variable {p : Pool ι} {e : Event ι} {i k : ι} {drained : Bool} {x y : Point} {g : Nat}

@[simp] theorem move_point_self : (p.move i x).point i = x := Function.update_self ..

@[simp] theorem move_point_of_ne (h : k ≠ i) : (p.move i x).point k = p.point k :=
  Function.update_of_ne h ..

@[simp] theorem move_gen : (p.move i x).gen = p.gen := rfl

@[simp] theorem move_stopSet : (p.move i x).stopSet = p.stopSet := rfl

@[simp] theorem move_wake : (p.move i x).wake = p.wake := rfl

theorem move_point_cases (h : (p.move i x).point k = y) : (k = i ∧ x = y) ∨ (k ≠ i ∧ p.point k = y) := by
  by_cases hk : k = i
  · subst hk
    rw [move_point_self] at h
    exact .inl ⟨rfl, h⟩
  · rw [move_point_of_ne hk] at h
    exact .inr ⟨hk, h⟩

omit [DecidableEq ι] in
theorem signal_point (h : p.signal.point i = x) (hx : x ≠ .top) : p.point i = x ∧ x ≠ .asleep := by
  by_cases hasleep : p.point i = .asleep
  · simp only [signal, hasleep, if_true] at h
    exact absurd h.symm hx
  · simp only [signal, hasleep, if_false] at h
    exact ⟨h, fun hx' => hasleep (h.trans hx')⟩

inductive Goes (p : Pool ι) (i : ι) : Point → Prop
  | exits (hpoint : p.point i = .top ∨ p.point i = .rechecking)
      (hover : p.stopSet (p.gen i) = true ∨ p.gen i ≠ p.generation) : Goes p i .exited
  | begins (hpoint : p.point i = .top) : Goes p i .clearing
  | finds (hpoint : p.point i = .draining) : Goes p i .rechecking
  | passes (hpoint : p.point i = .rechecking) (hstop : p.stopSet (p.gen i) = false) : Goes p i .waiting
  | sleeps (hpoint : p.point i = .waiting) (hwake : p.wake = false) : Goes p i .asleep
  | returns (hpoint : p.point i = .draining ∨ p.point i = .waiting ∨ p.point i = .asleep) : Goes p i .top

inductive Step (p : Pool ι) : Event ι → Pool ι → Prop
  | idle {e : Event ι} : Step p e p
  | refused {ids : List ι} : Step p (.start ids) { p with orphans := p.orphans.filter p.alive }
  | started {ids : List ι} (hclosing : p.closing = none) (hunborn : ∀ i ∈ ids, p.point i = .unborn)
      (hthreads : p.threads = []) (horphans : p.orphans.filter p.alive = []) :
      Step p (.start ids)
        { p with
          point := fun i => if i ∈ ids then .top else p.point i
          gen := fun i => if i ∈ ids then p.generation + 1 else p.gen i
          generation := p.generation + 1
          stop := some (p.generation + 1)
          threads := ids
          orphans := [] }
  | flagged {g : Nat} (hclosing : p.closing = none) (hstop : p.stop = some g) :
      Step p .stop { p with stopSet := Function.update p.stopSet g true, closing := some .flagged }
  | woken (hclosing : p.closing = some .flagged) :
      Step p .stopWakes { p.signal with closing := some .joining }
  | failed (hclosing : p.closing = some .joining) : Step p (.stopReleases true) { p with closing := none }
  | closed (hclosing : p.closing = some .joining) :
      Step p (.stopReleases false)
        { p with
          orphans := p.orphans ++ p.threads.filter p.alive
          threads := []
          stop := none
          closing := none }
  | produced : Step p .produce p.signal
  | cleared {i : ι} {drained : Bool} (hpoint : p.point i = .clearing) :
      Step p (.work i drained) { p.move i .draining with wake := false }
  | moved {e : Event ι} {i : ι} {x : Point} (hgoes : Goes p i x) : Step p e (p.move i x)

theorem step_start (ids : List ι) : Step p (.start ids) (p.step (.start ids)) := by
  dsimp only [step]
  by_cases hnew : p.closing = none ∧ ∀ i ∈ ids, p.point i = .unborn
  · rw [if_pos hnew]
    by_cases hrefused : p.threads ≠ [] ∨ p.orphans.filter p.alive ≠ [] ∨ ids = []
    · have hstart : p.start ids = { p with orphans := p.orphans.filter p.alive } := if_pos hrefused
      rw [hstart]
      exact .refused
    · simp only [not_or, not_not] at hrefused
      obtain ⟨hthreads, horphans, hids⟩ := hrefused
      have hstarted := Step.started hnew.1 hnew.2 hthreads horphans
      simpa [start, hthreads, horphans, hids] using hstarted
  · rw [if_neg hnew]
    exact .idle

theorem step_work (i : ι) (drained : Bool) : Step p (.work i drained) (p.step (.work i drained)) := by
  dsimp only [step]
  unfold work
  split
  next hpoint =>
    split
    next hover => exact .moved (.exits (.inl hpoint) hover)
    · exact .moved (.begins hpoint)
  next hpoint => exact .cleared hpoint
  next hpoint =>
    split
    · exact .moved (.returns (.inl hpoint))
    · exact .moved (.finds hpoint)
  next hpoint =>
    split
    next hstop => exact .moved (.exits (.inr hpoint) (.inl hstop))
    next hstop => exact .moved (.passes hpoint (Bool.eq_false_iff.mpr hstop))
  next hpoint =>
    split
    · exact .moved (.returns (.inr (.inl hpoint)))
    next hwake => exact .moved (.sleeps hpoint (Bool.eq_false_iff.mpr hwake))
  · exact .idle

theorem step_spec (p : Pool ι) (e : Event ι) : Step p e (p.step e) := by
  cases e with
  | start ids => exact step_start ids
  | work i drained => exact step_work i drained
  | produce => exact .produced
  | stop =>
      dsimp only [step]
      split
      next hclosing hstop => exact .flagged hclosing hstop
      · exact .idle
  | stopWakes =>
      dsimp only [step]
      split
      next hclosing => exact .woken hclosing
      · exact .idle
  | stopReleases raises =>
      dsimp only [step]
      split
      next hclosing =>
        cases raises with
        | true => exact .failed hclosing
        | false => exact .closed hclosing
      · exact .idle
  | raises i =>
      dsimp only [step]
      split
      next hpoint => exact .moved (.returns (hpoint.imp_right .inl))
      · exact .idle
  | timeout i =>
      dsimp only [step]
      split
      next hpoint => exact .moved (.returns (.inr (.inr hpoint)))
      · exact .idle

/-- A worker before its wait whose stop flag is set finds the wake event set. -/
def Warned (p : Pool ι) : Prop := ∀ i, p.point i = .waiting → p.stopSet (p.gen i) = true → p.wake = true

variable {p' : Pool ι}

/-- A worker is asleep only where it was, or where it found the wake event clear. -/
theorem asleep_of_step (h : Step p e p') (hasleep : p'.point i = .asleep) :
    p.point i = .asleep ∨ (p.point i = .waiting ∧ p.wake = false) := by
  cases h with
  | idle | refused | flagged | failed | closed => exact .inl hasleep
  | @started ids =>
      by_cases hi : i ∈ ids
      · simp [hi] at hasleep
      · exact .inl (by simpa [hi] using hasleep)
  | woken => exact absurd rfl (signal_point hasleep (by decide)).2
  | produced => exact absurd rfl (signal_point hasleep (by decide)).2
  | cleared hpoint =>
      obtain ⟨-, hdraining⟩ | ⟨-, hsame⟩ := move_point_cases hasleep
      · cases hdraining
      · exact .inl hsame
  | moved hgoes =>
      obtain ⟨rfl, rfl⟩ | ⟨-, hsame⟩ := move_point_cases hasleep
      · cases hgoes with
        | sleeps hpoint hwake => exact .inr ⟨hpoint, hwake⟩
      · exact .inl hsame

theorem awake_iff : p.Awake ↔ p.Warned := by
  constructor
  · intro h i hpoint hstop
    by_contra hwake
    have henters : p.Enters (.work i false) i := by
      refine ⟨by rw [hpoint]; decide, ?_⟩
      simp [step, work, hpoint, hwake]
    exact h _ i henters ⟨hstop, Bool.eq_false_iff.mpr hwake⟩
  · rintro h e i ⟨hpoint, hasleep⟩ ⟨hstop, hwake⟩
    obtain hsame | ⟨hwaiting, -⟩ := asleep_of_step (step_spec p e) hasleep
    · exact hpoint hsame
    · rw [h i hwaiting hstop] at hwake
      cases hwake

theorem warned_of_step (h : Step p e p') (hwarned : p.Warned) (hclears : p.ClearsSafely e)
    (hflags : p.FlagsSafely e) : p'.Warned := by
  cases h with
  | idle | refused | failed | closed => exact hwarned
  | @started ids =>
      intro i hpoint hstop
      by_cases hi : i ∈ ids
      · simp [hi] at hpoint
      · exact hwarned i (by simpa [hi] using hpoint) (by simpa [hi] using hstop)
  | @flagged g hclosing hstopped =>
      intro i hpoint hstop
      by_contra hwake
      by_cases hg : p.gen i = g
      · exact hflags g hclosing hstopped (Bool.eq_false_iff.mpr hwake) i hg hpoint
      · have hold : p.stopSet (p.gen i) = true := by simpa [Function.update_of_ne hg] using hstop
        exact hwake (hwarned i hpoint hold)
  | woken | produced =>
      intro i _ _
      rfl
  | cleared hcleared =>
      intro k hpoint hstop
      obtain ⟨-, hdraining⟩ | ⟨-, hsame⟩ := move_point_cases hpoint
      · cases hdraining
      · exact absurd hsame (hclears hcleared k hstop)
  | moved hgoes =>
      intro k hpoint hstop
      obtain ⟨rfl, rfl⟩ | ⟨-, hsame⟩ := move_point_cases hpoint
      · cases hgoes with
        | passes _ hfree =>
            rw [move_stopSet, move_gen, hfree] at hstop
            cases hstop
      · exact hwarned k hsame hstop

theorem clearsSafely_of_warned (h : (p.step e).Warned) : p.ClearsSafely e := by
  cases e with
  | work i drained =>
      intro hpoint k hstop hwaiting
      have hstep : p.step (.work i drained) = { p.move i .draining with wake := false } := by
        simp [step, work, hpoint]
      have hne : k ≠ i := by
        rintro rfl
        rw [hpoint] at hwaiting
        cases hwaiting
      rw [hstep] at h
      have hwake := h k (by rw [move_point_of_ne hne, hwaiting]) hstop
      cases hwake
  | _ => trivial

theorem flagsSafely_of_warned (h : (p.step e).Warned) : p.FlagsSafely e := by
  cases e with
  | stop =>
      intro g hclosing hstopped hwake k hg hwaiting
      have hstep : p.step .stop = { p with stopSet := Function.update p.stopSet g true, closing := some .flagged } := by
        simp [step, hclosing, hstopped]
      rw [hstep] at h
      have hset := h k hwaiting (by simp [hg])
      rw [hwake] at hset
      cases hset
  | _ => trivial

omit [DecidableEq ι] in
theorem warned_boot : (boot : Pool ι).Warned := by
  intro i hpoint
  cases hpoint

/-- Over every run of the pool from its boot, with any number of workers and
generations: no worker ever enters its timed wait with its stop flag set and the
wake event clear, exactly where no worker clears the event, and `stop()` sets no
flag, while a worker stands between its recheck and its wait. -/
theorem awake_iff_safely (es : List (Event ι)) : (∀ n, (boot.steps (es.take n)).Awake) ↔
    Run.Along step (fun p e => p.ClearsSafely e ∧ p.FlagsSafely e) boot es := by
  simp only [awake_iff]
  apply Run.forall_take_iff (I := Warned)
  · exact fun p h => h
  · exact fun p e hwarned hsafe => warned_of_step (step_spec p e) hwarned hsafe.1 hsafe.2
  · exact fun p e _ h => ⟨clearsSafely_of_warned h, flagsSafely_of_warned h⟩
  · exact warned_boot

/-- A flag is set, and a worker asleep under it, only until the `stop()` that set
it wakes the workers. -/
structure Roused (p : Pool ι) : Prop where
  known : ∀ g, p.stopSet g = true → g ≤ p.generation
  current : ∀ g, p.stop = some g → g ≤ p.generation
  roused : ∀ i, p.stopSet (p.gen i) = true → (p.closing = some .flagged ∧ p.stop = some (p.gen i)) ∨
    (p.point i ≠ .asleep ∧ (p.point i = .waiting → p.wake = true))

theorem roused_of_step (h : Step p e p') (hroused : p.Roused) (hclears : p.ClearsSafely e) :
    p'.Roused := by
  obtain ⟨hknown, hcurrent, hroused⟩ := hroused
  cases h with
  | idle | refused => exact ⟨hknown, hcurrent, hroused⟩
  | @started ids hclosing =>
      refine ⟨fun g hg => Nat.le_succ_of_le (hknown g hg), fun g hg => Nat.le_of_eq
        (Option.some.inj hg).symm, fun i hstop => ?_⟩
      by_cases hi : i ∈ ids
      · have hset : p.stopSet (p.generation + 1) = true := by simpa [hi] using hstop
        have hle := hknown _ hset
        omega
      · obtain ⟨hflagged, -⟩ | hawake := hroused i (by simpa [hi] using hstop)
        · rw [hclosing] at hflagged
          cases hflagged
        · exact .inr (by simpa [hi] using hawake)
  | @flagged g hclosing hstopped =>
      refine ⟨fun g' hg' => ?_, hcurrent, fun i hstop => ?_⟩
      · by_cases hsame : g' = g
        · exact hsame ▸ hcurrent g hstopped
        · exact hknown g' (by simpa [Function.update_of_ne hsame] using hg')
      · by_cases hsame : p.gen i = g
        · exact .inl ⟨rfl, hsame ▸ hstopped⟩
        · obtain ⟨hflagged, -⟩ | hawake := hroused i (by simpa [Function.update_of_ne hsame] using hstop)
          · rw [hclosing] at hflagged
            cases hflagged
          · exact .inr hawake
  | woken | produced =>
      refine ⟨hknown, hcurrent, fun i hstop => .inr ⟨fun hasleep => ?_, fun _ => rfl⟩⟩
      exact (signal_point hasleep (by decide)).2 rfl
  | failed hclosing =>
      refine ⟨hknown, hcurrent, fun i hstop => ?_⟩
      obtain ⟨hflagged, -⟩ | hawake := hroused i hstop
      · rw [hclosing] at hflagged
        cases hflagged
      · exact .inr hawake
  | closed hclosing =>
      refine ⟨hknown, fun g hg => (by cases hg), fun i hstop => ?_⟩
      obtain ⟨hflagged, -⟩ | hawake := hroused i hstop
      · rw [hclosing] at hflagged
        cases hflagged
      · exact .inr hawake
  | cleared hcleared =>
      refine ⟨hknown, hcurrent, fun k hstop => ?_⟩
      obtain hflagged | ⟨hasleep, -⟩ := hroused k hstop
      · exact .inl hflagged
      · refine .inr ⟨fun hpoint => ?_, fun hpoint => ?_⟩
        · obtain ⟨-, hdraining⟩ | ⟨-, hsame⟩ := move_point_cases hpoint
          · cases hdraining
          · exact hasleep hsame
        · obtain ⟨-, hdraining⟩ | ⟨-, hsame⟩ := move_point_cases hpoint
          · cases hdraining
          · exact absurd hsame (hclears hcleared k hstop)
  | moved hgoes =>
      refine ⟨hknown, hcurrent, fun k hstop => ?_⟩
      obtain hflagged | ⟨hasleep, hwarned⟩ := hroused k hstop
      · exact .inl hflagged
      · refine .inr ⟨fun hpoint => ?_, fun hpoint => ?_⟩
        · obtain ⟨rfl, rfl⟩ | ⟨-, hsame⟩ := move_point_cases hpoint
          · cases hgoes with
            | sleeps hpoint hwake =>
                rw [hwarned hpoint] at hwake
                cases hwake
          · exact hasleep hsame
        · obtain ⟨rfl, rfl⟩ | ⟨-, hsame⟩ := move_point_cases hpoint
          · cases hgoes with
            | passes _ hfree =>
                rw [move_stopSet, move_gen, hfree] at hstop
                cases hstop
          · exact hwarned hsame

omit [DecidableEq ι] in
theorem roused_boot : (boot : Pool ι).Roused := by
  refine ⟨fun g hg => ?_, fun g hg => ?_, fun i hstop => ?_⟩
  · cases hg
  · cases hg
  · cases hstop

/-- Where no worker clears the wake event under another one that is about to
wait, no worker of a stopped generation sleeps once its `stop()` woke the workers. -/
theorem not_asleep_of_stopped {es : List (Event ι)} (h : Run.Along step ClearsSafely boot es) (i : ι)
    (hstop : (boot.steps es).stopSet ((boot.steps es).gen i) = true)
    (hwoken : (boot.steps es).closing ≠ some .flagged) : (boot.steps es).point i ≠ .asleep := by
  have hroused : (boot.steps es).Roused :=
    h.invariant (I := Roused) (fun p e hp hclears => roused_of_step (step_spec p e) hp hclears)
      roused_boot
  obtain ⟨hflagged, -⟩ | ⟨hasleep, -⟩ := hroused.roused i hstop
  · exact absurd hflagged hwoken
  · exact hasleep

structure OneGeneration (p : Pool ι) : Prop where
  tracked : ∀ i, p.alive i = true → i ∈ p.threads ∨ i ∈ p.orphans
  current : ∀ i, p.alive i = true → p.gen i = p.generation

theorem alive_of_move (hpoint : p.alive i = true) (h : (p.move i x).alive k = true) :
    p.alive k = true := by
  by_cases hk : k = i
  · rw [hk]
    exact hpoint
  · simpa [Pool.alive, move_point_of_ne hk] using h

omit [DecidableEq ι] in
theorem alive_signal (h : p.signal.alive i = true) : p.alive i = true := by
  by_cases hasleep : p.point i = .asleep
  · simp [Pool.alive, hasleep, Point.alive]
  · simpa [Pool.alive, signal, hasleep] using h

omit [DecidableEq ι] in
theorem Goes.alive (h : Goes p i x) : p.alive i = true := by
  unfold Pool.alive
  cases h with
  | exits hpoint => obtain hpoint | hpoint := hpoint <;> rw [hpoint] <;> rfl
  | begins hpoint | finds hpoint | passes hpoint | sleeps hpoint =>
      rw [hpoint]
      rfl
  | returns hpoint => obtain hpoint | hpoint | hpoint := hpoint <;> rw [hpoint] <;> rfl

theorem oneGeneration_of_step (h : Step p e p') (hone : p.OneGeneration) : p'.OneGeneration := by
  obtain ⟨htracked, hcurrent⟩ := hone
  have hmoved : ∀ i x, p.alive i = true → (p.move i x).OneGeneration := fun i x hpoint =>
    ⟨fun k hk => htracked k (alive_of_move hpoint hk), fun k hk => hcurrent k (alive_of_move hpoint hk)⟩
  cases h with
  | idle | flagged | failed => exact ⟨htracked, hcurrent⟩
  | refused =>
      refine ⟨fun i hi => (htracked i hi).imp_right fun horphan => ?_, hcurrent⟩
      exact List.mem_filter.mpr ⟨horphan, hi⟩
  | @started ids _ _ hthreads horphans =>
      have hdead : ∀ i, p.alive i ≠ true := by
        intro i hi
        obtain hthread | horphan := htracked i hi
        · rw [hthreads] at hthread
          cases hthread
        · have hmem := List.mem_filter.mpr ⟨horphan, hi⟩
          rw [horphans] at hmem
          cases hmem
      have hborn : ∀ i, (if i ∈ ids then Point.top else p.point i).alive = true → i ∈ ids := by
        intro i hi
        by_contra hold
        exact hdead i (by simpa [hold, Pool.alive] using hi)
      exact ⟨fun i hi => .inl (hborn i hi), fun i hi => if_pos (hborn i hi)⟩
  | woken | produced =>
      exact ⟨fun i hi => htracked i (alive_signal hi), fun i hi => hcurrent i (alive_signal hi)⟩
  | closed =>
      refine ⟨fun i hi => .inr ?_, hcurrent⟩
      obtain hthread | horphan := htracked i hi
      · exact List.mem_append_right _ (List.mem_filter.mpr ⟨hthread, hi⟩)
      · exact List.mem_append_left _ horphan
  | @cleared i _ hcleared =>
      have halive : p.alive i = true := by simp [Pool.alive, hcleared, Point.alive]
      exact ⟨(hmoved i .draining halive).tracked, (hmoved i .draining halive).current⟩
  | moved hgoes => exact hmoved _ _ hgoes.alive

/-- The compare of the generations at the top of the loop stops nobody: `start()`
refuses while a worker of another generation lives. -/
theorem gen_of_alive (es : List (Event ι)) (i : ι) (h : (boot.steps es).alive i = true) :
    (boot.steps es).gen i = (boot.steps es).generation := by
  have hboot : (boot : Pool ι).OneGeneration := by
    constructor
    · intro i hi
      cases hi
    · intro i hi
      cases hi
  have hone : (boot.steps es).OneGeneration :=
    List.foldlRecOn es step hboot fun p hp e _ => oneGeneration_of_step (step_spec p e) hp
  exact hone.current i h

section Histories

/-- Two workers. The second one passed the top of its loop before `stop()` set
the flag, and clears the event after `stop()` set it, when the first one has
rechecked the flag and not yet begun its wait. -/
def clearedAfterStop : List (Event Nat) :=
  [.start [0, 1], .work 0 false, .work 0 false, .work 0 false, .work 1 false, .work 0 false, .stop,
    .stopWakes, .work 1 false]

/-- `stop()` set both events and is joining its threads, and the first worker
enters its wait with the wake event clear. -/
theorem worker_sleeps_through_stop : (boot.steps clearedAfterStop).closing = some .joining ∧
    (boot.steps clearedAfterStop).Enters (.work 0 false) 0 ∧ ¬ (boot.steps clearedAfterStop).Awake := by
  have henters : (boot.steps clearedAfterStop).Enters (.work 0 false) 0 := by
    constructor
    · decide
    · rfl
  exact ⟨rfl, henters, fun hawake => hawake (.work 0 false) 0 henters ⟨rfl, rfl⟩⟩

end Histories

end Pool

end PayrollAgent.WorkerLoop
