import Mathlib.Data.List.Perm.Subperm
import PayrollAgent.WorkerLoop

namespace PayrollAgent.WorkerLoop

open Lib

def poolBudgetReserve : Nat := 2

/-- `supabase.POOL_MAX_SIZE`. -/
def poolMaxSize : Nat := 5

/-- `lifespan()` refuses to boot with too many workers. -/
def bootRefused (workerCount : Nat) : Bool := poolMaxSize < workerCount + poolBudgetReserve

namespace Pool

variable {ι : Type} [DecidableEq ι] {p p' : Pool ι} {e : Event ι} {es : List (Event ι)} {i : ι} {n : Nat}

/-- Every set of workers that is started passed the check at the boot. -/
def Booted (_ : Pool ι) : Event ι → Prop
  | .start ids => bootRefused ids.length = false
  | _ => True

structure Confined (n : Nat) (p : Pool ι) : Prop where
  one : p.OneGeneration
  confined : ∃ ids : List ι, ids.length ≤ n ∧ ∀ i, p.alive i = true → i ∈ ids

theorem confined_of_step (h : Step p e p') (hp : Confined n p)
    (hstart : ∀ ids, e = .start ids → ids.length ≤ n) : Confined n p' := by
  refine ⟨oneGeneration_of_step h hp.one, ?_⟩
  obtain ⟨ids, hlen, hids⟩ := hp.confined
  cases h with
  | @started new hclosing hunborn hthreads horphans =>
      refine ⟨new, hstart new rfl, fun i hi => ?_⟩
      by_contra hnew
      have hold : p.alive i = true := by simpa [Pool.alive, hnew] using hi
      obtain hthread | horphan := hp.one.tracked i hold
      · rw [hthreads] at hthread
        cases hthread
      · have hmem := List.mem_filter.mpr ⟨horphan, hold⟩
        rw [horphans] at hmem
        cases hmem
  | refused => exact ⟨ids, hlen, hids⟩
  | idle | flagged | failed | closed => exact ⟨ids, hlen, hids⟩
  | woken | produced => exact ⟨ids, hlen, fun i hi => hids i (alive_signal hi)⟩
  | @cleared k _ hpoint =>
      have halive : p.alive k = true := by simp [Pool.alive, hpoint, Point.alive]
      exact ⟨ids, hlen, fun i hi => hids i (alive_of_move (x := .draining) halive hi)⟩
  | moved hgoes => exact ⟨ids, hlen, fun i hi => hids i (alive_of_move hgoes.alive hi)⟩

omit [DecidableEq ι] in
theorem confined_boot : Confined n (boot : Pool ι) := by
  refine ⟨⟨fun i hi => ?_, fun i hi => ?_⟩, [], Nat.zero_le n, fun i hi => ?_⟩
  · cases hi
  · cases hi
  · cases hi

/-- The worker begins a call of `drain_once`. -/
def begins (i : ι) (p : Pool ι) : Event ι → Bool
  | .work k _ => k = i ∧ p.point i = .clearing
  | _ => false

/-- The calls of `drain_once` the worker begins. -/
def drains (i : ι) : Pool ι → List (Event ι) → Nat
  | _, [] => 0
  | p, e :: es => (begins i p e).toNat + drains i (p.step e) es

def mayBegin (i : ι) (p : Pool ι) : Nat := if p.point i = .clearing then 1 else 0

theorem point_work_of_ne {k : ι} (h : i ≠ k) (drained : Bool) :
    (p.work k drained).point i = p.point i := by
  unfold work
  split <;> simp [h]

/-- Only a worker that finds its stop flag clear goes on to a call. -/
theorem clearing_of_step (hborn : p.point i ≠ .unborn) (hstop : p.stopSet (p.gen i) = true)
    (h : (p.step e).point i = .clearing) : p.point i = .clearing := by
  cases e with
  | start ids =>
      dsimp only [step] at h
      split at h
      next hnew =>
        have hold : i ∉ ids := fun hi => hborn (hnew.2 i hi)
        dsimp only [start] at h
        split at h
        · exact h
        · simpa [hold] using h
      · exact h
  | stop =>
      dsimp only [step] at h
      split at h
      · exact h
      · exact h
  | stopWakes =>
      dsimp only [step] at h
      split at h
      · exact (signal_point h (by decide)).1
      · exact h
  | stopReleases raises =>
      dsimp only [step] at h
      split at h
      · split at h
        · exact h
        · exact h
      · exact h
  | produce => exact (signal_point h (by decide)).1
  | work k drained =>
      by_cases hk : i = k
      · subst hk
        dsimp only [step] at h
        unfold work at h
        split at h
        · simp [hstop] at h
        next hpoint => exact hpoint
        · split at h <;> simp at h
        · split at h <;> simp at h
        · split at h <;> simp at h
        · exact h
      · exact (point_work_of_ne hk drained).symm.trans h
  | raises k | timeout k =>
      dsimp only [step] at h
      split at h
      · obtain ⟨-, htop⟩ | ⟨-, hsame⟩ := move_point_cases h
        · cases htop
        · exact hsame
      · exact h

theorem begins_le_of_step (hborn : p.point i ≠ .unborn) (hstop : p.stopSet (p.gen i) = true) :
    (begins i p e).toNat + mayBegin i (p.step e) ≤ mayBegin i p := by
  by_cases hbegins : begins i p e = true
  · cases e with
    | work k drained =>
        simp only [begins, decide_eq_true_eq] at hbegins
        obtain ⟨rfl, hpoint⟩ := hbegins
        have hdraining : (p.step (.work k drained)).point k = .draining := by simp [step, work, hpoint]
        simp [begins, mayBegin, hpoint, hdraining]
    | _ => cases hbegins
  · rw [Bool.not_eq_true] at hbegins
    rw [hbegins, Bool.toNat_false, Nat.zero_add]
    by_cases hclearing : (p.step e).point i = .clearing
    · simp [mayBegin, hclearing, clearing_of_step hborn hstop hclearing]
    · simp [mayBegin, hclearing]

theorem stopped_step (hborn : p.point i ≠ .unborn) (hstop : p.stopSet (p.gen i) = true) :
    (p.step e).point i ≠ .unborn ∧ (p.step e).stopSet ((p.step e).gen i) = true := by
  have hmoved : ∀ k x, x ≠ .unborn → (p.move k x).point i ≠ .unborn := by
    intro k x hx h
    obtain ⟨-, hunborn⟩ | ⟨-, hsame⟩ := move_point_cases h
    · exact hx hunborn
    · exact hborn hsame
  have hsignal : p.signal.point i ≠ .unborn := fun h => hborn (signal_point h (by decide)).1
  cases e with
  | start ids =>
      dsimp only [step]
      split
      next hnew =>
        have hold : i ∉ ids := fun hi => hborn (hnew.2 i hi)
        dsimp only [start]
        split
        · exact ⟨hborn, hstop⟩
        · simpa [hold] using ⟨hborn, hstop⟩
      · exact ⟨hborn, hstop⟩
  | stop =>
      dsimp only [step]
      split
      next g hclosing hgen =>
        refine ⟨hborn, ?_⟩
        by_cases hg : p.gen i = g
        · simp [hg]
        · simpa [hg] using hstop
      · exact ⟨hborn, hstop⟩
  | stopWakes =>
      dsimp only [step]
      split
      · exact ⟨hsignal, hstop⟩
      · exact ⟨hborn, hstop⟩
  | stopReleases raises =>
      dsimp only [step]
      split
      · split
        · exact ⟨hborn, hstop⟩
        · exact ⟨hborn, hstop⟩
      · exact ⟨hborn, hstop⟩
  | produce => exact ⟨hsignal, hstop⟩
  | work k drained =>
      dsimp only [step]
      unfold work
      split
      · refine ⟨hmoved _ _ ?_, hstop⟩
        split <;> decide
      · exact ⟨hmoved _ _ (by decide), hstop⟩
      · refine ⟨hmoved _ _ ?_, hstop⟩
        split <;> decide
      · refine ⟨hmoved _ _ ?_, hstop⟩
        split <;> decide
      · refine ⟨hmoved _ _ ?_, hstop⟩
        split <;> decide
      · exact ⟨hborn, hstop⟩
  | raises k | timeout k =>
      dsimp only [step]
      split
      · exact ⟨hmoved _ _ (by decide), hstop⟩
      · exact ⟨hborn, hstop⟩

theorem drains_le (hborn : p.point i ≠ .unborn) (hstop : p.stopSet (p.gen i) = true) :
    drains i p es ≤ mayBegin i p := by
  induction es generalizing p with
  | nil => exact Nat.zero_le _
  | cons e es ih =>
      obtain ⟨hborn', hstop'⟩ := stopped_step (e := e) hborn hstop
      have hstep := begins_le_of_step (e := e) hborn hstop
      have hrest := ih hborn' hstop'
      simp only [drains]
      omega

/-- In every run whose workers were started past the check of the boot, the live
workers leave the reserve of the connection pool free, and a worker whose stop
flag is set begins at most one more call of `drain_once`. -/
theorem workers_within_budget (h : Run.Along step Booted boot es) :
    (∀ live : List ι, live.Nodup → (∀ i ∈ live, (boot.steps es).alive i = true) →
      live.length + poolBudgetReserve ≤ poolMaxSize) ∧
    ∀ i, (boot.steps es).alive i = true → (boot.steps es).stopSet ((boot.steps es).gen i) = true →
      ∀ later, drains i (boot.steps es) later ≤ 1 := by
  constructor
  · intro live hlive halive
    have hconfined : Confined 3 (boot.steps es) := by
      refine h.invariant (fun p e hp hbooted => ?_) confined_boot
      refine confined_of_step (step_spec p e) hp ?_
      rintro ids rfl
      have hlen : ¬ poolMaxSize < ids.length + poolBudgetReserve := of_decide_eq_false hbooted
      unfold poolMaxSize poolBudgetReserve at hlen
      omega
    obtain ⟨ids, hlen, hids⟩ := hconfined.confined
    have hsub : live.length ≤ ids.length := (hlive.subperm fun i hi => hids i (halive i hi)).length_le
    unfold poolMaxSize poolBudgetReserve
    omega
  · intro i halive hstop later
    have hborn : (boot.steps es).point i ≠ .unborn := by
      intro hunborn
      simp [Pool.alive, hunborn, Point.alive] at halive
    have hdrains : drains i (boot.steps es) later ≤ mayBegin i (boot.steps es) := drains_le hborn hstop
    have hmay : mayBegin i (boot.steps es) ≤ 1 := by
      unfold mayBegin
      split <;> omega
    omega

theorem workers_within_budget_stopping : [0, 1].length + poolBudgetReserve ≤ poolMaxSize ∧
    drains 0 (boot.steps clearedAfterStop) [.work 0 false, .timeout 0, .work 0 false] ≤ 1 := by
  have hbooted : Run.Along step Booted boot clearedAfterStop :=
    ⟨rfl, trivial, trivial, trivial, trivial, trivial, trivial, trivial, trivial, trivial⟩
  have halive : ∀ i ∈ [0, 1], (boot.steps clearedAfterStop).alive i = true := by
    simp only [List.forall_mem_cons]
    exact ⟨rfl, rfl, by simp⟩
  exact ⟨(workers_within_budget hbooted).1 [0, 1] (by decide) halive,
    (workers_within_budget hbooted).2 0 rfl rfl _⟩

end Pool

end PayrollAgent.WorkerLoop
