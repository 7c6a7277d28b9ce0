import Mathlib.Data.List.Basic

namespace PayrollAgent.Lib.Run

variable {σ ε : Type}

def Along (step : σ → ε → σ) (C : σ → ε → Prop) : σ → List ε → Prop
  | _, [] => True
  | s, e :: es => C s e ∧ Along step C (step s e) es

variable {step : σ → ε → σ} {C : σ → ε → Prop} {I P : σ → Prop} {s : σ} {es : List ε}

theorem Along.invariant (hI : ∀ s e, I s → C s e → I (step s e)) (hs : I s) (h : Along step C s es) :
    I (es.foldl step s) := by
  induction es generalizing s with
  | nil => exact hs
  | cons e es ih => exact ih (hI s e hs h.1) h.2

theorem Along.take (h : Along step C s es) (n : Nat) : Along step C s (es.take n) := by
  induction es generalizing s n with
  | nil =>
      rw [List.take_nil]
      trivial
  | cons e es ih =>
      cases n with
      | zero => trivial
      | succ n => exact ⟨h.1, ih h.2 n⟩

/-- A property that an event breaks exactly where it does not meet the condition
holds in every state of exactly the runs along which all events meet it. -/
theorem forall_take_iff (hP : ∀ s, I s → P s) (hI : ∀ s e, I s → C s e → I (step s e))
    (hC : ∀ s e, I s → P (step s e) → C s e) (hs : I s) :
    (∀ n, P ((es.take n).foldl step s)) ↔ Along step C s es := by
  constructor
  · intro h
    induction es generalizing s with
    | nil => trivial
    | cons e es ih =>
        have he : C s e := hC s e hs (h 1)
        exact ⟨he, ih (hI s e hs he) fun n => h (n + 1)⟩
  · intro h n
    exact hP _ ((h.take n).invariant hI hs)

end PayrollAgent.Lib.Run
