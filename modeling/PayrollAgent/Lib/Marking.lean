import PayrollAgent.Lib.Sequential

namespace PayrollAgent.Lib

variable {Op : Type} {Ans : Op → Type} {ε D E N α : Type}

/-- The machine that remembers whether a call that `mark` selects was made. -/
def Machine.marking (M : Machine Op Ans ε D E N) (mark : E → Op → Bool) :
    Machine Op Ans ε (D × Bool) E N where
  exec env op s := ((M.exec env op s.1).1, (M.exec env op s.1).2, s.2 || mark env op)
  observe i env op s := M.observe i env op s.1

namespace Prog

variable {M : Machine Op Ans ε D E N} {mark : E → Op → Bool} {I : D → Prop} {Q : α → D → Prop}
    {P : Op → Prop} {p : Prog Op Ans ε α} {d : D} {b : Bool}

/-- What every call of a kind keeps is kept by a program of such calls. -/
theorem Calls.keeps (hstep : ∀ env op d, P op → I d → I (M.exec env op d).2) (hp : Calls P p) (h : I d) :
    Keeps M I (fun _ _ => True) p d := by
  induction p generalizing d with
  | pure a => exact Keeps.pure h trivial
  | raise e => exact Keeps.raise h
  | call op k ih => exact ⟨h, fun env => ih _ (hp.2 _) (hstep env op d hp.1 h)⟩

theorem Keeps.marking (h : Keeps M I Q p d) (hp : Calls (fun op => ∀ env, mark env op = false) p) :
    Keeps (M.marking mark) (fun s => I s.1 ∧ s.2 = b) (fun a s => Q a s.1 ∧ s.2 = b) p (d, b) := by
  induction p generalizing d with
  | pure a => exact ⟨⟨h.1, rfl⟩, fun c hc => ⟨h.2 c hc, rfl⟩⟩
  | raise e => exact Keeps.raise ⟨h.1, rfl⟩
  | call op k ih =>
      refine ⟨⟨h.1, rfl⟩, fun env => ?_⟩
      have hrest := ih (M.exec env op d).1 (h.2 env) (hp.2 _)
      have hmark : (b || mark env op) = b := by rw [hp.1 env, Bool.or_false]
      change Ensures _ _ _ _ ((M.exec env op d).2, b || mark env op)
      rw [hmark]
      exact hrest

end Prog

end PayrollAgent.Lib
