import PayrollAgent.Lib.Prog

namespace PayrollAgent.Lib.Prog

variable {Op Op' : Type} {Ans : Op → Type} {Ans' : Op' → Type} {ε α β γ σ : Type}

def resume : Prog Op Ans ε α → (Except ε α → Prog Op Ans ε β) → Prog Op Ans ε β
  | .pure a, f => f (.ok a)
  | .raise e, f => f (.error e)
  | .call op k, f => .call op fun x => (k x).resume f

/-- The program with each of its calls carried out by a program over another
signature. -/
def interpret (f : (op : Op) → Prog Op' Ans' ε (Ans op)) : Prog Op Ans ε α → Prog Op' Ans' ε α
  | .pure a => .pure a
  | .raise e => .raise e
  | .call op k => (f op).resume fun x => (k x).interpret f

variable {f : (op : Op) → Prog Op' Ans' ε (Ans op)}

theorem resume_bind (p : Prog Op Ans ε α) (g : Except ε α → Prog Op Ans ε β) (h : β → Prog Op Ans ε γ) :
    p.resume g >>= h = p.resume fun x => g x >>= h := by
  induction p with
  | pure a => rfl
  | raise e => rfl
  | call op k ih => exact congrArg (Prog.call op) (funext ih)

theorem resume_resume (p : Prog Op Ans ε α) (g : Except ε α → Prog Op Ans ε β)
    (h : Except ε β → Prog Op Ans ε γ) : (p.resume g).resume h = p.resume fun x => (g x).resume h := by
  induction p with
  | pure a => rfl
  | raise e => rfl
  | call op k ih => exact congrArg (Prog.call op) (funext ih)

theorem interpret_bind (p : Prog Op Ans ε α) (g : α → Prog Op Ans ε β) :
    (p >>= g).interpret f = p.interpret f >>= fun a => (g a).interpret f := by
  induction p with
  | pure a => rfl
  | raise e => rfl
  | call op k ih =>
      refine Eq.trans ?_ (resume_bind _ _ _).symm
      exact congrArg (resume (f op)) (funext ih)

theorem interpret_resume (p : Prog Op Ans ε α) (g : Except ε α → Prog Op Ans ε β) :
    (p.resume g).interpret f = (p.interpret f).resume fun x => (g x).interpret f := by
  induction p with
  | pure a => rfl
  | raise e => rfl
  | call op k ih =>
      refine Eq.trans ?_ (resume_resume _ _ _).symm
      exact congrArg (resume (f op)) (funext ih)

theorem perform_resume (op : Op) (g : Except ε (Ans op) → Prog Op Ans ε β) :
    (perform op).resume g = .call op g := by
  refine congrArg (Prog.call op) (funext fun x => ?_)
  cases x with
  | ok a => rfl
  | error e => rfl

theorem interpret_interpret {g : (op : Op') → Prog Op Ans ε (Ans' op)} (p : Prog Op Ans ε α)
    (h : ∀ op, (f op).interpret g = perform op) : (p.interpret f).interpret g = p := by
  induction p with
  | pure a => rfl
  | raise e => rfl
  | call op k ih =>
      refine (interpret_resume (f op) _).trans ?_
      rw [h op, perform_resume]
      exact congrArg (Prog.call op) (funext ih)

theorem Follows.interpret {m : Monitor Op' Ans' ε σ} {s : σ} (p : Prog Op Ans ε α)
    (h : ∀ op, Follows m (fun t _ => t = s) (f op) s) :
    Follows m (fun t _ => t = s) (p.interpret f) s := by
  have hresume : ∀ {δ : Type} (q : Prog Op' Ans' ε δ) (k : Except ε δ → Prog Op' Ans' ε α) {t : σ},
      Follows m (fun u _ => u = s) q t → (∀ x, Follows m (fun u _ => u = s) (k x) s) →
        Follows m (fun u _ => u = s) (q.resume k) t := by
    intro δ q k t hq hk
    induction q generalizing t with
    | pure a =>
        cases hq
        exact hk _
    | raise e =>
        cases hq
        exact hk _
    | call op l ih => exact ⟨hq.1, fun x => ih x (hq.2 x)⟩
  induction p with
  | pure a => rfl
  | raise e => rfl
  | call op k ih => exact hresume (f op) _ (h op) fun x => ih x

end PayrollAgent.Lib.Prog
