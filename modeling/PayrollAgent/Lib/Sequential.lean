import PayrollAgent.Lib.Pool

namespace PayrollAgent.Lib.Prog

variable {Op : Type} {Ans : Op → Type} {ε D E N α β : Type}

/-- The execution of a program with nothing beside it. The operations take the
choices of the list in turn, and a program whose choices run out crashed. -/
def run (M : Machine Op Ans ε D E N) : Prog Op Ans ε α → List E → D → Option (Except ε α) × D
  | .pure a, _, d => (some (.ok a), d)
  | .raise e, _, d => (some (.error e), d)
  | .call _ _, [], d => (none, d)
  | .call op k, env :: envs, d => run M (k (M.exec env op d).1) envs (M.exec env op d).2

/-- Whatever the choices are, `I` holds of the data wherever the program can
crash, and `Q` of its outcome and the data at the end. -/
def Ensures (M : Machine Op Ans ε D E N) (I : D → Prop) (Q : Except ε α → D → Prop) :
    Prog Op Ans ε α → D → Prop
  | .pure a, d => Q (.ok a) d
  | .raise e, d => Q (.error e) d
  | .call op k, d => I d ∧ ∀ env, Ensures M I Q (k (M.exec env op d).1) (M.exec env op d).2

variable {M : Machine Op Ans ε D E N} {I : D → Prop} {Q R : Except ε α → D → Prop} {d : D}

@[simp] theorem ensures_pure (a : α) :
    Ensures M I Q (Pure.pure a : Prog Op Ans ε α) d ↔ Q (.ok a) d := Iff.rfl

@[simp] theorem ensures_raise (e : ε) :
    Ensures M I Q (.raise e : Prog Op Ans ε α) d ↔ Q (.error e) d := Iff.rfl

theorem Ensures.mono (h : ∀ x d, Q x d → R x d) {p : Prog Op Ans ε α} :
    Ensures M I Q p d → Ensures M I R p d := by
  induction p generalizing d with
  | pure a => exact h _ d
  | raise e => exact h _ d
  | call op k ih => exact fun hp => ⟨hp.1, fun env => ih _ (hp.2 env)⟩

theorem ensures_perform {op : Op} {Q : Except ε (Ans op) → D → Prop} :
    Ensures M I Q (perform op) d ↔ I d ∧ ∀ env, Q (M.exec env op d).1 (M.exec env op d).2 := by
  refine and_congr_right fun _ => forall_congr' fun env => ?_
  cases (M.exec env op d).1 with
  | ok a => exact Iff.rfl
  | error e => exact Iff.rfl

theorem ensures_bind {p : Prog Op Ans ε α} {f : α → Prog Op Ans ε β} {Q : Except ε β → D → Prop} :
    Ensures M I Q (p >>= f) d ↔
      Ensures M I (fun x d => match x with
        | .ok a => Ensures M I Q (f a) d
        | .error e => Q (.error e) d) p d := by
  induction p generalizing d with
  | pure a => exact Iff.rfl
  | raise e => exact Iff.rfl
  | call op k ih => exact and_congr_right fun _ => forall_congr' fun env => ih _

theorem Ensures.bind {p : Prog Op Ans ε α} {f : α → Prog Op Ans ε β} {Q : Except ε β → D → Prop}
    (hp : Ensures M I R p d) (hok : ∀ a d, R (.ok a) d → Ensures M I Q (f a) d)
    (herror : ∀ e d, R (.error e) d → Q (.error e) d) : Ensures M I Q (p >>= f) d := by
  refine ensures_bind.mpr (hp.mono fun x d' hx => ?_)
  cases x with
  | ok a => exact hok a d' hx
  | error e => exact herror e d' hx

theorem Ensures.catching {p : Prog Op Ans ε α} {h : ε → Prog Op Ans ε α}
    (hp : Ensures M I R p d) (hok : ∀ a d, R (.ok a) d → Q (.ok a) d)
    (herror : ∀ e d, R (.error e) d → Ensures M I Q (h e) d) : Ensures M I Q (p.catching h) d := by
  induction p generalizing d with
  | pure a => exact hok a d hp
  | raise e => exact herror e d hp
  | call op k ih => exact ⟨hp.1, fun env => ih _ (hp.2 env)⟩

theorem Ensures.run {p : Prog Op Ans ε α} (h : Ensures M I Q p d) (envs : List E) :
    match (p.run M envs d).1 with
    | some x => Q x (p.run M envs d).2
    | none => I (p.run M envs d).2 := by
  induction p generalizing d envs with
  | pure a => exact h
  | raise e => exact h
  | call op k ih =>
      cases envs with
      | nil => exact h.1
      | cons env envs => exact ih _ (h.2 env) envs

/-- `I` holds of the data at every point, and `P` of the answer and the data
where the program succeeds. -/
def Keeps (M : Machine Op Ans ε D E N) (I : D → Prop) (P : α → D → Prop) (p : Prog Op Ans ε α)
    (d : D) : Prop :=
  Ensures M I (fun x d => I d ∧ ∀ a, x = .ok a → P a d) p d

variable {P : α → D → Prop}

theorem Keeps.pure {a : α} (hI : I d) (hP : P a d) : Keeps M I P (Pure.pure a) d :=
  ⟨hI, fun b hb => by
    obtain rfl := Except.ok.inj hb
    exact hP⟩

theorem Keeps.raise {e : ε} (hI : I d) : Keeps M I P (.raise e) d := ⟨hI, fun a ha => by cases ha⟩

theorem Keeps.perform {op : Op} {P : Ans op → D → Prop} (hI : I d)
    (hcall : ∀ env, I (M.exec env op d).2 ∧ ∀ a, (M.exec env op d).1 = .ok a → P a (M.exec env op d).2) :
    Keeps M I P (perform op) d :=
  ensures_perform.mpr ⟨hI, hcall⟩

theorem Keeps.bind {p : Prog Op Ans ε α} {f : α → Prog Op Ans ε β} {P' : β → D → Prop}
    (hp : Keeps M I P p d) (hf : ∀ a d, I d → P a d → Keeps M I P' (f a) d) :
    Keeps M I P' (p >>= f) d := by
  refine Ensures.bind hp (fun a d h => hf a d h.1 (h.2 a rfl)) fun e d h => ⟨h.1, fun a ha => ?_⟩
  cases ha

theorem Keeps.ite {c : Prop} [Decidable c] {p q : Prog Op Ans ε α} (hp : c → Keeps M I P p d)
    (hq : ¬c → Keeps M I P q d) : Keeps M I P (if c then p else q) d := by
  by_cases hc : c
  · rw [if_pos hc]
    exact hp hc
  · rw [if_neg hc]
    exact hq hc

theorem Keeps.catching {p : Prog Op Ans ε α} {h : ε → Prog Op Ans ε α} (hp : Keeps M I P p d)
    (hh : ∀ e d, I d → Keeps M I P (h e) d) : Keeps M I P (p.catching h) d :=
  Ensures.catching hp (fun _ _ hok => hok) fun e d herror => hh e d herror.1

theorem Keeps.mono {P' : α → D → Prop} (h : ∀ a d, I d → P a d → P' a d) {p : Prog Op Ans ε α}
    (hp : Keeps M I P p d) : Keeps M I P' p d :=
  Ensures.mono (fun _ d hx => ⟨hx.1, fun a ha => h a d hx.1 (hx.2 a ha)⟩) hp

theorem Keeps.strengthen {I' : D → Prop} (hI : ∀ d, I' d → I d) {p : Prog Op Ans ε α}
    (h : Keeps M I' P p d) : Keeps M I P p d := by
  induction p generalizing d with
  | pure a => exact ⟨hI d h.1, h.2⟩
  | raise e => exact ⟨hI d h.1, h.2⟩
  | call op k ih => exact ⟨hI d h.1, fun env => ih _ (h.2 env)⟩

theorem Keeps.invariant {p : Prog Op Ans ε α} (h : Keeps M I P p d) (envs : List E) :
    I (p.run M envs d).2 := by
  have hrun := Ensures.run h envs
  revert hrun
  cases (p.run M envs d).1 with
  | some x => exact And.left
  | none => exact id

end PayrollAgent.Lib.Prog
