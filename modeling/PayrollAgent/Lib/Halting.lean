import PayrollAgent.Lib.Sequential

namespace PayrollAgent.Lib.Prog

variable {Op : Type} {Ans : Op → Type} {ε σ D E N α β : Type}

/-- Where an execution comes that halts before a call of some kind. -/
inductive Halt (Op ε α σ : Type)
  | before (op : Op) (s : σ)
  | done (x : Except ε α) (s : σ)

/-- The execution in which `step` answers every call, up to the first call that
`stop` selects. -/
def upTo (step : (op : Op) → σ → Except ε (Ans op) × σ) (stop : Op → Bool) :
    Prog Op Ans ε α → σ → Halt Op ε α σ
  | .pure a, s => .done (.ok a) s
  | .raise e, s => .done (.error e) s
  | .call op k, s => if stop op then .before op s else upTo step stop (k (step op s).1) (step op s).2

/-- The data where the process dies, unless a call that `stop` selects came
before. -/
def crash (M : Machine Op Ans ε D E N) (stop : Op → Bool) : Prog Op Ans ε α → List E → D → Option D
  | .call _ _, [], d => some d
  | .call op k, env :: envs, d =>
      if stop op then none else crash M stop (k (M.exec env op d).1) envs (M.exec env op d).2
  | _, _, _ => none

/-- Whatever the choices are, `I` holds of the data wherever the program can
crash before a call of the kind, and `Q` at an end that comes before one. -/
def Until (M : Machine Op Ans ε D E N) (stop : Op → Bool) (I : D → Prop) (Q : Except ε α → D → Prop) :
    Prog Op Ans ε α → D → Prop
  | .pure a, d => Q (.ok a) d
  | .raise e, d => Q (.error e) d
  | .call op k, d =>
      I d ∧ (stop op = false → ∀ env, Until M stop I Q (k (M.exec env op d).1) (M.exec env op d).2)

section

variable {step : (op : Op) → σ → Except ε (Ans op) × σ} {stop : Op → Bool} {s s' : σ}
    {p : Prog Op Ans ε α}

theorem upTo_perform {op : Op} {x : Except ε (Ans op)} (hop : stop op = false)
    (hstep : step op s = (x, s')) : upTo step stop (perform op) s = .done x s' := by
  rw [perform, upTo, if_neg (Bool.eq_false_iff.mp hop), hstep]
  cases x with
  | ok a => rfl
  | error e => rfl

theorem upTo_perform_stop {op : Op} (hop : stop op = true) :
    upTo step stop (perform op) s = .before op s := by
  rw [perform, upTo, if_pos hop]

/-- An execution that ends before any call that `stop` selects is whole. -/
theorem upTo_done {x : Except ε α} (h : upTo step stop p s = .done x s') :
    upTo step (fun _ => false) p s = .done x s' := by
  induction p generalizing s with
  | pure a => exact h
  | raise e => exact h
  | call op k ih =>
      by_cases hop : stop op = true
      · rw [upTo, if_pos hop] at h
        cases h
      · rw [upTo, if_neg hop] at h
        rw [upTo, if_neg Bool.false_ne_true]
        exact ih _ h

theorem upTo_bind (f : α → Prog Op Ans ε β) : upTo step stop (p >>= f) s =
    match upTo step stop p s with
    | .before op s' => .before op s'
    | .done (.ok a) s' => upTo step stop (f a) s'
    | .done (.error e) s' => .done (.error e) s' := by
  induction p generalizing s with
  | pure a => rfl
  | raise e => rfl
  | call op k ih =>
      change upTo step stop (.call op fun x => (k x).bind f) s = _
      by_cases hop : stop op = true
      · rw [upTo, upTo, if_pos hop, if_pos hop]
      · rw [upTo, upTo, if_neg hop, if_neg hop]
        exact ih _

theorem upTo_catching (h : ε → Prog Op Ans ε α) : upTo step stop (p.catching h) s =
    match upTo step stop p s with
    | .before op s' => .before op s'
    | .done (.ok a) s' => .done (.ok a) s'
    | .done (.error e) s' => upTo step stop (h e) s' := by
  induction p generalizing s with
  | pure a => rfl
  | raise e => rfl
  | call op k ih =>
      change upTo step stop (.call op fun x => (k x).catching h) s = _
      by_cases hop : stop op = true
      · rw [upTo, upTo, if_pos hop, if_pos hop]
      · rw [upTo, upTo, if_neg hop, if_neg hop]
        exact ih _

theorem upTo_bind_ok {f : α → Prog Op Ans ε β} {a : α} (h : upTo step stop p s = .done (.ok a) s') :
    upTo step stop (p >>= f) s = upTo step stop (f a) s' := by
  rw [upTo_bind, h]

theorem upTo_bind_error {f : α → Prog Op Ans ε β} {e : ε} (h : upTo step stop p s = .done (.error e) s') :
    upTo step stop (p >>= f) s = .done (.error e) s' := by
  rw [upTo_bind, h]

theorem upTo_bind_before {f : α → Prog Op Ans ε β} {op : Op} (h : upTo step stop p s = .before op s') :
    upTo step stop (p >>= f) s = .before op s' := by
  rw [upTo_bind, h]

theorem upTo_catching_ok {g : ε → Prog Op Ans ε α} {a : α} (h : upTo step stop p s = .done (.ok a) s') :
    upTo step stop (p.catching g) s = .done (.ok a) s' := by
  rw [upTo_catching, h]

theorem upTo_catching_error {g : ε → Prog Op Ans ε α} {e : ε}
    (h : upTo step stop p s = .done (.error e) s') :
    upTo step stop (p.catching g) s = upTo step stop (g e) s' := by
  rw [upTo_catching, h]

theorem upTo_catching_before {g : ε → Prog Op Ans ε α} {op : Op}
    (h : upTo step stop p s = .before op s') : upTo step stop (p.catching g) s = .before op s' := by
  rw [upTo_catching, h]

end

variable {M : Machine Op Ans ε D E N} {stop : Op → Bool} {I : D → Prop}
    {Q R : Except ε α → D → Prop} {d : D}

theorem Until.mono {I' : D → Prop} (hI : ∀ d, I d → I' d) (h : ∀ x d, Q x d → R x d)
    {p : Prog Op Ans ε α} : Until M stop I Q p d → Until M stop I' R p d := by
  induction p generalizing d with
  | pure a => exact h _ d
  | raise e => exact h _ d
  | call op k ih => exact fun hp => ⟨hI d hp.1, fun hop env => ih _ (hp.2 hop env)⟩

theorem Ensures.until {p : Prog Op Ans ε α} (h : Ensures M I Q p d) : Until M stop I Q p d := by
  induction p generalizing d with
  | pure a => exact h
  | raise e => exact h
  | call op k ih => exact ⟨h.1, fun _ env => ih _ (h.2 env)⟩

theorem Until.stopped {op : Op} {Q : Except ε (Ans op) → D → Prop} (hI : I d) (hop : stop op = true) :
    Until M stop I Q (perform op) d :=
  ⟨hI, fun hgo => by
    rw [hop] at hgo
    cases hgo⟩

theorem Until.bind {p : Prog Op Ans ε α} {f : α → Prog Op Ans ε β} {Q : Except ε β → D → Prop}
    (hp : Until M stop I R p d) (hok : ∀ a d, R (.ok a) d → Until M stop I Q (f a) d)
    (herror : ∀ e d, R (.error e) d → Q (.error e) d) : Until M stop I Q (p >>= f) d := by
  induction p generalizing d with
  | pure a => exact hok a d hp
  | raise e => exact herror e d hp
  | call op k ih => exact ⟨hp.1, fun hop env => ih _ (hp.2 hop env)⟩

theorem Until.catching {p : Prog Op Ans ε α} {h : ε → Prog Op Ans ε α} (hp : Until M stop I R p d)
    (hok : ∀ a d, R (.ok a) d → Q (.ok a) d) (herror : ∀ e d, R (.error e) d → Until M stop I Q (h e) d) :
    Until M stop I Q (p.catching h) d := by
  induction p generalizing d with
  | pure a => exact hok a d hp
  | raise e => exact herror e d hp
  | call op k ih => exact ⟨hp.1, fun hop env => ih _ (hp.2 hop env)⟩

/-- A first half that keeps what implies `I`. -/
theorem Keeps.until_bind {J : D → Prop} {P : α → D → Prop} {p : Prog Op Ans ε α} {f : α → Prog Op Ans ε β}
    {Q : Except ε β → D → Prop} (hp : Keeps M J P p d) (hI : ∀ d, J d → I d)
    (hok : ∀ a d, J d → P a d → Until M stop I Q (f a) d) (herror : ∀ e d, J d → Q (.error e) d) :
    Until M stop I Q (p >>= f) d := by
  have huntil : Until M stop I (fun x d => J d ∧ ∀ a, x = .ok a → P a d) p d :=
    (Ensures.until hp).mono hI fun _ _ h => h
  exact huntil.bind (fun a d h => hok a d h.1 (h.2 a rfl)) fun e d h => herror e d h.1

theorem Until.crash {p : Prog Op Ans ε α} (h : Until M stop I Q p d) {envs : List E} {d' : D}
    (hcrash : p.crash M stop envs d = some d') : I d' := by
  induction p generalizing d envs with
  | pure a => cases hcrash
  | raise e => cases hcrash
  | call op k ih =>
      cases envs with
      | nil =>
          obtain rfl := Option.some.inj hcrash
          exact h.1
      | cons env envs =>
          rw [Prog.crash] at hcrash
          by_cases hop : stop op = true
          · rw [if_pos hop] at hcrash
            cases hcrash
          · rw [if_neg hop] at hcrash
            exact ih _ (h.2 (Bool.eq_false_iff.mpr hop) env) hcrash

end PayrollAgent.Lib.Prog
