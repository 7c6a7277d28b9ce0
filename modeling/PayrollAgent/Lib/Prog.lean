namespace PayrollAgent.Lib

/-- A program that calls the operations of a signature and continues with the
answer or with the exception the call raised. -/
inductive Prog (Op : Type) (Ans : Op → Type) (ε α : Type)
  | pure (a : α)
  | raise (e : ε)
  | call (op : Op) (k : Except ε (Ans op) → Prog Op Ans ε α)

namespace Prog

variable {Op : Type} {Ans : Op → Type} {ε α β γ σ : Type}

def bind : Prog Op Ans ε α → (α → Prog Op Ans ε β) → Prog Op Ans ε β
  | .pure a, f => f a
  | .raise e, _ => .raise e
  | .call op k, f => .call op fun x => (k x).bind f

def catching : Prog Op Ans ε α → (ε → Prog Op Ans ε α) → Prog Op Ans ε α
  | .pure a, _ => .pure a
  | .raise e, h => h e
  | .call op k, h => .call op fun x => (k x).catching h

instance : Monad (Prog Op Ans ε) where
  pure := Prog.pure
  bind := Prog.bind

theorem bind_assoc (p : Prog Op Ans ε α) (f : α → Prog Op Ans ε β) (g : β → Prog Op Ans ε γ) :
    (p >>= f) >>= g = p >>= fun a => f a >>= g := by
  induction p with
  | pure a => rfl
  | raise e => rfl
  | call op k ih => exact congrArg (Prog.call op) (funext ih)

def perform (op : Op) : Prog Op Ans ε (Ans op) :=
  .call op fun
    | .ok a => .pure a
    | .error e => .raise e

/-- A bookkeeping of what a program has been told, with the calls it permits. -/
structure Monitor (Op : Type) (Ans : Op → Type) (ε σ : Type) where
  allows : σ → Op → Prop
  next : σ → (op : Op) → Except ε (Ans op) → σ

/-- Every call is permitted at its point, whatever the answers, and `Q` holds
of the bookkeeping and the outcome at the end. -/
def Follows (m : Monitor Op Ans ε σ) (Q : σ → Except ε α → Prop) : Prog Op Ans ε α → σ → Prop
  | .pure a, s => Q s (.ok a)
  | .raise e, s => Q s (.error e)
  | .call op k, s => m.allows s op ∧ ∀ x, Follows m Q (k x) (m.next s op x)

variable {m : Monitor Op Ans ε σ} {Q R : σ → Except ε α → Prop} {s : σ}

@[simp] theorem follows_pure (a : α) :
    Follows m Q (Pure.pure a : Prog Op Ans ε α) s ↔ Q s (.ok a) := Iff.rfl

@[simp] theorem follows_raise (e : ε) :
    Follows m Q (.raise e : Prog Op Ans ε α) s ↔ Q s (.error e) := Iff.rfl

@[simp] theorem follows_perform {op : Op} {Q : σ → Except ε (Ans op) → Prop} :
    Follows m Q (perform op) s ↔ m.allows s op ∧ ∀ x, Q (m.next s op x) x := by
  constructor
  · rintro ⟨hop, hk⟩
    refine ⟨hop, fun x => ?_⟩
    cases x with
    | ok a => exact hk (.ok a)
    | error e => exact hk (.error e)
  · rintro ⟨hop, hk⟩
    refine ⟨hop, fun x => ?_⟩
    cases x with
    | ok a => exact hk (.ok a)
    | error e => exact hk (.error e)

theorem Follows.mono (h : ∀ s r, Q s r → R s r) {p : Prog Op Ans ε α} :
    Follows m Q p s → Follows m R p s := by
  induction p generalizing s with
  | pure a => exact h s _
  | raise e => exact h s _
  | call op k ih => exact fun hp => ⟨hp.1, fun x => ih x (hp.2 x)⟩

@[simp] theorem follows_bind {p : Prog Op Ans ε α} {f : α → Prog Op Ans ε β}
    {Q : σ → Except ε β → Prop} :
    Follows m Q (p >>= f) s ↔
      Follows m (fun s r => match r with
        | .ok a => Follows m Q (f a) s
        | .error e => Q s (.error e)) p s := by
  induction p generalizing s with
  | pure a => exact Iff.rfl
  | raise e => exact Iff.rfl
  | call op k ih => exact and_congr_right fun _ => forall_congr' fun x => ih x

theorem follows_perform_bind {op : Op} {f : Ans op → Prog Op Ans ε β} {Q : σ → Except ε β → Prop} :
    Follows m Q (perform op >>= f) s ↔
      m.allows s op ∧ (∀ a, Follows m Q (f a) (m.next s op (.ok a))) ∧
        ∀ e, Q (m.next s op (.error e)) (.error e) := by
  rw [follows_bind, follows_perform]
  refine and_congr_right fun _ => ⟨fun h => ⟨fun a => h (.ok a), fun e => h (.error e)⟩, ?_⟩
  rintro ⟨hok, herror⟩ x
  cases x with
  | ok a => exact hok a
  | error e => exact herror e

theorem Follows.bind {p : Prog Op Ans ε α} {f : α → Prog Op Ans ε β} {P : σ → Except ε α → Prop}
    {Q : σ → Except ε β → Prop} (hp : Follows m P p s)
    (hok : ∀ t a, P t (.ok a) → Follows m Q (f a) t)
    (herror : ∀ t e, P t (.error e) → Q t (.error e)) : Follows m Q (p >>= f) s := by
  rw [follows_bind]
  refine hp.mono fun t r h => ?_
  cases r with
  | ok a => exact hok t a h
  | error e => exact herror t e h

@[simp] theorem follows_catching {p : Prog Op Ans ε α} {h : ε → Prog Op Ans ε α} :
    Follows m Q (p.catching h) s ↔
      Follows m (fun s r => match r with
        | .ok a => Q s (.ok a)
        | .error e => Follows m Q (h e) s) p s := by
  induction p generalizing s with
  | pure a => exact Iff.rfl
  | raise e => exact Iff.rfl
  | call op k ih => exact and_congr_right fun _ => forall_congr' fun x => ih x

theorem Follows.catching {p : Prog Op Ans ε α} {h : ε → Prog Op Ans ε α} {P : σ → Except ε α → Prop}
    (hp : Follows m P p s) (hok : ∀ t a, P t (.ok a) → Q t (.ok a))
    (herror : ∀ t e, P t (.error e) → Follows m Q (h e) t) : Follows m Q (p.catching h) s := by
  rw [follows_catching]
  refine hp.mono fun t r ht => ?_
  cases r with
  | ok a => exact hok t a ht
  | error e => exact herror t e ht

theorem Follows.ite {c : Prop} [Decidable c] {p q : Prog Op Ans ε α} (hp : c → Follows m Q p s)
    (hq : ¬c → Follows m Q q s) : Follows m Q (if c then p else q) s := by
  by_cases hc : c
  · rw [if_pos hc]
    exact hp hc
  · rw [if_neg hc]
    exact hq hc

theorem Follows.simulate {τ : Type} {m' : Monitor Op Ans ε τ} {S : σ → τ → Prop}
    {Q' : τ → Except ε α → Prop} {t : τ} (hallows : ∀ s t op, S s t → m.allows s op → m'.allows t op)
    (hnext : ∀ s t op x, S s t → m.allows s op → S (m.next s op x) (m'.next t op x))
    (hend : ∀ s t x, S s t → Q s x → Q' t x) {p : Prog Op Ans ε α} (hp : Follows m Q p s) (hS : S s t) :
    Follows m' Q' p t := by
  induction p generalizing s t with
  | pure a => exact hend s t _ hS hp
  | raise e => exact hend s t _ hS hp
  | call op k ih => exact ⟨hallows s t op hS hp.1, fun x => ih x (hp.2 x) (hnext s t op x hS hp.1)⟩

/-- Every call the program can make satisfies `P`. -/
def Calls (P : Op → Prop) : Prog Op Ans ε α → Prop
  | .pure _ => True
  | .raise _ => True
  | .call op k => P op ∧ ∀ x, Calls P (k x)

variable {P : Op → Prop}

theorem Calls.perform {op : Op} (hop : P op) : Calls P (perform op : Prog Op Ans ε (Ans op)) := by
  refine ⟨hop, fun x => ?_⟩
  cases x with
  | ok a => trivial
  | error e => trivial

theorem Calls.bind {p : Prog Op Ans ε α} {f : α → Prog Op Ans ε β} (hp : Calls P p)
    (hf : ∀ a, Calls P (f a)) : Calls P (p >>= f) := by
  induction p with
  | pure a => exact hf a
  | raise e => trivial
  | call op k ih => exact ⟨hp.1, fun x => ih x (hp.2 x)⟩

theorem Calls.catching {p : Prog Op Ans ε α} {h : ε → Prog Op Ans ε α} (hp : Calls P p)
    (hh : ∀ e, Calls P (h e)) : Calls P (p.catching h) := by
  induction p with
  | pure a => trivial
  | raise e => exact hh e
  | call op k ih => exact ⟨hp.1, fun x => ih x (hp.2 x)⟩

theorem Calls.ite {c : Prop} [Decidable c] {p q : Prog Op Ans ε α} (hp : Calls P p) (hq : Calls P q) :
    Calls P (if c then p else q) := by
  by_cases hc : c
  · rwa [if_pos hc]
  · rwa [if_neg hc]

theorem Calls.mono {P' : Op → Prop} (h : ∀ op, P op → P' op) {p : Prog Op Ans ε α} :
    Calls P p → Calls P' p := by
  induction p with
  | pure a => exact id
  | raise e => exact id
  | call op k ih => exact fun hp => ⟨h op hp.1, fun x => ih x (hp.2 x)⟩

/-- From a set of bookkeepings that permits such calls and that they do not
leave, the program follows the monitor. -/
theorem Calls.follows {R : σ → Prop} (hallows : ∀ s op, R s → P op → m.allows s op)
    (hnext : ∀ s op x, R s → P op → R (m.next s op x)) {p : Prog Op Ans ε α} (hp : Calls P p) (hs : R s) :
    Follows m (fun s _ => R s) p s := by
  induction p generalizing s with
  | pure a => exact hs
  | raise e => exact hs
  | call op k ih => exact ⟨hallows s op hs hp.1, fun x => ih x (hp.2 x) (hnext s op x hs hp.1)⟩

end Prog

end PayrollAgent.Lib
