import PayrollAgent.Lib.Prog
import PayrollAgent.Lib.Run

namespace PayrollAgent.Lib

/-- Shared data with atomic operations. An execution chooses what the code
leaves open (`E`), and the notes record what a step did. -/
structure Machine (Op : Type) (Ans : Op → Type) (ε D E N : Type) where
  exec : E → (op : Op) → D → Except ε (Ans op) × D
  observe : Nat → E → Op → D → List N

/-- The data, the threads started so far, and the notes with the newest first.
A thread that crashed is one that never steps again. -/
structure World (Op : Type) (Ans : Op → Type) (ε D N : Type) where
  data : D
  threads : List (Prog Op Ans ε Unit)
  log : List N

inductive Event (K E : Type)
  | spawn (kind : K)
  | run (i : Nat) (env : E)

namespace World

variable {Op : Type} {Ans : Op → Type} {ε D E N K : Type}

def step (M : Machine Op Ans ε D E N) (prog : K → Prog Op Ans ε Unit) (w : World Op Ans ε D N) :
    Event K E → World Op Ans ε D N
  | .spawn k => { w with threads := w.threads ++ [prog k] }
  | .run i env =>
      match w.threads[i]? with
      | some (.call op k) =>
          { data := (M.exec env op w.data).2
            threads := w.threads.set i (k (M.exec env op w.data).1)
            log := M.observe i env op w.data ++ w.log }
      | _ => w

def steps (M : Machine Op Ans ε D E N) (prog : K → Prog Op Ans ε Unit) (w : World Op Ans ε D N)
    (es : List (Event K E)) : World Op Ans ε D N :=
  es.foldl (step M prog) w

def operation (w : World Op Ans ε D N) : Event K E → Option (Nat × E × Op)
  | .spawn _ => none
  | .run i env =>
      match w.threads[i]? with
      | some (.call op _) => some (i, env, op)
      | _ => none

/-- What limits a history: which threads may start, and when an operation of a
thread may run. -/
structure Rules (Op : Type) (D E N K : Type) where
  spawns : K → Prop
  permits : Nat → E → Op → D → List N → Prop

def Rules.any : Rules Op D E N K := ⟨fun _ => True, fun _ _ _ _ _ => True⟩

def Permits (rules : Rules Op D E N K) (w : World Op Ans ε D N) (e : Event K E) : Prop :=
  match e with
  | .spawn k => rules.spawns k
  | .run _ _ => ∀ i env op, w.operation e = some (i, env, op) → rules.permits i env op w.data w.log

inductive Reach (M : Machine Op Ans ε D E N) (prog : K → Prog Op Ans ε Unit)
    (rules : Rules Op D E N K) (init : D → Prop) : World Op Ans ε D N → Prop
  | start {d : D} (h : init d) : Reach M prog rules init ⟨d, [], []⟩
  | step {w : World Op Ans ε D N} {e : Event K E} (h : Reach M prog rules init w)
      (hok : Permits rules w e) : Reach M prog rules init (w.step M prog e)

variable {M : Machine Op Ans ε D E N} {prog : K → Prog Op Ans ε Unit} {rules : Rules Op D E N K}
  {init : D → Prop}

theorem Reach.steps_any {w : World Op Ans ε D N} (h : Reach M prog Rules.any init w)
    (es : List (Event K E)) : Reach M prog Rules.any init (w.steps M prog es) := by
  induction es generalizing w with
  | nil => exact h
  | cons e es ih =>
      refine ih (h.step ?_)
      cases e with
      | spawn k => trivial
      | run i env => exact fun _ _ _ _ => trivial

theorem permits_of_none {w : World Op Ans ε D N} {i : Nat} {env : E}
    (h : w.operation (.run i env : Event K E) = none) : Permits rules w (.run i env) := by
  intro j env' op h'
  rw [h] at h'
  cases h'

theorem permits_of_some {w : World Op Ans ε D N} {i j : Nat} {env env' : E} {op : Op}
    (h : w.operation (.run i env : Event K E) = some (j, env', op)) :
    rules.permits j env' op w.data w.log ↔ Permits rules w (.run i env) := by
  constructor
  · intro hp j' env'' op' h'
    rw [h] at h'
    cases h'
    exact hp
  · exact fun hp => hp j env' op h

instance [DecidablePred rules.spawns] [∀ i env op d log, Decidable (rules.permits i env op d log)]
    (w : World Op Ans ε D N) (e : Event K E) : Decidable (Permits rules w e) :=
  match e with
  | .spawn k => inferInstanceAs (Decidable (rules.spawns k))
  | .run i env =>
      match h : w.operation (.run i env : Event K E) with
      | none => isTrue (permits_of_none h)
      | some (j, env', op) =>
          decidable_of_iff (rules.permits j env' op w.data w.log) (permits_of_some h)

def PermitsAll (M : Machine Op Ans ε D E N) (prog : K → Prog Op Ans ε Unit) (rules : Rules Op D E N K) :
    World Op Ans ε D N → List (Event K E) → Prop
  | _, [] => True
  | w, e :: es => Permits rules w e ∧ PermitsAll M prog rules (w.step M prog e) es

def decidePermitsAll [DecidablePred rules.spawns]
    [∀ i env op d log, Decidable (rules.permits i env op d log)] :
    ∀ (w : World Op Ans ε D N) (es : List (Event K E)), Decidable (PermitsAll M prog rules w es)
  | _, [] => inferInstanceAs (Decidable True)
  | w, e :: es =>
      have := decidePermitsAll (w.step M prog e) es
      inferInstanceAs (Decidable (Permits rules w e ∧ PermitsAll M prog rules (w.step M prog e) es))

instance [DecidablePred rules.spawns] [∀ i env op d log, Decidable (rules.permits i env op d log)]
    (w : World Op Ans ε D N) (es : List (Event K E)) : Decidable (PermitsAll M prog rules w es) :=
  decidePermitsAll w es

theorem permitsAll_iff_along {w : World Op Ans ε D N} {es : List (Event K E)} :
    PermitsAll M prog rules w es ↔ Run.Along (World.step M prog) (Permits rules) w es := by
  induction es generalizing w with
  | nil => exact Iff.rfl
  | cons e es ih => exact and_congr_right fun _ => ih

theorem Reach.steps {w : World Op Ans ε D N} (h : Reach M prog rules init w)
    {es : List (Event K E)} (hes : PermitsAll M prog rules w es) :
    Reach M prog rules init (w.steps M prog es) := by
  apply (permitsAll_iff_along.mp hes).invariant _ h
  intro w e hw he
  exact hw.step he

theorem operation_run {w : World Op Ans ε D N} {i : Nat} {env : E} {op : Op}
    {k : Except ε (Ans op) → Prog Op Ans ε Unit} (h : w.threads[i]? = some (.call op k)) :
    w.operation (.run i env : Event K E) = some (i, env, op) := by
  simp [operation, h]

theorem step_run {w : World Op Ans ε D N} {i : Nat} {env : E} {op : Op}
    {k : Except ε (Ans op) → Prog Op Ans ε Unit} (h : w.threads[i]? = some (.call op k)) :
    w.step M prog (.run i env) =
      { data := (M.exec env op w.data).2
        threads := w.threads.set i (k (M.exec env op w.data).1)
        log := M.observe i env op w.data ++ w.log } := by
  simp [World.step, h]

theorem operation_some {w : World Op Ans ε D N} {e : Event K E} {i : Nat} {env : E} {op : Op}
    (h : w.operation e = some (i, env, op)) :
    e = .run i env ∧ ∃ k, w.threads[i]? = some (.call op k) := by
  cases e with
  | spawn k => cases h
  | run j env' =>
      simp only [operation] at h
      split at h
      next hj =>
        cases h
        exact ⟨rfl, _, hj⟩
      · cases h

theorem step_operation {w : World Op Ans ε D N} {e : Event K E} {i : Nat} {env : E} {op : Op}
    (h : w.operation e = some (i, env, op)) :
    (w.step M prog e).data = (M.exec env op w.data).2 ∧
      (w.step M prog e).log = M.observe i env op w.data ++ w.log := by
  obtain ⟨rfl, k, hi⟩ := operation_some h
  simp [step_run hi]

theorem step_idle {w : World Op Ans ε D N} {i : Nat} {env : E}
    (h : ∀ op k, w.threads[i]? ≠ some (.call op k)) : w.step M prog (.run i env) = w := by
  cases hi : w.threads[i]? with
  | none => simp [World.step, hi]
  | some p =>
      cases p with
      | pure a => simp [World.step, hi]
      | raise e => simp [World.step, hi]
      | call op k => exact absurd hi (h op k)

theorem step_of_none {w : World Op Ans ε D N} {e : Event K E} (h : w.operation e = none) :
    (w.step M prog e).data = w.data ∧ (w.step M prog e).log = w.log := by
  cases e with
  | spawn k => exact ⟨rfl, rfl⟩
  | run i env =>
      have hidle : ∀ op k, w.threads[i]? ≠ some (.call op k) := fun op k hi => by
        rw [operation_run hi] at h
        cases h
      rw [step_idle hidle]
      exact ⟨rfl, rfl⟩

theorem Reach.mono {init' : D → Prop} {w : World Op Ans ε D N} (h : Reach M prog rules init w)
    (hinit : ∀ d, init d → init' d) : Reach M prog rules init' w := by
  induction h with
  | start hd => exact .start (hinit _ hd)
  | step _ hok ih => exact .step ih hok

theorem Reach.data {P : D → Prop} {w : World Op Ans ε D N} (h : Reach M prog rules init w)
    (hinit : ∀ d, init d → P d) (hexec : ∀ env op d, P d → P (M.exec env op d).2) : P w.data := by
  induction h with
  | start hd => exact hinit _ hd
  | @step w e _ _ ih =>
      cases hop : w.operation e with
      | none => rwa [(step_of_none hop).1]
      | some x =>
          obtain ⟨i, env, op⟩ := x
          rw [(step_operation hop).1]
          exact hexec env op _ ih

/-- What a history keeps: `G` of the number of threads, the data and the notes,
and `J` between each thread's bookkeeping and them. A thread is known by its
number. -/
structure Kept {σ : Type} (M : Machine Op Ans ε D E N) (prog : K → Prog Op Ans ε Unit)
    (rules : Rules Op D E N K) (init : D → Prop) (m : Prog.Monitor Op Ans ε σ) (s₀ : σ)
    (G : Nat → D → List N → Prop) (J : Nat → σ → D → List N → Prop) : Prop where
  init : ∀ d, init d → G 0 d []
  follows : ∀ k, rules.spawns k → Prog.Follows m (fun _ _ => True) (prog k) s₀
  fresh : ∀ n d log, G n d log → G (n + 1) d log ∧ J n s₀ d log
  shared : ∀ n i env op s d log, i < n → G n d log → J i s d log → m.allows s op →
    rules.permits i env op d log → G n (M.exec env op d).2 (M.observe i env op d ++ log)
  own : ∀ n i env op s d log, i < n → G n d log → J i s d log → m.allows s op →
    rules.permits i env op d log →
      J i (m.next s op (M.exec env op d).1) (M.exec env op d).2 (M.observe i env op d ++ log)
  other : ∀ n i env op s d log, i < n → G n d log → J i s d log → m.allows s op →
    rules.permits i env op d log → ∀ j t, j ≠ i → J j t d log →
      J j t (M.exec env op d).2 (M.observe i env op d ++ log)

/-- The invariant of a history: `G`, and every thread follows the monitor from
a bookkeeping that `J` relates to the data. -/
def HoldsAt {σ : Type} (m : Prog.Monitor Op Ans ε σ) (G : Nat → D → List N → Prop)
    (J : Nat → σ → D → List N → Prop) (w : World Op Ans ε D N) : Prop :=
  G w.threads.length w.data w.log ∧ ∀ i p, w.threads[i]? = some p →
    ∃ s, Prog.Follows m (fun _ _ => True) p s ∧ J i s w.data w.log

theorem Kept.step {σ : Type} {m : Prog.Monitor Op Ans ε σ} {s₀ : σ} {G : Nat → D → List N → Prop}
    {J : Nat → σ → D → List N → Prop} (hp : Kept M prog rules init m s₀ G J)
    {w : World Op Ans ε D N} {e : Event K E} (hw : HoldsAt m G J w) (hok : Permits rules w e) :
    HoldsAt m G J (w.step M prog e) := by
  obtain ⟨hG, hJ⟩ := hw
  cases e with
  | spawn k =>
      obtain ⟨hgrown, hnew⟩ := hp.fresh _ _ _ hG
      refine ⟨by simpa [World.step] using hgrown, fun i p hi => ?_⟩
      simp only [World.step] at hi ⊢
      rw [List.getElem?_append] at hi
      split at hi
      · exact hJ i p hi
      next hlen =>
        rw [List.getElem?_singleton] at hi
        split at hi
        next hzero =>
          obtain rfl := Option.some.inj hi
          have hlast : i = w.threads.length := by omega
          exact ⟨s₀, hp.follows k hok, hlast ▸ hnew⟩
        · cases hi
  | run i env =>
      by_cases hidle : ∀ op k, w.threads[i]? ≠ some (.call op k)
      · rw [step_idle hidle]
        exact ⟨hG, hJ⟩
      · obtain ⟨op, k, hi⟩ : ∃ op k, w.threads[i]? = some (.call op k) := by
          simpa [Classical.not_forall] using hidle
        obtain ⟨s, hfollows, hs⟩ := hJ i _ hi
        have hrule : rules.permits i env op w.data w.log := hok i env op (operation_run hi)
        have hlt : i < w.threads.length := (List.getElem?_eq_some_iff.mp hi).1
        rw [step_run hi]
        refine ⟨?_, fun j p hj => ?_⟩
        · rw [List.length_set]
          exact hp.shared _ i env op s _ _ hlt hG hs hfollows.1 hrule
        · by_cases hij : j = i
          · subst hij
            rw [List.getElem?_set_self hlt] at hj
            obtain rfl := Option.some.inj hj
            exact ⟨_, hfollows.2 _, hp.own _ _ env op s _ _ hlt hG hs hfollows.1 hrule⟩
          · rw [List.getElem?_set_ne (Ne.symm hij)] at hj
            obtain ⟨t, ht, hJt⟩ := hJ j p hj
            exact ⟨t, ht, hp.other _ i env op s _ _ hlt hG hs hfollows.1 hrule j t hij hJt⟩

theorem Kept.reach {σ : Type} {m : Prog.Monitor Op Ans ε σ} {s₀ : σ} {G : Nat → D → List N → Prop}
    {J : Nat → σ → D → List N → Prop} (hp : Kept M prog rules init m s₀ G J)
    {w : World Op Ans ε D N} (h : Reach M prog rules init w) : HoldsAt m G J w := by
  induction h with
  | start hd => exact ⟨hp.init _ hd, fun i p hi => by simp at hi⟩
  | step _ hok ih => exact hp.step ih hok

structure Preserved {σ : Type} (M : Machine Op Ans ε D E N) (prog : K → Prog Op Ans ε Unit)
    (rules : Rules Op D E N K) (init : D → Prop) (m : Prog.Monitor Op Ans ε σ) (s₀ : σ)
    (G : D → List N → Prop) (J : Nat → σ → D → List N → Prop) : Prop where
  init : ∀ d, init d → G d []
  follows : ∀ k, rules.spawns k → Prog.Follows m (fun _ _ => True) (prog k) s₀
  fresh : ∀ i d log, G d log → J i s₀ d log
  shared : ∀ i env op s d log, G d log → J i s d log → m.allows s op →
    rules.permits i env op d log → G (M.exec env op d).2 (M.observe i env op d ++ log)
  own : ∀ i env op s d log, G d log → J i s d log → m.allows s op →
    rules.permits i env op d log →
      J i (m.next s op (M.exec env op d).1) (M.exec env op d).2 (M.observe i env op d ++ log)
  other : ∀ i env op s d log, G d log → J i s d log → m.allows s op →
    rules.permits i env op d log → ∀ j t, j ≠ i → J j t d log →
      J j t (M.exec env op d).2 (M.observe i env op d ++ log)

theorem Preserved.kept {σ : Type} {m : Prog.Monitor Op Ans ε σ} {s₀ : σ} {G : D → List N → Prop}
    {J : Nat → σ → D → List N → Prop} (hp : Preserved M prog rules init m s₀ G J) :
    Kept M prog rules init m s₀ (fun _ => G) J where
  init := hp.init
  follows := hp.follows
  fresh n d log hG := ⟨hG, hp.fresh n d log hG⟩
  shared _ i env op s d log _ := hp.shared i env op s d log
  own _ i env op s d log _ := hp.own i env op s d log
  other _ i env op s d log _ := hp.other i env op s d log

def Holds {σ : Type} (m : Prog.Monitor Op Ans ε σ) (G : D → List N → Prop)
    (J : Nat → σ → D → List N → Prop) (w : World Op Ans ε D N) : Prop :=
  G w.data w.log ∧ ∀ i p, w.threads[i]? = some p →
    ∃ s, Prog.Follows m (fun _ _ => True) p s ∧ J i s w.data w.log

/-- The thread of an operation has the permission of the monitor, and its
bookkeeping is related to the data. -/
theorem Holds.operation {σ : Type} {m : Prog.Monitor Op Ans ε σ} {G : D → List N → Prop}
    {J : Nat → σ → D → List N → Prop} {w : World Op Ans ε D N} (hw : Holds m G J w)
    {e : Event K E} {i : Nat} {env : E} {op : Op} (h : w.operation e = some (i, env, op)) :
    ∃ s, m.allows s op ∧ J i s w.data w.log := by
  obtain ⟨-, k, hi⟩ := operation_some h
  obtain ⟨s, hfollows, hs⟩ := hw.2 i _ hi
  exact ⟨s, hfollows.1, hs⟩

theorem Preserved.step {σ : Type} {m : Prog.Monitor Op Ans ε σ} {s₀ : σ} {G : D → List N → Prop}
    {J : Nat → σ → D → List N → Prop} (hp : Preserved M prog rules init m s₀ G J)
    {w : World Op Ans ε D N} {e : Event K E} (hw : Holds m G J w) (hok : Permits rules w e) :
    Holds m G J (w.step M prog e) := hp.kept.step hw hok

theorem Preserved.reach {σ : Type} {m : Prog.Monitor Op Ans ε σ} {s₀ : σ} {G : D → List N → Prop}
    {J : Nat → σ → D → List N → Prop} (hp : Preserved M prog rules init m s₀ G J)
    {w : World Op Ans ε D N} (h : Reach M prog rules init w) : Holds m G J w := hp.kept.reach h

end World

end PayrollAgent.Lib
