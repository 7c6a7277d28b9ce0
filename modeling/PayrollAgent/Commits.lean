import PayrollAgent.EmailSteps
import PayrollAgent.RunSteps
import PayrollAgent.ThreadsObey

namespace PayrollAgent.Commits

open Lib Repo AliasLearning RunStages Delivery RunRoutes ClarificationWrites Ingest Handlers Effects
  RunSteps EmailSteps

/-- A committed transaction of thread `thread`, with the databases around it. -/
structure Commit where
  thread : Nat
  op : Op
  answer : Ans op
  before : Db
  after : Db

section

variable [PyText]

def commits (i : Nat) (env : Env) (op : Op) (db : Db) : List Commit :=
  match env.fault, txn env op db with
  | .before _, _ => []
  | _, .error _ => []
  | _, .ok (a, db') => [⟨i, op, a, db, db'⟩]

def recorder : Machine Op Ans Exn Db Env Commit := ⟨exec, commits⟩

theorem commit_cases (i : Nat) (env : Env) (op : Op) (db : Db) :
    (∃ e, exec env op db = (.error e, db) ∧ commits i env op db = []) ∨
      ∃ a db', txn env op db = .ok (a, db') ∧ (exec env op db).2 = db' ∧
        commits i env op db = [⟨i, op, a, db, db'⟩] ∧
        ((exec env op db).1 = .ok a ∨ ∃ e, (exec env op db).1 = .error e) := by
  unfold exec commits
  cases env.fault with
  | before e => exact .inl ⟨e, rfl, rfl⟩
  | none =>
      cases txn env op db with
      | error e => exact .inl ⟨e, rfl, rfl⟩
      | ok x => exact .inr ⟨x.1, x.2, rfl, rfl, rfl, .inl rfl⟩
  | after e =>
      cases txn env op db with
      | error e' => exact .inl ⟨e', rfl, rfl⟩
      | ok x => exact .inr ⟨x.1, x.2, rfl, rfl, rfl, .inr ⟨e, rfl⟩⟩

/-- What every commit of the call keeps holds after it, with the commit on record. -/
theorem exec_recorded {i : Nat} {env : Env} {op : Op} {db : Db} {log : List Commit}
    {P : Db → List Commit → Prop}
    (h : P db log)
    (hcommit : ∀ a db', txn env op db = .ok (a, db') → P db' (⟨i, op, a, db, db'⟩ :: log)) :
    P (exec env op db).2 (commits i env op db ++ log) := by
  rcases commit_cases i env op db with ⟨e, hexec, hcommits⟩ | ⟨a, db', htxn, hdb, hcommits, -⟩
  · rw [hexec, hcommits]
    exact h
  · rw [hdb, hcommits]
    exact hcommit a db' htxn

/-- The commits of a history that starts in `db`. -/
def recordedAfter (db : Db) (es : List (Event Thread Env)) : World Op Ans Exn Db Commit :=
  World.steps recorder thread ⟨db, [], []⟩ es

theorem reach_recordedAfter {init : Db → Prop} {db : Db} (h : init db) (es : List (Event Thread Env)) :
    World.Reach recorder thread World.Rules.any init (recordedAfter db es) :=
  (World.Reach.start h).steps_any es

theorem reach_recordedAfter_of_permits {rules : World.Rules Op Db Env Commit Thread} {init : Db → Prop}
    {db : Db} (h : init db) {es : List (Event Thread Env)}
    (hes : World.PermitsAll recorder thread rules ⟨db, [], []⟩ es) :
    World.Reach recorder thread rules init (recordedAfter db es) :=
  (World.Reach.start h).steps hes

theorem reach_history {rules : World.Rules Op Db Env Commit Thread} {init : Db → Prop}
    {w : World Op Ans Exn Db Commit} {G : Db → List Commit → Prop}
    (h : World.Reach recorder thread rules init w) (hinit : ∀ db, init db → G db [])
    (hcommit : ∀ i env op a db db' log, G db log → rules.permits i env op db log →
      txn env op db = .ok (a, db') → G db' (⟨i, op, a, db, db'⟩ :: log)) : G w.data w.log := by
  induction h with
  | start hdb => exact hinit _ hdb
  | @step w e _ hok ih =>
      cases hop : w.operation e with
      | none => rwa [(World.step_of_none hop).1, (World.step_of_none hop).2]
      | some x =>
          obtain ⟨i, env, op⟩ := x
          obtain ⟨hdata, hlog⟩ := @World.step_operation _ _ _ _ _ _ _ recorder thread _ _ _ _ _ hop
          have hrule : rules.permits i env op w.data w.log := by
            obtain ⟨rfl, -⟩ := World.operation_some hop
            exact hok i env op hop
          rw [hdata, hlog]
          show G (exec env op w.data).2 (commits i env op w.data ++ w.log)
          rcases commit_cases i env op w.data with ⟨e, hexec, hcommits⟩ | ⟨a, db', htxn, hdb, hcommits, -⟩
          · rwa [hexec, hcommits]
          · rw [hdb, hcommits]
            exact hcommit i env op a _ db' _ ih hrule htxn

theorem reach_before {rules : World.Rules Op Db Env Commit Thread} {init : Db → Prop}
    {w : World Op Ans Exn Db Commit} (h : World.Reach recorder thread rules init w)
    {newer older : List Commit} {c : Commit} (hlog : w.log = newer ++ c :: older) :
    ∃ w', World.Reach recorder thread rules init w' ∧ w'.data = c.before ∧ w'.log = older ∧
      ∃ env, rules.permits c.thread env c.op c.before older ∧
      txn env c.op c.before = .ok (c.answer, c.after) := by
  induction h generalizing newer with
  | start hdb => simp at hlog
  | @step w e hw hok ih =>
      cases hop : w.operation e with
      | none =>
          rw [(World.step_of_none hop).2] at hlog
          exact ih hlog
      | some x =>
          obtain ⟨i, env, op⟩ := x
          have hrule : rules.permits i env op w.data w.log := by
            obtain ⟨rfl, -⟩ := World.operation_some hop
            exact hok i env op hop
          rw [(World.step_operation hop).2] at hlog
          change commits i env op w.data ++ w.log = newer ++ c :: older at hlog
          rcases commit_cases i env op w.data with ⟨e, hexec, hcommits⟩ | ⟨a, db', htxn, hdb, hcommits, -⟩
          · rw [hcommits] at hlog
            exact ih hlog
          · rw [hcommits] at hlog
            cases newer with
            | nil =>
                obtain ⟨rfl, rfl⟩ := List.cons.inj hlog
                exact ⟨w, hw, rfl, rfl, env, hrule, htxn⟩
            | cons n newer => exact ih (List.cons.inj hlog).2

end

inductive Linked (db₀ : Db) : Db → List Commit → Prop
  | start : Linked db₀ db₀ []
  | commit {c : Commit} {log : List Commit} (h : Linked db₀ c.before log) : Linked db₀ c.after (c :: log)

/-- The last commit that changed what `f` reads. -/
structure LastChange {β : Type} (f : Db → β) (db : Db) (log newer : List Commit) (c : Commit)
    (older : List Commit) : Prop where
  split : log = newer ++ c :: older
  left : f c.after = f db
  changed : f c.before ≠ f c.after
  later : ∀ c' ∈ newer, f c'.after = f c'.before

section

variable {β : Type} {f : Db → β} {db₀ db : Db} {log newer older : List Commit} {c : Commit}

theorem Linked.last_change (h : Linked db₀ db log) (hne : f db ≠ f db₀) :
    ∃ newer c older, LastChange f db log newer c older := by
  induction h with
  | start => exact absurd rfl hne
  | @commit c log h ih =>
      by_cases hsame : f c.after = f c.before
      · obtain ⟨newer, c', older, hlast⟩ := ih (hsame ▸ hne)
        refine ⟨c :: newer, c', older, congrArg (c :: ·) hlast.split, hlast.left.trans hsame.symm,
          hlast.changed, ?_⟩
        exact List.forall_mem_cons.mpr ⟨hsame, hlast.later⟩
      · exact ⟨[], c, log, rfl, rfl, Ne.symm hsame, fun _ h => absurd h List.not_mem_nil⟩

theorem Linked.stays {P : Db → Prop} (h : Linked db₀ db log) (hlog : log = newer ++ c :: older)
    (hkeeps : ∀ c' ∈ newer, P c'.before → P c'.after) (hP : P c.after) : P db := by
  induction h generalizing newer with
  | start => simp at hlog
  | @commit c' log h ih =>
      cases newer with
      | nil =>
          obtain ⟨rfl, -⟩ := List.cons.inj hlog
          exact hP
      | cons n newer =>
          obtain ⟨rfl, htail⟩ := List.cons.inj hlog
          obtain ⟨hlast, hkeeps⟩ := List.forall_mem_cons.mp hkeeps
          exact hlast (ih htail hkeeps)

end

theorem reach_linked [PyText] {rules : World.Rules Op Db Env Commit Thread} {init : Db → Prop}
    {w : World Op Ans Exn Db Commit} (h : World.Reach recorder thread rules init w) :
    ∃ db₀, init db₀ ∧ Linked db₀ w.data w.log := by
  refine reach_history (G := fun db log => ∃ db₀, init db₀ ∧ Linked db₀ db log) h
    (fun db hdb => ⟨db, hdb, .start⟩) ?_
  rintro i _ op a db db' _ ⟨db₀, hdb₀, hlinked⟩ _ _
  exact ⟨db₀, hdb₀, .commit (c := ⟨i, op, a, db, db'⟩) hlinked⟩

def RunsGrow (db db' : Db) : Prop :=
  ∀ r run', db'.runs.get? r = some run' →
    (∃ run, db.runs.get? r = some run) ∨ ∃ businessId e now, run' = Run.created businessId e now

theorem runsGrow {db db' : Db} (h : RunsWrite db db') : RunsGrow db db' := by
  intro r run' hrun'
  cases h with
  | kept h =>
      have hr := h r
      rw [hrun', Option.map_some] at hr
      obtain ⟨run, hrun, -⟩ := Option.map_eq_some_iff.mp hr.symm
      exact .inl ⟨run, hrun⟩
  | created _ h =>
      rw [h, Dict.get?_set] at hrun'
      split at hrun'
      · exact .inr ⟨_, _, _, (Option.some.inj hrun').symm⟩
      · exact .inl ⟨run', hrun'⟩

end PayrollAgent.Commits
