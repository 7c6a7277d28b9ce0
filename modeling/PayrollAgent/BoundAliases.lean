import PayrollAgent.BoundedQuestions
import PayrollAgent.Commits
import PayrollAgent.Lib.History
import PayrollAgent.RunWrites
import PayrollAgent.StageReads

namespace PayrollAgent.BoundAliases

open Lib History Repo AliasLearning ReconcileNames RunStages ClarificationWrites Handlers Effects
  FreshIds Drives Asking RunWrites StageReads Commits

def boundIn (d : AliasCandidates) (token : Str) : Option IdText :=
  (d.get? token).bind fun v => (normalizeCandidate v).bound

def boundOf (db : Db) (r : Uuid) (token : Str) : Option IdText :=
  (db.runs.get? r).bind fun run => boundIn run.aliasCandidates token

def clears : (op : Op) → Ans op → Option Uuid
  | .rewindForReclaim r, true => some r
  | .retrigger r, true => some r
  | .authorizeNewConfirmation r, true => some r
  | _, _ => none

/-- A commit left the token bound to the employee, and the candidates of the run
were not discarded since. -/
def boundSince (r : Uuid) (token : Str) (id : IdText) (log : List Commit) : Bool :=
  since (fun c => clears c.op c.answer ≠ some r) (fun c _ => boundOf c.after r token = some id) log

def binds (r : Uuid) (c : Commit) : Bool :=
  (c.after.runs.get? r).any fun run => run.aliasCandidates.keys.any fun token =>
    (boundOf c.after r token).isSome && boundOf c.after r token ≠ boundOf c.before r token

def boundAfterClaim (i : Nat) (r : Uuid) (log : List Commit) : Bool :=
  since (fun c => !(c.thread = i && claimsRun c.op c.answer = some r)) (fun c _ => binds r c) log

/-- A question asks about no token that is bound, an operator remembers a bound
token for its employee only, and a resume binds what nobody bound meanwhile. -/
def keeps (i : Nat) (db : Db) (log : List Commit) : Op → Bool
  | .reserveClarification r q =>
      q.candidates.all fun new => new.keys.all fun token => boundOf db r token = none
  | .prepareAuthoritativeOperatorResume r g => (db.resolutions.get? g).all fun generation =>
      !generation.authoritative || (rememberedCandidates generation).keys.all fun token =>
        boundOf db r token = none || boundOf db r token = boundIn (rememberedCandidates generation) token
  | .setAliasCandidates r _ => !boundAfterClaim i r log
  | _ => true

def keepsBindings : World.Rules Op Db Env Commit Thread :=
  ⟨fun _ => True, fun i _ op db log => keeps i db log op = true⟩

def Recalls (i : Nat) (s : Reading) (db : Db) (log : List Commit) : Prop :=
  ∀ r, s.run = some r → boundAfterClaim i r log = false →
    ∀ d ∈ s.seen, ∀ token id, boundOf db r token = some id → boundOf d r token = some id

variable {db db' d : Db} {op : Op} {a : Ans op} {r : Uuid} {run : Run} {token : Str} {id : IdText}
    {i : Nat} {s : Reading} {log : List Commit} {c : Commit}

theorem boundOf_stored (hrun : db.runs.get? r = some run) :
    boundOf db r token = boundIn run.aliasCandidates token := by
  rw [boundOf, hrun]
  rfl

theorem boundOf_modify {f : Run → Run} {r' : Uuid} (hruns : db'.runs = db.runs.modify r' f)
    (hrun : db.runs.get? r = some run) :
    boundOf db' r token = if r = r' then boundIn (f run).aliasCandidates token else boundOf db r
      token := by
  rw [boundOf, hruns, Dict.get?_modify, hrun]
  split
  · rfl
  · exact (boundOf_stored hrun).symm

theorem get?_mergeCandidates (stored new : AliasCandidates) (token : Str) :
    (mergeCandidates stored new).get? token = (new.get? token).or (stored.get? token) :=
  Dict.get?_foldl_entries ..

theorem boundIn_merge_of_none {stored new : AliasCandidates} (h : new.get? token = none) :
    boundIn (mergeCandidates stored new) token = boundIn stored token := by
  rw [boundIn, get?_mergeCandidates, h]
  rfl

theorem boundIn_merge_of_some {stored new : AliasCandidates} {v : AliasCandidate}
    (h : new.get? token = some v) :
    boundIn (mergeCandidates stored new) token = boundIn new token := by
  rw [boundIn, boundIn, get?_mergeCandidates, h]
  rfl

theorem binds_false (h : binds r c = false) (hbound : boundOf c.after r token = some id) :
    boundOf c.before r token = some id := by
  cases hrun : c.after.runs.get? r with
  | none =>
      rw [boundOf, hrun] at hbound
      cases hbound
  | some run =>
      rw [binds, hrun, Option.any_some, List.any_eq_false] at h
      have hkey : token ∈ run.aliasCandidates.keys := by
        rw [boundOf_stored hrun] at hbound
        obtain ⟨v, hv, -⟩ := Option.bind_eq_some_iff.mp hbound
        exact (Dict.mem_keys_iff ..).mpr ⟨v, hv⟩
      have hsame := h token hkey
      rw [hbound, Option.isSome_some, Bool.true_and, decide_eq_true_eq, not_not] at hsame
      exact hsame.symm

theorem boundAfterClaim_cons (h : boundAfterClaim i r (c :: log) = false)
    (hclaim : ¬ (c.thread = i ∧ claimsRun c.op c.answer = some r)) :
    binds r c = false ∧ boundAfterClaim i r log = false := by
  rw [boundAfterClaim, since, Bool.or_eq_false_iff] at h
  refine ⟨h.1, ?_⟩
  have hnewer : (!(decide (c.thread = i) && decide (claimsRun c.op c.answer = some r))) = true := by
    rw [Bool.not_eq_true', Bool.and_eq_false_iff, decide_eq_false_iff_not, decide_eq_false_iff_not]
    exact not_and_or.mp hclaim
  rw [hnewer, Bool.true_and] at h
  exact h.2

/-- What a thread recalls of a run stays, but for its own next claim. -/
theorem Recalls.step (h : Recalls i s c.before log)
    (hclaim : ∀ r, ¬ (c.thread = i ∧ claimsRun c.op c.answer = some r)) :
    Recalls i s c.after (c :: log) := by
  intro r hrun hunbound d hd token id hbound
  obtain ⟨hbinds, hold⟩ := boundAfterClaim_cons hunbound (hclaim r)
  exact h r hrun hold d hd token id (binds_false hbinds hbound)

theorem recalls_fresh : Recalls i .fresh db log := fun _ hrun => by cases hrun

theorem recalls_claimed : Recalls i ⟨some r, []⟩ db log := fun _ _ _ d hd => by cases hd

section

variable [PyText] {env : Env}

theorem boundIn_bindCandidates {roster : Roster} {post : List NameMatchResult}
    {candidates : AliasCandidates}
    (h : boundIn candidates token = some id) :
    boundIn (bindCandidates roster post candidates) token = some id := by
  obtain ⟨v, hv, hbound⟩ := Option.bind_eq_some_iff.mp h
  rw [boundIn, bindCandidates, Dict.get?_mapValues, hv, Option.map_some, Option.bind_some]
  split
  next heq =>
    rw [heq] at hbound
    cases hbound
  · exact hbound

omit [PyText] in
theorem boundIn_remembered {g : Uuid} {generation : OperatorResolution}
    (hgeneration : db.resolutions.get? g = some generation)
    (hauthoritative : generation.authoritative = true) (hrun : db.runs.get? r = some run)
    (hkeeps : keeps i db log (.prepareAuthoritativeOperatorResume r g) = true)
    (hbound : boundIn run.aliasCandidates token = some id) :
    boundIn (mergeCandidates run.aliasCandidates (rememberedCandidates generation)) token = some id := by
  cases hremembered : (rememberedCandidates generation).get? token with
  | none => rw [boundIn_merge_of_none hremembered, hbound]
  | some v =>
      have hkey := (Dict.mem_keys_iff ..).mpr ⟨v, hremembered⟩
      rw [keeps, hgeneration, Option.all_some, hauthoritative, Bool.not_true, Bool.false_or,
        List.all_eq_true] at hkeeps
      have hsame := hkeeps token hkey
      rw [boundOf_stored hrun, hbound] at hsame
      rw [boundIn_merge_of_some hremembered]
      simpa [eq_comm] using hsame

omit [PyText] in
theorem bound_prepared {r' g : Uuid} {authoritative : Bool}
    (h : prepareAuthoritativeOperatorResume r' g db = .ok (authoritative, db'))
    (hkeeps : keeps i db log (.prepareAuthoritativeOperatorResume r' g) = true)
    (hbound : boundOf db r token = some id) : boundOf db' r token = some id := by
  unfold prepareAuthoritativeOperatorResume at h
  split at h
  next run generation hrun hgeneration =>
    split at h
    · split at h
      next hauthoritative =>
        split at h
        · obtain ⟨-, rfl⟩ := Prod.mk.inj (Except.ok.inj h)
          exact hbound
        · obtain ⟨-, rfl⟩ := Prod.mk.inj (Except.ok.inj h)
          by_cases hr : r = r'
          · subst hr
            rw [boundOf_stored hrun] at hbound
            have hruns : (setAliasCandidates r (rememberedCandidates generation) db).runs = _ :=
              Db.modifyRun_runs ..
            rw [boundOf_modify hruns hrun, if_pos rfl]
            exact boundIn_remembered hgeneration hauthoritative hrun hkeeps hbound
          · have hkept : (setAliasCandidates r' (rememberedCandidates generation) db).runs.get? r =
              db.runs.get? r :=
              (congrArg (·.get? r) (Db.modifyRun_runs ..)).trans ((Dict.get?_modify ..).trans (if_neg hr))
            rw [boundOf, hkept]
            exact hbound
      · obtain ⟨-, rfl⟩ := Prod.mk.inj (Except.ok.inj h)
        exact hbound
    · cases h
  · cases h

theorem boundIn_rebound {new : AliasCandidates} (hop : allows s (.setAliasCandidates r new))
    (hrecalls : Recalls i s db log)
    (hkeeps : keeps i db log (.setAliasCandidates r new) = true) (hrun : db.runs.get? r = some run)
    (hbound : boundIn run.aliasCandidates token = some id) :
    boundIn (mergeCandidates run.aliasCandidates new) token = some id := by
  obtain ⟨hclaimed, candidates, ⟨d, hd, run', hrun', rfl⟩, roster, post, rfl⟩ := hop
  rw [keeps, Bool.not_eq_true'] at hkeeps
  have hread := hrecalls r hclaimed hkeeps d hd token id (by rw [boundOf_stored hrun, hbound])
  rw [boundOf_stored hrun'] at hread
  have hnew := @boundIn_bindCandidates _ _ _ roster post _ hread
  obtain ⟨v, hv, -⟩ := Option.bind_eq_some_iff.mp hnew
  rw [boundIn_merge_of_some hv, hnew]

omit [PyText] in
theorem boundIn_captured {q : Question} {new : AliasCandidates} (hq : q.candidates = some new)
    (hkeeps : keeps i db log (.reserveClarification r q) = true) (hrun : db.runs.get? r = some run)
    (hbound : boundIn run.aliasCandidates token = some id) :
    boundIn (mergeCandidates run.aliasCandidates new) token = some id := by
  cases hnew : new.get? token with
  | none => rw [boundIn_merge_of_none hnew, hbound]
  | some v =>
      rw [keeps, hq, Option.all_some, List.all_eq_true] at hkeeps
      have hfree := hkeeps token ((Dict.mem_keys_iff ..).mpr ⟨v, hnew⟩)
      rw [boundOf_stored hrun, hbound, decide_eq_true_eq] at hfree
      cases hfree

theorem bound_step (htxn : txn env op db = .ok (a, db')) (hfresh : Fresh db) (hop : allows s op)
    (hrecalls : Recalls i s db log) (hkeeps : keeps i db log op = true)
    (hbound : boundOf db r token = some id) :
    boundOf db' r token = some id ∨ clears op a = some r := by
  obtain ⟨run, hrun, hin⟩ := Option.bind_eq_some_iff.mp hbound
  have heffect := txn_effect htxn
  cases runWrite heffect hfresh with
  | same hruns => exact .inl (by rw [boundOf, hruns, hrun]; exact hin)
  | created r' businessId hruns hnew =>
      refine .inl ?_
      have hr : r ≠ r' := by
        rintro rfl
        rw [hnew] at hrun
        cases hrun
      rw [boundOf, hruns, Dict.get?_set_of_ne _ hr, hrun]
      exact hin
  | wrote r' f hruns hf =>
      have hafter := @boundOf_modify _ _ _ _ token _ _ hruns hrun
      by_cases hr : r = r'
      · subst hr
        rw [if_pos rfl] at hafter
        have hwrite := hf.candidates run
        generalize (f run).aliasCandidates = written at hwrite hafter
        cases hwrite with
        | kept => exact .inl (hafter.trans hin)
        | captured hq => exact .inl (hafter.trans (boundIn_captured hq hkeeps hrun hin))
        | bound => exact .inl (hafter.trans (boundIn_rebound hop hrecalls hkeeps hrun hin))
        | projected => exact .inl (bound_prepared htxn hkeeps hbound)
        | rewound =>
            cases heffect with
            | idle => exact .inl hbound
            | rewound => exact .inr rfl
        | retriggered =>
            cases heffect with
            | idle => exact .inl hbound
            | retriggered => exact .inr rfl
        | authorizedNew =>
            cases heffect with
            | idle => exact .inl hbound
            | authorizedNew => exact .inr rfl
      · rw [if_neg hr] at hafter
        exact .inl (hafter.trans hbound)

structure Bound (db : Db) (log : List Commit) : Prop where
  fresh : Fresh db
  kept : ∀ r token id, boundSince r token id log = true → boundOf db r token = some id

theorem bound_commit (h : Bound db log) (htxn : txn env op db = .ok (a, db')) (hop : allows s op)
    (hrecalls : Recalls i s db log) (hkeeps : keeps i db log op = true) :
    Bound db' (⟨i, op, a, db, db'⟩ :: log) := by
  refine ⟨fresh_step (txn_effect htxn) h.fresh, fun r token id hsince => ?_⟩
  rw [boundSince, since, Bool.or_eq_true, decide_eq_true_eq, Bool.and_eq_true,
    decide_eq_true_eq] at hsince
  obtain hnow | ⟨hclears, hsince⟩ := hsince
  · exact hnow
  · exact (bound_step htxn h.fresh hop hrecalls hkeeps (h.kept r token id hsince)).resolve_right hclears

omit [PyText] in
theorem recalls_query (h : Recalls i s db log) : Recalls i { s with seen := db :: s.seen } db log := by
  intro r hrun hunbound d hd token id hbound
  obtain rfl | hd := List.mem_cons.mp hd
  · exact hbound
  · exact h r hrun hunbound d hd token id hbound

omit [PyText] in
theorem next_claim (s : Reading) (r : Uuid) (x : Except Exn Bool) :
    next s (.claimStatus r .received .extracting) x = .fresh ∨
    next s (.claimStatus r .received .extracting) x = ⟨some r, []⟩ := by
  cases x with
  | error e => exact .inl rfl
  | ok won =>
      cases won with
      | true => exact .inr rfl
      | false => exact .inl rfl

omit [PyText] in
theorem next_same (hclaim : ∀ r, op ≠ .claimStatus r .received .extracting) (hquery : op ≠ .query)
    (x : Except Exn (Ans op)) : next s op x = s := by
  unfold next
  split
  · exact absurd rfl hquery
  · exact absurd rfl (hclaim _)
  · exact absurd rfl (hclaim _)
  · rfl

theorem recalls_exec {j : Nat} (h : Recalls j s db log)
    (hclaim : i = j → ∀ r, op ≠ .claimStatus r .received .extracting) :
    Recalls j s (exec env op db).2 (commits i env op db ++ log) := by
  apply exec_recorded h
  intro a db' htxn
  refine Recalls.step (c := ⟨i, op, a, db, db'⟩) h fun r hown => ?_
  exact hclaim hown.1 r (claimsRun_eq hown.2)

theorem recalls_own (h : Recalls i s db log) :
    Recalls i (next s op (exec env op db).1) (exec env op db).2 (commits i env op db ++ log) := by
  by_cases hclaim : ∃ r, op = .claimStatus r .received .extracting
  · obtain ⟨r, rfl⟩ := hclaim
    obtain hnext | hnext := next_claim s r (exec env (.claimStatus r .received .extracting) db).1
    · rw [hnext]
      exact recalls_fresh
    · rw [hnext]
      exact recalls_claimed
  · rw [not_exists] at hclaim
    have hkept := @recalls_exec _ _ i _ _ _ env _ h fun _ => hclaim
    by_cases hquery : op = .query
    · subst hquery
      cases hread : (exec env .query db).1 with
      | error e => exact hkept
      | ok d =>
          obtain ⟨rfl, hdb, -⟩ := BoundedQuestions.of_query (i := i) hread
          rw [hdb] at hkept ⊢
          exact recalls_query hkept
    · rw [next_same hclaim hquery]
      exact hkept

theorem preserved : World.Preserved recorder thread keepsBindings Fresh reading .fresh Bound Recalls where
  init db h := ⟨h, fun _ _ _ hsince => by cases hsince⟩
  follows k _ := thread_follows k
  fresh _ _ _ _ := recalls_fresh
  shared i env op s db log hbound hrecalls hop hkeeps := by
    change Bound (exec env op db).2 (commits i env op db ++ log)
    apply exec_recorded hbound
    intro a db' htxn
    exact bound_commit hbound htxn hop hrecalls hkeeps
  own _ _ _ _ _ _ _ hrecalls _ _ := recalls_own hrecalls
  other _ _ _ _ _ _ _ _ _ _ _ _ hji hrecalls := recalls_exec hrecalls fun hij => absurd hij.symm hji

/-- In a history in which no question asks again about a bound token, no
operator remembers it for somebody else, and resumes do not overlap, a token
that was bound is bound to the same employee until the run is rewound or opens
a new epoch. -/
theorem bound_stays {w : World Op Ans Exn Db Commit}
    (hreach : World.Reach recorder thread keepsBindings Fresh w)
    (hbound : boundSince r token id w.log = true) : boundOf w.data r token = some id :=
  (preserved.reach hreach).1.kept r token id hbound

end

section Histories

attribute [local instance] asciiText

open BoundedQuestions

instance : DecidablePred keepsBindings.spawns := fun _ => inferInstanceAs (Decidable True)

instance (i : Nat) (env : Env) (op : Op) (db : Db) (log : List Commit) :
    Decidable (keepsBindings.permits i env op db log) :=
  inferInstanceAs (Decidable (keeps i db log op = true))

def bobby : Str := "bobby".toList

def meansBob : Extracted :=
  ⟨9, [reported "ann lee".toList (whole 40) (whole 10), reported "bob ray".toList (whole 30) none,
    reported "zed".toList (whole 5) none], none, none⟩

def everybody : Extracted :=
  ⟨9, [reported "ann lee".toList (whole 40) (whole 10), reported "bob ray".toList (whole 30) none],
    none, none⟩

def suggests (i n : Nat) (job : Uuid) (x : Extracted) : List (Event Thread Env) :=
  .spawn .worker :: List.replicate n (.run i
    { picked := job, extracted := x, envelope := letter, suggestions := .ofList [(bobby, "bob ray".toList)] })

/-- The run is asked about the name, and the reply confirms the suggestion. A
second question, about the other name, is answered too. -/
def confirmed : List (Event Thread Env) :=
  arrives 0 5 none ++ suggests 1 15 12 misnamed ++ works 2 5 16 misnamed ++ arrives 3 40 (some 14) ++
    suggests 4 25 20 meansBob ++ works 5 5 24 misnamed ++ arrives 6 41 (some 22)

def usedAgain : List (Event Thread Env) := confirmed ++ suggests 7 25 28 misnamed

def settled : List (Event Thread Env) := confirmed ++ suggests 7 25 28 everybody

theorem fresh_emptyDb : Fresh emptyDb := Fresh.of_keys (by decide)

/-- The binding that the first reply made is gone with the third question, which
asks about the same name. -/
theorem second_capture_unbinds : ¬ ∀ (w : World Op Ans Exn Db Commit) r token id,
    World.Reach recorder thread World.Rules.any Fresh w → boundSince r token id w.log = true →
      boundOf w.data r token = some id := by
  intro h
  have hreach := reach_recordedAfter fresh_emptyDb usedAgain
  have hsince : boundSince 11 bobby (.uuid 2) (recordedAfter emptyDb usedAgain).log = true := by
    decide +kernel
  have hlost : boundOf (recordedAfter emptyDb usedAgain).data 11 bobby = none := by decide +kernel
  generalize recordedAfter emptyDb usedAgain = w at *
  have hbound := h w 11 bobby _ hreach hsince
  rw [hlost] at hbound
  cases hbound

/-- Where the second reply uses the full name, the binding lasts. -/
theorem bound_stays_settled : boundOf (recordedAfter emptyDb settled).data 11 bobby = some (.uuid 2) := by
  have hreach : World.Reach recorder thread keepsBindings Fresh (recordedAfter emptyDb settled) :=
    reach_recordedAfter_of_permits fresh_emptyDb (by decide +kernel)
  have hsince : boundSince 11 bobby (.uuid 2) (recordedAfter emptyDb settled).log = true := by
    decide +kernel
  exact bound_stays hreach hsince

end Histories

end PayrollAgent.BoundAliases
