import PayrollAgent.IdentityBridge
import PayrollAgent.Lib.Choice
import PayrollAgent.Resume

namespace PayrollAgent.SnapshotIdentity

open Lib Validate AliasLearning ReconcileNames IdentityBridge RunStages Resume

variable [PyText]

/-- The snapshot entry that the stages of the resume find for the employee.
Detection and backfill both read it. -/
def priorEntry (ctx : ResumeContext) (x : Extractions) (overrides : Option Overrides) (id : Uuid) :
    Option ExtractedEmployee :=
  ctx.snapshot.bind fun snap =>
    (idKeyed snap ((stagePriorMatches ctx.roster (stagesInput ctx x)
      (stagesArgs ctx x overrides)).getD [])).get? id

def snapshotNames (ctx : ResumeContext) : List Str := (ctx.snapshot.map Extracted.names).getD []

/-- Whom a spelling stands for by what is stored: the last record of it, and in
a second round the roster for a spelling of the snapshot that no record resolves. -/
def storedId (ctx : ResumeContext) (name : Str) : Option Uuid :=
  ((nameToId ctx.reconciliation).get? name).or
    (if isRound2 ctx ∧ name ∈ snapshotNames ctx then
      (reconcileName ctx.roster Dict.empty name).matchedEmployeeId
    else none)

/-- Some record names the employee, or in a second round some spelling of the
snapshot does. Then no candidate can. -/
def Recorded (ctx : ResumeContext) (id : Uuid) : Prop :=
  id ∈ resolvedIds ctx.reconciliation ∨
    isRound2 ctx = true ∧ ∃ name ∈ snapshotNames ctx, Resolves ctx.roster name id

/-- A spelling of the new round is the employee's and confirms the token. -/
def Confirms (roster : Roster) (names : List Str) (overrides : Option Overrides) (token : Str)
    (id : Uuid) : Prop :=
  ∃ name ∈ names, (reconcileName roster (overrides.getD Dict.empty) name).matchedEmployeeId = some id ∧
    (normalizeName name = normalizeName token ∨
      ∃ e ∈ roster.employees, e.id = id ∧ normalizeName name = normalizeName e.fullName)

/-- The candidate stands for the employee: its token is not resolved, and it is
bound to the employee, or suggests it and the new round confirms that. -/
def Offers (ctx : ResumeContext) (names : List Str) (overrides : Option Overrides) (id : Uuid)
    (c : Str × AliasCandidate) : Prop :=
  storedId ctx c.1 = none ∧
    ((normalizeCandidate c.2).bound = some (.uuid id) ∨
      (normalizeCandidate c.2).bound = none ∧ (normalizeCandidate c.2).suggested = some (.uuid id) ∧
        Confirms ctx.roster names overrides c.1 id)

/-- The snapshot entry that is taken for the employee's, by the stored columns,
the roster and the spellings of the new round: the last one whose spelling is
recorded as the employee's, or for an employee of no record the last one spelled
like the first candidate that stands for the employee. -/
inductive KnownAs (ctx : ResumeContext) (names : List Str) (overrides : Option Overrides) (id : Uuid)
    (s : ExtractedEmployee) : Prop
  | recorded {snap : Extracted} (hsnap : ctx.snapshot = some snap) (hrecorded : Recorded ctx id)
      (hlast : IsLast (fun e => storedId ctx e.submittedName = some id) snap.employees s)
  | bridged {snap : Extracted} {c : Str × AliasCandidate} (hsnap : ctx.snapshot = some snap)
      (hnone : ¬ Recorded ctx id) (hroster : id ∈ ctx.roster.ids)
      (hfirst : IsFirst (Offers ctx names overrides id) ctx.aliasCandidates.entries c)
      (hlast : IsLast (fun e => e.submittedName = c.1) snap.employees s)

/-- The reply's spelling is the employee's: the roster says so, or says nothing
and the stored record of the spelling does. -/
def Attributed (ctx : ResumeContext) (id : Uuid) (name : Str) : Prop :=
  ((reconcileName ctx.roster Dict.empty name).matchedEmployeeId.or
    ((nameToId ctx.reconciliation).get? name)) = some id

/-- The reply-only entry that answers for the employee: of the first spelling of
the employee's, the last one. -/
def AnswersFor (ctx : ResumeContext) (reply : Extracted) (id : Uuid) (e : ExtractedEmployee) : Prop :=
  ∃ first, IsFirst (fun e => Attributed ctx id e.submittedName) reply.employees first ∧
    IsLast (fun e => e.submittedName = first.submittedName) reply.employees e

/-- The records that the stages take over, before the candidates extend them. -/
def priorMatches (ctx : ResumeContext) : List NameMatchResult :=
  if isRound2 ctx then priorMatchesForBackfill ctx else ctx.reconciliation

variable {ctx : ResumeContext} {x : Extractions} {overrides : Option Overrides} {id : Uuid}
    {name token : Str} {names : List Str} {roster : Roster} {s : ExtractedEmployee} {snap : Extracted}

theorem get?_nameToId_reconcileNames (names : List Str) (roster : Roster) (name : Str) :
    (nameToId (reconcileNames names roster none)).get? name =
      if name ∈ names then (reconcileName roster Dict.empty name).matchedEmployeeId else none := by
  by_cases hname : name ∈ names
  · rw [if_pos hname]
    exact nameToId_reconcileNames roster none hname
  · rw [if_neg hname, Option.eq_none_iff_forall_ne_some]
    intro id hid
    obtain ⟨m, hm, rfl, -⟩ := nameToId_mem hid
    obtain ⟨name', hname', rfl⟩ := (mem_reconcileNames_iff ..).mp hm
    rw [submittedName_reconcileName] at hname
    exact hname hname'

theorem storedId_eq (ctx : ResumeContext) (name : Str) :
    (nameToId (priorMatches ctx)).get? name = storedId ctx name := by
  unfold priorMatches storedId
  by_cases hround : isRound2 ctx = true
  · rw [if_pos hround, priorMatchesForBackfill, snapshotNames]
    cases ctx.snapshot with
    | none => simp
    | some snap =>
        dsimp only
        rw [get?_nameToId_append, get?_nameToId_reconcileNames]
        simp [hround]
  · rw [if_neg hround, if_neg (fun h => hround h.1), Option.or_none]

omit [PyText] in
theorem resolvedIds_append (prior extra : List NameMatchResult) :
    resolvedIds (prior ++ extra) = resolvedIds prior ++ resolvedIds extra := List.filterMap_append ..

theorem recorded_iff : Recorded ctx id ↔ id ∈ resolvedIds (priorMatches ctx) := by
  unfold Recorded priorMatches
  by_cases hround : isRound2 ctx = true
  · rw [if_pos hround, priorMatchesForBackfill, snapshotNames]
    cases ctx.snapshot with
    | none => simp
    | some snap =>
        rw [resolvedIds_append, List.mem_append, or_comm]
        simp [hround, resolvedIds, reconcileNames, Resolves]
  · simp [hround]

theorem confirms_iff :
    SameRecord (reconcileNames names roster overrides) roster token id ↔ Confirms roster names overrides token id := by
  simp [SameRecord, Confirms, reconcileNames]

omit [PyText] in
theorem fullNameOf_eq_some_iff {fullName : Str} :
    fullNameOf roster (.uuid id) = some fullName ↔
      ∃ e ∈ roster.employees, e.id = id ∧ e.fullName = fullName := by
  unfold fullNameOf
  rw [Option.map_eq_some_iff]
  constructor
  · rintro ⟨e, he, rfl⟩
    have hid := List.find?_some he
    exact ⟨e, List.mem_of_find?_eq_some he, by simpa using hid, rfl⟩
  · rintro ⟨e, he, rfl, rfl⟩
    have hfound : (roster.employees.find? fun e' => IdText.uuid e'.id = IdText.uuid e.id).isSome :=
      List.find?_isSome.mpr ⟨e, he, by simp⟩
    obtain ⟨e', he'⟩ := Option.isSome_iff_exists.mp hfound
    have hid : e'.id = e.id := by simpa using List.find?_some he'
    obtain rfl := List.inj_on_of_nodup_map roster.uniqueIds (List.mem_of_find?_eq_some he') he hid
    exact ⟨e', he', rfl⟩

theorem candidateTarget_iff {current : List NameMatchResult} {value : AliasCandidate} :
    candidateTarget current roster token value = some (.uuid id) ↔
    Backed current roster token value id := by
  refine ⟨backed_of_candidateTarget, fun h => ?_⟩
  unfold candidateTarget
  rcases h with hbound | ⟨hbound, hsuggested, m, hm, hmatched, hname⟩
  · simp only [hbound]
  · simp only [hbound, hsuggested]
    refine Option.filter_eq_some_iff.mpr ⟨rfl, List.any_eq_true.mpr ⟨m, hm, ?_⟩⟩
    rw [Bool.and_eq_true, Bool.or_eq_true, decide_eq_true_eq, decide_eq_true_eq, decide_eq_true_eq,
      hmatched]
    refine ⟨hname.imp_right ?_, rfl⟩
    rintro ⟨e, he, heid, hfull⟩
    rw [fullNameOf_eq_some_iff.mpr ⟨e, he, heid, rfl⟩, Option.map_some, hfull]

/-- The candidate's target is the employee, and no record resolves its token. -/
def Stands (current : List NameMatchResult) (roster : Roster) (names : List Str) (id : Uuid)
    (c : Str × AliasCandidate) : Prop :=
  c.1 ∉ names ∧ Backed current roster c.1 c.2 id

theorem bridge_stands {current : List NameMatchResult} {value : AliasCandidate}
    {rest : List (Str × AliasCandidate)} {ids : List Uuid}
    (hstands : Stands current roster names id (token, value)) (hroster : id ∈ roster.ids)
    (hid : id ∉ ids) :
    bridge current roster ((token, value) :: rest) ids names =
      ⟨token, .resolved .alias id, "confirmed at clarification reply".toList⟩ ::
        bridge current roster rest (id :: ids) (token :: names) := by
  have htarget : candidateTarget current roster token value = some (.uuid id) :=
    candidateTarget_iff.mpr hstands.2
  simp only [bridge, htarget, if_pos (And.intro hroster (And.intro hid hstands.1))]

theorem mem_bridge_iff {current : List NameMatchResult} {candidates : List (Str × AliasCandidate)}
    {ids : List Uuid} (hnodup : (candidates.map Prod.fst).Nodup) (hroster : id ∈ roster.ids)
    (hid : id ∉ ids) :
    (∃ m ∈ bridge current roster candidates ids names,
        m.submittedName = token ∧ m.matchedEmployeeId = some id) ↔
      ∃ value, IsFirst (Stands current roster names id) candidates (token, value) := by
  induction candidates generalizing ids names with
  | nil => simp [bridge, IsFirst]
  | cons c rest ih =>
      obtain ⟨t, value⟩ := c
      rw [List.map_cons, List.nodup_cons] at hnodup
      obtain ⟨hfresh, hrest⟩ := hnodup
      simp only [isFirst_cons]
      by_cases hstands : Stands current roster names id (t, value)
      · -- the head is taken, and no later candidate for the employee is
        rw [bridge_stands hstands hroster hid]
        simp only [hstands, true_and, not_true_eq_false, false_and, or_false, Prod.mk.injEq]
        constructor
        · rintro ⟨m, hm, rfl, hmatched⟩
          rcases List.mem_cons.mp hm with rfl | hm
          · exact ⟨value, rfl, rfl⟩
          · obtain ⟨i, hseeded⟩ := seeded_of_mem_bridge rest hm
            obtain rfl := Option.some.inj (hseeded.matched.symm.trans hmatched)
            exact absurd List.mem_cons_self hseeded.freshId
        · rintro ⟨-, rfl, -⟩
          exact ⟨_, List.mem_cons_self, rfl, rfl⟩
      · simp only [hstands, false_and, false_or, not_false_eq_true, true_and]
        obtain ⟨target, hbacked, -, -, hname, hbridge⟩ | hbridge :=
          bridge_cons current roster t value rest ids names
        · -- the head is taken for somebody else
          have hne : id ≠ target := by
            rintro rfl
            exact hstands ⟨hname, hbacked⟩
          have hkept : ∀ c ∈ rest, Stands current roster (t :: names) id c ↔
            Stands current roster names id c := by
            intro c hc
            have hne : c.1 ≠ t := by
              intro htoken
              exact hfresh (List.mem_map.mpr ⟨c, hc, htoken⟩)
            simp [Stands, hne]
          have hid' : id ∉ target :: ids := by simp [hne, hid]
          have hih := @ih (t :: names) (target :: ids) hrest hid'
          simp only [isFirst_congr hkept] at hih
          rw [hbridge, ← hih]
          constructor
          · rintro ⟨m, hm, hname, hmatched⟩
            rcases List.mem_cons.mp hm with rfl | hm
            · exact absurd (Option.some.inj hmatched).symm hne
            · exact ⟨m, hm, hname, hmatched⟩
          · rintro ⟨m, hm, hsame⟩
            exact ⟨m, List.mem_cons_of_mem _ hm, hsame⟩
        · rw [hbridge]
          exact ih hrest hid

omit [PyText] in
theorem get?_nameToId_eq_none_iff {matches' : List NameMatchResult} :
    (nameToId matches').get? name = none ↔
      name ∉ (matches'.filter NameMatchResult.resolved).map NameMatchResult.submittedName := by
  constructor
  · rintro hnone hname
    obtain ⟨m, hm, rfl⟩ := List.mem_map.mp hname
    obtain ⟨hm, hresolved⟩ := List.mem_filter.mp hm
    obtain ⟨i, hi⟩ := (NameMatchResult.resolved_iff m).mp hresolved
    have hpair : (m.submittedName, i) ∈ matches'.filterMap fun m =>
        m.matchedEmployeeId.map fun id => (m.submittedName, id) :=
      List.mem_filterMap.mpr ⟨m, hm, by rw [hi, Option.map_some]⟩
    obtain ⟨j, hj⟩ := Dict.get?_ofList_isSome hpair
    rw [nameToId, hj] at hnone
    cases hnone
  · intro hname
    rw [Option.eq_none_iff_forall_ne_some]
    intro i hi
    obtain ⟨m, hm, rfl, hmatched⟩ := nameToId_mem hi
    exact hname (List.mem_map_of_mem (List.mem_filter.mpr ⟨hm,
      (NameMatchResult.resolved_iff m).mpr ⟨i, hmatched⟩⟩))

/-- The records that the candidates add to those of the stages. -/
def bridged (ctx : ResumeContext) (names : List Str) (overrides : Option Overrides) :
    List NameMatchResult :=
  bridge (reconcileNames names ctx.roster overrides) ctx.roster ctx.aliasCandidates.entries
    (((priorMatches ctx).filter NameMatchResult.resolved).filterMap NameMatchResult.matchedEmployeeId)
    (((priorMatches ctx).filter NameMatchResult.resolved).map NameMatchResult.submittedName)

theorem stagePriorMatches_eq :
    stagePriorMatches ctx.roster (stagesInput ctx x) (stagesArgs ctx x overrides) =
      some (priorMatches ctx ++ bridged ctx x.combined.names overrides) := by
  rw [stagePriorMatches, stageMatches, names_stagesInput, overrides_stagesArgs]
  unfold stagesArgs bridged priorMatches
  split
  · rfl
  · rfl

theorem stands_iff {c : Str × AliasCandidate} :
    Stands (reconcileNames names ctx.roster overrides) ctx.roster
      (((priorMatches ctx).filter NameMatchResult.resolved).map NameMatchResult.submittedName) id c ↔
        Offers ctx names overrides id c := by
  rw [Stands, Offers, Backed, confirms_iff, ← get?_nameToId_eq_none_iff, storedId_eq]

theorem mem_bridged_iff (hroster : id ∈ ctx.roster.ids) (hnone : ¬ Recorded ctx id) :
    (∃ m ∈ bridged ctx names overrides, m.submittedName = token ∧ m.matchedEmployeeId = some id) ↔
      ∃ value, IsFirst (Offers ctx names overrides id) ctx.aliasCandidates.entries (token, value) := by
  have hid : id ∉ ((priorMatches ctx).filter NameMatchResult.resolved).filterMap
    NameMatchResult.matchedEmployeeId := by
    intro hmem
    obtain ⟨m, hm, hmatched⟩ := List.mem_filterMap.mp hmem
    exact hnone (recorded_iff.mpr (mem_resolvedIds.mpr ⟨m, (List.mem_filter.mp hm).1, hmatched⟩))
  rw [bridged, mem_bridge_iff ctx.aliasCandidates.nodup hroster hid]
  simp only [isFirst_congr fun c _ => stands_iff]

/-- For an employee of no record the name map has the first candidate's token. -/
theorem get?_bridged_iff (hroster : id ∈ ctx.roster.ids) (hnone : ¬ Recorded ctx id) :
    (nameToId (priorMatches ctx ++ bridged ctx names overrides)).get? token = some id ↔
      ∃ value, IsFirst (Offers ctx names overrides id) ctx.aliasCandidates.entries (token, value) := by
  rw [← mem_bridged_iff hroster hnone]
  constructor
  · intro h
    obtain ⟨m, hm, hname, hmatched⟩ := nameToId_mem h
    rcases List.mem_append.mp hm with hprior | hbridged
    · exact absurd (recorded_iff.mpr (mem_resolvedIds.mpr ⟨m, hprior, hmatched⟩)) hnone
    · exact ⟨m, hbridged, hname, hmatched⟩
  · rintro ⟨m, hm, hname, hmatched⟩
    have hsome : (nameToId (bridged ctx names overrides)).get? token ≠ none := by
      rw [Ne, get?_nameToId_eq_none_iff, not_not, ← hname]
      exact List.mem_map_of_mem (List.mem_filter.mpr ⟨hm,
        (NameMatchResult.resolved_iff m).mpr ⟨id, hmatched⟩⟩)
    obtain ⟨j, hj⟩ := Option.ne_none_iff_exists'.mp hsome
    rw [get?_nameToId_append, hj, Option.some_or]
    obtain ⟨m', hm', hname', hmatched'⟩ := nameToId_mem hj
    obtain ⟨i, hseeded⟩ := seeded_of_mem_bridge _ hm
    obtain ⟨i', hseeded'⟩ := seeded_of_mem_bridge _ hm'
    obtain rfl := Option.some.inj (hseeded.matched.symm.trans hmatched)
    obtain rfl := Option.some.inj (hseeded'.matched.symm.trans hmatched')
    -- one token has one candidate, and a candidate one target
    obtain ⟨value, hvalue, hbacked⟩ := hseeded.backed
    obtain ⟨value', hvalue', hbacked'⟩ := hseeded'.backed
    rw [hname] at hvalue hbacked
    rw [hname'] at hvalue' hbacked'
    rw [← Dict.get?_eq_some_iff] at hvalue hvalue'
    obtain rfl := Option.some.inj (hvalue.symm.trans hvalue')
    have htarget := candidateTarget_iff.mpr hbacked'
    rw [candidateTarget_iff.mpr hbacked] at htarget
    exact congrArg some (IdText.uuid.inj (Option.some.inj htarget)).symm

theorem onRoster_of_bridged (hnone : ¬ Recorded ctx id)
    (h : (nameToId (priorMatches ctx ++ bridged ctx names overrides)).get? token = some id) :
    id ∈ ctx.roster.ids := by
  obtain ⟨m, hm, -, hmatched⟩ := nameToId_mem h
  rcases List.mem_append.mp hm with hprior | hbridged
  · exact absurd (recorded_iff.mpr (mem_resolvedIds.mpr ⟨m, hprior, hmatched⟩)) hnone
  · obtain ⟨i, hseeded⟩ := seeded_of_mem_bridge _ hbridged
    obtain rfl := Option.some.inj (hseeded.matched.symm.trans hmatched)
    exact hseeded.onRoster

/-- The stages find the entry that the stored columns, the roster and the
spellings of the round say. -/
theorem priorEntry_iff :
    priorEntry ctx x overrides id = some s ↔ KnownAs ctx x.combined.names overrides id s := by
  rw [priorEntry, stagePriorMatches_eq, Option.getD_some]
  constructor
  · intro h
    obtain ⟨snap, hsnap, hentry⟩ := Option.bind_eq_some_iff.mp h
    have hlast := (Dict.get?_ofList_key _).mp hentry
    by_cases hrecorded : Recorded ctx id
    · refine .recorded hsnap hrecorded ((isLast_congr fun e _ => ?_).mp hlast)
      rw [← storedId_eq]
      exact get?_nameToId_of_apart (apart_bridge ..) _ (recorded_iff.mp hrecorded)
    · have hroster := onRoster_of_bridged hrecorded hlast.mem.2
      obtain ⟨value, hfirst⟩ := (get?_bridged_iff hroster hrecorded).mp hlast.mem.2
      refine .bridged hsnap hrecorded hroster hfirst ((isLast_congr fun e _ => ?_).mp hlast)
      rw [get?_bridged_iff hroster hrecorded]
      constructor
      · rintro ⟨value', hfirst'⟩
        exact congrArg Prod.fst (hfirst'.unique hfirst)
      · intro hname
        exact ⟨value, hname ▸ hfirst⟩
  · intro h
    cases h with
    | @recorded snap hsnap hrecorded hlast =>
        rw [hsnap, Option.bind_some]
        refine (Dict.get?_ofList_key _).mpr ((isLast_congr fun e _ => ?_).mpr hlast)
        rw [← storedId_eq]
        exact get?_nameToId_of_apart (apart_bridge ..) _ (recorded_iff.mp hrecorded)
    | @bridged snap c hsnap hrecorded hroster hfirst hlast =>
        rw [hsnap, Option.bind_some]
        refine (Dict.get?_ofList_key _).mpr ((isLast_congr fun e _ => ?_).mpr hlast)
        rw [get?_bridged_iff hroster hrecorded]
        constructor
        · rintro ⟨value', hfirst'⟩
          exact congrArg Prod.fst (hfirst'.unique hfirst)
        · intro hname
          exact ⟨c.2, hname ▸ hfirst⟩

/-- The gate stays closed where the entry taken for the employee's pays a field,
and the entry of the resume does not. -/
theorem not_process_of_dropped {f : HoursField} {res : ExtractedEmployee}
    (hprior : priorEntry ctx x overrides id = some s)
    (hres : (idKeyed (stagesInput ctx x)
      (stageMatches ctx.roster (stagesInput ctx x) (stagesArgs ctx x overrides))).get? id = some res)
    (hpaid : isPaid (s.hours f) = true) (hgone : isPaid (res.hours f) = false)
    (hopen : (id, f) ∉ (stagesArgs ctx x overrides).suppressDetection) :
    (stageDecision ctx.roster (stagesInput ctx x) (stagesArgs ctx x overrides)).finalAction ≠ .process := by
  obtain ⟨snap, hsnap, hentry⟩ := Option.bind_eq_some_iff.mp hprior
  rw [stagePriorMatches_eq, Option.getD_some] at hentry
  obtain ⟨v, hv, hpos⟩ := (isPaid_iff _).mp hpaid
  have hdrop : ⟨res.submittedName, f, v, res.hours f⟩ ∈
      stageDrops ctx.roster (stagesInput ctx x) (stagesArgs ctx x overrides) := by
    simp only [stageDrops, prior_stagesArgs, hsnap, stagePriorMatches_eq]
    exact mem_detectFieldRegression hentry hres hv hpos hgone
  obtain ⟨i, hi, htype⟩ := exists_regressionIssue hdrop (idKeyed_mem hres).2 hopen
  intro hprocess
  refine (Decide.clean_of_process hprocess).noRegression i ?_ htype
  exact List.mem_append_left _ (List.mem_append_left _ hi)

section Reply

variable {reply : Extracted} {e : ExtractedEmployee}

theorem attributed_iff (he : e ∈ reply.employees) :
    (nameToIdForClassify ctx reply).get? e.submittedName = some id ↔
      Attributed ctx id e.submittedName := by
  have hname : e.submittedName ∈ reply.names := List.mem_map_of_mem he
  rw [nameToIdForClassify, get?_nameToId_append, get?_nameToId_reconcileNames, if_pos hname, Attributed]

theorem replyEntry_iff : replyEntry ctx reply id = some e ↔ AnswersFor ctx reply id e := by
  unfold replyEntry AnswersFor
  rw [Dict.find?_ofList_total ExtractedEmployee.submittedName
    fun name => (nameToIdForClassify ctx reply).get? name = some id]
  simp only [decide_eq_true_eq, isFirst_congr fun e (he : e ∈ reply.employees) => attributed_iff he]

/-- Nobody answers for an employee to whom no spelling of the reply is attributed. -/
theorem replyEntry_eq_none_iff :
    replyEntry ctx reply id = none ↔ ∀ e ∈ reply.employees, ¬ Attributed ctx id e.submittedName := by
  rw [Option.eq_none_iff_forall_ne_some]
  constructor
  · intro hnone e he hown
    have hsome : ∃ e ∈ reply.employees, Attributed ctx id e.submittedName := ⟨e, he, hown⟩
    obtain ⟨first, hfirst⟩ := exists_isFirst hsome
    have hsame : ∃ e ∈ reply.employees, e.submittedName = first.submittedName :=
      ⟨first, hfirst.mem.1, rfl⟩
    obtain ⟨last, hlast⟩ := exists_isLast hsame
    exact hnone last (replyEntry_iff.mpr ⟨first, hfirst, hlast⟩)
  · rintro hnone e he
    obtain ⟨first, hfirst, -⟩ := replyEntry_iff.mp he
    exact hnone first hfirst.mem.1 hfirst.mem.2

end Reply

end PayrollAgent.SnapshotIdentity
