import PayrollAgent.LearnedAliases

namespace PayrollAgent.ConcurrentLearning

open Lib Repo AliasLearning ReconcileNames LearnedAliases

inductive Side
  | first
  | second
  deriving DecidableEq, Repr

def Side.other : Side → Side
  | .first => .second
  | .second => .first

/-- Where a settlement stands: it owes a read of the roster, it goes on with the
next candidate, its check has passed and it owes the write, or it is through. -/
inductive Phase
  | loading
  | checking (view : Roster)
  | writing (view : Roster) (target : Uuid) (token : Str)
  | committed

structure Settlement where
  phase : Phase
  todo : List (Str × AliasCandidate)
  writes : List (Uuid × Str)

structure State where
  roster : Roster
  settlements : Side → Settlement

def State.start (roster : Roster) (candidates : Side → AliasCandidates) : State :=
  ⟨roster, fun i => ⟨.loading, (candidates i).entries, []⟩⟩

def State.put (s : State) (i : Side) (t : Settlement) : State :=
  { s with settlements := fun j => if j = i then t else s.settlements j }

def isOpen : Phase → Bool
  | .committed => false
  | _ => true

def State.pending (s : State) (i : Side) : List (Uuid × Str) :=
  if isOpen (s.settlements i).phase then (s.settlements i).writes else []

def applyWrites (writes : List (Uuid × Str)) (roster : Roster) : Roster :=
  writes.foldl (fun roster p => updateKnownAlias p.1 p.2 roster) roster

/-- The rows a statement of the settlement reads: the committed ones with its
own writes. -/
def State.visible (s : State) (i : Side) : Roster := applyWrites (s.pending i) s.roster

def State.combined (s : State) : Roster := applyWrites (s.pending .first ++ s.pending .second) s.roster

def present (roster : Roster) (target : Uuid) (token : Str) : Bool :=
  roster.employees.any fun e => e.id = target ∧ token ∈ e.knownAliases

inductive Event
  | read (i : Side)
  | check (i : Side)
  | write (i : Side)
  | commit (i : Side)
  | fail (i : Side)
  deriving DecidableEq, Repr

def State.adds (s : State) (i : Side) : Option (Uuid × Str) :=
  match (s.settlements i).phase with
  | .writing _ target token =>
      if target ∈ (s.visible i).ids ∧ ¬ present (s.visible i) target token then
        some (target, token)
      else none
  | _ => none

section

variable [PyText]

/-- A failure rolls the alias writes back to their savepoint, and the settlement
goes on without them. -/
def step (s : State) : Event → Option State
  | .read i =>
      match (s.settlements i).phase with
      | .loading => some (s.put i { s.settlements i with phase := .checking (s.visible i) })
      | _ => none
  | .check i =>
      match (s.settlements i).phase, (s.settlements i).todo with
      | .checking view, entry :: rest =>
          match (normalizeCandidate entry.2).bound with
          | some (.uuid target) =>
              if target ∈ view.ids ∧ safeToLearnAlias entry.1 target view then
                some (s.put i { s.settlements i with phase := .writing view target entry.1, todo := rest })
              else some (s.put i { s.settlements i with todo := rest })
          | _ => some (s.put i { s.settlements i with todo := rest })
      | _, _ => none
  | .write i =>
      match (s.settlements i).phase with
      | .writing view target _ =>
          -- The row stays locked until the writer that changed it is through.
          if (s.pending i.other).any (fun p => p.1 = target) then none
          else
            match s.adds i with
            | some p =>
                some (s.put i { s.settlements i with phase := .loading, writes := (s.settlements i).writes ++ [p] })
            | none => some (s.put i { s.settlements i with phase := .checking view })
      | _ => none
  | .commit i =>
      match (s.settlements i).phase, (s.settlements i).todo with
      | .checking _, [] =>
          some { s.put i { s.settlements i with phase := .committed } with
            roster := applyWrites (s.settlements i).writes s.roster }
      | _, _ => none
  | .fail i =>
      if isOpen (s.settlements i).phase then some (s.put i ⟨.checking s.roster, [], []⟩) else none

def run : State → List Event → Option State
  | s, [] => some s
  | s, e :: es => (step s e).bind fun s' => run s' es

/-- The collision check would still pass at the write, with what both
settlements have written by then. -/
def stillSafe (s : State) : Event → Bool
  | .write i => (s.adds i).all fun p => safeToLearnAlias p.2 p.1 s.combined
  | _ => true

def careful : State → List Event → Bool
  | _, [] => true
  | s, e :: es => stillSafe s e && (step s e).all fun s' => careful s' es

def State.through (s : State) : Prop := ∀ i, isOpen (s.settlements i).phase = false

/-- Every alias the settlements wrote resolves to the employee it was learned
for. -/
def LearnedResolve (s : State) : Prop := ∀ i, ∀ p ∈ (s.settlements i).writes, Resolves s.roster p.2 p.1

/-- What a step of one side does to its writes and to the committed rows. -/
inductive Change (s : State) (i : Side) : Event → List (Uuid × Str) → Bool → Roster → Prop
  | moved {e : Event} : Change s i e (s.settlements i).writes true s.roster
  | wrote {p : Uuid × Str} (hadds : s.adds i = some p) :
      Change s i (.write i) ((s.settlements i).writes ++ [p]) true s.roster
  | landed : Change s i (.commit i) (s.settlements i).writes false
      (applyWrites (s.settlements i).writes s.roster)
  | failed : Change s i (.fail i) [] true s.roster

structure Outcome (s : State) (e : Event) (s' : State) (i : Side) : Prop where
  opened : isOpen (s.settlements i).phase = true
  change : Change s i e (s'.settlements i).writes (isOpen (s'.settlements i).phase) s'.roster
  other : ∀ j, j ≠ i → s'.settlements j = s.settlements j

variable {s s' s₁ : State} {e : Event} {es : List Event} {i j : Side} {id : Uuid} {name : Str}
    {roster : Roster} {writes : List (Uuid × Str)} {p : Uuid × Str}

omit [PyText] in
theorem put_same (t : Settlement) : (s.put i t).settlements i = t := if_pos rfl

omit [PyText] in
theorem put_other (t : Settlement) (h : j ≠ i) : (s.put i t).settlements j = s.settlements j := if_neg h

omit [PyText] in
theorem Outcome.put {t : Settlement} (hopen : isOpen (s.settlements i).phase = true)
    (hchange : Change s i e t.writes (isOpen t.phase) roster) :
    Outcome s e { s.put i t with roster := roster } i := by
  have hsame : (State.mk roster (s.put i t).settlements).settlements i = t := put_same t
  exact ⟨hopen, by rwa [hsame], fun j hj => put_other t hj⟩

theorem outcome (h : step s e = some s') : ∃ i, Outcome s e s' i := by
  cases e with
  | read i =>
      dsimp only [step] at h
      split at h
      next hphase =>
        obtain rfl := Option.some.inj h
        exact ⟨i, .put (by rw [hphase]; rfl) .moved⟩
      · cases h
  | check i =>
      dsimp only [step] at h
      split at h
      next view entry rest hphase htodo =>
        have hopen : isOpen (s.settlements i).phase = true := by rw [hphase]; rfl
        have hskip : Outcome s (.check i) (s.put i { s.settlements i with todo := rest }) i := by
          refine .put hopen ?_
          rw [hopen]
          exact .moved
        split at h
        · split at h
          · obtain rfl := Option.some.inj h
            exact ⟨i, .put hopen .moved⟩
          · obtain rfl := Option.some.inj h
            exact ⟨i, hskip⟩
        · obtain rfl := Option.some.inj h
          exact ⟨i, hskip⟩
      · cases h
  | write i =>
      dsimp only [step] at h
      split at h
      next view target token hphase =>
        have hopen : isOpen (s.settlements i).phase = true := by rw [hphase]; rfl
        split at h
        · cases h
        · split at h
          next p hadds =>
            obtain rfl := Option.some.inj h
            exact ⟨i, .put hopen (.wrote hadds)⟩
          · obtain rfl := Option.some.inj h
            exact ⟨i, .put hopen .moved⟩
      · cases h
  | commit i =>
      dsimp only [step] at h
      split at h
      next view hphase _ =>
        obtain rfl := Option.some.inj h
        exact ⟨i, .put (by rw [hphase]; rfl) .landed⟩
      · cases h
  | fail i =>
      dsimp only [step] at h
      split at h
      next hopen =>
        obtain rfl := Option.some.inj h
        exact ⟨i, .put hopen .failed⟩
      · cases h

omit [PyText] in
theorem applyWrites_ids (writes : List (Uuid × Str)) (roster : Roster) :
    (applyWrites writes roster).ids = roster.ids := by
  induction writes generalizing roster with
  | nil => rfl
  | cons p rest ih =>
      refine (ih _).trans ?_
      simp [updateKnownAlias, rosterWithAliases, Roster.ids, Function.comp_def]

def Teaches (writes : List (Uuid × Str)) (id : Uuid) (name : Str) : Prop :=
  ∃ p ∈ writes, p.1 = id ∧ normalizeName p.2 = normalizeName name

theorem answered_applyWrites : Answered (applyWrites writes roster) id name ↔
    Answered roster id name ∨ (id ∈ roster.ids ∧ Teaches writes id name) := by
  induction writes generalizing roster with
  | nil => exact ⟨.inl, fun h => h.resolve_right fun ⟨_, p, hp, _⟩ => by cases hp⟩
  | cons p rest ih =>
      have hids : (updateKnownAlias p.1 p.2 roster).ids = roster.ids := applyWrites_ids [p] roster
      have hfirst : Answered (updateKnownAlias p.1 p.2 roster) id name ↔ Answered roster id name ∨
          (id = p.1 ∧ p.1 ∈ roster.ids ∧ normalizeName p.2 = normalizeName name) :=
        answered_rosterWithAliases (adds_update p.2)
      rw [applyWrites, List.foldl_cons, ← applyWrites, ih, hids, hfirst]
      constructor
      · rintro ((hold | ⟨rfl, hmem, hsame⟩) | ⟨hmem, q, hq, hid, hsame⟩)
        · exact .inl hold
        · exact .inr ⟨hmem, p, List.mem_cons_self, rfl, hsame⟩
        · exact .inr ⟨hmem, q, List.mem_cons_of_mem p hq, hid, hsame⟩
      · rintro (hold | ⟨hmem, q, hq, rfl, hsame⟩)
        · exact .inl (.inl hold)
        · obtain rfl | hq := List.mem_cons.mp hq
          · exact .inl (.inr ⟨rfl, hmem, hsame⟩)
          · exact .inr ⟨hmem, q, hq, rfl, hsame⟩

theorem answered_combined : Answered s.combined id name ↔
    Answered s.roster id name ∨ (id ∈ s.roster.ids ∧ ∃ i, Teaches (s.pending i) id name) := by
  rw [State.combined, answered_applyWrites]
  refine or_congr_right (and_congr_right fun _ => ?_)
  constructor
  · rintro ⟨p, hp, hid, hsame⟩
    obtain hp | hp := List.mem_append.mp hp
    · exact ⟨.first, p, hp, hid, hsame⟩
    · exact ⟨.second, p, hp, hid, hsame⟩
  · rintro ⟨i, p, hp, hid, hsame⟩
    cases i with
    | first => exact ⟨p, List.mem_append_left _ hp, hid, hsame⟩
    | second => exact ⟨p, List.mem_append_right _ hp, hid, hsame⟩

omit [PyText] in
theorem adds_known (h : s.adds i = some p) : p.1 ∈ s.roster.ids := by
  unfold State.adds at h
  split at h
  next view target token hphase =>
    by_cases hadds : target ∈ (s.visible i).ids ∧ ¬ present (s.visible i) target token
    · rw [if_pos hadds] at h
      obtain rfl := Option.some.inj h
      have hmem := hadds.1
      rwa [State.visible, applyWrites_ids] at hmem
    · rw [if_neg hadds] at h
      cases h
  · cases h

omit [PyText] in
theorem mem_pending : p ∈ s.pending i ↔ isOpen (s.settlements i).phase = true ∧
    p ∈ (s.settlements i).writes := by
  unfold State.pending
  by_cases hopen : isOpen (s.settlements i).phase = true
  · rw [if_pos hopen]
    exact (and_iff_right hopen).symm
  · rw [if_neg hopen]
    exact iff_of_false (fun h => by cases h) fun h => hopen h.1

structure Kept (s : State) : Prop where
  known : ∀ i, ∀ p ∈ (s.settlements i).writes, p.1 ∈ s.roster.ids
  landed : ∀ i, isOpen (s.settlements i).phase = false → ∀ p ∈ (s.settlements i).writes,
    Answered s.roster p.1 p.2

theorem Kept.answered (h : Kept s) (hp : p ∈ (s.settlements i).writes) : Answered s.combined p.1 p.2 := by
  rw [answered_combined]
  by_cases hopen : isOpen (s.settlements i).phase = true
  · exact .inr ⟨h.known i p hp, i, p, mem_pending.mpr ⟨hopen, hp⟩, rfl, rfl⟩
  · exact .inl (h.landed i (Bool.not_eq_true _ ▸ hopen) p hp)

omit [PyText] in
theorem Outcome.ids (h : Outcome s e s' i) : s'.roster.ids = s.roster.ids := by
  obtain ⟨-, hchange, -⟩ := h
  generalize (s'.settlements i).writes = writes, isOpen (s'.settlements i).phase = opened,
    s'.roster = roster at *
  cases hchange with
  | moved => rfl
  | wrote => rfl
  | landed => exact applyWrites_ids ..
  | failed => rfl

theorem Outcome.landed (h : Outcome s e s' i) (hanswered : Answered s.roster id name) :
    Answered s'.roster id name := by
  obtain ⟨-, hchange, -⟩ := h
  generalize (s'.settlements i).writes = writes, isOpen (s'.settlements i).phase = opened,
    s'.roster = roster at *
  cases hchange with
  | moved => exact hanswered
  | wrote => exact hanswered
  | landed => exact answered_applyWrites.mpr (.inl hanswered)
  | failed => exact hanswered

theorem Outcome.kept (h : Outcome s e s' i) (hs : Kept s) : Kept s' := by
  have hids := h.ids
  have hroster : ∀ {id name}, Answered s.roster id name → Answered s'.roster id name := h.landed
  obtain ⟨-, hchange, hother⟩ := h
  constructor
  · intro j p hp
    rw [hids]
    by_cases hj : j = i
    · subst hj
      generalize (s'.settlements j).writes = writes, isOpen (s'.settlements j).phase = opened,
        s'.roster = roster at *
      cases hchange with
      | moved => exact hs.known j p hp
      | wrote hadds =>
          obtain hp | hp := List.mem_append.mp hp
          · exact hs.known j p hp
          · obtain rfl := List.mem_singleton.mp hp
            exact adds_known hadds
      | landed => exact hs.known j p hp
      | failed => cases hp
    · rw [hother j hj] at hp
      exact hs.known j p hp
  · intro j hclosed p hp
    by_cases hj : j = i
    · subst hj
      generalize (s'.settlements j).writes = writes, isOpen (s'.settlements j).phase = opened,
        s'.roster = roster at *
      cases hchange with
      | moved => cases hclosed
      | wrote => cases hclosed
      | landed => exact answered_applyWrites.mpr (.inr ⟨hs.known j p hp, p, hp, rfl, rfl⟩)
      | failed => cases hclosed
    · rw [hother j hj] at hclosed hp
      exact hroster (hs.landed j hclosed p hp)

/-- Nothing answers to a name that did not before, but for the alias a write
adds. -/
theorem Outcome.combined_only (h : Outcome s e s' i) (hanswered : Answered s'.combined id name) :
    Answered s.combined id name ∨ ∃ p, e = .write i ∧ s.adds i = some p ∧ p.1 = id ∧
    normalizeName p.2 = normalizeName name := by
  have hids := h.ids
  obtain ⟨hopen, hchange, hother⟩ := h
  rw [answered_combined, hids] at hanswered
  rw [answered_combined]
  obtain hrow | ⟨hmem, j, p, hp, hid, hsame⟩ := hanswered
  · generalize (s'.settlements i).writes = writes, isOpen (s'.settlements i).phase = opened,
      s'.roster = roster at *
    cases hchange with
    | moved => exact .inl (.inl hrow)
    | wrote => exact .inl (.inl hrow)
    | landed =>
        obtain hrow | ⟨hmem, p, hp, hid, hsame⟩ := answered_applyWrites.mp hrow
        · exact .inl (.inl hrow)
        · exact .inl (.inr ⟨hmem, i, p, mem_pending.mpr ⟨hopen, hp⟩, hid, hsame⟩)
    | failed => exact .inl (.inl hrow)
  · rw [mem_pending] at hp
    by_cases hj : j = i
    · subst hj
      generalize (s'.settlements j).writes = writes, isOpen (s'.settlements j).phase = opened,
        s'.roster = roster at *
      cases hchange with
      | moved => exact .inl (.inr ⟨hmem, j, p, mem_pending.mpr ⟨hopen, hp.2⟩, hid, hsame⟩)
      | wrote hadds =>
          obtain hp | hp := List.mem_append.mp hp.2
          · exact .inl (.inr ⟨hmem, j, p, mem_pending.mpr ⟨hopen, hp⟩, hid, hsame⟩)
          · obtain rfl := List.mem_singleton.mp hp
            exact .inr ⟨p, rfl, hadds, hid, hsame⟩
      | landed => cases hp.1
      | failed => cases hp.2
    · rw [hother j hj] at hp
      exact .inl (.inr ⟨hmem, j, p, mem_pending.mpr hp, hid, hsame⟩)

theorem Outcome.combined_grows (h : Outcome s e s' i) (hkept : e ≠ .fail i)
    (hanswered : Answered s.combined id name) : Answered s'.combined id name := by
  have hids := h.ids
  have hroster : ∀ {id name}, Answered s.roster id name → Answered s'.roster id name := h.landed
  obtain ⟨hopen, hchange, hother⟩ := h
  rw [answered_combined] at hanswered
  rw [answered_combined, hids]
  obtain hrow | ⟨hmem, j, p, hp, hid, hsame⟩ := hanswered
  · exact .inl (hroster hrow)
  · rw [mem_pending] at hp
    by_cases hj : j = i
    · subst hj
      have hpending := mem_pending (s := s') (i := j) (p := p)
      generalize (s'.settlements j).writes = writes, isOpen (s'.settlements j).phase = opened,
        s'.roster = roster at *
      cases hchange with
      | moved => exact .inr ⟨hmem, j, p, hpending.mpr ⟨rfl, hp.2⟩, hid, hsame⟩
      | wrote => exact .inr ⟨hmem, j, p, hpending.mpr ⟨rfl, List.mem_append_left _ hp.2⟩, hid, hsame⟩
      | landed => exact .inl (answered_applyWrites.mpr (.inr ⟨hmem, p, hp.2, hid, hsame⟩))
      | failed => exact absurd rfl hkept
    · rw [← hother j hj] at hp
      exact .inr ⟨hmem, j, p, mem_pending.mpr hp, hid, hsame⟩

omit [PyText] in
theorem Outcome.new_write (h : Outcome s e s' i) (hp : p ∈ (s'.settlements j).writes) :
    p ∈ (s.settlements j).writes ∨ (e = .write i ∧ s.adds i = some p) := by
  obtain ⟨-, hchange, hother⟩ := h
  by_cases hj : j = i
  · subst hj
    generalize (s'.settlements j).writes = writes, isOpen (s'.settlements j).phase = opened,
      s'.roster = roster at *
    cases hchange with
    | moved => exact .inl hp
    | wrote hadds =>
        obtain hp | hp := List.mem_append.mp hp
        · exact .inl hp
        · obtain rfl := List.mem_singleton.mp hp
          exact .inr ⟨rfl, hadds⟩
    | landed => exact .inl hp
    | failed => cases hp
  · rw [hother j hj] at hp
    exact .inl hp

omit [PyText] in
theorem Outcome.writes_grow (h : Outcome s e s' i) (hkept : e ≠ .fail i)
    (hp : p ∈ (s.settlements j).writes) : p ∈ (s'.settlements j).writes := by
  obtain ⟨-, hchange, hother⟩ := h
  by_cases hj : j = i
  · subst hj
    generalize (s'.settlements j).writes = writes, isOpen (s'.settlements j).phase = opened,
      s'.roster = roster at *
    cases hchange with
    | moved => exact hp
    | wrote => exact List.mem_append_left _ hp
    | landed => exact hp
    | failed => exact absurd rfl hkept
  · rwa [hother j hj]

theorem only_target {target : Uuid} {token : Str} (hsafe : safeToLearnAlias token target roster = true)
    (hanswered : Answered roster id token) : id = target := by
  rw [safeToLearnAlias_iff, resolves_iff] at hsafe
  exact (hsafe id).mp ((answered_rosterWithAliases (adds_append token)).mpr (.inl hanswered))

def Resolving (s : State) : Prop := ∀ i, ∀ p ∈ (s.settlements i).writes, Resolves s.combined p.2 p.1

theorem Outcome.resolving (h : Outcome s e s' i) (hkept : Kept s) (hs : Resolving s)
    (hsafe : stillSafe s e = true) : Resolving s' := by
  have hnew : ∀ q, e = .write i → s.adds i = some q → ∀ id, Answered s.combined id q.2 → id = q.1 := by
    intro q he hadds id hanswered
    subst he
    rw [stillSafe, hadds] at hsafe
    exact only_target hsafe hanswered
  intro j p hp
  rw [resolves_iff]
  intro id'
  constructor
  · intro hanswered
    obtain hold | ⟨q, he, hadds, hid, hsame⟩ := h.combined_only hanswered
    · obtain hp | ⟨he, hadds⟩ := h.new_write hp
      · exact (resolves_iff.mp (hs j p hp) id').mp hold
      · exact hnew p he hadds id' hold
    · obtain hp | ⟨-, hadds'⟩ := h.new_write hp
      · rw [← hid]
        exact (hnew q he hadds p.1 ((Answered.congr hsame).mpr (hkept.answered hp))).symm
      · rw [← hid, Option.some.inj (hadds.symm.trans hadds')]
  · rintro rfl
    exact (h.kept hkept).answered hp

theorem careful_run (hrun : run s es = some s') (hcareful : careful s es = true) (hkept : Kept s)
    (hs : Resolving s) : Resolving s' := by
  induction es generalizing s with
  | nil =>
      obtain rfl := Option.some.inj hrun
      exact hs
  | cons e rest ih =>
      obtain ⟨s₁, hstep, hrun⟩ := Option.bind_eq_some_iff.mp hrun
      obtain ⟨i, houtcome⟩ := outcome hstep
      rw [careful, hstep, Option.all_some, Bool.and_eq_true] at hcareful
      exact ih hrun hcareful.2 (houtcome.kept hkept) (houtcome.resolving hkept hs hcareful.1)

def Fails (e : Event) : Prop := ∃ i, e = .fail i

theorem run_grows (hrun : run s es = some s') (hnone : ∀ e ∈ es, ¬ Fails e) :
    (∀ id name, Answered s.combined id name → Answered s'.combined id name) ∧
      ∀ i, ∀ p ∈ (s.settlements i).writes, p ∈ (s'.settlements i).writes := by
  induction es generalizing s with
  | nil =>
      obtain rfl := Option.some.inj hrun
      exact ⟨fun _ _ => id, fun _ _ => id⟩
  | cons e rest ih =>
      obtain ⟨s₁, hstep, hrun⟩ := Option.bind_eq_some_iff.mp hrun
      obtain ⟨i, houtcome⟩ := outcome hstep
      have hkept : e ≠ .fail i := fun he => hnone e List.mem_cons_self ⟨i, he⟩
      obtain ⟨hanswered, hwrites⟩ := ih hrun fun e he => hnone e (List.mem_cons_of_mem _ he)
      exact ⟨fun id name h => hanswered id name (houtcome.combined_grows hkept h),
        fun j p hp => hwrites j p (houtcome.writes_grow hkept hp)⟩

theorem written (hstep : step s (.write i) = some s₁) (hadds : s.adds i = some p) :
    p ∈ (s₁.settlements i).writes := by
  dsimp only [step] at hstep
  split at hstep
  · split at hstep
    · cases hstep
    · rw [hadds] at hstep
      obtain rfl := Option.some.inj hstep
      rw [put_same]
      exact List.mem_append_right _ (List.mem_singleton_self p)
  · cases hstep

/-- A write that is not safe any more leaves the token to two employees. -/
theorem stillSafe_of_resolving (hstep : step s e = some s₁) (hrun : run s₁ es = some s')
    (hnone : ∀ e' ∈ e :: es, ¬ Fails e') (hs : Resolving s') : stillSafe s e = true := by
  have hall : run s (e :: es) = some s' := by
    rw [run, hstep]
    exact hrun
  have hanswered := (run_grows hall hnone).1
  have hwrites := (run_grows hrun fun e he => hnone e (List.mem_cons_of_mem _ he)).2
  cases e with
  | write i =>
      rw [stillSafe]
      cases hadds : s.adds i with
      | none => rfl
      | some p =>
          have hp := hwrites i p (written hstep hadds)
          rw [Option.all_some, safeToLearnAlias_iff, resolves_iff]
          intro id'
          constructor
          · intro h
            obtain hold | ⟨rfl, -⟩ := (answered_rosterWithAliases (adds_append p.2)).mp h
            · exact (resolves_iff.mp (hs i p hp) id').mp (hanswered id' p.2 hold)
            · rfl
          · rintro rfl
            refine (answered_rosterWithAliases (adds_append p.2)).mpr (.inr ⟨rfl, ?_, rfl⟩)
            rw [State.combined, applyWrites_ids]
            exact adds_known hadds
  | _ => rfl

theorem careful_of_resolving (hrun : run s es = some s') (hnone : ∀ e ∈ es, ¬ Fails e)
    (hs : Resolving s') : careful s es = true := by
  induction es generalizing s with
  | nil => rfl
  | cons e rest ih =>
      obtain ⟨s₁, hstep, hrun⟩ := Option.bind_eq_some_iff.mp hrun
      rw [careful, hstep, Option.all_some, Bool.and_eq_true]
      exact ⟨stillSafe_of_resolving hstep hrun hnone hs, ih hrun fun e he => hnone e
        (List.mem_cons_of_mem _ he)⟩

omit [PyText] in
theorem combined_of_through (h : s.through) : s.combined = s.roster := by
  have hnone : ∀ i, s.pending i = [] := fun i => by
    rw [State.pending, h i]
    rfl
  rw [State.combined, hnone, hnone]
  rfl

theorem resolving_iff (h : s.through) : Resolving s ↔ LearnedResolve s := by
  rw [Resolving, LearnedResolve, combined_of_through h]

theorem kept_start (roster : Roster) (candidates : Side → AliasCandidates) :
    Kept (.start roster candidates) :=
  ⟨fun _ _ hp => (by cases hp), fun _ _ _ hp => (by cases hp)⟩

/-- After both settlements every alias they wrote resolves to the employee it
was learned for, if every write was still safe when it was made. Where neither
settlement was rolled back, it does only then. -/
theorem concurrent_learning (candidates : Side → AliasCandidates)
    (hrun : run (.start roster candidates) es = some s)
    (hthrough : s.through) : (careful (.start roster candidates) es = true → LearnedResolve s) ∧
      ((∀ e ∈ es, ¬ Fails e) → LearnedResolve s → careful (.start roster candidates) es = true) := by
  rw [← resolving_iff hthrough]
  refine ⟨fun hcareful => ?_, fun hnone hs => careful_of_resolving hrun hnone hs⟩
  exact careful_run hrun hcareful (kept_start roster candidates) fun _ _ hp => by cases hp

end

section Interleavings

attribute [local instance] asciiText

def reyesRoster : Roster :=
  ⟨[hourlyWorker 1 "david reyes".toList [], hourlyWorker 2 "daniel reyes".toList []], by decide⟩

def bothReyes : Side → AliasCandidates
  | .first => Dict.ofList [("d. reyes".toList, .record (some (.uuid 1)) (some (.uuid 1)))]
  | .second => Dict.ofList [("d. reyes".toList, .record (some (.uuid 2)) (some (.uuid 2)))]

def together : List Event :=
  [.read .first, .read .second, .check .first, .check .second, .write .first, .write .second,
    .read .first, .read .second, .commit .first, .commit .second]

def inTurn : List Event :=
  [.read .first, .check .first, .write .first, .read .first, .commit .first, .read .second,
    .check .second, .commit .second]

def isThrough (s : State) : Bool := !isOpen (s.settlements .first).phase && !isOpen
    (s.settlements .second).phase

theorem through_of_isThrough {s : State} (h : isThrough s = true) : s.through := by
  simp only [isThrough, Bool.and_eq_true, Bool.not_eq_true'] at h
  intro i
  cases i with
  | first => exact h.1
  | second => exact h.2

/-- Both settlements read the roster before either of them writes, and the name
resolves to nobody. -/
theorem collision_learned : ¬ ∀ (roster : Roster) (candidates : Side → AliasCandidates) (es : List Event) (s : State),
    run (.start roster candidates) es = some s → s.through → LearnedResolve s := by
  intro h
  have hany : (run (.start reyesRoster bothReyes) together).any (fun s => isThrough s &&
      decide ((1, "d. reyes".toList) ∈ (s.settlements .first).writes) &&
      (deterministicMatch "d. reyes".toList s.roster).isNone) = true := by decide +kernel
  obtain ⟨s, hrun, hs⟩ := (Option.any_eq_true ..).mp hany
  simp only [Bool.and_eq_true, decide_eq_true_eq, Option.isNone_iff_eq_none] at hs
  obtain ⟨⟨hthrough, hwrote⟩, hnone⟩ := hs
  have hresolves := resolves_iff_match.mp (h _ _ _ s hrun (through_of_isThrough hthrough) .first _ hwrote)
  rw [hnone] at hresolves
  cases hresolves

/-- The second settlement sees what the first one learned and leaves the name
alone. -/
theorem concurrent_learning_in_turn : ∃ s, run (.start reyesRoster bothReyes) inTurn = some s ∧
    Resolves s.roster "d. reyes".toList 1 := by
  have hany : (run (.start reyesRoster bothReyes) inTurn).any (fun s => isThrough s &&
      decide ((1, "d. reyes".toList) ∈ (s.settlements .first).writes)) = true := by decide +kernel
  have hcareful : careful (.start reyesRoster bothReyes) inTurn = true := by decide +kernel
  obtain ⟨s, hrun, hs⟩ := (Option.any_eq_true ..).mp hany
  simp only [Bool.and_eq_true, decide_eq_true_eq] at hs
  have hlearned : LearnedResolve s := (concurrent_learning bothReyes hrun
    (through_of_isThrough hs.1)).1 hcareful
  exact ⟨s, hrun, hlearned .first (1, "d. reyes".toList) hs.2⟩

end Interleavings

end PayrollAgent.ConcurrentLearning
