import PayrollAgent.Lib.Result
import PayrollAgent.Repo.GenerationRows

namespace PayrollAgent.GenerationRecords

open Lib AliasLearning Text Repo.GenerationRows

variable {collation : Str → Str → Bool} {id r : Uuid} {t t' : Tables} {db db' : Db} {name : Str}

theorem sameDict_iff {α β : Type} [DecidableEq α] [DecidableEq β] {d e : Dict α β} :
    sameDict d e = true ↔ ∀ k, d.get? k = e.get? k := by
  simp only [sameDict, List.all_eq_true, List.mem_append, decide_eq_true_eq]
  constructor
  · intro h k
    by_cases hk : k ∈ d.keys ∨ k ∈ e.keys
    · exact h k hk
    · rw [not_or] at hk
      rw [(Dict.get?_eq_none_iff d k).mpr hk.1, (Dict.get?_eq_none_iff e k).mpr hk.2]
  · exact fun h k _ => h k

theorem employeeIds_ok {posted : List (Str × Option Uuid)} {ids : List (Str × Uuid)}
    (h : employeeIds posted = .ok ids) :
    posted = ids.map (fun p => (p.1, some p.2)) ∧ ∀ p ∈ ids, split p.1 ≠ [] := by
  induction posted generalizing ids with
  | nil =>
      cases h
      exact ⟨rfl, by simp⟩
  | cons p rest ih =>
      obtain ⟨name, posted⟩ := p
      cases posted with
      | none => cases h
      | some employee =>
          rw [employeeIds] at h
          by_cases hblank : split name = []
          · rw [if_pos hblank] at h
            cases h
          · rw [if_neg hblank] at h
            cases hrest : employeeIds rest with
            | error e =>
                rw [hrest] at h
                cases h
            | ok others =>
                rw [hrest] at h
                obtain rfl := Except.ok.inj h
                obtain ⟨hmap, hnames⟩ := ih hrest
                exact ⟨by rw [hmap]; rfl, List.forall_mem_cons.mpr ⟨hblank, hnames⟩⟩

structure Normal (posted : Dict Str (Option Uuid)) (overrides : Dict Str Uuid) : Prop where
  some : ∀ name, posted.get? name = (overrides.get? name).map some
  inhabited : overrides.keys ≠ []
  named : ∀ name ∈ overrides.keys, split name ≠ []

theorem normalizeOverrides_ok {posted : Dict Str (Option Uuid)} {overrides : Dict Str Uuid}
    (h : normalizeOverrides posted = .ok overrides) : Normal posted overrides := by
  unfold normalizeOverrides at h
  split at h
  · cases h
  next hsome =>
    cases hids : employeeIds posted.entries with
    | error e =>
        rw [hids] at h
        cases h
    | ok ids =>
        rw [hids] at h
        obtain rfl := Except.ok.inj h
        obtain ⟨hmap, hnames⟩ := employeeIds_ok hids
        have hnodup : (ids.map Prod.fst).Nodup := by
          have hkeys := posted.nodup
          rw [hmap, List.map_map] at hkeys
          exact hkeys
        have hget : ∀ name employee, (Dict.ofList ids).get? name = some employee ↔
          (name, employee) ∈ ids := by
          intro name employee
          exact ⟨Dict.get?_ofList_mem, Dict.get?_ofList_of_nodup hnodup⟩
        have hkeys : ∀ name ∈ (Dict.ofList ids).keys, ∃ employee, (name, employee) ∈ ids := by
          intro name hname
          obtain ⟨employee, hemployee⟩ := (Dict.mem_keys_iff _ _).mp hname
          exact ⟨employee, (hget name employee).mp hemployee⟩
        refine ⟨fun name => ?_, fun hnil => ?_, fun name hname => ?_⟩
        · ext employee
          rw [Dict.get?_eq_some_iff, hmap, Option.map_eq_some_iff]
          simp only [List.mem_map, Prod.mk.injEq, hget]
          constructor
          · rintro ⟨p, hp, rfl, rfl⟩
            exact ⟨p.2, hp, rfl⟩
          · rintro ⟨employee, hp, rfl⟩
            exact ⟨_, hp, rfl, rfl⟩
        · cases ids with
          | nil =>
              rw [List.map_nil] at hmap
              exact hsome hmap
          | cons p rest =>
              have hmem : p.1 ∈ (Dict.ofList (p :: rest)).keys :=
                (Dict.mem_keys_iff _ _).mpr ⟨p.2, (hget _ _).mpr List.mem_cons_self⟩
              rw [hnil] at hmem
              cases hmem
        · obtain ⟨employee, hemployee⟩ := hkeys name hname
          exact hnames _ hemployee

theorem normalizeOverrides_of_normal {posted : Dict Str (Option Uuid)} {overrides : Dict Str Uuid}
    (h : Normal posted overrides) : ∃ overrides', normalizeOverrides posted = .ok overrides' := by
  have hname : ∀ p ∈ posted.entries, ∃ employee, p.2 = some employee ∧ split p.1 ≠ [] := by
    intro p hp
    have hget := (Dict.get?_eq_some_iff posted p.1 p.2).mpr hp
    rw [h.some, Option.map_eq_some_iff] at hget
    obtain ⟨employee, hemployee, hp2⟩ := hget
    exact ⟨employee, hp2.symm, h.named _ ((Dict.mem_keys_iff _ _).mpr ⟨employee, hemployee⟩)⟩
  have hids : ∃ ids, employeeIds posted.entries = .ok ids := by
    generalize posted.entries = entries at hname
    induction entries with
    | nil => exact ⟨[], rfl⟩
    | cons p rest ih =>
        obtain ⟨⟨employee, hp2, hsplit⟩, hrest⟩ := List.forall_mem_cons.mp hname
        obtain ⟨ids, hids⟩ := ih hrest
        obtain ⟨name, value⟩ := p
        obtain rfl : value = some employee := hp2
        exact ⟨(name, employee) :: ids, by rw [employeeIds, if_neg hsplit, hids]; rfl⟩
  obtain ⟨ids, hids⟩ := hids
  refine ⟨Dict.ofList ids, ?_⟩
  have hsome : posted.entries ≠ [] := by
    intro hnil
    obtain ⟨name, hmem⟩ := List.exists_mem_of_ne_nil _ h.inhabited
    obtain ⟨employee, hemployee⟩ := (Dict.mem_keys_iff _ _).mp hmem
    have hget := h.some name
    rw [hemployee, Dict.get?, hnil] at hget
    cases hget
  rw [normalizeOverrides, if_neg hsome, hids]
  rfl

theorem mem_childRows {child : OverrideRow} :
    (name, child) ∈ childRows collation id t ↔ t.overrides.get? (id, name) = some child := by
  rw [childRows, (List.perm_insertionSort _ _).mem_iff, Dict.get?_eq_some_iff]
  simp only [List.mem_map, List.mem_filter, decide_eq_true_eq, Prod.mk.injEq]
  constructor
  · rintro ⟨⟨⟨id', name'⟩, child'⟩, ⟨hmem, hid⟩, hname, hchild⟩
    simp only at hid hname hchild
    subst hid hname hchild
    exact hmem
  · intro hmem
    exact ⟨((id, name), child), ⟨hmem, rfl⟩, rfl, rfl⟩

theorem nodup_childRows : ((childRows collation id t).map Prod.fst).Nodup := by
  have hperm := (List.perm_insertionSort (fun a b : Str × OverrideRow => collation a.1 b.1)
    ((t.overrides.entries.filter fun e => e.1.1 = id).map fun e => (e.1.2, e.2))).map Prod.fst
  refine hperm.nodup_iff.mpr ?_
  rw [List.map_map]
  have hkeys := t.overrides.nodup.sublist ((List.filter_sublist
    (p := fun e => decide (e.1.1 = id))).map Prod.fst)
  have hsame : ∀ e ∈ t.overrides.entries.filter fun e => e.1.1 = id, e.1.1 = id :=
    fun e he => of_decide_eq_true (List.mem_filter.mp he).2
  generalize t.overrides.entries.filter (fun e => decide (e.1.1 = id)) = entries at hkeys hsame
  induction entries with
  | nil => exact List.nodup_nil
  | cons e rest ih =>
      rw [List.map_cons, List.nodup_cons] at hkeys ⊢
      obtain ⟨he, hrest⟩ := List.forall_mem_cons.mp hsame
      refine ⟨fun hmem => hkeys.1 ?_, ih hkeys.2 hrest⟩
      obtain ⟨e', he', hname⟩ := List.mem_map.mp hmem
      refine List.mem_map.mpr ⟨e', he', Prod.ext ?_ hname⟩
      exact (hrest e' he').trans he.symm

theorem gather_children {row : ResolutionRow} {children : List (Str × OverrideRow)}
    {d : Dict Str OverrideRow}
    (hnodup : (children.map Prod.fst).Nodup) (hnew : ∀ p ∈ children, p.1 ∉ d.keys)
    (hnamed : ∀ p ∈ children, split p.1 ≠ []) :
    ∃ d', gather (children.map fun child => ⟨row, some child⟩) d = .ok d' ∧
      ∀ name child, d'.get? name = some child ↔ (name, child) ∈ children ∨ d.get? name = some child := by
  induction children generalizing d with
  | nil => exact ⟨d, rfl, by simp⟩
  | cons p rest ih =>
      obtain ⟨name, child⟩ := p
      rw [List.map_cons, List.nodup_cons] at hnodup
      obtain ⟨hpnew, hrestnew⟩ := List.forall_mem_cons.mp hnew
      obtain ⟨hpnamed, hrestnamed⟩ := List.forall_mem_cons.mp hnamed
      have hfresh : ∀ q ∈ rest, q.1 ∉ (d.set name child).keys := by
        intro q hq hmem
        rw [Dict.mem_keys_iff] at hmem
        obtain ⟨v, hv⟩ := hmem
        rw [Dict.get?_set] at hv
        split at hv
        next heq => exact hnodup.1 (List.mem_map.mpr ⟨q, hq, heq⟩)
        · exact hrestnew q hq ((Dict.mem_keys_iff _ _).mpr ⟨v, hv⟩)
      obtain ⟨d', hgather, hget⟩ := ih hnodup.2 hfresh hrestnamed
      refine ⟨d', ?_, fun name' child' => ?_⟩
      · rw [List.map_cons, gather, if_neg (not_or.mpr ⟨hpnamed, hpnew⟩), hgather]
      · rw [hget, Dict.get?_set, List.mem_cons, Prod.mk.injEq]
        by_cases hname : name' = name
        · subst hname
          have hout : ∀ child', (name', child') ∉ rest := fun child' hmem =>
            hnodup.1 (List.mem_map.mpr ⟨_, hmem, rfl⟩)
          have hnone : d.get? name' = none := (Dict.get?_eq_none_iff _ _).mpr hpnew
          simp [hout, hnone, eq_comm]
        · simp [hname]

/-- A generation with its override rows: each of its names is there with a row
of its own and no other name. -/
structure Complete (t : Tables) (id : Uuid) (row : ResolutionRow) : Prop where
  parent : t.resolutions.get? id = some row
  inhabited : ∃ name child, t.overrides.get? (id, name) = some child
  named : ∀ name child, t.overrides.get? (id, name) = some child → split name ≠ []

variable (collation) in
theorem Complete.rows {row : ResolutionRow} (h : Complete t id row) :
    loadGenerationRows collation id t = (childRows collation id t).map (fun child => ⟨row, some child⟩) ∧
      childRows collation id t ≠ [] := by
  obtain ⟨name, child, hchild⟩ := h.inhabited
  have hsome : childRows collation id t ≠ [] := List.ne_nil_of_mem (mem_childRows.mpr hchild)
  rw [loadGenerationRows, h.parent]
  exact ⟨if_neg hsome, hsome⟩

variable (collation) in
theorem Complete.gather {row : ResolutionRow} (h : Complete t id row) :
    ∃ d, gather (loadGenerationRows collation id t) .empty = .ok d ∧
      ∀ name, d.get? name = t.overrides.get? (id, name) := by
  obtain ⟨hrows, -⟩ := h.rows collation
  rw [hrows]
  obtain ⟨d, hgather, hget⟩ := @gather_children row (childRows collation id t) Dict.empty nodup_childRows
    (fun p _ => by simp [Dict.empty, Dict.keys]) fun p hp => h.named p.1 p.2 (mem_childRows.mp hp)
  refine ⟨d, hgather, fun name => ?_⟩
  ext child
  rw [hget, mem_childRows]
  simp

variable (collation) in
theorem Complete.load {row : ResolutionRow} (h : Complete t id row) :
    (∃ m, loadOperatorResumeResolution collation row.runId id t = .ok m ∧
      ∀ name, m.get? name = (t.overrides.get? (id, name)).map OverrideRow.employeeId) ∧
    ∀ r, r ≠ row.runId → loadOperatorResumeResolution collation r id t = .error .value := by
  obtain ⟨hrows, hsome⟩ := h.rows collation
  obtain ⟨d, hgather, hget⟩ := h.gather collation
  constructor
  · have hall : loadMappingRows collation row.runId id t = loadGenerationRows collation id t := by
      rw [loadMappingRows, hrows, List.filter_eq_self]
      intro joined hjoined
      obtain ⟨child, -, rfl⟩ := List.mem_map.mp hjoined
      simp
    have hnonempty : loadGenerationRows collation id t ≠ [] := by
      rw [hrows]
      simpa using hsome
    refine ⟨employees d, ?_, fun name => ?_⟩
    · rw [loadOperatorResumeResolution, mappingFromRows, hall, if_neg hnonempty, hgather]
      rfl
    · rw [employees, Dict.get?_mapValues, hget]
  · intro r hr
    have hnone : loadMappingRows collation r id t = [] := by
      rw [loadMappingRows, hrows, List.filter_eq_nil_iff]
      intro joined hjoined
      obtain ⟨child, -, rfl⟩ := List.mem_map.mp hjoined
      simpa using Ne.symm hr
    rw [loadOperatorResumeResolution, hnone]
    rfl

variable (collation) in
theorem Complete.stored {row : ResolutionRow} {winner : Uuid} (h : Complete t id row)
    (hwinner : winnerOf id row = .ok winner) :
    ∃ g, storedGeneration (loadGenerationRows collation id t) id = .ok g ∧ g.runId = row.runId ∧
      g.authoritative = row.authoritative ∧ g.winnerId = winner ∧
      (∀ name, g.overrides.get? name = (t.overrides.get? (id, name)).map OverrideRow.employeeId) ∧
      ∀ name, g.remember.get? name = (t.overrides.get? (id, name)).map OverrideRow.remember := by
  obtain ⟨hrows, hsome⟩ := h.rows collation
  obtain ⟨d, hgather, hget⟩ := h.gather collation
  refine ⟨⟨row.runId, row.authoritative, winner, employees d, choices d⟩, ?_, rfl, rfl, rfl,
    fun name => ?_, fun name => ?_⟩
  · rw [hrows] at hgather ⊢
    cases hchildren : childRows collation id t with
    | nil => exact absurd hchildren hsome
    | cons child rest =>
        rw [hchildren] at hgather
        rw [List.map_cons] at hgather ⊢
        simp only [storedGeneration, hgather]
        simp [Bind.bind, Except.bind, hwinner, Pure.pure, Except.pure]
  · rw [employees, Dict.get?_mapValues, hget]
  · rw [choices, Dict.get?_mapValues, hget]

theorem insertOverrides_ok {remember : Str → Bool} {ids : List (Str × Uuid)}
    {d d' : Dict (Uuid × Str) OverrideRow}
    (hnodup : (ids.map Prod.fst).Nodup) (h : insertOverrides id remember ids d = .ok d') :
    ∀ i name child, d'.get? (i, name) = some child ↔
      (i = id ∧ ∃ employee, (name, employee) ∈ ids ∧ child = ⟨employee, remember name⟩) ∨
        d.get? (i, name) = some child := by
  induction ids generalizing d with
  | nil =>
      cases h
      simp
  | cons p rest ih =>
      obtain ⟨name₀, employee₀⟩ := p
      rw [List.map_cons, List.nodup_cons] at hnodup
      rw [insertOverrides] at h
      split at h
      · cases h
      next hnew =>
        intro i name child
        rw [ih hnodup.2 h, Dict.get?_set]
        have hout : ∀ employee, (name₀, employee) ∉ rest := fun employee hmem =>
          hnodup.1 (List.mem_map.mpr ⟨_, hmem, rfl⟩)
        have hnone : d.get? (id, name₀) = none := (Dict.get?_eq_none_iff _ _).mpr hnew
        by_cases hkey : (i, name) = (id, name₀)
        · obtain ⟨rfl, rfl⟩ := Prod.mk.inj hkey
          simp [hout, hnone, eq_comm]
        · rw [if_neg hkey]
          have hother : i = id → name ≠ name₀ := fun hi hname => hkey (by rw [hi, hname])
          simp only [List.mem_cons, Prod.mk.injEq]
          constructor
          · rintro (⟨hi, employee, hmem, hchild⟩ | hold)
            · exact .inl ⟨hi, employee, .inr hmem, hchild⟩
            · exact .inr hold
          · rintro (⟨hi, employee, ⟨hname, -⟩ | hmem, hchild⟩ | hold)
            · exact absurd hname (hother hi)
            · exact .inl ⟨hi, employee, hmem, hchild⟩
            · exact .inr hold

theorem insertOverrides_of_new {remember : Str → Bool} {ids : List (Str × Uuid)}
    {d : Dict (Uuid × Str) OverrideRow}
    (hnodup : (ids.map Prod.fst).Nodup) (hnew : ∀ p ∈ ids, d.get? (id, p.1) = none) :
    ∃ d', insertOverrides id remember ids d = .ok d' := by
  induction ids generalizing d with
  | nil => exact ⟨d, rfl⟩
  | cons p rest ih =>
      obtain ⟨name, employee⟩ := p
      rw [List.map_cons, List.nodup_cons] at hnodup
      obtain ⟨hp, hrest⟩ := List.forall_mem_cons.mp hnew
      rw [insertOverrides, if_neg ((Dict.get?_eq_none_iff _ _).mp hp)]
      refine ih hnodup.2 fun q hq => ?_
      have hne : (id, q.1) ≠ (id, name) := by
        intro heq
        exact hnodup.1 (List.mem_map.mpr ⟨q, hq, (Prod.mk.inj heq).2⟩)
      rw [Dict.get?_set_of_ne _ hne]
      exact hrest q hq

theorem mem_byName {overrides : Dict Str Uuid} {employee : Uuid} :
    (name, employee) ∈ byName overrides ↔ overrides.get? name = some employee := by
  rw [byName, (List.perm_insertionSort _ _).mem_iff, Dict.get?_eq_some_iff]

theorem nodup_byName (overrides : Dict Str Uuid) : ((byName overrides).map Prod.fst).Nodup :=
  ((List.perm_insertionSort (fun a b : Str × Uuid => codePointLe a.1 b.1) overrides.entries).map
    Prod.fst).nodup_iff.mpr overrides.nodup

structure Inserted (id : Uuid) (row : ResolutionRow) (overrides : Dict Str Uuid) (remember : Str → Bool)
    (t t' : Tables) : Prop where
  resolutions : t'.resolutions = t.resolutions.set id row
  overrides : ∀ i name child, t'.overrides.get? (i, name) = some child ↔
    (i = id ∧ ∃ employee, overrides.get? name = some employee ∧ child = ⟨employee, remember name⟩) ∨
      t.overrides.get? (i, name) = some child

theorem inserted_of_ok {row : ResolutionRow} {overrides : Dict Str Uuid} {remember : Str → Bool}
    (h : insertGeneration id row overrides remember t = .ok t') :
    Inserted id row overrides remember t t' := by
  unfold insertGeneration at h
  split at h
  · cases hchildren : insertOverrides id remember (byName overrides) t.overrides with
    | error e =>
        rw [hchildren] at h
        cases h
    | ok children =>
        rw [hchildren] at h
        obtain rfl := Except.ok.inj h
        refine ⟨rfl, fun i name child => ?_⟩
        simpa only [mem_byName] using insertOverrides_ok (nodup_byName overrides) hchildren i name child
  · cases h

structure Sound (t : Tables) : Prop where
  parents : ∀ i name child, t.overrides.get? (i, name) = some child → t.resolutions.get? i ≠ none
  one : ∀ i j a b, t.resolutions.get? i = some a → t.resolutions.get? j = some b →
    a.authoritative = true → b.authoritative = true → a.runId = b.runId → i = j

structure Kept (t : Tables) (r id : Uuid) (overrides : Dict Str Uuid) (remember : Dict Str Bool)
    (s : Submission) : Prop where
  complete : ∃ row, Complete t id row ∧ row.runId = r ∧ row.authoritative = s.authoritative ∧
    winnerOf id row = .ok s.winnerId
  children : ∀ name, t.overrides.get? (id, name) =
    (overrides.get? name).map fun employee => ⟨employee, (remember.get? name).getD false⟩
  winner : ∃ row, t.resolutions.get? s.winnerId = some row ∧ row.runId = r ∧ row.authoritative = true
  named : s.resolutionId = id

section

variable {row : ResolutionRow} {overrides overrides' : Dict Str Uuid} {remember : Str → Bool}
  {choices : Dict Str Bool} {s : Submission}

theorem Kept.inserted {i : Uuid} (h : Kept t r i overrides choices s)
    (hnew : t.resolutions.get? id = none)
    (hin : Inserted id row overrides' remember t t') : Kept t' r i overrides choices s := by
  have hkeep : ∀ j row, t.resolutions.get? j = some row → t'.resolutions.get? j = some row := by
    intro j row hrow
    have hne : j ≠ id := by
      rintro rfl
      rw [hnew] at hrow
      cases hrow
    rw [hin.resolutions, Dict.get?_set_of_ne _ hne, hrow]
  obtain ⟨row, hcomplete, hrun, hauth, hwinner⟩ := h.complete
  have hne : i ≠ id := by
    rintro rfl
    rw [hcomplete.parent] at hnew
    cases hnew
  have hsame : ∀ name, t'.overrides.get? (i, name) = t.overrides.get? (i, name) := by
    intro name
    ext child
    rw [hin.overrides]
    simp [hne]
  refine ⟨⟨row, ⟨hkeep i row hcomplete.parent, ?_, ?_⟩, hrun, hauth, hwinner⟩, fun name => ?_, ?_,
    h.named⟩
  · obtain ⟨name, child, hchild⟩ := hcomplete.inhabited
    exact ⟨name, child, by rw [hsame, hchild]⟩
  · intro name child hchild
    rw [hsame] at hchild
    exact hcomplete.named name child hchild
  · rw [hsame, h.children]
  · obtain ⟨row, hrow, hrun, hauth⟩ := h.winner
    exact ⟨row, hkeep _ row hrow, hrun, hauth⟩

theorem Sound.inserted (h : Sound t)
    (hin : Inserted id row overrides remember t t')
    (hone : row.authoritative = true → ∀ i a, t.resolutions.get? i = some a → a.authoritative = true →
      a.runId ≠ row.runId) : Sound t' := by
  constructor
  · intro i name child hchild
    rw [hin.resolutions, Dict.get?_set]
    split
    · simp
    next hne =>
      rw [hin.overrides] at hchild
      obtain ⟨hi, -⟩ | hold := hchild
      · exact absurd hi hne
      · exact h.parents i name child hold
  · intro i j a b ha hb hauth hauth' hrun
    rw [hin.resolutions, Dict.get?_set] at ha hb
    split at ha
    next hi =>
      cases ha
      split at hb
      next hj => rw [hi, hj]
      · exact absurd hrun.symm (hone hauth j b hb hauth')
    · split at hb
      · cases hb
        exact absurd hrun (hone hauth' i a ha hauth)
      · exact h.one i j a b ha hb hauth hauth' hrun

end

theorem loadGenerationRows_eq_nil : loadGenerationRows collation id t = [] ↔
    t.resolutions.get? id = none := by
  unfold loadGenerationRows
  cases t.resolutions.get? id with
  | none => simp
  | some row =>
      dsimp only
      split
      · simp
      next hsome => simp [hsome]

inductive CommitCase (collation : Str → Str → Bool) (r id : Uuid) (overrides : Dict Str Uuid)
    (remember : Dict Str Bool) (t : Tables) : Submission → Tables → Prop
  | first {t' : Tables} (hnew : t.resolutions.get? id = none)
      (hin : insertGeneration id ⟨r, authoritativeRow r t = none, authoritativeRow r t⟩ overrides
        (fun name => (remember.get? name).getD false) t = .ok t') :
      CommitCase collation r id overrides remember t
        ⟨id, authoritativeRow r t = none, (authoritativeRow r t).getD id⟩ t'
  | again {existing : StoredGeneration} (hold : t.resolutions.get? id ≠ none)
      (hexisting : storedGeneration (loadGenerationRows collation id t) id = .ok existing)
      (hrun : existing.runId = r)
      (hoverrides : ∀ name, existing.overrides.get? name = overrides.get? name)
      (hremember : ∀ name, existing.remember.get? name = remember.get? name) :
      CommitCase collation r id overrides remember t (submission id existing) t

variable {posted : Dict Str (Option Uuid)} {remember : Dict Str Bool} {s : Submission}

theorem commit_ok (h : commitOperatorResumeResolution collation r id posted remember db t = .ok (s, t')) :
    ∃ overrides, Normal posted overrides ∧ (∀ name, name ∈ remember.keys ↔ name ∈ overrides.keys) ∧
      (∃ x, lockedRun r db = .ok x) ∧ CommitCase collation r id overrides remember t s t' := by
  unfold commitOperatorResumeResolution at h
  obtain ⟨overrides, hposted, h⟩ := Result.bind_ok.mp h
  obtain ⟨remember', hremember, h⟩ := Result.bind_ok.mp h
  obtain ⟨⟨run, decision⟩, hlocked, h⟩ := Result.bind_ok.mp h
  unfold normalizeRemember at hremember
  split at hremember
  next hchoices =>
    obtain rfl := Except.ok.inj hremember
    refine ⟨overrides, normalizeOverrides_ok hposted, fun name => ⟨hchoices.2.1 name, hchoices.2.2 name⟩,
      ⟨_, hlocked⟩, ?_⟩
    dsimp only at h
    split at h
    next hnew =>
      split at h
      · obtain ⟨_, -, h⟩ := Result.bind_ok.mp h
        obtain ⟨t₁, hin, h⟩ := Result.bind_ok.mp h
        obtain ⟨rfl, rfl⟩ := Prod.mk.inj (Except.ok.inj h)
        exact .first (loadGenerationRows_eq_nil.mp hnew) hin
      · cases h
    next hold =>
      obtain ⟨existing, hexisting, h⟩ := Result.bind_ok.mp h
      split at h
      next hsame =>
        obtain ⟨rfl, rfl⟩ := Prod.mk.inj (Except.ok.inj h)
        obtain ⟨hrun, hoverrides, hremember⟩ := hsame
        exact .again (fun hnone => hold (loadGenerationRows_eq_nil.mpr hnone)) hexisting hrun
          (sameDict_iff.mp hoverrides) (sameDict_iff.mp hremember)
      · cases h
  · cases hremember

theorem authoritativeRow_some {winner : Uuid} (h : authoritativeRow r t = some winner) :
    ∃ row, t.resolutions.get? winner = some row ∧ row.runId = r ∧ row.authoritative = true := by
  obtain ⟨⟨winner', row⟩, hselect, rfl⟩ := Option.map_eq_some_iff.mp h
  obtain ⟨hrow, hp⟩ := Dict.select_some hselect
  simp only [decide_eq_true_eq] at hp
  exact ⟨row, hrow, hp⟩

theorem authoritativeRow_none (h : authoritativeRow r t = none) {i : Uuid} {row : ResolutionRow}
    (hrow : t.resolutions.get? i = some row) (hauth : row.authoritative = true) : row.runId ≠ r := by
  have hother := Dict.select_none.mp (Option.map_eq_none_iff.mp h) i row hrow
  intro hrun
  simp [hrun, hauth] at hother

theorem authoritativeRow_eq (hsound : Sound t) {i : Uuid} {row : ResolutionRow}
    (hrow : t.resolutions.get? i = some row)
    (hauth : row.authoritative = true) : authoritativeRow row.runId t = some i := by
  cases h : authoritativeRow row.runId t with
  | none => exact absurd rfl (authoritativeRow_none h hrow hauth)
  | some winner =>
      obtain ⟨row', hrow', hrun, hauth'⟩ := authoritativeRow_some h
      rw [hsound.one winner i row' row hrow' hrow hauth' hauth hrun]

theorem kept_of_first {overrides : Dict Str Uuid} (hsound : Sound t) (hnormal : Normal posted overrides)
    (hnew : t.resolutions.get? id = none)
    (hin : Inserted id ⟨r, authoritativeRow r t = none, authoritativeRow r t⟩ overrides
      (fun name => (remember.get? name).getD false) t t') :
    Kept t' r id overrides remember ⟨id, authoritativeRow r t = none,
      (authoritativeRow r t).getD id⟩ := by
  have hchildren : ∀ name, t'.overrides.get? (id, name) =
      (overrides.get? name).map fun employee => ⟨employee, (remember.get? name).getD false⟩ := by
    intro name
    have hold : ∀ child, t.overrides.get? (id, name) ≠ some child := fun child hchild =>
      hsound.parents id name child hchild hnew
    ext child
    rw [hin.overrides, Option.map_eq_some_iff]
    simp [hold, eq_comm]
  have hparent : t'.resolutions.get? id = some ⟨r, authoritativeRow r t = none,
    authoritativeRow r t⟩ := by
    rw [hin.resolutions, Dict.get?_set_self]
  refine ⟨⟨_, ⟨hparent, ?_, ?_⟩, rfl, rfl, ?_⟩, hchildren, ?_, rfl⟩
  · obtain ⟨name, hname⟩ := List.exists_mem_of_ne_nil _ hnormal.inhabited
    obtain ⟨employee, hemployee⟩ := (Dict.mem_keys_iff _ _).mp hname
    exact ⟨name, _, by rw [hchildren, hemployee]; rfl⟩
  · intro name child hchild
    rw [hchildren] at hchild
    obtain ⟨employee, hemployee, -⟩ := Option.map_eq_some_iff.mp hchild
    exact hnormal.named name ((Dict.mem_keys_iff _ _).mpr ⟨employee, hemployee⟩)
  · cases hwinner : authoritativeRow r t with
    | none => simp [winnerOf]
    | some winner =>
        obtain ⟨row, hrow, -, -⟩ := authoritativeRow_some hwinner
        have hne : winner ≠ id := by
          rintro rfl
          rw [hnew] at hrow
          cases hrow
        simp [winnerOf, hne]
  · cases hwinner : authoritativeRow r t with
    | none =>
        rw [hwinner] at hparent
        exact ⟨_, hparent, rfl, by simp⟩
    | some winner =>
        obtain ⟨row, hrow, hrun, hauth⟩ := authoritativeRow_some hwinner
        have hne : winner ≠ id := by
          rintro rfl
          rw [hnew] at hrow
          cases hrow
        refine ⟨row, ?_, hrun, hauth⟩
        change t'.resolutions.get? winner = some row
        rw [hin.resolutions, Dict.get?_set_of_ne _ hne, hrow]

/-- A call of the repository over whatever the rest of the database is then. The
cutover procedure closes and opens the fence. -/
inductive Call
  | commit (r id : Uuid) (posted : Dict Str (Option Uuid)) (remember : Dict Str Bool) (db : Db)
  | create (r id : Uuid) (posted : Dict Str (Option Uuid)) (db : Db)
  | fence (writesOpen : Bool)

structure Committed where
  runId : Uuid
  id : Uuid
  posted : Dict Str (Option Uuid)
  remember : Dict Str Bool
  submission : Submission

structure Records where
  tables : Tables
  answered : List Committed

def step (collation : Str → Str → Bool) (records : Records) : Call → Records
  | .commit r id posted remember db =>
      match commitOperatorResumeResolution collation r id posted remember db records.tables with
      | .ok (s, t) => ⟨t, ⟨r, id, posted, remember, s⟩ :: records.answered⟩
      | .error _ => records
  | .create r id posted db =>
      match createOperatorResumeResolution collation r id posted db records.tables with
      | .ok t => { records with tables := t }
      | .error _ => records
  | .fence writesOpen => { records with tables := { records.tables with writesOpen := writesOpen } }

def recordsAfter (collation : Str → Str → Bool) (calls : List Call) : Records :=
  calls.foldl (step collation) ⟨⟨.empty, .empty, true⟩, []⟩

def Committed.Stands (c : Committed) (t : Tables) : Prop :=
  ∃ overrides, Normal c.posted overrides ∧ (∀ name, name ∈ c.remember.keys ↔ name ∈ overrides.keys) ∧
    Kept t c.runId c.id overrides c.remember c.submission

/-- A row that no commit was answered for is one of the legacy writer. -/
structure Inv (records : Records) : Prop where
  sound : Sound records.tables
  stands : ∀ c ∈ records.answered, c.Stands records.tables
  known : ∀ i row, records.tables.resolutions.get? i = some row →
    row = ⟨row.runId, false, none⟩ ∨ ∃ c ∈ records.answered, c.id = i

variable {overrides : Dict Str Uuid} {c c' : Committed} {records : Records}

theorem Kept.remember_eq (h : Kept t r id overrides remember s)
    (hchoices : ∀ name, name ∈ remember.keys ↔ name ∈ overrides.keys) (name : Str) :
    (t.overrides.get? (id, name)).map OverrideRow.remember = remember.get? name := by
  rw [h.children]
  cases hname : overrides.get? name with
  | none =>
      have hnone : name ∉ remember.keys := fun hmem => (Dict.get?_eq_none_iff _ _).mp hname
        ((hchoices name).mp hmem)
      rw [(Dict.get?_eq_none_iff _ _).mpr hnone]
      rfl
  | some employee =>
      obtain ⟨choice, hchoice⟩ :=
        (Dict.mem_keys_iff _ _).mp ((hchoices name).mpr ((Dict.mem_keys_iff _ _).mpr ⟨employee, hname⟩))
      rw [hchoice]
      rfl

theorem Kept.overrides_eq (h : Kept t r id overrides remember s) (name : Str) :
    (t.overrides.get? (id, name)).map OverrideRow.employeeId = overrides.get? name := by
  rw [h.children, Option.map_map]
  exact Option.map_id'

variable (collation) in
theorem Kept.stored (h : Kept t r id overrides remember s)
    (hchoices : ∀ name, name ∈ remember.keys ↔ name ∈ overrides.keys) :
    ∃ g, storedGeneration (loadGenerationRows collation id t) id = .ok g ∧ g.runId = r ∧
      submission id g = s ∧
      (∀ name, g.overrides.get? name = overrides.get? name) ∧
      ∀ name, g.remember.get? name = remember.get? name := by
  obtain ⟨row, hcomplete, hrun, hauth, hwinner⟩ := h.complete
  obtain ⟨g, hg, hgrun, hgauth, hgwinner, hgoverrides, hgremember⟩ := hcomplete.stored collation hwinner
  refine ⟨g, hg, hgrun.trans hrun, ?_, fun name => ?_, fun name => ?_⟩
  · have hid := h.named
    obtain ⟨sid, sauth, swinner⟩ := s
    obtain rfl : sid = id := hid
    simp [submission, hgauth, hauth, hgwinner]
  · rw [hgoverrides, h.overrides_eq]
  · rw [hgremember, h.remember_eq hchoices]

theorem Kept.congr {overrides' : Dict Str Uuid} {remember' : Dict Str Bool}
    (h : Kept t r id overrides remember s)
    (hoverrides : ∀ name, overrides'.get? name = overrides.get? name)
    (hremember : ∀ name, remember'.get? name = remember.get? name) : Kept t r id overrides' remember' s :=
  { h with children := fun name => by rw [h.children, hoverrides, hremember] }

theorem winner_of_stored {g : StoredGeneration}
    (h : storedGeneration (loadGenerationRows collation id t) id = .ok g) :
    ∃ row winner, t.resolutions.get? id = some row ∧ winnerOf id row = .ok winner := by
  cases hrow : t.resolutions.get? id with
  | none =>
      rw [loadGenerationRows_eq_nil.mpr hrow] at h
      cases h
  | some row =>
      have hhead : ∃ rest override, loadGenerationRows collation id t = ⟨row, override⟩ :: rest := by
        rw [loadGenerationRows, hrow]
        dsimp only
        split
        · exact ⟨[], none, rfl⟩
        next hsome =>
          cases hchildren : childRows collation id t with
          | nil => exact absurd hchildren hsome
          | cons child rest => exact ⟨_, _, rfl⟩
      obtain ⟨rest, override, hhead⟩ := hhead
      rw [hhead, storedGeneration] at h
      obtain ⟨d, -, h⟩ := Result.bind_ok.mp h
      split at h
      · obtain ⟨winner, hwinner, -⟩ := Result.bind_ok.mp h
        exact ⟨row, winner, rfl, hwinner⟩
      · cases h

theorem Committed.Stands.again {c : Committed} (h : c.Stands t) (hnormal : Normal posted overrides)
    {existing : StoredGeneration}
    (hexisting : storedGeneration (loadGenerationRows collation c.id t) c.id = .ok existing)
    (hoverrides : ∀ name, existing.overrides.get? name = overrides.get? name)
    (hremember : ∀ name, existing.remember.get? name = remember.get? name) :
    existing.runId = c.runId ∧ Repo.GenerationRows.submission c.id existing = c.submission ∧
      (∀ name, posted.get? name = c.posted.get? name) ∧
      (∀ name, remember.get? name = c.remember.get? name) ∧
        Kept t c.runId c.id overrides remember c.submission := by
  obtain ⟨overrides₀, hnormal₀, hchoices₀, hkept⟩ := h
  obtain ⟨g, hg, hrun, hsubmission, hgoverrides, hgremember⟩ := hkept.stored collation hchoices₀
  obtain rfl := Except.ok.inj (hexisting.symm.trans hg)
  have hsame : ∀ name, overrides.get? name = overrides₀.get? name := fun name =>
    (hoverrides name).symm.trans (hgoverrides name)
  have hchosen : ∀ name, remember.get? name = c.remember.get? name := fun name =>
    (hremember name).symm.trans (hgremember name)
  refine ⟨hrun, hsubmission, fun name => ?_, hchosen, hkept.congr hsame hchosen⟩
  rw [hnormal.some, hnormal₀.some, hsame]

theorem inv_commit {db : Db} (hinv : Inv records)
    (h : commitOperatorResumeResolution collation r id posted remember db records.tables = .ok (s, t')) :
    Inv ⟨t', ⟨r, id, posted, remember, s⟩ :: records.answered⟩ := by
  obtain ⟨overrides, hnormal, hchoices, -, hcase⟩ := commit_ok h
  cases hcase with
  | first hnew hin =>
      have hinserted := inserted_of_ok hin
      have hkept := kept_of_first hinv.sound hnormal hnew hinserted
      refine ⟨hinv.sound.inserted hinserted fun hauth i a ha hauth' => ?_,
        List.forall_mem_cons.mpr ⟨?_, fun c hc => ?_⟩, fun i row hrow => ?_⟩
      · exact authoritativeRow_none (of_decide_eq_true hauth) ha hauth'
      · exact ⟨overrides, hnormal, hchoices, hkept⟩
      · obtain ⟨overrides', hnormal', hchoices', hkept'⟩ := hinv.stands c hc
        exact ⟨overrides', hnormal', hchoices', hkept'.inserted hnew hinserted⟩
      · rw [hinserted.resolutions, Dict.get?_set] at hrow
        split at hrow
        next hi => exact .inr ⟨_, List.mem_cons_self, hi.symm⟩
        · obtain hlegacy | ⟨c, hc, hid⟩ := hinv.known i row hrow
          · exact .inl hlegacy
          · exact .inr ⟨c, List.mem_cons_of_mem _ hc, hid⟩
  | again hold hexisting hrun hoverrides hremember =>
      obtain ⟨row, winner, hrow, hwinner⟩ := winner_of_stored hexisting
      obtain hlegacy | ⟨c, hc, rfl⟩ := hinv.known id row hrow
      · rw [hlegacy] at hwinner
        cases hwinner
      · obtain ⟨hrun', hsubmission, -, -, hkept⟩ :=
        (hinv.stands c hc).again hnormal hexisting hoverrides hremember
        obtain rfl : c.runId = r := hrun'.symm.trans hrun
        rw [hsubmission]
        refine ⟨hinv.sound, List.forall_mem_cons.mpr ⟨⟨overrides, hnormal, hchoices, hkept⟩,
          hinv.stands⟩, fun i row hrow => ?_⟩
        obtain hlegacy | ⟨c', hc', hid⟩ := hinv.known i row hrow
        · exact .inl hlegacy
        · exact .inr ⟨c', List.mem_cons_of_mem _ hc', hid⟩

theorem inv_create {db : Db} (hinv : Inv records)
    (h : createOperatorResumeResolution collation r id posted db records.tables = .ok t') :
    Inv { records with tables := t' } := by
  unfold createOperatorResumeResolution at h
  obtain ⟨overrides, -, h⟩ := Result.bind_ok.mp h
  split at h
  · split at h
    · obtain ⟨existing, -, h⟩ := Result.bind_ok.mp h
      split at h
      · cases h
        exact hinv
      · cases h
    next hnew =>
      split at h
      · have hinserted := inserted_of_ok h
        refine ⟨hinv.sound.inserted hinserted fun hauth => (by cases hauth), fun c hc => ?_,
          fun i row hrow => ?_⟩
        · obtain ⟨overrides', hnormal', hchoices', hkept'⟩ := hinv.stands c hc
          exact ⟨overrides', hnormal', hchoices', hkept'.inserted hnew hinserted⟩
        · rw [hinserted.resolutions, Dict.get?_set] at hrow
          split at hrow
          · cases hrow
            exact .inl rfl
          · exact hinv.known i row hrow
      · cases h
  · cases h

theorem inv_step (hinv : Inv records) (call : Call) : Inv (step collation records call) := by
  cases call with
  | commit r id posted remember db =>
      dsimp only [step]
      split
      next h => exact inv_commit hinv h
      · exact hinv
  | create r id posted db =>
      dsimp only [step]
      split
      next h => exact inv_create hinv h
      · exact hinv
  | fence writesOpen =>
      have hkept : ∀ {r id overrides remember s}, Kept records.tables r id overrides remember s →
          Kept { records.tables with writesOpen := writesOpen } r id overrides remember s := by
        intro r id overrides remember s h
        obtain ⟨row, ⟨hparent, hinhabited, hnamed⟩, hrow⟩ := h.complete
        exact ⟨⟨row, ⟨hparent, hinhabited, hnamed⟩, hrow⟩, h.children, h.winner, h.named⟩
      refine ⟨⟨hinv.sound.parents, hinv.sound.one⟩, fun c hc => ?_, hinv.known⟩
      obtain ⟨overrides, hnormal, hchoices, h⟩ := hinv.stands c hc
      exact ⟨overrides, hnormal, hchoices, hkept h⟩

variable (collation) in
theorem inv_recordsAfter (calls : List Call) : Inv (recordsAfter collation calls) := by
  have hempty : Inv ⟨⟨.empty, .empty, true⟩, []⟩ := by
    refine ⟨⟨fun i name child h => ?_, fun i j a b h => ?_⟩, fun c hc => ?_, fun i row h => ?_⟩
    · cases h
    · cases h
    · cases hc
    · cases h
  exact List.foldlRecOn calls (step collation) hempty fun records hinv call _ => inv_step hinv call

/-- What a commit was answered stays so: its mapping is what is loaded, the same
commit gets the same answer, no other one is taken under its identifier, and its
generation decides the run or yields to the one that does. -/
structure Lasting (collation : Str → Str → Bool) (t : Tables) (c : Committed) : Prop where
  loaded : ∃ m, loadOperatorResumeResolution collation c.runId c.id t = .ok m ∧
    ∀ name, m.get? name = (c.posted.get? name).join
  foreign : ∀ r, r ≠ c.runId → loadOperatorResumeResolution collation r c.id t = .error .value
  again : ∀ db x, lockedRun c.runId db = .ok x →
    commitOperatorResumeResolution collation c.runId c.id c.posted c.remember db t = .ok (c.submission, t)
  same : ∀ r posted remember db s t', commitOperatorResumeResolution collation r c.id posted
    remember db t = .ok (s, t') →
    s = c.submission ∧ t' = t ∧ r = c.runId ∧ (∀ name, posted.get? name = c.posted.get? name) ∧
      ∀ name, remember.get? name = c.remember.get? name
  prepared : ∀ r db s db', prepareAuthoritativeOperatorResume collation r c.id t db = .ok (s, db') →
    r = c.runId ∧ s = c.submission ∧ (c.submission.authoritative = false → db' = db)
  decides : c.submission.authoritative = true ↔ c.submission.winnerId = c.id
  winner : ∃ row, t.resolutions.get? c.submission.winnerId = some row ∧ row.runId = c.runId ∧
    row.authoritative = true

variable (collation) in
theorem Kept.loaded (h : Kept t r id overrides remember s) (hnormal : Normal posted overrides) :
    (∃ m, loadOperatorResumeResolution collation r id t = .ok m ∧ ∀ name,
    m.get? name = (posted.get? name).join) ∧
      ∀ r', r' ≠ r → loadOperatorResumeResolution collation r' id t = .error .value := by
  obtain ⟨row, hcomplete, rfl, -⟩ := h.complete
  obtain ⟨⟨m, hm, hget⟩, hforeign⟩ := hcomplete.load collation
  refine ⟨⟨m, hm, fun name => ?_⟩, hforeign⟩
  rw [hget, h.overrides_eq, hnormal.some]
  cases overrides.get? name with
  | none => rfl
  | some employee => rfl

theorem Kept.decides (h : Kept t r id overrides remember s) : s.authoritative = true ↔
    s.winnerId = id := by
  obtain ⟨row, -, -, hauth, hwinner⟩ := h.complete
  rw [← hauth]
  unfold winnerOf at hwinner
  split at hwinner
  next htrue _ => simpa [htrue] using (Except.ok.inj hwinner).symm
  · cases hwinner
  · cases hwinner
  next winner hfalse _ =>
    split at hwinner
    · cases hwinner
    next hne =>
      obtain rfl := Except.ok.inj hwinner
      simp [hfalse, hne]

theorem Normal.unique {overrides' : Dict Str Uuid} (h' : Normal posted overrides')
    (h : Normal posted overrides) (name : Str) : overrides'.get? name = overrides.get? name := by
  have hsome := (h'.some name).symm.trans (h.some name)
  cases hname : overrides.get? name with
  | none => simpa [hname] using hsome
  | some employee =>
      rw [hname] at hsome
      obtain ⟨employee', hemployee', heq⟩ := Option.map_eq_some_iff.mp hsome
      rw [hemployee', Option.some.inj heq]

theorem Kept.again {x : Run × Decision} (h : Kept t r id overrides remember s)
    (hnormal : Normal posted overrides)
    (hchoices : ∀ name, name ∈ remember.keys ↔ name ∈ overrides.keys) (hlocked : lockedRun r db = .ok x) :
    commitOperatorResumeResolution collation r id posted remember db t = .ok (s, t) := by
  obtain ⟨overrides', hposted⟩ := normalizeOverrides_of_normal hnormal
  have hnormal' := normalizeOverrides_ok hposted
  have hsame := hnormal'.unique hnormal
  have hkeys : ∀ name, name ∈ overrides'.keys ↔ name ∈ overrides.keys := by
    intro name
    rw [Dict.mem_keys_iff, Dict.mem_keys_iff, hsame]
  have hremember : normalizeRemember remember overrides'.keys = .ok remember := by
    apply if_pos
    refine ⟨fun name hname => hnormal.named name ((hchoices name).mp hname), fun name hname => ?_,
      fun name hname => ?_⟩
    · exact (hkeys name).mpr ((hchoices name).mp hname)
    · exact (hchoices name).mpr ((hkeys name).mp hname)
  obtain ⟨g, hg, hrun, hsubmission, hgoverrides, hgremember⟩ := h.stored collation hchoices
  have hold : loadGenerationRows collation id t ≠ [] := by
    intro hnil
    rw [hnil] at hg
    cases hg
  have hagree : g.runId = r ∧ sameDict g.overrides overrides' = true ∧
    sameDict g.remember remember = true :=
    ⟨hrun, sameDict_iff.mpr fun name => (hgoverrides name).trans (hsame name).symm,
    sameDict_iff.mpr hgremember⟩
  unfold commitOperatorResumeResolution
  refine Result.bind_ok.mpr ⟨overrides', hposted, Result.bind_ok.mpr ⟨remember, hremember,
    Result.bind_ok.mpr ⟨x, hlocked, ?_⟩⟩⟩
  obtain ⟨run, decision⟩ := x
  dsimp only
  rw [if_neg hold]
  refine Result.bind_ok.mpr ⟨g, hg, ?_⟩
  rw [if_pos hagree, hsubmission]
  rfl

theorem Kept.prepared {r' : Uuid} {s' : Submission} (h : Kept t r id overrides remember s)
    (hchoices : ∀ name, name ∈ remember.keys ↔ name ∈ overrides.keys)
    (hprepare : prepareAuthoritativeOperatorResume collation r' id t db = .ok (s', db')) :
    r' = r ∧ s' = s ∧ (s.authoritative = false → db' = db) := by
  obtain ⟨g, hg, hrun, hsubmission, -⟩ := h.stored collation hchoices
  unfold prepareAuthoritativeOperatorResume at hprepare
  obtain ⟨⟨run, decision⟩, -, hprepare⟩ := Result.bind_ok.mp hprepare
  obtain ⟨g', hg', hprepare⟩ := Result.bind_ok.mp hprepare
  obtain rfl := Except.ok.inj (hg.symm.trans hg')
  obtain ⟨_, hvalid, hprepare⟩ := Result.bind_ok.mp hprepare
  unfold validateGenerationForRun at hvalid
  split at hvalid
  next hcontext =>
    refine ⟨hcontext.2.2.1.symm.trans hrun, ?_⟩
    have hauth : g.authoritative = s.authoritative := by rw [← hsubmission]; rfl
    split at hprepare
    next hprojects =>
      obtain ⟨rfl, rfl⟩ := Prod.mk.inj (Except.ok.inj hprepare)
      refine ⟨hsubmission, fun hfalse => ?_⟩
      rw [← hauth, hprojects.1] at hfalse
      cases hfalse
    · obtain ⟨rfl, rfl⟩ := Prod.mk.inj (Except.ok.inj hprepare)
      exact ⟨hsubmission, fun _ => rfl⟩
  · cases hvalid

variable (collation) in
theorem Inv.lasting (hinv : Inv records) (hc : c ∈ records.answered) :
    Lasting collation records.tables c := by
  obtain ⟨overrides, hnormal, hchoices, hkept⟩ := hinv.stands c hc
  obtain ⟨hloaded, hforeign⟩ := hkept.loaded collation hnormal
  refine ⟨hloaded, hforeign, fun db x hlocked => hkept.again hnormal hchoices hlocked, ?_,
    fun r db s db' hprepare => hkept.prepared hchoices hprepare, hkept.decides, hkept.winner⟩
  intro r posted remember db s t' hcommit
  obtain ⟨overrides', hnormal', -, -, hcase⟩ := commit_ok hcommit
  cases hcase with
  | first hnew =>
      obtain ⟨row, hcomplete, -⟩ := hkept.complete
      rw [hcomplete.parent] at hnew
      cases hnew
  | again hold hexisting hrun hoverrides hremember =>
      obtain ⟨hrun', hsubmission, hposted, hchosen, -⟩ :=
        (hinv.stands c hc).again hnormal' hexisting hoverrides hremember
      exact ⟨hsubmission, rfl, hrun.symm.trans hrun', hposted, hchosen⟩

/-- Over any sequence of commits, legacy writes and fence changes, each at any
state of the rest of the database, every answered commit lasts, and the commits
for one run agree on the generation that decides it. -/
theorem commits_last (collation : Str → Str → Bool) (calls : List Call) :
    (∀ c ∈ (recordsAfter collation calls).answered,
        Lasting collation (recordsAfter collation calls).tables c) ∧
      ∀ c ∈ (recordsAfter collation calls).answered, ∀ c' ∈ (recordsAfter collation calls).answered,
        c.runId = c'.runId → c.submission.winnerId = c'.submission.winnerId := by
  have hinv := inv_recordsAfter collation calls
  constructor
  · exact fun c hc => hinv.lasting collation hc
  · intro c hc c' hc' hrun
    obtain ⟨row, hrow, hrun₁, hauth⟩ := (hinv.lasting collation hc).winner
    obtain ⟨row', hrow', hrun₂, hauth'⟩ := (hinv.lasting collation hc').winner
    exact hinv.sound.one _ _ row row' hrow hrow' hauth hauth' (hrun₁.trans (hrun.trans hrun₂.symm))

/-- The rows of a generation that the rest of the model holds as one value. -/
structure Holds (t : Tables) (id : Uuid) (g : OperatorResolution) : Prop where
  parent : t.resolutions.get? id = some ⟨g.runId, g.authoritative, g.supersededBy⟩
  children : ∀ name, t.overrides.get? (id, name) =
    (g.overrides.get? name).map fun employee => ⟨employee, (g.remember.get? name).getD false⟩

structure Represents (t : Tables) (db : Db) : Prop where
  sound : Sound t
  same : ∀ id, (db.resolutions.get? id = none ∧ t.resolutions.get? id = none) ∨
    ∃ g, db.resolutions.get? id = some g ∧ Holds t id g

variable {overrides : Dict Str Uuid} {remember : Dict Str Bool}

theorem Represents.authoritative (h : Represents t db) (r : Uuid) :
    (Repo.authoritativeResolution db r).map Prod.fst = authoritativeRow r t := by
  cases hselect : Repo.authoritativeResolution db r with
  | none =>
      cases hrow : authoritativeRow r t with
      | none => rfl
      | some winner =>
          obtain ⟨row, hwinner, hrun, hauth⟩ := authoritativeRow_some hrow
          obtain ⟨-, hnone⟩ | ⟨g, hg, hholds⟩ := h.same winner
          · rw [hwinner] at hnone
            cases hnone
          · obtain rfl := Option.some.inj (hwinner.symm.trans hholds.parent)
            have hother := Dict.select_none.mp hselect winner g hg
            dsimp only at hrun hauth
            simp [hrun, hauth] at hother
  | some p =>
      obtain ⟨hg, hp⟩ := Dict.select_some (k := p.1) (v := p.2) hselect
      simp only [decide_eq_true_eq] at hp
      obtain ⟨hnone, -⟩ | ⟨g, hg', hholds⟩ := h.same p.1
      · rw [hg] at hnone
        cases hnone
      · obtain rfl := Option.some.inj (hg.symm.trans hg')
        have hauth := authoritativeRow_eq h.sound hholds.parent hp.2
        rw [hp.1] at hauth
        exact hauth.symm

theorem normalizeOverrides_posted (h : Repo.normalizedMapping overrides remember = true) :
    Normal (overrides.mapValues fun _ employee => some employee) overrides := by
  unfold Repo.normalizedMapping at h
  obtain ⟨hsome, hnamed, -⟩ := of_decide_eq_true h
  refine ⟨fun name => Dict.get?_mapValues _ _ _, fun hnil => hsome (List.map_eq_nil_iff.mp hnil), hnamed⟩

theorem valid_of_validGeneration {run : Run} {overrides' : Dict Str Uuid}
    (hsame : ∀ name, overrides'.get? name = overrides.get? name)
    (h : Repo.validGeneration db run overrides = true) :
    ∃ decision, run.decision = some decision ∧ validateGenerationForRun db r run decision r
      overrides' = .ok () := by
  unfold Repo.validGeneration at h
  split at h
  next decision roster hdecision hroster =>
    obtain ⟨hsome, hnodup, hsub, hsup, hvalues⟩ := of_decide_eq_true h
    refine ⟨decision, hdecision, if_pos ⟨hsome, hnodup, rfl, fun name hname => ?_, fun name hname =>
      ?_, fun id hid => ?_⟩⟩
    · rw [Dict.mem_keys_iff, hsame, ← Dict.mem_keys_iff] at hname
      exact hsub name hname
    · rw [Dict.mem_keys_iff, hsame, ← Dict.mem_keys_iff]
      exact hsup name hname
    · obtain ⟨name, hname⟩ := (Dict.mem_values_iff _ _).mp hid
      rw [hsame] at hname
      rw [rosterIds, hroster]
      exact hvalues id ((Dict.mem_values_iff _ _).mpr ⟨name, hname⟩)
  · cases h

theorem Represents.set (hrep : Represents t db) (hnew : db.resolutions.get? id = none)
    {row : ResolutionRow} {g : OperatorResolution}
    (hin : Inserted id row overrides (fun name => (remember.get? name).getD false) t t')
    (hsound : Sound t') (hrow : row = ⟨g.runId, g.authoritative, g.supersededBy⟩)
    (hoverrides : ∀ name, overrides.get? name = g.overrides.get? name) (hremember : remember = g.remember)
    (hdb : db'.resolutions = db.resolutions.set id g) : Represents t' db' := by
  have hfree : t.resolutions.get? id = none := by
    obtain ⟨-, hnone⟩ | ⟨g', hg', -⟩ := hrep.same id
    · exact hnone
    · rw [hnew] at hg'
      cases hg'
  refine ⟨hsound, fun i => ?_⟩
  rw [hdb, Dict.get?_set, hin.resolutions, Dict.get?_set]
  by_cases hi : i = id
  · subst hi
    rw [if_pos rfl, if_pos rfl]
    refine .inr ⟨g, rfl, ?_, fun name => ?_⟩
    · rw [hin.resolutions, Dict.get?_set_self, hrow]
    · have hold : ∀ child, t.overrides.get? (i, name) ≠ some child := fun child hchild =>
        hrep.sound.parents i name child hchild hfree
      ext child
      rw [hin.overrides, ← hoverrides, ← hremember, Option.map_eq_some_iff]
      simp [hold, eq_comm]
  · rw [if_neg hi, if_neg hi]
    obtain hnone | ⟨g', hg', hparent, hchildren⟩ := hrep.same i
    · exact .inl hnone
    · refine .inr ⟨g', hg', ?_, fun name => ?_⟩
      · rw [hin.resolutions, Dict.get?_set_of_ne _ hi, hparent]
      · rw [← hchildren]
        ext child
        rw [hin.overrides]
        simp [hi]

theorem insertGeneration_of_new {row : ResolutionRow} {overrides : Dict Str Uuid} {remember : Str → Bool}
    (hsound : Sound t) (hopen : t.writesOpen = true) (hfree : t.resolutions.get? id = none) :
    ∃ t', insertGeneration id row overrides remember t = .ok t' := by
  obtain ⟨children, hchildren⟩ := @insertOverrides_of_new id remember (byName overrides) t.overrides
    (nodup_byName overrides) fun p _ => by
      rw [Option.eq_none_iff_forall_ne_some]
      exact fun child hchild => hsound.parents _ _ child hchild hfree
  refine ⟨⟨t.resolutions.set id row, children, t.writesOpen⟩, ?_⟩
  rw [insertGeneration, if_pos hopen, hchildren]
  rfl

/-- A commit of the model under a new identifier is one of the tables. -/
theorem commit_refines (hrep : Represents t db) (hopen : t.writesOpen = true)
    (hnew : db.resolutions.get? db.nextId = none) {g : Uuid}
    (h : Repo.commitOperatorResumeResolution r overrides remember db = .ok (g, db')) :
    ∃ s t', commitOperatorResumeResolution collation r g (overrides.mapValues fun _ employee =>
      some employee) remember db t = .ok (s, t') ∧ Represents t' db' := by
  unfold Repo.commitOperatorResumeResolution at h
  split at h
  · cases h
  next run hrun =>
    split at h
    next hguard =>
      obtain ⟨rfl, rfl⟩ := Prod.mk.inj (Except.ok.inj h)
      obtain ⟨hnormalized, hstatus, hvalid⟩ := hguard
      have hnormal := normalizeOverrides_posted hnormalized
      obtain ⟨overrides', hposted⟩ := normalizeOverrides_of_normal hnormal
      have hnormal' := normalizeOverrides_ok hposted
      have hsame := hnormal'.unique hnormal
      obtain ⟨decision, hdecision, hvalidated⟩ := valid_of_validGeneration (r := r) hsame hvalid
      have hremember : normalizeRemember remember overrides'.keys = .ok remember := by
        unfold Repo.normalizedMapping at hnormalized
        obtain ⟨-, hnamed, hsub, hsup⟩ := of_decide_eq_true hnormalized
        apply if_pos
        refine ⟨fun name hname => hnamed name (hsub name hname), fun name hname => ?_,
          fun name hname => ?_⟩
        · rw [Dict.mem_keys_iff, hsame, ← Dict.mem_keys_iff]
          exact hsub name hname
        · rw [Dict.mem_keys_iff, hsame, ← Dict.mem_keys_iff] at hname
          exact hsup name hname
      have hfree : t.resolutions.get? db.nextId = none := by
        obtain ⟨-, hnone⟩ | ⟨g', hg', -⟩ := hrep.same db.nextId
        · exact hnone
        · rw [hnew] at hg'
          cases hg'
      obtain ⟨t', hin⟩ := @insertGeneration_of_new db.nextId t ⟨r, authoritativeRow r t = none,
        authoritativeRow r t⟩
        overrides' (fun name => (remember.get? name).getD false) hrep.sound hopen hfree
      refine ⟨⟨db.nextId, authoritativeRow r t = none, (authoritativeRow r t).getD db.nextId⟩, t', ?_, ?_⟩
      · unfold commitOperatorResumeResolution
        refine Result.bind_ok.mpr ⟨overrides', hposted, Result.bind_ok.mpr ⟨remember, hremember, ?_⟩⟩
        refine Result.bind_ok.mpr ⟨(run, decision), by rw [lockedRun, hrun]; simp [hdecision], ?_⟩
        dsimp only
        rw [if_pos (loadGenerationRows_eq_nil.mpr hfree), if_pos hstatus]
        exact Result.bind_ok.mpr ⟨(), hvalidated, Result.bind_ok.mpr ⟨t', hin, rfl⟩⟩
      · have hinserted := inserted_of_ok hin
        refine hrep.set hnew hinserted (hrep.sound.inserted hinserted fun hauth i a ha hauth' => ?_)
          ?_ hsame rfl rfl
        · exact authoritativeRow_none (of_decide_eq_true hauth) ha hauth'
        · rw [← hrep.authoritative r]
          simp
    · cases h

end PayrollAgent.GenerationRecords
