import PayrollAgent.FreshIds
import PayrollAgent.RunSteps
import PayrollAgent.ThreadsObey

namespace PayrollAgent.Drives

open Lib Repo Effects RunSteps Conduct FreshIds

def claimant (r : Uuid) : Note → Option Nat
  | .claimed i r' => if r' = r then some i else none
  | _ => none

def lastClaimant (r : Uuid) (log : List Note) : Option Nat := log.findSome? (claimant r)

def drivenStatuses : List RunStatus := [.received, .extracting, .error]

/-- The last claimant finds its run where only its own writes can have taken
it. -/
def InFlight (i : Nat) (s : Work) (db : Db) (log : List Note) : Prop :=
  ∀ r, s.phase.run = some r → lastClaimant r log = some i →
    ∃ run, db.runs.get? r = some run ∧ run.status ∈ drivenStatuses

def Working (s : Work) (db : Db) : Prop :=
  ∀ r, s.phase.run = some r → ∃ run, db.runs.get? r = some run

def ByLastClaimant (i : Nat) (op : Op) (log : List Note) : Prop :=
  ∀ r, stageWrite op = some r → lastClaimant r log = some i

instance (i : Nat) (op : Op) (log : List Note) : Decidable (ByLastClaimant i op log) :=
  match h : stageWrite op with
  | none => isTrue fun _ h' => by simp [h] at h'
  | some r =>
      decidable_of_iff (lastClaimant r log = some i)
        ⟨fun hi r' h' => by
          obtain rfl : r = r' := by simpa [h] using h'
          exact hi, fun hi => hi r h⟩

def claimsRun : (op : Op) → Ans op → Option Uuid
  | .claimStatus r .received .extracting, true => some r
  | _, _ => none

theorem afterFields_run (phase : Phase) : phase.afterFields.run = phase.run := by
  cases phase <;> rfl

variable {s : Work} {op : Op} {a : Ans op} {r : Uuid} {i : Nat} {db db' : Db} {log : List Note}

theorem run_of_stageWrite (hop : s.allows op) (h : stageWrite op = some r) :
    s.phase.run = some r := by
  have hrule := hop.1
  cases op with
  | setStatus r' status =>
      cases h
      simp [hrule.1, Phase.run]
  | setClarifiedFields r' clarified =>
      cases h
      rcases hrule with hphase | hphase <;> simp [hphase, Phase.run]
  | persistStages r' st =>
      cases h
      rcases hrule with hphase | hphase <;> simp [hphase, Phase.run]
  | escalateToOperator r' =>
      cases h
      rcases hrule with hphase | hphase <;> simp [hphase, Phase.run]
  | finalizeSentClarification r' round extracted =>
      cases h
      rcases hrule with hphase | hphase <;> simp [hphase, Phase.run]
  | replayReservedClarification r' e extracted =>
      cases h
      rcases hrule with hphase | hphase <;> simp [hphase, Phase.run]
  | reserveClarification r' q =>
      cases h
      rcases hrule.1 with hphase | hphase <;> simp [hphase, Phase.run]
  | _ => cases h

theorem claimsRun_eq (h : claimsRun op a = some r) : op = .claimStatus r .received .extracting := by
  unfold claimsRun at h
  split at h
  · cases h
    rfl
  · cases h

theorem idle_of_claimsRun (hop : s.allows op) (h : claimsRun op a = some r) : s.phase = .idle := by
  obtain rfl := claimsRun_eq h
  rcases hop.1 with hmem | ⟨-, hmem⟩ | ⟨-, hidle, -⟩
  · exact absurd hmem (by decide)
  · exact absurd hmem (by decide)
  · exact hidle

theorem told_run (hop : s.allows op) (h : (s.told op a).phase.run = some r) :
    s.phase.run = some r ∨ claimsRun op a = some r := by
  unfold Work.told at h
  split at h
  · exact .inl h
  · exact .inr h
  · exact .inl (by rwa [afterFields_run] at h)
  · split at h
    · cases h
    · cases h
      exact .inl (run_of_stageWrite hop rfl)
  · cases h
  · cases h
  · cases h
  · cases h
  · exact .inl h
  · exact .inl h

theorem notes_of_claimsRun (h : claimsRun op a = some r) : notes i op db a db' = [.claimed i r] := by
  unfold claimsRun at h
  split at h
  · cases h
    rfl
  · cases h

theorem claimant_notes (h : claimsRun op a ≠ some r) :
    ∀ n ∈ notes i op db a db', claimant r n = none := by
  intro n hn
  cases noted hn with
  | claimed => exact if_neg fun heq => h (congrArg some heq)
  | _ => rfl

theorem lastClaimant_notes : lastClaimant r (notes i op db a db' ++ log) =
    if claimsRun op a = some r then some i else lastClaimant r log := by
  split
  next h => simp [notes_of_claimsRun h, lastClaimant, claimant]
  next h =>
    rw [lastClaimant, List.findSome?_append, List.findSome?_eq_none_iff.mpr (claimant_notes h)]
    rfl

theorem expectedStatus_driven (purpose : Purpose) : purpose.expectedStatus ∉ drivenStatuses := by
  cases purpose <;> decide

theorem driven_of_not_drives {run run' : Run} (h : RunStep db r run op a run')
    (hop : s.allows op) (hnot : ∀ t, drives op ≠ some (r, t)) (hin : run.status ∈ drivenStatuses) :
    run'.status ∈ drivenStatuses := by
  cases h with
  | kept h => rwa [h.status]
  | fieldsSet => exact hin
  | driven hdrives => exact absurd hdrives (hnot _)
  | claimed hstatus h =>
      rcases hop.1 with hmem | ⟨-, hmem⟩ | ⟨-, -, -, rfl⟩
      · rw [hstatus] at hin
        simp only [rejections, List.mem_cons, Prod.mk.injEq, List.not_mem_nil, or_false] at hmem
        obtain ⟨rfl, -⟩ | ⟨rfl, -⟩ | ⟨rfl, -⟩ := hmem <;> exact absurd hin (by decide)
      · rw [hstatus] at hin
        simp only [reentries, List.mem_cons, Prod.mk.injEq, List.not_mem_nil, or_false] at hmem
        obtain ⟨rfl, -⟩ | ⟨rfl, -⟩ := hmem <;> exact absurd hin (by decide)
      · rw [h.status]
        decide
  | rewound _ h =>
      rw [h.status]
      decide
  | approved hstatus =>
      rw [hstatus] at hin
      exact absurd hin (by decide)
  | failed _ _ h =>
      rw [h.status]
      decide
  | requeued _ _ _ h =>
      rw [h.status]
      decide
  | retriggered _ _ h =>
      rw [h.status]
      decide
  | reconciled hstatus =>
      rw [hstatus] at hin
      exact absurd hin (by decide)
  | reviewed _ hstatus =>
      rw [hstatus] at hin
      exact absurd hin (expectedStatus_driven _)
  | markedDelivered hstatus =>
      rw [hstatus] at hin
      exact absurd hin (by decide)
  | authorizedNew hstatus =>
      rw [hstatus] at hin
      exact absurd hin (by decide)
  | finishedReview hstatus =>
      rw [hstatus] at hin
      exact absurd hin (by decide)

theorem closed_step {run run' : Run} (h : RunStep db r run op a run') (hop : s.allows op)
    (hnot : ∀ t, drives op ≠ some (r, t)) (hclosed : run.status ∈ [RunStatus.reconciled, .rejected]) :
    run'.status = run.status := by
  have hopen : ∀ {t : RunStatus}, t ∉ [RunStatus.reconciled, .rejected] → run.status ≠ t := by
    rintro t ht rfl
    exact ht hclosed
  have hapart : ∀ {l : List RunStatus}, (∀ t ∈ l, t ∉ [RunStatus.reconciled, .rejected]) →
    run.status ∉ l :=
    fun hl hmem => hl _ hmem hclosed
  cases h with
  | kept h => exact h.status
  | fieldsSet => rfl
  | driven hdrives => exact absurd hdrives (hnot _)
  | claimed hstatus =>
      rcases hop.1 with hmem | ⟨-, hmem⟩ | ⟨-, -, rfl, -⟩
      · simp only [rejections, List.mem_cons, Prod.mk.injEq, List.not_mem_nil, or_false] at hmem
        obtain ⟨rfl, -⟩ | ⟨rfl, -⟩ | ⟨rfl, -⟩ := hmem <;> exact absurd hstatus (hopen (by decide))
      · simp only [reentries, List.mem_cons, Prod.mk.injEq, List.not_mem_nil, or_false] at hmem
        obtain ⟨rfl, -⟩ | ⟨rfl, -⟩ := hmem <;> exact absurd hstatus (hopen (by decide))
      · exact absurd hstatus (hopen (by decide))
  | rewound hstatus => exact absurd hstatus (hapart (by decide))
  | approved hstatus => exact absurd hstatus (hopen (by decide))
  | failed _ hstatus =>
      have hterminal : ∀ t ∈ [RunStatus.reconciled, .rejected], t ∈ terminalStatuses := by decide
      exact absurd (hterminal _ hclosed) hstatus
  | requeued _ _ hstatus => exact absurd hstatus (hopen (by decide))
  | retriggered hstatus => exact absurd hstatus (hapart (by decide))
  | reconciled hstatus => exact absurd hstatus (hopen (by decide))
  | @reviewed _ _ purpose _ _ hstatus => exact absurd hstatus (hopen (by cases purpose <;> decide))
  | markedDelivered hstatus => exact absurd hstatus (hopen (by decide))
  | authorizedNew hstatus => exact absurd hstatus (hopen (by decide))
  | finishedReview hstatus => exact absurd hstatus (hopen (by decide))

theorem driven_of_extracting {run run' : Run} (h : RunStep db r run op a run')
    (hdrives : drives op = some (r, .extracting)) (hin : run.status ∈ drivenStatuses) :
    run'.status ∈ drivenStatuses := by
  cases h with
  | kept h => rwa [h.status]
  | fieldsSet => exact hin
  | driven hdrives' h =>
      obtain rfl : RunStatus.extracting = _ := by simpa [hdrives] using hdrives'
      rw [h.status]
      decide
  | failed _ _ h =>
      rw [h.status]
      decide
  | reviewed _ hstatus =>
      rw [hstatus] at hin
      exact absurd hin (expectedStatus_driven _)
  | _ => cases hdrives

theorem told_of_drives {t : RunStatus} (hop : s.allows op) (h : drives op = some (r, t)) :
    (s.told op a).phase.run = none ∨ t = .extracting := by
  cases op with
  | setStatus r' status =>
      cases h
      exact .inr hop.1.2
  | persistStages r' st =>
      simp only [drives] at h
      split at h
      next haction => exact .inl (by simp [Work.told, haction, Work.rest, Phase.run])
      · cases h
  | escalateToOperator r' => exact .inl rfl
  | finalizeSentClarification r' round extracted => exact .inl rfl
  | replayReservedClarification r' e extracted => exact .inl rfl
  | reserveClarification r' q => exact .inl rfl
  | _ => cases h

section

variable [PyText] {env : Env}

theorem received_of_claimsRun (h : Effect env db op a db') (hclaim : claimsRun op a = some r) :
    ∃ run, db.runs.get? r = some run ∧ run.status = .received := by
  obtain rfl := claimsRun_eq hclaim
  cases h with
  | idle hrefused =>
      obtain rfl : a = (false : Bool) := hrefused
      cases hclaim
  | claimed hstatus => exact Option.map_eq_some_iff.mp hstatus

theorem run_stays (h : Effect env db op a db') (hfresh : Fresh db)
    (hrun : ∃ run, db.runs.get? r = some run) : ∃ run, db'.runs.get? r = some run := by
  obtain ⟨run, hrun⟩ := hrun
  obtain ⟨run', hrun', -⟩ := runStep h hfresh.runs hrun
  exact ⟨run', hrun'⟩

theorem working_own (hfresh : Fresh db) (hJ : Working s db) (hop : s.allows op) :
    Working (s.next op (exec env op db).1) (exec env op db).2 := by
  rcases exec_cases 0 env op db with ⟨e, hexec, -⟩ | ⟨a, db', htxn, hdb, -, hanswer | ⟨e, hanswer⟩⟩
  · rw [hexec]
    exact fun r hr => by cases hr
  · rw [hanswer, hdb]
    intro r hr
    rcases told_run hop hr with hrun | hclaim
    · exact run_stays (txn_effect htxn) hfresh (hJ r hrun)
    · obtain ⟨run, hrun, -⟩ := received_of_claimsRun (txn_effect htxn) hclaim
      exact run_stays (txn_effect htxn) hfresh ⟨run, hrun⟩
  · rw [hanswer]
    exact fun r hr => by cases hr

theorem working_other (hfresh : Fresh db) (hJ : Working s db) : Working s (exec env op db).2 := by
  apply exec_preserves hJ
  intro a db' htxn
  exact fun r hr => run_stays (txn_effect htxn) hfresh (hJ r hr)

theorem inFlight_own (hfresh : Fresh db) (hJ : InFlight i s db log) (hop : s.allows op) :
    InFlight i (s.next op (exec env op db).1) (exec env op db).2 (observe i env op db ++ log) := by
  rcases exec_cases i env op db with ⟨e, hexec, -⟩ | ⟨a, db', htxn, hdb, hnotes, hanswer | ⟨e, hanswer⟩⟩
  · rw [hexec]
    exact fun r hr => by cases hr
  · rw [hanswer, hdb, hnotes]
    intro r hr hlast
    have heffect := txn_effect htxn
    have hstep : ∀ run, db.runs.get? r = some run → run.status ∈ drivenStatuses →
        ∃ run', db'.runs.get? r = some run' ∧ run'.status ∈ drivenStatuses := by
      intro run hrun hin
      obtain ⟨run', hrun', hstep⟩ := runStep heffect hfresh.runs hrun
      refine ⟨run', hrun', ?_⟩
      by_cases hdrives : ∃ t, drives op = some (r, t)
      · obtain ⟨t, hdrives⟩ := hdrives
        rcases told_of_drives hop hdrives with hrest | rfl
        · exact absurd (hr.symm.trans hrest) (by simp)
        · exact driven_of_extracting hstep hdrives hin
      · exact driven_of_not_drives hstep hop (not_exists.mp hdrives) hin
    rcases told_run hop hr with hrun | hclaim
    · have hunclaimed : claimsRun op a ≠ some r := fun hclaim => by
        rw [idle_of_claimsRun hop hclaim] at hrun
        cases hrun
      rw [lastClaimant_notes, if_neg hunclaimed] at hlast
      obtain ⟨run, hrun, hin⟩ := hJ r hrun hlast
      exact hstep run hrun hin
    · obtain ⟨run, hrun, hstatus⟩ := received_of_claimsRun heffect hclaim
      exact hstep run hrun (by rw [hstatus]; decide)
  · rw [hanswer]
    exact fun r hr => by cases hr

theorem inFlight_other (hfresh : Fresh db) (hop : s.allows op) (hguard : ByLastClaimant i op log)
    {j : Nat} {t : Work} (hji : j ≠ i) (hJ : InFlight j t db log) :
    InFlight j t (exec env op db).2 (observe i env op db ++ log) := by
  apply exec_observed hJ
  intro a db' htxn r hr hlast
  rw [lastClaimant_notes] at hlast
  split at hlast
  · exact absurd (Option.some.inj hlast).symm hji
  · obtain ⟨run, hrun, hin⟩ := hJ r hr hlast
    obtain ⟨run', hrun', hstep⟩ := runStep (txn_effect htxn) hfresh.runs hrun
    refine ⟨run', hrun', driven_of_not_drives hstep hop (fun u hdrives => hji ?_) hin⟩
    have hi := hguard r (stageWrite_of_drives hdrives)
    rw [hlast] at hi
    exact Option.some.inj hi

end

end PayrollAgent.Drives
