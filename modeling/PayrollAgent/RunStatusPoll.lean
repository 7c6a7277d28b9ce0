import PayrollAgent.RunListRow

namespace PayrollAgent.RunStatusPoll

open Lib Repo Handlers Commits Diagnostics FailedRuns RunListRow

/-- The columns of `load_run` that the poll only carries along. -/
structure Stored where
  sourceEmailId : Value
  extractedData : Value
  decision : Value
  reconciliation : Value
  aliasCandidates : Value
  hoursChanges : Value
  payPeriodStart : Value
  payPeriodEnd : Value

inductive PollRefusal
  | notFound
  | refused (why : RunListRow.Refusal)
  deriving DecidableEq

/-- A label that cannot be read is no label. -/
def safeRunWithQueueProjection (label : Except Exn (Option QueueLabel)) (run : Row) :
    Except Exn BrowserRow :=
  safeRunForBrowser (run.set "queue_label".toList
    (match label with
      | .ok label => .ofText (label.map QueueLabel.text)
      | .error _ => .null))

def volatile : List Str :=
  names ["status", "badge_class", "badge_label", "failure", "queue_label", "queue_badge_class",
    "has_open_job"]

/-- `safe_run["field"]`. -/
def carried (row : BrowserRow) (field : String) : Cell := (row.get? field.toList).getD (.value .null)

def pollOf (printing : Printing) (row : BrowserRow) : BrowserRow :=
  let status := (cell row "status").getD (.text [])
  Dict.ofList
    [("status".toList, .value status), ("badge_class".toList,
    .value (.text (badgeClassFilter (strOf printing status)))),
      ("badge_label".toList, .value (.text (badgeLabelFilter printing (strOf printing status)))),
      ("failure".toList, carried row "failure"), ("queue_label".toList, carried row "queue_label"),
      ("queue_badge_class".toList, carried row "queue_badge_class"),
      ("has_open_job".toList, carried row "has_open_job")]

/-- `GET /runs/{run_id}/status`. -/
def runStatus (printing : Printing) (loaded : Except Exn (Option Row))
    (label : Except Exn (Option QueueLabel)) : Except PollRefusal BrowserRow :=
  match loaded with
  | .error _ => .error .notFound
  | .ok none => .error .notFound
  | .ok (some run) =>
      match safeRunWithQueueProjection label run with
      | .error e => .error (.refused (.raised e))
      | .ok safe => (modelValidate printing (pollOf printing safe)).mapError .refused

section Fields

variable {printing : Printing} {run : Row} {failure : FailurePresentation} {s k : Str}

/-- The seven fields of a run, by its status, its label and its failure. -/
def fieldsOf (printing : Printing) (status : Str) (label : Option Str)
    (failure : FailurePresentation) : BrowserRow :=
  Dict.ofList
    [("status".toList, .value (.text status)),
    ("badge_class".toList, .value (.text (badgeClassFilter status))),
      ("badge_label".toList, .value (.text (badgeLabelFilter printing status))),
      ("failure".toList, .failure failure),
      ("queue_label".toList, .value (.ofText label)),
      ("queue_badge_class".toList, .value (.text (queueBadgeClass label))),
      ("has_open_job".toList, .value (.bool label.isSome))]

theorem get?_kept (hs : run.get? "status".toList = some (.text s)) (hk : k ∈ volatile)
    (hbadge : k ∉ names ["badge_class", "badge_label"]) :
    ((withQueueState run failure).deleteWhere fun field _ => stripped field).get? k =
      (fieldsOf printing s (safeQueueLabel run) failure).get? k := by
  have hkept : ∀ j ∈ volatile, stripped j = false := by decide
  rw [get?_deleteWhere_of_not fun _ => hkept k hk]
  simp only [volatile, names, List.map_cons, List.map_nil, List.mem_cons, List.not_mem_nil,
    or_false, not_or] at hk hbadge
  obtain ⟨hclass, hlabel⟩ := hbadge
  rcases hk with rfl | rfl | rfl | rfl | rfl | rfl | rfl
  · simpa [withQueueState, fieldsOf, Dict.ofList, Dict.get?_set, Dict.get?_mapValues] using hs
  · exact absurd rfl hclass
  · exact absurd rfl hlabel
  all_goals simp [withQueueState, fieldsOf, Dict.ofList, Dict.get?_set]

theorem cell_status (hs : run.get? "status".toList = some (.text s)) :
    cell ((withQueueState run failure).deleteWhere fun field _ => stripped field) "status" =
    some (.text s) := by
  rw [cell, @get?_kept ⟨fun _ => [], id, fun _ => [], fun _ => true⟩ run failure s _ hs (by decide)
    (by decide)]
  simp [fieldsOf, Dict.ofList, Dict.get?_set]

theorem get?_reducedRow_volatile (hs : run.get? "status".toList = some (.text s)) (hk : k ∈ volatile) :
    (reducedRow printing run failure).get? k =
    (fieldsOf printing s (safeQueueLabel run) failure).get? k := by
  have hdisplay : k ≠ "created_at_display".toList := by
    rintro rfl
    exact absurd hk (by decide)
  unfold reducedRow withBadge
  rw [Dict.get?_set_of_ne _ hdisplay, cell_status hs, Dict.get?_set, Dict.get?_set]
  split
  next hlabel => simp [hlabel, fieldsOf, Dict.ofList, Dict.get?_set, strOf]
  next hlabel =>
    split
    next hclass => simp [hclass, fieldsOf, Dict.ofList, Dict.get?_set, strOf]
    next hclass =>
      refine get?_kept hs hk ?_
      simp only [names, List.map_cons, List.map_nil, List.mem_cons, List.not_mem_nil, or_false, not_or]
      exact ⟨hclass, hlabel⟩

theorem pollOf_eq (hs : run.get? "status".toList = some (.text s)) :
    pollOf printing ((withQueueState run failure).deleteWhere fun field _ => stripped field) =
      fieldsOf printing s (safeQueueLabel run) failure := by
  have hcarried : ∀ field : String, field.toList ∈ volatile → field.toList ∉ names
    ["badge_class", "badge_label"] →
      carried ((withQueueState run failure).deleteWhere fun field _ => stripped field) field =
        ((fieldsOf printing s (safeQueueLabel run) failure).get? field.toList).getD
        (.value .null) := fun field hk hbadge => by
    rw [carried, get?_kept hs hk hbadge]
  unfold pollOf
  rw [cell_status hs, hcarried "failure" (by decide) (by decide), hcarried "queue_label" (by decide)
    (by decide),
    hcarried "queue_badge_class" (by decide) (by decide), hcarried "has_open_job" (by decide) (by decide)]
  simp only [Option.getD_some, strOf, fieldsOf, Dict.ofList]
  rfl

end Fields

section

variable [PyText] [PyUnicode]

/-- A row of `load_run`: `RUN_COLS`, with no counters of a job. -/
def loadRunRow (wording : Wording) (stored : Stored) (r : Uuid) (run : Run) : Row :=
  Dict.ofList
    [("id".toList, .other r), ("business_id".toList, .other run.businessId),
      ("source_email_id".toList, stored.sourceEmailId), ("status".toList, .text run.status.value),
      ("reply_epoch".toList, .int run.replyEpoch), ("extracted_data".toList, stored.extractedData),
      ("decision".toList, stored.decision), ("reconciliation".toList, stored.reconciliation),
      ("error_reason".toList, .ofText (run.errorReason.map (errorReasonText wording))),
      ("error_detail".toList, .ofText (run.errorDetail.bind (errorDetailText wording))),
      ("alias_candidates".toList, stored.aliasCandidates), ("hours_changes".toList, stored.hoursChanges),
      ("pay_period_start".toList, stored.payPeriodStart), ("pay_period_end".toList, stored.payPeriodEnd),
      ("updated_at".toList, .other run.updatedAt)]

variable {wording : Wording} {joined : Joined} {stored : Stored} {printing : Printing} {r : Uuid}
    {run : Run} {db : Db}
  {reason : ErrorReason} {label : Except Exn (Option QueueLabel)} {failure : FailurePresentation}
    {out poll : BrowserRow}

def polledRow (wording : Wording) (stored : Stored) (label : Except Exn (Option QueueLabel))
    (r : Uuid) (run : Run) : Row :=
  (loadRunRow wording stored r run).set "queue_label".toList
    (match label with
      | .ok label => .ofText (label.map QueueLabel.text)
      | .error _ => .null)

theorem failed_polledRow (herror : run.status = .error) (hreason : run.errorReason = some reason) :
    Failed (polledRow wording stored label r run) (errorReasonText wording reason)
      (run.errorDetail.bind (errorDetailText wording)) none where
  status := by simp [polledRow, loadRunRow, column, Dict.ofList, Dict.get?_set, herror]
  reason := by simp [polledRow, loadRunRow, column, Dict.ofList, Dict.get?_set, hreason, Value.ofText]
  detail := by simp [polledRow, loadRunRow, column, Dict.ofList, Dict.get?_set]
  attempts := by simp [polledRow, loadRunRow, column, Dict.ofList, Dict.get?_set]
  maxAttempts := by simp [polledRow, loadRunRow, column, Dict.ofList, Dict.get?_set]

omit [PyText] [PyUnicode] in
theorem safeQueueLabel_text {row : Row} {label : Option QueueLabel}
    (h : column row "queue_label" = .ofText (label.map QueueLabel.text)) :
    safeQueueLabel row = label.map QueueLabel.text := by
  rw [safeQueueLabel, h]
  cases label with
  | none => rfl
  | some label => cases label <;> rfl

theorem safeQueueLabel_listed : safeQueueLabel (loadAllRunsRow wording joined db r run) =
    (getRunQueueLabel r db).map QueueLabel.text :=
  safeQueueLabel_text (by simp [loadAllRunsRow, column, Dict.ofList])

theorem safeQueueLabel_polled : safeQueueLabel
    (polledRow wording stored (.ok (getRunQueueLabel r db)) r run) =
    (getRunQueueLabel r db).map QueueLabel.text :=
  safeQueueLabel_text (by simp [polledRow, column])

theorem classified_listed (k : Str) : ¬Unclassified (loadAllRunsRow wording joined db r run) k := by
  have hkeys : ∀ k ∈ names ["id", "business_id", "status", "created_at", "updated_at",
    "error_reason", "error_detail",
      "business_name", "summary_gate_reason", "employee_count", "job_attempts", "job_max_attempts",
      "queue_label"], k ∈ modelFields ∨ k ∈ excluded := by decide
  rintro ⟨hk, hfields, hexcluded, -⟩
  exact (hkeys k hk).elim hfields hexcluded

theorem listed_of_presented
    (h : safeFailurePresentation (loadAllRunsRow wording joined db r run) = .ok failure) :
    runListRowFromRun printing (loadAllRunsRow wording joined db r run) =
      modelValidate printing ((reducedRow printing (loadAllRunsRow wording joined db r run)
      failure).deleteWhere fun field _ => decide (field ∉ modelFields)) := by
  have hnil : unknownColumns (reducedRow printing (loadAllRunsRow wording joined db r run)
    failure) = [] :=
    List.eq_nil_iff_forall_not_mem.mpr fun k hk => classified_listed k (mem_unknownColumns.mp hk)
  rw [runListRowFromRun_of_ok h, fromRow, if_pos hnil]

theorem polled_of_presented
    (h : safeFailurePresentation (polledRow wording stored (.ok (getRunQueueLabel r db)) r run) =
      .ok failure) :
    runStatus printing (.ok (some (loadRunRow wording stored r run))) (.ok (getRunQueueLabel r db)) =
      (modelValidate printing (fieldsOf printing run.status.value
        ((getRunQueueLabel r db).map QueueLabel.text) failure)).mapError .refused := by
  have hs : (polledRow wording stored (.ok (getRunQueueLabel r db)) r run).get? "status".toList =
      some (.text run.status.value) := by
    simp [polledRow, loadRunRow, Dict.ofList, Dict.get?_set]
  have hsafe : safeRunWithQueueProjection (.ok (getRunQueueLabel r db))
    (loadRunRow wording stored r run) =
      .ok ((withQueueState (polledRow wording stored (.ok (getRunQueueLabel r db)) r run)
      failure).deleteWhere fun field _ => stripped field) := by
    show safeRunForBrowser (polledRow wording stored (.ok (getRunQueueLabel r db)) r run) = _
    rw [safeRunForBrowser, h]
    rfl
  rw [runStatus]
  simp only [hsafe]
  rw [pollOf_eq hs, safeQueueLabel_polled]

omit [PyText] [PyUnicode] in
theorem modelValidate_cases {fields : BrowserRow} :
    modelValidate printing fields = .ok fields ∨ modelValidate printing fields = .error .invalid := by
  rw [modelValidate]
  split
  · exact .inl rfl
  · exact .inr rfl

omit [PyText] [PyUnicode] in
theorem presentation_none {op : Op} {detail : ErrorDetail} (latest : Option (Nat × Nat))
    (hcause : Cause op reason detail) :
    presentation none op = presentation latest op ∨ ∃ job result, op = .settlePipelineJob job result ∧
      result.outcome = .terminal ∧
      presentation none op = { presentation latest op with attempts := none } := by
  cases hcause with
  | @terminal job result hresult =>
      refine .inr ⟨job, result, rfl, hresult, ?_⟩
      have hfirst : ¬result.outcome = .retryable := by
        rw [hresult]
        decide
      simp only [presentation, if_neg hfirst, shown]
      split
      · rfl
      · rfl
  | @exhausted job result hresult =>
      refine .inl ?_
      simp only [presentation, if_pos hresult]
  | reaped => exact .inl rfl
  | recorded => exact .inl rfl

/-- How the failure of a poll relates to that of the list. -/
def Polled (r : Uuid) (log : List Commit) (listed polled : FailurePresentation) : Prop :=
  polled = listed ∨ ∃ c job result, UnaccountedErrors.failure r log = some c ∧
    c.op = .settlePipelineJob job result ∧
    result.outcome = .terminal ∧ polled = { listed with attempts := none }

theorem presented {w : World Op Ans Exn Db Commit}
    (hreach : World.Reach recorder thread World.Rules.any Start w)
    (wording : Wording) (joined : Joined) (stored : Stored) (hrun : w.data.runs.get? r = some run) :
    ∃ listed polled, safeFailurePresentation (loadAllRunsRow wording joined w.data r run) = .ok listed ∧
      safeFailurePresentation (polledRow wording stored (.ok (getRunQueueLabel r w.data)) r run) =
      .ok polled ∧ Polled r w.log listed polled := by
  by_cases herror : run.status = .error
  · obtain ⟨c, reason, detail, hfailure, hreason, hdetail, hcause⟩ :=
      (FailedRuns.preserved.reach hreach).1.failed r run hrun herror
    have hpolled := @failed_polledRow _ _ wording stored r run reason
      (.ok (getRunQueueLabel r w.data)) herror hreason
    rw [hdetail, Option.bind_some] at hpolled
    refine ⟨_, _, present_cause hcause herror hreason hdetail, present_failed hcause hpolled, ?_⟩
    obtain hsame | ⟨job, result, hop, hterminal, hless⟩ := presentation_none (latestJob r w.data) hcause
    · exact .inl hsame
    · exact .inr ⟨c, job, result, hfailure, hop, hterminal, hless⟩
  · refine ⟨_, _, present_unfailed ?_ herror, present_unfailed ?_ herror, .inl rfl⟩
    · simp [loadAllRunsRow, column, Dict.ofList, Dict.get?_set]
    · simp [polledRow, loadRunRow, column, Dict.ofList, Dict.get?_set]

/-- In every state a poll replaces the volatile half of a list row by what the
list itself would show, but for the attempts of a terminal failure. -/
theorem poll_agrees {w : World Op Ans Exn Db Commit}
    (hreach : World.Reach recorder thread World.Rules.any Start w)
    (wording : Wording) (joined : Joined) (stored : Stored) (printing : Printing)
    (hrun : w.data.runs.get? r = some run) :
    let row := runListRowFromRun printing (loadAllRunsRow wording joined w.data r run)
    let answer := runStatus printing (.ok (some (loadRunRow wording stored r run)))
      (.ok (getRunQueueLabel r w.data))
    ((∃ out, row = .ok out) ∨ row = .error .invalid) ∧
      ((∃ poll, answer = .ok poll) ∨ answer = .error (.refused .invalid)) ∧
      ∀ out poll, row = .ok out → answer = .ok poll →
        poll.keys = volatile ∧ (∀ k ∈ volatile, k ≠ "failure".toList → poll.get? k = out.get? k) ∧
          ∃ listed polled, out.get? "failure".toList = some (.failure listed) ∧
            poll.get? "failure".toList = some (.failure polled) ∧ Polled r w.log listed polled := by
  obtain ⟨listed, polled, hlisted, hpolled, hdiffer⟩ := presented hreach wording joined stored hrun
  have hrow := @listed_of_presented _ _ wording joined printing r run w.data listed hlisted
  have hanswer := @polled_of_presented _ _ wording stored printing r run w.data polled hpolled
  dsimp only
  refine ⟨?_, ?_, fun out poll hout hpoll => ?_⟩
  · rw [hrow]
    exact modelValidate_cases.imp_left fun h => ⟨_, h⟩
  · rw [hanswer]
    obtain h | h := modelValidate_cases
    · rw [h]
      exact .inl ⟨_, rfl⟩
    · rw [h]
      exact .inr rfl
  · have hs : (loadAllRunsRow wording joined w.data r run).get? "status".toList =
      some (.text run.status.value) := by
      simp [loadAllRunsRow, Dict.ofList, Dict.get?_set]
    have hpolled : poll = fieldsOf printing run.status.value
      ((getRunQueueLabel r w.data).map QueueLabel.text) polled := by
      rw [hanswer] at hpoll
      obtain h | h := modelValidate_cases
      · rw [h] at hpoll
        exact (Except.ok.inj hpoll).symm
      · rw [h] at hpoll
        cases hpoll
    have hfields : ∀ k ∈ volatile, out.get? k =
        (fieldsOf printing run.status.value ((getRunQueueLabel r w.data).map QueueLabel.text)
        listed).get? k := by
      intro k hk
      have hdeclared : ∀ k ∈ volatile, k ∈ modelFields := by decide
      obtain ⟨failure, hpresent, hget⟩ := get?_out hout
      obtain rfl := Except.ok.inj (hpresent.symm.trans hlisted)
      rw [hget, if_pos (hdeclared k hk), get?_reducedRow_volatile hs hk, safeQueueLabel_listed]
    subst hpolled
    refine ⟨rfl, fun k hk hne => ?_, listed, polled, ?_, ?_, hdiffer⟩
    · rw [hfields k hk]
      simp only [volatile, names, List.map_cons, List.map_nil, List.mem_cons, List.not_mem_nil,
        or_false] at hk
      rcases hk with rfl | rfl | rfl | rfl | rfl | rfl | rfl
      case inr.inr.inr.inl => exact absurd rfl hne
      all_goals simp [fieldsOf, Dict.ofList, Dict.get?_set]
    · rw [hfields _ (by decide)]
      simp [fieldsOf, Dict.ofList, Dict.get?_set]
    · simp [fieldsOf, Dict.ofList, Dict.get?_set]

end

section Histories

attribute [local instance] asciiText asciiUnicode

def plain : Printing := ⟨fun tag => (toString tag).toList, id, fun _ => "2026-01-01 00:00".toList,
    fun _ => true⟩

def blankStored : Stored := ⟨.null, .null, .null, .null, .null, .null, .null, .null⟩

theorem poll_agrees_once : ∃ run out poll,
    (recordedAfter BoundedQuestions.emptyDb UnaccountedErrors.failedOnce).data.runs.get? 11 = some run ∧
      runListRowFromRun plain (loadAllRunsRow notFound acme
        (recordedAfter BoundedQuestions.emptyDb UnaccountedErrors.failedOnce).data 11 run) = .ok out ∧
      runStatus plain (.ok (some (loadRunRow notFound blankStored 11 run)))
        (.ok (getRunQueueLabel 11
          (recordedAfter BoundedQuestions.emptyDb UnaccountedErrors.failedOnce).data)) = .ok poll ∧
      ∀ k ∈ volatile, k ≠ "failure".toList → poll.get? k = out.get? k := by
  have hreach := reach_recordedAfter start_emptyDb UnaccountedErrors.failedOnce
  have hshown : ((recordedAfter BoundedQuestions.emptyDb
      UnaccountedErrors.failedOnce).data.runs.get? 11).any (fun run =>
      (runListRowFromRun plain (loadAllRunsRow notFound acme
        (recordedAfter BoundedQuestions.emptyDb UnaccountedErrors.failedOnce).data 11 run)).isOk &&
      (runStatus plain (.ok (some (loadRunRow notFound blankStored 11 run)))
        (.ok (getRunQueueLabel 11
          (recordedAfter BoundedQuestions.emptyDb UnaccountedErrors.failedOnce).data))).isOk) =
      true := by decide +kernel
  generalize recordedAfter BoundedQuestions.emptyDb UnaccountedErrors.failedOnce = w at *
  obtain ⟨run, hrun, hok⟩ := (Option.any_eq_true _ _).mp hshown
  have hagree := poll_agrees hreach notFound acme blankStored plain hrun
  dsimp only at hagree
  obtain ⟨-, -, hagree⟩ := hagree
  obtain ⟨hlisted, hpolled⟩ := Bool.and_eq_true_iff.mp hok
  cases hout : runListRowFromRun plain (loadAllRunsRow notFound acme w.data 11 run) with
  | error e =>
      rw [hout] at hlisted
      cases hlisted
  | ok out =>
      cases hpoll : runStatus plain (.ok (some (loadRunRow notFound blankStored 11 run)))
          (.ok (getRunQueueLabel 11 w.data)) with
      | error e =>
          rw [hpoll] at hpolled
          cases hpolled
      | ok poll => exact ⟨run, out, poll, hrun, hout, hpoll, (hagree out poll hout hpoll).2.1⟩

end Histories

end PayrollAgent.RunStatusPoll
