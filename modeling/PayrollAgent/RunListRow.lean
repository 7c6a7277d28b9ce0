import PayrollAgent.FailedRuns
import PayrollAgent.Lib.Result

namespace PayrollAgent.RunListRow

open Lib Repo Handlers Commits Diagnostics FailedRuns

inductive Cell
  | value (v : Value)
  | failure (p : FailurePresentation)
  deriving DecidableEq, Repr

abbrev BrowserRow := Dict Str Cell

def names (l : List String) : List Str := l.map String.toList

def queueLabels : List Str := names ["Running", "Queued", "Retry queued"]

def queueBadgeClasses : List (Str × Str) :=
  [("Running".toList, "running".toList), ("Queued".toList, "neutral".toList),
    ("Retry queued".toList, "neutral".toList)]

/-- The label of the row, where it is one of the three. -/
def safeQueueLabel (run : Row) : Option Str :=
  match column run "queue_label" with
  | .text s => if s ∈ queueLabels then some s else none
  | _ => none

def queueBadgeClass (label : Option Str) : Str :=
  (label.bind fun s => queueBadgeClasses.lookup s).getD "neutral".toList

def rawFields : List Str :=
  names ["error_reason", "error_detail", "last_error", "available_at", "attempts", "max_attempts",
    "payload", "diagnostics"]

def stripped (field : Str) : Bool := field ∈ rawFields || "job_".toList.isPrefixOf field

def withQueueState (run : Row) (failure : FailurePresentation) : BrowserRow :=
  ((((run.mapValues fun _ v => Cell.value v).set "failure".toList (.failure failure)).set "queue_label".toList
    (.value (.ofText (safeQueueLabel run)))).set "queue_badge_class".toList
      (.value (.text (queueBadgeClass (safeQueueLabel run))))).set "has_open_job".toList
        (.value (.bool (safeQueueLabel run).isSome))

def safeRunForBrowser (run : Row) : Except Exn BrowserRow := do
  let failure ← safeFailurePresentation run
  .ok ((withQueueState run failure).deleteWhere fun field _ => stripped field)

def badgeClasses : List (Str × Str) :=
  [("received".toList, "neutral".toList), ("extracting".toList, "neutral".toList),
    ("awaiting_reply".toList, "neutral".toList), ("approved".toList, "neutral".toList),
    ("computed".toList, "neutral".toList), ("awaiting_approval".toList, "pending".toList),
    ("sent".toList, "good".toList), ("reconciled".toList, "good".toList),
    ("rejected".toList, "bad".toList),
    ("error".toList, "bad".toList), ("needs_operator".toList, "escalate".toList)]

def badgeLabels : List (Str × Str) :=
  [("received".toList, "Received".toList), ("extracting".toList, "Extracting".toList),
    ("awaiting_reply".toList, "Awaiting Reply".toList),
    ("awaiting_approval".toList, "Needs Approval".toList),
    ("approved".toList, "Approved".toList), ("computed".toList, "Computed".toList),
    ("sent".toList, "Sent".toList),
    ("reconciled".toList, "Complete".toList), ("rejected".toList, "Rejected".toList),
    ("error".toList, "Error".toList), ("needs_operator".toList, "Needs Operator".toList)]

/-- How Python prints what is no text, and a time, and the checks of the declared
types. -/
structure Printing where
  str : Nat → Str
  title : Str → Str
  strftime : Value → Str
  validates : BrowserRow → Bool

/-- `str(value)`. -/
def strOf (printing : Printing) : Value → Str
  | .null => "None".toList
  | .bool true => "True".toList
  | .bool false => "False".toList
  | .int n => (toString n).toList
  | .text s => s
  | .other tag => printing.str tag

def badgeClassFilter (status : Str) : Str := (badgeClasses.lookup status).getD "neutral".toList

def badgeLabelFilter (printing : Printing) (status : Str) : Str :=
  (badgeLabels.lookup status).getD (printing.title (status.map fun c => if c = '_' then ' ' else c))

def formatCreatedAt (printing : Printing) : Value → Str
  | .null => "—".toList
  | v => printing.strftime v

/-- `safe_run.get(field)`, where the field holds a column. -/
def cell (row : BrowserRow) (field : String) : Option Value :=
  match row.get? field.toList with
  | some (.value v) => some v
  | _ => none

def modelFields : List Str :=
  names ["status", "badge_class", "badge_label", "failure", "queue_label", "queue_badge_class",
    "has_open_job", "id",
    "created_at", "created_at_display", "business_name", "summary_gate_reason", "employee_count"]

def excluded : List Str :=
  names ["business_id", "error_reason", "error_detail", "updated_at", "job_attempts",
    "job_max_attempts", "source_email_id",
    "reply_epoch", "alias_candidates", "extracted_data", "reconciliation", "decision",
      "pre_clarify_extracted",
    "clarified_fields", "hours_changes", "clarification_round", "pay_period_start",
      "pay_period_end", "record_only",
    "_error_accounted"]

inductive Refusal
  | raised (e : Exn)
  | unclassified (columns : List Str)
  | invalid
  deriving DecidableEq

def unknownColumns (row : BrowserRow) : List Str := row.keys.filter fun k => k ∉ modelFields ∧
    k ∉ excluded

def modelValidate (printing : Printing) (fields : BrowserRow) : Except Refusal BrowserRow :=
  if printing.validates fields then .ok fields else .error .invalid

def fromRow (printing : Printing) (row : BrowserRow) : Except Refusal BrowserRow :=
  if unknownColumns row = [] then
    modelValidate printing (row.deleteWhere fun field _ => decide (field ∉ modelFields))
  else .error (.unclassified (Text.sorted (unknownColumns row)))

def withBadge (printing : Printing) (row : BrowserRow) : BrowserRow :=
  let status := strOf printing ((cell row "status").getD (.text []))
  ((row.set "badge_class".toList (.value (.text (badgeClassFilter status)))).set "badge_label".toList
    (.value (.text (badgeLabelFilter printing status)))).set "created_at_display".toList
      (.value (.text (formatCreatedAt printing ((cell row "created_at").getD .null))))

def runListRowFromRun (printing : Printing) (run : Row) : Except Refusal BrowserRow :=
  match safeRunForBrowser run with
  | .error e => .error (.raised e)
  | .ok safe => fromRow printing (withBadge printing safe)

section Reduced

variable {run run' : Row} {printing : Printing} {failure : FailurePresentation} {k j : Str}
    {c : Cell} {d : BrowserRow} {p : Str → Cell → Bool} {out out' : BrowserRow}

def exposed : List Str :=
  names ["id", "status", "created_at", "business_name", "summary_gate_reason", "employee_count",
    "queue_label"]

theorem get?_deleteWhere_of_not (h : ∀ c, p k c = false) : (d.deleteWhere p).get? k = d.get? k := by
  apply Option.ext
  intro c
  rw [Dict.get?_deleteWhere]
  exact ⟨And.left, fun hc => ⟨hc, h c⟩⟩

theorem get?_deleteWhere_of (h : ∀ c, p k c = true) : (d.deleteWhere p).get? k = none := by
  apply Option.eq_none_iff_forall_ne_some.mpr
  intro c hc
  rw [Dict.get?_deleteWhere, h c] at hc
  cases hc.2

theorem mem_keys_deleteWhere {q : Str → Bool} : k ∈ (d.deleteWhere fun field _ => q field).keys ↔
    k ∈ d.keys ∧ q k = false := by
  simp only [Dict.mem_keys_iff, Dict.get?_deleteWhere]
  constructor
  · rintro ⟨c, hc, hq⟩
    exact ⟨⟨c, hc⟩, hq⟩
  · rintro ⟨⟨c, hc⟩, hq⟩
    exact ⟨c, hc, hq⟩

theorem mem_keys_set : k ∈ (d.set j c).keys ↔ k = j ∨ k ∈ d.keys := Dict.mem_put_keys j c d.entries k

theorem mem_keys_withQueueState : k ∈ (withQueueState run failure).keys ↔
    k ∈ names ["has_open_job", "queue_badge_class", "queue_label", "failure"] ∨ k ∈ run.keys := by
  have hkeys : k ∈ (run.mapValues fun _ v => Cell.value v).keys ↔ k ∈ run.keys := by
    simp [Dict.keys, Dict.mapValues, Function.comp_def]
  simp only [withQueueState, mem_keys_set, hkeys, names, List.map_cons, List.map_nil, List.mem_cons,
    List.not_mem_nil, or_false, or_assoc]

theorem mem_keys_withBadge : k ∈ (withBadge printing d).keys ↔
    k ∈ names ["created_at_display", "badge_label", "badge_class"] ∨ k ∈ d.keys := by
  unfold withBadge
  rw [mem_keys_set, mem_keys_set, mem_keys_set]
  simp only [names, List.map_cons, List.map_nil, List.mem_cons, List.not_mem_nil, or_false, or_assoc]

def reducedRow (printing : Printing) (run : Row) (failure : FailurePresentation) : BrowserRow :=
  withBadge printing ((withQueueState run failure).deleteWhere fun field _ => stripped field)

theorem runListRowFromRun_of_ok (h : safeFailurePresentation run = .ok failure) :
    runListRowFromRun printing run = fromRow printing (reducedRow printing run failure) := by
  rw [runListRowFromRun, safeRunForBrowser, h]
  rfl

theorem mem_unknownColumns : k ∈ unknownColumns (reducedRow printing run failure) ↔
    k ∈ run.keys ∧ k ∉ modelFields ∧ k ∉ excluded ∧ stripped k = false := by
  have hdeclared : ∀ k ∈ names ["has_open_job", "queue_badge_class", "queue_label", "failure"],
    k ∈ modelFields := by decide
  have hbadge : ∀ k ∈ names ["created_at_display", "badge_label", "badge_class"],
    k ∈ modelFields := by decide
  simp only [unknownColumns, List.mem_filter, decide_eq_true_eq, reducedRow, mem_keys_withBadge,
    mem_keys_deleteWhere, mem_keys_withQueueState]
  constructor
  · rintro ⟨hmem | ⟨hmem | hmem, hstripped⟩, hfields, hexcluded⟩
    · exact absurd (hbadge k hmem) hfields
    · exact absurd (hdeclared k hmem) hfields
    · exact ⟨hmem, hfields, hexcluded, hstripped⟩
  · rintro ⟨hmem, hfields, hexcluded, hstripped⟩
    exact ⟨.inr ⟨.inr hmem, hstripped⟩, hfields, hexcluded⟩

def Unclassified (run : Row) (k : Str) : Prop := k ∈ run.keys ∧ k ∉ modelFields ∧ k ∉ excluded ∧
    stripped k = false

theorem fromRow_ok_iff : fromRow printing (reducedRow printing run failure) = .ok out ↔
    (∀ k, ¬Unclassified run k) ∧
      (reducedRow printing run failure).deleteWhere (fun field _ => decide (field ∉ modelFields)) = out ∧
        printing.validates out = true := by
  have hnil : unknownColumns (reducedRow printing run failure) = [] ↔ ∀ k, ¬Unclassified run k := by
    rw [List.eq_nil_iff_forall_not_mem]
    exact forall_congr' fun k => not_congr mem_unknownColumns
  rw [fromRow, ← hnil]
  split
  next h =>
    rw [modelValidate]
    split
    next hvalid =>
      constructor
      · intro hout
        obtain rfl := Except.ok.inj hout
        exact ⟨h, rfl, hvalid⟩
      · rintro ⟨-, rfl, -⟩
        rfl
    next hinvalid =>
      constructor
      · intro hout
        cases hout
      · rintro ⟨-, rfl, hvalid⟩
        exact absurd hvalid hinvalid
  next h =>
    constructor
    · intro hout
      cases hout
    · exact fun hout => absurd hout.1 h

theorem runListRowFromRun_ok_iff : runListRowFromRun printing run = .ok out ↔
    ∃ failure, safeFailurePresentation run = .ok failure ∧ (∀ k, ¬Unclassified run k) ∧
      (reducedRow printing run failure).deleteWhere (fun field _ => decide (field ∉ modelFields)) = out ∧
        printing.validates out = true := by
  cases hpresent : safeFailurePresentation run with
  | error e =>
      rw [runListRowFromRun, safeRunForBrowser, hpresent]
      constructor
      · intro h
        cases h
      · rintro ⟨failure, h, -⟩
        cases h
  | ok failure =>
      rw [runListRowFromRun_of_ok hpresent, fromRow_ok_iff]
      constructor
      · exact fun h => ⟨failure, rfl, h⟩
      · rintro ⟨failure', h, hout⟩
        cases h
        exact hout

theorem unclassified_named {columns : List Str}
    (h : runListRowFromRun printing run = .error (.unclassified columns))
    (k : Str) : k ∈ columns ↔ Unclassified run k := by
  cases hpresent : safeFailurePresentation run with
  | error e =>
      rw [runListRowFromRun, safeRunForBrowser, hpresent] at h
      cases h
  | ok failure =>
      rw [runListRowFromRun_of_ok hpresent, fromRow, modelValidate] at h
      split at h
      · split at h
        · cases h
        · cases h
      · obtain rfl := Refusal.unclassified.inj (Except.error.inj h)
        rw [(Text.sorted_perm _).mem_iff]
        exact mem_unknownColumns

theorem get?_withQueueState_congr (h : ∀ j ∈ exposed, run.get? j = run'.get? j) (hk : k ∈ modelFields)
    (hbadge : k ∉ names ["created_at_display", "badge_label", "badge_class"]) :
    (withQueueState run failure).get? k = (withQueueState run' failure).get? k := by
  have hlabel : safeQueueLabel run = safeQueueLabel run' := by
    rw [safeQueueLabel, safeQueueLabel, column, column, h _ (by decide)]
  have hshown : ∀ j ∈ modelFields, j ∉ names ["created_at_display", "badge_label", "badge_class"] →
      j ∈ exposed ∨ j ∈ names ["has_open_job", "queue_badge_class", "queue_label", "failure"] := by decide
  simp only [withQueueState, Dict.get?_set, Dict.get?_mapValues, hlabel]
  obtain hcolumn | hderived := hshown k hk hbadge
  · rw [h k hcolumn]
  · simp only [names, List.map_cons, List.map_nil, List.mem_cons, List.not_mem_nil, or_false] at hderived
    rcases hderived with rfl | rfl | rfl | rfl <;> simp

theorem get?_kept_congr (h : ∀ j ∈ exposed, run.get? j = run'.get? j) (hk : k ∈ modelFields)
    (hbadge : k ∉ names ["created_at_display", "badge_label", "badge_class"]) :
    ((withQueueState run failure).deleteWhere fun field _ => stripped field).get? k =
      ((withQueueState run' failure).deleteWhere fun field _ => stripped field).get? k := by
  cases hstripped : stripped k with
  | true => rw [get?_deleteWhere_of fun _ => hstripped, get?_deleteWhere_of fun _ => hstripped]
  | false =>
      rw [get?_deleteWhere_of_not fun _ => hstripped, get?_deleteWhere_of_not fun _ => hstripped]
      exact get?_withQueueState_congr h hk hbadge

theorem get?_reducedRow_congr (h : ∀ j ∈ exposed, run.get? j = run'.get? j) (hk : k ∈ modelFields) :
    (reducedRow printing run failure).get? k = (reducedRow printing run' failure).get? k := by
  have hkept : ∀ j ∈ modelFields, j ∉ names ["created_at_display", "badge_label", "badge_class"] →
      ((withQueueState run failure).deleteWhere fun field _ => stripped field).get? j =
        ((withQueueState run' failure).deleteWhere fun field _ => stripped field).get? j :=
        fun _ => get?_kept_congr h
  have hstatus := hkept "status".toList (by decide) (by decide)
  have hcreated := hkept "created_at".toList (by decide) (by decide)
  unfold reducedRow withBadge cell
  simp only [Dict.get?_set, hstatus, hcreated]
  by_cases hbadge : k ∈ names ["created_at_display", "badge_label", "badge_class"]
  · simp only [names, List.map_cons, List.map_nil, List.mem_cons, List.not_mem_nil, or_false] at hbadge
    rcases hbadge with rfl | rfl | rfl <;> simp
  · rw [hkept k hk hbadge]

end Reduced

section Vocabulary

variable {run : Row} {failure : FailurePresentation} {errorReason : Str} {groups : Groups}

structure Labelled (failure : FailurePresentation) : Prop where
  secondaryLabel : failure.secondaryLabel = none ∨
    failure.secondaryLabel = some "Retries exhausted".toList
  stage : ∃ label ∈ stageLabels.map Prod.snd, failure.stage = some label
  reason : ∃ label ∈ reasonLabels.map Prod.snd, failure.reason = some label
  attempts : ∀ text, failure.attempts = some text →
    ∃ current maximum : Int, 1 ≤ current ∧ current ≤ maximum ∧ maximum ≤ 100 ∧
    text = attemptsText current maximum

def InVocabulary (failure : FailurePresentation) : Prop := failure = generic ∨ Labelled failure

theorem boundedText_some {current maximum : Option Int} {text : Str}
    (h : boundedText current maximum = some text) :
    ∃ current maximum : Int, 1 ≤ current ∧ current ≤ maximum ∧ maximum ≤ 100 ∧
      text = attemptsText current maximum := by
  unfold boundedText at h
  split at h
  next current maximum =>
    split at h
    next hbounds =>
      exact ⟨current, maximum, hbounds.1, hbounds.2.1, hbounds.2.2, (Option.some.inj h).symm⟩
    next => cases h
  next => cases h

theorem boundedAttempts_some {attempts maxAttempts : Value} {text : Str}
    (h : boundedAttempts attempts maxAttempts = .ok (some text)) :
    ∃ current maximum : Int, 1 ≤ current ∧ current ≤ maximum ∧ maximum ≤ 100 ∧
      text = attemptsText current maximum := by
  unfold boundedAttempts at h
  split at h
  · cases h
  · obtain ⟨current, -, h⟩ := Result.bind_ok.mp h
    obtain ⟨maximum, -, h⟩ := Result.bind_ok.mp h
    exact boundedText_some (Except.ok.inj h)

theorem attemptsShown_bounded {text : Str} (h : attemptsShown run groups = .ok (some text)) :
    ∃ current maximum : Int, 1 ≤ current ∧ current ≤ maximum ∧ maximum ≤ 100 ∧
    text = attemptsText current maximum := by
  unfold attemptsShown at h
  obtain ⟨attempts, hattempts, h⟩ := Result.bind_ok.mp h
  cases attempts with
  | some text' =>
      obtain rfl := Option.some.inj (Except.ok.inj h)
      exact boundedAttempts_some hattempts
  | none => exact boundedAttempts_some h

theorem lookup_mem_snd {l : List (Str × Str)} {k v : Str} (h : l.lookup k = some v) :
    v ∈ l.map Prod.snd := by
  obtain ⟨l₁, l₂, rfl, -⟩ := List.lookup_eq_some_iff.mp h
  simp

theorem presentGroups_inVocabulary (h : presentGroups run errorReason groups = .ok failure) :
    InVocabulary failure := by
  unfold presentGroups at h
  split at h
  next stage reason hstage hreason =>
    split at h
    · obtain ⟨attempts, hattempts, h⟩ := Result.bind_ok.mp h
      obtain rfl := Except.ok.inj h
      refine .inr ⟨?_, ⟨stage, lookup_mem_snd hstage, rfl⟩, ⟨reason, lookup_mem_snd hreason, rfl⟩, ?_⟩
      · dsimp only
        split
        · exact .inr rfl
        · exact .inl rfl
      · rintro text rfl
        exact attemptsShown_bounded hattempts
    · exact .inl (Except.ok.inj h).symm
  next => exact .inl (Except.ok.inj h).symm

theorem safeFailurePresentation_inVocabulary (h : safeFailurePresentation run = .ok failure) :
    InVocabulary failure := by
  unfold safeFailurePresentation at h
  split at h
  · exact .inl (Except.ok.inj h).symm
  · split at h
    · split at h
      · exact .inl (Except.ok.inj h).symm
      · exact presentGroups_inVocabulary h
    · exact .inl (Except.ok.inj h).symm

end Vocabulary

section Output

variable {run run' : Row} {printing : Printing} {out out' : BrowserRow}
    {failure : FailurePresentation} {k : Str}

theorem get?_out (h : runListRowFromRun printing run = .ok out) :
    ∃ failure, safeFailurePresentation run = .ok failure ∧
    ∀ k, out.get? k = if k ∈ modelFields then (reducedRow printing run failure).get? k else none := by
  obtain ⟨failure, hpresent, -, rfl, -⟩ := runListRowFromRun_ok_iff.mp h
  refine ⟨failure, hpresent, fun k => ?_⟩
  split
  next hk => exact get?_deleteWhere_of_not fun _ => by simp [hk]
  next hk => exact get?_deleteWhere_of fun _ => by simp [hk]

theorem get?_reducedRow_of (hstripped : stripped k = false)
    (hbadge : k ∉ names ["created_at_display", "badge_label", "badge_class"]) :
    (reducedRow printing run failure).get? k = (withQueueState run failure).get? k := by
  simp only [names, List.map_cons, List.map_nil, List.mem_cons, List.not_mem_nil, or_false,
    not_or] at hbadge
  obtain ⟨hdisplay, hlabel, hclass⟩ := hbadge
  unfold reducedRow withBadge
  rw [Dict.get?_set_of_ne _ hdisplay, Dict.get?_set_of_ne _ hlabel, Dict.get?_set_of_ne _ hclass,
    get?_deleteWhere_of_not fun _ => hstripped]

theorem get?_reducedRow_failure :
    (reducedRow printing run failure).get? "failure".toList = some (.failure failure) := by
  rw [get?_reducedRow_of (by decide) (by decide)]
  simp [withQueueState, Dict.get?_set]

theorem get?_reducedRow_queueLabel : (reducedRow printing run failure).get? "queue_label".toList =
    some (.value (.ofText (safeQueueLabel run))) := by
  rw [get?_reducedRow_of (by decide) (by decide)]
  simp [withQueueState, Dict.get?_set]

theorem safeQueueLabel_mem {label : Str} (h : safeQueueLabel run = some label) : label ∈ queueLabels := by
  unfold safeQueueLabel at h
  split at h
  · split at h
    next hmem =>
      obtain rfl := Option.some.inj h
      exact hmem
    next => cases h
  · cases h

/-- Whatever a row holds, the browser gets it in full vocabulary or not at all: a
column no one classified refuses the row by name, no undeclared field leaves, the
failure and the queue label keep to their words, and two rows that differ in
other columns than the exposed ones, but present one failure, look the same. -/
theorem browser_sees_exposed (printing : Printing) (run : Row) :
    (∀ columns, runListRowFromRun printing run = .error (.unclassified columns) →
      ∀ k, k ∈ columns ↔ Unclassified run k) ∧
    ∀ out, runListRowFromRun printing run = .ok out →
      (∀ k, ¬Unclassified run k) ∧ (∀ k ∈ out.keys, k ∈ modelFields) ∧
      (∃ failure, out.get? "failure".toList = some (.failure failure) ∧ InVocabulary failure) ∧
      (∃ label, out.get? "queue_label".toList = some (.value (.ofText label)) ∧ ∀ s,
      label = some s → s ∈ queueLabels) ∧ ∀ run' out', runListRowFromRun printing run' = .ok out' →
        safeFailurePresentation run' = safeFailurePresentation run →
        (∀ j ∈ exposed, run.get? j = run'.get? j) → ∀ k, out.get? k = out'.get? k := by
  refine ⟨fun columns h => unclassified_named h, fun out h => ?_⟩
  obtain ⟨failure, hpresent, hout⟩ := get?_out h
  obtain ⟨-, -, hclassified, -⟩ := runListRowFromRun_ok_iff.mp h
  refine ⟨hclassified, fun k hk => ?_, ⟨failure, ?_, safeFailurePresentation_inVocabulary hpresent⟩,
    ⟨safeQueueLabel run, ?_, fun s => safeQueueLabel_mem⟩, fun run' out' h' hsame hagree k => ?_⟩
  · obtain ⟨c, hc⟩ := (Dict.mem_keys_iff _ _).mp hk
    rw [hout] at hc
    split at hc
    next hfield => exact hfield
    next => cases hc
  · rw [hout, if_pos (by decide), get?_reducedRow_failure]
  · rw [hout, if_pos (by decide), get?_reducedRow_queueLabel]
  · obtain ⟨failure', hpresent', hout'⟩ := get?_out h'
    rw [hpresent', hpresent] at hsame
    cases hsame
    rw [hout, hout']
    split
    next hfield => exact get?_reducedRow_congr hagree hfield
    next => rfl

end Output

end PayrollAgent.RunListRow
