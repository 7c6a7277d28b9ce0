import PayrollAgent.RunListRow
import PayrollAgent.Lib.Json

namespace PayrollAgent.DataIsland

open Lib Repo Handlers Diagnostics RunListRow

def jsonScriptEscapes : List (Char × Str) :=
  [('<', "\\u003c".toList), ('>', "\\u003e".toList), ('&', "\\u0026".toList)]

/-- `raw.replace(char, escape)`. -/
def replaceChar (raw : Str) (e : Char × Str) : Str := raw.flatMap fun c => if c = e.1 then e.2 else [c]

def jsonScript (raw : Str) : Str := jsonScriptEscapes.foldl replaceChar raw

/-- How the model writes what is no JSON type, and the order of a set. -/
structure Serializing where
  foreign : Nat → Str
  inFlight : List Str

def valueJson (serializing : Serializing) : Value → Json.Value Str
  | .null => .leaf .null
  | .bool b => .leaf (.bool b)
  | .int n => .leaf (.number (Json.decimal n))
  | .text s => .text s
  | .other tag => .text (serializing.foreign tag)

def optionJson : Option Str → Json.Value Str
  | none => .leaf .null
  | some s => .text s

def failureJson (failure : FailurePresentation) : Json.Value Str :=
  .object [("secondary_label".toList, optionJson failure.secondaryLabel),
    ("stage".toList, optionJson failure.stage),
    ("reason".toList, optionJson failure.reason), ("attempts".toList, optionJson failure.attempts)]

def cellJson (serializing : Serializing) : Cell → Json.Value Str
  | .value v => valueJson serializing v
  | .failure p => failureJson p

/-- The declared defaults; a field that has none is required. -/
def fieldDefaults : List (Str × Value) :=
  [("created_at".toList, .null), ("business_name".toList, .text []),
    ("summary_gate_reason".toList, .null), ("employee_count".toList, .int 0)]

def fieldCell (row : BrowserRow) (field : Str) : Cell :=
  (row.get? field).getD (.value ((fieldDefaults.lookup field).getD .null))

/-- `model_dump_json` walks the fields as they are declared. -/
def rowJson (serializing : Serializing) (row : BrowserRow) : Json.Value Str :=
  .object (modelFields.map fun field => (field, cellJson serializing (fieldCell row field)))

def pageJson (serializing : Serializing) (rows : List BrowserRow) : Json.Value Str :=
  .object [("runs".toList, .array (rows.map (rowJson serializing))),
    ("in_flight_statuses".toList, .array (serializing.inFlight.map .text))]

def closingTag : Str := "</script>".toList

/-- `GET /runs`, from the data island on. -/
def runsList (printing : Printing) (serializing : Serializing) (runs : List Row) (after : Str) :
    Except RunListRow.Refusal Str := do
  let rows ← runs.mapM (runListRowFromRun printing)
  .ok (jsonScript (Json.dump (pageJson serializing rows)) ++ closingTag ++ after)

/-- What a browser takes as the text of the script element that the markup stands in,
where its first `<` is the end tag. -/
def scriptText (markup : Str) : Option Str :=
  if closingTag.isPrefixOf (markup.dropWhile (· ≠ '<')) then some (markup.takeWhile (· ≠ '<')) else none

def readInitialData (markup : Str) : Option (Json.Value Json.Units) := (scriptText markup).bind Json.parse

section Escapes

variable {raw : Str} {c : Char}

def hide (c : Char) : Bool := c = '<' || c = '>' || c = '&'

theorem foreign_of_hide (h : hide c = true) : Json.Foreign c := by
  have hthree : (c = '<' ∨ c = '>') ∨ c = '&' := by simpa [hide] using h
  rcases hthree with (rfl | rfl) | rfl
  all_goals exact ⟨by decide, by decide, by decide, by decide, by decide, by decide, by decide, by decide⟩

theorem jsonScript_cons (c : Char) (raw : Str) :
    jsonScript (c :: raw) = jsonScript [c] ++ jsonScript raw := by
  simp [jsonScript, jsonScriptEscapes, replaceChar]

theorem jsonScript_lt : jsonScript ['<'] = Json.hidden hide '<' := by decide

theorem jsonScript_gt : jsonScript ['>'] = Json.hidden hide '>' := by decide

theorem jsonScript_amp : jsonScript ['&'] = Json.hidden hide '&' := by decide

theorem jsonScript_single (c : Char) : jsonScript [c] = Json.hidden hide c := by
  by_cases hlt : c = '<'
  · rw [hlt, jsonScript_lt]
  by_cases hgt : c = '>'
  · rw [hgt, jsonScript_gt]
  by_cases hamp : c = '&'
  · rw [hamp, jsonScript_amp]
  simp [jsonScript, jsonScriptEscapes, replaceChar, hlt, hgt, hamp, Json.hidden, hide]

theorem jsonScript_eq (raw : Str) : jsonScript raw = raw.flatMap (Json.hidden hide) := by
  induction raw with
  | nil => rfl
  | cons c raw ih => rw [jsonScript_cons, jsonScript_single, ih, List.flatMap_cons]

theorem hide_unicodeEscape {n : Nat} : ∀ c ∈ Json.unicodeEscape n, hide c = false := by
  have hdigit : ∀ d < 16, hide (Json.hexDigit d) = false := by decide
  have hmod : ∀ m, hide (Json.hexDigit (m % 16)) = false := fun m => hdigit _ (Nat.mod_lt _ (by omega))
  intro c hc
  simp only [Json.unicodeEscape, List.mem_cons, List.not_mem_nil, or_false] at hc
  rcases hc with rfl | rfl | rfl | rfl | rfl | rfl
  · decide
  · decide
  all_goals exact hmod _

theorem hide_jsonScript : ∀ c ∈ jsonScript raw, hide c = false := by
  intro c hc
  rw [jsonScript_eq, List.mem_flatMap] at hc
  obtain ⟨d, -, hc⟩ := hc
  unfold Json.hidden at hc
  split at hc
  next => exact hide_unicodeEscape c hc
  next hd =>
    obtain rfl := List.mem_singleton.mp hc
    exact Bool.eq_false_iff.mpr hd

end Escapes

section Island

variable {raw after : Str} {v : Json.Value Json.Units}

theorem scriptText_jsonScript (raw after : Str) :
    scriptText (jsonScript raw ++ closingTag ++ after) = some (jsonScript raw) := by
  have hkept : ∀ c ∈ jsonScript raw, decide (c ≠ '<') = true := by
    intro c hc
    have hhide := hide_jsonScript c hc
    simp only [hide, Bool.or_eq_false_iff, decide_eq_false_iff_not] at hhide
    exact decide_eq_true hhide.1.1
  have htake : (closingTag ++ after).takeWhile (· ≠ '<') = [] := rfl
  have hdrop : (closingTag ++ after).dropWhile (· ≠ '<') = closingTag ++ after := rfl
  rw [scriptText, List.append_assoc, List.takeWhile_append_of_pos hkept,
    List.dropWhile_append_of_pos hkept, htake, hdrop,
    if_pos (List.isPrefixOf_iff_prefix.mpr (List.prefix_append _ _)), List.append_nil]

theorem readInitialData_of_parse (h : Json.parse raw = some v) (after : Str) :
    readInitialData (jsonScript raw ++ closingTag ++ after) = some v := by
  rw [readInitialData, scriptText_jsonScript, Option.bind_some, jsonScript_eq]
  exact Json.parse_hidden (fun c hc => foreign_of_hide hc) h

/-- Whatever the runs hold, markup included, the browser ends the island where the
server does and reads back the rows of the allowlist, every text as it was. -/
theorem island_carries_page (printing : Printing) (serializing : Serializing) (runs : List Row)
    (after : Str) : (∀ markup, runsList printing serializing runs after = .ok markup →
      ∃ rows, runs.mapM (runListRowFromRun printing) = .ok rows ∧
        readInitialData markup = some ((pageJson serializing rows).map Json.units) ∧
        ∃ island, markup = island ++ closingTag ++ after ∧ scriptText markup = some island ∧
          ∀ c ∈ island, c ≠ '<' ∧ c ≠ '>' ∧ c ≠ '&') ∧
    ∀ raw v, Json.parse raw = some v →
      readInitialData (jsonScript raw ++ closingTag ++ after) = some v := by
  refine ⟨fun markup h => ?_, fun raw v h => readInitialData_of_parse h after⟩
  obtain ⟨rows, hrows, h⟩ := Result.bind_ok.mp h
  obtain rfl := Except.ok.inj h
  refine ⟨rows, hrows, readInitialData_of_parse (Json.parse_dump _) after, _, rfl,
    scriptText_jsonScript _ after, ?_⟩
  intro c hc
  have hhide := hide_jsonScript c hc
  simp only [hide, Bool.or_eq_false_iff, decide_eq_false_iff_not] at hhide
  exact ⟨hhide.1.1, hhide.1.2, hhide.2⟩

end Island

end PayrollAgent.DataIsland
