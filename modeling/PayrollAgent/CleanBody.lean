import PayrollAgent.Unicode
import Mathlib.Data.List.DropRight

namespace PayrollAgent.CleanBody

open Lib Text

/-- The code points at which `str.splitlines` ends a line. -/
def isLineBreak (c : Char) : Bool :=
  let n := c.toNat
  (10 ≤ n && n ≤ 13) || (28 ≤ n && n ≤ 30) || n == 133 || n == 8232 || n == 8233

/-- `line` is the current line, reversed. A line feed right after a carriage
return belongs to the same break. -/
def linesFrom : Bool → Str → Str → List Str
  | _, [], line => if line.isEmpty then [] else [line.reverse]
  | afterReturn, c :: cs, line =>
      if afterReturn && c = '\n' then linesFrom false cs line
      else if isLineBreak c then line.reverse :: linesFrom (c = '\r') cs []
      else linesFrom false cs (c :: line)

/-- `str.splitlines()`. -/
def splitLines (s : Str) : List Str := linesFrom false s []

/-- `str.rstrip()`. -/
def rstrip (s : Str) : Str := s.rdropWhile isSpace

/-- `str.strip()`. -/
def strip (s : Str) : Str := (rstrip s).dropWhile isSpace

section

variable [PyUnicode]

/-- `_ATTRIBUTION_RE`. -/
def attributionRe : Pattern :=
  .seqs [literal "On ".toList, anyRun, literal "wrote:".toList, spaces, .ending]

/-- `_SIG_DELIM_RE`. -/
def sigDelimRe : Pattern :=
  .seqs
    [.alt (.seqs [literal "--".toList, spaces])
      (.seqs [literal "Sent from my".toList, wordBoundary, anyRun]),
     .ending]

def isHistory (line : Str) : Bool :=
  attributionRe.isMatch (strip line) || (strip line).head? = some '>'

def isSignature (line : Str) : Bool := sigDelimRe.isMatch (strip line)

def cleanBody (text : Str) : Str :=
  if text = [] then text
  else
    let lines := splitLines text
    let kept := lines.take (lines.findIdx isHistory)
    let kept := kept.take (kept.findIdx isSignature)
    rstrip (join ['\n'] kept)

def isMarker (line : Str) : Bool := isHistory line || isSignature line

end

theorem rstrip_append (a b : Str) :
    rstrip (a ++ b) = if rstrip b = [] then rstrip a else a ++ rstrip b := by
  simp only [rstrip, List.rdropWhile, List.reverse_append, List.dropWhile_append]
  by_cases h : b.reverse.dropWhile isSpace = []
  · simp [h]
  · simp [h]

theorem rstrip_rstrip (s : Str) : rstrip (rstrip s) = rstrip s :=
  List.rdropWhile_idempotent isSpace s

theorem strip_rstrip (s : Str) : strip (rstrip s) = strip s := by
  rw [strip, rstrip_rstrip, strip]

theorem rstrip_prefix (s : Str) : rstrip s <+: s := List.rdropWhile_prefix isSpace s

def trimLines : List Str → List Str
  | [] => []
  | l :: rest =>
      match trimLines rest with
      | [] => if rstrip l = [] then [] else [rstrip l]
      | m :: kept => l :: m :: kept

theorem trimLines_cons (l : Str) (rest : List Str) :
    trimLines rest = [] ∧ trimLines (l :: rest) = (if rstrip l = [] then [] else [rstrip l]) ∨
      trimLines rest ≠ [] ∧ trimLines (l :: rest) = l :: trimLines rest := by
  cases h : trimLines rest with
  | nil => exact .inl ⟨rfl, by simp [trimLines, h]⟩
  | cons m kept => exact .inr ⟨by simp, by simp [trimLines, h]⟩

theorem of_mem_trimLines {lines : List Str} {l : Str} (h : l ∈ trimLines lines) :
    ∃ l' ∈ lines, l <+: l' ∧ strip l = strip l' := by
  induction lines with
  | nil => cases h
  | cons m rest ih =>
      obtain ⟨-, htrim⟩ | ⟨-, htrim⟩ := trimLines_cons m rest
      · rw [htrim] at h
        split at h
        · cases h
        · obtain rfl := List.mem_singleton.mp h
          exact ⟨m, by simp, rstrip_prefix m, strip_rstrip m⟩
      · rw [htrim] at h
        cases h with
        | head => exact ⟨l, by simp, List.prefix_refl l, rfl⟩
        | tail _ h =>
            obtain ⟨l', hl', hline⟩ := ih h
            exact ⟨l', by simp [hl'], hline⟩

theorem getLast_trimLines_ne_nil (lines : List Str) : ∀ l ∈ (trimLines lines).getLast?, l ≠ [] := by
  induction lines with
  | nil => simp [trimLines]
  | cons m rest ih =>
      intro l hl
      obtain ⟨-, htrim⟩ | ⟨hne, htrim⟩ := trimLines_cons m rest
      · rw [htrim] at hl
        split at hl
        case isTrue => cases hl
        case isFalse hm =>
          obtain rfl : rstrip m = l := by simpa using hl
          exact hm
      · rw [htrim, List.getLast?_cons_of_ne_nil hne] at hl
        exact ih l hl

theorem join_cons_cons (l m : Str) (rest : List Str) :
    join ['\n'] (l :: m :: rest) = l ++ '\n' :: join ['\n'] (m :: rest) := by
  simp [join, List.intersperse]

theorem join_cons {l : Str} {rest : List Str} (h : rest ≠ []) :
    join ['\n'] (l :: rest) = l ++ '\n' :: join ['\n'] rest := by
  cases rest with
  | nil => exact absurd rfl h
  | cons m rest => exact join_cons_cons l m rest

@[simp] theorem join_singleton (l : Str) : join ['\n'] [l] = l := by
  simp [join]

theorem join_eq_nil {lines : List Str} (hlast : ∀ l ∈ lines.getLast?, l ≠ [])
    (h : join ['\n'] lines = []) : lines = [] := by
  cases lines with
  | nil => rfl
  | cons l rest =>
      cases rest with
      | nil => exact absurd (by simpa using h) (hlast l rfl)
      | cons m rest => simp [join_cons_cons] at h

theorem rstrip_newline_cons (s : Str) :
    rstrip ('\n' :: s) = if rstrip s = [] then [] else '\n' :: rstrip s :=
  rstrip_append ['\n'] s

theorem rstrip_join (lines : List Str) : rstrip (join ['\n'] lines) = join ['\n'] (trimLines lines) := by
  induction lines with
  | nil => rfl
  | cons l rest ih =>
      cases rest with
      | nil =>
          by_cases h : rstrip l = []
          · rw [join_singleton, h]
            simp [trimLines, h, join]
          · simp [trimLines, h]
      | cons m rest =>
          rw [join_cons_cons, rstrip_append, rstrip_newline_cons, ih]
          obtain ⟨hnil, htrim⟩ | ⟨hne, htrim⟩ := trimLines_cons l (m :: rest)
          · rw [hnil, htrim]
            by_cases h : rstrip l = []
            · simp [h, join]
            · simp [h, join]
          · have hjoin : join ['\n'] (trimLines (m :: rest)) ≠ [] :=
              fun h => hne (join_eq_nil (getLast_trimLines_ne_nil _) h)
            rw [htrim, if_neg hjoin, if_neg (by simp), join_cons hne]

theorem solid_of_mem_linesFrom {afterReturn : Bool} {s line l : Str}
    (hline : ∀ c ∈ line, isLineBreak c = false) (h : l ∈ linesFrom afterReturn s line) :
    ∀ c ∈ l, isLineBreak c = false := by
  induction s generalizing afterReturn line with
  | nil =>
      cases line with
      | nil => cases h
      | cons d line =>
          obtain rfl : l = (d :: line).reverse := by simpa [linesFrom] using h
          exact fun c hc => hline c (List.mem_reverse.mp hc)
  | cons c s ih =>
      by_cases hskip : (afterReturn && decide (c = '\n')) = true
      · rw [linesFrom, if_pos hskip] at h
        exact ih hline h
      · by_cases hbreak : isLineBreak c = true
        · rw [linesFrom, if_neg hskip, if_pos hbreak] at h
          cases h with
          | head => exact fun d hd => hline d (List.mem_reverse.mp hd)
          | tail _ h => exact ih (by simp) h
        · rw [linesFrom, if_neg hskip, if_neg hbreak] at h
          exact ih (by simpa [hbreak] using hline) h

theorem linesFrom_line {w : Str} (hw : ∀ c ∈ w, isLineBreak c = false) (rest line : Str) :
    linesFrom false (w ++ '\n' :: rest) line = (line.reverse ++ w) :: linesFrom false rest [] := by
  induction w generalizing line with
  | nil => simp [linesFrom, isLineBreak]
  | cons c w ih =>
      have hc := hw c (by simp)
      have hrest := ih (fun d hd => hw d (by simp [hd])) (c :: line)
      simpa [linesFrom, hc] using hrest

theorem linesFrom_last {w : Str} (hw : ∀ c ∈ w, isLineBreak c = false) (line : Str)
    (hne : line.reverse ++ w ≠ []) : linesFrom false w line = [line.reverse ++ w] := by
  induction w generalizing line with
  | nil =>
      cases line with
      | nil => exact absurd rfl hne
      | cons d line => simp [linesFrom]
  | cons c w ih =>
      have hc := hw c (by simp)
      have hrest := ih (fun d hd => hw d (by simp [hd])) (c :: line) (by simp)
      simpa [linesFrom, hc] using hrest

theorem splitLines_join {lines : List Str} (hsolid : ∀ l ∈ lines, ∀ c ∈ l, isLineBreak c = false)
    (hlast : ∀ l ∈ lines.getLast?, l ≠ []) : splitLines (join ['\n'] lines) = lines := by
  induction lines with
  | nil => rfl
  | cons l rest ih =>
      have hl := hsolid l (by simp)
      cases rest with
      | nil =>
          have hne := hlast l rfl
          rw [join_singleton]
          exact linesFrom_last hl [] (by simpa using hne)
      | cons m rest =>
          have hrest := ih (fun k hk => hsolid k (by simp [hk]))
            (fun k hk => hlast k (by simpa [List.getLast?_cons] using hk))
          rw [splitLines] at hrest ⊢
          rw [join_cons_cons, linesFrom_line hl, hrest]
          rfl

section

variable [PyUnicode]

theorem cleanBody_eq (text : Str) :
    cleanBody text = rstrip (join ['\n'] ((splitLines text).takeWhile fun l => !isMarker l)) := by
  have hscan : ∀ lines : List Str,
      (lines.take (lines.findIdx isHistory)).take
      ((lines.take (lines.findIdx isHistory)).findIdx isSignature) =
        lines.takeWhile fun l => !isMarker l := by
    intro lines
    have hfirst : lines.take (lines.findIdx isHistory) = lines.takeWhile fun l => !isHistory l := by
      simp [List.takeWhile_eq_take_findIdx_not]
    rw [hfirst]
    have hsecond : ∀ kept : List Str, kept.take (kept.findIdx isSignature) =
        kept.takeWhile fun l => !isSignature l := by
      intro kept
      simp [List.takeWhile_eq_take_findIdx_not]
    rw [hsecond, List.takeWhile_takeWhile]
    congr 1
    funext l
    cases hhistory : isHistory l <;> cases hsignature :
      isSignature l <;> simp [isMarker, hhistory, hsignature]
  by_cases h : text = []
  · subst h
    rfl
  · simp only [cleanBody, if_neg h, hscan]

theorem isMarker_congr {l l' : Str} (h : strip l = strip l') : isMarker l = isMarker l' := by
  simp [isMarker, isHistory, isSignature, h]

theorem splitLines_cleanBody (text : Str) : splitLines (cleanBody text) =
    trimLines ((splitLines text).takeWhile fun l => !isMarker l) := by
  rw [cleanBody_eq, rstrip_join]
  apply splitLines_join
  · intro l hl c hc
    obtain ⟨l', hl', hstart, -⟩ := of_mem_trimLines hl
    have hmem := (List.takeWhile_sublist _).subset hl'
    exact solid_of_mem_linesFrom (by simp) hmem c (hstart.subset hc)
  · exact getLast_trimLines_ne_nil _

theorem isMarker_of_mem_cleanBody {text l : Str} (h : l ∈ splitLines (cleanBody text)) :
    isMarker l = false := by
  rw [splitLines_cleanBody] at h
  obtain ⟨l', hl', -, hstrip⟩ := of_mem_trimLines h
  have hkept := List.mem_takeWhile_imp hl'
  rw [isMarker_congr hstrip]
  simpa using hkept

/-- Cleaning cuts the body at the first line that introduces quoted history or
a signature, keeps every line before it, and is done after one pass. -/
theorem clean_body_prefix_cut (text : Str) :
    ∃ kept, kept <+: splitLines text ∧ (∀ l ∈ kept, isMarker l = false) ∧
      (∀ longer, longer <+: splitLines text → (∀ l ∈ longer, isMarker l = false) → longer <+: kept) ∧
      cleanBody text = rstrip (join ['\n'] kept) ∧
      splitLines (cleanBody text) = trimLines kept ∧
      (∀ l ∈ splitLines (cleanBody text), isMarker l = false) ∧
      cleanBody (cleanBody text) = cleanBody text := by
  refine ⟨(splitLines text).takeWhile fun l => !isMarker l, List.takeWhile_prefix _, ?_, ?_,
    cleanBody_eq text, splitLines_cleanBody text, fun l hl => isMarker_of_mem_cleanBody hl, ?_⟩
  · intro l hl
    simpa using List.mem_takeWhile_imp hl
  · intro longer hlonger hunmarked
    obtain ⟨rest, hrest⟩ := hlonger
    rw [← hrest, List.takeWhile_append_of_pos (fun l hl => by simp [hunmarked l hl])]
    exact List.prefix_append _ _
  · have hall : (splitLines (cleanBody text)).takeWhile (fun l => !isMarker l) =
        splitLines (cleanBody text) := by
      apply List.takeWhile_eq_self_iff.mpr
      intro l hl
      simp [isMarker_of_mem_cleanBody hl]
    rw [cleanBody_eq (cleanBody text), hall, splitLines_cleanBody, ← rstrip_join, rstrip_rstrip,
      ← cleanBody_eq]

end

example : @cleanBody asciiUnicode "Ana 5 \n\n on Monday Bo wrote:\n> 4".toList = "Ana 5".toList := by
  decide

-- The word boundary: a name that goes on is no signature.
example : @cleanBody asciiUnicode "Sent from myself\r\n-- \r\nBo".toList = "Sent from myself".toList := by
  decide

end PayrollAgent.CleanBody
