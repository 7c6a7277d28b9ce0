import PayrollAgent.CleanBody
import PayrollAgent.Lib.Lines
import PayrollAgent.Money
import PayrollAgent.PipelineResult
import PayrollAgent.Resume

namespace PayrollAgent.ComposeEmail

open Lib Text CleanBody Resume Validate Money

/-- What `call_text` answers: an error, no content, or a text. -/
abbrev Draft := Except Exn (Option Str)

def drafted : Draft → Option Str
  | .ok (some body) => if strip body = [] then none else some body
  | _ => none

def regressionMark : Str := "field regression: ".toList

def question (name field : Str) : Str :=
  "  - Reply with the ".toList ++ field ++ " hours for ".toList ++ name ++
    ", or 'none' to confirm zero.".toList

/-- `_field_regression_lines`. A reason without a dot is skipped. -/
def fieldRegressionLines (gateReasons : List Str) : List Str :=
  gateReasons.filterMap fun reason =>
    if regressionMark.isPrefixOf reason then
      (rsplitDot (reason.drop regressionMark.length)).map fun p => question p.1 p.2
    else none

/-- The suggestion for a name, where it is not the empty text. -/
def suggestionFor (suggestions : Dict Str Str) (name : Str) : Option Str :=
  (suggestions.get? name).filter fun s => s ≠ []

def suggestedLine (name suggestion : Str) : Str :=
  "  - We could not match '".toList ++ name ++ "' — did you mean ".toList ++ suggestion ++ ['?']

def plainLine (names : List Str) : Str :=
  "  - We could not confidently match these names to an employee: ".toList ++
    join ", ".toList names ++ ['.']

def missingLine (fields : List Str) : Str :=
  "  - We are missing required information for: ".toList ++ join ", ".toList fields ++ ['.']

def askLines (decision : Decision) (suggestions : Dict Str Str) : List Str :=
  let plain := decision.unresolvedNames.filter fun name => (suggestionFor suggestions name).isNone
  let frLines := fieldRegressionLines decision.gateReasons
  (decision.unresolvedNames.filterMap fun name =>
      (suggestionFor suggestions name).map (suggestedLine name)) ++
    (if plain = [] then [] else [plainLine plain]) ++
    (if decision.missingFields = [] then [] else [missingLine decision.missingFields]) ++
    frLines ++
    (if decision.unresolvedNames = [] ∧ decision.missingFields = [] ∧ frLines = [] then
      decision.gateReasons.map fun reason => "  - ".toList ++ reason
    else [])

/-- `_template_body`. -/
def templateBody (decision : Decision) (suggestions : Dict Str Str) : Str :=
  join ['\n']
    (["Hello,".toList, [],
      "We started processing your payroll but need to confirm a few details before we can finish:".toList, []] ++
      askLines decision suggestions ++
      [[], "Could you please reply with the correct details so we can complete the run? Thank you!".toList])

def rstripNewlines (s : Str) : Str := s.rdropWhile (· = '\n')

def composeClarification (decision : Decision) (suggestions : Dict Str Str) (draft : Draft) : Str :=
  match drafted draft with
  | none => templateBody decision suggestions
  | some body =>
      let frLines := fieldRegressionLines decision.gateReasons
      if frLines = [] then body else rstripNewlines body ++ "\n\n".toList ++ join ['\n'] frLines

/-- The cents of an amount, halves to even, as `format` rounds. -/
def cents (v : ℚ) : ℤ :=
  let n := ⌊v * 100⌋
  let r := v * 100 - n
  if r < 1 / 2 ∨ (r = 1 / 2 ∧ n % 2 = 0) then n else n + 1

def commas : Str → Str
  | a :: b :: c :: d :: rest => a :: b :: c :: ',' :: commas (d :: rest)
  | s => s

def grouped (n : Nat) : Str := (commas (Nat.toDigits 10 n).reverse).reverse

/-- The format `,.2f`. -/
def formatMoney (v : ℚ) : Str :=
  let n := (cents v).natAbs
  (if v < 0 then ['-'] else []) ++ grouped (n / 100) ++ ['.', Nat.digitChar (n % 100 / 10),
  Nat.digitChar (n % 10)]

def confirmationClosing : Str := "Please contact us if you have any questions.".toList

def payLine (item : PaystubLineItem) : Str :=
  "- ".toList ++ item.submittedName ++ ": $".toList ++ formatMoney item.netPay ++ " net".toList

/-- `_confirmation_template_body`. -/
def confirmationTemplateBody (paystubs : List PaystubLineItem) : Str :=
  join ['\n']
    (["Your payroll run has been reviewed and approved. Please find the paystub PDFs attached.".toList, []] ++
      paystubs.map payLine ++ [[], confirmationClosing])

def isBlank (c : Char) : Bool := c = ' ' || c = '\t'

def gap : Pattern := .many1 isBlank

def anyOf : Pattern → List Pattern → Pattern
  | r, [] => r
  | r, s :: rest => .alt r (anyOf s rest)

section

variable [PyUnicode]

def word (w : String) : Pattern := literal w.toList

def subjectLabel : Pattern := .seqs [.many isBlank, word "subject", .many isBlank, .char (· = ':')]

/-- `_SUBJECT_LINE_RE`. -/
def subjectLineRe : Pattern := .clearing subjectLabel

def signOffPhrase : Pattern :=
  anyOf (.seqs [anyOf (word "best") [word "kind", word "warm", word "warmest"], gap, word "regards"])
    [word "regards", .seqs [word "sincerely", .optional (.seqs [gap, word "yours"])],
      .seqs [word "yours", gap, anyOf (word "truly") [word "sincerely"]],
      .seqs [word "thanks", .optional (.seqs [gap, word "again"])], .seqs [word "thank", gap, word "you"],
      .seqs [word "many", gap, word "thanks"], word "cheers", word "best", word "respectfully"]

def signOffLine : Pattern :=
  .seqs [.many isBlank, signOffPhrase, .many isBlank,
    .optional (.char fun c => c = ',' || c = '.' || c = '!'), .many isBlank]

/-- `_SIGN_OFF_RE`. -/
def signOffRe : Pattern := .seq .lineStart (.seq signOffLine .lineEnd)

/-- `_strip_format_violations`. -/
def stripFormatViolations (body : Str) : Str :=
  let body := subjectLineRe.sub [] body
  strip ((signOffRe.before none body).getD body)

end

def isPlaceholderChar (c : Char) : Bool := c ≠ '[' && c ≠ ']' && c ≠ '\r' && c ≠ '\n'

/-- `_BRACKET_PLACEHOLDER_RE`. -/
def bracketPlaceholderRe : Pattern :=
  .seqs [.char (· = '['), .char isPlaceholderChar, .upTo isPlaceholderChar 79, .char (· = ']')]

def hasPlaceholder (body : Str) : Bool := (bracketPlaceholderRe.before none body).isSome

/-- Of a draft goes out what is left of it, or the template. -/
def composeConfirmation [PyUnicode] (paystubs : List PaystubLineItem) (draft : Draft) : Str :=
  match drafted draft with
  | none => confirmationTemplateBody paystubs
  | some body =>
      let stripped := stripFormatViolations body
      if stripped = [] then confirmationTemplateBody paystubs
      else if hasPlaceholder stripped then confirmationTemplateBody paystubs
      else if confirmationClosing.isSuffixOf stripped then stripped
      else stripped ++ "\n\n".toList ++ confirmationClosing

section

variable {w : Str} {lines : List Str}

theorem join_of_cons {sep l m : Str} {rest : List Str} :
    join sep (l :: m :: rest) = l ++ (sep ++ join sep (m :: rest)) := by
  simp [join, List.intersperse]

theorem infix_join {sep : Str} (h : w ∈ lines) : w <:+: join sep lines := by
  induction lines with
  | nil => cases h
  | cons l rest ih =>
      cases rest with
      | nil =>
          obtain rfl := List.mem_singleton.mp h
          simp [join]
      | cons m rest =>
          rw [join_of_cons]
          obtain rfl | h := List.mem_cons.mp h
          · exact (List.prefix_append ..).isInfix
          · exact (ih h).trans ((List.suffix_append ..).isInfix.trans (List.suffix_append ..).isInfix)

theorem suffix_join {sep : Str} (lines : List Str) : w <:+ join sep (lines ++ [w]) := by
  induction lines with
  | nil => simp [join]
  | cons l rest ih =>
      cases rest with
      | nil =>
          rw [List.cons_append, List.nil_append, join_of_cons]
          exact (List.suffix_append_of_suffix ih).trans (List.suffix_append ..)
      | cons m rest =>
          rw [List.cons_append, List.cons_append, join_of_cons]
          exact ih.trans ((List.suffix_append ..).trans (List.suffix_append ..))

theorem mem_join {sep : Str} {c : Char} (h : c ∈ join sep lines) : c ∈ sep ∨ ∃ l ∈ lines, c ∈ l := by
  induction lines with
  | nil => cases h
  | cons l rest ih =>
      cases rest with
      | nil => exact .inr ⟨l, List.mem_singleton_self l, by simpa [join] using h⟩
      | cons m rest =>
          rw [join_of_cons, List.mem_append, List.mem_append] at h
          obtain h | h | h := h
          · exact .inr ⟨l, List.mem_cons_self, h⟩
          · exact .inl h
          · obtain hsep | ⟨l', hl', hc⟩ := ih h
            · exact .inl hsep
            · exact .inr ⟨l', List.mem_cons_of_mem l hl', hc⟩

theorem infix_of_append (a w b : Str) : w <:+: a ++ w ++ b := ⟨a, b, rfl⟩

theorem question_mem {name : Str} {f : HoursField} {gateReasons : List Str}
    (h : regressionMark ++ fieldPath name f ∈ gateReasons) :
    question name f.name ∈ fieldRegressionLines gateReasons := by
  refine List.mem_filterMap.mpr ⟨_, h, ?_⟩
  have hmark : regressionMark.isPrefixOf (regressionMark ++ fieldPath name f) = true :=
    List.isPrefixOf_iff_prefix.mpr (List.prefix_append ..)
  rw [if_pos hmark, List.drop_left, rsplitDot_fieldPath]
  rfl

theorem askLines_infix {decision : Decision} {suggestions : Dict Str Str}
    (h : w ∈ askLines decision suggestions) : w <:+: templateBody decision suggestions :=
  infix_join (List.mem_append_left _ (List.mem_append_right _ h))

end

section

variable {s : Str} {lines : List Str} {sel : Str → Bool}

theorem strip_newline (s : Str) : strip (s ++ ['\n']) = strip s := by
  rw [strip, rstrip_append, if_pos (by decide)]
  rfl

theorem join_blank (h : lines ≠ []) : join ['\n'] (lines ++ [[]]) = join ['\n'] lines ++ ['\n'] := by
  induction lines with
  | nil => exact absurd rfl h
  | cons l rest ih =>
      cases rest with
      | nil => simp [join]
      | cons m rest =>
          rw [List.cons_append, join_cons (by simp), ih (List.cons_ne_nil m rest), join_cons_cons]
          simp

theorem strip_join_blank (lines : List Str) : strip (join ['\n'] (lines ++ [[]])) = strip
    (join ['\n'] lines) := by
  cases lines with
  | nil => rfl
  | cons l rest => rw [join_blank (List.cons_ne_nil l rest), strip_newline]

theorem flatMap_newline (lines : List Str) :
    (lines.flatMap fun l => l ++ ['\n']) = if lines = [] then [] else join ['\n'] lines ++ ['\n'] := by
  induction lines with
  | nil => rfl
  | cons l rest ih =>
      rw [List.flatMap_cons, ih, if_neg (List.cons_ne_nil l rest)]
      split
      next hnil => simp [hnil, join]
      next hne => simp [join_cons hne]

theorem strip_leading : strip (Pattern.leading sel lines) = strip
    (join ['\n'] (lines.takeWhile fun l => !sel l)) := by
  rw [Pattern.leading, flatMap_newline]
  split
  next hnil => rw [hnil]; rfl
  next => exact strip_newline _

end

section

variable [PyUnicode]

def isSubjectLine (line : Str) : Bool := subjectLineRe.isMatch line

def isSignOff (line : Str) : Bool := signOffRe.isMatch line

/-- What of a draft goes out: its lines up to the sign-off, without the Subject lines. -/
def keptText (body : Str) : Str :=
  strip (join ['\n'] (((body.splitOn '\n').filter fun l => !isSubjectLine l).takeWhile fun l =>
    !isSignOff l))

def NewlineAlone : Prop := ∀ c, PyUnicode.sameLetter c '\n' = true → c = '\n'

theorem within_word (h : NewlineAlone) {w : String} (hw : '\n' ∉ w.toList) :
    (word w).Within (· ≠ '\n') := by
  refine Pattern.within_lit fun c hc d hd => ?_
  rw [decide_eq_true_eq]
  rintro rfl
  obtain rfl := h c hd
  exact hw hc

theorem free_word (w : String) : (word w).Free := Pattern.free_lit _ _

omit [PyUnicode] in
theorem within_blank {c : Char} (h : isBlank c = true) : (c ≠ '\n' : Bool) = true := by
  rw [decide_eq_true_eq]
  rintro rfl
  cases h

theorem free_subjectLabel : subjectLabel.Free :=
  ⟨trivial, free_word _, trivial, trivial, fun _ _ => rfl⟩

theorem within_subjectLabel (h : NewlineAlone) : subjectLabel.Within (· ≠ '\n') := by
  refine ⟨fun c => within_blank, within_word h (by decide), fun c => within_blank, fun c hc => ?_,
    trivial⟩
  rw [decide_eq_true_eq] at hc ⊢
  rw [hc]
  decide

theorem least_word (w : String) : (word w).least = w.toList.length := Pattern.least_lit _ _

theorem subjectLabel_not_nil : ¬subjectLabel.Takes none [] [] :=
  Pattern.not_takes_nil (by simp [subjectLabel, Pattern.seqs, Pattern.empty, Pattern.least, least_word])

theorem subjectLine_lineWise (h : NewlineAlone) : Pattern.LineWise subjectLineRe isSubjectLine :=
  Pattern.lineWise_clearing free_subjectLabel (within_subjectLabel h) subjectLabel_not_nil

theorem subjectLine_clears (h : NewlineAlone) : Pattern.Clears subjectLineRe isSubjectLine :=
  Pattern.clears_clearing free_subjectLabel (within_subjectLabel h) subjectLabel_not_nil

theorem free_signOffLine : signOffLine.Free := by
  simp [signOffLine, signOffPhrase, anyOf, gap, Pattern.many1, Pattern.seqs, Pattern.optional,
    Pattern.empty, Pattern.Free, free_word]

theorem within_signOffLine (h : NewlineAlone) : signOffLine.Within (· ≠ '\n') := by
  have hblank : ∀ c, isBlank c = true → ¬c = '\n' := fun c hc => of_decide_eq_true (within_blank hc)
  have hword : ∀ w : String, '\n' ∉ w.toList → (word w).Within fun c => !decide (c = '\n') := by
    intro w hw
    simpa using within_word h hw
  simp +contextual [signOffLine, signOffPhrase, anyOf, gap, Pattern.many1, Pattern.seqs,
    Pattern.optional, Pattern.empty, Pattern.Within, hword, hblank]
  rintro _ ((rfl | rfl) | rfl) <;> decide

theorem signOff_lineWise (h : NewlineAlone) : Pattern.LineWise signOffRe isSignOff :=
  Pattern.lineWise_whole free_signOffLine (within_signOffLine h)
    (Pattern.not_takes_nil (by
      simp [signOffLine, signOffPhrase, anyOf, gap, Pattern.many1, Pattern.seqs, Pattern.optional,
        Pattern.empty, Pattern.least, least_word]))

theorem stripFormatViolations_eq (h : NewlineAlone) (body : Str) :
    stripFormatViolations body = keptText body := by
  have hlines : ∀ l ∈ body.splitOn '\n', '\n' ∉ l := fun l => Pattern.notMem_of_mem_splitOn
  have hsub : subjectLineRe.sub [] body = ['\n'].intercalate
    (Pattern.keptLines isSubjectLine (body.splitOn '\n')) := by
    rw [← Pattern.sub_lines (subjectLine_lineWise h) (subjectLine_clears h) hlines,
      List.intercalate_splitOn]
  have hkept : ∀ kept : List Str, (∀ l ∈ kept, '\n' ∉ l) →
      strip ((signOffRe.before none (['\n'].intercalate kept)).getD (['\n'].intercalate kept)) =
        strip (join ['\n'] (kept.takeWhile fun l => !isSignOff l)) := by
    intro kept hkept
    rw [Pattern.before_lines (signOff_lineWise h) hkept]
    cases hany : kept.any isSignOff with
    | true => exact strip_leading
    | false =>
        have hall : (kept.takeWhile fun l => !isSignOff l) = kept := by
          refine List.takeWhile_eq_self_iff.mpr fun l hl => ?_
          rw [List.any_eq_false] at hany
          simpa using hany l hl
        rw [hall]
        rfl
  have hfilter : ∀ l ∈ (body.splitOn '\n').filter fun l => !isSubjectLine l, '\n' ∉ l :=
    fun l hl => hlines l (List.mem_filter.mp hl).1
  unfold stripFormatViolations keptText
  dsimp only
  rw [hsub]
  obtain heq | heq := @Pattern.keptLines_eq isSubjectLine (body.splitOn '\n')
  · rw [heq, hkept _ hfilter]
  · rw [heq, hkept]
    · rw [List.takeWhile_append]
      split
      next hall =>
        rw [(List.takeWhile_prefix _).eq_of_length hall]
        have hblank : ([[]] : List Str).takeWhile (fun l => !isSignOff l) = [[]] := by
          simp [(signOff_lineWise h).blank]
        rw [hblank, strip_join_blank]
      next => rfl
    · intro l hl
      obtain hl | hl := List.mem_append.mp hl
      · exact hfilter l hl
      · rw [List.mem_singleton.mp hl]
        exact List.not_mem_nil

end

section

variable {s : Str} {lines : List Str}

theorem strip_eq_nil : strip s = [] ↔ ∀ c ∈ s, isSpace c = true := by
  have hrstrip : ∀ {t : Str}, rstrip t = [] ↔ ∀ c ∈ t, isSpace c = true := List.rdropWhile_eq_nil_iff
  rw [strip, List.dropWhile_eq_nil_iff, ← hrstrip, rstrip_rstrip, hrstrip]

theorem keptText_blank [PyUnicode] {body : Str} (h : strip body = []) : keptText body = [] := by
  rw [strip_eq_nil] at h
  refine strip_eq_nil.mpr fun c hc => ?_
  obtain hc | ⟨l, hl, hc⟩ := mem_join hc
  · rw [List.mem_singleton.mp hc]
    decide
  · have hline := (List.mem_filter.mp ((List.takeWhile_prefix _).subset hl)).1
    have hwithin : l <:+: join ['\n'] (body.splitOn '\n') := infix_join hline
    have hbody : join ['\n'] (body.splitOn '\n') = body := List.intercalate_splitOn '\n'
    rw [hbody] at hwithin
    exact h c (hwithin.subset hc)

end

section

theorem cents_of_int (n : ℤ) : cents (n / 100) = n := by
  have hn : (n : ℚ) / 100 * 100 = n := by ring
  unfold cents
  dsimp only
  rw [hn, Int.floor_intCast, sub_self, if_pos (.inl (by norm_num))]

theorem filter_commas (s : Str) : (commas s).filter Char.isDigit = s.filter Char.isDigit := by
  induction s using commas.induct with
  | case1 a b c d rest ih =>
      have hcomma : Char.isDigit ',' = false := rfl
      simp only [commas, List.filter_cons, hcomma, ih]
      simp
  | case2 s h => rw [commas]; exact h

theorem filter_grouped (n : Nat) : (grouped n).filter Char.isDigit = Nat.toDigits 10 n := by
  rw [grouped, List.filter_reverse, filter_commas, List.filter_reverse, List.reverse_reverse]
  refine List.filter_eq_self.mpr fun c hc => ?_
  exact Nat.isDigit_of_mem_toDigits (by decide) (by decide) hc

/-- The amount that the digits of a text stand for, the last two being cents. -/
def readMoney (s : Str) : ℚ := (Nat.ofDigitChars 10 (s.filter Char.isDigit) 0 : ℚ) / 100

theorem readMoney_formatMoney {v : ℚ} (h : IsCents v) (hv : 0 ≤ v) : readMoney (formatMoney v) = v := by
  obtain ⟨n, rfl⟩ := h
  have hn : 0 ≤ n := by
    have hnum : (0 : ℚ) ≤ n := by linarith
    exact_mod_cast hnum
  obtain ⟨k, rfl⟩ := Int.eq_ofNat_of_zero_le hn
  have htens : k % 100 / 10 < 10 := by omega
  have hones : k % 10 < 10 := by omega
  have hdigit : ∀ d, d < 10 → Char.isDigit (Nat.digitChar d) = true := fun d hd => by
    rw [Nat.isDigit_digitChar]
    exact decide_eq_true hd
  have hpoint : Char.isDigit '.' = false := rfl
  have hfilter : (formatMoney ((k : ℤ) / 100)).filter Char.isDigit =
      Nat.toDigits 10 (k / 100) ++ [Nat.digitChar (k % 100 / 10), Nat.digitChar (k % 10)] := by
    unfold formatMoney
    dsimp only
    rw [cents_of_int, if_neg (not_lt.mpr hv), Int.natAbs_natCast, List.nil_append,
      List.filter_append, filter_grouped]
    simp [hpoint, hdigit _ htens, hdigit _ hones]
  have hvalue : Nat.ofDigitChars 10 (Nat.toDigits 10 (k / 100) ++ [Nat.digitChar (k % 100 / 10),
    Nat.digitChar (k % 10)]) 0 = k := by
    rw [Nat.ofDigitChars_append, Nat.ofDigitChars_ten_toDigits,
      Nat.ofDigitChars_cons_digitChar_of_lt_ten htens,
      Nat.ofDigitChars_cons_digitChar_of_lt_ten hones, Nat.ofDigitChars_nil]
    omega
  rw [readMoney, hfilter, hvalue]
  push_cast
  rfl

end

section

variable [PyUnicode]

structure Confirms (paystubs : List PaystubLineItem) (draft : Draft) (text : Str) : Prop where
  closes : confirmationClosing <:+ text
  kept : ∀ body, draft = .ok (some body) → keptText body ≠ [] → hasPlaceholder (keptText body) = false →
    hasPlaceholder text = false ∧
    (text = keptText body ∨ text = keptText body ++ "\n\n".toList ++ confirmationClosing)
  floor : (∀ body, draft = .ok (some body) → keptText body = [] ∨ hasPlaceholder (keptText body) = true) →
    text = confirmationTemplateBody paystubs
  pays : text = confirmationTemplateBody paystubs → ∀ item ∈ paystubs, payLine item <:+: text
  printed : ∀ item ∈ paystubs, IsCents item.netPay → 0 ≤ item.netPay →
    readMoney (formatMoney item.netPay) = item.netPay

omit [PyUnicode] in
theorem template_closes (paystubs : List PaystubLineItem) :
    confirmationClosing <:+ confirmationTemplateBody paystubs := by
  have hlast : ∀ lines : List Str, lines ++ [[], confirmationClosing] =
    lines ++ [[]] ++ [confirmationClosing] := by simp
  rw [confirmationTemplateBody, hlast]
  exact suffix_join _

omit [PyUnicode] in
theorem free_placeholder : bracketPlaceholderRe.Free :=
  ⟨trivial, trivial, Pattern.free_upTo _ _, trivial, fun _ _ => rfl⟩

omit [PyUnicode] in
theorem within_placeholder : bracketPlaceholderRe.Within (· ≠ '\n') := by
  have hchar : ∀ c, isPlaceholderChar c = true → (c ≠ '\n' : Bool) = true := by
    intro c hc
    simp only [isPlaceholderChar, Bool.and_eq_true] at hc
    exact hc.2
  refine ⟨fun c hc => ?_, hchar, Pattern.within_upTo hchar 79, fun c hc => ?_, trivial⟩
  · rw [of_decide_eq_true hc]
    decide
  · rw [of_decide_eq_true hc]
    decide

omit [PyUnicode] in
theorem hasPlaceholder_closing {s : Str} (h : hasPlaceholder s = false) :
    hasPlaceholder (s ++ "\n\n".toList ++ confirmationClosing) = false := by
  have hsplit : s ++ "\n\n".toList ++ confirmationClosing =
    s ++ '\n' :: ([] ++ '\n' :: confirmationClosing) := by simp
  rw [hsplit, Bool.eq_false_iff, ne_eq, hasPlaceholder,
    Pattern.before_newline free_placeholder within_placeholder,
    Pattern.before_newline free_placeholder within_placeholder]
  rintro (hs | hnil | hclosing)
  · rw [hasPlaceholder, hs] at h
    cases h
  · cases hnil
  · exact absurd hclosing (by decide +kernel)

omit [PyUnicode] in
theorem drafted_some {draft : Draft} {body : Str} (h : drafted draft = some body) :
    draft = .ok (some body) ∧ strip body ≠ [] := by
  unfold drafted at h
  split at h
  · split at h
    · cases h
    next hne =>
      obtain rfl := Option.some.inj h
      exact ⟨rfl, hne⟩
  · cases h

omit [PyUnicode] in
theorem drafted_none {draft : Draft} {body : Str} (h : drafted draft = none)
    (hdraft : draft = .ok (some body)) : strip body = [] := by
  subst hdraft
  by_contra hne
  simp [drafted, hne] at h

omit [PyUnicode] in
theorem payLine_infix {paystubs : List PaystubLineItem} {item : PaystubLineItem} (h : item ∈ paystubs) :
    payLine item <:+: confirmationTemplateBody paystubs :=
  infix_join (List.mem_append_left _ (List.mem_append_right _ (List.mem_map_of_mem h)))

theorem confirms_template {paystubs : List PaystubLineItem} {draft : Draft}
    (hfloor : ∀ body, draft = .ok (some body) → keptText body = [] ∨
    hasPlaceholder (keptText body) = true) :
    Confirms paystubs draft (confirmationTemplateBody paystubs) where
  closes := template_closes paystubs
  kept := by
    intro body hdraft hne hplain
    obtain hnil | hmarked := hfloor body hdraft
    · exact absurd hnil hne
    · rw [hplain] at hmarked
      cases hmarked
  floor _ := rfl
  pays _ _ := payLine_infix
  printed _ _ := readMoney_formatMoney

theorem confirms_kept {paystubs : List PaystubLineItem} {body text : Str} (hne : keptText body ≠ [])
    (hplain : hasPlaceholder (keptText body) = false) (hclean : hasPlaceholder text = false)
    (hcloses : confirmationClosing <:+ text)
    (htext : text = keptText body ∨ text = keptText body ++ "\n\n".toList ++ confirmationClosing) :
    Confirms paystubs (.ok (some body)) text where
  closes := hcloses
  kept := by
    rintro _ ⟨⟩ _ _
    exact ⟨hclean, htext⟩
  floor := by
    intro hfloor
    obtain hnil | hmarked := hfloor body rfl
    · exact absurd hnil hne
    · rw [hplain] at hmarked
      cases hmarked
  pays := by
    intro htemplate item hitem
    rw [htemplate]
    exact payLine_infix hitem
  printed _ _ := readMoney_formatMoney

theorem confirmation_said (hletters : NewlineAlone) (paystubs : List PaystubLineItem) (draft : Draft) :
    Confirms paystubs draft (composeConfirmation paystubs draft) := by
  unfold composeConfirmation
  cases hdrafted : drafted draft with
  | none =>
      exact confirms_template fun body hdraft => .inl (keptText_blank (drafted_none hdrafted hdraft))
  | some body =>
      obtain ⟨rfl, -⟩ := drafted_some hdrafted
      dsimp only
      rw [stripFormatViolations_eq hletters]
      by_cases hnil : keptText body = []
      · rw [if_pos hnil]
        refine confirms_template ?_
        rintro _ ⟨⟩
        exact .inl hnil
      rw [if_neg hnil]
      cases hplain : hasPlaceholder (keptText body) with
      | true =>
          refine confirms_template ?_
          rintro _ ⟨⟩
          exact .inr hplain
      | false =>
          rw [if_neg (by simp)]
          split
          next hends =>
            exact confirms_kept hnil hplain hplain (List.isSuffixOf_iff_suffix.mp hends) (.inl rfl)
          next =>
            exact confirms_kept hnil hplain (hasPlaceholder_closing hplain) (List.suffix_append ..)
              (.inr rfl)

end

section

attribute [local instance] asciiUnicode

theorem newlineAlone_ascii : NewlineAlone := by
  intro c hc
  have hlower : c.toLower = '\n' := of_decide_eq_true hc
  unfold Char.toLower at hlower
  split at hlower
  next hupper =>
    have hval := congrArg Char.val hlower
    simp only [UInt32.le_iff_toNat_le] at hupper
    have hnat := congrArg UInt32.toNat hval
    simp at hnat hupper
    omega
  next => exact hlower

def subjectDraft : Str := "Subject: Payroll\nAll paid.\nBest regards,\n[Your Name]".toList

theorem confirmation_said_subject :
    Confirms [] (.ok (some subjectDraft)) (composeConfirmation [] (.ok (some subjectDraft))) ∧
      composeConfirmation [] (.ok (some subjectDraft)) = "All paid.\n\n".toList ++ confirmationClosing :=
  ⟨confirmation_said newlineAlone_ascii [] _, by decide +kernel⟩

-- A sentence that begins with a sign-off word is no sign-off.
example : isSignOff "Thanks for sending your hours.".toList = false := by
  decide +kernel

end

/-- What the question to the client holds, whatever the draft: each dropped
hours field, and all that the gate blocked on where the template is used. -/
structure Asks (decision : Decision) (suggestions : Dict Str Str) (draft : Draft) (text : Str) :
    Prop where
  regressions : ∀ name f, regressionMark ++ fieldPath name f ∈ decision.gateReasons →
    question name f.name <:+: text
  drafting : ∀ body, draft = .ok (some body) → strip body ≠ [] → rstripNewlines body <+: text
  names : drafted draft = none → ∀ name ∈ decision.unresolvedNames, name <:+: text
  suggested : drafted draft = none → ∀ name ∈ decision.unresolvedNames, ∀ s,
    suggestionFor suggestions name = some s → suggestedLine name s <:+: text
  fields : drafted draft = none → ∀ field ∈ decision.missingFields, field <:+: text
  reasons : drafted draft = none → decision.unresolvedNames = [] → decision.missingFields = [] →
    fieldRegressionLines decision.gateReasons = [] → ∀ reason ∈ decision.gateReasons, reason <:+: text

section

variable {decision : Decision} {suggestions : Dict Str Str} {draft : Draft}

theorem mem_askLines {line : Str} : line ∈ askLines decision suggestions ↔
    (∃ name ∈ decision.unresolvedNames, ∃ s, suggestionFor suggestions name = some s ∧
    suggestedLine name s = line) ∨
      (∃ name ∈ decision.unresolvedNames, (suggestionFor suggestions name).isNone) ∧
        line = plainLine (decision.unresolvedNames.filter fun name =>
        (suggestionFor suggestions name).isNone) ∨
      decision.missingFields ≠ [] ∧ line = missingLine decision.missingFields ∨
      line ∈ fieldRegressionLines decision.gateReasons ∨
      (decision.unresolvedNames = [] ∧ decision.missingFields = [] ∧
      fieldRegressionLines decision.gateReasons = []) ∧
        ∃ reason ∈ decision.gateReasons, "  - ".toList ++ reason = line := by
  unfold askLines
  simp only [List.mem_append, List.mem_filterMap, Option.map_eq_some_iff, List.mem_ite_nil_left,
    List.mem_ite_nil_right, List.mem_singleton, List.mem_map, List.filter_eq_nil_iff, or_assoc]
  push Not
  rfl

theorem template_suggested {name s : Str} (h : name ∈ decision.unresolvedNames)
    (hs : suggestionFor suggestions name = some s) :
    suggestedLine name s <:+: templateBody decision suggestions :=
  askLines_infix (mem_askLines.mpr (.inl ⟨name, h, s, hs, rfl⟩))

theorem template_name {name : Str} (h : name ∈ decision.unresolvedNames) :
    name <:+: templateBody decision suggestions := by
  cases hs : suggestionFor suggestions name with
  | some s =>
      have hname : name <:+: suggestedLine name s := by
        unfold suggestedLine
        simp only [List.append_assoc]
        exact (List.prefix_append ..).isInfix.trans (List.suffix_append ..).isInfix
      exact hname.trans (template_suggested h hs)
  | none =>
      have hnone : (suggestionFor suggestions name).isNone = true := by rw [hs]; rfl
      have hplain : name ∈ decision.unresolvedNames.filter fun name =>
        (suggestionFor suggestions name).isNone :=
        List.mem_filter.mpr ⟨h, hnone⟩
      have hline := askLines_infix (mem_askLines.mpr (.inr (.inl ⟨⟨name, h, hnone⟩, rfl⟩)))
      exact (infix_join hplain).trans ((infix_of_append ..).trans hline)

theorem template_field {field : Str} (h : field ∈ decision.missingFields) :
    field <:+: templateBody decision suggestions := by
  have hline : missingLine decision.missingFields <:+: templateBody decision suggestions :=
    askLines_infix (mem_askLines.mpr (.inr (.inr (.inl ⟨List.ne_nil_of_mem h, rfl⟩))))
  exact (infix_join h).trans ((infix_of_append ..).trans hline)

theorem template_regression {line : Str} (h : line ∈ fieldRegressionLines decision.gateReasons) :
    line <:+: templateBody decision suggestions :=
  askLines_infix (mem_askLines.mpr (.inr (.inr (.inr (.inl h)))))

theorem template_reason {reason : Str} (hnames : decision.unresolvedNames = [])
    (hfields : decision.missingFields = [])
    (hlines : fieldRegressionLines decision.gateReasons = []) (h : reason ∈ decision.gateReasons) :
    reason <:+: templateBody decision suggestions := by
  have hline : "  - ".toList ++ reason <:+: templateBody decision suggestions :=
    askLines_infix (mem_askLines.mpr (.inr (.inr
      (.inr (.inr ⟨⟨hnames, hfields, hlines⟩, reason, h, rfl⟩)))))
  exact (List.suffix_append ..).isInfix.trans hline

theorem asks_composeClarification (decision : Decision) (suggestions : Dict Str Str) (draft : Draft) :
    Asks decision suggestions draft (composeClarification decision suggestions draft) := by
  unfold composeClarification
  cases hdrafted : drafted draft with
  | none =>
      refine ⟨fun name f h => template_regression (question_mem h), fun body hdraft hne => ?_,
        fun _ _ => template_name,
        fun _ _ h _ => template_suggested h, fun _ _ => template_field, fun _ hn hf hl _ =>
          template_reason hn hf hl⟩
      exact absurd (drafted_none hdrafted hdraft) hne
  | some body =>
      obtain ⟨rfl, -⟩ := drafted_some hdrafted
      dsimp only
      have hprefix : ∀ body', (.ok (some body) : Draft) = .ok (some body') →
          rstripNewlines body' <+: if fieldRegressionLines decision.gateReasons = [] then body else
            rstripNewlines body ++ "\n\n".toList ++ join ['\n']
              (fieldRegressionLines decision.gateReasons) := by
        rintro _ ⟨⟩
        split
        · exact List.rdropWhile_prefix _ _
        · rw [List.append_assoc]
          exact List.prefix_append ..
      have hnone : ∀ {P : Prop}, drafted (.ok (some body)) = none → P := by
        intro P hnone
        rw [hdrafted] at hnone
        cases hnone
      refine ⟨fun name f h => ?_, fun body' hbody' _ => hprefix body' hbody', hnone, hnone, hnone, hnone⟩
      have hline := question_mem h
      rw [if_neg (List.ne_nil_of_mem hline)]
      exact (infix_join hline).trans (List.suffix_append ..).isInfix

/-- The questions of a run that the gate stopped. -/
theorem clarification_asks [PyText] (extracted : Extracted) (roster : Roster)
    (matches' : List NameMatchResult)
    (resolvedDrops : Pairs) (drops : List RawFieldDrop) (suggestions : Dict Str Str) (draft : Draft) :
    let decision := Decide.decide extracted matches'
      (validate extracted roster matches' resolvedDrops drops)
    let text := composeClarification decision suggestions draft
    Asks decision suggestions draft text ∧
      ∀ d ∈ drops, ∀ id, (nameToId matches').get? d.submittedName = some id →
      (id, d.field) ∉ resolvedDrops → question d.submittedName d.field.name <:+: text := by
  intro decision text
  have hasks := asks_composeClarification decision suggestions draft
  refine ⟨hasks, fun d hd id hid hopen => hasks.regressions _ _ ?_⟩
  have hissue : (⟨fieldPath d.submittedName d.field, .fieldRegression, regressionMessage d⟩ :
      ValidationIssue) ∈
      validate extracted roster matches' resolvedDrops drops := by
    refine List.mem_append_left _ (List.mem_append_left _ (List.mem_filterMap.mpr ⟨d, hd, ?_⟩))
    rw [hid]
    exact if_neg hopen
  have hfield : fieldPath d.submittedName d.field ∈
      Decide.issueFields (validate extracted roster matches' resolvedDrops drops) .fieldRegression :=
    List.mem_map.mpr ⟨_, List.mem_filter.mpr ⟨hissue, by simp⟩, rfl⟩
  exact List.mem_append_left _ (List.mem_append_right _ (List.mem_map_of_mem hfield))

end

end PayrollAgent.ComposeEmail
