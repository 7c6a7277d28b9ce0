import Mathlib.Data.List.Basic
import Mathlib.Data.Nat.Digits.Defs
import PayrollAgent.Lib.Pattern

namespace PayrollAgent.Lib.Json

section Numerals

def sign : Pattern := .alt (.char (· = '-')) .empty

/-- `-?(0|[1-9][0-9]*)(\.[0-9]+)?([eE][+-]?[0-9]+)?` -/
def numeral : Pattern :=
  .seqs
    [sign, .alt (.char (· = '0')) (.seq (.char fun c => c.isDigit && c ≠ '0') (.many Char.isDigit)),
      .alt (.seq (.char (· = '.')) (.many1 Char.isDigit)) .empty,
      .alt (.seqs [.char fun c => c = 'e' || c = 'E', .alt (.char fun c => c = '+' || c = '-')
        .empty, .many1 Char.isDigit]) .empty]

def isNumeral (w : List Char) : Bool := (numeral.run none w).any fun stop => stop.2.isEmpty

def intText : Int → List Char
  | .ofNat n => Nat.toDigits 10 n
  | .negSucc n => '-' :: Nat.toDigits 10 (n + 1)

theorem isNumeral_iff {w : List Char} : isNumeral w = true ↔ numeral.Takes none w [] := by
  rw [isNumeral, List.any_eq_true]
  constructor
  · rintro ⟨⟨q, t⟩, hmem, hempty⟩
    obtain rfl := List.isEmpty_iff.mp hempty
    obtain ⟨v, rfl, -, hv⟩ := Pattern.mem_run.mp hmem
    rwa [List.append_nil]
  · exact fun h => ⟨(w.getLast?.or none, []), Pattern.mem_run.mpr ⟨w, by simp, rfl, h⟩, rfl⟩

theorem toDigits_head {n : Nat} (h : 0 < n) : ∃ c rest, Nat.toDigits 10 n = c :: rest ∧ c ≠ '0' := by
  induction n using Nat.strong_induction_on with
  | h n ih =>
      by_cases hsmall : n < 10
      · have hone : ∀ d < 10, 0 < d → Nat.digitChar d ≠ '0' := by decide
        exact ⟨_, _, Nat.toDigits_of_lt_base hsmall, hone n hsmall h⟩
      · obtain ⟨c, rest, hrest, hc⟩ := ih (n / 10) (by omega) (by omega)
        rw [Nat.toDigits_of_base_le (by decide) (by omega), hrest]
        exact ⟨c, _, rfl, hc⟩

theorem takes_toDigits (n : Nat) (behind : Option Char) (rest : List Char) :
    (Pattern.alt (.char (· = '0')) (.seq (.char fun c => c.isDigit && c ≠ '0')
    (.many Char.isDigit))).Takes behind (Nat.toDigits 10 n) rest := by
  have hdigit : ∀ c ∈ Nat.toDigits 10 n, c.isDigit = true := fun c hc =>
    Nat.isDigit_of_mem_toDigits (by decide) (by decide) hc
  obtain rfl | hpos := Nat.eq_zero_or_pos n
  · exact .inl ⟨'0', Nat.toDigits_zero 10, by decide⟩
  · obtain ⟨c, digits, heq, hc⟩ := toDigits_head hpos
    rw [heq] at hdigit ⊢
    refine .inr ⟨[c], digits, rfl, ⟨c, rfl, ?_⟩, fun d hd => hdigit d (by simp [hd])⟩
    simp [hdigit c (by simp), hc]

theorem isNumeral_intText (n : Int) : isNumeral (intText n) = true := by
  apply isNumeral_iff.mpr
  have hnone (behind : Option Char) : (Pattern.alt (.seq (.char (· = '.')) (.many1 Char.isDigit))
    .empty).Takes behind [] [] :=
    .inr (Pattern.takes_empty.mpr rfl)
  have hnoexponent (behind : Option Char) : (Pattern.alt (.seqs [.char fun c => c = 'e' || c = 'E',
      .alt (.char fun c => c = '+' || c = '-') .empty, .many1 Char.isDigit]) .empty).Takes behind [] [] :=
    .inr (Pattern.takes_empty.mpr rfl)
  cases n with
  | ofNat n =>
      exact ⟨[], Nat.toDigits 10 n, rfl, .inr (Pattern.takes_empty.mpr rfl), Nat.toDigits 10 n,
        [], by simp,
        takes_toDigits n _ _, [], [], rfl, hnone _, [], [], rfl, hnoexponent _,
          Pattern.takes_empty.mpr rfl⟩
  | negSucc n =>
      exact ⟨['-'], Nat.toDigits 10 (n + 1), rfl, .inl ⟨'-', rfl, by decide⟩, Nat.toDigits 10
        (n + 1), [], by simp,
        takes_toDigits (n + 1) _ _, [], [], rfl, hnone _, [], [], rfl, hnoexponent _,
          Pattern.takes_empty.mpr rfl⟩

end Numerals

/-- A number stands for itself. -/
abbrev Numeral := { w : List Char // isNumeral w = true }

def decimal (n : Int) : Numeral := ⟨intText n, isNumeral_intText n⟩

inductive Leaf
  | null
  | bool (b : Bool)
  | number (n : Numeral)
  deriving DecidableEq

/-- The texts are of type `σ`; the members stand in the order they were written. -/
inductive Value (σ : Type)
  | leaf (l : Leaf)
  | text (s : σ)
  | array (items : List (Value σ))
  | object (members : List (σ × Value σ))

inductive Mark
  | bracket
  | unbracket
  | brace
  | unbrace
  | comma
  | colon
  deriving DecidableEq

def Mark.char : Mark → Char
  | .bracket => '['
  | .unbracket => ']'
  | .brace => '{'
  | .unbrace => '}'
  | .comma => ','
  | .colon => ':'

def markOf (c : Char) : Option Mark :=
  [Mark.bracket, .unbracket, .brace, .unbrace, .comma, .colon].find? fun m => m.char = c

inductive Token (σ : Type)
  | leaf (l : Leaf)
  | text (s : σ)
  | mark (m : Mark)

section Values

variable {σ τ α : Type}

@[elab_as_elim]
theorem Value.induction {motive : Value σ → Prop} (leaf : ∀ l, motive (.leaf l))
    (text : ∀ s, motive (.text s)) (array : ∀ items, (∀ v ∈ items, motive v) → motive (.array items))
    (object : ∀ members, (∀ m ∈ members, motive m.2) → motive (.object members)) : ∀ v, motive v
  | .leaf l => leaf l
  | .text s => text s
  | .array items => array items fun v _ => induction leaf text array object v
  | .object members => object members fun m _ => induction leaf text array object m.2
termination_by v => sizeOf v
decreasing_by
  · rename_i hv
    have := List.sizeOf_lt_of_mem hv
    simp only [Value.array.sizeOf_spec]
    omega
  · rename_i hm
    have := List.sizeOf_lt_of_mem hm
    obtain ⟨k, v⟩ := m
    simp only [Value.object.sizeOf_spec, Prod.mk.sizeOf_spec] at this ⊢
    omega

mutual

def Value.map (f : σ → τ) : Value σ → Value τ
  | .leaf l => .leaf l
  | .text s => .text (f s)
  | .array items => .array (mapItems f items)
  | .object members => .object (mapMembers f members)

def mapItems (f : σ → τ) : List (Value σ) → List (Value τ)
  | [] => []
  | v :: rest => v.map f :: mapItems f rest

def mapMembers (f : σ → τ) : List (σ × Value σ) → List (τ × Value τ)
  | [] => []
  | (k, v) :: rest => (f k, v.map f) :: mapMembers f rest

end

structure Spelling (σ α : Type) where
  leaf : Leaf → List α
  text : σ → List α
  mark : Mark → α

def separated (comma : α) : List (List α) → List α
  | [] => []
  | [w] => w
  | w :: rest => w ++ comma :: separated comma rest

mutual

def spell (p : Spelling σ α) : Value σ → List α
  | .leaf l => p.leaf l
  | .text s => p.text s
  | .array items =>
      p.mark .bracket :: (separated (p.mark .comma) (spellItems p items) ++ [p.mark .unbracket])
  | .object members =>
      p.mark .brace :: (separated (p.mark .comma) (spellMembers p members) ++ [p.mark .unbrace])

def spellItems (p : Spelling σ α) : List (Value σ) → List (List α)
  | [] => []
  | v :: rest => spell p v :: spellItems p rest

def spellMembers (p : Spelling σ α) : List (σ × Value σ) → List (List α)
  | [] => []
  | (k, v) :: rest => (p.text k ++ p.mark .colon :: spell p v) :: spellMembers p rest

end

end Values

abbrev Units := List Nat

def utf16 (c : Char) : Units :=
  if c.toNat < 0x10000 then [c.toNat] else [0xD800 + (c.toNat - 0x10000) / 0x400,
    0xDC00 + (c.toNat - 0x10000) % 0x400]

def units (s : List Char) : Units := s.flatMap utf16

section Writer

def hexDigit (d : Nat) : Char := Nat.digitChar d

def unicodeEscape (n : Nat) : List Char :=
  ['\\', 'u', hexDigit (n / 4096 % 16), hexDigit (n / 256 % 16), hexDigit (n / 16 % 16),
    hexDigit (n % 16)]

def shorthand : List (Char × Char) :=
  [('"', '"'), ('\\', '\\'), ('b', '\x08'), ('f', '\x0c'), ('n', '\n'), ('r', '\r'), ('t', '\t')]

def escapeChar (c : Char) : List Char :=
  match shorthand.find? fun e => e.2 = c with
  | some e => ['\\', e.1]
  | none => if c.toNat < 0x20 then unicodeEscape c.toNat else [c]

def quote (s : List Char) : List Char := '"' :: (s.flatMap escapeChar ++ ['"'])

def leafText : Leaf → List Char
  | .null => "null".toList
  | .bool true => "true".toList
  | .bool false => "false".toList
  | .number n => n.val

def written : Spelling (List Char) Char := ⟨leafText, quote, Mark.char⟩

def dump : Value (List Char) → List Char := spell written

end Writer

section Lexer

def wordChar (c : Char) : Bool := c.isAlphanum || c = '+' || c = '-' || c = '.'

def white (c : Char) : Bool := c = ' ' || c = '\t' || c = '\n' || c = '\r'

def leafOf (w : List Char) : Option Leaf :=
  if w = "null".toList then some .null
  else if w = "true".toList then some (.bool true)
  else if w = "false".toList then some (.bool false)
  else if h : isNumeral w = true then some (.number ⟨w, h⟩)
  else none

/-- What was read of the token at hand, the last first. -/
inductive Mode
  | outside (word : List Char)
  | inside (read : Units)
  | escaped (read : Units)
  | hex (read : Units) (count value : Nat)

structure State where
  mode : Mode
  tokens : List (Token Units)

def State.ended (s : State) : Option (List (Token Units)) :=
  match s.mode with
  | .outside [] => some s.tokens
  | .outside word => (leafOf word.reverse).map fun l => .leaf l :: s.tokens
  | .inside _ | .escaped _ | .hex _ _ _ => none

def hexValue (c : Char) : Option Nat :=
  (List.range 16).find? fun d => hexDigit d = c || (hexDigit d).toUpper = c

def stepOutside (word : List Char) (ts : List (Token Units)) (c : Char) : Option State :=
  if wordChar c then some ⟨.outside (c :: word), ts⟩
  else (State.ended ⟨.outside word, ts⟩).bind fun ts =>
    if white c then some ⟨.outside [], ts⟩
    else if c = '"' then some ⟨.inside [], ts⟩
    else (markOf c).map fun m => ⟨.outside [], .mark m :: ts⟩

def stepInside (read : Units) (ts : List (Token Units)) (c : Char) : Option State :=
  if c = '"' then some ⟨.outside [], .text read.reverse :: ts⟩
  else if c = '\\' then some ⟨.escaped read, ts⟩
  else if c.toNat < 0x20 then none
  else some ⟨.inside ((utf16 c).reverse ++ read), ts⟩

def stepEscaped (read : Units) (ts : List (Token Units)) (c : Char) : Option State :=
  if c = 'u' then some ⟨.hex read 0 0, ts⟩
  else if c = '/' then some ⟨.inside (c.toNat :: read), ts⟩
  else (shorthand.lookup c).map fun e => ⟨.inside (e.toNat :: read), ts⟩

def stepHex (read : Units) (count value : Nat) (ts : List (Token Units)) (c : Char) : Option State :=
  (hexValue c).map fun d =>
    if count = 3 then ⟨.inside ((16 * value + d) :: read), ts⟩ else
      ⟨.hex read (count + 1) (16 * value + d), ts⟩

def step (s : State) (c : Char) : Option State :=
  match s.mode with
  | .outside word => stepOutside word s.tokens c
  | .inside read => stepInside read s.tokens c
  | .escaped read => stepEscaped read s.tokens c
  | .hex read count value => stepHex read count value s.tokens c

def feed (s : State) (w : List Char) : Option State := w.foldlM step s

def lex (w : List Char) : Option (List (Token Units)) :=
  ((feed ⟨.outside [], []⟩ w).bind State.ended).map List.reverse

end Lexer

section Parser

variable {σ : Type}

/-- An array or an object that is not closed, the last first. -/
inductive Frame (σ : Type)
  | items (behind : List (Value σ))
  | members (behind : List (σ × Value σ)) (key : σ)

/-- What the next token is for. `closable` stands right behind an opening mark. -/
inductive Awaiting (σ : Type)
  | value (closable : Bool)
  | key (closable : Bool) (behind : List (σ × Value σ))
  | colon (behind : List (σ × Value σ)) (key : σ)
  | next (v : Value σ)

structure Reading (σ : Type) where
  awaiting : Awaiting σ
  frames : List (Frame σ)

def shift (r : Reading σ) (t : Token σ) : Option (Reading σ) :=
  match r.awaiting, r.frames, t with
  | .value _, frames, .leaf l => some ⟨.next (.leaf l), frames⟩
  | .value _, frames, .text s => some ⟨.next (.text s), frames⟩
  | .value _, frames, .mark .bracket => some ⟨.value true, .items [] :: frames⟩
  | .value _, frames, .mark .brace => some ⟨.key true [], frames⟩
  | .value true, .items behind :: frames, .mark .unbracket => some ⟨.next (.array behind.reverse), frames⟩
  | .key _ behind, frames, .text k => some ⟨.colon behind k, frames⟩
  | .key true behind, frames, .mark .unbrace => some ⟨.next (.object behind.reverse), frames⟩
  | .colon behind k, frames, .mark .colon => some ⟨.value false, .members behind k :: frames⟩
  | .next v, .items behind :: frames, .mark .comma => some ⟨.value false, .items (v :: behind) :: frames⟩
  | .next v, .items behind :: frames, .mark .unbracket =>
      some ⟨.next (.array (v :: behind).reverse), frames⟩
  | .next v, .members behind k :: frames, .mark .comma => some ⟨.key false ((k, v) :: behind), frames⟩
  | .next v, .members behind k :: frames, .mark .unbrace =>
      some ⟨.next (.object ((k, v) :: behind).reverse), frames⟩
  | _, _, _ => none

def Reading.finished (r : Reading σ) : Option (Value σ) :=
  match r.awaiting, r.frames with
  | .next v, [] => some v
  | _, _ => none

def read (r : Reading σ) (ts : List (Token σ)) : Option (Reading σ) := ts.foldlM shift r

def parseTokens (ts : List (Token σ)) : Option (Value σ) :=
  (read ⟨.value false, []⟩ ts).bind Reading.finished

def parse (w : List Char) : Option (Value Units) := (lex w).bind parseTokens

end Parser

section Lexes

variable {s s' : State} {w w' : List Char} {ts ts' before : List (Token Units)} {read : Units} {c : Char}

theorem feed_append (s : State) (w w' : List Char) : feed s (w ++ w') = (feed s w).bind fun s' =>
    feed s' w' :=
  List.foldlM_append

theorem feed_cons (s : State) (c : Char) (w : List Char) :
    feed s (c :: w) = (step s c).bind fun s' => feed s' w :=
  List.foldlM_cons

@[simp] theorem feed_nil (s : State) : feed s [] = some s := rfl

theorem feed_singleton (s : State) (c : Char) : feed s [c] = step s c := by
  rw [feed_cons]
  exact Option.bind_fun_some _

theorem hexValue_mod (n : Nat) : hexValue (hexDigit (n % 16)) = some (n % 16) := by
  have hall : ∀ d < 16, hexValue (hexDigit d) = some d := by decide
  exact hall _ (Nat.mod_lt _ (by omega))

theorem feed_unicodeEscape {n : Nat} (h : n < 0x10000) (read : Units) (ts : List (Token Units)) :
    feed ⟨.inside read, ts⟩ (unicodeEscape n) = some ⟨.inside (n :: read), ts⟩ := by
  have hvalue : 16 * (16 * (16 * (n / 4096 % 16) + n / 256 % 16) + n / 16 % 16) + n % 16 = n := by omega
  simp [unicodeEscape, feed_cons, step, stepInside, stepEscaped, stepHex, hexValue_mod, hvalue]

theorem utf16_of_lt (h : c.toNat < 0x10000) : utf16 c = [c.toNat] := if_pos h

theorem feed_escapeChar (c : Char) (read : Units) (ts : List (Token Units)) :
    feed ⟨.inside read, ts⟩ (escapeChar c) = some ⟨.inside ((utf16 c).reverse ++ read), ts⟩ := by
  unfold escapeChar
  split
  next e h =>
    have hmem := List.mem_of_find?_eq_some h
    have hc := List.find?_some h
    obtain rfl : e.2 = c := by simpa using hc
    simp only [shorthand, List.mem_cons, List.not_mem_nil, or_false] at hmem
    rcases hmem with rfl | rfl | rfl | rfl | rfl | rfl | rfl <;> rfl
  next h =>
    have hnot : ∀ e ∈ shorthand, e.2 ≠ c := by simpa using List.find?_eq_none.mp h
    have hquote : c ≠ '"' := fun hc => hnot ('"', '"') (by decide) hc.symm
    have hbackslash : c ≠ '\\' := fun hc => hnot ('\\', '\\') (by decide) hc.symm
    split
    next hcontrol =>
      have hsmall : c.toNat < 0x10000 := by omega
      rw [feed_unicodeEscape hsmall, utf16_of_lt hsmall]
      rfl
    next hcontrol =>
      rw [feed_singleton]
      exact (if_neg hquote).trans ((if_neg hbackslash).trans (if_neg hcontrol))

theorem feed_escaped (s : List Char) (read : Units) (ts : List (Token Units)) :
    feed ⟨.inside read, ts⟩ (s.flatMap escapeChar) = some ⟨.inside ((units s).reverse ++ read), ts⟩ := by
  induction s generalizing read with
  | nil => rfl
  | cons c s ih =>
      rw [List.flatMap_cons, feed_append, feed_escapeChar, Option.bind_some, ih]
      simp [units]

/-- From a place between two tokens the text reads as these, the last of which may
be open. -/
def Lexes (w : List Char) (ts : List (Token Units)) : Prop :=
  ∀ before, (feed ⟨.outside [], before⟩ w).bind State.ended = some (ts.reverse ++ before)

theorem lexes_nil : Lexes [] [] := fun _ => rfl

theorem markOf_char (m : Mark) : markOf m.char = some m := by
  cases m <;> decide

theorem step_mark (h : s.ended = some ts) (m : Mark) :
    step s m.char = some ⟨.outside [], .mark m :: ts⟩ := by
  have hword : wordChar m.char = false := by cases m <;> decide
  have hwhite : white m.char = false := by cases m <;> decide
  have hquote : m.char ≠ '"' := by cases m <;> decide
  obtain ⟨mode, tokens⟩ := s
  cases mode with
  | outside word => simp [step, stepOutside, hword, hwhite, hquote, h, markOf_char]
  | inside read => cases h
  | escaped read => cases h
  | hex read count value => cases h

theorem Lexes.mark (h : Lexes w ts) (m : Mark) (h' : Lexes w' ts') :
    Lexes (w ++ m.char :: w') (ts ++ .mark m :: ts') := by
  intro before
  obtain ⟨s, hs, hended⟩ := Option.bind_eq_some_iff.mp (h before)
  rw [feed_append, hs, Option.bind_some, feed_cons, step_mark hended, Option.bind_some, h']
  simp

theorem lexes_quote (s : List Char) : Lexes (quote s) [.text (units s)] := by
  intro before
  have hopen : feed ⟨.outside [], before⟩ (quote s) = feed ⟨.inside [], before⟩
    (s.flatMap escapeChar ++ ['"']) := rfl
  rw [hopen, feed_append, feed_escaped, Option.bind_some, feed_singleton]
  simp [step, stepInside, State.ended]

theorem feed_word (h : ∀ c ∈ w, wordChar c = true) (word : List Char) :
    feed ⟨.outside word, ts⟩ w = some ⟨.outside (w.reverse ++ word), ts⟩ := by
  induction w generalizing word with
  | nil => rfl
  | cons c w ih =>
      have hstep : step ⟨.outside word, ts⟩ c = some ⟨.outside (c :: word), ts⟩ := if_pos (h c (by simp))
      rw [feed_cons, hstep, Option.bind_some, ih fun d hd => h d (by simp [hd])]
      simp

theorem lexes_word {l : Leaf} (hne : w ≠ []) (h : ∀ c ∈ w, wordChar c = true) (hl : leafOf w = some l) :
    Lexes w [.leaf l] := by
  intro before
  rw [feed_word h, Option.bind_some, List.append_nil]
  obtain ⟨c, rest, hrest⟩ := List.exists_cons_of_ne_nil (List.reverse_ne_nil_iff.mpr hne)
  have hended : State.ended ⟨.outside w.reverse, before⟩ = (leafOf w).map fun l => .leaf l :: before := by
    rw [← List.reverse_reverse w, hrest, List.reverse_reverse]
    rfl
  rw [hended, hl]
  rfl

theorem numeral_within : numeral.Within wordChar := by
  have hdigit : ∀ c : Char, c.isDigit = true → wordChar c = true :=
    fun c hc => by simp [wordChar, Char.isAlphanum, hc]
  have hnonzero : ∀ c : Char, (c.isDigit && decide (c ≠ '0')) = true → wordChar c = true := fun c hc =>
    hdigit c (Bool.and_eq_true_iff.mp hc).1
  have hone : ∀ d : Char, wordChar d = true → ∀ c : Char, decide (c = d) = true → wordChar c = true := by
    rintro d hd c hc
    rwa [of_decide_eq_true hc]
  have htwo : ∀ d e : Char, wordChar d = true → wordChar e = true →
      ∀ c : Char, (decide (c = d) || decide (c = e)) = true → wordChar c = true := by
    rintro d e hd he c hc
    obtain hc | hc := Bool.or_eq_true_iff.mp hc
    · exact hone d hd c hc
    · exact hone e he c hc
  exact ⟨⟨hone '-' (by decide), trivial⟩, ⟨hone '0' (by decide), hnonzero, hdigit⟩,
    ⟨⟨hone '.' (by decide), hdigit, hdigit⟩, trivial⟩,
    ⟨⟨htwo 'e' 'E' (by decide) (by decide), ⟨htwo '+' '-' (by decide) (by decide), trivial⟩,
    ⟨hdigit, hdigit⟩, trivial⟩, trivial⟩, trivial⟩

theorem lexes_leaf (l : Leaf) : Lexes (leafText l) [.leaf l] := by
  cases l with
  | null => exact lexes_word (by decide) (List.all_eq_true.mp (by decide)) (by decide)
  | bool b =>
      cases b with
      | true => exact lexes_word (by decide) (List.all_eq_true.mp (by decide)) (by decide)
      | false => exact lexes_word (by decide) (List.all_eq_true.mp (by decide)) (by decide)
  | number n =>
      obtain ⟨w, hw⟩ := n
      have hother : ∀ v : List Char, isNumeral v = false → w ≠ v := by
        rintro v hv rfl
        rw [hw] at hv
        cases hv
      apply lexes_word (hother [] (by decide)) (numeral_within.takes (isNumeral_iff.mp hw))
      simp only [leafOf, if_neg (hother "null".toList (by decide)),
        if_neg (hother "true".toList (by decide)),
        if_neg (hother "false".toList (by decide)), dif_pos hw]

theorem lexes_separated {ws : List (List Char)} {tss : List (List (Token Units))}
    (h : List.Forall₂ Lexes ws tss) :
    Lexes (separated Mark.comma.char ws) (separated (.mark .comma) tss) := by
  induction h with
  | nil => exact lexes_nil
  | cons hw hrest ih =>
      cases hrest with
      | nil => exact hw
      | cons hnext hrest => exact hw.mark .comma ih

end Lexes

section RoundTrip

variable {σ : Type} {ts : List (Token σ)} {v : Value σ} {items behind : List (Value σ)}
  {members before : List (σ × Value σ)} {frames : List (Frame σ)}

def tokenwise : Spelling σ (Token σ) := ⟨fun l => [.leaf l], fun s => [.text s], .mark⟩

def tokens (v : Value σ) : List (Token σ) := spell tokenwise v

theorem lexes_dump (v : Value (List Char)) : Lexes (dump v) (tokens (v.map units)) := by
  induction v using Value.induction with
  | leaf l => exact lexes_leaf l
  | text s => exact lexes_quote s
  | array items ih =>
      have hitems : List.Forall₂ Lexes (spellItems written items)
        (spellItems tokenwise (mapItems units items)) := by
        induction items with
        | nil => exact .nil
        | cons v items ih' => exact .cons (ih v (by simp)) (ih' fun w hw => ih w (by simp [hw]))
      exact lexes_nil.mark .bracket ((lexes_separated hitems).mark .unbracket lexes_nil)
  | object members ih =>
      have hmembers : List.Forall₂ Lexes (spellMembers written members)
          (spellMembers tokenwise (mapMembers units members)) := by
        induction members with
        | nil => exact .nil
        | cons m members ih' =>
            exact .cons ((lexes_quote m.1).mark .colon (ih m (by simp)))
              (ih' fun w hw => ih w (by simp [hw]))
      exact lexes_nil.mark .brace ((lexes_separated hmembers).mark .unbrace lexes_nil)

theorem read_append (r : Reading σ) (ts ts' : List (Token σ)) :
    read r (ts ++ ts') = (read r ts).bind fun r' => read r' ts' := List.foldlM_append

theorem read_cons (r : Reading σ) (t : Token σ) (ts : List (Token σ)) :
    read r (t :: ts) = (shift r t).bind fun r' => read r' ts := List.foldlM_cons

def Reads (ts : List (Token σ)) (v : Value σ) : Prop :=
  ∀ closable frames, read ⟨.value closable, frames⟩ ts = some ⟨.next v, frames⟩

theorem reads_items (h : ∀ v ∈ items, Reads (tokens v) v) (hne : items ≠ []) (closable : Bool) :
    read ⟨.value closable, .items behind :: frames⟩
        (separated (Token.mark .comma) (spellItems tokenwise items) ++ [Token.mark .unbracket]) =
      some ⟨.next (.array (behind.reverse ++ items)), frames⟩ := by
  induction items generalizing behind closable with
  | nil => exact absurd rfl hne
  | cons v items ih =>
      have hv := h v (by simp) closable (.items behind :: frames)
      cases items with
      | nil =>
          have hclose : read ⟨.next v, .items behind :: frames⟩ [.mark .unbracket] =
              some ⟨.next (.array (v :: behind).reverse), frames⟩ := rfl
          rw [spellItems, spellItems, separated, read_append, ← tokens, hv, Option.bind_some,
            hclose, List.reverse_cons]
      | cons w items =>
          have hrest := @ih (v :: behind) (fun u hu => h u (by simp [hu])) (by simp) false
          rw [List.reverse_cons, List.append_assoc] at hrest
          have hcomma : shift ⟨.next v, .items behind :: frames⟩ (.mark .comma) =
              some ⟨.value false, .items (v :: behind) :: frames⟩ := rfl
          rw [spellItems, spellItems, separated, List.append_assoc, List.cons_append, read_append,
            ← tokens, hv, Option.bind_some, read_cons, hcomma, Option.bind_some]
          · exact hrest
          · simp

theorem reads_members (h : ∀ m ∈ members, Reads (tokens m.2) m.2) (hne : members ≠ []) (closable : Bool) :
    read ⟨.key closable before, frames⟩
        (separated (Token.mark .comma) (spellMembers tokenwise members) ++ [Token.mark .unbrace]) =
      some ⟨.next (.object (before.reverse ++ members)), frames⟩ := by
  induction members generalizing before closable with
  | nil => exact absurd rfl hne
  | cons m members ih =>
      obtain ⟨k, v⟩ := m
      have hv : Reads (tokens v) v := h (k, v) (by simp)
      have hmember (rest : List (Token σ)) : read ⟨.key closable before, frames⟩
          (tokenwise.text k ++ tokenwise.mark .colon :: tokens v ++ rest) =
            read ⟨.next v, .members before k :: frames⟩ rest := by
        have hkey : read ⟨.key closable before, frames⟩
          (tokenwise.text k ++ tokenwise.mark .colon :: tokens v ++ rest) =
            read ⟨.value false, .members before k :: frames⟩ (tokens v ++ rest) := rfl
        rw [hkey, read_append, hv, Option.bind_some]
      cases members with
      | nil =>
          have hclose : read ⟨.next v, .members before k :: frames⟩ [.mark .unbrace] =
              some ⟨.next (.object ((k, v) :: before).reverse), frames⟩ := rfl
          rw [spellMembers, spellMembers, separated, ← tokens, hmember, hclose, List.reverse_cons]
      | cons m' members =>
          have hrest := @ih ((k, v) :: before) (fun u hu => h u (by simp [hu])) (by simp) false
          rw [List.reverse_cons, List.append_assoc] at hrest
          have hcomma : shift ⟨.next v, .members before k :: frames⟩ (.mark .comma) =
              some ⟨.key false ((k, v) :: before), frames⟩ := rfl
          rw [spellMembers, spellMembers, separated, List.append_assoc, List.cons_append, ← tokens,
            hmember, read_cons, hcomma, Option.bind_some]
          · exact hrest
          · simp

theorem reads_tokens (v : Value σ) : Reads (tokens v) v := by
  induction v using Value.induction with
  | leaf l => exact fun closable frames => rfl
  | text s => exact fun closable frames => rfl
  | array items ih =>
      intro closable frames
      cases items with
      | nil => rfl
      | cons v items => exact reads_items ih (by simp) true
  | object members ih =>
      intro closable frames
      cases members with
      | nil => rfl
      | cons m members => exact reads_members ih (by simp) true

theorem parseTokens_tokens (v : Value σ) : parseTokens (tokens v) = some v := by
  rw [parseTokens, reads_tokens v]
  rfl

theorem lex_of_lexes {w : List Char} {ts : List (Token Units)} (h : Lexes w ts) : lex w = some ts := by
  rw [lex, h, List.append_nil, Option.map_some, List.reverse_reverse]

theorem parse_dump (v : Value (List Char)) : parse (dump v) = some (v.map units) := by
  rw [parse, lex_of_lexes (lexes_dump v), Option.bind_some, parseTokens_tokens]

end RoundTrip

section Hidden

variable {s s' : State} {hide : Char → Bool} {c : Char} {raw : List Char} {v : Value Units}

/-- Outside the strings no token holds the character, and inside them it needs no
escape. -/
structure Foreign (c : Char) : Prop where
  small : c.toNat < 0x10000
  control : ¬c.toNat < 0x20
  word : wordChar c = false
  white : white c = false
  mark : markOf c = none
  quote : c ≠ '"'
  backslash : c ≠ '\\'
  slash : c ≠ '/'

def hidden (hide : Char → Bool) (c : Char) : List Char := if hide c then unicodeEscape c.toNat else [c]

theorem Foreign.lookup (h : Foreign c) : shorthand.lookup c = none := by
  apply List.lookup_eq_none_iff.mpr
  intro e he
  apply bne_iff_ne.mpr
  rintro rfl
  have hword := h.word
  have hquote := h.quote
  have hbackslash := h.backslash
  simp only [shorthand, List.mem_cons, List.not_mem_nil, or_false] at he
  rcases he with rfl | rfl | rfl | rfl | rfl | rfl | rfl
  · exact hquote rfl
  · exact hbackslash rfl
  all_goals cases hword

theorem Foreign.hexValue (h : Foreign c) : hexValue c = none := by
  apply List.find?_eq_none.mpr
  intro d hd hc
  have hdigit : ∀ d < 16, wordChar (hexDigit d) = true ∧ wordChar (hexDigit d).toUpper = true := by decide
  have hword := h.word
  obtain hc | hc := Bool.or_eq_true_iff.mp hc
  · rw [← of_decide_eq_true hc, (hdigit d (List.mem_range.mp hd)).1] at hword
    cases hword
  · rw [← of_decide_eq_true hc, (hdigit d (List.mem_range.mp hd)).2] at hword
    cases hword

/-- Where the character is read at all, it is read in a string, and as what its
escape reads. -/
theorem Foreign.feed (h : Foreign c) (hs : step s c = some s') :
    feed s (unicodeEscape c.toNat) = some s' := by
  obtain ⟨mode, ts⟩ := s
  cases mode with
  | outside word =>
      rw [step] at hs
      simp [stepOutside, h.word, h.white, h.quote, h.mark] at hs
  | inside read =>
      simp only [step, stepInside, if_neg h.quote, if_neg h.backslash, if_neg h.control,
        Option.some.injEq] at hs
      rw [feed_unicodeEscape h.small, ← hs, utf16_of_lt h.small]
      rfl
  | escaped read =>
      have hu : c ≠ 'u' := by
        rintro rfl
        cases h.word
      simp [step, stepEscaped, hu, h.slash, h.lookup] at hs
  | hex read count value => simp [step, stepHex, h.hexValue] at hs

theorem feed_hidden (hforeign : ∀ c, hide c = true → Foreign c) (h : feed s raw = some s') :
    feed s (raw.flatMap (hidden hide)) = some s' := by
  induction raw generalizing s with
  | nil => exact h
  | cons c raw ih =>
      rw [feed_cons] at h
      obtain ⟨s₁, hstep, hrest⟩ := Option.bind_eq_some_iff.mp h
      have hfirst : feed s (hidden hide c) = some s₁ := by
        unfold hidden
        split
        next hc => exact (hforeign c hc).feed hstep
        next => rw [feed_singleton, hstep]
      rw [List.flatMap_cons, feed_append, hfirst, Option.bind_some, ih hrest]

theorem parse_hidden (hforeign : ∀ c, hide c = true → Foreign c) (h : parse raw = some v) :
    parse (raw.flatMap (hidden hide)) = some v := by
  obtain ⟨ts, hlex, hparse⟩ := Option.bind_eq_some_iff.mp h
  obtain ⟨ts', hts', rfl⟩ := Option.map_eq_some_iff.mp hlex
  obtain ⟨s, hfeed, hended⟩ := Option.bind_eq_some_iff.mp hts'
  rw [parse, lex, feed_hidden hforeign hfeed, Option.bind_some, hended]
  exact hparse

end Hidden

end PayrollAgent.Lib.Json
