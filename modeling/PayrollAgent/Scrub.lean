import PayrollAgent.Unicode
import PayrollAgent.ReconcileNames
import PayrollAgent.Lib.Substitution

namespace PayrollAgent.Scrub

open Lib Text

structure AccentClass where
  composed : Char
  base : Char
  mark : Char

section

variable [PyUnicode]

def accentClass (lower : Char) : Option AccentClass :=
  match PyUnicode.decomposition lower with
  | some ⟨false, [base, mark]⟩ =>
      if PyUnicode.combining mark = 0 ∨ 128 ≤ base.toNat then none else some ⟨lower, base, mark⟩
  | _ => none

/-- `_build_accent_class_map`, over the Latin-1 Supplement. -/
def accentClassMap : Dict Char AccentClass :=
  Dict.ofList ((List.range' 0xC0 0x40).filterMap fun codepoint =>
    match PyUnicode.lower (Char.ofNat codepoint) with
    | [lower] => (accentClass lower).map fun cls => (lower, cls)
    | _ => none)

/-- `_ACCENT_CLASS_MAP.get(ch.lower())`. -/
def latin1Class (ch : Char) : Option AccentClass :=
  match PyUnicode.lower ch with
  | [lower] => accentClassMap.get? lower
  | _ => none

def fragment (classes : Char → Option AccentClass) (ch : Char) : Pattern :=
  match classes ch with
  | some cls =>
      .alt (literal [cls.composed]) (.alt (literal [cls.base, cls.mark]) (literal [cls.base]))
  | none => literal [ch]

/-- The class of the look-arounds: a word character or a combining mark. -/
def isTokenChar (c : Char) : Bool :=
  PyUnicode.isWord c || (0x300 ≤ c.toNat && c.toNat ≤ 0x36F)

def compileNamePattern [PyText] (name : Str) : Pattern :=
  .seqs
    [.look fun behind _ => !behind.any isTokenChar,
     .seqs ((PyText.nfc name).map (fragment latin1Class)),
     .look fun _ ahead => !ahead.head?.any isTokenChar]

end

def isLocalChar (c : Char) : Bool := c.isAlphanum || c ∈ "._%+-".toList

def isDomainChar (c : Char) : Bool := c.isAlphanum || c ∈ ".-".toList

/-- `_EMAIL_RE`. -/
def emailRe : Pattern :=
  .seqs [.many1 isLocalChar, .char (· = '@'), .many1 isDomainChar, .char (· = '.'),
    .char Char.isAlpha, .many1 Char.isAlpha]

/-- `_REDACTED`. -/
def redacted : Str := "[REDACTED]".toList

/-- Every full name and alias of the roster that is not empty. -/
def rosterNames (roster : Roster) : List Str :=
  roster.employees.flatMap fun e => (e.fullName :: e.knownAliases).filter (· ≠ [])

def candidates (roster : Roster) : List Str :=
  (rosterNames roster).insertionSort fun a b => b.length ≤ a.length

section

variable [PyText] [PyUnicode]

/-- `_scrub` on a text whose characters may carry more than a code point. -/
def scrubAs {σ : Type} (view : σ → Char) (mark message : List σ) (roster : Option Roster) : List σ :=
  let message := emailRe.subAs view mark message
  match roster with
  | none => message
  | some roster =>
      (candidates roster).foldl (fun message name => (compileNamePattern name).subAs view mark message)
        message

def scrub (message : Str) (roster : Option Roster) : Str := scrubAs id redacted message roster

/-- The scrub of a text in which every character says whether a redaction put
it there. -/
def scrubMarked (message : Str) (roster : Option Roster) : List (Char × Bool) :=
  scrubAs Prod.fst (redacted.map fun c => (c, true)) (message.map fun c => (c, false)) roster

end

def IsEmail (w : Str) : Prop :=
  ∃ user domain top, w = user ++ '@' :: (domain ++ '.' :: top) ∧
    user ≠ [] ∧ (∀ c ∈ user, isLocalChar c = true) ∧
    domain ≠ [] ∧ (∀ c ∈ domain, isDomainChar c = true) ∧
    2 ≤ top.length ∧ ∀ c ∈ top, c.isAlpha = true

section

variable [PyUnicode]

/-- The spellings of a name, up to case. A letter with a class is spelled
composed, decomposed or without its accent, any other letter as it is. -/
inductive Spells (classes : Char → Option AccentClass) : Str → Str → Prop
  | nil : Spells classes [] []
  | plain {c d : Char} {name w : Str} (hc : classes c = none) (hd : PyUnicode.sameLetter c d = true)
      (h : Spells classes name w) : Spells classes (c :: name) (d :: w)
  | composed {c d : Char} {cls : AccentClass} {name w : Str} (hc : classes c = some cls)
      (hd : PyUnicode.sameLetter cls.composed d = true) (h : Spells classes name w) :
      Spells classes (c :: name) (d :: w)
  | decomposed {c d e : Char} {cls : AccentClass} {name w : Str} (hc : classes c = some cls)
      (hd : PyUnicode.sameLetter cls.base d = true) (he : PyUnicode.sameLetter cls.mark e = true)
      (h : Spells classes name w) : Spells classes (c :: name) (d :: e :: w)
  | stripped {c d : Char} {cls : AccentClass} {name w : Str} (hc : classes c = some cls)
      (hd : PyUnicode.sameLetter cls.base d = true) (h : Spells classes name w) :
      Spells classes (c :: name) (d :: w)

def WholeToken (pre post : Str) : Prop :=
  (∀ c ∈ pre.getLast?, isTokenChar c = false) ∧ ∀ c ∈ post.head?, isTokenChar c = false

/-- A stretch of a scrubbed text that overlaps a redaction or, at an end where
it has no word character, adjoins one. -/
def Touches (pre w post : List (Char × Bool)) : Prop :=
  (∃ x ∈ w, x.2 = true) ∨
    (∃ x ∈ pre.getLast?, x.2 = true ∧ ∃ y ∈ w.head?, isTokenChar y.1 = false) ∨
    ∃ x ∈ post.head?, x.2 = true ∧ ∃ y ∈ w.getLast?, isTokenChar y.1 = false

variable {classes : Char → Option AccentClass} {name w rest : Str} {behind : Option Char}

theorem takes_literal_one {c : Char} :
    (literal [c]).Takes behind w rest ↔ ∃ d, w = [d] ∧ PyUnicode.sameLetter c d = true := by
  rw [literal, Pattern.takes_lit]
  constructor
  · intro h
    cases h with
    | cons hd htail =>
        cases htail
        exact ⟨_, rfl, hd⟩
  · rintro ⟨d, rfl, hd⟩
    exact .cons hd .nil

theorem takes_literal_two {c c' : Char} : (literal [c, c']).Takes behind w rest ↔
    ∃ d e, w = [d, e] ∧ PyUnicode.sameLetter c d = true ∧ PyUnicode.sameLetter c' e = true := by
  rw [literal, Pattern.takes_lit]
  constructor
  · intro h
    cases h with
    | cons hd htail =>
        cases htail with
        | cons he hnil =>
            cases hnil
            exact ⟨_, _, rfl, hd, he⟩
  · rintro ⟨d, e, rfl, hd, he⟩
    exact .cons hd (.cons he .nil)

theorem takes_fragments :
    (Pattern.seqs (name.map (fragment classes))).Takes behind w rest ↔ Spells classes name w := by
  induction name generalizing behind w with
  | nil =>
      rw [List.map_nil, Pattern.seqs, Pattern.takes_empty]
      constructor
      · rintro rfl
        exact .nil
      · intro h
        cases h
        rfl
  | cons c name ih =>
      simp only [List.map_cons, Pattern.seqs, Pattern.Takes, ih]
      constructor
      · rintro ⟨u, v, rfl, hu, hv⟩
        cases hc : classes c with
        | none =>
            rw [fragment, hc, takes_literal_one] at hu
            obtain ⟨d, rfl, hd⟩ := hu
            exact .plain hc hd hv
        | some cls =>
            simp only [fragment, hc, Pattern.Takes, takes_literal_one, takes_literal_two] at hu
            obtain ⟨d, rfl, hd⟩ | ⟨d, e, rfl, hd, he⟩ | ⟨d, rfl, hd⟩ := hu
            · exact .composed hc hd hv
            · exact .decomposed hc hd he hv
            · exact .stripped hc hd hv
      · intro h
        cases h with
        | plain hc hd h =>
            refine ⟨[_], _, rfl, ?_, h⟩
            rw [fragment, hc, takes_literal_one]
            exact ⟨_, rfl, hd⟩
        | composed hc hd h =>
            refine ⟨[_], _, rfl, ?_, h⟩
            simp only [fragment, hc, Pattern.Takes, takes_literal_one]
            exact .inl ⟨_, rfl, hd⟩
        | decomposed hc hd he h =>
            refine ⟨[_, _], _, rfl, ?_, h⟩
            simp only [fragment, hc, Pattern.Takes, takes_literal_one, takes_literal_two]
            exact .inr (.inl ⟨_, _, rfl, hd, he⟩)
        | stripped hc hd h =>
            refine ⟨[_], _, rfl, ?_, h⟩
            simp only [fragment, hc, Pattern.Takes, takes_literal_one, takes_literal_two]
            exact .inr (.inr ⟨_, rfl, hd⟩)

theorem any_eq_false {o : Option Char} :
    (!o.any isTokenChar) = true ↔ ∀ c ∈ o, isTokenChar c = false := by
  cases o <;> simp

theorem takes_compileNamePattern [PyText] :
    (compileNamePattern name).Takes behind w rest ↔
      (∀ c ∈ behind, isTokenChar c = false) ∧ Spells latin1Class (PyText.nfc name) w ∧
        ∀ c ∈ rest.head?, isTokenChar c = false := by
  simp only [compileNamePattern, Pattern.seqs, Pattern.Takes, Pattern.takes_empty, takes_fragments,
    any_eq_false]
  constructor
  · rintro ⟨_, _, rfl, ⟨rfl, hbehind⟩, u, _, rfl, hu, _, _, rfl, ⟨rfl, hrest⟩, rfl⟩
    exact ⟨hbehind, by simpa using hu, by simpa using hrest⟩
  · rintro ⟨hbehind, hw, hrest⟩
    exact ⟨[], w, rfl, ⟨rfl, hbehind⟩, w, [], by simp, hw, [], [], rfl, ⟨rfl, by simpa using hrest⟩, rfl⟩

theorem Spells.ne_nil (h : Spells classes name w) (hname : name ≠ []) : w ≠ [] := by
  cases h with
  | nil => exact absurd rfl hname
  | plain | composed | decomposed | stripped => exact List.cons_ne_nil _ _

theorem solid_compileNamePattern [PyText] (hname : PyText.nfc name ≠ []) :
    (compileNamePattern name).Solid := by
  intro behind rest h
  exact (takes_compileNamePattern.mp h).2.1.ne_nil hname rfl

end

theorem takes_emailRe {behind : Option Char} {w rest : Str} : emailRe.Takes behind w rest ↔
    IsEmail w := by
  simp only [emailRe, Pattern.seqs, Pattern.Takes, Pattern.takes_empty, Pattern.takes_many1]
  constructor
  · rintro ⟨user, _, rfl, ⟨huser, huserc⟩, _, _, rfl, ⟨_, rfl, hat⟩, domain, _, rfl, ⟨hdomain, hdomainc⟩,
      _, _, rfl, ⟨_, rfl, hdot⟩, _, _, rfl, ⟨c, rfl, hc⟩, top, _, rfl, ⟨htop, htopc⟩, rfl⟩
    obtain rfl := of_decide_eq_true hat
    obtain rfl := of_decide_eq_true hdot
    refine ⟨user, domain, c :: top, by simp, huser, huserc, hdomain, hdomainc,
      ?_, by simpa [hc] using htopc⟩
    have hpos := List.length_pos_iff.mpr htop
    rw [List.length_cons]
    omega
  · rintro ⟨user, domain, top, rfl, huser, huserc, hdomain, hdomainc, htop, htopc⟩
    cases top with
    | nil => simp at htop
    | cons c top =>
        have hne : top ≠ [] := by
          rintro rfl
          simp at htop
        exact ⟨user, _, rfl, ⟨huser, huserc⟩, ['@'], _, rfl, ⟨'@', rfl, by simp⟩, domain, _, rfl,
          ⟨hdomain, hdomainc⟩, ['.'], _, rfl, ⟨'.', rfl, by simp⟩, [c], _, rfl,
          ⟨c, rfl, htopc c (by simp)⟩,
          top, [], by simp, ⟨hne, fun d hd => htopc d (by simp [hd])⟩, rfl⟩

theorem solid_emailRe : emailRe.Solid := by
  intro behind rest h
  obtain ⟨user, domain, top, heq, -⟩ := takes_emailRe.mp h
  simp at heq

/-- An address has no bracket, so it does not reach the ends of a redaction. -/
theorem IsEmail.bracket_free {w : Str} (h : IsEmail w) : '[' ∉ w ∧ ']' ∉ w := by
  obtain ⟨user, domain, top, rfl, -, huser, -, hdomain, -, htop⟩ := h
  have hopen : isLocalChar '[' = false ∧ isDomainChar '[' = false ∧ '['.isAlpha = false := by decide
  have hclose : isLocalChar ']' = false ∧ isDomainChar ']' = false ∧ ']'.isAlpha = false := by decide
  have hfree : ∀ c, isLocalChar c = false ∧ isDomainChar c = false ∧ c.isAlpha = false → c ≠ '@' →
      c ≠ '.' → c ∉ user ++ '@' :: (domain ++ '.' :: top) := by
    rintro c ⟨hlocal, hdom, halpha⟩ hat hdot hmem
    simp only [List.mem_append, List.mem_cons] at hmem
    obtain hmem | rfl | hmem | rfl | hmem := hmem
    · simp [huser c hmem] at hlocal
    · exact hat rfl
    · simp [hdomain c hmem] at hdom
    · exact hdot rfl
    · simp [htop c hmem] at halpha
  exact ⟨hfree '[' hopen (by decide) (by decide), hfree ']' hclose (by decide) (by decide)⟩

theorem IsEmail.not_redacted {w : Str} (h : IsEmail w) : ¬w <:+: redacted := by
  obtain ⟨user, domain, top, rfl, -⟩ := h
  intro hinside
  have hmem : '@' ∈ redacted := hinside.subset (by simp)
  exact absurd hmem (by decide)

theorem head?_redacted : redacted.head? = some '[' := by decide

theorem getLast?_redacted : redacted.getLast? = some ']' := by decide

theorem redacted_ne_nil : redacted ≠ [] := by decide

/-- An address in the result of a redaction stood in the text, where the
pattern did not match it. -/
theorem email_of_sub {r : Pattern} (hr : r.Solid) {text w : Str} (hw : IsEmail w)
    (h : w <:+: r.subAs id redacted text) :
    ∃ behind after, w <:+: text ∧ r.run behind (w ++ after) = [] := by
  obtain ⟨pre, post, heq⟩ := h
  obtain ⟨hopen, hclose⟩ := hw.bracket_free
  obtain ⟨before, after, hsurvives⟩ := Pattern.survives_of_window id hr redacted_ne_nil (fun a ha => by
      rw [head?_redacted] at ha
      exact Option.some.inj ha ▸ hopen)
    (fun z hz => by
      rw [getLast?_redacted] at hz
      exact Option.some.inj hz ▸ hclose) hw.not_redacted heq.symm
  exact ⟨_, after, ⟨before, after, hsurvives.stood.symm⟩, by simpa using hsurvives.unmatched⟩

theorem not_email_emailRe {text w : Str} (hw : IsEmail w) : ¬w <:+: emailRe.subAs id redacted text := by
  intro h
  obtain ⟨behind, after, -, hrun⟩ := email_of_sub solid_emailRe hw h
  exact Pattern.run_eq_nil_iff.mp hrun w after rfl (takes_emailRe.mpr hw)

theorem mem_candidates {roster : Roster} {name : Str} :
    name ∈ candidates roster ↔ name ∈ rosterNames roster :=
  List.mem_insertionSort _

theorem ne_nil_of_mem_rosterNames {roster : Roster} {name : Str} (h : name ∈ rosterNames roster) :
    name ≠ [] := by
  obtain ⟨e, -, hname⟩ := List.mem_flatMap.mp h
  simpa using (List.mem_filter.mp hname).2

section

variable [PyText] [PyUnicode]

theorem not_email_foldl {names : List Str} (hnames : ∀ name ∈ names, PyText.nfc name ≠ []) {text w : Str}
    (hw : IsEmail w) (htext : ¬w <:+: text) :
    ¬w <:+: names.foldl (fun message name => (compileNamePattern name).subAs id redacted message)
      text := by
  induction names generalizing text with
  | nil => exact htext
  | cons name names ih =>
      apply ih (fun n hn => hnames n (by simp [hn]))
      intro h
      obtain ⟨-, -, hmem, -⟩ := email_of_sub (solid_compileNamePattern (hnames name (by simp))) hw h
      exact htext hmem

/-- One redaction leaves a stretch that touches no mark where it stood, between
its old neighbours. -/
theorem stood_of_not_touches {name : Str} (hname : PyText.nfc name ≠ [])
    {text pre w post : List (Char × Bool)} (hw : w ≠ []) (hfree : ¬Touches pre w post)
    (h : (compileNamePattern name).subAs Prod.fst (redacted.map fun c => (c, true)) text = pre ++
    w ++ post) :
    ∃ before after, text = before ++ w ++ after ∧ before.getLast? = pre.getLast? ∧
      after.head? = post.head? ∧
      (compileNamePattern name).run (before.map Prod.fst).getLast? ((w ++ after).map Prod.fst) = [] := by
  simp only [Touches, not_or, not_exists, not_and] at hfree
  obtain ⟨hmarks, hleft, hright⟩ := hfree
  have hplain : ∀ x ∈ redacted.map (fun c => (c, true)), x ∉ w := by
    intro x hx hmem
    obtain ⟨c, -, rfl⟩ := List.mem_map.mp hx
    exact hmarks _ hmem rfl
  obtain ⟨before, after, hsurvives⟩ := Pattern.survives_of_window Prod.fst
    (solid_compileNamePattern hname) (by simpa using redacted_ne_nil)
    (fun a ha => hplain a (List.mem_of_mem_head? ha)) (fun z hz => hplain z (List.mem_of_getLast? hz))
    (fun hinside => by
      obtain ⟨x, v, rfl⟩ := List.exists_cons_of_ne_nil hw
      exact hplain x (hinside.subset (by simp)) (by simp)) h
  refine ⟨before, after, hsurvives.stood, ?_, ?_, hsurvives.unmatched⟩
  · obtain hsame | ⟨hmark, behind, u, htakes⟩ := hsurvives.left
    · exact hsame
    · obtain ⟨x, v, rfl⟩ := List.exists_cons_of_ne_nil hw
      have hedge := (takes_compileNamePattern.mp htakes).2.2 x.1 (by simp)
      exact absurd hedge (hleft (']', true) (by rw [hmark]; rfl) rfl x rfl)
  · obtain hsame | ⟨hmark, u, rest, -, -, htakes⟩ := hsurvives.right
    · exact hsame
    · have hlast := List.getLast?_eq_some_getLast hw
      have hedge := (takes_compileNamePattern.mp htakes).1 (w.getLast hw).1 (by
        rw [List.getLast?_map, hlast]
        rfl)
      exact absurd hedge (hright ('[', true) (by rw [hmark]; rfl) rfl _ hlast)

theorem stood_of_foldl {names : List Str} (hnames : ∀ name ∈ names, PyText.nfc name ≠ [])
    {text pre w post : List (Char × Bool)} (hw : w ≠ []) (hfree : ¬Touches pre w post)
    (h : names.foldl (fun message name => (compileNamePattern name).subAs Prod.fst
      (redacted.map fun c => (c, true)) message) text = pre ++ w ++ post) :
    ∃ before after, text = before ++ w ++ after ∧ before.getLast? = pre.getLast? ∧
      after.head? = post.head? := by
  induction names generalizing text with
  | nil => exact ⟨pre, post, h, rfl, rfl⟩
  | cons name names ih =>
      obtain ⟨before, after, hstood, hbefore, hafter⟩ := ih (fun n hn => hnames n (by simp [hn])) h
      have hfree' : ¬Touches before w after := by
        rw [Touches, hbefore, hafter]
        exact hfree
      obtain ⟨before', after', hstood', hbefore', hafter', -⟩ :=
        stood_of_not_touches (hnames name (by simp)) hw hfree' hstood
      exact ⟨before', after', hstood', hbefore'.trans hbefore, hafter'.trans hafter⟩

/-- A whole token that spells a name is gone once the name had its turn, unless
it touches a mark. -/
theorem touches_of_spells {names : List Str} (hnames : ∀ name ∈ names, PyText.nfc name ≠ []) {name : Str}
    (hmem : name ∈ names) {text pre w post : List (Char × Bool)}
    (h : names.foldl (fun message name => (compileNamePattern name).subAs Prod.fst
      (redacted.map fun c => (c, true)) message) text = pre ++ w ++ post)
    (htoken : WholeToken (pre.map Prod.fst) (post.map Prod.fst))
    (hspells : Spells latin1Class (PyText.nfc name) (w.map Prod.fst)) : Touches pre w post := by
  by_contra hfree
  obtain ⟨front, back, rfl⟩ := List.append_of_mem hmem
  have hw : w ≠ [] := by
    rintro rfl
    exact hspells.ne_nil (hnames name hmem) rfl
  rw [List.foldl_append, List.foldl_cons] at h
  obtain ⟨before, after, hstood, hbefore, hafter⟩ :=
    stood_of_foldl (fun n hn => hnames n (by simp [hn])) hw hfree h
  have hfree' : ¬Touches before w after := by
    rw [Touches, hbefore, hafter]
    exact hfree
  obtain ⟨before', after', -, hbefore', hafter', hrun⟩ :=
    stood_of_not_touches (hnames name hmem) hw hfree' hstood
  apply Pattern.run_eq_nil_iff.mp hrun (w.map Prod.fst) (after'.map Prod.fst) (by simp)
  apply takes_compileNamePattern.mpr
  refine ⟨?_, hspells, ?_⟩
  · rw [List.getLast?_map, hbefore', hbefore, ← List.getLast?_map]
    exact htoken.1
  · rw [List.head?_map, hafter', hafter, ← List.head?_map]
    exact htoken.2

theorem scrubAs_map {σ τ : Type} (f : τ → σ) (view : σ → Char) (mark message : List τ)
    (roster : Option Roster) :
    (scrubAs (view ∘ f) mark message roster).map f = scrubAs view (mark.map f) (message.map f)
    roster := by
  have hfold : ∀ (names : List Str) (text : List τ),
      (names.foldl (fun message name => (compileNamePattern name).subAs (view ∘ f) mark message)
      text).map f =
        names.foldl (fun message name => (compileNamePattern name).subAs view (mark.map f) message)
          (text.map f) := by
    intro names
    induction names with
    | nil => exact fun _ => rfl
    | cons name names ih =>
        intro text
        rw [List.foldl_cons, ih, Pattern.subAs_map]
        rfl
  cases roster with
  | none => exact Pattern.subAs_map f view mark message
  | some roster =>
      simp only [scrubAs]
      rw [hfold, Pattern.subAs_map]

/-- No address is left, and a whole token that spells a full name or an alias
of the roster is left only where it touches a redaction. -/
theorem scrub_complete (hnfc : ∀ s, s ≠ [] → PyText.nfc s ≠ []) (message : Str) (roster : Option Roster) :
    (scrubMarked message roster).map Prod.fst = scrub message roster ∧
      (∀ w, IsEmail w → ¬w <:+: scrub message roster) ∧
      ∀ r, roster = some r → ∀ name ∈ rosterNames r, ∀ pre w post,
        scrubMarked message roster = pre ++ w ++ post → WholeToken (pre.map Prod.fst)
        (post.map Prod.fst) →
          Spells latin1Class (PyText.nfc name) (w.map Prod.fst) → Touches pre w post := by
  have hnames : ∀ r : Roster, ∀ name ∈ candidates r, PyText.nfc name ≠ [] :=
    fun r name hname => hnfc name (ne_nil_of_mem_rosterNames (mem_candidates.mp hname))
  refine ⟨?_, ?_, ?_⟩
  · have hmarked := scrubAs_map Prod.fst id (redacted.map fun c => (c, true))
      (message.map fun c => (c, false)) roster
    simpa [scrubMarked, scrub, Function.comp_def] using hmarked
  · intro w hw
    cases roster with
    | none => exact not_email_emailRe hw
    | some r => exact not_email_foldl (hnames r) hw (not_email_emailRe hw)
  · rintro r rfl name hname pre w post hsplit htoken hspells
    exact touches_of_spells (hnames r) (mem_candidates.mpr hname) hsplit htoken hspells

end

def anaRoster : Roster := ⟨[hourlyWorker 1 "Ana Ruiz".toList ["Ani".toList]], by decide⟩

theorem scrub_complete_ascii :
    (@scrubMarked asciiText asciiUnicode "Ani, ana@x.org: bad hours".toList (some anaRoster)).map
    Prod.fst =
        @scrub asciiText asciiUnicode "Ani, ana@x.org: bad hours".toList (some anaRoster) ∧
      (∀ w, IsEmail w → ¬w <:+:
        @scrub asciiText asciiUnicode "Ani, ana@x.org: bad hours".toList (some anaRoster)) ∧
      ∀ r, some anaRoster = some r → ∀ name ∈ rosterNames r, ∀ pre w post,
        @scrubMarked asciiText asciiUnicode "Ani, ana@x.org: bad hours".toList (some anaRoster) =
            pre ++ w ++ post →
          @WholeToken asciiUnicode (pre.map Prod.fst) (post.map Prod.fst) →
            @Spells asciiUnicode (@latin1Class asciiUnicode) name (w.map Prod.fst) →
              @Touches asciiUnicode pre w post :=
  @scrub_complete asciiText asciiUnicode (fun _ h => h)
    "Ani, ana@x.org: bad hours".toList (some anaRoster)

example : @scrub asciiText asciiUnicode "Ani, ana@x.org: bad hours".toList (some anaRoster) =
    "[REDACTED], [REDACTED]: bad hours".toList := by
  decide +kernel

section

variable [PyUnicode]

/-- Every letter that is an ASCII letter with one accent, in Latin-1 or not. -/
def letterClass (ch : Char) : Option AccentClass :=
  match PyUnicode.lower ch with
  | [lower] => accentClass lower
  | _ => none

/-- Some name of the roster stands in the text as a whole token. -/
def Leaks [PyText] (classes : Char → Option AccentClass) (roster : Roster) (text : Str) : Prop :=
  ∃ name ∈ rosterNames roster, ∃ pre w post, text = pre ++ w ++ post ∧ WholeToken pre post ∧
    Spells classes (PyText.nfc name) w

theorem spells_of_run {classes : Char → Option AccentClass} {name w : Str} {q : Option Char}
    (h : (q, []) ∈ (Pattern.seqs (name.map (fragment classes))).run none w) : Spells classes name w := by
  obtain ⟨u, hw, -, htakes⟩ := Pattern.mem_run.mp h
  rw [List.append_nil] at hw
  exact hw ▸ takes_fragments.mp htakes

end

def dvorakRoster : Roster := ⟨[hourlyWorker 1 "Eva Dvořák".toList []], by decide⟩

def juniorRoster : Roster :=
  ⟨[hourlyWorker 1 "Al Roe Jr.".toList [], hourlyWorker 2 "Tom".toList []], by decide⟩

/-- A name keeps its unaccented spelling where a letter is beyond Latin-1, and a
name that ends in a full stop comes free when its neighbour is cut. -/
theorem scrub_leaks :
    @Leaks latinUnicode asciiText (@letterClass latinUnicode) dvorakRoster
        (@scrub asciiText latinUnicode "no hours for Eva Dvorak".toList (some dvorakRoster)) ∧
      @Leaks latinUnicode asciiText (@latin1Class latinUnicode) juniorRoster
        (@scrub asciiText latinUnicode "no hours for Al Roe Jr.Tom".toList (some juniorRoster)) := by
  have hdvorak : @scrub asciiText latinUnicode "no hours for Eva Dvorak".toList (some dvorakRoster) =
      "no hours for Eva Dvorak".toList := by decide +kernel
  have hjunior : @scrub asciiText latinUnicode "no hours for Al Roe Jr.Tom".toList (some juniorRoster) =
      "no hours for Al Roe Jr.[REDACTED]".toList := by decide +kernel
  rw [hdvorak, hjunior]
  constructor
  · have hwhole : @WholeToken latinUnicode "no hours for ".toList [] := by
      constructor
      · rintro c ⟨⟩
        decide
      · rintro c ⟨⟩
    refine ⟨"Eva Dvořák".toList, by decide, "no hours for ".toList, "Eva Dvorak".toList,
      [], by decide, hwhole, ?_⟩
    exact @spells_of_run latinUnicode _ _ _ (some 'k') (by decide +kernel)
  · have hwhole : @WholeToken latinUnicode "no hours for ".toList "[REDACTED]".toList := by
      constructor
      · rintro c ⟨⟩
        decide
      · rintro c ⟨⟩
        decide
    refine ⟨"Al Roe Jr.".toList, by decide, "no hours for ".toList, "Al Roe Jr.".toList,
      "[REDACTED]".toList, by decide, hwhole, ?_⟩
    exact @spells_of_run latinUnicode _ _ _ (some '.') (by decide +kernel)

end PayrollAgent.Scrub
