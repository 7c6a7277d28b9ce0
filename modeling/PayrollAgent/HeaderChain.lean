import PayrollAgent.ReplyRouting
import PayrollAgent.Gateway
import PayrollAgent.Lib.Like

namespace PayrollAgent.HeaderChain

open Lib Text

def padReferences (referencesHeader : Option Str) : Str :=
  match referencesHeader with
  | none => [' ']
  | some [] => [' ']
  | some header => [' '] ++ join [' '] (split header) ++ [' ']

/-- `_HEADER_MATCH_PREDICATE` on the text of one stored id. -/
def headerMatchPredicate (inReplyTo referencesHeader : Option Str) (messageId : Str) : Option Bool :=
  sqlOr (sqlEq messageId inReplyTo)
    (some (like ("% ".toList ++ messageId ++ " %".toList) (padReferences referencesHeader)))

/-- A word without whitespace that whitespace or an end of the text bounds. -/
structure IsToken (id s : Str) : Prop where
  ne_nil : id ≠ []
  solid : ∀ c ∈ id, isSpace c = false
  bounded : ∃ before after, s = before ++ id ++ after ∧ (∀ c ∈ before.getLast?, isSpace c = true) ∧
    ∀ c ∈ after.head?, isSpace c = true

variable {id u s : Str} {c : Char}

theorem not_isToken_nil (id : Str) : ¬IsToken id [] := by
  rintro ⟨hne, -, before, after, heq, -, -⟩
  have hnil := congrArg List.length heq
  simp only [List.length_nil, List.length_append] at hnil
  apply hne
  apply List.eq_nil_of_length_eq_zero
  omega

theorem before_eq_nil {before rest : Str} (hu : ∀ d ∈ u, isSpace d = false) (heq : u = before ++ rest)
    (hbefore : ∀ d ∈ before.getLast?, isSpace d = true) : before = [] := by
  by_contra hne
  have hlast := hbefore (before.getLast hne) (List.getLast?_eq_some_getLast hne)
  have hsolid := hu (before.getLast hne) (by rw [heq]; simp)
  rw [hlast] at hsolid
  cases hsolid

theorem isToken_solid (hu : ∀ d ∈ u, isSpace d = false) (hne : u ≠ []) : IsToken id u ↔ id = u := by
  constructor
  · rintro ⟨hid, -, before, after, heq, hbefore, hafter⟩
    rw [List.append_assoc] at heq
    obtain rfl := before_eq_nil hu heq hbefore
    cases after with
    | nil => simpa using heq.symm
    | cons d after =>
        have hspace := hafter d rfl
        rw [hu d (by rw [heq]; simp)] at hspace
        cases hspace
  · rintro rfl
    exact ⟨hne, hu, [], [], by simp, by simp, by simp⟩

theorem isToken_append_space (hu : ∀ d ∈ u, isSpace d = false) (hc : isSpace c = true) :
    IsToken id (u ++ c :: s) ↔ id = u ∧ u ≠ [] ∨ IsToken id s := by
  constructor
  · rintro ⟨hid, hsolid, before, after, heq, hbefore, hafter⟩
    rw [List.append_assoc] at heq
    obtain ⟨a, rfl, htail⟩ | ⟨a, rfl, htail⟩ := List.append_eq_append_iff.mp heq
    · cases a with
      | nil =>
          cases id with
          | nil => exact absurd rfl hid
          | cons d id =>
              obtain ⟨rfl, -⟩ := List.cons.inj htail
              rw [hsolid c (by simp)] at hc
              cases hc
      | cons d a =>
          obtain ⟨rfl, rfl⟩ := List.cons.inj htail
          right
          refine ⟨hid, hsolid, a, after, by simp, ?_, hafter⟩
          intro e he
          apply hbefore
          cases a with
          | nil => cases he
          | cons f a => simpa [List.getLast?_append] using he
    · obtain rfl := before_eq_nil hu rfl hbefore
      left
      obtain ⟨b, hb, hrest⟩ | ⟨b, hb, hrest⟩ := List.append_eq_append_iff.mp htail
      · cases b with
        | nil => exact ⟨by simpa using hb.symm, by simpa [hb] using hid⟩
        | cons d b =>
            have hspace := hafter d (by rw [hrest]; rfl)
            rw [hu d (by rw [hb]; simp)] at hspace
            cases hspace
      · cases b with
        | nil => exact ⟨by simpa using hb, by simpa [hb] using hid⟩
        | cons d b =>
            obtain ⟨rfl, -⟩ := List.cons.inj hrest
            rw [hsolid c (by rw [hb]; simp)] at hc
            cases hc
  · rintro (⟨rfl, hne⟩ | ⟨hid, hsolid, before, after, rfl, hbefore, hafter⟩)
    · exact ⟨hne, hu, [], c :: s, by simp, by simp, by simpa using hc⟩
    · refine ⟨hid, hsolid, u ++ c :: before, after, by simp, ?_, hafter⟩
      intro d hd
      cases before with
      | nil =>
          obtain rfl : c = d := by simpa using hd
          exact hc
      | cons e before => exact hbefore d (by simpa [List.getLast?_append] using hd)

theorem mem_splitWords_iff {word : Str} (hword : ∀ d ∈ word, isSpace d = false) :
    id ∈ splitWords s word ↔ IsToken id (word.reverse ++ s) := by
  induction s generalizing word with
  | nil =>
      cases word with
      | nil => simp [splitWords, not_isToken_nil]
      | cons d word =>
          have hsolid : ∀ e ∈ (d :: word).reverse, isSpace e = false :=
            fun e he => hword e (List.mem_reverse.mp he)
          rw [List.append_nil, isToken_solid hsolid (by simp)]
          simp [splitWords]
  | cons c s ih =>
      have hreverse : ∀ e ∈ word.reverse, isSpace e = false :=
        fun e he => hword e (List.mem_reverse.mp he)
      by_cases hc : isSpace c = true
      · rw [isToken_append_space hreverse hc]
        have hrest : id ∈ splitWords s [] ↔ IsToken id s := ih (by simp)
        cases word with
        | nil => simpa [splitWords, hc] using hrest
        | cons d word => simpa [splitWords, hc] using or_congr_right hrest
      · have hsolid : ∀ e ∈ c :: word, isSpace e = false := by simpa [hc] using hword
        have hrest := ih hsolid
        simpa [splitWords, hc] using hrest

/-- The words of `str.split()` are the tokens. -/
theorem mem_split_iff : id ∈ split s ↔ IsToken id s :=
  mem_splitWords_iff (by simp)

def spaced (words : List Str) : Str := words.flatMap fun w => w ++ [' ']

theorem join_append_space (w : Str) (words : List Str) :
    join [' '] (w :: words) ++ [' '] = spaced (w :: words) := by
  induction words generalizing w with
  | nil => simp [join, spaced]
  | cons v words ih =>
      have hrest := ih v
      simp only [join, spaced, List.intersperse, List.flatten_cons, List.flatMap_cons,
        List.append_assoc] at hrest ⊢
      rw [hrest]

theorem eq_of_append_space {w rest tail : Str} (hw : ' ' ∉ w) (hid : ' ' ∉ id)
    (h : id ++ ' ' :: rest = w ++ ' ' :: tail) : id = w := by
  have htake := congrArg (List.takeWhile (· ≠ ' ')) h
  have hfree : ∀ v : Str, ' ' ∉ v → ∀ d ∈ v, decide (d ≠ ' ') = true := by
    intro v hv d hd
    rw [decide_eq_true_eq]
    rintro rfl
    exact hv hd
  rw [List.takeWhile_append_of_pos (hfree id hid), List.takeWhile_append_of_pos (hfree w hw)] at htake
  simpa using htake

theorem infix_spaced_iff {words : List Str} (hwords : ∀ w ∈ words, ' ' ∉ w) (hid : ' ' ∉ id) :
    (' ' :: id ++ [' ']) <:+: ' ' :: spaced words ↔ id ∈ words := by
  induction words with
  | nil =>
      constructor
      · intro h
        have hlen := h.length_le
        simp only [spaced, List.flatMap_nil, List.length_append, List.length_cons,
          List.length_nil] at hlen
        omega
      · intro h
        cases h
  | cons w words ih =>
      have hw := hwords w (by simp)
      have hrest := ih fun v hv => hwords v (by simp [hv])
      have hcons : spaced (w :: words) = w ++ ' ' :: spaced words := by simp [spaced]
      rw [List.mem_cons, ← hrest, hcons]
      constructor
      · rintro ⟨before, after, heq⟩
        cases before with
        | nil =>
            left
            have hfirst : id ++ ' ' :: after = w ++ ' ' :: spaced words := by simpa using heq
            exact eq_of_append_space hw hid hfirst
        | cons d before =>
            right
            obtain ⟨-, htail⟩ := List.cons.inj heq
            have hsplit : before ++ (' ' :: id ++ [' '] ++ after) = w ++ ' ' :: spaced words := by
              simpa using htail
            obtain ⟨a, rfl, hspaces⟩ | ⟨a, -, hspaces⟩ := List.append_eq_append_iff.mp hsplit
            · cases a with
              | nil => exact ⟨[], after, by simpa using hspaces⟩
              | cons e a =>
                  obtain ⟨rfl, -⟩ := List.cons.inj hspaces
                  exact absurd (by simp) hw
            · exact ⟨a, after, by rw [List.append_assoc, ← hspaces]⟩
      · rintro (rfl | ⟨before, after, heq⟩)
        · exact ⟨[], spaced words, by simp⟩
        · refine ⟨' ' :: w ++ before, after, ?_⟩
          rw [← heq]
          simp

theorem infix_padReferences_iff {header : Str} (hid : IsToken id id) :
    (' ' :: id ++ [' ']) <:+: padReferences (some header) ↔ id ∈ split header := by
  have hspace : ' ' ∉ id := fun hmem => absurd (hid.solid ' ' hmem) (by decide)
  have hwords : ∀ w ∈ split header, ' ' ∉ w := by
    intro w hw hmem
    exact absurd ((mem_split_iff.mp hw).solid ' ' hmem) (by decide)
  have hshort : ∀ blank : Str, blank.length ≤ 2 → ¬(' ' :: id ++ [' ']) <:+: blank := by
    intro blank hblank h
    have hlen := h.length_le
    have hpos := List.length_pos_iff.mpr hid.ne_nil
    simp only [List.length_append, List.length_cons, List.length_nil] at hlen
    omega
  cases hsplit : split header with
  | nil =>
      simp only [List.not_mem_nil, iff_false]
      cases header with
      | nil => exact hshort _ (by simp [padReferences])
      | cons c header => exact hshort _ (by simp [padReferences, hsplit, join])
  | cons w words =>
      cases header with
      | nil => cases hsplit
      | cons c header =>
          rw [← infix_spaced_iff (hsplit ▸ hwords) hspace, padReferences, hsplit, List.append_assoc,
            join_append_space]
          · rfl
          · rintro ⟨⟩

theorem headerMatchPredicate_iff {inReplyTo referencesHeader : Option Str} {messageId : Str}
    (hself : IsToken messageId messageId) (hplain : ∀ c ∈ messageId, Plain c) :
    headerMatchPredicate inReplyTo referencesHeader messageId = some true ↔
      inReplyTo = some messageId ∨ messageId ∈ split (referencesHeader.getD []) := by
  have hpattern :
    "% ".toList ++ messageId ++ " %".toList = '%' :: (' ' :: messageId ++ [' ']) ++ ['%'] := by
    simp
  have hchars : ∀ c ∈ ' ' :: messageId ++ [' '], Plain c := by
    intro c hc
    simp only [List.cons_append, List.mem_cons, List.mem_append, List.not_mem_nil, or_false] at hc
    obtain rfl | hc | rfl := hc
    · decide
    · exact hplain c hc
    · decide
  rw [headerMatchPredicate, sqlOr_eq_true, sqlEq_eq_true, Option.some.injEq, hpattern, like_infix hchars]
  apply or_congr_right
  cases referencesHeader with
  | none => exact @infix_padReferences_iff messageId [] hself
  | some header => exact infix_padReferences_iff hself

theorem headerMatches_mailOf [Gateway.MailText] {email : Gateway.InboundEmail} {m : Outbound}
    {messageId : Str} (hstored : m.snapshot.messageId = Gateway.token messageId)
    (hself : IsToken messageId messageId) (hplain : ∀ c ∈ messageId, Plain c) :
    Repo.headerMatches (Gateway.mailOf email) m = true ↔
      headerMatchPredicate email.inReplyTo email.referencesHeader messageId = some true := by
  rw [headerMatchPredicate_iff hself hplain, ReplyRouting.headerMatches_iff, hstored]
  apply or_congr
  · have hne := hself.ne_nil
    cases hreply : email.inReplyTo with
    | none => simp [Gateway.mailOf, hreply]
    | some parent =>
        by_cases hparent : parent = messageId
        · subst hparent
          simp [Gateway.mailOf, hreply, hne]
        · have htoken : Gateway.token parent ≠ Gateway.token messageId :=
            fun h => hparent (Gateway.token_injective h)
          simp [Gateway.mailOf, hreply, hparent, Option.filter, htoken]
  · exact List.mem_map_of_injective Gateway.token_injective

/-- The predicate keeps a row exactly where its id is the parent or a whole
token of the chain. -/
theorem header_match_iff (inReplyTo referencesHeader : Option Str) (messageId : Str)
    (hne : messageId ≠ [])
    (hspace : ∀ c ∈ messageId, isSpace c = false) (hplain : ∀ c ∈ messageId, Plain c) :
    headerMatchPredicate inReplyTo referencesHeader messageId = some true ↔
      inReplyTo = some messageId ∨ ∃ header, referencesHeader = some header ∧
      IsToken messageId header := by
  rw [headerMatchPredicate_iff ((isToken_solid hspace hne).mpr rfl) hplain, mem_split_iff]
  apply or_congr_right
  cases referencesHeader with
  | none => simpa using not_isToken_nil messageId
  | some header => simp

theorem header_match_folded :
    headerMatchPredicate none (some "<b@x.example>\r\n\t<a@x.example>".toList) "<a@x.example>".toList =
      some true ↔
      none = some "<a@x.example>".toList ∨
        ∃ header, some "<b@x.example>\r\n\t<a@x.example>".toList = some header ∧
          IsToken "<a@x.example>".toList header :=
  header_match_iff none (some "<b@x.example>\r\n\t<a@x.example>".toList) "<a@x.example>".toList
    (by decide) (by simp [isSpace]) (by simp [Plain])

end PayrollAgent.HeaderChain
