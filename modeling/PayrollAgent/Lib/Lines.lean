import PayrollAgent.Lib.Substitution

namespace PayrollAgent.Lib.Pattern

/-- The two anchors of `re.MULTILINE`. -/
def lineStart : Pattern := .look fun behind _ => behind.all (· = '\n')

def lineEnd : Pattern := .look fun _ ahead => ahead.head?.all (· = '\n')

def optional (r : Pattern) : Pattern := .alt r empty

/-- At most `n`, longest first. -/
def upTo (p : Char → Bool) : Nat → Pattern
  | 0 => empty
  | n + 1 => optional (.seq (.char p) (upTo p n))

/-- The text before the first match of `re.search`. -/
def before (r : Pattern) : Option Char → List Char → Option (List Char)
  | behind, [] => if (r.run behind []).isEmpty then none else some []
  | behind, c :: t =>
      if (r.run behind (c :: t)).isEmpty then (before r (some c) t).map (List.cons c) else some []

def Free : Pattern → Prop
  | .char _ => True
  | .many _ => True
  | .seq first second => first.Free ∧ second.Free
  | .alt left right => left.Free ∧ right.Free
  | .look ok => ∀ behind ahead, ok behind ahead = true

def Follows (rest : List Char) : Prop := rest = [] ∨ ∃ t, rest = '\n' :: t

def Starts (behind : Option Char) : Prop := behind = none ∨ behind = some '\n'

/-- A pattern that matches only where a line starts, at the lines of a kind. -/
structure LineWise (r : Pattern) (sel : List Char → Bool) : Prop where
  inside : ∀ c s, c ≠ '\n' → r.run (some c) s = []
  blank : sel [] = false
  skips : ∀ behind l rest, Starts behind → '\n' ∉ l → Follows rest → sel l = false →
    r.run behind (l ++ rest) = []
  hits : ∀ behind l rest, Starts behind → '\n' ∉ l → Follows rest → sel l = true →
    r.run behind (l ++ rest) ≠ []

def Clears (r : Pattern) (sel : List Char → Bool) : Prop :=
  ∀ behind l rest, Starts behind → '\n' ∉ l → Follows rest → sel l = true →
    ∃ q stops, r.run behind (l ++ rest) = (q, rest.tail) :: stops

/-- The lines that a substitution leaves. After a last line that goes, the
newline before it stays. -/
def keptLines (sel : List Char → Bool) : List (List Char) → List (List Char)
  | [] => []
  | [l] => if sel l then [[]] else [l]
  | l :: m :: rest => if sel l then keptLines sel (m :: rest) else l :: keptLines sel (m :: rest)

variable {r core : Pattern} {sel : List Char → Bool} {behind behind' : Option Char}
    {l w t rest rest' : List Char} {lines : List (List Char)}

theorem Free.takes (h : r.Free) (hw : r.Takes behind w rest) : r.Takes behind' w rest' := by
  induction r generalizing behind behind' w rest rest' with
  | char p => exact hw
  | many p => exact hw
  | seq first second ihfirst ihsecond =>
      obtain ⟨u, v, rfl, hu, hv⟩ := hw
      exact ⟨u, v, rfl, ihfirst h.1 hu, ihsecond h.2 hv⟩
  | alt left right ihleft ihright =>
      obtain hw | hw := hw
      · exact .inl (ihleft h.1 hw)
      · exact .inr (ihright h.2 hw)
  | look ok => exact ⟨hw.1, h _ _⟩

theorem run_ne_nil_iff (hfree : r.Free) {s : List Char} :
    r.run behind s ≠ [] ↔ ∃ w t, s = w ++ t ∧ r.Takes none w [] := by
  rw [ne_eq, run_eq_nil_iff]
  push Not
  constructor
  · rintro ⟨w, t, hsplit, hw⟩
    exact ⟨w, t, hsplit, hfree.takes hw⟩
  · rintro ⟨w, t, hsplit, hw⟩
    exact ⟨w, t, hsplit, hfree.takes hw⟩

theorem free_lit (same : Char → Char → Bool) (w : List Char) : (lit same w).Free := by
  induction w with
  | nil => exact fun _ _ => rfl
  | cons c w ih => exact ⟨trivial, ih⟩

theorem within_lit {p : Char → Bool} {same : Char → Char → Bool} {w : List Char}
    (h : ∀ c ∈ w, ∀ d, same c d = true → p d = true) : (lit same w).Within p := by
  induction w with
  | nil => trivial
  | cons c w ih => exact ⟨h c List.mem_cons_self, ih fun d hd => h d (List.mem_cons_of_mem c hd)⟩

theorem free_upTo (p : Char → Bool) (n : Nat) : (upTo p n).Free := by
  induction n with
  | zero => exact fun _ _ => rfl
  | succ n ih => exact ⟨⟨trivial, ih⟩, fun _ _ => rfl⟩

theorem within_upTo {p q : Char → Bool} (h : ∀ c, q c = true → p c = true) (n : Nat) :
    (upTo q n).Within p := by
  induction n with
  | zero => trivial
  | succ n ih => exact ⟨⟨h, ih⟩, trivial⟩

def least : Pattern → Nat
  | .char _ => 1
  | .many _ => 0
  | .seq first second => first.least + second.least
  | .alt left right => min left.least right.least
  | .look _ => 0

theorem least_le (hw : r.Takes behind w rest) : r.least ≤ w.length := by
  induction r generalizing behind w rest with
  | char p =>
      obtain ⟨c, rfl, -⟩ := hw
      exact le_rfl
  | many p => exact Nat.zero_le _
  | seq first second ihfirst ihsecond =>
      obtain ⟨u, v, rfl, hu, hv⟩ := hw
      rw [List.length_append]
      exact Nat.add_le_add (ihfirst hu) (ihsecond hv)
  | alt left right ihleft ihright =>
      obtain hw | hw := hw
      · exact (Nat.min_le_left _ _).trans (ihleft hw)
      · exact (Nat.min_le_right _ _).trans (ihright hw)
  | look ok => exact Nat.zero_le _

theorem not_takes_nil (h : 0 < r.least) : ¬r.Takes behind [] rest :=
  fun hw => absurd (least_le hw) (Nat.not_le.mpr h)

theorem least_lit (same : Char → Char → Bool) (w : List Char) : (lit same w).least = w.length := by
  induction w with
  | nil => rfl
  | cons c w ih =>
      rw [lit, least, least, ih, List.length_cons]
      exact Nat.add_comm 1 _

theorem notMem_of_mem_splitOn {α : Type} [DecidableEq α] {a : α} {s l : List α}
    (h : l ∈ s.splitOn a) : a ∉ l := by
  induction s generalizing l with
  | nil =>
      rw [List.splitOn_nil, List.mem_singleton] at h
      rw [h]
      exact List.not_mem_nil
  | cons c s ih =>
      rw [List.splitOn_cons_eq_if_modifyHead] at h
      split at h
      · obtain rfl | h := List.mem_cons.mp h
        · exact List.not_mem_nil
        · exact ih h
      next hc =>
        obtain ⟨m, rest, hm⟩ := List.exists_cons_of_ne_nil (List.splitOn_ne_nil a s)
        rw [hm, List.modifyHead_cons] at h
        obtain rfl | h := List.mem_cons.mp h
        · rw [List.mem_cons, not_or]
          exact ⟨fun hac => hc (by simp [hac]), ih (by rw [hm]; exact List.mem_cons_self)⟩
        · exact ih (by rw [hm]; exact List.mem_cons_of_mem m h)

theorem within_line (h : l ++ rest = w ++ t) (hw : '\n' ∉ w) (hrest : Follows rest) :
    ∃ l', l = w ++ l' ∧ t = l' ++ rest := by
  obtain ⟨a, rfl, ht⟩ | ⟨a, rfl, ha⟩ := List.append_eq_append_iff.mp h
  · cases a with
    | nil => exact ⟨[], by simp, by simpa using ht.symm⟩
    | cons c a =>
        obtain rfl | ⟨u, rfl⟩ := hrest
        · cases ht
        · obtain ⟨rfl, -⟩ := List.cons.inj ht
          exact absurd (by simp) hw
  · exact ⟨a, rfl, ha⟩

theorem newline_notMem (h : r.Within (· ≠ '\n')) (hw : r.Takes behind w rest) : '\n' ∉ w := by
  intro hmem
  have hne := h.takes hw '\n' hmem
  simp at hne

theorem Follows.lineEnd (h : Follows rest) : (rest.head?.all (· = '\n')) = true := by
  obtain rfl | ⟨t, rfl⟩ := h
  · rfl
  · simp

theorem Starts.lineStart (h : Starts behind) : (behind.all (· = '\n')) = true := by
  obtain rfl | rfl := h
  · rfl
  · simp

theorem run_lineStart_inside {c : Char} (hc : c ≠ '\n') (s : List Char) :
    (Pattern.seq lineStart r).run (some c) s = [] := by
  simp [run, lineStart, hc]

theorem run_lineStart (h : Starts behind) (s : List Char) :
    (Pattern.seq lineStart r).run behind s = r.run behind s := by
  have hstart := h.lineStart
  simp [run, lineStart, hstart]

theorem lineWise_whole (hfree : core.Free) (hwithin : core.Within (· ≠ '\n'))
    (hne : ¬core.Takes none [] []) :
    LineWise (.seq lineStart (.seq core lineEnd)) (isMatch (.seq lineStart (.seq core lineEnd))) := by
  have hstops : ∀ {behind l rest}, Starts behind → '\n' ∉ l → Follows rest →
      ((Pattern.seq lineStart (.seq core lineEnd)).run behind (l ++ rest) ≠ [] ↔
      core.Takes none l []) := by
    intro behind l rest hstart hl hrest
    rw [run_lineStart hstart, ne_eq, run_eq_nil_iff]
    constructor
    · intro h
      push Not at h
      obtain ⟨_, t, hsplit, u, v, rfl, hu, rfl, hend⟩ := h
      rw [List.append_nil] at hsplit
      obtain ⟨l', rfl, rfl⟩ := within_line hsplit (newline_notMem hwithin hu) hrest
      cases l' with
      | nil =>
          rw [List.append_nil]
          exact hfree.takes hu
      | cons c l' =>
          obtain rfl : c = '\n' := by simpa [lineEnd] using hend
          exact absurd (by simp) hl
    · intro h hnone
      refine hnone l rest rfl ⟨l, [], (List.append_nil l).symm, hfree.takes h, rfl, ?_⟩
      exact hrest.lineEnd
  have hmatch : ∀ {l}, '\n' ∉ l →
      ((Pattern.seq lineStart (.seq core lineEnd)).isMatch l = true ↔ core.Takes none l []) := by
    intro l hl
    have hself := @hstops none l [] (.inl rfl) hl (.inl rfl)
    rw [List.append_nil] at hself
    rw [← hself, isMatch]
    simp
  constructor
  · exact fun c s hc => run_lineStart_inside hc s
  · have hblank := (@hmatch [] List.not_mem_nil).not.mpr hne
    simpa using hblank
  · intro behind l rest hstart hl hrest hsel
    by_contra hrun
    rw [(hmatch hl).mpr ((hstops hstart hl hrest).mp hrun)] at hsel
    cases hsel
  · exact fun behind l rest hstart hl hrest hsel => (hstops hstart hl hrest).mpr ((hmatch hl).mp hsel)

/-- `label` and the rest of its line, with the newline. -/
def clearing (label : Pattern) : Pattern :=
  .seq lineStart (.seq label (.seq (.many (· ≠ '\n'))
    (.alt (.seq (optional (.char (· = '\r'))) (.char (· = '\n'))) lineEnd)))

theorem greedy_line (hl : '\n' ∉ l) (hrest : Follows rest) :
    ∃ q stops, greedy (· ≠ '\n') behind (l ++ rest) = (q, rest) :: stops := by
  induction l generalizing behind with
  | nil =>
      obtain rfl | ⟨t, rfl⟩ := hrest
      · exact ⟨behind, [], rfl⟩
      · exact ⟨behind, [], rfl⟩
  | cons c l ih =>
      rw [List.mem_cons, not_or] at hl
      obtain ⟨q, stops, hgreedy⟩ := @ih (some c) hl.2
      refine ⟨q, stops ++ [(behind, c :: (l ++ rest))], ?_⟩
      rw [List.cons_append, greedy, if_pos (by simpa using Ne.symm hl.1), hgreedy, List.cons_append]

theorem run_break (hrest : Follows rest) :
    ∃ q stops, (Pattern.alt (.seq (optional (.char (· = '\r'))) (.char (· = '\n'))) lineEnd).run
    behind rest = (q, rest.tail) :: stops := by
  obtain rfl | ⟨t, rfl⟩ := hrest
  · exact ⟨behind, [], rfl⟩
  · exact ⟨some '\n', [(behind, '\n' :: t)], by simp [run, optional, empty, one, lineEnd]⟩

theorem run_restOfLine (hl : '\n' ∉ l) (hrest : Follows rest) : ∃ q stops,
    (Pattern.seq (.many (· ≠ '\n')) (.alt (.seq (optional (.char (· = '\r'))) (.char (· = '\n')))
    lineEnd)).run behind (l ++ rest) = (q, rest.tail) :: stops := by
  obtain ⟨q, stops, hgreedy⟩ := @greedy_line behind l rest hl hrest
  obtain ⟨q', stops', hbreak⟩ := @run_break q rest hrest
  rw [run, run, hgreedy, List.flatMap_cons, hbreak, List.cons_append]
  exact ⟨_, _, rfl⟩

section

variable {label : Pattern}

theorem run_clearing (hfree : label.Free) (hwithin : label.Within (· ≠ '\n'))
    (hstart : Starts behind) (hl : '\n' ∉ l) (hrest : Follows rest) :
    ((clearing label).run behind (l ++ rest) = [] ∧ ¬∃ u l', l = u ++ l' ∧ label.Takes none u []) ∨
      (∃ q stops, (clearing label).run behind (l ++ rest) = (q, rest.tail) :: stops) ∧
        ∃ u l', l = u ++ l' ∧ label.Takes none u [] := by
  rw [clearing, run_lineStart hstart]
  cases hrun : label.run behind (l ++ rest) with
  | nil =>
      left
      rw [run, hrun]
      refine ⟨rfl, ?_⟩
      rintro ⟨u, l', rfl, hu⟩
      exact run_eq_nil_iff.mp hrun u (l' ++ rest) (List.append_assoc ..) (hfree.takes hu)
  | cons stop stops =>
      right
      have hmem : (stop.1, stop.2) ∈ label.run behind (l ++ rest) := by
        rw [hrun]
        exact List.mem_cons_self
      obtain ⟨u, hsplit, -, hu⟩ := mem_run.mp hmem
      obtain ⟨l', rfl, ht⟩ := within_line hsplit (newline_notMem hwithin hu) hrest
      refine ⟨?_, u, l', rfl, hfree.takes hu⟩
      obtain ⟨q, after, htail⟩ := @run_restOfLine stop.1 l' rest
        (fun hmem => hl (List.mem_append_right u hmem)) hrest
      rw [run, hrun, List.flatMap_cons, ht, htail, List.cons_append]
      exact ⟨_, _, rfl⟩

theorem lineWise_clearing (hfree : label.Free) (hwithin : label.Within (· ≠ '\n'))
    (hne : ¬label.Takes none [] []) : LineWise (clearing label) (clearing label).isMatch := by
  have hmatch : ∀ {l}, '\n' ∉ l → ((clearing label).isMatch l = true ↔ ∃ u l', l = u ++ l' ∧
    label.Takes none u []) := by
    intro l hl
    have hself := @run_clearing none l [] label hfree hwithin (.inl rfl) hl (.inl rfl)
    rw [List.append_nil] at hself
    obtain ⟨hrun, hno⟩ | ⟨⟨q, stops, hrun⟩, hyes⟩ := hself
    · simp only [isMatch, hrun, List.isEmpty_nil, Bool.not_true, Bool.false_eq_true, hno]
    · simp only [isMatch, hrun, List.isEmpty_cons, Bool.not_false, true_iff]
      exact hyes
  constructor
  · exact fun c s hc => run_lineStart_inside hc s
  · have hblank : ¬(clearing label).isMatch [] = true := by
      rw [hmatch List.not_mem_nil]
      rintro ⟨u, l', hnil, hu⟩
      obtain ⟨rfl, -⟩ := List.append_eq_nil_iff.mp hnil.symm
      exact hne hu
    simpa using hblank
  · intro behind l rest hstart hl hrest hsel
    obtain ⟨hrun, -⟩ | ⟨-, hyes⟩ := run_clearing hfree hwithin hstart hl hrest
    · exact hrun
    · rw [(hmatch hl).mpr hyes] at hsel
      cases hsel
  · intro behind l rest hstart hl hrest hsel
    obtain ⟨-, hno⟩ | ⟨⟨q, stops, hrun⟩, -⟩ := run_clearing hfree hwithin hstart hl hrest
    · exact absurd ((hmatch hl).mp hsel) hno
    · rw [hrun]
      exact List.cons_ne_nil _ _

theorem clears_clearing (hfree : label.Free) (hwithin : label.Within (· ≠ '\n'))
    (hne : ¬label.Takes none [] []) : Clears (clearing label) (clearing label).isMatch := by
  intro behind l rest hstart hl hrest hsel
  obtain ⟨hrun, -⟩ | ⟨hstop, -⟩ := run_clearing hfree hwithin hstart hl hrest
  · exact absurd hrun ((lineWise_clearing hfree hwithin hne).hits behind l rest hstart hl hrest hsel)
  · exact hstop

end

theorem segments_kept {c : Char} (h : r.run behind (c :: t) = []) :
    segments r id 0 behind (c :: t) = .kept c :: segments r id 0 (some c) t :=
  segments_of_nil (by rwa [List.map_id])

theorem segments_skip (w t : List Char) :
    segments r id w.length behind (w ++ t) = segments r id 0 (w.getLast?.or behind) t := by
  induction w generalizing behind with
  | nil => rfl
  | cons c w ih =>
      rw [List.cons_append, List.length_cons]
      change segments r id w.length (some c) (w ++ t) = _
      rw [ih, List.getLast?_cons]
      cases w.getLast? <;> rfl

theorem segments_cut {c : Char} {w : List Char} {q : Option Char} {stops : List (Option Char × List Char)}
    (h : r.run behind (c :: w ++ t) = (q, t) :: stops) :
    segments r id 0 behind (c :: w ++ t) = .cut (c :: w) :: segments r id 0
      (w.getLast?.or (some c)) t := by
  have hrun : r.run behind ((c :: (w ++ t)).map id) = (q, t) :: stops := by rwa [List.map_id]
  have htaken : (w ++ t).length + 1 - t.length = w.length + 1 := by
    rw [List.length_append]
    omega
  rw [List.cons_append, segments_of_cons hrun htaken, if_neg (Nat.succ_ne_zero _), Nat.add_sub_cancel]
  change _ :: segments r id w.length (some c) (w ++ t) = _
  rw [segments_skip, List.take_succ_cons, List.take_left]

namespace LineWise

theorem segments_inside {c : Char} (h : LineWise r sel) (hc : c ≠ '\n') (hl : '\n' ∉ l) :
    segments r id 0 (some c) l = l.map .kept := by
  induction l generalizing c with
  | nil =>
      have hrun := h.inside c [] hc
      simp [segments, hrun]
  | cons d l ih =>
      rw [List.mem_cons, not_or] at hl
      rw [segments_kept (h.inside c _ hc), List.map_cons, ih (Ne.symm hl.1) hl.2]

theorem segments_to {c : Char} (h : LineWise r sel) (hc : c ≠ '\n') (hl : '\n' ∉ l) (t : List Char) :
    segments r id 0 (some c) (l ++ '\n' :: t) = (l ++ ['\n']).map .kept ++ segments r id 0
    (some '\n') t := by
  induction l generalizing c with
  | nil =>
      rw [List.nil_append, segments_kept (h.inside c _ hc)]
      rfl
  | cons d l ih =>
      rw [List.mem_cons, not_or] at hl
      rw [List.cons_append, segments_kept (h.inside c _ hc), ih (Ne.symm hl.1) hl.2]
      rfl

theorem ne_nil (h : LineWise r sel) (hsel : sel l = true) : l ≠ [] := by
  rintro rfl
  rw [h.blank] at hsel
  cases hsel

theorem render_kept (h : LineWise r sel) (hstart : Starts behind) (hl : '\n' ∉ l) (hsel : sel l = false)
    (t : List Char) : Segment.render [] (segments r id 0 behind (l ++ '\n' :: t)) =
      l ++ '\n' :: Segment.render [] (segments r id 0 (some '\n') t) := by
  have hrun := h.skips behind l ('\n' :: t) hstart hl (.inr ⟨t, rfl⟩) hsel
  cases l with
  | nil => rw [List.nil_append, segments_kept hrun, Segment.render_kept, List.nil_append]
  | cons c l =>
      rw [List.mem_cons, not_or] at hl
      rw [List.cons_append] at hrun ⊢
      rw [segments_kept hrun, h.segments_to (Ne.symm hl.1) hl.2, Segment.render_kept,
        Segment.render_append, Segment.render_kepts, List.append_assoc, List.cons_append]
      rfl

theorem render_last (h : LineWise r sel) (hstart : Starts behind) (hl : '\n' ∉ l) (hsel : sel l = false) :
    Segment.render [] (segments r id 0 behind l) = l := by
  have hrun := h.skips behind l [] hstart hl (.inl rfl) hsel
  rw [List.append_nil] at hrun
  cases l with
  | nil => simp [segments, hrun]
  | cons c l =>
      rw [List.mem_cons, not_or] at hl
      rw [segments_kept hrun, h.segments_inside (Ne.symm hl.1) hl.2, Segment.render_kept,
        Segment.render_kepts]

theorem render_cut (h : LineWise r sel) (hclears : Clears r sel) (hstart : Starts behind) (hl : '\n' ∉ l)
    (hsel : sel l = true) (t : List Char) : Segment.render [] (segments r id 0 behind (l ++ '\n' :: t)) =
      Segment.render [] (segments r id 0 (some '\n') t) := by
  obtain ⟨q, stops, hrun⟩ := hclears behind l ('\n' :: t) hstart hl (.inr ⟨t, rfl⟩) hsel
  obtain ⟨c, l, rfl⟩ := List.exists_cons_of_ne_nil (h.ne_nil hsel)
  have hsplit : c :: l ++ '\n' :: t = c :: (l ++ ['\n']) ++ t := by simp
  rw [hsplit] at hrun ⊢
  rw [segments_cut hrun, Segment.render_cut, List.getLast?_concat]
  rfl

theorem render_cut_last (h : LineWise r sel) (hclears : Clears r sel) (hstart : Starts behind)
    (hl : '\n' ∉ l) (hsel : sel l = true) : Segment.render [] (segments r id 0 behind l) = [] := by
  obtain ⟨q, stops, hrun⟩ := hclears behind l [] hstart hl (.inl rfl) hsel
  obtain ⟨c, l, rfl⟩ := List.exists_cons_of_ne_nil (h.ne_nil hsel)
  have hlast : ∃ d, l.getLast?.or (some c) = some d ∧ d ≠ '\n' := by
    cases hlast : l.getLast? with
    | none => exact ⟨c, rfl, fun hc => hl (by simp [hc])⟩
    | some d => exact ⟨d, rfl, fun hd => hl (List.mem_cons_of_mem c (hd ▸ List.mem_of_getLast? hlast))⟩
  obtain ⟨d, hd, hne⟩ := hlast
  rw [← List.append_nil (c :: l), segments_cut hrun, hd, Segment.render_cut,
    h.segments_inside hne List.not_mem_nil]
  rfl

end LineWise

theorem keptLines_eq : keptLines sel lines = (lines.filter fun l => !sel l) ∨
    keptLines sel lines = (lines.filter fun l => !sel l) ++ [[]] := by
  induction lines with
  | nil => exact .inl rfl
  | cons l rest ih =>
      cases rest with
      | nil => cases hsel : sel l <;> simp [keptLines, hsel]
      | cons m rest =>
          rw [keptLines, List.filter_cons]
          cases hsel : sel l with
          | true => exact ih
          | false =>
              obtain hkept | hkept := ih
              · exact .inl (congrArg (List.cons l) hkept)
              · exact .inr (congrArg (List.cons l) hkept)

theorem keptLines_ne_nil (hne : lines ≠ []) : keptLines sel lines ≠ [] := by
  induction lines with
  | nil => exact absurd rfl hne
  | cons l rest ih =>
      cases rest with
      | nil => cases hsel : sel l <;> simp [keptLines, hsel]
      | cons m rest =>
          cases hsel : sel l with
          | true => simpa [keptLines, hsel] using ih (List.cons_ne_nil m rest)
          | false => simp [keptLines, hsel]

theorem intercalate_cons {l : List Char} (hne : lines ≠ []) :
    ['\n'].intercalate (l :: lines) = l ++ '\n' :: ['\n'].intercalate lines := by
  obtain ⟨m, rest, rfl⟩ := List.exists_cons_of_ne_nil hne
  rw [List.intercalate_cons_cons, List.append_assoc, List.singleton_append]

/-- `re.sub` of whole lines. -/
theorem sub_lines (h : LineWise r sel) (hclears : Clears r sel) (hlines : ∀ l ∈ lines, '\n' ∉ l) :
    r.sub [] (['\n'].intercalate lines) = ['\n'].intercalate (keptLines sel lines) := by
  have hrender : ∀ behind, Starts behind → Segment.render []
    (segments r id 0 behind (['\n'].intercalate lines)) =
      ['\n'].intercalate (keptLines sel lines) := by
    induction lines with
    | nil =>
        intro behind hstart
        have hrun := h.skips behind [] [] hstart List.not_mem_nil (.inl rfl) h.blank
        rw [List.append_nil] at hrun
        simp [keptLines, segments, hrun]
    | cons l rest ih =>
        intro behind hstart
        have hl := hlines l List.mem_cons_self
        cases rest with
        | nil =>
            rw [List.intercalate_singleton, keptLines]
            cases hsel : sel l with
            | false => rw [h.render_last hstart hl hsel, if_neg (by simp), List.intercalate_singleton]
            | true =>
                rw [h.render_cut_last hclears hstart hl hsel, if_pos rfl, List.intercalate_singleton]
        | cons m rest =>
            have hrest := ih (fun l' hl' => hlines l' (List.mem_cons_of_mem l hl')) (some '\n') (.inr rfl)
            rw [intercalate_cons (List.cons_ne_nil m rest), keptLines]
            cases hsel : sel l with
            | true => rw [h.render_cut hclears hstart hl hsel, if_pos rfl, hrest]
            | false =>
                rw [h.render_kept hstart hl hsel, if_neg (by simp), hrest,
                  intercalate_cons (keptLines_ne_nil (List.cons_ne_nil m rest))]
  exact hrender none (.inl rfl)

/-- The lines before the first of the kind, each with its newline. -/
def leading (sel : List Char → Bool) (lines : List (List Char)) : List Char :=
  (lines.takeWhile fun l => !sel l).flatMap fun l => l ++ ['\n']

theorem before_of_nil {c : Char} (hrun : r.run behind (c :: t) = []) :
    r.before behind (c :: t) = (r.before (some c) t).map (List.cons c) := by
  rw [before, hrun, List.isEmpty_nil, if_pos rfl]

theorem before_of_ne_nil {s : List Char} (hrun : r.run behind s ≠ []) : r.before behind s = some [] := by
  cases s with
  | nil => rw [before, if_neg (by simpa using hrun)]
  | cons c s => rw [before, if_neg (by simpa using hrun)]

namespace LineWise

theorem before_inside {c : Char} (h : LineWise r sel) (hc : c ≠ '\n') (hl : '\n' ∉ l) :
    r.before (some c) l = none := by
  induction l generalizing c with
  | nil => rw [before, h.inside c [] hc, List.isEmpty_nil, if_pos rfl]
  | cons d l ih =>
      rw [List.mem_cons, not_or] at hl
      rw [before_of_nil (h.inside c _ hc), ih (Ne.symm hl.1) hl.2, Option.map_none]

theorem before_to {c : Char} (h : LineWise r sel) (hc : c ≠ '\n') (hl : '\n' ∉ l) (t : List Char) :
    r.before (some c) (l ++ '\n' :: t) = (r.before (some '\n') t).map fun w => l ++ '\n' :: w := by
  induction l generalizing c with
  | nil =>
      rw [List.nil_append, before_of_nil (h.inside c _ hc)]
      rfl
  | cons d l ih =>
      rw [List.mem_cons, not_or] at hl
      rw [List.cons_append, before_of_nil (h.inside c _ hc), ih (Ne.symm hl.1) hl.2, Option.map_map]
      rfl

theorem before_kept (h : LineWise r sel) (hstart : Starts behind) (hl : '\n' ∉ l) (hsel : sel l = false)
    (t : List Char) : r.before behind (l ++ '\n' :: t) = (r.before (some '\n') t).map fun w =>
    l ++ '\n' :: w := by
  have hrun := h.skips behind l ('\n' :: t) hstart hl (.inr ⟨t, rfl⟩) hsel
  cases l with
  | nil =>
      rw [List.nil_append, before_of_nil hrun]
      rfl
  | cons c l =>
      rw [List.mem_cons, not_or] at hl
      rw [List.cons_append] at hrun ⊢
      rw [before_of_nil hrun, h.before_to (Ne.symm hl.1) hl.2, Option.map_map]
      rfl

theorem before_last (h : LineWise r sel) (hstart : Starts behind) (hl : '\n' ∉ l) (hsel : sel l = false) :
    r.before behind l = none := by
  have hrun := h.skips behind l [] hstart hl (.inl rfl) hsel
  rw [List.append_nil] at hrun
  cases l with
  | nil => rw [before, hrun, List.isEmpty_nil, if_pos rfl]
  | cons c l =>
      rw [List.mem_cons, not_or] at hl
      rw [before_of_nil hrun, h.before_inside (Ne.symm hl.1) hl.2, Option.map_none]

end LineWise

/-- `re.search` for a whole line. -/
theorem before_lines (h : LineWise r sel) (hlines : ∀ l ∈ lines, '\n' ∉ l) :
    r.before none (['\n'].intercalate lines) = if lines.any sel then some (leading sel lines) else
    none := by
  have hbefore : ∀ behind, Starts behind → r.before behind (['\n'].intercalate lines) =
      if lines.any sel then some (leading sel lines) else none := by
    induction lines with
    | nil => exact fun behind hstart => h.before_last hstart List.not_mem_nil h.blank
    | cons l rest ih =>
        intro behind hstart
        have hl := hlines l List.mem_cons_self
        cases hsel : sel l with
        | true =>
            have hrun : ∃ s, Follows s ∧ ['\n'].intercalate (l :: rest) = l ++ s := by
              cases rest with
              | nil => exact ⟨[], .inl rfl, by simp⟩
              | cons m rest => exact ⟨_, .inr ⟨_, rfl⟩, intercalate_cons (List.cons_ne_nil m rest)⟩
            obtain ⟨s, hs, htext⟩ := hrun
            rw [htext, before_of_ne_nil (h.hits behind l s hstart hl hs hsel)]
            simp [leading, hsel]
        | false =>
            cases rest with
            | nil =>
                rw [List.intercalate_singleton, h.before_last hstart hl hsel]
                simp [hsel]
            | cons m rest =>
                have hrest := ih (fun l' hl' => hlines l' (List.mem_cons_of_mem l hl')) (some '\n')
                  (.inr rfl)
                have hany : (l :: m :: rest).any sel = (m :: rest).any sel := by
                  rw [List.any_cons, hsel, Bool.false_or]
                rw [intercalate_cons (List.cons_ne_nil m rest), h.before_kept hstart hl hsel, hrest, hany]
                split
                · simp [leading, hsel]
                · rfl
  exact hbefore none (.inl rfl)

theorem before_isSome_nil : (r.before behind []).isSome = true ↔ r.run behind [] ≠ [] := by
  rw [before]
  cases r.run behind [] <;> simp

theorem before_isSome_cons {c : Char} :
    (r.before behind (c :: t)).isSome = true ↔ r.run behind (c :: t) ≠ [] ∨
    (r.before (some c) t).isSome = true := by
  by_cases hrun : r.run behind (c :: t) = []
  · rw [before_of_nil hrun, Option.isSome_map]
    simp [hrun]
  · rw [before_of_ne_nil hrun]
    simp [hrun]

theorem before_isSome_iff (hfree : r.Free) {s : List Char} :
    (r.before behind s).isSome = true ↔ ∃ u w v, s = u ++ w ++ v ∧ r.Takes none w [] := by
  induction s generalizing behind with
  | nil =>
      rw [before_isSome_nil, run_ne_nil_iff hfree]
      constructor
      · rintro ⟨w, v, hsplit, hw⟩
        exact ⟨[], w, v, hsplit, hw⟩
      · rintro ⟨u, w, v, hsplit, hw⟩
        have hnil := List.append_eq_nil_iff.mp hsplit.symm
        exact ⟨w, [], by rw [(List.append_eq_nil_iff.mp hnil.1).2, List.append_nil], hw⟩
  | cons c s ih =>
      rw [before_isSome_cons, run_ne_nil_iff hfree, ih]
      constructor
      · rintro (⟨w, v, hsplit, hw⟩ | ⟨u, w, v, rfl, hw⟩)
        · exact ⟨[], w, v, hsplit, hw⟩
        · exact ⟨c :: u, w, v, rfl, hw⟩
      · rintro ⟨u, w, v, hsplit, hw⟩
        cases u with
        | nil => exact .inl ⟨w, v, hsplit, hw⟩
        | cons d u =>
            obtain ⟨-, rfl⟩ := List.cons.inj hsplit
            exact .inr ⟨u, w, v, rfl, hw⟩

theorem before_newline (hfree : r.Free) (hwithin : r.Within (· ≠ '\n')) {a b : List Char} :
    (r.before none (a ++ '\n' :: b)).isSome = true ↔
      (r.before none a).isSome = true ∨ (r.before none b).isSome = true := by
  simp only [before_isSome_iff hfree]
  constructor
  · rintro ⟨u, w, v, hsplit, hw⟩
    have hline := newline_notMem hwithin hw
    rw [List.append_assoc] at hsplit
    obtain ⟨x, rfl, hx⟩ | ⟨x, rfl, hx⟩ := List.append_eq_append_iff.mp hsplit
    · cases x with
      | nil =>
          obtain ⟨w', hw', -⟩ := @within_line [] w v ('\n' :: b) (by simpa using hx) hline (.inr ⟨b, rfl⟩)
          obtain ⟨rfl, rfl⟩ := List.append_eq_nil_iff.mp hw'.symm
          exact .inl ⟨a, [], [], by simp, hw⟩
      | cons c x =>
          obtain ⟨-, rfl⟩ := List.cons.inj hx
          exact .inr ⟨x, w, v, (List.append_assoc ..).symm, hw⟩
    · obtain ⟨y, rfl, -⟩ := within_line hx.symm hline (.inr ⟨b, rfl⟩)
      exact .inl ⟨u, w, y, by rw [List.append_assoc], hw⟩
  · rintro (⟨u, w, v, rfl, hw⟩ | ⟨u, w, v, rfl, hw⟩)
    · exact ⟨u, w, v ++ '\n' :: b, by simp, hw⟩
    · exact ⟨a ++ '\n' :: u, w, v, by simp, hw⟩

end PayrollAgent.Lib.Pattern
