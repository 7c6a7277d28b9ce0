import PayrollAgent.Lib.Pattern

namespace PayrollAgent.Lib

/-- A stretch of a searched text: a character no match starts at, or a match. -/
inductive Segment (σ : Type)
  | kept (c : σ)
  | cut (w : List σ)

namespace Segment

variable {σ τ : Type}

def map (f : σ → τ) : Segment σ → Segment τ
  | .kept c => .kept (f c)
  | .cut w => .cut (w.map f)

def source (segs : List (Segment σ)) : List σ :=
  segs.flatMap fun
    | .kept c => [c]
    | .cut w => w

def render (mark : List σ) (segs : List (Segment σ)) : List σ :=
  segs.flatMap fun
    | .kept c => [c]
    | .cut _ => mark

variable {mark : List σ} {segs rest : List (Segment σ)} {c : σ} {w : List σ}

@[simp] theorem source_nil : source ([] : List (Segment σ)) = [] := rfl

@[simp] theorem source_kept : source (.kept c :: rest) = c :: source rest := rfl

@[simp] theorem source_cut : source (.cut w :: rest) = w ++ source rest := rfl

@[simp] theorem source_append : source (segs ++ rest) = source segs ++ source rest :=
  List.flatMap_append

@[simp] theorem render_nil : render mark ([] : List (Segment σ)) = [] := rfl

@[simp] theorem render_kept : render mark (.kept c :: rest) = c :: render mark rest := rfl

@[simp] theorem render_cut : render mark (.cut w :: rest) = mark ++ render mark rest := rfl

@[simp] theorem render_append : render mark (segs ++ rest) = render mark segs ++ render mark rest :=
  List.flatMap_append

@[simp] theorem source_kepts (w : List σ) : source (w.map .kept) = w := by
  induction w with
  | nil => rfl
  | cons c w ih => simp [ih]

@[simp] theorem render_kepts (w : List σ) : render mark (w.map .kept) = w := by
  induction w with
  | nil => rfl
  | cons c w ih => simp [ih]

theorem render_map (f : σ → τ) (mark : List σ) (segs : List (Segment σ)) :
    (render mark segs).map f = render (mark.map f) (segs.map (Segment.map f)) := by
  induction segs with
  | nil => rfl
  | cons s segs ih =>
      cases s with
      | kept c => simp [ih, Segment.map]
      | cut w => simp [ih, Segment.map]

/-- What starts a rendered text and avoids the head of the mark was kept. -/
theorem kepts_of_prefix {w post : List σ} (hmark : mark ≠ []) (hhead : ∀ a ∈ mark.head?, a ∉ w)
    (h : render mark segs = w ++ post) :
    ∃ after, segs = w.map .kept ++ after ∧ render mark after = post := by
  induction w generalizing segs with
  | nil => exact ⟨segs, rfl, h⟩
  | cons c w ih =>
      cases segs with
      | nil => cases h
      | cons s segs =>
          cases s with
          | kept d =>
              obtain ⟨rfl, htail⟩ := List.cons.inj h
              have hrest : ∀ a ∈ mark.head?, a ∉ w := fun a ha hmem => hhead a ha (by simp [hmem])
              obtain ⟨after, rfl, hafter⟩ := ih hrest htail
              exact ⟨after, rfl, hafter⟩
          | cut u =>
              obtain ⟨m, marks, rfl⟩ := List.exists_cons_of_ne_nil hmark
              obtain ⟨rfl, -⟩ := List.cons.inj h
              exact absurd (by simp) (hhead m rfl)

/-- A stretch of the rendered text was kept where it reaches neither end of a
mark and does not lie within one. -/
theorem kepts_of_window {pre w post : List σ} (hmark : mark ≠ []) (hhead : ∀ a ∈ mark.head?, a ∉ w)
    (hlast : ∀ z ∈ mark.getLast?, z ∉ w) (hinside : ¬w <:+: mark)
    (h : render mark segs = pre ++ w ++ post) :
    ∃ before after, segs = before ++ w.map .kept ++ after ∧ render mark before = pre ∧
      render mark after = post := by
  induction segs generalizing pre with
  | nil =>
      have hnil := List.append_eq_nil_iff.mp h.symm
      obtain rfl := (List.append_eq_nil_iff.mp hnil.1).2
      exact absurd List.nil_infix hinside
  | cons s segs ih =>
      cases s with
      | kept d =>
          cases pre with
          | nil =>
              obtain ⟨after, hsegs, hafter⟩ := kepts_of_prefix hmark hhead h
              exact ⟨[], after, hsegs, rfl, hafter⟩
          | cons p pre =>
              obtain ⟨rfl, htail⟩ := List.cons.inj h
              obtain ⟨before, after, rfl, hbefore, hafter⟩ := ih htail
              exact ⟨.kept d :: before, after, rfl, by simp [hbefore], hafter⟩
      | cut u =>
          rw [render_cut, List.append_assoc] at h
          obtain ⟨a, rfl, htail⟩ | ⟨a, ha, htail⟩ := List.append_eq_append_iff.mp h
          · obtain ⟨before, after, rfl, hbefore, hafter⟩ := @ih a (by rw [htail, List.append_assoc])
            exact ⟨.cut u :: before, after, rfl, by simp [hbefore], hafter⟩
          · obtain ⟨b, rfl, -⟩ | ⟨b, rfl, hrest⟩ := List.append_eq_append_iff.mp htail
            · exact absurd ⟨pre, b, by rw [ha, List.append_assoc]⟩ hinside
            · cases a with
              | nil =>
                  obtain ⟨before, after, rfl, hbefore, hafter⟩ := @ih [] (by simpa using hrest)
                  exact ⟨.cut u :: before, after, by simp, by simpa [hbefore] using ha, hafter⟩
              | cons m marks =>
                  have hmem : (m :: marks).getLast (by simp) ∈ mark.getLast? := by
                    rw [ha, List.getLast?_append_cons, List.getLast?_eq_some_getLast (by simp)]
                    rfl
                  exact absurd (List.mem_append_left b (List.getLast_mem (by simp))) (hlast _ hmem)

end Segment

namespace Pattern

variable {σ τ : Type} {r : Pattern} {view : σ → Char}

/-- The non-overlapping leftmost matches of a text seen through `view`. The
first `skip` characters belong to the last match. -/
def segments (r : Pattern) (view : σ → Char) : Nat → Option Char → List σ → List (Segment σ)
  | _, behind, [] => if (r.run behind []).isEmpty then [] else [.cut []]
  | skip + 1, _, c :: t => segments r view skip (some (view c)) t
  | 0, behind, c :: t =>
      match (r.run behind ((c :: t).map view)).head? with
      | none => .kept c :: segments r view 0 (some (view c)) t
      | some stop =>
          let taken := t.length + 1 - stop.2.length
          if taken = 0 then .cut [] :: .kept c :: segments r view 0 (some (view c)) t
          else .cut ((c :: t).take taken) :: segments r view (taken - 1) (some (view c)) t

/-- `pattern.sub(mark, text)`. -/
def subAs (r : Pattern) (view : σ → Char) (mark text : List σ) : List σ :=
  Segment.render mark (segments r view 0 none text)

def sub (r : Pattern) (mark text : List Char) : List Char := r.subAs id mark text

theorem segments_of_nil {behind : Option Char} {c : σ} {t : List σ}
    (h : r.run behind ((c :: t).map view) = []) :
    segments r view 0 behind (c :: t) = .kept c :: segments r view 0 (some (view c)) t := by
  simp only [segments, h, List.head?_nil]

theorem segments_of_cons {behind : Option Char} {c : σ} {t : List σ} {stop : Option Char × List Char}
    {stops : List (Option Char × List Char)} (h : r.run behind ((c :: t).map view) = stop :: stops)
    {taken : Nat} (htaken : t.length + 1 - stop.2.length = taken) :
    segments r view 0 behind (c :: t) =
      if taken = 0 then .cut [] :: .kept c :: segments r view 0 (some (view c)) t
      else .cut ((c :: t).take taken) :: segments r view (taken - 1) (some (view c)) t := by
  simp only [segments, h, List.head?_cons, htaken]

theorem segments_map (f : τ → σ) (view : σ → Char) (skip : Nat) (behind : Option Char) (text : List τ) :
    (segments r (view ∘ f) skip behind text).map (Segment.map f) =
      segments r view skip behind (text.map f) := by
  induction text generalizing skip behind with
  | nil =>
      by_cases h : (r.run behind []).isEmpty = true
      · simp [segments, h]
      · simp [segments, h, Segment.map]
  | cons c t ih =>
      cases skip with
      | succ skip => exact ih skip _
      | zero =>
          have hview : ((c :: t).map f).map view = (c :: t).map (view ∘ f) := by simp
          cases hrun : r.run behind ((c :: t).map (view ∘ f)) with
          | nil =>
              have hmapped : r.run behind ((f c :: t.map f).map view) = [] := by rw [← hrun, ← hview]; rfl
              rw [segments_of_nil hrun, List.map_cons, ih, List.map_cons, segments_of_nil hmapped]
              rfl
          | cons stop stops =>
              have hmapped : r.run behind ((f c :: t.map f).map view) = stop :: stops := by
                rw [← hrun, ← hview]
                rfl
              rw [segments_of_cons hrun rfl, List.map_cons, segments_of_cons hmapped rfl, List.length_map]
              by_cases htaken : t.length + 1 - stop.2.length = 0
              · rw [if_pos htaken, if_pos htaken, List.map_cons, List.map_cons, ih]
                rfl
              · rw [if_neg htaken, if_neg htaken, List.map_cons, ih, Segment.map, List.map_take]
                rfl

theorem subAs_map (f : τ → σ) (view : σ → Char) (mark text : List τ) :
    (r.subAs (view ∘ f) mark text).map f = r.subAs view (mark.map f) (text.map f) := by
  rw [subAs, Segment.render_map, segments_map, subAs]

/-- The segments of a search: no match starts at a kept character, and a cut
stretch is what the pattern takes there. -/
def Splits (r : Pattern) (view : σ → Char) : Option Char → List (Segment σ) → Prop
  | _, [] => True
  | behind, .kept c :: rest =>
      r.run behind (view c :: (Segment.source rest).map view) = [] ∧ Splits r view (some (view c)) rest
  | behind, .cut w :: rest =>
      w ≠ [] ∧ r.Takes behind (w.map view) ((Segment.source rest).map view) ∧
        Splits r view ((w.map view).getLast?.or behind) rest

/-- A pattern that never takes the empty text. -/
def Solid (r : Pattern) : Prop := ∀ behind rest, ¬r.Takes behind [] rest

theorem getLast?_take_cons (view : σ → Char) (c : σ) (t : List σ) (n : Nat) (behind : Option Char) :
    (((c :: t).take (n + 1)).map view).getLast?.or behind =
      ((t.take n).map view).getLast?.or (some (view c)) := by
  rw [List.take_succ_cons, List.map_cons, List.getLast?_cons]
  cases ((t.take n).map view).getLast? <;> rfl

theorem segments_spec (view : σ → Char) (hr : r.Solid) (skip : Nat) (behind : Option Char)
    (text : List σ) : Segment.source (segments r view skip behind text) = text.drop skip ∧
      Splits r view (((text.take skip).map view).getLast?.or behind)
      (segments r view skip behind text) := by
  have hnone : ∀ b s, (∀ w t, s = w ++ t → w = []) → r.run b s = [] := by
    intro b s hs
    apply run_eq_nil_iff.mpr
    intro w t hw htakes
    obtain rfl := hs w t hw
    exact hr b t htakes
  induction text generalizing skip behind with
  | nil =>
      have hrun : r.run behind [] = [] :=
        hnone behind [] fun w t hw => (List.append_eq_nil_iff.mp hw.symm).1
      simp [segments, hrun, Splits]
  | cons c t ih =>
      cases skip with
      | succ skip =>
          obtain ⟨hsource, hsplits⟩ := ih skip (some (view c))
          refine ⟨hsource, ?_⟩
          rw [getLast?_take_cons]
          exact hsplits
      | zero =>
          cases hrun : r.run behind ((c :: t).map view) with
          | nil =>
              obtain ⟨hsource, hsplits⟩ := ih 0 (some (view c))
              have hrest : Segment.source (segments r view 0 (some (view c)) t) = t := by
                simpa using hsource
              rw [segments_of_nil hrun]
              refine ⟨by simp [hrest], ?_, by simpa using hsplits⟩
              rw [hrest]
              exact hrun
          | cons stop stops =>
              obtain ⟨w, hw, -, htakes⟩ := mem_run.mp (show (stop.1, stop.2) ∈ r.run behind
                ((c :: t).map view) by
                rw [hrun]
                exact List.mem_cons_self)
              have hne : w ≠ [] := by
                rintro rfl
                exact hr behind stop.2 htakes
              have hlen := congrArg List.length hw
              simp only [List.length_map, List.length_cons, List.length_append] at hlen
              have hpos := List.length_pos_iff.mpr hne
              have htaken : t.length + 1 - stop.2.length = w.length := by omega
              obtain ⟨n, hn⟩ : ∃ n, w.length = n + 1 := ⟨w.length - 1, by omega⟩
              obtain ⟨hsource, hsplits⟩ := ih n (some (view c))
              have heq : segments r view 0 behind (c :: t) =
                  .cut ((c :: t).take (n + 1)) :: segments r view n (some (view c)) t := by
                rw [segments_of_cons hrun (htaken.trans hn), if_neg (by omega), Nat.add_sub_cancel]
              have hcut : ((c :: t).take (n + 1)).map view = w := by
                rw [List.map_take, hw, ← hn, List.take_left]
              have hrest : (t.drop n).map view = stop.2 := by
                have hdrop : (((c :: t).map view).drop (n + 1)) = stop.2 := by
                  rw [hw, ← hn, List.drop_left]
                simpa using hdrop
              rw [heq]
              refine ⟨?_, by simp, ?_, ?_⟩
              · rw [Segment.source_cut, hsource, List.take_succ_cons, List.cons_append,
                  List.take_append_drop]
                rfl
              · rw [hcut, hsource, hrest]
                exact htakes
              · rw [getLast?_take_cons]
                exact hsplits

theorem Splits.append {behind : Option Char} {before after : List (Segment σ)}
    (h : Splits r view behind (before ++ after)) :
    Splits r view (((Segment.source before).map view).getLast?.or behind) after := by
  induction before generalizing behind with
  | nil => exact h
  | cons s before ih =>
      cases s with
      | kept c =>
          have hrest := ih h.2
          have hlast : ((Segment.source (.kept c :: before)).map view).getLast?.or behind =
              ((Segment.source before).map view).getLast?.or (some (view c)) := by
            rw [Segment.source_kept, List.map_cons, List.getLast?_cons]
            cases ((Segment.source before).map view).getLast? <;> rfl
          rw [hlast]
          exact hrest
      | cut w =>
          have hrest := ih h.2.2
          rw [Segment.source_cut, List.map_append, List.getLast?_append, Option.or_assoc]
          exact hrest

/-- A stretch of the result outside the marks stood in the text, no match
started at it, and its neighbours are the old ones or come from a match. -/
structure Survives (r : Pattern) (view : σ → Char) (mark text pre w post before after : List σ) :
    Prop where
  stood : text = before ++ w ++ after
  unmatched : r.run ((before.map view).getLast?) ((w ++ after).map view) = []
  left : before.getLast? = pre.getLast? ∨ pre.getLast? = mark.getLast? ∧
    ∃ behind u, r.Takes behind u ((w ++ after).map view)
  right : after.head? = post.head? ∨ post.head? = mark.head? ∧
    ∃ u rest, u ≠ [] ∧ after.map view = u ++ rest ∧ r.Takes ((w.map view).getLast?) u rest

theorem survives_of_window (view : σ → Char) {mark text pre w post : List σ} (hr : r.Solid)
    (hmark : mark ≠ [])
    (hhead : ∀ a ∈ mark.head?, a ∉ w) (hlast : ∀ z ∈ mark.getLast?, z ∉ w) (hinside : ¬w <:+: mark)
    (h : r.subAs view mark text = pre ++ w ++ post) :
    ∃ before after, Survives r view mark text pre w post before after := by
  obtain ⟨hsource, hsplits⟩ := segments_spec view hr 0 none text
  obtain ⟨before, after, hsegs, rfl, rfl⟩ := Segment.kepts_of_window hmark hhead hlast hinside h
  have hw : w ≠ [] := by
    rintro rfl
    exact hinside List.nil_infix
  rw [hsegs] at hsource hsplits
  have hrest := @Splits.append _ r view none before _ (by rw [← List.append_assoc]; exact hsplits)
  refine ⟨Segment.source before, Segment.source after, by simpa using hsource.symm, ?_, ?_, ?_⟩
  · obtain ⟨c, v, rfl⟩ := List.exists_cons_of_ne_nil hw
    simpa using hrest.1
  · cases before using List.reverseRecOn with
    | nil => exact .inl rfl
    | append_singleton before s =>
        cases s with
        | kept c => exact .inl (by simp)
        | cut u =>
            right
            rw [List.append_assoc, List.append_assoc] at hsplits
            have hcut := hsplits.append
            refine ⟨?_, _, u.map view, by simpa using hcut.2.1⟩
            rw [Segment.render_append, Segment.render_cut, Segment.render_nil, List.append_nil,
              List.getLast?_append_of_ne_nil _ hmark]
  · cases after with
    | nil => exact .inl rfl
    | cons s after =>
        cases s with
        | kept c => exact .inl rfl
        | cut u =>
            right
            obtain ⟨hu, htakes, -⟩ := hrest.append
            have hbehind : ∀ b, ((Segment.source (w.map Segment.kept)).map view).getLast?.or b =
                (w.map view).getLast? := by
              intro b
              rw [Segment.source_kepts, List.getLast?_eq_some_getLast (by simpa using hw)]
              rfl
            rw [hbehind] at htakes
            exact ⟨List.head?_append_of_ne_nil _ hmark, u.map view, _, by simpa using hu, by simp, htakes⟩

end Pattern

end PayrollAgent.Lib
