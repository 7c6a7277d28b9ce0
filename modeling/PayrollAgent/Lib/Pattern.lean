import Mathlib.Data.List.Basic
import Mathlib.Data.List.Forall2
import Mathlib.Data.List.Infix

namespace PayrollAgent.Lib

/-- A regular expression over characters. `look` tests the character behind and
the text ahead and takes nothing. -/
inductive Pattern
  | char (p : Char → Bool)
  | many (p : Char → Bool)
  | seq (first second : Pattern)
  | alt (left right : Pattern)
  | look (ok : Option Char → List Char → Bool)

namespace Pattern

def empty : Pattern := .look fun _ _ => true

/-- `same c d` says that the literal `c` matches `d`. -/
def lit (same : Char → Char → Bool) : List Char → Pattern
  | [] => empty
  | c :: w => .seq (.char (same c)) (lit same w)

def seqs : List Pattern → Pattern
  | [] => empty
  | r :: rest => .seq r (seqs rest)

def many1 (p : Char → Bool) : Pattern := .seq (.char p) (.many p)

def ending : Pattern := .look fun _ ahead => ahead.isEmpty || ahead = ['\n']

def greedy (p : Char → Bool) : Option Char → List Char → List (Option Char × List Char)
  | behind, [] => [(behind, [])]
  | behind, c :: t =>
      if p c then greedy p (some c) t ++ [(behind, c :: t)] else [(behind, c :: t)]

def one (p : Char → Bool) : List Char → List (Option Char × List Char)
  | [] => []
  | c :: t => if p c then [(some c, t)] else []

/-- Where a backtracking matcher can stop, in the order it tries. A stop is the
character behind it and the text ahead. -/
def run : Pattern → Option Char → List Char → List (Option Char × List Char)
  | .char p, _, s => one p s
  | .many p, behind, s => greedy p behind s
  | .seq first second, behind, s => (first.run behind s).flatMap fun q => second.run q.1 q.2
  | .alt left right, behind, s => left.run behind s ++ right.run behind s
  | .look ok, behind, s => if ok behind s then [(behind, s)] else []

/-- `re.match`. -/
def isMatch (r : Pattern) (s : List Char) : Bool := !(r.run none s).isEmpty

/-- The pattern takes `w` behind which `rest` follows. -/
def Takes : Pattern → Option Char → List Char → List Char → Prop
  | .char p, _, w, _ => ∃ c, w = [c] ∧ p c = true
  | .many p, _, w, _ => ∀ c ∈ w, p c = true
  | .seq first second, behind, w, rest =>
      ∃ u v, w = u ++ v ∧ first.Takes behind u (v ++ rest) ∧ second.Takes (u.getLast?.or behind) v rest
  | .alt left right, behind, w, rest => left.Takes behind w rest ∨ right.Takes behind w rest
  | .look ok, behind, w, rest => w = [] ∧ ok behind rest = true

theorem mem_one {p : Char → Bool} {s t : List Char} {q behind : Option Char} :
    (q, t) ∈ one p s ↔
      ∃ w, s = w ++ t ∧ q = w.getLast?.or behind ∧ ∃ c, w = [c] ∧ p c = true := by
  constructor
  · intro h
    cases s with
    | nil => cases h
    | cons c s =>
        by_cases hc : p c = true
        · obtain ⟨rfl, rfl⟩ : q = some c ∧ t = s := by simpa [one, hc] using h
          exact ⟨[c], rfl, rfl, c, rfl, hc⟩
        · simp [one, hc] at h
  · rintro ⟨w, rfl, rfl, c, rfl, hc⟩
    simp [one, hc]

theorem mem_greedy {p : Char → Bool} {s t : List Char} {q behind : Option Char} :
    (q, t) ∈ greedy p behind s ↔
      ∃ w, s = w ++ t ∧ q = w.getLast?.or behind ∧ ∀ c ∈ w, p c = true := by
  induction s generalizing behind with
  | nil =>
      constructor
      · intro h
        obtain ⟨rfl, rfl⟩ : q = behind ∧ t = [] := by simpa [greedy] using h
        exact ⟨[], rfl, rfl, by simp⟩
      · rintro ⟨w, hw, rfl, -⟩
        obtain ⟨rfl, rfl⟩ := List.append_eq_nil_iff.mp hw.symm
        simp [greedy]
  | cons c s ih =>
      have hstop : (q, t) = (behind, c :: s) ↔
          ∃ w, c :: s = w ++ t ∧ q = w.getLast?.or behind ∧ w = [] := by
        constructor
        · intro h
          obtain ⟨rfl, rfl⟩ := Prod.mk.inj h
          exact ⟨[], rfl, rfl, rfl⟩
        · rintro ⟨w, hw, rfl, rfl⟩
          rw [hw]
          rfl
      by_cases hc : p c = true
      · rw [greedy, if_pos hc, List.mem_append, List.mem_singleton, ih, hstop]
        constructor
        · rintro (⟨w, rfl, rfl, hw⟩ | ⟨w, hw, hq, rfl⟩)
          · exact ⟨c :: w, rfl, by simp [List.getLast?_cons], by simpa [hc] using hw⟩
          · exact ⟨[], hw, hq, by simp⟩
        · rintro ⟨w, hw, hq, hall⟩
          cases w with
          | nil => exact .inr ⟨[], hw, hq, rfl⟩
          | cons d w =>
              obtain ⟨rfl, rfl⟩ := List.cons.inj hw
              left
              refine ⟨w, rfl, ?_, fun e he => hall e (by simp [he])⟩
              rw [hq, List.getLast?_cons]
              cases w.getLast? <;> rfl
      · rw [greedy, if_neg hc, List.mem_singleton, hstop]
        constructor
        · rintro ⟨w, hw, hq, rfl⟩
          exact ⟨[], hw, hq, by simp⟩
        · rintro ⟨w, hw, hq, hall⟩
          cases w with
          | nil => exact ⟨[], hw, hq, rfl⟩
          | cons d w =>
              obtain ⟨rfl, rfl⟩ := List.cons.inj hw
              exact absurd (hall c (by simp)) hc

theorem mem_run {r : Pattern} {behind q : Option Char} {s t : List Char} :
    (q, t) ∈ r.run behind s ↔ ∃ w, s = w ++ t ∧ q = w.getLast?.or behind ∧ r.Takes behind w t := by
  induction r generalizing behind q s t with
  | char p => exact mem_one
  | many p => exact mem_greedy
  | seq first second ihfirst ihsecond =>
      simp only [run, List.mem_flatMap]
      constructor
      · rintro ⟨⟨b, m⟩, hfirst, hsecond⟩
        obtain ⟨u, rfl, rfl, hu⟩ := ihfirst.mp hfirst
        obtain ⟨v, rfl, rfl, hv⟩ := ihsecond.mp hsecond
        refine ⟨u ++ v, by simp, ?_, u, v, rfl, hu, hv⟩
        rw [List.getLast?_append, Option.or_assoc]
      · rintro ⟨w, rfl, rfl, u, v, rfl, hu, hv⟩
        refine ⟨(u.getLast?.or behind, v ++ t), ihfirst.mpr ⟨u, by simp, rfl, hu⟩, ?_⟩
        refine ihsecond.mpr ⟨v, rfl, ?_, hv⟩
        rw [List.getLast?_append, Option.or_assoc]
  | alt left right ihleft ihright =>
      simp only [run, List.mem_append, ihleft, ihright]
      constructor
      · rintro (⟨w, hs, hq, hw⟩ | ⟨w, hs, hq, hw⟩)
        · exact ⟨w, hs, hq, .inl hw⟩
        · exact ⟨w, hs, hq, .inr hw⟩
      · rintro ⟨w, hs, hq, hw | hw⟩
        · exact .inl ⟨w, hs, hq, hw⟩
        · exact .inr ⟨w, hs, hq, hw⟩
  | look ok =>
      by_cases hok : ok behind s = true
      · simp only [run, if_pos hok, List.mem_singleton]
        constructor
        · intro h
          obtain ⟨rfl, rfl⟩ := Prod.mk.inj h
          exact ⟨[], rfl, rfl, rfl, hok⟩
        · rintro ⟨w, rfl, rfl, rfl, -⟩
          rfl
      · simp only [run, if_neg hok, List.not_mem_nil, false_iff]
        rintro ⟨w, rfl, -, rfl, htakes⟩
        exact hok htakes

theorem run_eq_nil_iff {r : Pattern} {behind : Option Char} {s : List Char} :
    r.run behind s = [] ↔ ∀ w t, s = w ++ t → ¬r.Takes behind w t := by
  constructor
  · intro h w t hs hw
    have hmem := mem_run.mpr ⟨w, hs, rfl, hw⟩
    rw [h] at hmem
    cases hmem
  · intro h
    apply List.eq_nil_iff_forall_not_mem.mpr
    rintro ⟨q, t⟩ hmem
    obtain ⟨w, hs, -, hw⟩ := mem_run.mp hmem
    exact h w t hs hw

@[simp] theorem takes_empty {behind : Option Char} {w rest : List Char} :
    empty.Takes behind w rest ↔ w = [] := by
  simp [empty, Takes]

theorem takes_many1 {p : Char → Bool} {behind : Option Char} {w rest : List Char} :
    (many1 p).Takes behind w rest ↔ w ≠ [] ∧ ∀ c ∈ w, p c = true := by
  constructor
  · rintro ⟨_, v, rfl, ⟨c, rfl, hc⟩, hv⟩
    refine ⟨by simp, ?_⟩
    intro d hd
    obtain rfl | hd := List.mem_cons.mp hd
    · exact hc
    · exact hv d hd
  · rintro ⟨hne, hw⟩
    obtain ⟨c, v, rfl⟩ := List.exists_cons_of_ne_nil hne
    exact ⟨[c], v, rfl, ⟨c, rfl, hw c (by simp)⟩, fun d hd => hw d (by simp [hd])⟩

theorem takes_lit {same : Char → Char → Bool} {u : List Char} {behind : Option Char}
    {w rest : List Char} :
    (lit same u).Takes behind w rest ↔ List.Forall₂ (fun c d => same c d = true) u w := by
  induction u generalizing behind w with
  | nil => simp [lit]
  | cons c u ih =>
      simp only [lit, Takes, ih]
      constructor
      · rintro ⟨_, v, rfl, ⟨d, rfl, hd⟩, hv⟩
        exact .cons hd hv
      · intro h
        cases h with
        | cons hd hv => exact ⟨[_], _, rfl, ⟨_, rfl, hd⟩, hv⟩

def Within (p : Char → Bool) : Pattern → Prop
  | .char q => ∀ c, q c = true → p c = true
  | .many q => ∀ c, q c = true → p c = true
  | .seq first second => first.Within p ∧ second.Within p
  | .alt left right => left.Within p ∧ right.Within p
  | .look _ => True

theorem Within.takes {p : Char → Bool} {r : Pattern} {behind : Option Char} {w rest : List Char}
    (h : r.Within p) (hw : r.Takes behind w rest) : ∀ c ∈ w, p c = true := by
  induction r generalizing behind w rest with
  | char q =>
      obtain ⟨c, rfl, hc⟩ := hw
      intro d hd
      obtain rfl := List.mem_singleton.mp hd
      exact h d hc
  | many q => exact fun c hc => h c (hw c hc)
  | seq first second ihfirst ihsecond =>
      obtain ⟨u, v, rfl, hu, hv⟩ := hw
      intro c hc
      obtain hc | hc := List.mem_append.mp hc
      · exact ihfirst h.1 hu c hc
      · exact ihsecond h.2 hv c hc
  | alt left right ihleft ihright =>
      obtain hw | hw := hw
      · exact ihleft h.1 hw
      · exact ihright h.2 hw
  | look ok =>
      obtain ⟨rfl, -⟩ := hw
      intro c hc
      cases hc

end Pattern

end PayrollAgent.Lib
