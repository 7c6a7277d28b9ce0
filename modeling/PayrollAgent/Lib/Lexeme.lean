import Mathlib.Data.List.TakeWhile
import Mathlib.Data.List.Basic

namespace PayrollAgent.Lib.Lexeme

def Ends (p : Char → Bool) (t : List Char) : Prop := ∀ c, t.head? = some c → p c = false

/-- The longest stretch of the class, where it is not empty, and what stands
behind it. -/
def stretch (p : Char → Bool) (s : List Char) : Option (List Char × List Char) :=
  if s.takeWhile p = [] then none else some (s.takeWhile p, s.dropWhile p)

variable {p : Char → Bool} {s t w : List Char}

theorem ends_nil (p : Char → Bool) : Ends p [] := nofun

theorem ends_cons {c : Char} : Ends p (c :: t) ↔ p c = false := by
  constructor
  · exact fun h => h c rfl
  · rintro h _ ⟨⟩
    exact h

theorem ends_dropWhile (p : Char → Bool) (s : List Char) : Ends p (s.dropWhile p) := by
  intro c hc
  have hnot := List.head?_dropWhile_not p s
  rw [hc] at hnot
  exact hnot

theorem takeWhile_append (hw : ∀ c ∈ w, p c = true) (ht : Ends p t) : (w ++ t).takeWhile p = w := by
  rw [List.takeWhile_append_of_pos hw]
  cases t with
  | nil => simp
  | cons c t => rw [List.takeWhile_cons_of_neg (by simp [ends_cons.mp ht]), List.append_nil]

theorem dropWhile_append (hw : ∀ c ∈ w, p c = true) (ht : Ends p t) : (w ++ t).dropWhile p = t := by
  rw [List.dropWhile_append_of_pos hw]
  cases t with
  | nil => rfl
  | cons c t => exact List.dropWhile_cons_of_neg (by simp [ends_cons.mp ht])

theorem stretch_append (hne : w ≠ []) (hw : ∀ c ∈ w, p c = true) (ht : Ends p t) :
    stretch p (w ++ t) = some (w, t) := by
  rw [stretch, takeWhile_append hw ht, dropWhile_append hw ht, if_neg hne]

/-- The stretch and what stands behind it make up the text, in one way. -/
theorem stretch_eq_some_iff : stretch p s = some (w, t) ↔
    s = w ++ t ∧ w ≠ [] ∧ (∀ c ∈ w, p c = true) ∧ Ends p t := by
  constructor
  · intro h
    unfold stretch at h
    split at h
    · cases h
    next hne =>
      obtain ⟨rfl, rfl⟩ := Prod.mk.inj (Option.some.inj h)
      refine ⟨List.takeWhile_append_dropWhile.symm, hne, fun c hc => List.mem_takeWhile_imp hc,
        ends_dropWhile p s⟩
  · rintro ⟨rfl, hne, hw, ht⟩
    exact stretch_append hne hw ht

def behind (w s : List Char) : Option (List Char) := s.dropPrefix? w

theorem behind_append (w t : List Char) : behind w (w ++ t) = some t :=
  List.dropPrefix?_append_of_beq t (beq_self_eq_true w)

theorem behind_eq_some_iff : behind w s = some t ↔ s = w ++ t := by
  rw [behind, List.dropPrefix?_eq_some_iff]
  constructor
  · rintro ⟨w', rfl, hw⟩
    rw [eq_of_beq hw]
  · rintro rfl
    exact ⟨w, rfl, beq_self_eq_true w⟩

/-- A word that lies in a text without one of its characters lies on one side of
that character. -/
theorem infix_split {a b : List Char} {x : Char} (hx : x ∉ w) (h : w <:+: a ++ x :: b) :
    w <:+: a ∨ w <:+: b := by
  obtain ⟨pre, post, heq⟩ := h
  rw [List.append_assoc, List.append_eq_append_iff] at heq
  rcases heq with ⟨mid, rfl, hrest⟩ | ⟨mid, rfl, hrest⟩
  · rw [List.append_eq_append_iff] at hrest
    rcases hrest with ⟨rest, rfl, -⟩ | ⟨rest, rfl, hx'⟩
    · exact .inl ⟨pre, rest, by simp⟩
    · cases rest with
      | nil => exact .inl ⟨pre, [], by simp⟩
      | cons c rest =>
          obtain ⟨rfl, -⟩ := List.cons.inj hx'
          exact absurd (by simp) hx
  · cases mid with
    | nil =>
        rw [List.nil_append] at hrest
        cases w with
        | nil => exact .inl (List.nil_infix)
        | cons c w =>
            obtain ⟨rfl, -⟩ := List.cons.inj hrest
            exact absurd List.mem_cons_self hx
    | cons c mid =>
        obtain ⟨rfl, rfl⟩ := List.cons.inj hrest
        exact .inr ⟨mid, post, by simp⟩

end PayrollAgent.Lib.Lexeme
