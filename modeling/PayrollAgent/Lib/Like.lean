import Mathlib.Data.List.Infix

namespace PayrollAgent.Lib

def likeFrom : Bool → List Char → List Char → Bool
  | _, [], s => s.isEmpty
  | true, c :: p, s => s.head? = some c && likeFrom false p s.tail
  | false, c :: p, s =>
      if c = '%' then s.tails.any fun t => likeFrom false p t
      else if c = '_' then !s.isEmpty && likeFrom false p s.tail
      else if c = '\\' then likeFrom true p s
      else s.head? = some c && likeFrom false p s.tail

/-- `s LIKE pattern`, with the backslash as the escape character. -/
def like (pattern s : List Char) : Bool := likeFrom false pattern s

/-- A character that stands for itself in a pattern. -/
def Plain (c : Char) : Prop := c ≠ '%' ∧ c ≠ '_' ∧ c ≠ '\\'

instance instDecidablePlain (c : Char) : Decidable (Plain c) :=
  inferInstanceAs (Decidable (c ≠ '%' ∧ c ≠ '_' ∧ c ≠ '\\'))

theorem like_percent (p s : List Char) :
    like ('%' :: p) s = true ↔ ∃ skipped t, s = skipped ++ t ∧ like p t = true := by
  rw [like, likeFrom, if_pos rfl]
  simp only [List.any_eq_true, List.mem_tails]
  constructor
  · rintro ⟨t, ⟨skipped, rfl⟩, ht⟩
    exact ⟨skipped, t, rfl, ht⟩
  · rintro ⟨skipped, t, rfl, ht⟩
    exact ⟨t, List.suffix_append skipped t, ht⟩

@[simp] theorem like_only_percent (s : List Char) : like ['%'] s = true := by
  apply (like_percent [] s).mpr
  exact ⟨s, [], by simp, rfl⟩

theorem like_plain_append {w : List Char} (hw : ∀ c ∈ w, Plain c) (p s : List Char) :
    like (w ++ p) s = true ↔ ∃ t, s = w ++ t ∧ like p t = true := by
  induction w generalizing s with
  | nil => simp
  | cons c w ih =>
      obtain ⟨hpercent, hunderscore, hescape⟩ := hw c (by simp)
      have hrest : ∀ d ∈ w, Plain d := fun d hd => hw d (by simp [hd])
      rw [List.cons_append, like, likeFrom, if_neg hpercent, if_neg hunderscore, if_neg hescape]
      cases s with
      | nil => simp
      | cons e s =>
          constructor
          · intro h
            obtain ⟨he, htail⟩ : e = c ∧ likeFrom false (w ++ p) s = true := by simpa using h
            obtain ⟨t, rfl, ht⟩ := (ih hrest s).mp htail
            exact ⟨t, by rw [he, List.cons_append], ht⟩
          · rintro ⟨t, heq, ht⟩
            rw [List.cons_append, List.cons.injEq] at heq
            obtain ⟨rfl, rfl⟩ := heq
            have htail := (ih hrest (w ++ t)).mpr ⟨t, rfl, ht⟩
            rw [like] at htail
            simpa using htail

theorem like_infix {w : List Char} (hw : ∀ c ∈ w, Plain c) (s : List Char) :
    like ('%' :: w ++ ['%']) s = true ↔ w <:+: s := by
  rw [List.cons_append, like_percent]
  constructor
  · rintro ⟨skipped, t, rfl, ht⟩
    obtain ⟨rest, rfl, -⟩ := (like_plain_append hw _ _).mp ht
    exact ⟨skipped, rest, by simp⟩
  · rintro ⟨skipped, rest, rfl⟩
    refine ⟨skipped, w ++ rest, by simp, ?_⟩
    exact (like_plain_append hw _ _).mpr ⟨rest, rfl, like_only_percent rest⟩

/-- SQL's comparison with a parameter that may be NULL. -/
def sqlEq {α : Type} [DecidableEq α] (value : α) (param : Option α) : Option Bool :=
  param.map fun p => value = p

/-- SQL's `OR`: NULL is unknown. -/
def sqlOr : Option Bool → Option Bool → Option Bool
  | some true, _ => some true
  | _, some true => some true
  | some false, some false => some false
  | _, _ => none

theorem sqlOr_eq_true (a b : Option Bool) :
    sqlOr a b = some true ↔ a = some true ∨ b = some true := by
  rcases a with _ | _ | _ <;> rcases b with _ | _ | _ <;> simp [sqlOr]

@[simp] theorem sqlEq_eq_true {α : Type} [DecidableEq α] (value : α) (param : Option α) :
    sqlEq value param = some true ↔ param = some value := by
  cases param <;> simp [sqlEq, eq_comm]

end PayrollAgent.Lib
