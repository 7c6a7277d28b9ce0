import Mathlib.Algebra.Field.Rat
import Mathlib.Data.NNRat.Defs
import Mathlib.Data.List.Sort

namespace PayrollAgent

/-- A Python `str`: a list of code points. -/
abbrev Str := List Char

instance : LawfulBEq Str := inferInstance

abbrev Uuid := Nat

/-- The parts of Python's text library that rest on the Unicode tables or on
how a value prints. -/
class PyText where
  casefold : Str → Str
  nfc : Str → Str
  strDecimal : ℚ≥0 → Str
  repr : Str → Str

/-- Python's text functions as they act on ASCII text and whole numbers. -/
@[reducible] def asciiText : PyText where
  casefold s := s.map Char.toLower
  nfc s := s
  strDecimal q := (Nat.repr q.num).toList
  repr s := ['\''] ++ s ++ ['\'']

namespace Text

/-- The code points for which `str.isspace` holds. -/
def isSpace (c : Char) : Bool :=
  let n := c.toNat
  (9 ≤ n && n ≤ 13) || (28 ≤ n && n ≤ 32) || n == 133 || n == 160 || n == 5760 ||
    (8192 ≤ n && n ≤ 8202) || n == 8232 || n == 8233 || n == 8239 || n == 8287 || n == 12288

/-- `str.split()`: `word` is the current word, reversed. -/
def splitWords : Str → Str → List Str
  | [], word => if word.isEmpty then [] else [word.reverse]
  | c :: cs, word =>
      if isSpace c then
        if word.isEmpty then splitWords cs [] else word.reverse :: splitWords cs []
      else splitWords cs (c :: word)

def split (s : Str) : List Str := splitWords s []

/-- `sep.join(parts)`. -/
def join (sep : Str) (parts : List Str) : Str := (parts.intersperse sep).flatten

def codePointLe : Str → Str → Bool
  | [], _ => true
  | _ :: _, [] => false
  | a :: as, b :: bs => if a = b then codePointLe as bs else a.toNat ≤ b.toNat

/-- `sorted(names)`. -/
def sorted (names : List Str) : List Str := names.insertionSort (fun a b => codePointLe a b)

theorem sorted_perm (names : List Str) : (sorted names).Perm names :=
  List.perm_insertionSort _ names

theorem perm_of_sorted_eq {xs ys : List Str} (h : sorted xs = sorted ys) : xs.Perm ys :=
  (sorted_perm xs).symm.trans (h ▸ sorted_perm ys)

theorem codePointLe_total (xs ys : Str) : codePointLe xs ys = true ∨ codePointLe ys xs = true := by
  induction xs generalizing ys with
  | nil => simp [codePointLe]
  | cons a as ih =>
      cases ys with
      | nil => simp [codePointLe]
      | cons b bs =>
          by_cases h : a = b
          · simpa [codePointLe, h] using ih bs
          · simp only [codePointLe, h, Ne.symm h, if_false, decide_eq_true_eq]
            omega

theorem codePointLe_antisymm {xs ys : Str} (h : codePointLe xs ys = true)
    (h' : codePointLe ys xs = true) : xs = ys := by
  induction xs generalizing ys with
  | nil =>
      cases ys with
      | nil => rfl
      | cons b bs => simp [codePointLe] at h'
  | cons a as ih =>
      cases ys with
      | nil => simp [codePointLe] at h
      | cons b bs =>
          by_cases he : a = b
          · subst he
            simp only [codePointLe, if_true] at h h'
            rw [ih h h']
          · simp only [codePointLe, he, Ne.symm he, if_false, decide_eq_true_eq] at h h'
            exact absurd (Char.toNat_inj.mp (Nat.le_antisymm h h')) he

theorem codePointLe_trans {xs ys zs : Str} (h : codePointLe xs ys = true)
    (h' : codePointLe ys zs = true) : codePointLe xs zs = true := by
  induction xs generalizing ys zs with
  | nil => simp [codePointLe]
  | cons a as ih =>
      cases ys with
      | nil => simp [codePointLe] at h
      | cons b bs =>
          cases zs with
          | nil => simp [codePointLe] at h'
          | cons c cs =>
              by_cases hab : a = b
              · subst hab
                by_cases hac : a = c
                · subst hac
                  simp only [codePointLe, if_true] at h h' ⊢
                  exact ih h h'
                · simpa [codePointLe, hac] using h'
              · simp only [codePointLe, hab, if_false, decide_eq_true_eq] at h
                have hne : a.toNat ≠ b.toNat := fun he => hab (Char.toNat_inj.mp he)
                by_cases hbc : b = c
                · subst hbc
                  simpa [codePointLe, hab] using h
                · simp only [codePointLe, hbc, if_false, decide_eq_true_eq] at h'
                  have hac : a ≠ c := by
                    rintro rfl
                    omega
                  simp only [codePointLe, hac, if_false, decide_eq_true_eq]
                  omega

theorem sorted_eq_of_perm {xs ys : List Str} (h : xs.Perm ys) : sorted xs = sorted ys := by
  have htotal : Std.Total fun a b : Str => codePointLe a b = true := ⟨codePointLe_total⟩
  have htrans : IsTrans Str fun a b => codePointLe a b = true := ⟨fun _ _ _ => codePointLe_trans⟩
  have hanti : Std.Antisymm fun a b : Str => codePointLe a b = true := ⟨fun _ _ => codePointLe_antisymm⟩
  exact ((sorted_perm xs).trans (h.trans (sorted_perm ys).symm)).eq_of_pairwise'
    (List.pairwise_insertionSort _ xs) (List.pairwise_insertionSort _ ys)

end Text

end PayrollAgent
