import PayrollAgent.Text
import PayrollAgent.Lib.Pattern

namespace PayrollAgent

/-- What `unicodedata.decomposition` says of one character. A tag marks a
compatibility decomposition. -/
structure Decomposition where
  tagged : Bool
  parts : Str
  deriving DecidableEq

/-- The parts of the `re` and `unicodedata` modules that rest on the Unicode
tables. -/
class PyUnicode where
  lower : Char → Str
  isWord : Char → Bool
  sameLetter : Char → Char → Bool
  decomposition : Char → Option Decomposition
  combining : Char → Nat

@[reducible] def asciiUnicode : PyUnicode where
  lower c := [c.toLower]
  isWord c := c.isAlphanum || c = '_'
  sameLetter c d := c.toLower = d.toLower
  decomposition _ := none
  combining _ := 0

/-- The accented letters of Latin-1 with their decompositions, and one letter
beyond it. -/
def accentedLetters : List (Char × Char × Nat) :=
  [('à', 'a', 0x300), ('á', 'a', 0x301), ('â', 'a', 0x302), ('ã', 'a', 0x303), ('ä', 'a', 0x308),
    ('å', 'a', 0x30A),
   ('ç', 'c', 0x327), ('è', 'e', 0x300), ('é', 'e', 0x301), ('ê', 'e', 0x302), ('ë', 'e', 0x308),
   ('ì', 'i', 0x300), ('í', 'i', 0x301), ('î', 'i', 0x302), ('ï', 'i', 0x308), ('ñ', 'n', 0x303),
   ('ò', 'o', 0x300), ('ó', 'o', 0x301), ('ô', 'o', 0x302), ('õ', 'o', 0x303), ('ö', 'o', 0x308),
   ('ù', 'u', 0x300), ('ú', 'u', 0x301), ('û', 'u', 0x302), ('ü', 'u', 0x308), ('ý', 'y', 0x301),
   ('ÿ', 'y', 0x308), ('ř', 'r', 0x30C)]

def latinLower (c : Char) : Char :=
  if 0xC0 ≤ c.toNat ∧ c.toNat ≤ 0xDE ∧ c.toNat ≠ 0xD7 then Char.ofNat (c.toNat + 32)
  else if c = 'Ř' then 'ř'
  else c.toLower

@[reducible] def latinUnicode : PyUnicode where
  lower c := [latinLower c]
  isWord c := c.isAlphanum || c = '_' || (0xC0 ≤ c.toNat && c.toNat ≤ 0x17F && c.toNat ≠ 0xD7 &&
    c.toNat ≠ 0xF7)
  sameLetter c d := latinLower c = latinLower d
  decomposition c :=
    (accentedLetters.find? fun p => p.1 = c).map fun p => ⟨false, [p.2.1, Char.ofNat p.2.2]⟩
  combining c := if 0x300 ≤ c.toNat ∧ c.toNat ≤ 0x36F then 230 else 0

namespace Text

variable [PyUnicode]

/-- A literal under `re.IGNORECASE`. -/
def literal (w : Str) : Lib.Pattern := .lit PyUnicode.sameLetter w

def anyRun : Lib.Pattern := .many (· ≠ '\n')

omit [PyUnicode] in
def spaces : Lib.Pattern := .many isSpace

def wordBoundary : Lib.Pattern :=
  .look fun behind ahead => behind.any PyUnicode.isWord != ahead.head?.any PyUnicode.isWord

end Text

end PayrollAgent
