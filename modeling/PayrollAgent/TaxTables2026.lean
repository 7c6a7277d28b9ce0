import PayrollAgent.Roster
import Mathlib.Algebra.Order.Ring.Rat

namespace PayrollAgent.TaxTables2026

/-- One row of the percentage-method table. `rate` is a fraction. -/
structure BracketRow where
  lower : ℚ
  upper : Option ℚ
  base : ℚ
  rate : ℚ

def mfjStandard : List BracketRow :=
  [⟨0, some 19300, 0, 0⟩,
   ⟨19300, some 44100, 0, 10 / 100⟩,
   ⟨44100, some 120100, 2480, 12 / 100⟩,
   ⟨120100, some 230700, 11600, 22 / 100⟩,
   ⟨230700, some 422850, 35932, 24 / 100⟩,
   ⟨422850, some 531750, 82048, 32 / 100⟩,
   ⟨531750, some 788000, 116896, 35 / 100⟩,
   ⟨788000, none, 20658350 / 100, 37 / 100⟩]

def singleStandard : List BracketRow :=
  [⟨0, some 7500, 0, 0⟩,
   ⟨7500, some 19900, 0, 10 / 100⟩,
   ⟨19900, some 57900, 1240, 12 / 100⟩,
   ⟨57900, some 113200, 5800, 22 / 100⟩,
   ⟨113200, some 209275, 17966, 24 / 100⟩,
   ⟨209275, some 263725, 41024, 32 / 100⟩,
   ⟨263725, some 648100, 58448, 35 / 100⟩,
   ⟨648100, none, 19297925 / 100, 37 / 100⟩]

def mfjStep2 : List BracketRow :=
  [⟨0, some 16100, 0, 0⟩,
   ⟨16100, some 28500, 0, 10 / 100⟩,
   ⟨28500, some 66500, 1240, 12 / 100⟩,
   ⟨66500, some 121800, 5800, 22 / 100⟩,
   ⟨121800, some 217875, 17966, 24 / 100⟩,
   ⟨217875, some 272325, 41024, 32 / 100⟩,
   ⟨272325, some 400450, 58448, 35 / 100⟩,
   ⟨400450, none, 10329175 / 100, 37 / 100⟩]

def singleStep2 : List BracketRow :=
  [⟨0, some 8050, 0, 0⟩,
   ⟨8050, some 14250, 0, 10 / 100⟩,
   ⟨14250, some 33250, 620, 12 / 100⟩,
   ⟨33250, some 60900, 2900, 22 / 100⟩,
   ⟨60900, some 108938, 8983, 24 / 100⟩,
   ⟨108938, some 136163, 20512, 32 / 100⟩,
   ⟨136163, some 328350, 29224, 35 / 100⟩,
   ⟨328350, none, 9648963 / 100, 37 / 100⟩]

/-- Married filing separately uses the single table. The head-of-household
tables are unreachable and not carried. -/
def standardBrackets : FilingStatus → List BracketRow
  | .marriedJointly => mfjStandard
  | .single | .marriedSeparately => singleStandard

def step2Brackets : FilingStatus → List BracketRow
  | .marriedJointly => mfjStep2
  | .single | .marriedSeparately => singleStep2

def step1Standard : FilingStatus → ℚ
  | .marriedJointly => 12900
  | .single | .marriedSeparately => 8600

def ssRate : ℚ := 62 / 1000

def ssWageBase : ℚ := 184500

def medicareRate : ℚ := 145 / 10000

end PayrollAgent.TaxTables2026
