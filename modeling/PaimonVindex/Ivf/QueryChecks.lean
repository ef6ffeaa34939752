import PaimonVindex.Scalar

/-! The checks of the queries that a caller passes. -/

namespace PaimonVindex

open Checked

variable {K : Type} [Scalar K]

def displayNonFinite (value : K) : String :=
  if Scalar.isNan value then "NaN" else if Scalar.ge value Scalar.infinity then "inf" else "-inf"

def validateFiniteValues (values : List K) (len : Nat) (valueName : String) : IoResult Unit :=
  match (values.take len).zipIdx.find? fun entry => !Scalar.isFinite entry.1 with
  | none => .ok ()
  | some (value, offset) =>
    let text := displayNonFinite value
    .error (invalidInput s!"{valueName} contains non-finite value at offset {offset}: {text}")

def validateQuery (query : List K) (dimension : Nat) : IoResult Unit := do
  let len := query.length
  rejectIf (len ≠ dimension)
    (invalidInput s!"query length {len} does not match index dimension {dimension}")
  validateFiniteValues query dimension "query"

end PaimonVindex
