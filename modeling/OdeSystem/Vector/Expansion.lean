import OdeSystem.Error
import OdeSystem.Logged
import OdeSystem.Vector.Alias

/-!
Expansion of vector equations into scalar ones. An equation with vector literals stands for one equation per
component; the derivative of an alias for one derivative per component of the alias; a declaration of an alias
for no equation at all, and it changes the aliases that later equations see.
-/

namespace OdeSystem.Vector

open Text

/-- The text of pieces with each literal replaced by one of its components. -/
def selectComponent (index : Nat) (pieces : List Piece) : List Char :=
  pieces.flatMap fun
    | .char c => [c]
    | .literal l => (l.components[index]?).getD []

/-- The scalar equations of an equation whose literals have a common dimension. -/
def scalars (dimension : Nat) (pieces : List Piece) : List String :=
  (List.range dimension).map fun i => String.ofList (selectComponent i pieces)

/-- Expands the literals of an equation. -/
def expandLiterals (equation : String) (pieces : List Piece) : Logged ParseError (List String) :=
  match literals pieces with
  | [] => pure [equation]
  | first :: others =>
    if others.all (·.dimension == first.dimension) then do
      let found := scalars first.dimension pieces
      Logged.report (.vectorExpanded equation found)
      pure found
    else Logged.fail (.dimensionMismatch equation)

/-- The names of the components whose derivatives an equation gives: those of the alias, or numbered ones if it
has not been declared. -/
def componentNames (aliases : Aliases) (name : String) (count : Nat) : List String :=
  (aliases.get? name).getD ((List.range count).map fun i => name ++ "_" ++ toString (i + 1))

/-- The equation for the derivative of a component. -/
def componentEquation (name right : String) : String :=
  "d" ++ name ++ "/dt = " ++ String.ofList (trim right.toList)

/-- Expands the derivative of an alias, given the right-hand sides for its components. -/
def expandAliasDerivative (aliases : Aliases) (equation name : String) (rights : List String) :
    Logged ParseError (List String) :=
  let names := componentNames aliases name rights.length
  if names.length = rights.length then do
    let found := List.zipWith componentEquation names rights
    Logged.report (.aliasDerivativeExpanded name found)
    pure found
  else Logged.fail (.dimensionMismatch equation)

/-- Expands an equation; also gives the aliases as they are behind it. -/
def expand (aliases : Aliases) (equation : String) : Logged ParseError (List String × Aliases) :=
  match aliasDerivative? equation.toList with
  | some (name, vector) => do
    let rights ← expandLiterals (String.ofList vector) (pieces vector)
    let found ← expandAliasDerivative aliases equation (String.ofList name) rights
    pure (found, aliases)
  | none =>
    let pieces := pieces equation.toList
    match declaration? pieces with
    | some (name, components) => do
      Logged.report (.aliasRecorded name components)
      pure ([], aliases.insert name components)
    | none => do
      let found ← expandLiterals equation pieces
      pure (found, aliases)

/-- The alias that an equation declares when it is read for its declaration only. -/
def declared? (equation : String) : Option (String × List String) :=
  if (aliasDerivative? equation.toList).isSome then none else declaration? (pieces equation.toList)

/-- Records the alias that an equation declares, if it declares one. -/
def register (aliases : Aliases) (equation : String) : Logged ParseError (Bool × Aliases) :=
  match declared? equation with
  | some (name, components) => do
    Logged.report (.aliasRecorded name components)
    pure (true, aliases.insert name components)
  | none => pure (false, aliases)

end OdeSystem.Vector
