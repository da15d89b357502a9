import OdeSystem.Vector.Expansion

/-!
Expanders: the aliases in the hands of one caller, who has equations expanded, or read for their declarations, one after
the other. The work goes through an equation part by part, and what has been recorded before a failure stays recorded.
The vector that an equation gives for the derivative of an alias is expanded by the expander itself first, as an
equation of its own.
-/

namespace OdeSystem.Vector

/-- What an expander has recorded, and the events it has reported so far. -/
structure Expander where
  aliases : Aliases
  events : List Event

namespace Expander

/-- Work of an expander: what it gives, or why it fails, and the expander as it is then. -/
abbrev Work := ExceptT ParseError (StateM Expander)

def report (e : Event) : Work Unit := modify fun x => { x with events := x.events ++ [e] }

/-- Records the alias that pieces declare, and says whether they declare one. -/
def record (pieces : List Piece) : Work Bool :=
  match declaration? pieces with
  | some (name, components) => do
    report (.aliasRecorded name components)
    modify fun x => { x with aliases := x.aliases.insert name components }
    pure true
  | none => pure false

/-- Gives each component of an alias its right-hand side. -/
def assign (equation name : String) (rights : List String) : Work (List String) := do
  let names := componentNames (← get).aliases name rights.length
  if names.length = rights.length then
    let found := List.zipWith componentEquation names rights
    report (.aliasDerivativeExpanded name found)
    pure found
  else throw (.dimensionMismatch equation)

/-- Expands an equation. -/
def expand (equation : String) : Work (List String) :=
  match _h : aliasDerivative? equation.toList with
  | some (name, vector) => do
    let rights ← expand (String.ofList vector)
    assign equation (String.ofList name) rights
  | none =>
    let pieces := pieces equation.toList
    match literals pieces with
    | [] => pure [equation]
    | first :: others =>
      if others.all (·.dimension == first.dimension) then do
        if ← record pieces then pure []
        else
          let found := scalars first.dimension pieces
          report (.vectorExpanded equation found)
          pure found
      else throw (.dimensionMismatch equation)
termination_by equation.toList.length
decreasing_by
  rw [String.toList_ofList]
  exact length_lt_of_aliasDerivative? _h

/-- Reads an equation for its declaration only, and says whether it declares an alias. -/
def register (equation : String) : Work Bool :=
  if (aliasDerivative? equation.toList).isSome then pure false else record (pieces equation.toList)

end Expander

end OdeSystem.Vector
