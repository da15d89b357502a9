import OdeSystem.Table

/-!
Scopes: what the names in an expression stand for. The time comes first, then the helpers, then the state, and
last the constants.
-/

namespace OdeSystem

/-- The values of the state variables, by name. -/
abbrev State := Table Float

/-- The values of helpers, by name. -/
abbrev HelperValues := Table Float

/-- The value of a constant that every scope has. -/
def constant? (name : String) : Option Float :=
  if name = "pi" then some 3.141592653589793
  else if name = "e" then some 2.718281828459045
  else none

/-- What an expression may refer to. -/
structure Scope where
  state : State
  time : Float
  helpers : HelperValues

/-- The value of a name. -/
def Scope.get? (scope : Scope) (name : String) : Option Float :=
  if name = "t" then some scope.time
  else (scope.helpers.get? name).or ((scope.state.get? name).or (constant? name))

/-- The values of some names, as far as they have one. -/
def Scope.restrict (scope : Scope) (names : List String) : Table Float :=
  Table.ofList (names.filterMap fun name => (scope.get? name).map (name, ·))

@[simp] theorem Scope.get?_time (scope : Scope) : scope.get? "t" = some scope.time := rfl

end OdeSystem
