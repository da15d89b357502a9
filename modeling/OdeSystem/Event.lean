import OdeSystem.Number.Layout
import OdeSystem.Text.Quoted

/-!
Events: what the library reports of its work as it goes, in the order in which it happens. An event has a level,
a fixed wording, and fields that say what it is about.
-/

namespace OdeSystem

/-- What a scalar equation defines: the derivative of a state variable, or a helper. -/
inductive EquationKind
  | derivative
  | helper
  deriving DecidableEq, Repr

/-- The word for a kind of equation. -/
def EquationKind.text : EquationKind → String
  | derivative => "Variable"
  | helper => "Helper"

/-- How much an event matters. -/
inductive Level
  | trace
  | debug
  | warn
  deriving DecidableEq, Repr

inductive Event
  | aliasRecorded (name : String) (components : List String)
  | vectorExpanded (equation : String) (scalars : List String)
  | aliasDerivativeExpanded (name : String) (scalars : List String)
  | equationClassified (kind : EquationKind) (name : String) (dependencies : List String)
  | modelCompiled (variableCount helperCount aliasCount : Nat)
  | stepBegun (time dt : Float)
  | helperEvaluated (name : String) (value : Float)
  | valueMissing (name : String)

/-- The content of a field of an event. -/
inductive Field
  | text (s : String)
  | count (n : Nat)
  | number (x : Float)

namespace Event

def level : Event → Level
  | stepBegun .. | helperEvaluated .. => .trace
  | valueMissing _ => .warn
  | _ => .debug

/-- The wording of an event. -/
def message : Event → String
  | aliasRecorded .. => "recorded vector alias"
  | vectorExpanded .. => "expanded vector equation"
  | aliasDerivativeExpanded .. => "expanded alias derivative"
  | equationClassified .. => "classified equation"
  | modelCompiled .. => "compiled equation system"
  | stepBegun .. => "step"
  | helperEvaluated .. => "evaluated helper"
  | valueMissing _ => "variable has no value in state, starting from 0"

/-- The fields of an event, by name. -/
def fields : Event → List (String × Field)
  | aliasRecorded name components =>
    [("alias", .text name), ("components", .text (", ".intercalate components))]
  | vectorExpanded equation scalars =>
    [("equation", .text equation), ("expanded", .text (Text.quoteList scalars))]
  | aliasDerivativeExpanded name scalars =>
    [("alias", .text name), ("expanded", .text (Text.quoteList scalars))]
  | equationClassified kind name dependencies =>
    [("kind", .text kind.text), ("name", .text name), ("dependencies", .text (Text.quoteSet dependencies))]
  | modelCompiled variableCount helperCount aliasCount =>
    [("variables", .count variableCount), ("helpers", .count helperCount), ("aliases", .count aliasCount)]
  | stepBegun time dt => [("t", .number time), ("dt", .number dt)]
  | helperEvaluated name value => [("helper", .text name), ("value", .number value)]
  | valueMissing name => [("variable", .text name)]

end Event

end OdeSystem
