import OdeSystem.Equation
import OdeSystem.Vector.Expansion

/-!
Models: lists of equations that have been read together. Reading is all or nothing: the first equation that
cannot be read ends it. A model has the derivatives of its state variables, its helpers, and the aliases that its
vector equations have declared; a name may be that of a variable and of a helper at once.
-/

namespace OdeSystem

/-- An equation as a user has written it, perhaps with forms for display. Only the text is read. -/
structure WrittenEquation where
  text : String
  latex : Option String
  asciiMath : Option String
  deriving DecidableEq, Repr

/-- An equation without forms for display. -/
def WrittenEquation.ofText (text : String) : WrittenEquation := ⟨text, none, none⟩

/-- What happens when a name is defined twice in the same kind. -/
inductive Redeclaration
  | overwrite
  | reject
  deriving DecidableEq, Repr

/-- Where an alias is known: behind its declaration, or everywhere. -/
inductive AliasResolution
  | declarationOrder
  | twoPass
  deriving DecidableEq, Repr

/-- How equations are read together. -/
structure Options where
  redeclaration : Redeclaration
  aliasResolution : AliasResolution
  deriving DecidableEq, Repr

def Options.usual : Options := ⟨.overwrite, .declarationOrder⟩

/-- The equations of a model, by what they define. -/
structure Definitions where
  derivatives : Table Equation
  helpers : Table Equation

namespace Definitions

def empty : Definitions := ⟨Table.empty, Table.empty⟩

/-- The equations of a kind. -/
def ofKind (d : Definitions) : EquationKind → Table Equation
  | .derivative => d.derivatives
  | .helper => d.helpers

/-- The definitions with an equation, instead of one of the same kind and name. -/
def insert (d : Definitions) (e : Equation) : Definitions :=
  match e.kind with
  | .derivative => { d with derivatives := d.derivatives.insert e.name e }
  | .helper => { d with helpers := d.helpers.insert e.name e }

/-- Adds an equation that has been read, unless that redefines a name and this is not allowed. -/
def add (redeclaration : Redeclaration) (d : Definitions) (e : Equation) : Except ParseError Definitions :=
  if redeclaration = .reject ∧ (d.ofKind e.kind).contains e.name then .error (.redeclared e.name)
  else .ok (d.insert e)

/-- Reads a scalar equation and adds it. -/
def addText (isFunction : String → Bool) (redeclaration : Redeclaration) (d : Definitions) (scalar : String) :
    Logged ParseError Definitions := do
  let e ← .ofResult (Equation.ofText isFunction scalar)
  Logged.report (.equationClassified e.kind e.name e.dependencies)
  .ofResult (d.add redeclaration e)

end Definitions

/-- Equations that have been read together. -/
structure Model where
  inputs : List WrittenEquation
  definitions : Definitions
  aliases : Vector.Aliases

namespace Model

/-- The equations of a list that are not blank, in canonical notation. -/
def canonicalTexts (inputs : List WrittenEquation) : List String :=
  (inputs.map fun input => Notation.canonicalText input.text.toList).filterMap fun text =>
    if Text.allBlank text then none else some (String.ofList text)

/-- The aliases that are known before the first equation. -/
def initialAliases (resolution : AliasResolution) (texts : List String) : Logged ParseError Vector.Aliases :=
  match resolution with
  | .declarationOrder => pure Table.empty
  | .twoPass => texts.foldlM (fun aliases text => do
      let (_, aliases) ← Vector.register aliases text
      pure aliases) Table.empty

/-- Expands an equation, and reads what it stands for. -/
def addEquation (isFunction : String → Bool) (redeclaration : Redeclaration)
    (sofar : Definitions × Vector.Aliases) (text : String) : Logged ParseError (Definitions × Vector.Aliases) := do
  let (scalars, aliases) ← Vector.expand sofar.2 text
  let definitions ← scalars.foldlM (Definitions.addText isFunction redeclaration) sofar.1
  pure (definitions, aliases)

/-- Reads a list of equations. -/
def compile (isFunction : String → Bool) (options : Options) (inputs : List WrittenEquation) :
    Logged ParseError Model := do
  let texts := canonicalTexts inputs
  let aliases ← initialAliases options.aliasResolution texts
  let (definitions, aliases) ←
    texts.foldlM (addEquation isFunction options.redeclaration) (Definitions.empty, aliases)
  Logged.report (.modelCompiled definitions.derivatives.size definitions.helpers.size aliases.size)
  pure ⟨inputs, definitions, aliases⟩

/-- The derivatives of the state variables, by the names of these. -/
def derivatives (m : Model) : Table Equation := m.definitions.derivatives

def helpers (m : Model) : Table Equation := m.definitions.helpers

/-- The names of the state variables, in increasing order. -/
def variableNames (m : Model) : List String := m.derivatives.names

/-- A model as listings show it: its variables, its helpers and its aliases, as far as there are any. -/
def listing (colored : Bool) (m : Model) : String :=
  let heading (title : String) := Text.Ink.boldCyan.paint colored title ++ "\n"
  let lines (t : Table Equation) := t.values.map fun e => "    " ++ e.listing colored ++ "\n"
  let aliasLines := m.aliases.entries.map fun (name, components) =>
    "    " ++ Text.Ink.yellow.paint colored name ++ " = ((" ++ ", ".intercalate components ++ "))\n"
  String.join
    ([heading "Variables"] ++ lines m.derivatives ++
      (if m.helpers.isEmpty then [] else heading "Helpers" :: lines m.helpers) ++
      (if m.aliases.isEmpty then [] else heading "Aliases" :: aliasLines))

end Model

end OdeSystem
