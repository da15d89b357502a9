import OdeSystem.Notation.Derivative
import OdeSystem.Notation.Sides
import OdeSystem.Table
import OdeSystem.Vector.Literal

/-!
Vector aliases: names for lists of components. An equation `name = ((…))` declares one, and an equation between
`d name/dt` and a vector, on either side, is about the components of one.
-/

namespace OdeSystem.Vector

open Notation Text

/-- The components of each alias. -/
abbrev Aliases := Table (List String)

/-- The alias that pieces declare, with its components: a name, a sign of equality, and one literal with only
blanks around it. -/
def declaration? (pieces : List Piece) : Option (String × List String) :=
  let before := (pieces.takeWhile (·.literal?.isNone)).filterMap Piece.char?
  match pieces.dropWhile (·.literal?.isNone) with
  | .literal l :: after =>
    match splitEquation before with
    | some (left, between) =>
      let name := trim left
      if isName name ∧ allBlank between ∧ (literals after).isEmpty ∧ allBlank (after.flatMap Piece.text) then
        some (String.ofList name, l.components.map fun c => String.ofList (strip c))
      else none
    | none => none
  | _ => none

/-- Whether a text is a vector, or begins with one and ends with one of the same brackets. -/
def isVector (text : List Char) : Bool :=
  ((['(', '('].isPrefixOf text && [')', ')'].isSuffixOf text) ||
    (['[', '['].isPrefixOf text && [']', ']'].isSuffixOf text)) && hasLiteral text

/-- The alias whose derivative one side is, when the other side is a vector. -/
def derivativeAndVector? (derivative vector : List Char) : Option (List Char × List Char) :=
  match spacedDerivativeOf? derivative with
  | some name => if isVector vector then some (name, vector) else none
  | none => none

/-- The alias whose derivative an equation gives, and the vector it gives for it. -/
def aliasDerivative? (text : List Char) : Option (List Char × List Char) :=
  match splitEquation text with
  | some (left, right) =>
    (derivativeAndVector? (trim left) (trim right)).or (derivativeAndVector? (trim right) (trim left))
  | none => none

/-! ### What is about an alias -/

section
variable {derivative text name vector found : List Char}

theorem derivativeAndVector?_eq_some_iff : derivativeAndVector? derivative vector = some (name, found) ↔
    spacedDerivativeOf? derivative = some name ∧ isVector vector = true ∧ vector = found := by
  rw [derivativeAndVector?]
  cases spacedDerivativeOf? derivative with
  | none => simp
  | some other => cases isVector vector <;> simp

/-- An equation about an alias has its derivative on one side and the vector on the other. -/
theorem aliasDerivative?_eq_some (h : aliasDerivative? text = some (name, vector)) :
    isVector vector = true ∧ ∃ left right, splitEquation text = some (left, right) ∧
      (spacedDerivativeOf? (trim left) = some name ∧ vector = trim right ∨
        spacedDerivativeOf? (trim right) = some name ∧ vector = trim left) := by
  unfold aliasDerivative? at h
  split at h
  · rename_i left right hsplit
    rcases Option.or_eq_some_iff.mp h with h | ⟨-, h⟩
    · obtain ⟨hname, hvector, rfl⟩ := derivativeAndVector?_eq_some_iff.mp h
      exact ⟨hvector, left, right, hsplit, .inl ⟨hname, rfl⟩⟩
    · obtain ⟨hname, hvector, rfl⟩ := derivativeAndVector?_eq_some_iff.mp h
      exact ⟨hvector, left, right, hsplit, .inr ⟨hname, rfl⟩⟩
  · cases h

/-- The vector is shorter than the equation. -/
theorem length_lt_of_aliasDerivative? (h : aliasDerivative? text = some (name, vector)) :
    vector.length < text.length := by
  have hblanks (text : List Char) : (trimLeft text).length ≤ text.length := (List.dropWhile_suffix _).length_le
  have htrim (text : List Char) : (trim text).length ≤ text.length := by
    rw [trim, List.length_reverse]
    exact Nat.le_trans (hblanks _) (by simpa using hblanks text)
  obtain ⟨-, left, right, hsplit, hsides⟩ := aliasDerivative?_eq_some h
  have hlength : text.length = left.length + (right.length + 1) := by
    rw [(splitEquation_eq_some_iff.mp hsplit).1, List.length_append, List.length_cons]
  have hleft := htrim left
  have hright := htrim right
  rcases hsides with ⟨-, rfl⟩ | ⟨-, rfl⟩
  · omega
  · omega

end

end OdeSystem.Vector
