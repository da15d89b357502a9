/-!
Coloured text for terminals. Colours are written as escape sequences around a text, or not at all.
-/

namespace OdeSystem.Text

/-- How a text stands out. -/
inductive Ink
  | cyan
  | boldCyan
  | green
  | yellow
  | dimmed
  deriving DecidableEq, Repr

/-- The code of an ink in an escape sequence. -/
def Ink.code : Ink → String
  | cyan => "36"
  | boldCyan => "1;36"
  | green => "32"
  | yellow => "33"
  | dimmed => "2"

/-- A text in an ink, where colours are wanted. -/
def Ink.paint (ink : Ink) (colored : Bool) (text : String) : String :=
  if colored then "\x1b[" ++ ink.code ++ "m" ++ text ++ "\x1b[0m" else text

@[simp] theorem Ink.paint_plain (ink : Ink) (text : String) : ink.paint false text = text := rfl

end OdeSystem.Text
