import OdeSystem.Text.Visible

/-!
Quoted text, as events and messages show it: between double quotes, with a backslash before a quote and a
backslash, short escapes for the common controls, and the code point in braces for whatever does not show.
-/

namespace OdeSystem.Text

/-- The lower-case hexadecimal digits of a number. -/
def hexDigits (n : Nat) : List Char := Nat.toDigits 16 n

/-- A character as it stands inside quotes. -/
def quoteChar (c : Char) : List Char :=
  if c = '"' then ['\\', '"']
  else if c = '\\' then ['\\', '\\']
  else if c = '\t' then ['\\', 't']
  else if c = '\n' then ['\\', 'n']
  else if c = '\r' then ['\\', 'r']
  else if c = '\x00' then ['\\', '0']
  else if isVisible c then [c]
  else ['\\', 'u', '\x7b'] ++ hexDigits c.toNat ++ ['\x7d']

/-- A text between quotes. -/
def quote (s : String) : String := String.ofList ('"' :: s.toList.flatMap quoteChar ++ ['"'])

/-- Quoted texts in brackets, separated by commas. -/
def quoteList (texts : List String) : String := "[" ++ ", ".intercalate (texts.map quote) ++ "]"

/-- Quoted texts in braces, separated by commas. -/
def quoteSet (texts : List String) : String := "\x7b" ++ ", ".intercalate (texts.map quote) ++ "\x7d"

theorem quoteChar_of_isVisible {c : Char} (h : isVisible c = true) (hquote : c ≠ '"') (hslash : c ≠ '\\') :
    quoteChar c = [c] := by
  have hne : ∀ d : Char, isVisible d = false → c ≠ d := fun d hd heq => by simp [heq, hd] at h
  simp [quoteChar, hquote, hslash, hne '\t' rfl, hne '\n' rfl, hne '\r' rfl, hne '\x00' rfl, h]

end OdeSystem.Text
