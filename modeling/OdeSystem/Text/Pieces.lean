/-!
Cutting a text into pieces from left to right. At the first character of a piece a rule sees what it has
remembered of the text so far, the character and the rest, and says what the piece is, how many characters of
the rest belong to it, and what to remember from there. Lexers, searches and replacements are rules of this kind.
-/

namespace OdeSystem.Text

/-- One piece of a text: its value, the number of characters after the first that belong to it, and what
is remembered at its end. -/
structure Cut (σ β : Type) where
  value : β
  extra : Nat
  memory : σ

/-- The pieces of a text, the first `skip` characters left out as belonging to an earlier piece. -/
def piecesFrom {σ β : Type} (rule : σ → Char → List Char → Cut σ β) : σ → Nat → List Char → List β
  | _, _, [] => []
  | memory, skip + 1, _ :: rest => piecesFrom rule memory skip rest
  | memory, 0, c :: rest =>
    let cut := rule memory c rest
    cut.value :: piecesFrom rule cut.memory cut.extra rest

/-- The pieces of a text. -/
def pieces {σ β : Type} (rule : σ → Char → List Char → Cut σ β) (memory : σ) (text : List Char) : List β :=
  piecesFrom rule memory 0 text

variable {σ β : Type} {rule : σ → Char → List Char → Cut σ β}

theorem piecesFrom_eq_pieces_drop (memory : σ) (skip : Nat) (text : List Char) :
    piecesFrom rule memory skip text = pieces rule memory (text.drop skip) := by
  induction text generalizing skip with
  | nil => cases skip <;> rfl
  | cons c rest ih =>
    cases skip with
    | zero => rfl
    | succ n => exact ih n

@[simp] theorem pieces_nil (memory : σ) : pieces rule memory [] = [] := rfl

/-- The first piece, and the pieces of what follows it. -/
theorem pieces_cons (memory : σ) (c : Char) (rest : List Char) :
    pieces rule memory (c :: rest) = (rule memory c rest).value ::
      pieces rule (rule memory c rest).memory (rest.drop (rule memory c rest).extra) := by
  rw [← piecesFrom_eq_pieces_drop]
  rfl

/-- A property of the pieces follows from their order: it is enough to show it at a text from what follows
the first piece. -/
theorem pieces_induction {motive : σ → List Char → Prop} (nil : ∀ memory, motive memory [])
    (cons : ∀ memory c rest,
      motive (rule memory c rest).memory (rest.drop (rule memory c rest).extra) → motive memory (c :: rest))
    (memory : σ) (text : List Char) : motive memory text := by
  induction hn : text.length using Nat.strongRecOn generalizing memory text with
  | ind n ih =>
    cases text with
    | nil => exact nil memory
    | cons c rest =>
      refine cons memory c rest (ih _ ?_ _ _ rfl)
      simp only [List.length_drop, List.length_cons] at hn ⊢
      omega

/-- A search for something to replace: what is found at the front of a text, given the character before it,
is replaced, and its length is given less one. -/
abbrev Finder := Option Char → Char → List Char → Option (List Char × Nat)

/-- Replaces everything a finder finds, from left to right and without overlap. The character before a find
is the one of the text as it was. -/
def replaceAll (find : Finder) (text : List Char) : List Char :=
  (pieces (fun before c rest =>
    match find before c rest with
    | some (replacement, extra) => ⟨replacement, extra, ((c :: rest).take (extra + 1)).getLast?⟩
    | none => ⟨[c], 0, some c⟩) none text).flatten

/-- The number of bytes of a text in UTF-8. -/
def byteLength (text : List Char) : Nat := text.foldr (fun c bytes => c.utf8Size + bytes) 0

@[simp] theorem byteLength_append (xs ys : List Char) : byteLength (xs ++ ys) = byteLength xs + byteLength ys := by
  induction xs with
  | nil => simp [byteLength]
  | cons c xs ih => simp_all [byteLength, Nat.add_assoc]

/-- The text cut after so many bytes, if a character ends there. -/
def cutAfter? : Nat → List Char → Option (List Char × List Char)
  | 0, text => some ([], text)
  | _ + 1, [] => none
  | n + 1, c :: rest =>
    if c.utf8Size ≤ n + 1 then (cutAfter? (n + 1 - c.utf8Size) rest).map fun (front, back) => (c :: front, back)
    else none

/-- The part of a text between two places, counted in bytes, if the first does not come after the last and both
lie in the text and between characters. -/
def slice? (first last : Nat) (text : List Char) : Option (List Char) :=
  if last < first then none
  else do
    let (front, _) ← cutAfter? last text
    let (_, part) ← cutAfter? first front
    some part

/-- A cut falls behind its first part. -/
theorem cutAfter?_eq_some {n : Nat} {text front back : List Char} (h : cutAfter? n text = some (front, back)) :
    front ++ back = text ∧ byteLength front = n := by
  induction text generalizing n front with
  | nil => cases n <;> simp_all [cutAfter?, byteLength]
  | cons c rest ih =>
    cases n with
    | zero => simp_all [cutAfter?, byteLength]
    | succ n =>
      simp only [cutAfter?] at h
      split at h
      · obtain ⟨⟨inner, behind⟩, hcut, heq⟩ := Option.map_eq_some_iff.mp h
        obtain ⟨rfl, rfl⟩ := Prod.mk.inj heq
        obtain ⟨happ, hlen⟩ := ih hcut
        refine ⟨by simp [happ], ?_⟩
        simp only [byteLength, List.foldr_cons] at hlen ⊢
        omega
      · cases h

end OdeSystem.Text
