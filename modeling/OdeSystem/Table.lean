/-!
Tables from names to values, kept in increasing order of the names. Two tables with the same entries are equal,
so a table is determined by what it holds, whatever the order in which that was put in.
-/

namespace OdeSystem

/-- Puts an entry in its place in an increasing list of entries, instead of one with the same name. -/
def insertEntry {α : Type} (name : String) (value : α) : List (String × α) → List (String × α)
  | [] => [(name, value)]
  | entry :: rest =>
    if name < entry.1 then (name, value) :: entry :: rest
    else if name = entry.1 then (name, value) :: rest
    else entry :: insertEntry name value rest

theorem mem_insertEntry {α : Type} {name : String} {value : α} {entries : List (String × α)} {e : String × α}
    (h : e ∈ insertEntry name value entries) : e = (name, value) ∨ e ∈ entries := by
  induction entries with
  | nil => simpa [insertEntry] using h
  | cons entry rest ih =>
    simp only [insertEntry] at h
    split at h
    · simpa using h
    · split at h
      · rcases List.mem_cons.mp h with h | h
        · exact .inl h
        · exact .inr (List.mem_cons_of_mem _ h)
      · rcases List.mem_cons.mp h with h | h
        · exact .inr (h ▸ List.mem_cons_self ..)
        · exact (ih h).imp id (List.mem_cons_of_mem _)

/-- Whether the names of a list of entries increase. -/
abbrev Increasing {α : Type} (entries : List (String × α)) : Prop := entries.Pairwise fun a b => a.1 < b.1

theorem increasing_insertEntry {α : Type} (name : String) (value : α) {entries : List (String × α)}
    (h : Increasing entries) : Increasing (insertEntry name value entries) := by
  induction entries with
  | nil => simp [insertEntry, Increasing]
  | cons entry rest ih =>
    obtain ⟨hentry, hrest⟩ := List.pairwise_cons.mp h
    simp only [insertEntry]
    split
    · rename_i hlt
      refine List.pairwise_cons.mpr ⟨fun e he => ?_, h⟩
      rcases List.mem_cons.mp he with rfl | he
      · exact hlt
      · exact String.lt_trans hlt (hentry e he)
    · split
      · rename_i heq
        exact List.pairwise_cons.mpr ⟨fun e he => heq ▸ hentry e he, hrest⟩
      · rename_i hlt hne
        refine List.pairwise_cons.mpr ⟨fun e he => ?_, ih hrest⟩
        rcases mem_insertEntry he with rfl | he
        · exact Std.lt_of_le_of_ne (Std.not_lt.mp hlt) (fun h => hne h.symm)
        · exact hentry e he

/-- The value of the entry with a name. -/
def lookupEntry {α : Type} (name : String) : List (String × α) → Option α
  | [] => none
  | entry :: rest => if name = entry.1 then some entry.2 else lookupEntry name rest

/-- A table from names to values. -/
@[ext]
structure Table (α : Type) where
  entries : List (String × α)
  increasing : Increasing entries

namespace Table

variable {α : Type}

def empty : Table α := ⟨[], List.Pairwise.nil⟩

instance : EmptyCollection (Table α) := ⟨empty⟩

instance : Inhabited (Table α) := ⟨empty⟩

/-- The value under a name. -/
def get? (t : Table α) (name : String) : Option α := lookupEntry name t.entries

/-- Whether the table has a value under a name. -/
def contains (t : Table α) (name : String) : Bool := (t.get? name).isSome

/-- The table with a value under a name, instead of any that was there. -/
def insert (t : Table α) (name : String) (value : α) : Table α :=
  ⟨insertEntry name value t.entries, increasing_insertEntry name value t.increasing⟩

/-- The names, in increasing order. -/
def names (t : Table α) : List String := t.entries.map Prod.fst

/-- The values, in the order of their names. -/
def values (t : Table α) : List α := t.entries.map Prod.snd

def size (t : Table α) : Nat := t.entries.length

def isEmpty (t : Table α) : Bool := t.entries.isEmpty

/-- The table with further entries; later ones replace earlier ones of the same name. -/
def insertAll (t : Table α) (entries : List (String × α)) : Table α :=
  entries.foldl (fun t e => t.insert e.1 e.2) t

/-- The table of a list of entries; of several with one name the last counts. -/
def ofList (entries : List (String × α)) : Table α := empty.insertAll entries

/-- The increasing list of the different names in a list. -/
def sortNames (names : List String) : List String := (ofList (names.map fun n => (n, ()))).names

/-! ### Look-ups -/

@[simp] theorem get?_empty (name : String) : (empty : Table α).get? name = none := rfl

theorem lookupEntry_insertEntry (name other : String) (value : α) (entries : List (String × α)) :
    lookupEntry other (insertEntry name value entries) =
      if other = name then some value else lookupEntry other entries := by
  induction entries with
  | nil => rfl
  | cons entry rest ih =>
    simp only [insertEntry]
    split
    · rfl
    · split
      · rename_i heq
        simp only [lookupEntry, ← heq]
        split <;> rfl
      · rename_i hne
        by_cases h : other = entry.1
        · have : other ≠ name := fun h' => hne (h' ▸ h)
          simp only [lookupEntry, h, ↓reduceIte, h ▸ this]
        · simp only [lookupEntry, h, ↓reduceIte, ih]

theorem get?_insert (t : Table α) (name other : String) (value : α) :
    (t.insert name value).get? other = if other = name then some value else t.get? other :=
  lookupEntry_insertEntry ..

@[simp] theorem get?_insert_self (t : Table α) (name : String) (value : α) :
    (t.insert name value).get? name = some value := by
  simp [get?_insert]

theorem get?_insert_of_ne (t : Table α) {name other : String} (value : α) (h : other ≠ name) :
    (t.insert name value).get? other = t.get? other := by
  simp [get?_insert, h]

theorem mem_entries_of_get? {t : Table α} {name : String} {value : α} (h : t.get? name = some value) :
    (name, value) ∈ t.entries := by
  unfold get? at h
  generalize t.entries = entries at h
  induction entries with
  | nil => simp [lookupEntry] at h
  | cons entry rest ih =>
    simp only [lookupEntry] at h
    split at h
    · rename_i heq
      rw [heq, ← Option.some.inj h]
      exact List.mem_cons_self ..
    · exact List.mem_cons_of_mem _ (ih h)

theorem get?_of_mem_entries {t : Table α} {name : String} {value : α} (h : (name, value) ∈ t.entries) :
    t.get? name = some value := by
  obtain ⟨entries, hincreasing⟩ := t
  simp only [get?] at h ⊢
  induction entries with
  | nil => simp at h
  | cons entry rest ih =>
    obtain ⟨hentry, hrest⟩ := List.pairwise_cons.mp hincreasing
    rcases List.mem_cons.mp h with rfl | h
    · simp [lookupEntry]
    · have hne : name ≠ entry.1 := fun heq => String.lt_irrefl _ (heq ▸ hentry _ h)
      simp only [lookupEntry, hne, ↓reduceIte]
      exact ih hrest h

theorem mem_entries {t : Table α} {name : String} {value : α} :
    (name, value) ∈ t.entries ↔ t.get? name = some value :=
  ⟨get?_of_mem_entries, mem_entries_of_get?⟩

theorem mem_names {t : Table α} {name : String} : name ∈ t.names ↔ (t.get? name).isSome := by
  simp only [names, List.mem_map, Option.isSome_iff_exists]
  constructor
  · rintro ⟨⟨n, v⟩, h, rfl⟩
    exact ⟨v, get?_of_mem_entries h⟩
  · rintro ⟨v, h⟩
    exact ⟨(name, v), mem_entries_of_get? h, rfl⟩

theorem increasing_names (t : Table α) : t.names.Pairwise (· < ·) :=
  List.pairwise_map.mpr t.increasing

theorem nodup_names (t : Table α) : t.names.Nodup :=
  t.increasing_names.imp fun {a b} (h : a < b) (heq : a = b) => String.lt_irrefl b (heq ▸ h)

end Table

end OdeSystem
