import Mathlib.Data.List.Sort
import OdeSystem.Table

/-!
Tables as finite maps. A table is determined by its look-ups, and its names by which there are; putting in entries
of different names, the order does not matter.
-/

namespace OdeSystem.Table

variable {α : Type}

/-- Two tables with the same names list them alike, for both do so in increasing order. -/
theorem names_eq_of_mem {β : Type} {t : Table α} {u : Table β} (h : ∀ name, name ∈ t.names ↔ name ∈ u.names) :
    t.names = u.names :=
  ((List.perm_ext_iff_of_nodup t.nodup_names u.nodup_names).mpr h).eq_of_pairwise
    (fun _ _ _ _ hab hba => absurd (String.lt_trans hab hba) (String.lt_irrefl _)) t.increasing_names
    u.increasing_names

theorem ext_get? {t u : Table α} (h : ∀ name, t.get? name = u.get? name) : t = u := by
  have nodup (t : Table α) : t.entries.Nodup := List.Nodup.of_map Prod.fst t.nodup_names
  have hmem : ∀ entry, entry ∈ t.entries ↔ entry ∈ u.entries := fun ⟨name, value⟩ => by
    rw [mem_entries, mem_entries, h name]
  refine Table.ext (((List.perm_ext_iff_of_nodup (nodup t) (nodup u)).mpr hmem).eq_of_pairwise ?_
    t.increasing u.increasing)
  intro a b _ _ hab hba
  exact absurd (String.lt_trans hab hba) (String.lt_irrefl _)

theorem insert_eq_self {t : Table α} {name : String} {value : α} (h : t.get? name = some value) :
    t.insert name value = t := by
  refine ext_get? fun other => ?_
  rw [get?_insert]
  split
  · rename_i heq
    rw [heq, h]
  · rfl

theorem insert_comm (t : Table α) {name other : String} (h : name ≠ other) (value value' : α) :
    (t.insert name value).insert other value' = (t.insert other value').insert name value := by
  refine ext_get? fun third => ?_
  simp only [get?_insert]
  by_cases h₁ : third = name
  · have h₂ : third ≠ other := h₁ ▸ h
    simp [h₁, h₁ ▸ h₂]
  · simp [h₁]

theorem insertAll_cons (t : Table α) (entry : String × α) (entries : List (String × α)) :
    t.insertAll (entry :: entries) = (t.insert entry.1 entry.2).insertAll entries := rfl

/-- Of what a table holds after further entries, the last of them under a name counts. -/
theorem get?_insertAll (t : Table α) (entries : List (String × α)) (name : String) :
    (t.insertAll entries).get? name = ((ofList entries).get? name).or (t.get? name) := by
  induction entries generalizing t with
  | nil => rfl
  | cons entry rest ih =>
    rw [ofList, insertAll_cons, insertAll_cons, ih, ih (empty.insert _ _), Option.or_assoc, get?_insert, get?_insert]
    split <;> rfl

theorem get?_ofList_cons (entry : String × α) (rest : List (String × α)) (name : String) :
    (ofList (entry :: rest)).get? name =
      ((ofList rest).get? name).or (if name = entry.1 then some entry.2 else none) := by
  rw [ofList, insertAll_cons, get?_insertAll, get?_insert, get?_empty]

theorem mem_of_get?_ofList {entries : List (String × α)} {name : String} {value : α}
    (h : (ofList entries).get? name = some value) : (name, value) ∈ entries := by
  induction entries with
  | nil => cases h
  | cons entry rest ih =>
    rw [get?_ofList_cons, Option.or_eq_some_iff] at h
    rcases h with h | ⟨-, h⟩
    · exact List.mem_cons_of_mem _ (ih h)
    · split at h
      · rename_i heq
        cases h
        exact heq ▸ List.mem_cons_self ..
      · cases h

theorem mem_names_ofList {entries : List (String × α)} {name : String} :
    name ∈ (ofList entries).names ↔ name ∈ entries.map Prod.fst := by
  rw [mem_names]
  induction entries with
  | nil => constructor <;> intro h <;> cases h
  | cons entry rest ih =>
    rw [get?_ofList_cons, Option.isSome_or, Bool.or_eq_true, ih, List.map_cons, List.mem_cons, or_comm]
    split <;> simp [*]

theorem insertAll_ofList_self (entries : List (String × α)) : (ofList entries).insertAll entries = ofList entries :=
  ext_get? fun name => by rw [get?_insertAll, Option.or_self]

/-- An entry whose name does not come again is there in the end. -/
theorem get?_insertAll_of_mem {t : Table α} {entries : List (String × α)} (once : (entries.map Prod.fst).Nodup)
    {name : String} {value : α} (h : (name, value) ∈ entries) : (t.insertAll entries).get? name = some value := by
  have keep {t : Table α} {entries : List (String × α)} (hname : name ∉ entries.map Prod.fst) :
      (t.insertAll entries).get? name = t.get? name := by
    induction entries generalizing t with
    | nil => rfl
    | cons entry rest ih =>
      rw [List.map_cons, List.mem_cons, not_or] at hname
      rw [insertAll_cons, ih hname.2, get?_insert_of_ne _ _ hname.1]
  induction entries generalizing t with
  | nil => cases h
  | cons entry rest ih =>
    rw [List.map_cons, List.nodup_cons] at once
    rw [insertAll_cons]
    rcases List.mem_cons.mp h with rfl | h
    · rw [keep once.1, get?_insert_self]
    · exact ih once.2 h

theorem ofList_entries (t : Table α) : ofList t.entries = t := by
  refine ext_get? fun name => Option.ext fun value => ⟨fun h => ?_, fun h => ?_⟩
  · exact get?_of_mem_entries (mem_of_get?_ofList h)
  · exact get?_insertAll_of_mem t.nodup_names (mem_entries_of_get? h)

/-- Increasing entries are the entries of their table. -/
theorem entries_ofList {entries : List (String × α)} (h : Increasing entries) : (ofList entries).entries = entries :=
  congrArg Table.entries (ofList_entries ⟨entries, h⟩)

/-- A table under the names of another one. -/
theorem names_ofList_of_map_fst {β : Type} {entries : List (String × α)} {t : Table β}
    (h : entries.map Prod.fst = t.names) : (ofList entries).names = t.names :=
  names_eq_of_mem fun name => by rw [mem_names_ofList, h]

/-- The table with a value for each name of another one holds the values in the order of the names. -/
theorem entries_ofList_zip {β : Type} {t : Table β} {values : List α} (h : values.length = t.names.length) :
    (ofList (t.names.zip values)).entries = t.names.zip values := by
  refine entries_ofList (List.pairwise_map.mp (?_ : ((t.names.zip values).map Prod.fst).Pairwise (· < ·)))
  rw [List.map_fst_zip h.ge]
  exact t.increasing_names

/-- Such a table has under each name the value at the place of the name. -/
theorem get?_ofList_zip {β : Type} {t : Table β} {values : List α} (h : values.length = t.names.length) {place : Nat}
    {name : String} (hplace : t.names[place]? = some name) :
    (ofList (t.names.zip values)).get? name = values[place]? := by
  obtain ⟨hlt, -⟩ := List.getElem?_eq_some_iff.mp hplace
  have hvalue : values[place]? = some values[place] := List.getElem?_eq_getElem (h ▸ hlt)
  rw [hvalue]
  refine get?_of_mem_entries ?_
  rw [entries_ofList_zip h]
  exact List.mem_of_getElem? (List.getElem?_zip_eq_some.mpr ⟨hplace, hvalue⟩)

/-- The names of a table look up its values. -/
theorem map_get?_names (t : Table α) : t.names.map t.get? = t.values.map some := by
  rw [names, values, List.map_map, List.map_map]
  exact List.map_congr_left fun _ h => get?_of_mem_entries h

/-- Entries of different names can be put in in any order. -/
theorem insertAll_perm {t : Table α} {entries entries' : List (String × α)} (perm : entries.Perm entries')
    (once : (entries.map Prod.fst).Nodup) : t.insertAll entries = t.insertAll entries' := by
  refine perm.foldl_eq' (fun x hx y hy u => ?_) t
  by_cases heq : x = y
  · rw [heq]
  · exact insert_comm _ (fun hname => heq (List.inj_on_of_nodup_map once hx hy hname)) _ _

end OdeSystem.Table
