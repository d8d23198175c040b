import TypedComponent.Text.Basic

/-!
Registries hold values by name in the order in which the names were first
inserted. Inserting a name again replaces its value and keeps its place.
-/

namespace TypedComponent

structure Registry (α : Type) where
  entries : List (Text × α)
deriving DecidableEq, Repr

namespace Registry

variable {α : Type}

def empty : Registry α := ⟨[]⟩

/-- Entries with a value added: in its place if the name is known, else last. -/
def insertEntry (name : Text) (value : α) : List (Text × α) → List (Text × α)
  | [] => [(name, value)]
  | (known, old) :: rest =>
    if known = name then (name, value) :: rest else (known, old) :: insertEntry name value rest

def insert (registry : Registry α) (name : Text) (value : α) : Registry α :=
  ⟨insertEntry name value registry.entries⟩

def ofList (entries : List (Text × α)) : Registry α :=
  entries.foldl (fun registry entry => registry.insert entry.1 entry.2) empty

/-- The names in order. -/
def names (registry : Registry α) : List Text := registry.entries.map Prod.fst

/-- The value under a name. -/
def find? (registry : Registry α) (name : Text) : Option α :=
  (registry.entries.find? (·.1 = name)).map Prod.snd

@[simp] theorem entries_empty : (empty : Registry α).entries = [] := rfl

theorem map_fst_insertEntry (name : Text) (value : α) (entries : List (Text × α)) :
    (insertEntry name value entries).map Prod.fst =
      if name ∈ entries.map Prod.fst then entries.map Prod.fst
      else entries.map Prod.fst ++ [name] := by
  induction entries with
  | nil => simp [insertEntry]
  | cons entry rest ih =>
    obtain ⟨known, old⟩ := entry
    by_cases h : known = name
    · simp [insertEntry, h]
    · have h' : name ≠ known := fun e => h e.symm
      by_cases hm : name ∈ rest.map Prod.fst
      · rw [if_pos hm] at ih
        simp [insertEntry, h, ih, hm]
      · rw [if_neg hm] at ih
        simp [insertEntry, h, h', ih, hm]

/-- A known name keeps its place and a new one comes last. -/
theorem names_insert (registry : Registry α) (name : Text) (value : α) :
    (registry.insert name value).names =
      if name ∈ registry.names then registry.names else registry.names ++ [name] :=
  map_fst_insertEntry name value registry.entries

/-- The value inserted last under a name is the one that is found. -/
theorem find?_insert_self (registry : Registry α) (name : Text) (value : α) :
    (registry.insert name value).find? name = some value := by
  obtain ⟨entries⟩ := registry
  simp only [find?, insert]
  induction entries with
  | nil => simp [insertEntry]
  | cons entry rest ih =>
    obtain ⟨known, old⟩ := entry
    by_cases h : known = name
    · simp [insertEntry, h]
    · simpa [insertEntry, h] using ih

/-- Other names are left alone. -/
theorem find?_insert_ne (registry : Registry α) {name other : Text} (value : α)
    (h : other ≠ name) : (registry.insert name value).find? other = registry.find? other := by
  obtain ⟨entries⟩ := registry
  have h' : name ≠ other := fun e => h e.symm
  simp only [find?, insert]
  induction entries with
  | nil => simp [insertEntry, h']
  | cons entry rest ih =>
    obtain ⟨known, old⟩ := entry
    by_cases hk : known = name
    · subst hk
      simp [insertEntry, h']
    · by_cases ho : known = other
      · subst ho
        simp [insertEntry, hk]
      · simpa [insertEntry, hk, ho] using ih

end Registry

end TypedComponent
