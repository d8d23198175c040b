import Mathlib.Data.List.Induction
import Mathlib.Data.List.Nodup
import TypedComponent.Component.Registry

/-!
Registries that are filled from a list. Their names are those of the list, in
the order in which they first occur, and under each name is the value that the
list has last for it.
-/

namespace TypedComponent.Registry

variable {α : Type}

theorem ofList_concat (entries : List (Text × α)) (entry : Text × α) :
    ofList (entries ++ [entry]) = (ofList entries).insert entry.1 entry.2 :=
  List.foldl_append

theorem names_ofList (entries : List (Text × α)) :
    (ofList entries).names = (entries.map Prod.fst).eraseDups := by
  induction entries using List.reverseRecOn with
  | nil => rfl
  | append_singleton entries entry ih =>
    rw [ofList_concat, names_insert, ih, List.map_append, List.eraseDups_append]
    by_cases hknown : entry.1 ∈ entries.map Prod.fst <;>
      simp [List.removeAll, hknown, List.eraseDups_cons]

theorem nodup_names_insert {registry : Registry α} (h : registry.names.Nodup) (name : Text)
    (value : α) : (registry.insert name value).names.Nodup := by
  rw [names_insert]
  split
  · exact h
  · next hnew => exact h.append (List.nodup_singleton name) (by simpa using hnew)

theorem nodup_names_ofList (entries : List (Text × α)) : (ofList entries).names.Nodup := by
  induction entries using List.reverseRecOn with
  | nil => exact List.nodup_nil
  | append_singleton entries entry ih =>
    rw [ofList_concat]
    exact nodup_names_insert ih entry.1 entry.2

theorem nodup_eraseDups (names : List Text) : names.eraseDups.Nodup := by
  have hnodup := nodup_names_ofList (names.map fun name => (name, ()))
  have hnames : (names.map fun name => (name, ())).map Prod.fst = names := by
    simp [Function.comp_def]
  rwa [names_ofList, hnames] at hnodup

/-- The last value that a list has under a name is the one that is found. -/
theorem find?_ofList_last (entries : List (Text × α)) (name : Text) :
    (ofList entries).find? name =
      (entries.reverse.find? (·.1 = name)).map Prod.snd := by
  induction entries using List.reverseRecOn with
  | nil => rfl
  | append_singleton entries entry ih =>
    rw [ofList_concat, List.reverse_concat, List.find?_cons]
    by_cases hname : entry.1 = name
    · subst hname
      simp [find?_insert_self]
    · rw [find?_insert_ne _ _ (Ne.symm hname), ih]
      simp [hname]

/-- A list has a value under a name, and no other under that name after it. -/
def IsLast (entries : List (Text × α)) (name : Text) (value : α) : Prop :=
  ∃ front rest, entries = front ++ (name, value) :: rest ∧ name ∉ rest.map Prod.fst

theorem isLast_concat {entries : List (Text × α)} {entry : Text × α} {name : Text} {value : α} :
    IsLast (entries ++ [entry]) name value ↔
      if entry.1 = name then entry.2 = value else IsLast entries name value := by
  constructor
  · rintro ⟨front, rest, hsplit, hlast⟩
    rcases List.eq_nil_or_concat rest with rfl | ⟨rest, other, rfl⟩
    · obtain ⟨-, hentry⟩ := List.append_inj' hsplit rfl
      rw [List.cons.inj hentry |>.1, if_pos rfl]
    · rw [List.concat_eq_append] at hsplit hlast
      have hends : entries ++ [entry] = (front ++ (name, value) :: rest) ++ [other] := by
        simpa using hsplit
      obtain ⟨hfront, hentry⟩ := List.append_inj' hends rfl
      rw [List.map_append, List.mem_append, not_or] at hlast
      obtain ⟨hrest, hother⟩ := hlast
      rw [← List.cons.inj hentry |>.1] at hother
      rw [if_neg fun h => hother (by simp [h])]
      exact ⟨front, rest, hfront, hrest⟩
  · intro h
    split at h
    · next hname => exact ⟨entries, [], by rw [← hname, ← h], List.not_mem_nil⟩
    · next hname =>
      obtain ⟨front, rest, rfl, hlast⟩ := h
      refine ⟨front, rest ++ [entry], by simp, ?_⟩
      rw [List.map_append, List.mem_append, not_or]
      exact ⟨hlast, by simpa using fun h => hname h.symm⟩

theorem find?_ofList {entries : List (Text × α)} {name : Text} {value : α} :
    (ofList entries).find? name = some value ↔ IsLast entries name value := by
  induction entries using List.reverseRecOn with
  | nil =>
    constructor
    · intro h
      cases h
    · rintro ⟨front, rest, hsplit, -⟩
      simp at hsplit
  | append_singleton entries entry ih =>
    rw [ofList_concat, isLast_concat]
    split
    · next hname => rw [← hname, find?_insert_self, Option.some.injEq]
    · next hname => rw [find?_insert_ne _ _ (Ne.symm hname), ih]

/-- With each name once, the entries are what can be found. -/
theorem mem_entries {registry : Registry α} (h : registry.names.Nodup) {name : Text} {value : α} :
    (name, value) ∈ registry.entries ↔ registry.find? name = some value := by
  obtain ⟨entries⟩ := registry
  simp only [names, find?] at h ⊢
  induction entries with
  | nil => simp
  | cons entry rest ih =>
    obtain ⟨known, own⟩ := entry
    rw [List.map_cons, List.nodup_cons] at h
    obtain ⟨hnew, hrest⟩ := h
    by_cases hname : known = name
    · subst hname
      have habsent : (known, value) ∉ rest := fun hmem => hnew (List.mem_map.mpr ⟨_, hmem, rfl⟩)
      simp [habsent, eq_comm]
    · have hne : name ≠ known := fun h => hname h.symm
      simpa [hname, hne] using ih hrest

/-- With each name once, the entries are the names with what is found under them. -/
theorem entries_eq {registry : Registry α} (h : registry.names.Nodup) :
    registry.entries =
      registry.names.filterMap fun name => (registry.find? name).map (name, ·) := by
  obtain ⟨entries⟩ := registry
  simp only [names, find?] at h ⊢
  induction entries with
  | nil => rfl
  | cons entry rest ih =>
    rw [List.map_cons, List.nodup_cons] at h
    obtain ⟨hnew, hrest⟩ := h
    rw [List.map_cons, List.filterMap_cons]
    -- the names behind the first are other names, which its entry does not hide
    have hbehind : (rest.map Prod.fst).filterMap (fun name =>
          (((entry :: rest).find? (·.1 = name)).map Prod.snd).map (name, ·)) =
        (rest.map Prod.fst).filterMap fun name =>
          ((rest.find? (·.1 = name)).map Prod.snd).map (name, ·) := by
      apply List.filterMap_congr
      intro name hname
      have hother : entry.1 ≠ name := fun heq => hnew (heq ▸ hname)
      simp [hother]
    rw [hbehind, ← ih hrest]
    simp

theorem mem_entries_ofList {entries : List (Text × α)} {name : Text} {value : α} :
    (name, value) ∈ (ofList entries).entries ↔ IsLast entries name value := by
  rw [mem_entries (nodup_names_ofList entries), find?_ofList]

end TypedComponent.Registry
