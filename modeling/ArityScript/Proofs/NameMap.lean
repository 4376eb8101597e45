import ArityScript.NameMap

/-!
# Maps with the same content

The entries of a map are sorted, so that a map is nothing but what it has under
each name.  Of the pairs that are written over a map, the last one for a name stays.
-/

namespace ArityScript.NameMap

variable {α : Type}

theorem lookup_eq_none_of_lt {name : String} {entries : List (String × α)}
    (hlt : ∀ entry ∈ entries, name < entry.1) : entries.lookup name = none := by
  rw [List.lookup_eq_none_iff]
  intro entry hmem
  have hne : name ≠ entry.1 := fun heq => String.lt_irrefl _ (heq ▸ hlt entry hmem)
  simpa using hne

/-- A sorted list of entries starts with the least name that it has. -/
theorem not_lt_of_lookup_eq {name key : String} {value other : α}
    {rest others : List (String × α)}
    (hsorted : ((key, other) :: others).Pairwise (fun a b => a.1 < b.1))
    (hlookup : ∀ wanted, ((name, value) :: rest).lookup wanted =
      ((key, other) :: others).lookup wanted) : ¬name < key := by
  intro hlt
  have hnone : ((key, other) :: others).lookup name = none := by
    refine lookup_eq_none_of_lt fun entry hentry => ?_
    rcases List.mem_cons.1 hentry with rfl | hmem
    · exact hlt
    · exact String.lt_trans hlt ((List.pairwise_cons.1 hsorted).1 entry hmem)
  have hsome := hlookup name
  rw [hnone] at hsome
  simp at hsome

theorem entries_eq_of_lookup_eq {entries others : List (String × α)}
    (hsorted : entries.Pairwise (fun a b => a.1 < b.1))
    (hsortedOthers : others.Pairwise (fun a b => a.1 < b.1))
    (hlookup : ∀ name, entries.lookup name = others.lookup name) :
    entries = others := by
  induction entries generalizing others with
  | nil =>
      cases others with
      | nil => rfl
      | cons entry others =>
          obtain ⟨key, value⟩ := entry
          simpa using hlookup key
  | cons entry entries ih =>
      obtain ⟨key, value⟩ := entry
      cases others with
      | nil => simpa using hlookup key
      | cons other others =>
          obtain ⟨otherKey, otherValue⟩ := other
          obtain rfl : key = otherKey :=
            String.le_antisymm
              (String.not_lt.1 (not_lt_of_lookup_eq hsorted fun name => (hlookup name).symm))
              (String.not_lt.1 (not_lt_of_lookup_eq hsortedOthers hlookup))
          obtain rfl : value = otherValue := by simpa using hlookup key
          obtain ⟨hhead, htail⟩ := List.pairwise_cons.1 hsorted
          obtain ⟨hotherHead, hotherTail⟩ := List.pairwise_cons.1 hsortedOthers
          rw [ih htail hotherTail]
          intro name
          by_cases hname : key = name
          · subst hname
            rw [lookup_eq_none_of_lt hhead, lookup_eq_none_of_lt hotherHead]
          · simpa [lookup_cons_eq, hname] using hlookup name

theorem lookup_eq_some_iff_mem {name : String} {value : α} {entries : List (String × α)}
    (hsorted : entries.Pairwise (fun a b => a.1 < b.1)) :
    entries.lookup name = some value ↔ (name, value) ∈ entries := by
  induction entries with
  | nil => simp
  | cons entry rest ih =>
      obtain ⟨key, other⟩ := entry
      obtain ⟨hhead, hrest⟩ := List.pairwise_cons.1 hsorted
      rw [lookup_cons_eq, List.mem_cons, Prod.mk.injEq]
      by_cases hname : key = name
      · subst hname
        -- A later entry has a greater name.
        have hlater : (key, value) ∉ rest := fun hmem =>
          String.lt_irrefl key (hhead (key, value) hmem)
        simp [hlater, eq_comm]
      · simp [hname, Ne.symm hname, ih hrest]

/-- The entries of a map are what it has under its names. -/
theorem mem_entries_iff {map : NameMap α} {name : String} {value : α} :
    (name, value) ∈ map.entries ↔ map.find? name = some value :=
  (lookup_eq_some_iff_mem map.sorted).symm

/-- A map is determined by what it has under each name. -/
theorem eq_of_find?_eq {map other : NameMap α}
    (hfind : ∀ name, map.find? name = other.find? name) : map = other := by
  obtain ⟨entries, hsorted⟩ := map
  obtain ⟨others, hsortedOthers⟩ := other
  obtain rfl := entries_eq_of_lookup_eq hsorted hsortedOthers hfind
  rfl

/-! ## Writing pairs over a map -/

/-- A map with pairs written over it, the last one for a name being the one that
stays. -/
def insertAll (map : NameMap α) (pairs : List (String × α)) : NameMap α :=
  pairs.foldl (fun map pair => map.insert pair.1 pair.2) map

theorem find?_insertAll (map : NameMap α) (pairs : List (String × α)) (name : String) :
    (map.insertAll pairs).find? name = (pairs.reverse.lookup name).or (map.find? name) := by
  induction pairs generalizing map with
  | nil => simp [insertAll]
  | cons pair rest ih =>
      obtain ⟨key, value⟩ := pair
      have hrest := ih (map.insert key value)
      rw [insertAll, List.foldl_cons, ← insertAll, hrest, List.reverse_cons,
        List.lookup_append, Option.or_assoc, find?_insert]
      by_cases hname : key = name
      · simp [hname]
      · have hne : (name == key) = false := by simpa using Ne.symm hname
        simp [hname, List.lookup_cons, hne]

theorem insertEntry_of_lt {name : String} (value : α) {entries : List (String × α)}
    (hlt : ∀ entry ∈ entries, entry.1 < name) :
    insertEntry name value entries = entries ++ [(name, value)] := by
  induction entries with
  | nil => rfl
  | cons entry rest ih =>
      obtain ⟨hhead, hrest⟩ := List.forall_mem_cons.1 hlt
      have hnlt : ¬ name < entry.1 := fun h => String.lt_irrefl _ (String.lt_trans h hhead)
      have hne : name ≠ entry.1 := fun h => String.lt_irrefl _ (h ▸ hhead)
      rw [insertEntry, if_neg hnlt, if_neg hne, ih hrest, List.cons_append]

theorem insertAll_append {map whole : NameMap α} {rest : List (String × α)}
    (hwhole : whole.entries = map.entries ++ rest) : map.insertAll rest = whole := by
  induction rest generalizing map with
  | nil =>
      obtain ⟨entries, sorted⟩ := whole
      obtain ⟨entries', sorted'⟩ := map
      simp only [List.append_nil] at hwhole
      subst hwhole
      rfl
  | cons entry rest ih =>
      have hsorted := whole.sorted
      rw [hwhole, List.pairwise_append] at hsorted
      have hlt : ∀ other ∈ map.entries, other.1 < entry.1 := fun other hother =>
        hsorted.2.2 other hother entry List.mem_cons_self
      have hinserted : (map.insert entry.1 entry.2).entries = map.entries ++ [entry] :=
        insertEntry_of_lt entry.2 hlt
      rw [insertAll, List.foldl_cons, ← insertAll]
      apply ih
      rw [hinserted, hwhole, List.append_assoc, List.singleton_append]

theorem insertAll_entries (map : NameMap α) : empty.insertAll map.entries = map :=
  insertAll_append rfl

@[simp] theorem find?_override (lower upper : NameMap α) (name : String) :
    (lower.override upper).find? name = (upper.find? name).or (lower.find? name) := by
  have hupper := find?_insertAll empty upper.entries name
  rw [insertAll_entries, find?_empty, Option.or_none] at hupper
  rw [hupper]
  exact find?_insertAll lower upper.entries name

end ArityScript.NameMap
