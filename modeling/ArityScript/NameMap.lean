/-!
# Finite maps from names

Frames and bound arguments are finite maps from names.  The entries are kept
in the order of their names, each name once, so that two maps with the same
content are equal and a listing needs no sorting.
-/

namespace ArityScript

/-- A finite map from names, kept in the order of the names. -/
structure NameMap (α : Type) where
  entries : List (String × α)
  sorted : entries.Pairwise (fun a b => a.1 < b.1)

namespace NameMap

variable {α : Type}

def empty : NameMap α :=
  ⟨[], List.Pairwise.nil⟩

instance : Inhabited (NameMap α) := ⟨empty⟩

instance : EmptyCollection (NameMap α) := ⟨empty⟩

def insertEntry (name : String) (value : α) :
    List (String × α) → List (String × α)
  | [] => [(name, value)]
  | (key, old) :: rest =>
      if name < key then (name, value) :: (key, old) :: rest
      else if name = key then (name, value) :: rest
      else (key, old) :: insertEntry name value rest

theorem mem_insertEntry {name : String} {value : α} {entry : String × α}
    {entries : List (String × α)}
    (hmem : entry ∈ insertEntry name value entries) :
    entry = (name, value) ∨ entry ∈ entries := by
  induction entries with
  | nil => simpa [insertEntry] using hmem
  | cons head rest ih =>
      obtain ⟨key, old⟩ := head
      simp only [insertEntry] at hmem
      split at hmem
      · simpa using hmem
      · split at hmem
        · rcases List.mem_cons.1 hmem with h | h
          · exact Or.inl h
          · exact Or.inr (List.mem_cons_of_mem _ h)
        · rcases List.mem_cons.1 hmem with h | h
          · exact Or.inr (h ▸ List.mem_cons_self)
          · exact (ih h).imp id (List.mem_cons_of_mem _)

theorem sorted_insertEntry (name : String) (value : α)
    {entries : List (String × α)}
    (hsorted : entries.Pairwise (fun a b => a.1 < b.1)) :
    (insertEntry name value entries).Pairwise (fun a b => a.1 < b.1) := by
  induction entries with
  | nil => simp [insertEntry]
  | cons head rest ih =>
      obtain ⟨key, old⟩ := head
      obtain ⟨hhead, hrest⟩ := List.pairwise_cons.1 hsorted
      simp only [insertEntry]
      split
      · next hlt =>
          refine List.pairwise_cons.2 ⟨?_, hsorted⟩
          intro entry hentry
          rcases List.mem_cons.1 hentry with h | h
          · exact h ▸ hlt
          · exact String.lt_trans hlt (hhead entry h)
      · next hnlt =>
          split
          · next heq =>
              subst heq
              exact List.pairwise_cons.2 ⟨hhead, hrest⟩
          · next hne =>
              refine List.pairwise_cons.2 ⟨?_, ih hrest⟩
              intro entry hentry
              rcases mem_insertEntry hentry with h | h
              · subst h
                exact Classical.byContradiction fun hkey =>
                  hne (String.le_antisymm (String.not_lt.1 hkey) (String.not_lt.1 hnlt))
              · exact hhead entry h

def find? (map : NameMap α) (name : String) : Option α :=
  map.entries.lookup name

def insert (map : NameMap α) (name : String) (value : α) : NameMap α :=
  ⟨insertEntry name value map.entries, sorted_insertEntry name value map.sorted⟩

def erase (map : NameMap α) (name : String) : NameMap α :=
  ⟨map.entries.filter (fun entry => entry.1 ≠ name), map.sorted.filter _⟩

def size (map : NameMap α) : Nat :=
  map.entries.length

/-- The first map with the entries of the second one written over it. -/
def override (lower upper : NameMap α) : NameMap α :=
  upper.entries.foldl (fun map entry => map.insert entry.1 entry.2) lower

@[simp] theorem find?_empty (name : String) :
    (empty : NameMap α).find? name = none := rfl

theorem lookup_cons_eq (name key : String) (value : α) (rest : List (String × α)) :
    ((key, value) :: rest).lookup name = if key = name then some value else rest.lookup name := by
  by_cases hname : key = name
  · rw [hname, List.lookup_cons_self, if_pos rfl]
  · have hne : (name == key) = false := by simpa using Ne.symm hname
    rw [List.lookup_cons, hne, if_neg hname]

theorem lookup_insertEntry (name other : String) (value : α)
    (entries : List (String × α)) :
    (insertEntry name value entries).lookup other =
      if name = other then some value else entries.lookup other := by
  induction entries with
  | nil => rw [insertEntry, lookup_cons_eq]
  | cons head rest ih =>
      obtain ⟨key, old⟩ := head
      simp only [insertEntry]
      split
      · rw [lookup_cons_eq]
      · split
        · next heq =>
            subst heq
            simp only [lookup_cons_eq]
            split <;> rfl
        · next hne =>
            simp only [lookup_cons_eq, ih]
            split
            · next hkey =>
                have hother : name ≠ other := fun h => hne (h.trans hkey.symm)
                rw [if_neg hother]
            · rfl

@[simp] theorem find?_insert (map : NameMap α) (name other : String) (value : α) :
    (map.insert name value).find? other =
      if name = other then some value else map.find? other :=
  lookup_insertEntry name other value map.entries

end NameMap

end ArityScript
