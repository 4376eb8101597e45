import ArityScript.Proofs.NameMap
import ArityScript.Store
import Mathlib.Data.List.Nodup

/-!
# Listings of what is visible

A name is looked up from the innermost frame outwards, and the first frame that binds
it decides.  A listing goes the other way: from the root inwards, the frames are
written over one another into one table.  A table has its names in no order of its
own, so that a frame may be gone through in any order, and what has been collected
too.  Sorting the pairs by name leaves nothing of either order.
-/

namespace ArityScript

variable {α : Type}

/-! ## Tables -/

/-- The pairs of a table, each name once, in any order. -/
structure Enumerates (table : String → Option α) (pairs : List (String × α)) : Prop where
  nodup : (pairs.map Prod.fst).Nodup
  mem_iff : ∀ {name value}, (name, value) ∈ pairs ↔ table name = some value

/-- A table after pairs have been put into it one after the other. -/
def writeAll (table : String → Option α) (pairs : List (String × α)) : String → Option α :=
  pairs.foldl (fun table pair name => if pair.1 = name then some pair.2 else table name) table

theorem writeAll_of_not_mem {table : String → Option α} {pairs : List (String × α)}
    {name : String} (hname : name ∉ pairs.map Prod.fst) :
    writeAll table pairs name = table name := by
  induction pairs generalizing table with
  | nil => rfl
  | cons pair rest ih =>
      rw [List.map_cons, List.mem_cons, not_or] at hname
      rw [writeAll, List.foldl_cons, ← writeAll, ih hname.2, if_neg (Ne.symm hname.1)]

theorem writeAll_of_mem {table : String → Option α} {pairs : List (String × α)}
    {name : String} {value : α} (hnodup : (pairs.map Prod.fst).Nodup)
    (hmem : (name, value) ∈ pairs) : writeAll table pairs name = some value := by
  induction pairs generalizing table with
  | nil => cases hmem
  | cons pair rest ih =>
      rw [List.map_cons, List.nodup_cons] at hnodup
      rw [writeAll, List.foldl_cons, ← writeAll]
      rcases List.mem_cons.1 hmem with rfl | hrest
      · rw [writeAll_of_not_mem hnodup.1, if_pos rfl]
      · exact ih hnodup.2 hrest

namespace Enumerates

variable {table lower : String → Option α} {pairs others : List (String × α)}

/-- In which order the pairs of a table are put into another one does not matter. -/
theorem writeAll_eq (hpairs : Enumerates table pairs) :
    writeAll lower pairs = fun name => (table name).or (lower name) := by
  funext name
  cases hname : table name with
  | some value => exact writeAll_of_mem hpairs.nodup (hpairs.mem_iff.2 hname)
  | none =>
      apply writeAll_of_not_mem
      intro hmem
      obtain ⟨⟨_, value⟩, hpair, rfl⟩ := List.mem_map.1 hmem
      rw [hpairs.mem_iff.1 hpair] at hname
      cases hname

theorem perm (hpairs : Enumerates table pairs) (hothers : Enumerates table others) :
    pairs.Perm others := by
  have hnodup := List.Nodup.of_map Prod.fst hpairs.nodup
  refine (List.perm_ext_iff_of_nodup hnodup (.of_map Prod.fst hothers.nodup)).2 ?_
  intro pair
  rw [hpairs.mem_iff, hothers.mem_iff]

theorem eq_of_name_eq (hpairs : Enumerates table pairs) {pair other : String × α}
    (hpair : pair ∈ pairs) (hother : other ∈ pairs) (hname : pair.1 = other.1) :
    pair = other := by
  have hvalue := hpairs.mem_iff.1 hpair
  rw [hname, hpairs.mem_iff.1 hother] at hvalue
  exact Prod.ext hname (Option.some.inj hvalue).symm

end Enumerates

def sortByName (pairs : List (String × α)) : List (String × α) :=
  pairs.mergeSort fun a b => a.1 ≤ b.1

theorem sortByName_perm (pairs : List (String × α)) : (sortByName pairs).Perm pairs :=
  List.mergeSort_perm pairs _

theorem pairwise_sortByName (pairs : List (String × α)) :
    (sortByName pairs).Pairwise (fun a b => a.1 ≤ b.1) := by
  have hle : (sortByName pairs).Pairwise fun a b => decide (a.1 ≤ b.1) = true := by
    apply List.pairwise_mergeSort
    · intro a b c hab hbc
      exact decide_eq_true (String.le_trans (of_decide_eq_true hab) (of_decide_eq_true hbc))
    · intro a b
      simpa using String.le_total a.1 b.1
  exact hle.imp of_decide_eq_true

/-- An enumeration is sorted into the one that is increasing by name. -/
theorem Enumerates.sortByName_eq {table : String → Option α} {pairs others : List (String × α)}
    (hpairs : Enumerates table pairs) (hothers : Enumerates table others)
    (hsorted : others.Pairwise (fun a b => a.1 < b.1)) : sortByName pairs = others := by
  have hperm := (sortByName_perm pairs).trans (hpairs.perm hothers)
  have hle := hsorted.imp fun hlt => String.not_lt.1 (String.lt_asymm hlt)
  refine hperm.eq_of_pairwise ?_ (pairwise_sortByName pairs) hle
  intro a b ha hb hab hba
  exact hothers.eq_of_name_eq (hperm.mem_iff.1 ha) hb (String.le_antisymm hab hba)

theorem NameMap.enumerates_entries (map : NameMap α) : Enumerates map.find? map.entries where
  nodup := (map.sorted.map Prod.fst fun _ _ h => h).imp String.ne_of_lt
  mem_iff := mem_entries_iff

namespace Store

/-! ## Listings -/

/-- The table into which frames are written over one another, the last one first,
each in any order. -/
inductive Overwritten (store : Store) : List FrameId → (String → Option Value) → Prop where
  | nil : Overwritten store [] fun _ => none
  | cons {frame : FrameId} {outer : List FrameId} {table : String → Option Value}
      {pairs : List (String × Value)} :
      Overwritten store outer table → Enumerates (store.bindings frame).find? pairs →
      Overwritten store (frame :: outer) (writeAll table pairs)

/-- A listing of a scope: the frames are written over one another from the root
inwards, and the pairs of the table, in any order, are sorted by name. -/
def Lists (store : Store) (chain : Chain) (listing : List (String × Value)) : Prop :=
  ∃ table pairs, Overwritten store chain.frames table ∧ Enumerates table pairs ∧
    listing = sortByName pairs

theorem lookupIn_cons (store : Store) (name : String) (frame : FrameId)
    (outer : List FrameId) : store.lookupIn name (frame :: outer) =
      ((store.bindings frame).find? name).or (store.lookupIn name outer) := by
  simp only [lookupIn, List.findSome?_cons]
  cases (store.bindings frame).find? name <;> rfl

variable {store : Store}

/-- Frames that are written over one another leave what a lookup finds. -/
theorem Overwritten.eq_lookupIn {frames : List FrameId} {table : String → Option Value}
    (hover : Overwritten store frames table) : table = fun name => store.lookupIn name frames := by
  induction hover with
  | nil => rfl
  | cons _ hpairs ih =>
      rw [hpairs.writeAll_eq, ih]
      exact funext fun name => (lookupIn_cons store name _ _).symm

theorem exists_overwritten (store : Store) (frames : List FrameId) :
    ∃ table, Overwritten store frames table := by
  induction frames with
  | nil => exact ⟨_, .nil⟩
  | cons frame outer ih =>
      obtain ⟨table, hover⟩ := ih
      exact ⟨_, .cons hover (store.bindings frame).enumerates_entries⟩

theorem find?_visible (store : Store) (chain : Chain) (name : String) :
    (store.visible chain).find? name = store.lookup chain name := by
  rw [visible, lookup]
  induction chain.frames with
  | nil => rfl
  | cons frame outer ih =>
      rw [List.foldr_cons, NameMap.find?_override, ih, lookupIn_cons]

/-- Whatever the store and the scope are, the listing of what is visible is strictly
increasing by name, it has the pairs that looking names up finds and no others, and it
does not depend on the order in which any table is gone through. -/
theorem visible_lists_lookup (store : Store) (chain : Chain) :
    (store.visible chain).entries.Pairwise (fun a b => a.1 < b.1) ∧
    (∀ name value, (name, value) ∈ (store.visible chain).entries ↔
      store.lookup chain name = some value) ∧
    ∀ listing, store.Lists chain listing ↔ listing = (store.visible chain).entries := by
  have hfound : (store.visible chain).find? = fun name => store.lookupIn name chain.frames :=
    funext (store.find?_visible chain)
  have hentries := (store.visible chain).enumerates_entries
  refine ⟨(store.visible chain).sorted, ?_, ?_⟩
  · intro name value
    rw [hentries.mem_iff, find?_visible]
  · intro listing
    constructor
    · rintro ⟨table, pairs, hover, hpairs, rfl⟩
      rw [hover.eq_lookupIn, ← hfound] at hpairs
      exact hpairs.sortByName_eq hentries (store.visible chain).sorted
    · rintro rfl
      obtain ⟨table, hover⟩ := store.exists_overwritten chain.frames
      rw [hfound, ← hover.eq_lookupIn] at hentries
      have hsorted := hentries.sortByName_eq hentries (store.visible chain).sorted
      exact ⟨table, _, hover, hentries, hsorted.symm⟩

end Store

end ArityScript
