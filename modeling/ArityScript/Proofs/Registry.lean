import ArityScript.Proofs.Roots

/-!
# Registries of frames

A root can find the frames that were made on its behalf without keeping them in
use: its registry has a weak reference to each of them.  A frame that nothing
refers to any more is freed, and references to it are dead from then on.  When a
registry has no room for another reference, it drops the dead ones first.

However many frames are made and freed, a registry has one reference to each
frame of its root that is still alive, and none to frames of other roots.  To
empty all that it refers to is therefore the same as to empty the frames that
belong to the root, as far as frames are alive.
-/

namespace ArityScript

/-- Which frames are alive when a number of frames have been made.  What has been
freed stays so. -/
structure Lifetimes where
  alive : (made : Nat) → FrameId → Bool
  of_le : ∀ {earlier later : Nat} {frame : FrameId}, earlier ≤ later →
    alive later frame = true → alive earlier frame = true

/-- Weak references to frames, and the number for which there is room. -/
structure Registry where
  entries : List FrameId
  capacity : Nat

namespace Registry

def kept (alive : FrameId → Bool) (registry : Registry) : List FrameId :=
  if registry.entries.length = registry.capacity then registry.entries.filter alive
  else registry.entries

/-- Adds a reference.  `grow` says how much room there is after a full registry
has been enlarged. -/
def add (grow : Nat → Nat) (alive : FrameId → Bool) (registry : Registry)
    (frame : FrameId) : Registry where
  entries := registry.kept alive ++ [frame]
  capacity :=
    if (registry.kept alive).length = registry.capacity then grow registry.capacity
    else registry.capacity

end Registry

namespace Store

def clear (store : Store) (frame : FrameId) : Store :=
  { store with
    frames := store.frames.modify frame fun content => { content with bindings := .empty } }

/-- The registry of a root when some number of the frames of a store have been
made.  Frames are made in the order of their numbers. -/
def registry (store : Store) (grow : Nat → Nat) (lifetimes : Lifetimes) (root : FrameId) :
    (made : Nat) → Registry
  | 0 => ⟨[], 0⟩
  | made + 1 =>
      if store.root? made = some root then
        (store.registry grow lifetimes root made).add grow (lifetimes.alive made) made
      else store.registry grow lifetimes root made

end Store

def Registry.releaseAll (alive : FrameId → Bool) (registry : Registry) (store : Store) : Store :=
  (registry.entries.filter alive).foldl Store.clear store

namespace Registry

variable {alive : FrameId → Bool} {registry : Registry} {frame : FrameId}

theorem kept_sublist (alive : FrameId → Bool) (registry : Registry) :
    (registry.kept alive).Sublist registry.entries := by
  unfold kept
  split
  · exact List.filter_sublist
  · exact List.Sublist.refl _

theorem mem_kept (hmem : frame ∈ registry.entries) (halive : alive frame = true) :
    frame ∈ registry.kept alive := by
  unfold kept
  split
  · exact List.mem_filter.2 ⟨hmem, halive⟩
  · exact hmem

end Registry

namespace Store

variable {store : Store} {grow : Nat → Nat} {lifetimes : Lifetimes} {root : FrameId}

theorem root?_of_mem_registry {made : Nat} {frame : FrameId}
    (hmem : frame ∈ (store.registry grow lifetimes root made).entries) :
    frame < made ∧ store.root? frame = some root := by
  induction made with
  | zero => contradiction
  | succ made ih =>
      simp only [registry] at hmem
      split at hmem
      · next hroot =>
          rcases List.mem_append.1 hmem with hmem | hmem
          · have hbefore := ih ((Registry.kept_sublist _ _).mem hmem)
            exact ⟨Nat.lt_succ_of_lt hbefore.1, hbefore.2⟩
          · rw [List.mem_singleton.1 hmem]
            exact ⟨Nat.lt_succ_self made, hroot⟩
      · have hbefore := ih hmem
        exact ⟨Nat.lt_succ_of_lt hbefore.1, hbefore.2⟩

theorem nodup_registry (made : Nat) :
    (store.registry grow lifetimes root made).entries.Nodup := by
  induction made with
  | zero => exact List.nodup_nil
  | succ made ih =>
      simp only [registry]
      split
      · have hkept := ih.sublist (Registry.kept_sublist (lifetimes.alive made) _)
        refine List.nodup_append.2 ⟨hkept, by simp, ?_⟩
        rintro frame hframe _ hmem rfl
        -- What has been registered before is older than the new frame.
        have hlt := (root?_of_mem_registry ((Registry.kept_sublist _ _).mem hframe)).1
        rw [List.mem_singleton.1 hmem] at hlt
        exact Nat.lt_irrefl made hlt
      · exact ih

/-- A frame that is alive has not been dropped from the registry of its root. -/
theorem mem_registry {made : Nat} {frame : FrameId} (hlt : frame < made)
    (hroot : store.root? frame = some root) (halive : lifetimes.alive made frame = true) :
    frame ∈ (store.registry grow lifetimes root made).entries := by
  induction made with
  | zero => cases hlt
  | succ made ih =>
      have hbefore : lifetimes.alive made frame = true :=
        lifetimes.of_le (Nat.le_succ made) halive
      simp only [registry]
      by_cases hnew : frame = made
      · subst hnew
        rw [if_pos hroot]
        exact List.mem_append_right _ (List.mem_singleton_self frame)
      · have holder := ih (Nat.lt_of_le_of_ne (Nat.le_of_lt_succ hlt) hnew) hbefore
        split
        · exact List.mem_append_left _ (Registry.mem_kept holder hbefore)
        · exact holder

theorem mem_registry_iff {frame : FrameId}
    (halive : lifetimes.alive store.frames.size frame = true) :
    frame ∈ (store.registry grow lifetimes root store.frames.size).entries ↔
      store.root? frame = some root := by
  constructor
  · exact fun hmem => (root?_of_mem_registry hmem).2
  · exact fun hroot => mem_registry (lt_size_of_root? hroot) hroot halive

/-! ## Emptying what a registry refers to -/

theorem clear_frames (frame other : FrameId) :
    (store.clear frame).frames[other]? =
      if frame = other then store.frames[other]?.map fun content =>
        { content with bindings := .empty }
      else store.frames[other]? := by
  simp only [clear, Array.getElem?_modify]

theorem foldl_clear_frames (frames : List FrameId) (store : Store) (other : FrameId) :
    (frames.foldl clear store).frames[other]? =
      if other ∈ frames then store.frames[other]?.map fun content =>
        { content with bindings := .empty }
      else store.frames[other]? := by
  induction frames generalizing store with
  | nil => simp
  | cons frame rest ih =>
      rw [List.foldl_cons, ih, clear_frames]
      by_cases hrest : other ∈ rest
      · by_cases hfirst : frame = other
        · cases hcontent : store.frames[other]? <;> simp [hrest, hfirst]
        · simp [hrest, hfirst]
      · by_cases hfirst : frame = other
        · simp [hrest, hfirst]
        · simp [hrest, hfirst, Ne.symm hfirst]

theorem release_frames (root frame : FrameId) :
    (store.release root).frames[frame]? =
      if store.root? frame = some root then store.frames[frame]?.map fun content =>
        { content with bindings := .empty }
      else store.frames[frame]? := by
  simp only [release, Array.getElem?_map]
  by_cases hroot : store.root? frame = some root
  · obtain ⟨content, hcontent, hsame⟩ := Option.map_eq_some_iff.1 hroot
    rw [if_pos hroot, hcontent, Option.map_some, Option.map_some, if_pos hsame]
  · rw [if_neg hroot]
    cases hcontent : store.frames[frame]? with
    | none => rfl
    | some content =>
        have hne : content.root ≠ root := by
          intro hsame
          exact hroot (by rw [root?, hcontent, Option.map_some, hsame])
        rw [Option.map_some, if_neg hne]

theorem releaseAll_frames {frame : FrameId}
    (halive : lifetimes.alive store.frames.size frame = true) :
    ((store.registry grow lifetimes root store.frames.size).releaseAll
        (lifetimes.alive store.frames.size) store).frames[frame]? =
      (store.release root).frames[frame]? := by
  have hmem : frame ∈ (store.registry grow lifetimes root store.frames.size).entries.filter
      (lifetimes.alive store.frames.size) ↔ store.root? frame = some root := by
    rw [List.mem_filter, mem_registry_iff halive]
    exact and_iff_left halive
  rw [Registry.releaseAll, foldl_clear_frames, release_frames]
  simp only [hmem]

end Store

end ArityScript
