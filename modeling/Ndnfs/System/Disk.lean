import Ndnfs.Foundation.KeyedTable
import Ndnfs.Ndn.Name

namespace Ndnfs
open Percent

/-- An error number is positive, so its negative reports a failure. -/
structure Errno where
  code : Nat
  positive : 0 < code
  deriving DecidableEq

namespace Errno

def ENOENT : Errno := ⟨2, by decide⟩
def ioError : Errno := ⟨5, by decide⟩
def EACCES : Errno := ⟨13, by decide⟩
def EBUSY : Errno := ⟨16, by decide⟩
def EEXIST : Errno := ⟨17, by decide⟩
def ENOTDIR : Errno := ⟨20, by decide⟩
def EISDIR : Errno := ⟨21, by decide⟩
def EINVAL : Errno := ⟨22, by decide⟩
def ESPIPE : Errno := ⟨29, by decide⟩
def EPERM : Errno := ⟨1, by decide⟩
def ENOTEMPTY : Errno := ⟨39, by decide⟩
def ENAMETOOLONG : Errno := ⟨36, by decide⟩
def ELOOP : Errno := ⟨40, by decide⟩

/-- The operations return the negative error number. -/
def negative (error : Errno) : Int := -error.code

theorem negative_lt (error : Errno) : error.negative < 0 := by
  have positive := error.positive
  unfold negative
  omega

end Errno

/-- An absolute location is the list of the names on the way from the root. -/
abbrev Location := List Bytes

inductive NodeKind where
  | directory
  | regular
  | characterSpecial
  | blockSpecial
  | fifo
  | socket
  deriving DecidableEq

structure Entry where
  kind : NodeKind
  content : Bytes
  deriving DecidableEq

structure Node extends Entry where
  mtime : Int
  deriving DecidableEq

def nodeEntry (nodes : KeyedTable Location Node) (location : Location) : Option Entry :=
  (nodes.lookup location).map Node.toEntry

def IsDirectory (entry : Option Entry) : Prop := entry.map Entry.kind = some .directory

instance (entry : Option Entry) : Decidable (IsDirectory entry) :=
  inferInstanceAs (Decidable (_ = _))

/-- Every object stands in a directory. -/
structure Tree (entry : Location → Option Entry) : Prop where
  root : IsDirectory (entry [])
  parent : ∀ location name, entry (location ++ [name]) ≠ none → IsDirectory (entry location)

/-- The disk is a tree of directories and other objects. -/
structure Disk where
  nodes : KeyedTable Location Node
  tree : Tree (nodeEntry nodes)

namespace Disk

/-- This disk has only its root directory. -/
def bare : Disk where
  nodes := (∅ : KeyedTable Location Node).insert [] ⟨⟨.directory, []⟩, 0⟩
  tree := {
    root := rfl
    parent := by
      intro location name present
      have other : location ++ [name] ≠ [] := by simp
      rw [nodeEntry, KeyedTable.lookup_insert_eq, if_neg other] at present
      exact absurd rfl present }

variable (disk : Disk)

def entry (location : Location) : Option Entry := nodeEntry disk.nodes location

theorem entry_eq (location : Location) : disk.entry location = nodeEntry disk.nodes location := rfl

theorem has_iff_entry (location : Location) :
    disk.nodes.Has location ↔ disk.entry location ≠ none := by
  simp [KeyedTable.Has, entry, nodeEntry]

theorem root_directory : IsDirectory (disk.entry []) := disk.tree.root

theorem parent_directory {location : Location} {name : Bytes}
    (present : disk.entry (location ++ [name]) ≠ none) : IsDirectory (disk.entry location) :=
  disk.tree.parent location name present

/-- No object stands directly in this location. -/
def NoChildren (location : Location) : Prop :=
  ∀ child, disk.nodes.Has child → ¬ (child ≠ [] ∧ child.dropLast = location)

instance (location : Location) : Decidable (disk.NoChildren location) :=
  inferInstanceAs (Decidable (∀ child, disk.nodes.Has child → _))

theorem noChildren_iff {location : Location} :
    disk.NoChildren location ↔ ∀ name, disk.entry (location ++ [name]) = none := by
  simp only [NoChildren, has_iff_entry]
  constructor
  · intro none name
    by_contra present
    exact none _ present ⟨by simp, by simp⟩
  · rintro none child present ⟨nonempty, rfl⟩
    apply present
    have absent := none (child.getLast nonempty)
    rwa [List.dropLast_append_getLast nonempty] at absent

/-- Every location on the way to an object is a directory. -/
theorem ancestor_directory {location rest : Location} (proper : rest ≠ [])
    (present : disk.entry (location ++ rest) ≠ none) : IsDirectory (disk.entry location) := by
  induction rest generalizing location with
  | nil => exact absurd rfl proper
  | cons name rest ih =>
      by_cases last : rest = []
      · subst last
        exact disk.parent_directory present
      · have here : IsDirectory (disk.entry (location ++ [name])) :=
          ih last (by simpa using present)
        have child : disk.entry (location ++ [name]) ≠ none := by
          intro absent
          rw [absent] at here
          cases here
        exact disk.parent_directory child

theorem noChildren_of_not_directory {location : Location}
    (other : ¬ IsDirectory (disk.entry location)) : disk.NoChildren location := by
  rw [noChildren_iff]
  intro name
  by_contra present
  exact other (disk.parent_directory present)

/-- Nothing stands below a location without children. -/
theorem none_below {location rest : Location} (empty : disk.NoChildren location)
    (proper : rest ≠ []) : disk.entry (location ++ rest) = none := by
  obtain ⟨name, rest, rfl⟩ := List.exists_cons_of_ne_nil proper
  have child := (disk.noChildren_iff.mp empty) name
  by_contra present
  by_cases last : rest = []
  · subst last
    exact present child
  · have here : IsDirectory (disk.entry (location ++ [name])) :=
      disk.ancestor_directory last (by simpa using present)
    rw [child] at here
    cases here

/-- A change that keeps the kind of every object keeps the tree. -/
theorem tree_of_kind {first second : Location → Option Entry} (tree : Tree first)
    (same : ∀ location, (second location).map Entry.kind = (first location).map Entry.kind) :
    Tree second where
  root := (same []).trans tree.root
  parent location name present := by
    have before : first (location ++ [name]) ≠ none := by
      intro absent
      have equal := same (location ++ [name])
      rw [absent] at equal
      exact present (Option.map_eq_none_iff.mp equal)
    exact (same location).trans (tree.parent location name before)

/-- The object at the location changes its content and its time. -/
def modify (location : Location) (change : Bytes → Bytes) (now : Int) : Disk where
  nodes := match disk.nodes.lookup location with
    | some node => disk.nodes.insert location ⟨⟨node.kind, change node.content⟩, now⟩
    | none => disk.nodes
  tree := by
    apply tree_of_kind disk.tree
    intro other
    split
    · rename_i node present
      simp only [nodeEntry, KeyedTable.lookup_insert_eq]
      split
      · subst other
        simp [present]
      · rfl
    · rfl

/-- The directory gets the time of a change of its entries. -/
def touch (location : Location) (now : Int) : Disk := disk.modify location id now

theorem entry_modify (location other : Location) (change : Bytes → Bytes) (now : Int) :
    (disk.modify location change now).entry other =
      if other = location then (disk.entry other).map fun entry => ⟨entry.kind, change entry.content⟩
      else disk.entry other := by
  simp only [entry, nodeEntry, modify]
  split
  · rename_i node present
    rw [KeyedTable.lookup_insert_eq]
    split
    · subst other
      simp [present]
    · rfl
  · rename_i absent
    split
    · subst other
      simp [absent]
    · rfl

@[simp] theorem entry_touch (location other : Location) (now : Int) :
    (disk.touch location now).entry other = disk.entry other := by
  rw [touch, entry_modify]
  split
  · cases disk.entry other <;> rfl
  · rfl

/-- A new object can stand here. -/
def Free (location : Location) : Prop :=
  disk.entry location = none ∧ location ≠ [] ∧ IsDirectory (disk.entry location.dropLast)

instance (location : Location) : Decidable (disk.Free location) :=
  inferInstanceAs (Decidable (_ ∧ _ ∧ _))

theorem nodeEntry_insert (nodes : KeyedTable Location Node) (location other : Location) (node : Node) :
    nodeEntry (nodes.insert location node) other =
      if other = location then some node.toEntry else nodeEntry nodes other := by
  simp only [nodeEntry, KeyedTable.lookup_insert_eq]
  split <;> rfl

theorem nodeEntry_erase (nodes : KeyedTable Location Node) (location other : Location) :
    nodeEntry (nodes.erase location) other =
      if other = location then none else nodeEntry nodes other := by
  simp only [nodeEntry, KeyedTable.lookup_erase_eq]
  split <;> rfl

/-- The new object has no content. -/
def create (location : Location) (kind : NodeKind) (now : Int) : Disk :=
  if free : disk.Free location then
    touch ⟨disk.nodes.insert location ⟨⟨kind, []⟩, now⟩, {
      root := by
        rw [nodeEntry_insert, if_neg (Ne.symm free.2.1)]
        exact disk.root_directory
      parent := by
        intro upper name present
        rw [nodeEntry_insert] at present
        have different : IsDirectory (disk.entry upper) → upper ≠ location := by
          rintro here rfl
          rw [free.1] at here
          cases here
        have here : IsDirectory (disk.entry upper) := by
          split at present
          · rename_i same
            have last := free.2.2
            rwa [← same, List.dropLast_concat] at last
          · exact disk.parent_directory present
        rw [nodeEntry_insert, if_neg (different here)]
        exact here }⟩ location.dropLast now
  else disk

theorem entry_create {location : Location} (free : disk.Free location) (kind : NodeKind) (now : Int)
    (other : Location) :
    (disk.create location kind now).entry other =
      if other = location then some ⟨kind, []⟩ else disk.entry other := by
  rw [create, dif_pos free, entry_touch, entry, nodeEntry_insert]
  rfl

/-- An object without children can go. -/
def remove (location : Location) (now : Int) : Disk :=
  if safe : location ≠ [] ∧ disk.NoChildren location then
    touch ⟨disk.nodes.erase location, {
      root := by
        rw [nodeEntry_erase, if_neg (Ne.symm safe.1)]
        exact disk.root_directory
      parent := by
        intro upper name present
        rw [nodeEntry_erase] at present
        split at present
        · exact absurd rfl present
        · have different : upper ≠ location := by
            rintro rfl
            exact present (disk.noChildren_iff.mp safe.2 name)
          rw [nodeEntry_erase, if_neg different]
          exact disk.parent_directory present }⟩ location.dropLast now
  else disk

theorem entry_remove {location : Location} (below : location ≠ []) (empty : disk.NoChildren location)
    (now : Int) (other : Location) :
    (disk.remove location now).entry other =
      if other = location then none else disk.entry other := by
  rw [remove, dif_pos ⟨below, empty⟩, entry_touch, entry, nodeEntry_erase]
  rfl

/-- The object and everything below it get new locations. -/
def moveBelow (source target location : Location) : Location :=
  if source <+: location then target ++ location.drop source.length else location

theorem moveBelow_below (source target rest : Location) :
    moveBelow source target (source ++ rest) = target ++ rest := by
  rw [moveBelow, if_pos (List.prefix_append _ _), List.drop_left]

/-- A rename replaces at most an object without children and never moves below itself. -/
structure MoveSafe (source target : Location) : Prop where
  present : disk.entry source ≠ none
  below : source ≠ []
  outside : ¬ source <+: target
  target_below : target ≠ []
  empty : disk.NoChildren target
  room : IsDirectory (disk.entry target.dropLast)

theorem moveSafe_iff (source target : Location) :
    disk.MoveSafe source target ↔ disk.entry source ≠ none ∧ source ≠ [] ∧ ¬ source <+: target ∧
      target ≠ [] ∧ disk.NoChildren target ∧ IsDirectory (disk.entry target.dropLast) :=
  ⟨fun safe => ⟨safe.present, safe.below, safe.outside, safe.target_below, safe.empty, safe.room⟩,
    fun ⟨present, below, outside, target_below, empty, room⟩ =>
      ⟨present, below, outside, target_below, empty, room⟩⟩

instance (source target : Location) : Decidable (disk.MoveSafe source target) :=
  decidable_of_iff _ (disk.moveSafe_iff source target).symm

def movedNodes (source target : Location) : KeyedTable Location Node :=
  (KeyedTable.rekey (moveBelow source target) (disk.nodes.erase target)).getD disk.nodes

section Move

variable {disk} {source target : Location}

/-- The target of a rename does not lie above its source. -/
theorem MoveSafe.apart (safe : disk.MoveSafe source target) : ¬ target <+: source := by
  rintro ⟨rest, rfl⟩
  by_cases same : rest = []
  · subst rest
    exact safe.outside (by simp)
  · exact safe.present (disk.none_below safe.empty same)

/-- A location cannot lie below the source and below the target. -/
theorem MoveSafe.disjoint (safe : disk.MoveSafe source target) {location : Location}
    (below : source <+: location) : ¬ target <+: location := by
  intro inside
  rcases List.prefix_or_prefix_of_prefix below inside with up | down
  · exact safe.outside up
  · exact safe.apart down

/-- Nothing but the target itself stands at or below the target. -/
theorem MoveSafe.at_target (safe : disk.MoveSafe source target) {location : Location}
    (inside : target <+: location)
    (present : KeyedTable.Has (disk.nodes.erase target) location) : False := by
  obtain ⟨rest, rfl⟩ := inside
  rw [KeyedTable.Has, KeyedTable.lookup_erase_eq] at present
  split at present
  · exact present rfl
  · rename_i different
    have proper : rest ≠ [] := by
      rintro rfl
      exact different (List.append_nil _)
    exact (disk.has_iff_entry _).mp present (disk.none_below safe.empty proper)

/-- No two objects get the same location. -/
theorem MoveSafe.rekey_ne_none (safe : disk.MoveSafe source target) :
    KeyedTable.rekey (moveBelow source target) (disk.nodes.erase target) ≠ none := by
  rw [KeyedTable.rekey_ne_none_iff]
  intro first second here there same
  unfold moveBelow at same
  split at same <;> split at same
  · rename_i inside inside'
    obtain ⟨rest, rfl⟩ := inside
    obtain ⟨rest', rfl⟩ := inside'
    rw [List.drop_left, List.drop_left] at same
    rw [List.append_cancel_left same]
  · exact (safe.at_target ⟨_, same⟩ there).elim
  · exact (safe.at_target ⟨_, same.symm⟩ here).elim
  · exact same

/-- The moved tree has the source's objects below the target and none below the source. -/
theorem MoveSafe.entry (safe : disk.MoveSafe source target) (location : Location) :
    nodeEntry (disk.movedNodes source target) location =
      if target <+: location then disk.entry (source ++ location.drop target.length)
      else if source <+: location then none else disk.entry location := by
  obtain ⟨moved, success⟩ := Option.ne_none_iff_exists'.mp safe.rekey_ne_none
  have nodes : disk.movedNodes source target = moved := by rw [movedNodes, success, Option.getD_some]
  have origin (node : Node) : moved.lookup location = some node ↔
      ∃ old, moveBelow source target old = location ∧ (disk.nodes.erase target).lookup old = some node :=
    KeyedTable.rekey_lookup success location node
  have erased (old : Location) (different : old ≠ target) :
      (disk.nodes.erase target).lookup old = disk.nodes.lookup old := by
    rw [KeyedTable.lookup_erase_eq, if_neg different]
  rw [nodes]
  split
  · rename_i inside
    obtain ⟨rest, rfl⟩ := inside
    have different : source ++ rest ≠ target := fun same => safe.outside ⟨rest, same⟩
    rw [List.drop_left, Disk.entry, nodeEntry, nodeEntry]
    congr 1
    apply Option.ext
    intro node
    rw [origin]
    constructor
    · rintro ⟨old, same, present⟩
      unfold moveBelow at same
      split at same
      · rename_i below
        obtain ⟨rest', rfl⟩ := below
        rw [List.drop_left] at same
        rwa [← List.append_cancel_left same, ← erased _ (fun equal => safe.outside ⟨_, equal⟩)]
      · exact (safe.at_target ⟨rest, same.symm⟩ (KeyedTable.has_iff.mpr ⟨node, present⟩)).elim
    · intro present
      exact ⟨source ++ rest, moveBelow_below _ _ _, by rwa [erased _ different]⟩
  · rename_i outside
    split
    · rename_i below
      rw [nodeEntry, Option.map_eq_none_iff, ← Option.not_isSome_iff_eq_none,
        Option.isSome_iff_exists]
      rintro ⟨node, present⟩
      obtain ⟨old, same, -⟩ := (origin node).mp present
      unfold moveBelow at same
      split at same
      · exact outside ⟨_, same⟩
      · rename_i free
        exact free (same ▸ below)
    · rename_i free
      have different : location ≠ target := by
        rintro rfl
        exact outside (List.prefix_refl _)
      rw [Disk.entry, nodeEntry, nodeEntry]
      congr 1
      apply Option.ext
      intro node
      rw [origin]
      constructor
      · rintro ⟨old, same, present⟩
        unfold moveBelow at same
        split at same
        · exact (outside ⟨_, same⟩).elim
        · rwa [← same, ← erased old (same ▸ different)]
      · intro present
        exact ⟨location, if_neg free, by rwa [erased _ different]⟩

theorem MoveSafe.tree (safe : disk.MoveSafe source target) :
    Tree (nodeEntry (disk.movedNodes source target)) where
  root := by
    rw [safe.entry, if_neg (by simpa using safe.target_below), if_neg (by simpa using safe.below)]
    exact disk.root_directory
  parent upper name present := by
    rw [safe.entry] at present ⊢
    by_cases inside : target <+: upper
    · obtain ⟨rest, rfl⟩ := inside
      rw [if_pos (by rw [List.append_assoc]; exact List.prefix_append _ _), List.append_assoc,
        List.drop_left, ← List.append_assoc] at present
      rw [if_pos (List.prefix_append _ _), List.drop_left]
      exact disk.parent_directory present
    · rw [if_neg inside]
      by_cases new : target <+: upper ++ [name]
      · have whole : target = upper ++ [name] := by
          rcases List.prefix_concat_iff.mp new with whole | inside'
          · simpa using whole
          · exact absurd inside' inside
        have room := safe.room
        rw [whole, List.dropLast_concat] at room
        rw [if_neg (fun below => safe.outside (whole ▸ below.trans (List.prefix_append _ _)))]
        exact room
      · rw [if_neg new] at present
        split at present
        · exact absurd rfl present
        · rename_i free
          rw [if_neg (fun below => free (below.trans (List.prefix_append _ _)))]
          exact disk.parent_directory present

end Move

def move (source target : Location) (now : Int) : Disk :=
  if safe : disk.MoveSafe source target then
    touch (touch ⟨disk.movedNodes source target, safe.tree⟩ source.dropLast now) target.dropLast now
  else disk

theorem entry_move {source target : Location} (safe : disk.MoveSafe source target) (now : Int)
    (location : Location) :
    (disk.move source target now).entry location =
      if target <+: location then disk.entry (source ++ location.drop target.length)
      else if source <+: location then none else disk.entry location := by
  rw [move, dif_pos safe, entry_touch, entry_touch, entry_eq, safe.entry]

end Disk

end Ndnfs
