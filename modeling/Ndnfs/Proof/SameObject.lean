import Ndnfs.Fs.AlikeRows
import Ndnfs.Proof.GenuineReply

namespace Ndnfs
open KeyedTable

section Nodes

variable {disk : Disk} {place location : Location}

theorem nodes_modify (other : place ≠ location) (change : Bytes → Bytes) (now : Int) :
    (disk.modify location change now).nodes.lookup place = disk.nodes.lookup place := by
  unfold Disk.modify
  dsimp only
  split
  · rw [lookup_insert_eq, if_neg other]
  · rfl

/-- A file gets no new time when entries of a directory change. -/
theorem nodes_touch (file : IsFile (disk.entry place)) {upper : Location} {nodes : Disk}
    (directory : IsDirectory (disk.entry upper)) (now : Int) :
    (nodes.touch upper now).nodes.lookup place = nodes.nodes.lookup place := by
  apply nodes_modify
  rintro rfl
  exact file.2 directory

theorem directory_above (below : location ≠ []) (present : disk.entry location ≠ none) :
    IsDirectory (disk.entry location.dropLast) := by
  rw [← List.dropLast_append_getLast below] at present
  exact disk.parent_directory present

theorem nodes_create (file : IsFile (disk.entry place)) (free : disk.Free location)
    (kind : NodeKind) (now : Int) :
    (disk.create location kind now).nodes.lookup place = disk.nodes.lookup place := by
  have other : place ≠ location := by
    rintro rfl
    exact file.1 free.1
  rw [Disk.create, dif_pos free, nodes_touch file free.2.2]
  exact (lookup_insert_eq ..).trans (if_neg other)

theorem nodes_remove (file : IsFile (disk.entry place)) (other : place ≠ location)
    (present : disk.entry location ≠ none) (below : location ≠ [])
    (empty : disk.NoChildren location) (now : Int) :
    (disk.remove location now).nodes.lookup place = disk.nodes.lookup place := by
  rw [Disk.remove, dif_pos ⟨below, empty⟩, nodes_touch file (directory_above below present)]
  exact (lookup_erase_eq ..).trans (if_neg other)

theorem nodes_movedNodes {source target : Location} (safe : disk.MoveSafe source target)
    (outside : ¬ source <+: place) (above : ¬ target <+: place) :
    (disk.movedNodes source target).lookup place = disk.nodes.lookup place := by
  obtain ⟨moved, success⟩ := Option.ne_none_iff_exists'.mp safe.rekey_ne_none
  have different : place ≠ target := by
    rintro rfl
    exact above (List.prefix_refl _)
  have erased : (disk.nodes.erase target).lookup place = disk.nodes.lookup place := by
    rw [lookup_erase_eq, if_neg different]
  rw [Disk.movedNodes, success, Option.getD_some, ← erased]
  apply Option.ext
  intro node
  rw [rekey_lookup success]
  constructor
  · rintro ⟨old, same, found⟩
    unfold Disk.moveBelow at same
    split at same
    · exact absurd ⟨_, same⟩ above
    · rwa [← same]
  · exact fun found => ⟨place, if_neg outside, found⟩

theorem nodes_move {source target : Location} (file : IsFile (disk.entry place))
    (safe : disk.MoveSafe source target) (outside : ¬ source <+: place)
    (above : ¬ target <+: place) (now : Int) :
    (disk.move source target now).nodes.lookup place = disk.nodes.lookup place := by
  have directory := directory_above safe.below safe.present
  rw [Disk.move, dif_pos safe, nodes_touch file safe.room, nodes_touch file directory]
  exact nodes_movedNodes safe outside above

end Nodes

/-- Both states have the same object with its time at the path and the same rows for it. -/
structure SameObject (root path : Path) (state state' : State) : Prop where
  node : state.disk.nodes.lookup (root.locate path) = state'.disk.nodes.lookup (root.locate path)
  rows : AlikeRows (fun text => text = path.text) state.db state'.db

theorem SameObject.entry {root path : Path} {state state' : State}
    (same : SameObject root path state state') :
    state.disk.entry (root.locate path) = state'.disk.entry (root.locate path) :=
  congrArg (Option.map Node.toEntry) same.node

/-- A change by an operation that avoids a file keeps its object and its rows. -/
theorem Operation.Change.sameObject {root path : Path} {now : Int} {operation : Operation}
    {state state' : State} (change : operation.Change root now state state')
    (avoids : operation.Avoids path) (file : IsFile (state.disk.entry (root.locate path))) :
    SameObject root path state' state := by
  have elsewhere {other : Path} (different : other ≠ path) :
      root.locate path ≠ root.locate other := mt Path.locate_inj.mp different.symm
  have rows : AlikeRows (fun text => text = path.text) state'.db state.db := by
    refine change.alikeRows fun other member same => ?_
    obtain rfl := Path.text_injective same
    cases operation with
    | mknod third mode =>
        obtain rfl := List.mem_singleton.mp member
        exact avoids (List.prefix_refl _)
    | unlink third => exact avoids (List.mem_singleton.mp member).symm
    | release third access =>
        rw [rowPaths] at member
        split at member
        · exact List.not_mem_nil member
        · rename_i writing
          exact avoids writing (List.mem_singleton.mp member).symm
    | rename source target =>
        rw [rowPaths] at member
        split at member
        · exact List.not_mem_nil member
        · rename_i different
          obtain ⟨outside, above⟩ := avoids.resolve_left different
          rcases List.mem_cons.mp member with rfl | last
          · exact above (List.prefix_refl _)
          · obtain rfl := List.mem_singleton.mp last
            exact outside (List.prefix_refl _)
    | _ => exact List.not_mem_nil member
  refine ⟨?_, rows⟩
  cases change with
  | mknodObject other mode state kind object free => exact nodes_create file free kind now
  | mkdirObject other mode state free => exact nodes_create file free .directory now
  | openContent other access state regular => exact nodes_modify (elsewhere (avoids rfl)) _ now
  | writeContent other data offset state regular => exact nodes_modify (elsewhere avoids) _ now
  | truncateContent other length state regular => exact nodes_modify (elsewhere avoids) _ now
  | unlinkObject other state object =>
      exact nodes_remove file (elsewhere avoids) object.1 (ne_nil_of_isFile object)
        (state.disk.noChildren_of_not_directory object.2) now
  | rmdirObject other state below directory empty =>
      have inside : root.locate other ≠ [] := by
        simpa [Path.locate] using fun _ => below
      refine nodes_remove file ?_ ?_ inside empty now
      · intro same
        exact file.2 (same ▸ directory)
      · intro absent
        rw [absent] at directory
        exact absurd directory (by simp [IsDirectory])
  | renameObject source target state different safe =>
      obtain ⟨outside, above⟩ := avoids.resolve_left different
      by_cases inside : root.locate target <+: root.locate path
      · have top : root.locate path = root.locate target := by
          obtain ⟨rest, place⟩ := inside
          by_cases last : rest = []
          · rw [← place, last, List.append_nil]
          · have absent := state.disk.none_below safe.empty last
            rw [place] at absent
            exact absurd absent file.1
        exact absurd (Path.locate_inj.mp top ▸ List.prefix_refl _) outside
      · exact nodes_move file safe
          (fun below => above ((List.prefix_append_right_inj root.names).mp below)) inside now
  | _ => rfl

end Ndnfs
