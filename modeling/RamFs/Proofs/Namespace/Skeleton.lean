import RamFs.Proofs.Action
import RamFs.Proofs.Namespace.View

/-!
Views of a world that show more than its namespace or something else. The roster is what open
handles are counted by: the volumes and who is open on them. The skeleton is all of a world that
no call on an open handle changes as long as the handle stays open: the namespace, the volumes
and how many names every inode counts. Calls on paths, for their part, leave the roster alone
unless they open a file.
-/

namespace RamFs

open RamFs.Action

/-- The volumes, and what is open on them. -/
structure Roster where
  volumes : Array Volume
  leases : List Lease

structure Skeleton where
  names : Namespace
  volumes : Array Volume
  /-- The number of names that each inode counts. -/
  tally : InodeId → Option Nat
  /-- What each handle is open on, if it is open. -/
  holder? : HandleId → Option Lease

namespace World

variable {world world' : World}

def roster (world : World) : Roster :=
  ⟨world.volumes, world.namespace.leases⟩

def tally (world : World) (id : InodeId) : Option Nat :=
  world.inodes[id.index]?.map Inode.links

def holder? (world : World) (id : HandleId) : Option Lease :=
  world.handles[id.index]?.bind Handle.lease?

def skeleton (world : World) : Skeleton :=
  ⟨world.namespace, world.volumes, world.tally, world.holder?⟩

/-- The contents of all inodes. -/
def stores (world : World) : Array BlockStore :=
  world.inodes.map Inode.store

theorem namespace_of_skeleton (h : world.skeleton = world'.skeleton) :
    world.namespace = world'.namespace :=
  congrArg Skeleton.names h

theorem roster_of_skeleton (h : world.skeleton = world'.skeleton) :
    world.roster = world'.roster :=
  congrArg (fun skeleton => Roster.mk skeleton.volumes skeleton.names.leases) h

theorem tally_of_skeleton (h : world.skeleton = world'.skeleton) : world.tally = world'.tally :=
  congrArg Skeleton.tally h

theorem holder_of_skeleton (h : world.skeleton = world'.skeleton) :
    world.holder? = world'.holder? :=
  congrArg Skeleton.holder? h

theorem holder_eq_some {id : HandleId} {lease : Lease} :
    world.holder? id = some lease ↔ ∃ handle, world.handle id = .ok handle ∧
      handle.isOpen = true ∧ lease = ⟨handle.volume, handle.entry⟩ := by
  have hlease : ∀ handle : Handle, handle.lease? = some lease ↔
      handle.isOpen = true ∧ lease = ⟨handle.volume, handle.entry⟩ := by
    intro handle
    unfold Handle.lease?
    cases handle.isOpen with
    | true => exact ⟨fun h => ⟨rfl, (Option.some.inj h).symm⟩, fun h => congrArg some h.2.symm⟩
    | false => exact ⟨nofun, nofun⟩
  have hhandle : ∀ handle, world.handles[id.index]? = some handle ↔
      world.handle id = .ok handle := by
    intro handle
    rw [← Array.getElem?_toList]
    refine ⟨fun h => ?_, handle_eq_ok⟩
    unfold World.handle
    rw [← Array.getElem?_toList, h]
  unfold holder?
  rw [Option.bind_eq_some_iff]
  exact exists_congr fun handle => and_congr (hhandle handle) (hlease handle)

theorem inode_eq_ok {id : InodeId} {inode : Inode} (h : world.inode id = .ok inode) :
    world.inodes[id.index]? = some inode := by
  unfold World.inode at h
  split at h
  case h_1 found hfound => rw [hfound, Except.ok.inj h]
  case h_2 => cases h

theorem tally_of_inode {id : InodeId} {inode : Inode} (h : world.inode id = .ok inode) :
    world.tally id = some inode.links := by
  unfold tally
  rw [inode_eq_ok h]
  rfl

theorem stores_eq_some {id : InodeId} {store : BlockStore} :
    world.stores[id.index]? = some store ↔
      ∃ inode, world.inode id = .ok inode ∧ inode.store = store := by
  unfold stores
  rw [Array.getElem?_map, Option.map_eq_some_iff]
  refine exists_congr fun inode => and_congr_left fun _ => ⟨fun h => ?_, inode_eq_ok⟩
  unfold World.inode
  rw [h]

/-! ### Changes of a world -/

theorem skeleton_modifyEntry_same {id : EntryId} {change : Entry → Entry}
    (h : ∀ entry, (change entry).node = entry.node) :
    (world.modifyEntry id change).skeleton = world.skeleton := by
  unfold skeleton
  rw [namespace_modifyEntry_same h]
  rfl

theorem skeleton_modifyHandle {id : HandleId} {change : Handle → Handle}
    (h : ∀ handle, (change handle).lease? = handle.lease?) :
    (world.modifyHandle id change).skeleton = world.skeleton := by
  have hholder : (world.modifyHandle id change).holder? = world.holder? := by
    funext other
    unfold holder? World.modifyHandle
    rw [Array.getElem?_modify]
    split
    · rw [Option.bind_map]
      exact congrFun (congrArg Option.bind rfl) _ |>.trans (congrArg _ (funext h))
    · rfl
  unfold skeleton
  rw [namespace_modifyHandle h, hholder]
  rfl

theorem tally_modifyInode {id : InodeId} {change : Inode → Inode} (count : Nat → Nat)
    (h : ∀ inode, (change inode).links = count inode.links) :
    (world.modifyInode id change).tally =
      Function.update world.tally id ((world.tally id).map count) := by
  funext other
  unfold tally World.modifyInode
  rw [Array.getElem?_modify]
  by_cases hother : other = id
  · rw [if_pos (by rw [hother]), hother, Function.update_self, Option.map_map, Option.map_map]
    exact congrFun (congrArg Option.map (funext h)) _
  · rw [Function.update_of_ne hother, if_neg]
    intro hindex
    exact hother (congrArg InodeId.mk hindex.symm)

theorem tally_modifyInode_same {id : InodeId} {change : Inode → Inode}
    (h : ∀ inode, (change inode).links = inode.links) :
    (world.modifyInode id change).tally = world.tally := by
  rw [tally_modifyInode (fun links => links) h, Option.map_id', Function.update_eq_self]

/-- An inode may be put in place of one that counts as many names. -/
theorem skeleton_setInode {id : InodeId} {inode inode' : Inode}
    (hinode : world.inode id = .ok inode) (h : inode'.links = inode.links) :
    (world.modifyInode id fun _ => inode').skeleton = world.skeleton := by
  have hlinks : world.tally id = some inode'.links := by rw [tally_of_inode hinode, h]
  have htally : (world.modifyInode id fun _ => inode').tally = world.tally := by
    rw [tally_modifyInode (fun _ => inode'.links) fun _ => rfl, hlinks, Option.map_some,
      ← hlinks, Function.update_eq_self]
  unfold skeleton
  rw [namespace_modifyInode, htally]
  rfl

theorem skeleton_modifyInode {id : InodeId} {change : Inode → Inode}
    (h : ∀ inode, (change inode).links = inode.links) :
    (world.modifyInode id change).skeleton = world.skeleton := by
  unfold skeleton
  rw [namespace_modifyInode, tally_modifyInode_same h]
  rfl

theorem stores_modifyInode {id : InodeId} {change : Inode → Inode} (edit : BlockStore → BlockStore)
    (h : ∀ inode, (change inode).store = edit inode.store) :
    (world.modifyInode id change).stores = world.stores.modify id.index edit := by
  unfold stores World.modifyInode
  apply Array.ext_getElem?
  intro i
  rw [Array.getElem?_map, Array.getElem?_modify, Array.getElem?_modify, Array.getElem?_map]
  split
  · rw [Option.map_map, Option.map_map]
    exact congrFun (congrArg Option.map (funext h)) _
  · rfl

theorem stores_modifyInode_same {id : InodeId} {change : Inode → Inode}
    (h : ∀ inode, (change inode).store = inode.store) :
    (world.modifyInode id change).stores = world.stores := by
  unfold stores World.modifyInode
  apply Array.ext_getElem?
  intro i
  rw [Array.getElem?_map, Array.getElem?_modify, Array.getElem?_map]
  split
  · rw [Option.map_map]
    exact congrFun (congrArg Option.map (funext h)) _
  · rfl

theorem tally_addInode {inode : Inode} :
    (world.addInode inode).2.tally =
      Function.update world.tally (world.addInode inode).1 (some inode.links) := by
  funext other
  unfold tally World.addInode
  simp only [Array.getElem?_push]
  by_cases hother : other = ⟨world.inodes.size⟩
  · rw [if_pos (by rw [hother]), hother, Function.update_self]
    rfl
  · rw [Function.update_of_ne hother, if_neg]
    intro hindex
    exact hother (congrArg InodeId.mk hindex)

end World

end RamFs
