import Mathlib.Data.List.Basic
import RamFs.Walk
import RamFs.Proofs.Namespace.Names

/-!
A world seen as a namespace: which entry is what kind of node, which roots and collation a
volume has, and which entries are open. Times, owners, contents, locks and cursors are not part
of it, so that most of what an action does to a world leaves its namespace alone; the lemmas
here say what each change of a world does to the namespace.
-/

namespace RamFs

/-- What a volume contributes to the namespace. -/
structure Ground where
  collation : Collation
  roots : List EntryId
  owners : Nat
  deriving DecidableEq

/-- An open handle: the volume and the entry it was opened on. -/
structure Lease where
  volume : VolumeId
  entry : EntryId

structure Namespace where
  node? : EntryId → Option Node
  ground? : VolumeId → Option Ground
  leases : List Lease
  /-- How many inodes there are. -/
  inodes : Nat

def Volume.ground (volume : Volume) : Ground :=
  ⟨volume.collation, volume.roots, volume.owners⟩

def Handle.lease? (handle : Handle) : Option Lease :=
  if handle.isOpen then some ⟨handle.volume, handle.entry⟩ else none

def World.namespace (world : World) : Namespace where
  node? id := world.entries[id.index]?.map Entry.node
  ground? id := world.volumes[id.index]?.map Volume.ground
  leases := world.handles.toList.filterMap Handle.lease?
  inodes := world.inodes.size

namespace Namespace

variable {n : Namespace}

/-! ### Names and trees -/

/-- The binding stands in the directory. -/
def Binds (n : Namespace) (directory : EntryId) (binding : Binding) : Prop :=
  ∃ names, n.node? directory = some (.directory names) ∧ binding ∈ names.bindings

/-- Some directory binds a name to the entry. -/
def Bound (n : Namespace) (entry : EntryId) : Prop :=
  ∃ directory binding, n.Binds directory binding ∧ binding.entry = entry

def IsRoot (n : Namespace) (id : VolumeId) (ordinal : Nat) (entry : EntryId) : Prop :=
  ∃ ground, n.ground? id = some ground ∧ ground.roots[ordinal]? = some entry

/-- The bindings lead down from the top, each one found in the entry before it. -/
inductive Leads (n : Namespace) (top : EntryId) : List Binding → EntryId → Prop where
  | top : n.Leads top [] top
  | step {bindings : List Binding} {directory : EntryId} {binding : Binding} :
      n.Leads top bindings directory → n.Binds directory binding →
      n.Leads top (bindings ++ [binding]) binding.entry

/-- The entry is a root of the volume or lies below one. -/
def InTree (n : Namespace) (id : VolumeId) (entry : EntryId) : Prop :=
  ∃ ordinal root bindings, n.IsRoot id ordinal root ∧ n.Leads root bindings entry

/-- The entry has a name in the tree of the volume. -/
def Names (n : Namespace) (id : VolumeId) (entry : EntryId) : Prop :=
  n.Bound entry ∧ n.InTree id entry

/-- Number of handles open on the entry. -/
def opens (n : Namespace) (entry : EntryId) : Nat :=
  n.leases.countP (·.entry = entry)

theorem Binds.bound {directory : EntryId} {binding : Binding} (h : n.Binds directory binding) :
    n.Bound binding.entry :=
  ⟨directory, binding, h, rfl⟩

theorem Leads.eq_or_bound {top entry : EntryId} {bindings : List Binding}
    (h : n.Leads top bindings entry) : bindings = [] ∧ entry = top ∨ n.Bound entry := by
  cases h with
  | top => exact .inl ⟨rfl, rfl⟩
  | step _ hbinds => exact .inr hbinds.bound

theorem InTree.step {id : VolumeId} {directory : EntryId} {binding : Binding}
    (h : n.InTree id directory) (hbinds : n.Binds directory binding) :
    n.InTree id binding.entry := by
  obtain ⟨ordinal, root, bindings, hroot, hleads⟩ := h
  exact ⟨ordinal, root, bindings ++ [binding], hroot, hleads.step hbinds⟩

theorem opens_eq_zero {entry : EntryId} :
    n.opens entry = 0 ↔ ∀ lease ∈ n.leases, lease.entry ≠ entry := by
  unfold opens
  simp [List.countP_eq_zero]

/-! ### One node changed -/

/-- The namespace with one node put in place of another or of nothing. -/
def setNode (n : Namespace) (id : EntryId) (node : Node) : Namespace :=
  { n with node? := fun other => if other = id then some node else n.node? other }

section setNode

variable {id other : EntryId} {node : Node}

@[simp]
theorem node?_setNode_self : (n.setNode id node).node? id = some node := if_pos rfl

@[simp]
theorem node?_setNode_of_ne (h : other ≠ id) : (n.setNode id node).node? other = n.node? other :=
  if_neg h

@[simp]
theorem ground?_setNode : (n.setNode id node).ground? = n.ground? := rfl

@[simp]
theorem leases_setNode : (n.setNode id node).leases = n.leases := rfl

@[simp]
theorem isRoot_setNode {volume : VolumeId} {ordinal : Nat} :
    (n.setNode id node).IsRoot volume ordinal other ↔ n.IsRoot volume ordinal other := Iff.rfl

@[simp]
theorem opens_setNode : (n.setNode id node).opens other = n.opens other := rfl

theorem setNode_setNode {node' : Node} :
    (n.setNode id node).setNode id node' = n.setNode id node' := by
  unfold setNode
  congr 1
  funext other
  split
  case isTrue => rfl
  case isFalse hother => exact if_neg hother

theorem setNode_comm {node' : Node} (h : id ≠ other) :
    (n.setNode id node).setNode other node' = (n.setNode other node').setNode id node := by
  unfold setNode
  congr 1
  funext third
  by_cases hid : third = id
  · simp [hid, h]
  · simp [hid]

end setNode

/-- The namespace with what a volume contributes to it put in place. -/
def setGround (n : Namespace) (id : VolumeId) (ground : Ground) : Namespace :=
  { n with ground? := fun other => if other = id then some ground else n.ground? other }

section setGround

variable {id id' : VolumeId} {ground : Ground}

@[simp]
theorem ground?_setGround_self : (n.setGround id ground).ground? id = some ground := if_pos rfl

@[simp]
theorem ground?_setGround_of_ne (h : id' ≠ id) :
    (n.setGround id ground).ground? id' = n.ground? id' := if_neg h

end setGround

end Namespace

/-! ### Files -/

theorem Entry.file_eq_ok {entry : Entry} {file : FileNode} :
    entry.file = .ok file ↔ entry.node = .file file := by
  unfold Entry.file
  cases entry.node with
  | file used =>
      exact ⟨fun h => congrArg Node.file (Except.ok.inj h), fun h => congrArg _ (Node.file.inj h)⟩
  | directory names => exact ⟨nofun, nofun⟩
  | symlink target => exact ⟨nofun, nofun⟩

theorem FileNode.acquire_eq_ok {file opened : FileNode} :
    file.acquire = .ok opened ↔ file.state ≠ .pendingDeletion ∧
      { file with state := .live (file.openHandles + 1) } = opened := by
  unfold FileNode.acquire FileNode.openHandles
  cases file.state with
  | live count => exact ⟨fun h => ⟨nofun, Except.ok.inj h⟩, fun h => congrArg _ h.2⟩
  | pendingDeletion => exact ⟨nofun, fun h => absurd rfl h.1⟩

/-! ### What a world shows -/

namespace World

variable {world : World}

theorem entry_eq_ok {id : EntryId} {entry : Entry} (h : world.entry id = .ok entry) :
    world.entries[id.index]? = some entry := by
  unfold World.entry at h
  split at h
  case h_1 found hfound => rw [hfound, Except.ok.inj h]
  case h_2 => cases h

theorem node?_of_entry {id : EntryId} {entry : Entry} (h : world.entry id = .ok entry) :
    world.namespace.node? id = some entry.node := by
  change world.entries[id.index]?.map Entry.node = _
  rw [entry_eq_ok h, Option.map_some]

theorem entry_of_node? {id : EntryId} {node : Node} (h : world.namespace.node? id = some node) :
    ∃ entry, world.entry id = .ok entry ∧ entry.node = node := by
  obtain ⟨entry, hentry, hnode⟩ := Option.map_eq_some_iff.1 h
  refine ⟨entry, ?_, hnode⟩
  unfold World.entry
  rw [hentry]

theorem directory_eq_ok {id : EntryId} {names : Directory} :
    world.directory id = .ok names ↔ world.namespace.node? id = some (.directory names) := by
  unfold World.directory
  constructor
  · intro h
    cases hentry : world.entry id with
    | error failure =>
        rw [hentry] at h
        cases h
    | ok entry =>
        rw [hentry] at h
        change entry.directory = .ok names at h
        rw [node?_of_entry hentry]
        unfold Entry.directory at h
        split at h
        case h_1 found hfound => rw [hfound, Except.ok.inj h]
        case h_2 => cases h
  · intro h
    obtain ⟨entry, hentry, hnode⟩ := entry_of_node? h
    rw [hentry]
    change entry.directory = .ok names
    unfold Entry.directory
    rw [hnode]

theorem linkTarget?_eq (world : World) (id : EntryId) :
    world.linkTarget? id = match world.namespace.node? id with
      | some (.symlink target) => some target
      | _ => none := by
  change (world.entries[id.index]?).bind Entry.linkTarget? =
    match (world.entries[id.index]?).map Entry.node with
      | some (.symlink target) => some target
      | _ => none
  cases world.entries[id.index]? with
  | none => rfl
  | some entry =>
      change entry.linkTarget? = _
      unfold Entry.linkTarget?
      rw [Option.map_some]
      cases entry.node <;> rfl

theorem directory_eq (world : World) (id : EntryId) :
    world.directory id = match world.namespace.node? id with
      | some (.directory names) => .ok names
      | some _ => .error .notADirectory
      | none => .error .notFound := by
  change (world.entry id >>= Entry.directory) =
    match (world.entries[id.index]?).map Entry.node with
      | some (.directory names) => .ok names
      | some _ => .error .notADirectory
      | none => .error .notFound
  unfold World.entry
  cases world.entries[id.index]? with
  | none => rfl
  | some entry =>
      change entry.directory = _
      unfold Entry.directory
      rw [Option.map_some]
      cases entry.node <;> rfl

theorem volume_eq_ok {id : VolumeId} {volume : Volume} (h : world.volume id = .ok volume) :
    world.volumes[id.index]? = some volume := by
  unfold World.volume at h
  split at h
  case h_1 found hfound => rw [hfound, Except.ok.inj h]
  case h_2 => cases h

theorem ground?_of_volume {id : VolumeId} {volume : Volume} (h : world.volume id = .ok volume) :
    world.namespace.ground? id = some volume.ground := by
  change world.volumes[id.index]?.map Volume.ground = _
  rw [volume_eq_ok h, Option.map_some]

theorem volume_of_ground? {id : VolumeId} {ground : Ground}
    (h : world.namespace.ground? id = some ground) :
    ∃ volume, world.volume id = .ok volume ∧ volume.ground = ground := by
  obtain ⟨volume, hvolume, hground⟩ := Option.map_eq_some_iff.1 h
  refine ⟨volume, ?_, hground⟩
  unfold World.volume
  rw [hvolume]

/-- A volume that is owned, as its ground tells, is live. -/
theorem owned_of_ground? {id : VolumeId} {ground : Ground}
    (h : world.namespace.ground? id = some ground) (howned : 0 < ground.owners) :
    ∃ volume, world.volume id = .ok volume ∧ volume.isLive = true := by
  obtain ⟨volume, hvolume, rfl⟩ := volume_of_ground? h
  exact ⟨volume, hvolume, decide_eq_true howned⟩

theorem inode_of_lt {id : InodeId} (h : id.index < world.namespace.inodes) :
    ∃ inode, world.inode id = .ok inode := by
  unfold World.inode
  rw [Array.getElem?_eq_getElem h]
  exact ⟨_, rfl⟩

theorem handle_eq_ok {id : HandleId} {handle : Handle} (h : world.handle id = .ok handle) :
    world.handles.toList[id.index]? = some handle := by
  unfold World.handle at h
  rw [Array.getElem?_toList]
  split at h
  case h_1 found hfound => rw [hfound, Except.ok.inj h]
  case h_2 => cases h

/-! ### Changes of a world -/

theorem namespace_modifyEntry {id : EntryId} {entry : Entry} (change : Entry → Entry)
    (h : world.entry id = .ok entry) :
    (world.modifyEntry id change).namespace = world.namespace.setNode id (change entry).node := by
  unfold World.namespace World.modifyEntry Namespace.setNode
  congr 1
  funext other
  rw [Array.getElem?_modify]
  by_cases hother : other = id
  · rw [if_pos (by rw [hother]), if_pos hother, hother, entry_eq_ok h]
    rfl
  · rw [if_neg hother, if_neg]
    intro hindex
    exact hother (congrArg EntryId.mk hindex.symm)

theorem namespace_modifyEntry_same {id : EntryId} {change : Entry → Entry}
    (h : ∀ entry, (change entry).node = entry.node) :
    (world.modifyEntry id change).namespace = world.namespace := by
  unfold World.namespace World.modifyEntry
  congr 1
  funext other
  rw [Array.getElem?_modify]
  split
  · rw [Option.map_map]
    congr 1
    funext entry
    exact h entry
  · rfl

@[simp]
theorem namespace_modifyInode {id : InodeId} {change : Inode → Inode} :
    (world.modifyInode id change).namespace = world.namespace := by
  unfold World.namespace World.modifyInode
  simp

theorem namespace_modifyVolume {id : VolumeId} {volume : Volume} (change : Volume → Volume)
    (h : world.volume id = .ok volume) :
    (world.modifyVolume id change).namespace =
      world.namespace.setGround id (change volume).ground := by
  unfold World.namespace World.modifyVolume Namespace.setGround
  congr 1
  funext other
  rw [Array.getElem?_modify]
  by_cases hother : other = id
  · rw [if_pos (by rw [hother]), if_pos hother, hother, volume_eq_ok h]
    rfl
  · rw [if_neg hother, if_neg]
    intro hindex
    exact hother (congrArg VolumeId.mk hindex.symm)

theorem namespace_modifyVolume_same {id : VolumeId} {change : Volume → Volume}
    (h : ∀ volume, (change volume).ground = volume.ground) :
    (world.modifyVolume id change).namespace = world.namespace := by
  unfold World.namespace World.modifyVolume
  congr 1
  funext other
  rw [Array.getElem?_modify]
  split
  · rw [Option.map_map]
    congr 1
    funext volume
    exact h volume
  · rfl

theorem namespace_modifyVolume_of_missing {id : VolumeId} {change : Volume → Volume}
    {failure : Failure} (h : world.volume id = .error failure) :
    (world.modifyVolume id change).namespace = world.namespace := by
  unfold World.volume at h
  split at h
  case h_1 => cases h
  case h_2 hnone =>
    unfold World.namespace World.modifyVolume
    congr 1
    funext other
    rw [Array.getElem?_modify]
    split
    case isTrue hindex => rw [← hindex, hnone]; rfl
    case isFalse => rfl

theorem volume_modifyVolume {id : VolumeId} {volume : Volume} {change : Volume → Volume}
    (h : world.volume id = .ok volume) :
    (world.modifyVolume id change).volume id = .ok (change volume) := by
  unfold World.volume World.modifyVolume
  rw [Array.getElem?_modify, if_pos rfl, volume_eq_ok h]
  rfl

theorem modifyVolume_undo {id : VolumeId} {change undo : Volume → Volume}
    (h : ∀ volume, undo (change volume) = volume) :
    (world.modifyVolume id change).modifyVolume id undo = world := by
  unfold World.modifyVolume
  congr 1
  apply Array.ext_getElem?
  intro i
  rw [Array.getElem?_modify, Array.getElem?_modify]
  split
  · rw [Option.map_map]
    cases world.volumes[i]? with
    | none => rfl
    | some volume => exact congrArg some (h volume)
  · rfl

theorem ground?_next : world.namespace.ground? ⟨world.volumes.size⟩ = none := by
  change (world.volumes[world.volumes.size]?).map Volume.ground = none
  simp

theorem namespace_modifyHandle {id : HandleId} {change : Handle → Handle}
    (h : ∀ handle, (change handle).lease? = handle.lease?) :
    (world.modifyHandle id change).namespace = world.namespace := by
  have hlist : ∀ (handles : List Handle) (i : Nat),
      (handles.modify i change).filterMap Handle.lease? = handles.filterMap Handle.lease? := by
    intro handles
    induction handles with
    | nil => intro i; simp
    | cons first rest ih =>
        intro i
        cases i with
        | zero => simp [List.filterMap_cons, h first]
        | succ i => simp [List.filterMap_cons, ih i]
  unfold World.namespace World.modifyHandle
  simp [hlist]

/-- Closing a handle takes its lease away and no other. -/
theorem namespace_closeHandle {id : HandleId} {handle : Handle} (change : Handle → Handle)
    (h : world.handle id = .ok handle) (hopen : handle.isOpen = true)
    (hclosed : (change handle).isOpen = false) :
    ∃ leases, (world.modifyHandle id change).namespace = { world.namespace with leases } ∧
      world.namespace.leases.Perm (⟨handle.volume, handle.entry⟩ :: leases) := by
  have hlist : ∀ (handles : List Handle) (i : Nat), handles[i]? = some handle →
      (handles.filterMap Handle.lease?).Perm (⟨handle.volume, handle.entry⟩ ::
        (handles.modify i change).filterMap Handle.lease?) := by
    intro handles
    induction handles with
    | nil => intro i hi; simp at hi
    | cons first rest ih =>
        intro i hi
        cases i with
        | zero =>
            obtain rfl : first = handle := by simpa using hi
            simp [Handle.lease?, hopen, hclosed]
        | succ i =>
            have hrest := ih i (by simpa using hi)
            cases hfirst : first.lease? with
            | none => simpa [List.filterMap_cons, hfirst] using hrest
            | some lease =>
                simp only [List.modify_succ_cons, List.filterMap_cons, hfirst]
                exact (hrest.cons lease).trans (List.Perm.swap ..)
  refine ⟨_, ?_, hlist _ _ (handle_eq_ok h)⟩
  unfold World.namespace World.modifyHandle
  simp

theorem node?_next : world.namespace.node? ⟨world.entries.size⟩ = none := by
  change (world.entries[world.entries.size]?).map Entry.node = none
  simp

theorem namespace_addEntry {entry : Entry} :
    (world.addEntry entry).2.namespace =
      world.namespace.setNode ⟨world.entries.size⟩ entry.node := by
  unfold World.namespace World.addEntry Namespace.setNode
  congr 1
  funext other
  simp only [Array.getElem?_push]
  by_cases hother : other = ⟨world.entries.size⟩
  · rw [if_pos (by rw [hother]), if_pos hother]
    rfl
  · rw [if_neg hother, if_neg]
    intro hindex
    exact hother (congrArg EntryId.mk hindex)

theorem namespace_addVolume {volume : Volume} :
    (world.addVolume volume).2.namespace =
      world.namespace.setGround ⟨world.volumes.size⟩ volume.ground := by
  unfold World.namespace World.addVolume Namespace.setGround
  congr 1
  funext other
  simp only [Array.getElem?_push]
  by_cases hother : other = ⟨world.volumes.size⟩
  · rw [if_pos (by rw [hother]), if_pos hother]
    rfl
  · rw [if_neg hother, if_neg]
    intro hindex
    exact hother (congrArg VolumeId.mk hindex)

theorem namespace_addInode {inode : Inode} :
    (world.addInode inode).2.namespace =
      { world.namespace with inodes := world.namespace.inodes + 1 } := by
  unfold World.namespace World.addInode
  simp

theorem namespace_addHandle {handle : Handle} (lease : Lease) (h : handle.lease? = some lease) :
    (world.addHandle handle).2.namespace =
      { world.namespace with leases := world.namespace.leases ++ [lease] } := by
  unfold World.namespace World.addHandle
  simp [h]

end World

end RamFs
