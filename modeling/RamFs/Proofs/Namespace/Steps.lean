import RamFs.Relocation
import RamFs.Proofs.Action
import RamFs.Proofs.Namespace.Links
import RamFs.Proofs.Namespace.Walks

/-!
The steps that actions are made of: looking an entry up, marking it, binding and unbinding a
name, making an entry. Each of them succeeds where its checks have been made, and changes the
namespace as said here.
-/

namespace RamFs

variable {world : World} {id : VolumeId} {ground : Ground} {volume : Volume}
  {directory entry : EntryId} {found : Entry} {names names' : Directory} {collation : Collation}
  {name : String} {kind : Kind} {node : Node} {now : Time} {binding : Binding}

/-! ### Removable entries -/

theorem Entry.idle_of_checkRemovable (hcheck : found.checkRemovable = .ok ())
    (hlive : ∀ file, found.node = .file file → file.state ≠ .pendingDeletion) :
    found.node.IsIdle := by
  unfold Entry.checkRemovable at hcheck
  cases hnode : found.node with
  | directory names =>
      rw [hnode] at hcheck
      dsimp only at hcheck
      split at hcheck
      case isTrue hempty => exact List.isEmpty_iff.1 hempty
      case isFalse => cases hcheck
  | file file =>
      rw [hnode] at hcheck
      dsimp only at hcheck
      split at hcheck
      case isTrue => cases hcheck
      case isFalse hclosed =>
        unfold FileNode.openHandles at hclosed
        change file.state = .live 0
        split at hclosed
        case h_1 count hstate => rw [hstate, Nat.eq_zero_of_not_pos hclosed]
        case h_2 hstate => exact absurd hstate (hlive file hnode)
  | symlink target => trivial

/-- Since a bound file is in use, one that passes the check for removal is closed. -/
theorem World.idle_of_checkRemovable (hn : world.namespace.Sound)
    (hbound : world.namespace.Bound entry) (hentry : world.entry entry = .ok found)
    (hcheck : found.checkRemovable = .ok ()) :
    world.namespace.node? entry = some found.node ∧ found.node.IsIdle := by
  have hnode := World.node?_of_entry hentry
  refine ⟨hnode, Entry.idle_of_checkRemovable hcheck ?_⟩
  intro file hfile
  exact hn.bound_live hbound (hfile ▸ hnode)

namespace Action

/-! ### Names -/

theorem bind_names (now : Time)
    (hnode : world.namespace.node? directory = some (.directory names))
    (hinsert : names.insert collation name kind entry = .ok names') :
    ∃ after, Action.bind directory collation name kind entry now world = (.ok (), after) ∧
      after.namespace = world.namespace.setNode directory (.directory names') ∧
      after.tally = world.tally := by
  obtain ⟨parent, hparent, _⟩ := World.entry_of_node? hnode
  refine ⟨_, ?_, World.namespace_modifyEntry
    (fun parent => (parent.withDirectory names').touchModified now) hparent, rfl⟩
  unfold Action.bind
  rw [bind_ask_ok (World.directory_eq_ok.2 hnode), bind_lift_ok hinsert, modify_apply]

theorem unbind_names (collation : Collation) (name : String)
    (hnode : world.namespace.node? directory = some (.directory names)) :
    ∃ after, Action.unbind directory collation name world = (.ok (), after) ∧
      after.namespace =
        world.namespace.setNode directory (.directory (names.erase collation name)) ∧
      after.tally = world.tally := by
  obtain ⟨parent, hparent, _⟩ := World.entry_of_node? hnode
  refine ⟨_, ?_, World.namespace_modifyEntry
    (fun parent => parent.withDirectory (names.erase collation name)) hparent, rfl⟩
  unfold Action.unbind
  rw [bind_ask_ok (World.directory_eq_ok.2 hnode), modify_apply]

theorem touchModified_names (world : World) (entry : EntryId) (now : Time) :
    ∃ after, Action.touchModified entry now world = (.ok (), after) ∧
      after.namespace = world.namespace ∧ after.tally = world.tally :=
  ⟨_, rfl, World.namespace_modifyEntry_same fun _ => rfl, rfl⟩

theorem markDeleted_names (hnode : world.namespace.node? entry = some node)
    (hidle : node.IsIdle) : ∃ after, Action.markDeleted entry world = (.ok (), after) ∧
      after.namespace = world.namespace.retire entry ∧
      after.tally = world.namespace.forget world.tally entry := by
  obtain ⟨found, hfound, rfl⟩ := World.entry_of_node? hnode
  unfold Action.markDeleted
  rw [bind_ask_ok hfound]
  unfold Namespace.retire Namespace.forget
  rw [hnode]
  cases hkind : found.node with
  | directory names => exact ⟨world, rfl, rfl, rfl⟩
  | symlink target => exact ⟨world, rfl, rfl, rfl⟩
  | file file =>
      rw [hkind] at hidle
      have hstate : file.state = .live 0 := hidle
      have hmark : file.markDeleted = .ok { file with state := .pendingDeletion } := by
        simp [FileNode.markDeleted, hstate]
      dsimp only
      refine ⟨_, by rw [bind_lift_ok hmark, bind_ok (modify_apply ..), modify_apply], ?_, ?_⟩
      · rw [World.namespace_modifyInode, World.namespace_modifyEntry _ hfound]
        rfl
      · rw [World.tally_modifyInode (· - 1) fun _ => rfl]
        rfl

/-! ### Steps that open and close nothing -/

/-- The view shows no entries, and of inodes at most the locks on them. -/
class Aloof {δ : Type} (view : World → δ) : Prop where
  entries : ∀ {world : World} {id : EntryId} {change : Entry → Entry},
    view (world.modifyEntry id change) = view world
  inodes : ∀ {world : World} {id : InodeId} {change : Inode → Inode},
    (∀ inode, (change inode).locks = inode.locks) → view (world.modifyInode id change) = view world
  new_entry : ∀ {world : World} {entry : Entry}, view (world.addEntry entry).2 = view world
  new_inode : ∀ {world : World} {inode : Inode}, inode.locks = {} →
    view (world.addInode inode).2 = view world

instance aloof_roster : Aloof World.roster where
  entries := rfl
  inodes _ := rfl
  new_entry := rfl
  new_inode _ := rfl

instance aloof_handles : Aloof World.handles where
  entries := rfl
  inodes _ := rfl
  new_entry := rfl
  new_inode _ := rfl

section Aloof

variable {δ : Type} {view : World → δ} [Aloof view]

theorem bind_keeps (directory : EntryId) (collation : Collation) (name : String) (kind : Kind)
    (entry : EntryId) (now : Time) :
    Keeps view (Action.bind directory collation name kind entry now) :=
  (keeps_ask _).bind fun _ => (keeps_lift _).bind fun _ => keeps_modify fun _ => Aloof.entries

theorem unbind_keeps (directory : EntryId) (collation : Collation) (name : String) :
    Keeps view (Action.unbind directory collation name) :=
  (keeps_ask _).bind fun _ => keeps_modify fun _ => Aloof.entries

theorem touchModified_keeps (entry : EntryId) (now : Time) :
    Keeps view (Action.touchModified entry now) :=
  keeps_modify fun _ => Aloof.entries

theorem markDeleted_keeps (entry : EntryId) : Keeps view (Action.markDeleted entry) := by
  refine (keeps_ask _).bind fun found => ?_
  split
  · exact (keeps_lift _).bind fun _ => .bind (keeps_modify fun _ => Aloof.entries) fun _ =>
      keeps_modify fun _ => Aloof.inodes fun _ => rfl
  · exact keeps_pure _

end Aloof

/-! ### Entries that go with their names -/

/-- Marks an entry on which nothing depends and takes its name away. -/
theorem mark_unbind (hn : world.namespace.Sound)
    (hnode : world.namespace.node? directory = some (.directory names))
    (hfind : names.find? collation name = some binding)
    (hentry : world.namespace.node? binding.entry = some node) (hidle : node.IsIdle) :
    ∃ middle after, Action.markDeleted binding.entry world = (.ok (), middle) ∧
      Action.unbind directory collation name middle = (.ok (), after) ∧
      after.namespace = (world.namespace.setNode directory
        (.directory (names.erase collation name))).retire binding.entry ∧
      after.tally = world.namespace.forget world.tally binding.entry ∧
      world.namespace.Evolves (· = binding.entry) after.namespace ∧
      ∀ coming, world.Booked coming → after.Booked coming := by
  have hne : directory ≠ binding.entry := by
    rintro rfl
    exact Namespace.not_binds_of_idle hentry hidle ⟨names, hnode, Directory.find?_mem hfind⟩
  obtain ⟨middle, hmark, hmiddle, hforgotten⟩ := markDeleted_names hentry hidle
  obtain ⟨after, hunbind, hafter, htally⟩ := unbind_names collation name
    (hmiddle ▸ (Namespace.node?_retire_of_ne hne).trans hnode)
  rw [hmiddle, Namespace.retire_setNode hne] at hafter
  rw [hforgotten] at htally
  refine ⟨middle, after, hmark, hunbind, hafter, htally,
    hafter ▸ hn.remove hnode hfind hentry hidle, ?_⟩
  intro coming hb
  unfold World.Booked
  rw [hafter, htally]
  exact Namespace.Booked.remove hb hn hnode hfind hentry hidle

/-! ### New entries -/

/-- A node of the kind on which nothing depends yet: a file is on the inode that it is to share
with others, if there is one, and otherwise on a new inode that counts one name. -/
structure Supply (world : World) (kind : Kind) (shared : Option InodeId) (node : Node)
    (after : World) : Prop where
  kind : node.kind = kind
  idle : node.IsIdle
  names : ∃ inodes, world.namespace.inodes ≤ inodes ∧
    after.namespace = { world.namespace with inodes } ∧
    ∀ file, node = .file file → file.inode.index < inodes
  sharing : ∀ inode, shared = some inode → ∃ file, node = .file file ∧ file.inode = inode
  fresh : shared = none → ∀ file, node = .file file → world.namespace.inodes ≤ file.inode.index
  tally : after.tally = match shared, node with
    | none, .file file => Function.update world.tally file.inode (some 1)
    | _, _ => world.tally

def Supplies (newNode : Action Node) (world : World) (kind : Kind) (shared : Option InodeId) :
    Prop :=
  ∃ node after, newNode world = (.ok node, after) ∧ Supply world kind shared node after

theorem supplies_pure (node : Node) (hidle : node.IsIdle) (hfile : ∀ file, node ≠ .file file) :
    Supplies (pure node) world node.kind none := by
  refine ⟨node, world, rfl, rfl, hidle, ?_, nofun, fun _ file h => absurd h (hfile file), ?_⟩
  · exact ⟨_, Nat.le_refl _, rfl, fun file h => absurd h (hfile file)⟩
  · cases node with
    | file file => exact absurd rfl (hfile file)
    | directory names => rfl
    | symlink target => rfl

theorem supplies_inode (inode : Inode) (hlinks : inode.links = 1) : Supplies (do
    let id ← Action.add (·.addInode inode)
    return .file { inode := id }) world .file none := by
  refine ⟨_, _, rfl, rfl, rfl, ⟨_, Nat.le_succ _, World.namespace_addInode, ?_⟩, nofun, ?_, ?_⟩
  · rintro file h
    rw [← Node.file.inj h]
    exact Nat.lt_succ_self _
  · rintro _ file h
    rw [← Node.file.inj h]
    exact Nat.le_refl _
  · dsimp only
    rw [← hlinks]
    exact World.tally_addInode

/-- Another file on an inode that is there. -/
theorem supplies_shared {inode : InodeId} (hinode : inode.index < world.namespace.inodes) :
    Supplies (pure (.file { inode })) world .file (some inode) := by
  refine ⟨_, world, rfl, rfl, rfl, ⟨_, Nat.le_refl _, rfl, ?_⟩, ?_, nofun, rfl⟩
  · rintro file h
    rw [← Node.file.inj h]
    exact hinode
  · rintro other h
    exact ⟨_, rfl, Option.some.inj h⟩

/-- A supplied node makes a new entry. -/
theorem Supply.gains {shared : Option InodeId} {middle : World}
    (h : Supply world kind shared node middle) (hn : world.namespace.Sound) (times : Times)
    (owner : Ownership) :
    (middle.addEntry ⟨times, owner, node⟩).2.namespace.node?
        (middle.addEntry ⟨times, owner, node⟩).1 = some node ∧
      world.namespace.Gains (middle.addEntry ⟨times, owner, node⟩).1 kind
        (middle.addEntry ⟨times, owner, node⟩).2.namespace := by
  obtain ⟨inodes, hinodes, hmiddle, hbacked⟩ := h.names
  have hfresh : middle.namespace.node? (middle.addEntry ⟨times, owner, node⟩).1 = none :=
    World.node?_next
  have hadd : (middle.addEntry ⟨times, owner, node⟩).2.namespace =
      middle.namespace.setNode (middle.addEntry ⟨times, owner, node⟩).1 node :=
    World.namespace_addEntry
  rw [hadd]
  generalize (middle.addEntry ⟨times, owner, node⟩).1 = new at hfresh ⊢
  have hgrows : world.namespace.Grows middle.namespace := hmiddle ▸ hn.setInodes hinodes
  refine ⟨Namespace.node?_setNode_self, ?_⟩
  constructor
  case grows =>
    refine hgrows.trans (hgrows.sound.addNode hfresh h.idle ?_)
    rw [hmiddle]
    exact hbacked
  case loose =>
    rw [← h.kind]
    exact hgrows.sound.loose_addNode hfresh h.idle
  case fresh =>
    rw [hmiddle] at hfresh
    exact hfresh
  case same =>
    intro other hne
    rw [Namespace.node?_setNode_of_ne hne, hmiddle]
  case binds =>
    intro directory binding
    rw [Namespace.binds_setNode_fresh hfresh h.idle, hmiddle]
    exact Iff.rfl
  case ground => rw [Namespace.ground?_setNode, hmiddle]
  case leases => rw [Namespace.leases_setNode, hmiddle]

/-- A new file is on its way to the volume in which its inode is in use already. -/
theorem Supply.booked {shared : Option InodeId} {middle : World}
    (h : Supply world kind shared node middle) (hn : world.namespace.Sound) (hb : world.Booked)
    (hhome : ∀ inode, shared = some inode →
      ∃ source ∈ world.namespace.users inode, world.namespace.Names id source)
    (times : Times) (owner : Ownership) :
    (middle.addEntry ⟨times, owner, node⟩).2.Booked
      (some ⟨id, (middle.addEntry ⟨times, owner, node⟩).1⟩) shared := by
  obtain ⟨hmade, hgains⟩ := h.gains hn times owner
  have htally : (middle.addEntry ⟨times, owner, node⟩).2.tally = middle.tally := rfl
  unfold World.Booked
  rw [htally, h.tally]
  cases node with
  | file file =>
      have hstate : file.state = .live 0 := h.idle
      have hlive : file.state ≠ .pendingDeletion := by rw [hstate]; exact nofun
      cases shared with
      | none => exact Namespace.Booked.gains_inode hb hn hgains hmade hlive (h.fresh rfl file rfl)
      | some inode =>
          obtain ⟨used, hused, rfl⟩ := h.sharing inode rfl
          obtain rfl := Node.file.inj hused
          obtain ⟨source, hsource, hnames⟩ := hhome file.inode rfl
          exact Namespace.Booked.gains_link hb hn hgains hmade hlive hsource hnames
  | _ =>
      cases shared with
      | none =>
          refine Namespace.Booked.gains_plain hb hn hgains fun file hfile => ?_
          rw [hmade] at hfile
          cases hfile
      | some inode =>
          obtain ⟨_, hused, _⟩ := h.sharing inode rfl
          cases hused

/-- A loose entry takes a free name. -/
theorem bind_loose (now : Time) (hn : world.namespace.Sound)
    (hground : world.namespace.ground? id = some ground)
    (htree : world.namespace.InTree id directory)
    (hnode : world.namespace.node? directory = some (.directory names))
    (hfree : names.find? ground.collation name = none) (hloose : world.namespace.Loose entry kind) :
    ∃ after names', Action.bind directory ground.collation name kind entry now world =
        (.ok (), after) ∧
      names.insert ground.collation name kind entry = .ok names' ∧
      after.namespace = world.namespace.setNode directory (.directory names') ∧
      world.namespace.Grows after.namespace ∧ after.namespace.Names id entry ∧
      ∀ owed, world.Booked (some ⟨id, entry⟩) owed → after.Booked none owed := by
  obtain ⟨names', hinsert⟩ : ∃ names', names.insert ground.collation name kind entry = .ok names' :=
    ⟨_, Directory.insert_eq_ok.2 ⟨hfree, rfl⟩⟩
  obtain ⟨after, hrun, hafter, htally⟩ := bind_names now hnode hinsert
  have hgrows := hn.attach hnode hground htree hloose hinsert
  rw [← hafter] at hgrows
  have hbinds : ∀ {parent binding}, after.namespace.Binds parent binding ↔
      world.namespace.Binds parent binding ∨ parent = directory ∧
        binding = ⟨ground.collation.key name, name, kind, entry⟩ := by
    rw [hafter]
    exact Namespace.binds_attach hnode hinsert
  have hin := (hgrows.inTree htree).resolve_right not_false
  have hbound := hbinds.2 (.inr ⟨rfl, rfl⟩)
  refine ⟨after, names', hrun, hinsert, hafter, hgrows, ⟨hbound.bound, hin.step hbound⟩, ?_⟩
  intro owed hb
  unfold World.Booked
  rw [htally]
  refine Namespace.Booked.attach hb hn hgrows (fun inode => ?_) ?_ ⟨hbound.bound, hin.step hbound⟩
  · rw [hafter, Namespace.users_setDirectory hnode]
  · rintro other ⟨parent, binding, hbinding, rfl⟩
    rcases hbinds.1 hbinding with hold | ⟨_, rfl⟩
    · exact .inl hold.bound
    · exact .inr rfl

/-- What a supplied node comes to once it is an entry under a free name. -/
structure Placed (world : World) (id : VolumeId) (directory : EntryId) (names : Directory)
    (collation : Collation) (name : String) (kind : Kind) (entry : EntryId) (node : Node)
    (after : World) : Prop where
  advances : world.Expands after
  node_kind : node.kind = kind
  node_idle : node.IsIdle
  fresh : world.namespace.node? entry = none
  made : after.namespace.node? entry = some node
  named : after.namespace.Names id entry
  bound : ∃ names', names.insert collation name kind entry = .ok names' ∧
    after.namespace.node? directory = some (.directory names')
  same : ∀ {other}, other ≠ entry → other ≠ directory →
    after.namespace.node? other = world.namespace.node? other

/-- A supplied node becomes an entry under a free name. -/
theorem supply_named {newNode : Action Node} (hn : world.namespace.Sound)
    (hnew : Supplies newNode world kind none)
    (hground : world.namespace.ground? id = some ground)
    (htree : world.namespace.InTree id directory)
    (hnode : world.namespace.node? directory = some (.directory names))
    (hfree : names.find? ground.collation name = none) (times : Times) (owner : Ownership)
    (now : Time) :
    ∃ node middle after, newNode world = (.ok node, middle) ∧
      Action.bind directory ground.collation name kind (middle.addEntry ⟨times, owner, node⟩).1 now
        (middle.addEntry ⟨times, owner, node⟩).2 = (.ok (), after) ∧
      Placed world id directory names ground.collation name kind
        (middle.addEntry ⟨times, owner, node⟩).1 node after := by
  obtain ⟨node, middle, hrun, hsupply⟩ := hnew
  obtain ⟨hmade, hgains⟩ := hsupply.gains hn times owner
  have hne : (middle.addEntry ⟨times, owner, node⟩).1 ≠ directory := by
    intro h
    rw [← h, hgains.fresh] at hnode
    cases hnode
  obtain ⟨after, names', hbind, hinsert, hafter, hgrows, hnames, hbooked⟩ :=
    bind_loose now hgains.grows.sound (hgains.ground ▸ hground)
      ((hgains.grows.inTree htree).resolve_right not_false) (hgains.kept hnode) hfree hgains.loose
  refine ⟨node, middle, after, hrun, hbind, ?_⟩
  constructor
  case advances =>
    refine ⟨hgains.grows.trans hgrows, fun hb => hbooked none ?_⟩
    exact hsupply.booked hn hb nofun times owner
  case node_kind => exact hsupply.kind
  case node_idle => exact hsupply.idle
  case fresh => exact hgains.fresh
  case made => rw [hafter, Namespace.node?_setNode_of_ne hne, hmade]
  case named => exact hnames
  case bound =>
    refine ⟨names', hinsert, ?_⟩
    rw [hafter, Namespace.node?_setNode_self]
  case same =>
    intro other hentry hdirectory
    rw [hafter, Namespace.node?_setNode_of_ne hdirectory, hgains.same hentry]

end Action

end RamFs
