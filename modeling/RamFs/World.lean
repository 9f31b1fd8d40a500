import RamFs.Entry

/-!
All volumes with their entries, inodes and open handles, as one value. Entries, inodes,
volumes and handles are never forgotten, so that an identity stays good for ever; what
is in use is what the roots of live volumes and open handles reach. An action reads and
changes a world and may fail; what it changed before it failed stays changed.
-/

namespace RamFs

/-- Identity of a volume. Later volumes have greater identities. -/
structure VolumeId where
  index : Nat
  deriving DecidableEq, Repr

/-- Identity of a handle. -/
structure HandleId where
  index : Nat
  deriving DecidableEq, Repr

structure OpenOptions where
  read : Bool := true
  write : Bool := false
  append : Bool := false
  truncate : Bool := false
  create : Bool := false
  createNew : Bool := false
  deleteOnClose : Bool := false
  deriving DecidableEq, Repr

namespace OpenOptions

def reading : OpenOptions := {}

def writing : OpenOptions := { write := true }

def creating : OpenOptions := { write := true, create := true }

def creatingNew : OpenOptions := { write := true, createNew := true }

def appending : OpenOptions := { write := true, append := true, create := true }

def creates (options : OpenOptions) : Bool :=
  options.create || options.createNew

end OpenOptions

structure Handle where
  volume : VolumeId
  entry : EntryId
  inode : InodeId
  /-- Where the file was opened, links resolved. -/
  path : Path
  options : OpenOptions
  position : Nat := 0
  /-- Locks granted through this handle, less those that it knows to be released. -/
  locks : List RangeLock := []
  isOpen : Bool := true
  deriving DecidableEq, Repr

structure Volume where
  config : Config
  /-- Root directories, in the order of the configured names. -/
  roots : List EntryId
  openHandles : Nat := 0
  /-- How many owners the volume has; it lives as long as there is one. -/
  owners : Nat := 1
  deriving DecidableEq, Repr

namespace Volume

def collation (volume : Volume) : Collation :=
  volume.config.collation

def isLive (volume : Volume) : Bool :=
  volume.owners > 0

def parse (volume : Volume) (text : String) : Except Failure Path :=
  Path.parse volume.config.roots volume.collation text

/-- The path of names below a root. -/
def pathOf (volume : Volume) (root : Nat) (elements : List String) : Path :=
  ⟨root, volume.config.roots.getD root "", elements, true⟩

def rootPaths (volume : Volume) : List Path :=
  volume.config.roots.zipIdx.map fun (name, ordinal) => ⟨ordinal, name, [], true⟩

end Volume

structure World where
  /-- What a clock shows to every action until it is set again. -/
  clock : Time := 0
  volumes : Array Volume := #[]
  entries : Array Entry := #[]
  inodes : Array Inode := #[]
  handles : Array Handle := #[]
  deriving DecidableEq

/-- A step of a world that may fail. -/
abbrev Action (α : Type) := ExceptT Failure (StateM World) α

namespace World

def volume (world : World) (id : VolumeId) : Except Failure Volume :=
  match world.volumes[id.index]? with
  | some volume => .ok volume
  | none => .error .notFound

def entry (world : World) (id : EntryId) : Except Failure Entry :=
  match world.entries[id.index]? with
  | some entry => .ok entry
  | none => .error .notFound

def inode (world : World) (id : InodeId) : Except Failure Inode :=
  match world.inodes[id.index]? with
  | some inode => .ok inode
  | none => .error .notFound

def handle (world : World) (id : HandleId) : Except Failure Handle :=
  match world.handles[id.index]? with
  | some handle => .ok handle
  | none => .error .closed

def directory (world : World) (id : EntryId) : Except Failure Directory := do
  (← world.entry id).directory

def linkTarget? (world : World) (id : EntryId) : Option String :=
  world.entries[id.index]?.bind Entry.linkTarget?

/-- Every symbolic link there is. -/
def links (world : World) : List EntryId :=
  ((List.range world.entries.size).map EntryId.mk).filter fun id => (world.linkTarget? id).isSome

/-- The time that a volume stores now. -/
def now (world : World) (volume : Volume) : Time :=
  volume.config.resolution.truncate world.clock

def modifyVolume (world : World) (id : VolumeId) (f : Volume → Volume) : World :=
  { world with volumes := world.volumes.modify id.index f }

def modifyEntry (world : World) (id : EntryId) (f : Entry → Entry) : World :=
  { world with entries := world.entries.modify id.index f }

def modifyInode (world : World) (id : InodeId) (f : Inode → Inode) : World :=
  { world with inodes := world.inodes.modify id.index f }

def modifyHandle (world : World) (id : HandleId) (f : Handle → Handle) : World :=
  { world with handles := world.handles.modify id.index f }

def addEntry (world : World) (entry : Entry) : EntryId × World :=
  (⟨world.entries.size⟩, { world with entries := world.entries.push entry })

def addInode (world : World) (inode : Inode) : InodeId × World :=
  (⟨world.inodes.size⟩, { world with inodes := world.inodes.push inode })

def addVolume (world : World) (volume : Volume) : VolumeId × World :=
  (⟨world.volumes.size⟩, { world with volumes := world.volumes.push volume })

def addHandle (world : World) (handle : Handle) : HandleId × World :=
  (⟨world.handles.size⟩, { world with handles := world.handles.push handle })

end World

namespace Action

/-- Asks the world without changing it. -/
def ask {α : Type} (query : World → Except Failure α) : Action α :=
  fun world => (query world, world)

/-- Takes an action as far as it goes and never fails. -/
def attempt {α : Type} (action : Action α) : Action (Except Failure α) :=
  fun world => let (outcome, world) := action world; (.ok outcome, world)

/-- Adds something to the world and names it. -/
def add {α : Type} (change : World → α × World) : Action α :=
  fun world => let (id, world) := change world; (.ok id, world)

end Action

end RamFs
