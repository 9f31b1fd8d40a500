import RamFs.Query

/-!
Making volumes, making and deleting single entries, and changing their attributes.
Every action checks all it needs before it changes anything.
-/

namespace RamFs

/-- What a creator asks for; the volume's defaults stand for the rest. -/
structure OwnerRequest where
  mode : Option UInt32 := none
  uid : Option UInt32 := none
  gid : Option UInt32 := none
  deriving DecidableEq, Repr

/-- Times to change; those not given stay. -/
structure TimesRequest where
  created : Option Time := none
  modified : Option Time := none
  accessed : Option Time := none
  deriving DecidableEq, Repr

/-- The owner of a new entry. Symbolic links have octal mode 777 unless asked otherwise. -/
def Volume.ownership (volume : Volume) (request : OwnerRequest) (kind : Kind) : Ownership :=
  let defaults := volume.config.defaults
  let mode := match kind with
    | .directory => defaults.dirMode
    | .file => defaults.fileMode
    | .symlink => 511
  { mode := request.mode.getD mode
    uid := request.uid.getD defaults.uid
    gid := request.gid.getD defaults.gid }

namespace Entry

def setTimes (entry : Entry) (times : TimesRequest) : Entry :=
  { entry with
    times :=
      { created := times.created.getD entry.times.created
        modified := times.modified.getD entry.times.modified
        accessed := times.accessed.getD entry.times.accessed } }

def setMode (entry : Entry) (mode : UInt32) : Entry :=
  { entry with owner := { entry.owner with mode } }

def setOwner (entry : Entry) (uid gid : UInt32) : Entry :=
  { entry with owner := { entry.owner with uid, gid } }

end Entry

namespace Action

/-! ### Steps on one entry -/

/-- Binds a name in a directory and stamps the directory. -/
def bind (directory : EntryId) (collation : Collation) (name : String) (kind : Kind)
    (entry : EntryId) (now : Time) : Action Unit := do
  let bound ← (← Action.ask (·.directory directory)).insert collation name kind entry
  modify (·.modifyEntry directory fun parent => (parent.withDirectory bound).touchModified now)

/-- Removes a name from a directory, without stamping the directory. -/
def unbind (directory : EntryId) (collation : Collation) (name : String) : Action Unit := do
  let bound := (← Action.ask (·.directory directory)).erase collation name
  modify (·.modifyEntry directory (·.withDirectory bound))

def touchModified (entry : EntryId) (now : Time) : Action Unit :=
  modify (·.modifyEntry entry (·.touchModified now))

/-- Takes a file out of use and its inode's count of names down. Other entries need
nothing. -/
def markDeleted (id : EntryId) : Action Unit := do
  let entry ← Action.ask (·.entry id)
  match entry.node with
  | .file file =>
    let gone ← file.markDeleted
    modify (·.modifyEntry id (·.withFile gone))
    modify (·.modifyInode file.inode Inode.removeLink)
  | _ => pure ()

end Action

namespace VolumeId

/-! ### Creation -/

/-- Makes an entry at a path that names nothing yet. -/
def createEntry (id : VolumeId) (text : String) (owner : Ownership) (kind : Kind)
    (newNode : Action Node) : Action Unit := do
  let volume ← Action.ask (·.volume id)
  let path ← volume.parse text
  if path.isRoot then throw .alreadyExists
  let parent ← Action.ask (·.walk volume path .parent true)
  let some name := parent.path.fileName? | throw .invalidArgument
  let directory ← Action.ask (·.directory parent.entry)
  if (directory.find? volume.collation name).isSome then throw .alreadyExists
  let now := (← get).now volume
  let node ← newNode
  let entry ← Action.add (·.addEntry ⟨.at now, owner, node⟩)
  Action.bind parent.entry volume.collation name kind entry now

/-- A file node on a new, empty inode. -/
def newFile (volume : Volume) : Action Node := do
  let inode ← Action.add (·.addInode (.new volume.config.limits.maxFileBlocks.toNat))
  return .file { inode }

def createDirectory (id : VolumeId) (path : String) (request : OwnerRequest := {}) :
    Action Unit := do
  let volume ← Action.ask (·.volume id)
  id.createEntry path (volume.ownership request .directory) .directory (pure (.directory {}))

def createFile (id : VolumeId) (path : String) (request : OwnerRequest := {}) :
    Action Unit := do
  let volume ← Action.ask (·.volume id)
  id.createEntry path (volume.ownership request .file) .file (newFile volume)

/-- Makes a symbolic link. The target is kept as it is given, but it has to be a path. -/
def createSymlink (id : VolumeId) (link target : String) : Action Unit := do
  let volume ← Action.ask (·.volume id)
  let _ ← volume.parse target
  id.createEntry link (volume.ownership {} .symlink) .symlink (pure (.symlink target))

/-! ### Deletion -/

/-- Removes the entry at a path, and only if it is the expected one where one is
expected. A link at the end is removed itself. -/
def deleteEntry (id : VolumeId) (path : Path) (expected : Option EntryId) : Action Unit := do
  if path.isRoot then throw .invalidArgument
  let volume ← Action.ask (·.volume id)
  let parent ← Action.ask (·.walk volume path .parent true)
  let some name := parent.path.fileName? | throw .invalidArgument
  let directory ← Action.ask (·.directory parent.entry)
  let some binding := directory.find? volume.collation name | throw .notFound
  if expected.any (· ≠ binding.entry) then throw .notFound
  (← Action.ask (·.entry binding.entry)).checkRemovable
  Action.markDeleted binding.entry
  Action.unbind parent.entry volume.collation name
  Action.touchModified parent.entry ((← get).now volume)

def delete (id : VolumeId) (text : String) : Action Unit := do
  let volume ← Action.ask (·.volume id)
  let path ← volume.parse text
  id.deleteEntry path none

/-! ### Attributes -/

/-- Changes the entry that a path names, links followed. -/
def modifyAt (id : VolumeId) (text : String) (change : Entry → Entry) : Action Unit := do
  let (_, found) ← Action.ask (·.visit id text true)
  modify (·.modifyEntry found.entry change)

/-- Sets times, cut to the volume's resolution. -/
def setTimes (id : VolumeId) (path : String) (times : TimesRequest) : Action Unit := do
  let volume ← Action.ask (·.volume id)
  let truncate := Option.map volume.config.resolution.truncate
  id.modifyAt path
    (·.setTimes ⟨truncate times.created, truncate times.modified, truncate times.accessed⟩)

def setMode (id : VolumeId) (path : String) (mode : UInt32) : Action Unit :=
  id.modifyAt path (·.setMode mode)

def setOwner (id : VolumeId) (path : String) (uid gid : UInt32) : Action Unit :=
  id.modifyAt path (·.setOwner uid gid)

/-- Shrinks the file at a path; never grows it. -/
def truncate (id : VolumeId) (path : String) (size : Nat) : Action Unit := do
  let (volume, found) ← Action.ask (·.visit id path true)
  let file ← (← Action.ask (·.entry found.entry)).file
  modify (·.modifyInode file.inode (·.truncate size))
  Action.touchModified found.entry ((← get).now volume)

/-! ### Volumes -/

/-- One owner more of a volume that has one. -/
def share (id : VolumeId) : Action Unit :=
  modify (·.modifyVolume id fun volume =>
    { volume with owners := if volume.isLive then volume.owners + 1 else 0 })

/-- One owner less; the volume is gone with its last owner. -/
def drop (id : VolumeId) : Action Unit :=
  modify (·.modifyVolume id fun volume => { volume with owners := volume.owners - 1 })

end VolumeId

/-- Refuses root names that are missing, empty or the same name twice. -/
def Config.checkRoots (config : Config) : Except Failure Unit :=
  if config.roots.isEmpty then .error .invalidArgument
  else if config.roots.contains "" ∨ ¬ (config.roots.map config.collation.key).Nodup then
    .error .invalidName
  else .ok ()

/-- Makes a volume with an empty directory for each root. -/
def newVolume (config : Config) : Action VolumeId := do
  config.checkRoots
  let volume : Volume := ⟨config, [], 0, 1⟩
  let root : Entry :=
    ⟨.at ((← get).now volume), volume.ownership {} .directory, .directory {}⟩
  let roots ← config.roots.mapM fun _ => Action.add (·.addEntry root)
  Action.add (·.addVolume { volume with roots })

end RamFs
