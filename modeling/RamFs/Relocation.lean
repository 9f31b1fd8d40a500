import RamFs.Edit

/-!
Copying, moving and hard-linking: actions between two names, perhaps on two volumes.
Both parent directories are resolved first. The action then holds every directory on
the way to either of them for reading and the parents for writing, an ancestor before
what lies below it, and checks all that could refuse it before the first change.
-/

namespace RamFs

structure CopyOptions where
  replaceExisting : Bool := false
  /-- Keep times and owner of the source. -/
  copyAttributes : Bool := false
  deriving DecidableEq, Repr

inductive Relocation where
  | copy (options : CopyOptions)
  | move (options : CopyOptions)
  | link
  deriving DecidableEq, Repr

namespace Relocation

def isMove : Relocation → Bool
  | move _ => true
  | _ => false

def replaces : Relocation → Bool
  | copy options | move options => options.replaceExisting
  | link => false

end Relocation

/-! ### Holds -/

inductive Access where
  | read
  | write
  deriving DecidableEq, Repr

/-- Entries that one action holds, each once. -/
abbrev Holds := List (EntryId × Access)

namespace Holds

def covers (holds : Holds) (entry : EntryId) : Bool :=
  (holds.lookup entry).isSome

/-- Holds an entry. One that is held already stays held as it is, and one that is held
for reading cannot be had for writing as well. -/
def acquire (holds : Holds) (entry : EntryId) (access : Access) : Except Failure Holds :=
  match holds.lookup entry with
  | none => .ok (holds ++ [(entry, access)])
  | some held => if access = .write ∧ held = .read then .error .invalidArgument else .ok holds

/-- Holds a route from a root: its end for writing, the rest for reading. -/
def acquireRoute (holds : Holds) : List EntryId → Except Failure Holds
  | [] => .ok holds
  | [last] => holds.acquire last .write
  | entry :: rest => do
    let holds ← holds.acquire entry .read
    holds.acquireRoute rest

end Holds

/-! ### Slots -/

/-- A name in a directory that exists, bound or not. -/
structure Slot where
  volume : VolumeId
  directory : EntryId
  /-- Everything from the root to the directory. -/
  route : List EntryId
  /-- Path of the directory, without links. -/
  parent : Path
  name : String
  deriving DecidableEq, Repr

namespace Slot

def path (slot : Slot) : Path :=
  slot.parent.withElements (slot.parent.elements ++ [slot.name])

/-- Which of two slots is held first. An ancestor comes before what lies below it. -/
def order (collation : Collation) (a b : Slot) : Ordering :=
  (compare a.volume.index b.volume.index).then <|
    (compare a.parent.root b.parent.root).then <|
      (List.compareLex collation.compare a.parent.elements b.parent.elements).then <|
        collation.compare a.name b.name

/-- Holds the directories of two slots, in their order. -/
def holdBoth (collation : Collation) (a b : Slot) : Except Failure Holds := do
  let (first, second) := if a.order collation b = .gt then (b, a) else (a, b)
  let holds ← Holds.acquireRoute [] first.route
  holds.acquireRoute second.route

end Slot

namespace World

/-- The slot of a path: its parent directory, links followed, and its last name. -/
def slot (world : World) (id : VolumeId) (volume : Volume) (path : Path) :
    Except Failure Slot := do
  let some name := path.fileName? | throw .invalidArgument
  let some parent := path.parent? | throw .invalidArgument
  let found ← world.walk volume parent (.entry true) true
  let _ ← world.directory found.entry
  return ⟨id, found.entry, found.route, found.path, name⟩

end World

namespace Action

/-! ### Duplicates -/

/-- The node of a copy: a file with contents of its own, an empty directory, or a link
with the same target. -/
def duplicateNode (node : Node) : Action Node := do
  match node with
  | .directory _ => return .directory {}
  | .symlink target => return .symlink target
  | .file file =>
    let inode ← Action.ask (·.inode file.inode)
    let copied ← Action.add (·.addInode inode.duplicate)
    return .file { inode := copied }

/-- Makes a copy of an entry for a volume, in no directory yet. -/
def duplicate (volume : Volume) (source : EntryId) (keepAttributes : Bool) : Action EntryId := do
  let entry ← Action.ask (·.entry source)
  let node ← duplicateNode entry.node
  let now := (← get).now volume
  let copied : Entry :=
    if keepAttributes then ⟨entry.times, entry.owner, node⟩
    else ⟨.at now, volume.ownership {} entry.kind, node⟩
  Action.add (·.addEntry copied)

end Action

namespace Relocation

/-! ### Stages -/

/-- What a relocation is about to do, every check passed. -/
structure Plan where
  source : Binding
  /-- What is bound to the target name and has to go. -/
  replaced : Option Binding
  deriving DecidableEq, Repr

/-- Checks a relocation whose source is not its target. -/
def plan (op : Relocation) (sameVolume : Bool) (holds : Holds) (source : Binding)
    (existing : Option Binding) (world : World) : Except Failure Plan := do
  if op = .link then
    match source.kind with
    | .file => pure ()
    | .directory => throw .isADirectory
    | .symlink => throw .invalidArgument
  let holds ← match existing with
    | none => pure holds
    | some binding => do
      if !op.replaces then throw .alreadyExists
      -- a directory held on the way to a parent has an entry below it
      if holds.covers binding.entry then throw .directoryNotEmpty
      let holds ← holds.acquire binding.entry .write
      (← world.entry binding.entry).checkRemovable
      pure holds
  let access := if op.isMove then Access.write else .read
  let _ ← holds.acquire source.entry access
  if op.isMove && !sameVolume then
    (← world.entry source.entry).checkRemovable
  return ⟨source, existing⟩

/-- The entry to bind to the target name. -/
def arrival (op : Relocation) (sameVolume : Bool) (target : Volume) (source : EntryId) :
    Action EntryId := do
  match op with
  | .copy options => Action.duplicate target source options.copyAttributes
  | .move _ => if sameVolume then return source else Action.duplicate target source true
  | .link =>
    let entry ← Action.ask (·.entry source)
    let file ← entry.file
    let now := (← get).now target
    Action.add (·.addEntry ⟨.at now, entry.owner, .file { inode := file.inode }⟩)

/-- Carries a plan out. Nothing here can be refused once the plan is made. -/
def commit (op : Relocation) (sourceVolume targetVolume : Volume) (src dst : Slot)
    (plan : Plan) : Action Unit := do
  let sameVolume : Bool := src.volume = dst.volume
  let entry ← op.arrival sameVolume targetVolume plan.source.entry
  if let some replaced := plan.replaced then
    Action.markDeleted replaced.entry
    Action.unbind dst.directory targetVolume.collation dst.name
  match op with
  | .copy _ => pure ()
  | .move _ =>
    Action.unbind src.directory sourceVolume.collation src.name
    Action.touchModified src.directory ((← get).now sourceVolume)
    if !sameVolume then Action.markDeleted plan.source.entry
  | .link =>
    let file ← (← Action.ask (·.entry plan.source.entry)).file
    modify (·.modifyInode file.inode Inode.addLink)
  Action.bind dst.directory targetVolume.collation dst.name plan.source.kind entry
    ((← get).now targetVolume)

/-- Gives a bound name another spelling and stamps nothing. -/
def respell (slot : Slot) (collation : Collation) (binding : Binding) : Action Unit := do
  let directory ← Action.ask (·.directory slot.directory)
  let respelled ← (directory.erase collation slot.name).insert collation slot.name binding.kind
    binding.entry
  modify (·.modifyEntry slot.directory (·.withDirectory respelled))

/-- Copies, moves or links the entry at one path to another path. When both name the
same entry, only a move to another spelling changes anything. -/
def run (op : Relocation) (sourceId : VolumeId) (source : Path) (targetId : VolumeId)
    (target : Path) : Action Unit := do
  let sameVolume : Bool := sourceId = targetId
  if op = .link && !sameVolume then throw .crossDevice
  let sourceVolume ← Action.ask (·.volume sourceId)
  let targetVolume ← Action.ask (·.volume targetId)
  let src ← Action.ask (·.slot sourceId sourceVolume source)
  let dst ← Action.ask (·.slot targetId targetVolume target)
  if sameVolume && op.isMove && dst.parent.startsWith sourceVolume.collation src.path then
    throw .invalidArgument
  let holds ← Slot.holdBoth sourceVolume.collation src dst
  let sourceDirectory ← Action.ask (·.directory src.directory)
  let targetDirectory ← Action.ask (·.directory dst.directory)
  let some moving := sourceDirectory.find? sourceVolume.collation src.name | throw .notFound
  let existing := targetDirectory.find? targetVolume.collation dst.name
  match existing.filter (·.entry = moving.entry) with
  | some same =>
    if op.isMove && same.name ≠ dst.name then respell dst targetVolume.collation same
  | none =>
    let plan ← Action.ask (op.plan sameVolume holds moving existing)
    op.commit sourceVolume targetVolume src dst plan

end Relocation

namespace VolumeId

/-- Copies an entry, perhaps to another volume. A directory is copied without what is
in it. -/
def copy (id : VolumeId) (source : String) (targetId : VolumeId) (target : String)
    (options : CopyOptions := {}) : Action Unit := do
  let sourcePath ← (← Action.ask (·.volume id)).parse source
  let targetPath ← (← Action.ask (·.volume targetId)).parse target
  (Relocation.copy options).run id sourcePath targetId targetPath

/-- Moves an entry. To another volume only a closed file, an empty directory or a link
can be moved. -/
def move (id : VolumeId) (source : String) (targetId : VolumeId) (target : String)
    (options : CopyOptions := {}) : Action Unit := do
  let sourcePath ← (← Action.ask (·.volume id)).parse source
  let targetPath ← (← Action.ask (·.volume targetId)).parse target
  (Relocation.move options).run id sourcePath targetId targetPath

/-- Adds a second name to a file. -/
def createHardLink (id : VolumeId) (link existing : String) : Action Unit := do
  let volume ← Action.ask (·.volume id)
  let source ← volume.parse existing
  let target ← volume.parse link
  Relocation.link.run id source id target

end VolumeId

end RamFs
