import RamFs.Edit

/-!
Opening files. A file that is opened to be created is looked for name by name: where
the last name is a symbolic link, the file is created where the link points. The
handle keeps the path without links and the inode, whatever happens to the name. A
place among the open handles is taken first, and given back when opening fails.
-/

namespace RamFs

namespace World

/-! ### Finding what to open -/

inductive OpenTarget where
  | existing (entry : EntryId) (path : Path)
  /-- A name that is free in an existing directory. -/
  | vacant (directory : EntryId) (path : Path)
  deriving DecidableEq, Repr

/-- The links at the end of the path that were followed to create a file, in order, and
what was found. -/
structure OpenTrail where
  followed : List EntryId
  outcome : Except Failure OpenTarget

/-- Looks for the name to create, from link to link as long as they are still `unseen`. -/
def createTrail (world : World) (volume : Volume) (createNew : Bool) (unseen : List EntryId)
    (path : Path) : OpenTrail :=
  match lookup with
  | .error failure => ⟨[], .error failure⟩
  | .ok (parent, none) => ⟨[], .ok (.vacant parent.entry parent.path)⟩
  | .ok (parent, some binding) =>
    if createNew then ⟨[], .error .alreadyExists⟩
    else
      match world.linkTarget? binding.entry with
      | none => ⟨[], .ok (.existing binding.entry parent.path)⟩
      | some target =>
        if _hlink : binding.entry ∈ unseen then
          match volume.linkDestination parent.path target with
          | .error failure => ⟨[binding.entry], .error failure⟩
          | .ok destination =>
            let later :=
              world.createTrail volume createNew (unseen.erase binding.entry) destination
            { later with followed := binding.entry :: later.followed }
        else ⟨[], .error .linkLoop⟩
termination_by unseen.length
decreasing_by
  have := List.length_pos_of_mem _hlink
  have := List.length_erase_of_mem _hlink
  omega
where
  /-- The directory of the last name and what the name is bound to. -/
  lookup : Except Failure (Visit × Option Binding) := do
    let parent ← world.walk volume path .parent true
    let some name := parent.path.fileName? | throw .invalidArgument
    let directory ← world.directory parent.entry
    return (parent, directory.find? volume.collation name)

/-- Looks for what to open. Only a file that may have to be created is looked for by its last
name. -/
def openTrail (world : World) (volume : Volume) (path : Path) (options : OpenOptions) :
    OpenTrail :=
  if options.creates then world.createTrail volume options.createNew world.links path
  else
    { followed := []
      outcome := do
        let found ← world.walk volume path (.entry true) true
        return .existing found.entry found.path }

end World

namespace Volume

def takePlace (volume : Volume) : Volume :=
  { volume with openHandles := volume.openHandles + 1 }

def freePlace (volume : Volume) : Volume :=
  { volume with openHandles := volume.openHandles - 1 }

end Volume

namespace VolumeId

/-! ### Places among the open handles -/

/-- Takes a place, if there is one left. -/
def reserveHandle (id : VolumeId) : Action Unit := do
  let volume ← Action.ask (·.volume id)
  if volume.openHandles ≥ volume.config.limits.maxOpenHandles.toNat then throw .tooManyOpenFiles
  modify (·.modifyVolume id Volume.takePlace)

def releaseHandle (id : VolumeId) : Action Unit :=
  modify (·.modifyVolume id Volume.freePlace)

/-- Takes a place and gives it back if the action fails. -/
def reserving {α : Type} (id : VolumeId) (action : Action α) : Action α := do
  id.reserveHandle
  tryCatch action fun failure => do
    id.releaseHandle
    throw failure

/-! ### Opening -/

/-- Finds what to open. At each link on the way the place is given up and taken again. -/
def openTarget (id : VolumeId) (volume : Volume) (path : Path) (options : OpenOptions) :
    Action World.OpenTarget := do
  let trail := (← get).openTrail volume path options
  trail.followed.forM fun _ => do
    id.releaseHandle
    id.reserveHandle
  trail.outcome

/-- The entry to open and its path; a file is made where the name is free. -/
def entryToOpen (volume : Volume) : World.OpenTarget → Action (EntryId × Path)
  | .existing entry path => return (entry, path)
  | .vacant directory path => do
    let some name := path.fileName? | throw .invalidArgument
    let now := (← get).now volume
    let node ← newFile volume
    let entry ← Action.add (·.addEntry ⟨.at now, volume.ownership {} .file, node⟩)
    Action.bind directory volume.collation name .file entry now
    return (entry, path)

/-- Makes a handle on an entry. -/
def openEntry (id : VolumeId) (volume : Volume) (options : OpenOptions) (entry : EntryId)
    (resolved : Path) : Action HandleId := do
  let file ← (← Action.ask (·.entry entry)).file
  let opened ← file.acquire
  let opened := { opened with deleteOnClose := opened.deleteOnClose || options.deleteOnClose }
  modify (·.modifyEntry entry (·.withFile opened))
  if options.truncate && options.write then
    modify (·.modifyInode file.inode (·.truncate 0))
    Action.touchModified entry ((← get).now volume)
  Action.add (·.addHandle
    { volume := id, entry, inode := file.inode, path := resolved, options })

/-- Opens the file at a path. -/
def openFile (id : VolumeId) (text : String) (options : OpenOptions) : Action HandleId := do
  if options.creates && !options.write then throw .invalidArgument
  if options.append && options.truncate then throw .invalidArgument
  let volume ← Action.ask (·.volume id)
  let path ← volume.parse text
  id.reserving do
    let target ← id.openTarget volume path options
    let (entry, resolved) ← entryToOpen volume target
    id.openEntry volume options entry resolved

end VolumeId

end RamFs
