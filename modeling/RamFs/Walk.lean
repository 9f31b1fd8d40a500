import RamFs.World

/-!
From a path to an entry. A pass goes down from a root, one name at a time, and either
arrives or meets a symbolic link that it has to follow. The link's target takes the
place of the names so far and another pass begins. No link is followed twice in one
walk, so that a walk makes at most one pass more than there are links.
-/

namespace RamFs

/-- What a walk is to find. -/
inductive Goal where
  /-- The entry itself. `followLast` says whether a link at the end is followed. -/
  | entry (followLast : Bool)
  /-- The directory that holds the last name, which is not looked up. -/
  | parent
  deriving DecidableEq, Repr

/-- Where a walk arrived. -/
structure Visit where
  /-- The entry, or the directory if that was the goal. -/
  entry : EntryId
  /-- Everything passed since the root, the arrival last. -/
  route : List EntryId
  /-- The path that was walked, without links and spelled as the names are stored. When
  a directory was the goal, its last name is spelled as it was given. -/
  path : Path
  deriving DecidableEq, Repr

inductive Pass where
  | arrived (entry : EntryId) (route : List EntryId) (walked : List String)
  /-- Met a link to follow: its target, the names walked so far and those left. -/
  | detour (link : EntryId) (target : String) (walked rest : List String)
  deriving DecidableEq, Repr

/-- The names that stand for a link: its target, from the link's own directory unless
it names a root, and what was left to walk behind it. -/
def Volume.spliceLink (volume : Volume) (target : String) (root : Nat)
    (directory rest : List String) : Except Failure (Nat × List String) := do
  let parsed ← volume.parse target
  if parsed.absolute then
    return (parsed.root, parsed.elements ++ rest)
  let elements ← Path.pushAll directory (Path.parts target.toList)
  return (root, elements ++ rest)

/-- Where a link at `path` points, whatever is there. -/
def Volume.linkDestination (volume : Volume) (path : Path) (target : String) :
    Except Failure Path := do
  let (root, elements) ← volume.spliceLink target path.root path.elements.dropLast []
  return volume.pathOf root elements

namespace World

/-- One pass from `here` on, with the route and the names that led there. -/
def pass (world : World) (collation : Collation) (goal : Goal) (followLinks : Bool)
    (here : EntryId) (route : List EntryId) (walked : List String) :
    List String → Except Failure Pass
  | [] => .ok (.arrived here route walked)
  | name :: rest => do
    let directory ← world.directory here
    match goal, rest with
    | .parent, [] => return .arrived here route (walked ++ [name])
    | _, _ =>
      let some binding := directory.find? collation name | throw .notFound
      match world.linkTarget? binding.entry with
      | none =>
        world.pass collation goal followLinks binding.entry (route ++ [binding.entry])
          (walked ++ [binding.name]) rest
      | some target =>
        let follow := match goal, rest with
          | .entry followLast, [] => followLast
          | _, _ => followLinks
        if follow then
          return .detour binding.entry target walked rest
        else if rest.isEmpty then
          return .arrived binding.entry (route ++ [binding.entry]) (walked ++ [binding.name])
        else
          throw .notADirectory

/-- A pass from a root. The root itself is in no directory. -/
def passFrom (world : World) (volume : Volume) (goal : Goal) (followLinks : Bool) (root : Nat)
    (names : List String) : Except Failure Pass :=
  match goal, names with
  | .parent, [] => .error .invalidArgument
  | _, _ =>
    match volume.roots[root]? with
    | some top => world.pass volume.collation goal followLinks top [top] [] names
    | none => .error .notFound

/-- The links that a walk followed, in order, and how it ended. -/
structure Trail where
  followed : List EntryId
  outcome : Except Failure Visit

/-- Passes until one arrives, as long as it meets links that are still `unseen`. -/
def trail (world : World) (volume : Volume) (goal : Goal) (followLinks : Bool)
    (unseen : List EntryId) (root : Nat) (names : List String) : Trail :=
  match world.passFrom volume goal followLinks root names with
  | .error failure => ⟨[], .error failure⟩
  | .ok (.arrived entry route walked) => ⟨[], .ok ⟨entry, route, volume.pathOf root walked⟩⟩
  | .ok (.detour link target walked rest) =>
    if _hlink : link ∈ unseen then
      match volume.spliceLink target root walked rest with
      | .error failure => ⟨[link], .error failure⟩
      | .ok (root, names) =>
        let later := world.trail volume goal followLinks (unseen.erase link) root names
        { later with followed := link :: later.followed }
    else ⟨[], .error .linkLoop⟩
termination_by unseen.length
decreasing_by
  have := List.length_pos_of_mem _hlink
  have := List.length_erase_of_mem _hlink
  omega

/-- Walks a path. Links on the way are followed when `followLinks` is set and are no
directories otherwise. -/
def walk (world : World) (volume : Volume) (path : Path) (goal : Goal) (followLinks : Bool) :
    Except Failure Visit :=
  (world.trail volume goal followLinks world.links path.root path.elements).outcome

/-- The entry that a path text names. -/
def visit (world : World) (id : VolumeId) (text : String) (followLast : Bool) :
    Except Failure (Volume × Visit) := do
  let volume ← world.volume id
  let path ← volume.parse text
  let found ← world.walk volume path (.entry followLast) true
  return (volume, found)

end World

end RamFs
