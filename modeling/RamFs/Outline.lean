import RamFs.Query

/-!
The whole tree of a volume, as a list of paths with what each of them names. Every path
is read again as a text, so that an outline shows what a user of the paths would see.
-/

namespace RamFs

structure OutlineRow where
  path : String
  /-- Attributes, and the target of a symbolic link, which is not followed. -/
  report : Except Failure (Attributes × Option String)

namespace World

/-- The path text of a name in a directory. -/
def childText (parent name : String) : String :=
  if parent.toList.getLast?.any isSeparator then parent ++ name else parent ++ "/" ++ name

/-- The row of a path and, below a directory, the rows of its names; `depth` bounds the
levels below. -/
def outlineFrom (world : World) (id : VolumeId) : Nat → String → List OutlineRow
  | depth, path =>
    match world.metadata id path false with
    | .error failure => [⟨path, .error failure⟩]
    | .ok attributes =>
      let target := if attributes.kind = .symlink then (world.readLink id path).toOption else none
      ⟨path, .ok (attributes, target)⟩ ::
        match attributes.kind, depth with
        | .directory, depth + 1 =>
          ((world.readDirectory id path).toOption.getD []).flatMap fun (name, _) =>
            world.outlineFrom id depth (childText path name)
        | _, _ => []

/-- The outline of a volume, root by root. A path below a root passes each entry at most
once, and may name another root instead once for each of them. -/
def outline (world : World) (id : VolumeId) : List OutlineRow :=
  match world.volume id with
  | .error _ => []
  | .ok volume =>
    let depth := (world.entries.size + 1) * (volume.roots.length + 1)
    volume.rootPaths.flatMap fun root => world.outlineFrom id depth root.text

end World

end RamFs
