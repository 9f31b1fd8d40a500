import RamFs.Proofs.Namespace.Durable

/-!
Paths that are shown and read again. Whatever absolute path a reachable world hands out, a root, a
canonical path or the path of a handle, it leads down by names from one of the roots; its text is
read as that path again unless the names of the roots make it look like a path below another one.
-/

namespace RamFs

open RamFs.Action

/-- Paths that a volume hands out. -/
inductive World.Produces (world : World) (id : VolumeId) : Path → Prop where
  | root {volume : Volume} {path : Path} : world.volume id = .ok volume →
      path ∈ volume.rootPaths → world.Produces id path
  | canonical {text : String} {path : Path} : world.canonicalize id text = .ok path →
      world.Produces id path
  | handle {handleId : HandleId} {handle : Handle} : world.handle handleId = .ok handle →
      handle.volume = id → world.Produces id handle.path

variable {world : World} {id : VolumeId} {volume : Volume} {path : Path}

theorem Volume.rootPaths_lie (h : path ∈ volume.rootPaths) : path.Lies volume.config.roots := by
  unfold Volume.rootPaths at h
  obtain ⟨⟨name, ordinal⟩, hmem, rfl⟩ := List.mem_map.1 h
  exact ⟨List.mem_zipIdx_iff_getElem?.1 hmem, rfl, List.forall_mem_nil _⟩

theorem World.Tidy.canonical_lies {text : String} (h : world.Tidy)
    (hvolume : world.volume id = .ok volume) (hpath : world.canonicalize id text = .ok path) :
    path.Lies volume.config.roots := by
  unfold World.canonicalize at hpath
  obtain ⟨⟨found, visit⟩, hvisit, hpath⟩ := exists_of_bind_ok hpath
  cases hpath
  unfold World.visit at hvisit
  obtain ⟨known, hknown, hvisit⟩ := exists_of_bind_ok hvisit
  obtain rfl := Except.ok.inj (hknown.symm.trans hvolume)
  obtain ⟨parsed, hparse, hvisit⟩ := exists_of_bind_ok hvisit
  obtain ⟨walked, hwalk, hvisit⟩ := exists_of_bind_ok hvisit
  cases hvisit
  exact h.walk_lies (h.grounded hvolume) (Path.parse_isName hparse) hwalk

/-- A path that a volume hands out leads down by names from a root of the volume. -/
theorem World.Produces.lies (hproduces : world.Produces id path) (h : world.Tidy)
    (hvolume : world.volume id = .ok volume) : path.Lies volume.config.roots := by
  cases hproduces with
  | root hknown hmem =>
      obtain rfl := Except.ok.inj (hknown.symm.trans hvolume)
      exact Volume.rootPaths_lie hmem
  | canonical hpath => exact h.canonical_lies hvolume hpath
  | handle hhandle hsame =>
      obtain ⟨_, known, hknown, hlies⟩ := h.tracks hhandle
      rw [hsame] at hknown
      obtain rfl := Except.ok.inj (hknown.symm.trans hvolume)
      exact hlies

/-- The text of a path that a volume hands out is read as that path exactly where no other root
shadows it, if the root name is set apart from the names. -/
theorem printed_path_parses_back (h : Reachable world) (hvolume : world.volume id = .ok volume)
    (hproduces : world.Produces id path) (hdelimited : path.Delimited) :
    path.absolute = true ∧
      (volume.parse path.text = .ok path ↔
        ¬path.Shadowed volume.collation volume.config.roots) := by
  have hlies := hproduces.lies h.tidy hvolume
  exact ⟨hlies.absolute, Path.parse_text_iff (h.tidy.grounded hvolume).rootNames hlies hdelimited⟩

/-- Two drives, on one of which there is a directory. -/
def World.drives : World :=
  List.foldl Call.perform {} [.newVolume (Config.windows ["C:", "D:"]),
    .onPath ⟨0⟩ (.createDirectory "d:\\Users" {})]

theorem drives_path_parses_back :
    World.drives.volume ⟨0⟩ = .ok ⟨Config.windows ["C:", "D:"], [⟨0⟩, ⟨1⟩], 0, 1⟩ ∧
      World.drives.canonicalize ⟨0⟩ "D:/USERS" = .ok ⟨1, "D:", ["Users"], true⟩ ∧
      Path.text ⟨1, "D:", ["Users"], true⟩ = "D:/Users" ∧
      Volume.parse ⟨Config.windows ["C:", "D:"], [⟨0⟩, ⟨1⟩], 0, 1⟩ "D:/Users" =
        .ok ⟨1, "D:", ["Users"], true⟩ ∧
      ¬Path.Shadowed .insensitivePreserving ["C:", "D:"] ⟨1, "D:", ["Users"], true⟩ := by
  have hreachable : Reachable World.drives := Reachable.start.run _
  have hvolume : World.drives.volume ⟨0⟩ =
      .ok ⟨Config.windows ["C:", "D:"], [⟨0⟩, ⟨1⟩], 0, 1⟩ := by decide +kernel
  have hpath : World.drives.canonicalize ⟨0⟩ "D:/USERS" = .ok ⟨1, "D:", ["Users"], true⟩ := by
    decide +kernel
  have hparse : Volume.parse ⟨Config.windows ["C:", "D:"], [⟨0⟩, ⟨1⟩], 0, 1⟩ "D:/Users" =
      .ok ⟨1, "D:", ["Users"], true⟩ := by decide +kernel
  obtain ⟨_, hiff⟩ := printed_path_parses_back hreachable hvolume (.canonical hpath)
    (.inr (.inr (by decide +kernel)))
  exact ⟨hvolume, hpath, by decide +kernel, hparse, hiff.1 hparse⟩

/-- A root that is named like a directory below another root. -/
def World.nested : World :=
  List.foldl Call.perform {} [.newVolume { roots := ["/", "/a"] },
    .onPath ⟨0⟩ (.createDirectory "//a" {})]

/-- Not every path is found by its text. -/
theorem nested_root_takes_path :
    ¬∀ world, Reachable world → ∀ id volume path, world.volume id = .ok volume →
      world.Produces id path → ∃ parsed, volume.parse path.text = .ok parsed ∧
        parsed.root = path.root ∧ parsed.elements = path.elements ∧ parsed.absolute = true := by
  intro hclaim
  have hpath : World.nested.canonicalize ⟨0⟩ "//a" = .ok ⟨0, "/", ["a"], true⟩ := by
    decide +kernel
  have hvolume : World.nested.volume ⟨0⟩ =
      .ok ⟨{ roots := ["/", "/a"] }, [⟨0⟩, ⟨1⟩], 0, 1⟩ := by decide +kernel
  have hparse : Volume.parse ⟨{ roots := ["/", "/a"] }, [⟨0⟩, ⟨1⟩], 0, 1⟩
      (Path.text ⟨0, "/", ["a"], true⟩) = .ok ⟨1, "/a", [], true⟩ := by decide +kernel
  obtain ⟨parsed, hparsed, hroot, _⟩ := hclaim World.nested (Reachable.start.run _) ⟨0⟩ _ _ hvolume
    (.canonical hpath)
  obtain rfl := Except.ok.inj (hparse.symm.trans hparsed)
  cases hroot

end RamFs
