import RamFs.Proofs.Namespace.Canonical
import RamFs.Proofs.Namespace.Durable
import RamFs.Proofs.Relocations.Stretches

/-!
Listing a directory and looking its names up. A directory lists its names in the order of their
keys, each of them once, and the names listed are those that a lookup finds: a listed name leads to
an entry of the kind that stands beside it, and a name that leads anywhere is a spelling of exactly
one that is listed.
-/

namespace RamFs

open RamFs.Action

namespace Directory

variable {names : Directory} {collation : Collation} {binding : Binding} {item : String × Kind}
  {name : String}

theorem mem_listing :
    item ∈ names.listing ↔ ∃ binding ∈ names.bindings, (binding.name, binding.kind) = item :=
  List.mem_map

/-- Names that stand under their keys are listed in the order in which they compare. -/
theorem Ordered.listing (hnames : names.Ordered)
    (hkeys : ∀ binding ∈ names.bindings, binding.key = collation.key binding.name) :
    names.listing.Pairwise fun first second =>
      collation.compare first.1 second.1 = .lt ∧ collation.sameName first.1 second.1 = false := by
  refine List.pairwise_map.2 (hnames.imp_of_mem fun {first second} hfirst hsecond hlt => ?_)
  rw [hkeys first hfirst, hkeys second hsecond] at hlt
  constructor
  · exact if_pos hlt
  · rw [Bool.eq_false_iff, ne_eq, Collation.sameName_iff]
    intro hsame
    exact String.lt_irrefl _ (hsame ▸ hlt)

/-- Of the names listed, only the one that is found is a spelling of what was looked up. -/
theorem Ordered.existsUnique_listed (hnames : names.Ordered)
    (hkeys : ∀ binding ∈ names.bindings, binding.key = collation.key binding.name)
    (hfind : names.find? collation name = some binding) :
    ∃! item, item ∈ names.listing ∧ collation.sameName item.1 name = true := by
  have hmem := find?_mem hfind
  have hkey := find?_key hfind
  refine ⟨(binding.name, binding.kind), ⟨mem_listing.2 ⟨binding, hmem, rfl⟩, ?_⟩, ?_⟩
  · exact Collation.sameName_iff.2 ((hkeys binding hmem).symm.trans hkey)
  · rintro item ⟨hitem, hsame⟩
    obtain ⟨other, hother, rfl⟩ := mem_listing.1 hitem
    have hkey' : other.key = binding.key := by
      rw [hkeys other hother, hkey]
      exact Collation.sameName_iff.1 hsame
    rw [hnames.eq_of_key hother hmem hkey']

end Directory

namespace World

variable {world : World} {id : VolumeId} {volume : Volume} {path : Path} {found : Visit}
  {names : Directory} {name : String}

/-- A pass over one name that does not follow a link at the end arrives at what the name is bound
to, whatever that is. -/
theorem pass_name {here : EntryId} (hnames : world.directory here = .ok names)
    (collation : Collation) (followLinks : Bool) (route : List EntryId) (walked : List String)
    (name : String) :
    world.pass collation (.entry false) followLinks here route walked [name] =
      match names.find? collation name with
      | none => .error .notFound
      | some binding => .ok (.arrived binding.entry (route ++ [binding.entry])
          (walked ++ [binding.name])) := by
  rw [pass_cons ne_nil_of_entry_eq_parent, hnames, ok_bind]
  cases names.find? collation name with
  | none => rfl
  | some binding =>
      dsimp only
      cases world.linkTarget? binding.entry with
      | none => exact pass_nil
      | some target => rfl

/-- One name below a canonical path leads to what the directory binds it to. -/
theorem walk_name (hn : world.namespace.Sound) (hvolume : world.volume id = .ok volume)
    (hfound : world.walk volume path (.entry true) true = .ok found)
    (hcanonical : found.path = path) (hnames : world.directory found.entry = .ok names)
    (name : String) (followLinks : Bool) :
    world.walk volume (path.extend [name]) (.entry false) followLinks =
      match names.find? volume.collation name with
      | none => .error .notFound
      | some binding => .ok ⟨binding.entry, found.route ++ [binding.entry],
          volume.pathOf path.root (path.elements ++ [binding.name])⟩ := by
  have hground := ground?_of_volume hvolume
  obtain ⟨top, bindings, hroot, hleads, hroute, helements⟩ := walk_entry_arrives hground hfound
  rw [List.append_nil, hcanonical] at helements
  rw [hcanonical] at hroot
  have hkeys := keys_of_leads hn hground hroot hleads
  rw [← helements] at hkeys
  obtain ⟨ground, hground', htop⟩ := hroot
  obtain rfl := Option.some.inj (hground.symm.trans hground')
  -- the pass goes down to the directory and from there over the last name
  have hpass : world.passFrom volume (.entry false) followLinks path.root
      (path.elements ++ [name]) = _ :=
    passFrom_below hn htop hleads helements hkeys (walk_arrives_no_link hn hvolume hfound)
  rw [pass_name hnames] at hpass
  refine (trail_outcome volume (.entry false)).trans ?_
  dsimp only [Path.extend, Path.withElements]
  rw [hpass, hroute]
  cases names.find? volume.collation name <;> rfl

/-- A text whose canonical path is that of a directory is read as the directory. -/
theorem readDirectory_of_canonical (hn : world.namespace.Sound)
    (hvolume : world.volume id = .ok volume)
    (hfound : world.walk volume path (.entry true) true = .ok found)
    (hnames : world.directory found.entry = .ok names) {text : String}
    (htext : world.canonicalize id text = .ok path) :
    world.readDirectory id text = .ok names.listing := by
  obtain ⟨⟨volume', found'⟩, hvisit, hpath⟩ := exists_of_bind_ok htext
  cases hpath
  obtain ⟨hvolume', path', -, hwalk⟩ := visit_eq_ok hvisit
  obtain rfl := Except.ok.inj (hvolume.symm.trans hvolume')
  -- what the text leads to is what its canonical path leads to
  obtain rfl := Except.ok.inj (hfound.symm.trans ((walk_linkFree hn hvolume hwalk).whole true true))
  unfold readDirectory
  rw [hvisit, ok_bind]
  dsimp only
  rw [hnames, ok_bind]
  rfl

/-- A canonical path of a directory, the names that the directory lists and the lookups of single
names below the path agree. The names are listed in the strict order of their keys and are such as
a path can have; each of them is found as an entry of the kind that is listed with it; and any name
that is found is a spelling of exactly one that is listed. -/
theorem listing_agrees_with_lookup (h : Reachable world) (hvolume : world.volume id = .ok volume)
    (hfound : world.walk volume path (.entry true) true = .ok found)
    (hcanonical : found.path = path) (hnames : world.directory found.entry = .ok names) :
    (∀ text, world.canonicalize id text = .ok path →
      world.readDirectory id text = .ok names.listing) ∧
    (names.listing.Pairwise fun first second =>
      volume.collation.compare first.1 second.1 = .lt ∧
        volume.collation.sameName first.1 second.1 = false) ∧
    (∀ item ∈ names.listing, Path.IsName item.1 ∧ ∀ followLinks, ∃ visit entry,
      world.walk volume (path.extend [item.1]) (.entry false) followLinks = .ok visit ∧
      world.entry visit.entry = .ok entry ∧ entry.kind = item.2) ∧
    ∀ name followLinks visit,
      world.walk volume (path.extend [name]) (.entry false) followLinks = .ok visit →
      ∃! item, item ∈ names.listing ∧ volume.collation.sameName item.1 name = true := by
  have hn := h.sound
  have hground := ground?_of_volume hvolume
  have hnode := directory_eq_ok.1 hnames
  have htree := (walk_entry_arrives hground hfound).inTree
  have hkeys : ∀ binding ∈ names.bindings, binding.key = volume.collation.key binding.name :=
    fun binding hbinding => hn.keyed_in hground htree ⟨names, hnode, hbinding⟩
  have hordered := hn.ordered hnode
  refine ⟨fun text htext => readDirectory_of_canonical hn hvolume hfound hnames htext,
    hordered.listing hkeys, ?found, ?spelled⟩
  case found =>
    intro item hitem
    obtain ⟨binding, hbinding, rfl⟩ := Directory.mem_listing.1 hitem
    refine ⟨h.tidy.bindings hnames binding hbinding, fun followLinks => ?_⟩
    have hfind := hordered.find?_eq_some hbinding (hkeys binding hbinding)
    obtain ⟨node, hbound, hkind⟩ := hn.bound_kind ⟨names, hnode, hbinding⟩
    obtain ⟨entry, hentry, rfl⟩ := entry_of_node? hbound
    have hwalk := walk_name hn hvolume hfound hcanonical hnames binding.name followLinks
    rw [hfind] at hwalk
    exact ⟨_, entry, hwalk, hentry, hkind⟩
  case spelled =>
    intro name followLinks visit hvisit
    rw [walk_name hn hvolume hfound hcanonical hnames] at hvisit
    cases hfind : names.find? volume.collation name with
    | none =>
        rw [hfind] at hvisit
        cases hvisit
    | some binding =>
        exact hordered.existsUnique_listed hkeys hfind

/-- The root directory lists three names of three kinds, one of which is found in capitals. -/
theorem twofold_listing_agrees :
    Reachable twofold ∧ ∃ volume found names, twofold.volume ⟨0⟩ = .ok volume ∧
      twofold.walk volume ⟨0, "/", [], true⟩ (.entry true) true = .ok found ∧
      found.path = ⟨0, "/", [], true⟩ ∧ twofold.directory found.entry = .ok names ∧
      names.listing = [("Dir", .directory), ("Link", .symlink), ("Twin", .file)] ∧
      twofold.readDirectory ⟨0⟩ "/" = .ok names.listing ∧
      ∃! item, item ∈ names.listing ∧ volume.collation.sameName item.1 "LINK" = true := by
  have hreach : Reachable twofold := Reachable.start.run _
  have hvolume : twofold.volume ⟨0⟩ =
      .ok { config := { collation := .insensitivePreserving }, roots := [⟨0⟩] } := by
    decide +kernel
  have hfound : twofold.walk { config := { collation := .insensitivePreserving }, roots := [⟨0⟩] }
      ⟨0, "/", [], true⟩ (.entry true) true = .ok ⟨⟨0⟩, [⟨0⟩], ⟨0, "/", [], true⟩⟩ := by
    decide +kernel
  have hnames : twofold.directory ⟨0⟩ = .ok ⟨[⟨"dir", "Dir", .directory, ⟨1⟩⟩,
      ⟨"link", "Link", .symlink, ⟨2⟩⟩, ⟨"twin", "Twin", .file, ⟨4⟩⟩]⟩ := by
    decide +kernel
  have hlookup : twofold.walk { config := { collation := .insensitivePreserving }, roots := [⟨0⟩] }
      (Path.extend ⟨0, "/", [], true⟩ ["LINK"]) (.entry false) true =
        .ok ⟨⟨2⟩, [⟨0⟩, ⟨2⟩], ⟨0, "/", ["Link"], true⟩⟩ := by
    decide +kernel
  obtain ⟨hlisted, -, -, hspelled⟩ :=
    listing_agrees_with_lookup hreach hvolume hfound rfl hnames
  exact ⟨hreach, _, _, _, hvolume, hfound, rfl, hnames, rfl, hlisted "/" (by decide +kernel),
    hspelled "LINK" true _ hlookup⟩

end World

end RamFs
