import RamFs.Proofs.Namespace.Spellings
import RamFs.Proofs.Relocations.Carried

/-!
Moves on one volume as calls. Where the two paths name different entries, a move that succeeds has
given one name up, bound one, and done nothing else; where they name one entry it always succeeds
and gives the name, at most, another spelling. Every steady walk below a directory that moved
reaches what it reached before.
-/

namespace RamFs

open RamFs.Action

variable {world after : World} {id : VolumeId} {volume : Volume} {src dst : Slot}
  {moving same : Binding} {collation : Collation} {name s t : String} {options : CopyOptions}
  {names : Directory} {bindings : List Binding}

/-! ### Names spelled anew -/

namespace Directory

/-- The names with one of them spelled as it is given. -/
def respell (names : Directory) (collation : Collation) (name : String) : Directory :=
  ⟨names.bindings.map fun binding =>
    if binding.key = collation.key name then { binding with name } else binding⟩

theorem insertOrdered_of_lt (h : ∀ binding ∈ bindings, same.key < binding.key) :
    insertOrdered same bindings = same :: bindings := by
  cases bindings with
  | nil => rfl
  | cons first rest => exact if_pos (h first List.mem_cons_self)

/-- A binding that is taken out and put in again comes to stand where it stood. -/
theorem insertOrdered_filter
    (hordered : bindings.Pairwise fun first second => first.key < second.key)
    (hmem : same ∈ bindings) :
    insertOrdered { same with name } (bindings.filter (·.key ≠ same.key)) =
      bindings.map fun binding =>
        if binding.key = same.key then { binding with name } else binding := by
  induction bindings with
  | nil => cases hmem
  | cons first rest ih =>
      obtain ⟨hfirst, hrest⟩ := List.pairwise_cons.1 hordered
      rcases List.mem_cons.1 hmem with rfl | hlater
      · have hothers : ∀ binding ∈ rest, binding.key ≠ same.key :=
          fun binding hbinding => (String.ne_of_lt (hfirst binding hbinding)).symm
        have hfront : insertOrdered { same with name } rest = { same with name } :: rest :=
          insertOrdered_of_lt hfirst
        rw [List.filter_cons_of_neg (by simp), List.map_cons, if_pos rfl,
          List.filter_eq_self.2 (by simpa using hothers), hfront,
          List.map_congr_left fun binding hbinding => if_neg (hothers binding hbinding),
          List.map_id']
      · have hlt := hfirst same hlater
        have hne := String.ne_of_lt hlt
        have hge : ¬same.key < first.key := fun hgt => String.lt_irrefl _ (String.lt_trans hlt hgt)
        rw [List.filter_cons_of_pos (by simpa using hne), List.map_cons, if_neg hne,
          ← ih hrest hlater]
        exact if_neg hge

theorem insert_erased (hnames : names.Ordered) (hfind : names.find? collation name = some same) :
    (names.erase collation name).insert collation name same.kind same.entry =
      .ok (names.respell collation name) := by
  have hkey := find?_key hfind
  refine insert_eq_ok.2 ⟨find?_erase, ?_⟩
  have hinsert := @insertOrdered_filter same name names.bindings hnames (find?_mem hfind)
  unfold respell erase
  rw [← hkey]
  exact congrArg Directory.mk hinsert.symm

/-- A name that is spelled as it was given already stays as it is. -/
theorem respell_eq_self (hnames : names.Ordered) (hfind : names.find? collation name = some same)
    (hname : same.name = name) : names.respell collation name = names := by
  have hsame : ∀ binding ∈ names.bindings,
      (if binding.key = collation.key name then { binding with name } else binding) = binding := by
    intro binding hbinding
    split
    case isTrue hkey =>
      rw [hnames.eq_of_key hbinding (find?_mem hfind) (hkey.trans (find?_key hfind).symm), ← hname]
    case isFalse => rfl
  unfold respell
  rw [List.map_congr_left hsame, List.map_id']

end Directory

/-! ### Moves from an entry to itself -/

theorem World.modifyEntry_eq_self {entry : EntryId} {found : Entry} {change : Entry → Entry}
    (hfound : world.entry entry = .ok found) (hchange : change found = found) :
    world.modifyEntry entry change = world := by
  have hentries : world.entries.modify entry.index change = world.entries := by
    apply Array.ext_getElem?
    intro i
    rw [Array.getElem?_modify]
    split
    case isTrue hi =>
      subst hi
      rw [World.entry_eq_ok hfound, Option.map_some, hchange]
    case isFalse => rfl
  unfold World.modifyEntry
  rw [hentries]

namespace Relocation

variable {source target : Path}

/-- Where both slots are bound to one entry, a move has nothing to refuse. -/
theorem decision_same (hn : world.namespace.Sound) (hvolume : world.volume id = .ok volume)
    (hsrc : world.slot id volume source = .ok src) (hdst : world.slot id volume target = .ok dst)
    (hmoving : world.bound? volume src = some moving)
    (hsame : world.bound? volume dst = some same) (hentry : same.entry = moving.entry) :
    (Relocation.move options).decision id source id target world =
      if same.name ≠ dst.name then .ok (.respell dst volume same) else .ok .keep := by
  obtain ⟨rfl, top, bindings, hstays⟩ := World.slot_stays hvolume hsrc
  obtain ⟨hvolumes, top', bindings', hstays'⟩ := World.slot_stays hvolume hdst
  obtain ⟨sourceNames, hsource, hfind⟩ := World.bound?_eq_some hmoving
  obtain ⟨targetNames, htarget, hfind'⟩ := World.bound?_eq_some hsame
  have hbinds : world.namespace.Binds src.directory moving :=
    ⟨sourceNames, World.directory_eq_ok.1 hsource, Directory.find?_mem hfind⟩
  have hbinds' : world.namespace.Binds dst.directory same :=
    ⟨targetNames, World.directory_eq_ok.1 htarget, Directory.find?_mem hfind'⟩
  -- the entry does not lie below itself, and its directory is on the way to it
  have houtside : dst.parent.startsWith volume.collation src.path = false := by
    rw [Bool.eq_false_iff, Ne, World.startsWith_iff_below hn (World.ground?_of_volume hvolume)
      hvolumes.symm hstays hstays']
    rintro ⟨found, below, hfound, hbelow⟩
    obtain rfl := Option.some.inj (hmoving.symm.trans hfound)
    have hloop := hentry ▸ hbelow.step hbinds'
    have hempty := hn.acyclic (hstays.inTree.step hbinds) hloop
    simp at hempty
  obtain ⟨holds, hholds, -, -⟩ := Slot.holdBoth_gains hn hstays hstays' volume.collation
  have hfilter : (targetNames.find? volume.collation dst.name).filter
      (·.entry = moving.entry) = some same := by
    rw [hfind']
    simp [Option.filter, hentry]
  unfold decision
  dsimp only
  rw [hvolume, ok_bind, ok_bind, hsrc, ok_bind, hdst, ok_bind, houtside, Bool.and_false,
    if_neg Bool.false_ne_true, hholds, ok_bind, hsource, ok_bind, htarget, ok_bind, hfind]
  dsimp only
  rw [hfilter]
  by_cases hname : same.name = dst.name
  · simp [hname, isMove]
    rfl
  · simp [hname, isMove]
    rfl

theorem respell_respells (hn : world.namespace.Sound)
    (hnames : world.directory dst.directory = .ok names)
    (hfind : names.find? volume.collation dst.name = some same) :
    respell dst volume.collation same world = (.ok (), world.modifyEntry dst.directory
      (·.withDirectory (names.respell volume.collation dst.name))) := by
  have hinsert := Directory.insert_erased (hn.ordered (World.directory_eq_ok.1 hnames)) hfind
  unfold respell
  rw [bind_ask_ok hnames, bind_lift_ok hinsert, modify_apply]

end Relocation

/-- A move from an entry to itself succeeds and spells its name as the target does. -/
theorem VolumeId.move_same (hn : world.namespace.Sound)
    (hsource : world.slotOf id s = .ok (volume, src))
    (htarget : world.slotOf id t = .ok (volume, dst))
    (hmoving : world.bound? volume src = some moving)
    (hsame : world.bound? volume dst = some same) (hentry : same.entry = moving.entry) :
    ∃ names, world.directory dst.directory = .ok names ∧
      id.move s id t options world = (.ok (), world.modifyEntry dst.directory
        (·.withDirectory (names.respell volume.collation dst.name))) := by
  have hcall : PathCall.Relocates id (.move s id t options) (.move options) s id t :=
    .move s id t options
  obtain ⟨source, target, hsrc, hdst, hrun⟩ := hcall.runs hsource htarget
  obtain ⟨names, hnames, hfind⟩ := World.bound?_eq_some hsame
  have hnode := World.directory_eq_ok.1 hnames
  refine ⟨names, hnames, ?_⟩
  change (PathCall.move s id t options).act id world = _
  rw [hrun, Relocation.run_eq]
  have hdecision := @Relocation.decision_same world id volume src dst moving same options source
    target hn (World.slotOf_eq_ok hsource).1 hsrc hdst hmoving hsame hentry
  by_cases hname : same.name = dst.name
  · rw [if_neg (not_not.2 hname)] at hdecision
    obtain ⟨found, hfound, hdirectory⟩ := World.entry_of_node? hnode
    rw [bind_ask_ok hdecision, Directory.respell_eq_self (hn.ordered hnode) hfind hname,
      World.modifyEntry_eq_self hfound]
    · rfl
    · unfold Entry.withDirectory
      rw [← hdirectory]
  · rw [if_pos hname] at hdecision
    rw [bind_ask_ok hdecision]
    exact Relocation.respell_respells hn hnames hfind

/-! ### Moves to another entry -/

theorem World.slotOf_of_slot {path : Path} (hvolume : world.volume id = .ok volume)
    (hparse : volume.parse s = .ok path) (hslot : world.slot id volume path = .ok src) :
    world.slotOf id s = .ok (volume, src) := by
  unfold World.slotOf
  rw [hvolume, ok_bind, hparse, ok_bind, hslot]
  rfl

namespace Relocation

variable {op : Relocation} {targetId : VolumeId} {source target : Path} {plan : Plan}
  {sourceVolume targetVolume : Volume} {sameVolume : Bool} {holds : Holds}
  {existing : Option Binding}

/-- A plan that replaces something is one of a relocation that may. -/
theorem plan_replaces (h : op.plan sameVolume holds moving existing world = .ok plan)
    (hexisting : existing.isSome = true) : op.replaces = true := by
  obtain ⟨replaced, rfl⟩ := Option.isSome_iff_exists.1 hexisting
  by_contra hkept
  rw [Bool.not_eq_true] at hkept
  unfold Relocation.plan at h
  dsimp only at h
  rw [hkept] at h
  -- a link asks first for what kind of entry its source is
  split at h
  case isFalse => cases h
  case isTrue => cases hkind : moving.kind <;> rw [hkind] at h <;> cases h

/-- A relocation that succeeds has found both slots and the source. If what is bound to the target,
if anything, is another entry, it has carried out the plan to bind the target instead. -/
theorem run_commits (hn : world.namespace.Sound) (hvolume : world.volume id = .ok sourceVolume)
    (hvolume' : world.volume targetId = .ok targetVolume)
    (hrun : op.run id source targetId target world = (.ok (), after)) :
    ∃ src dst moving, world.slot id sourceVolume source = .ok src ∧
      world.slot targetId targetVolume target = .ok dst ∧
      world.bound? sourceVolume src = some moving ∧
      ((∀ existing, world.bound? targetVolume dst = some existing →
          existing.entry ≠ moving.entry) →
        op.Prepared world.namespace sourceVolume targetVolume src dst moving
          (world.bound? targetVolume dst) ∧
        ((world.bound? targetVolume dst).isSome = true → op.replaces = true) ∧
        op.commit sourceVolume targetVolume src dst ⟨moving, world.bound? targetVolume dst⟩ world =
          (.ok (), after)) := by
  rw [run_eq] at hrun
  obtain ⟨decision, hdecision, hcarry⟩ := asked_of_bind_ok hrun
  obtain ⟨_, _, src, dst, holds, sourceNames, targetNames, moving, hasked, hdecided⟩ :=
    decision_asked hdecision
  obtain rfl := Except.ok.inj (hvolume.symm.trans hasked.source_volume)
  obtain rfl := Except.ok.inj (hvolume'.symm.trans hasked.target_volume)
  refine ⟨src, dst, moving, hasked.source_slot, hasked.target_slot,
    (World.bound?_of_directory hasked.source_names).trans hasked.source_found, fun hdifferent => ?_⟩
  rw [World.bound?_of_directory hasked.target_names] at hdifferent ⊢
  have hother : (targetNames.find? targetVolume.collation dst.name).filter
      (·.entry = moving.entry) = none := by
    refine Option.filter_eq_none_iff.2 fun existing hexisting => ?_
    simpa using hdifferent existing hexisting
  rw [hother] at hdecided
  obtain ⟨plan, hplan, hdecided⟩ := exists_of_bind_ok hdecided
  obtain rfl := Except.ok.inj hdecided
  have hprepared := (hasked.decided hother hplan).prepared hn
  have hreplaces := plan_replaces hplan
  obtain ⟨rfl, -⟩ := plan_eq_ok hplan
  exact ⟨hprepared, hreplaces, hcarry⟩

end Relocation

/-- A move that succeeds has found both slots and the source, and moves the source if what is bound
to the target, if anything, is another entry. -/
theorem VolumeId.move_moved (hn : world.namespace.Sound) (hb : world.Booked)
    (hrun : id.move s id t options world = (.ok (), after)) : ∃ volume src dst moving,
      world.slotOf id s = .ok (volume, src) ∧ world.slotOf id t = .ok (volume, dst) ∧
      world.bound? volume src = some moving ∧
      ((∀ existing, world.bound? volume dst = some existing → existing.entry ≠ moving.entry) →
        src.volume = dst.volume ∧
        (Relocation.move options).Prepared world.namespace volume volume src dst moving
          (world.bound? volume dst) ∧
        after.namespace.Sound ∧
        world.Moved volume src dst moving (world.bound? volume dst) after) := by
  unfold VolumeId.move at hrun
  obtain ⟨volume, hvolume, hrun⟩ := asked_of_bind_ok hrun
  obtain ⟨source, hparse, hrun⟩ := lifted_of_bind_ok hrun
  obtain ⟨volume', hvolume', hrun⟩ := asked_of_bind_ok hrun
  obtain rfl := Except.ok.inj (hvolume.symm.trans hvolume')
  obtain ⟨target, hparse', hrun⟩ := lifted_of_bind_ok hrun
  obtain ⟨src, dst, moving, hsrc, hdst, hmoving, hcommits⟩ :=
    Relocation.run_commits hn hvolume hvolume hrun
  refine ⟨volume, src, dst, moving, World.slotOf_of_slot hvolume hparse hsrc,
    World.slotOf_of_slot hvolume hparse' hdst, hmoving, fun hdifferent => ?_⟩
  obtain ⟨hprepared, -, hcarry⟩ := hcommits hdifferent
  obtain ⟨hsource, -⟩ := World.slot_stands hvolume hsrc
  obtain ⟨htarget, -⟩ := World.slot_stands hvolume hdst
  have hvolumes : src.volume = dst.volume := hsource.trans htarget.symm
  obtain ⟨made, hcommit, hsound, hmoved⟩ := Relocation.commit_moved
    ⟨moving, world.bound? volume dst⟩ hn hb hprepared hvolumes
  obtain rfl : made = after := congrArg Prod.snd (hcommit.symm.trans hcarry)
  exact ⟨hvolumes, hprepared, hsound, hmoved⟩

/-- The names below what a slot is bound to are the same however the slot's name is spelled. -/
theorem Slot.extend_alike (hfind : world.bound? volume src = some moving)
    (hkey : moving.key = volume.collation.key moving.name) (names : List String) :
    (src.path.extend names).Alike volume.collation ((src.stored moving).extend names) := by
  obtain ⟨_, _, hfound⟩ := World.bound?_eq_some hfind
  refine ⟨rfl, List.rel_append (List.rel_append (Collation.Alike.refl _ _) ?_)
    (Collation.Alike.refl _ _)⟩
  refine .cons (Collation.sameName_iff.2 ?_) .nil
  rw [← hkey, Directory.find?_key hfound]

/-- A move on one volume relocates and does nothing else. Where the paths name different entries,
the one name is free afterwards, the other is bound to the entry, and what was bound to it is all
that is lost; every steady walk below a directory that moved reaches the entry that it reached
before. Where they name one entry, the move succeeds and gives its name at most another spelling. -/
theorem move_only_relocates (h : Reachable world) :
    (∀ id s t options after, VolumeId.move id s id t options world = (.ok (), after) →
      ∃ volume src dst moving, world.slotOf id s = .ok (volume, src) ∧
        world.slotOf id t = .ok (volume, dst) ∧ world.bound? volume src = some moving ∧
        ((∀ existing, world.bound? volume dst = some existing → existing.entry ≠ moving.entry) →
          world.Moved volume src dst moving (world.bound? volume dst) after ∧
          (moving.kind = .directory → ∀ names followLast followLinks,
            world.Steady volume src dst moving followLast followLinks (.below names) →
            (after.walk volume (dst.path.extend names) (.entry followLast) followLinks).map
                Visit.entry =
              (world.walk volume (src.path.extend names) (.entry followLast) followLinks).map
                Visit.entry))) ∧
    ∀ id s t options volume src dst moving same, world.slotOf id s = .ok (volume, src) →
      world.slotOf id t = .ok (volume, dst) → world.bound? volume src = some moving →
      world.bound? volume dst = some same → same.entry = moving.entry →
      ∃ names, world.directory dst.directory = .ok names ∧
        VolumeId.move id s id t options world = (.ok (), world.modifyEntry dst.directory
          (·.withDirectory (names.respell volume.collation dst.name))) := by
  have hn := h.sound
  refine ⟨fun id s t options after hrun => ?_, fun id s t options volume src dst moving same =>
    VolumeId.move_same hn⟩
  obtain ⟨volume, src, dst, moving, hsource, htarget, hmoving, hmoves⟩ :=
    VolumeId.move_moved hn h.booked hrun
  refine ⟨volume, src, dst, moving, hsource, htarget, hmoving, fun hdifferent => ?_⟩
  obtain ⟨hvolumes, hprepared, hsound, hmoved⟩ := hmoves hdifferent
  refine ⟨hmoved, fun hkind names followLast followLinks hsteady => ?_⟩
  obtain ⟨hvolume, _, -, hsrc⟩ := World.slotOf_eq_ok hsource
  obtain ⟨-, _, -, hdst⟩ := World.slotOf_eq_ok htarget
  obtain ⟨rfl, top, bindings, hstays⟩ := World.slot_stays hvolume hsrc
  obtain ⟨-, top', bindings', hstays'⟩ := World.slot_stays hvolume hdst
  have hkey := hn.keyed_in (World.ground?_of_volume hvolume) hstays.inTree hprepared.source_binds
  rw [World.walk_entry_alike (Slot.extend_alike hmoving hkey names)]
  exact hmoved.walk_below hn hsound hprepared rfl hvolumes hstays hstays' hkind hsteady

/-- A volume with a directory in which one link leads to a file beside it, another to a file at the
root. -/
def World.furnished : World :=
  List.foldl Call.perform {} [.newVolume { collation := .insensitivePreserving },
    .onPath ⟨0⟩ (.createDirectory "/a" {}), .onPath ⟨0⟩ (.createDirectory "/a/d" {}),
    .onPath ⟨0⟩ (.createFile "/a/f" {}), .onPath ⟨0⟩ (.createSymlink "/a/d/l" "../f"),
    .onPath ⟨0⟩ (.createDirectory "/c" {}), .onPath ⟨0⟩ (.createFile "/g" {}),
    .onPath ⟨0⟩ (.createSymlink "/a/m" "/g")]

def Volume.furnished : Volume :=
  { config := { collation := .insensitivePreserving }, roots := [⟨0⟩] }

namespace World

/-- The slot of a name in the root directory. -/
def furnishedTop (name : String) : Slot :=
  ⟨⟨0⟩, ⟨0⟩, [⟨0⟩], ⟨0, "/", [], true⟩, name⟩

def furnishedTarget : Slot :=
  ⟨⟨0⟩, ⟨5⟩, [⟨0⟩, ⟨5⟩], ⟨0, "/", ["c"], true⟩, "x"⟩

def furnishedMoving : Binding :=
  ⟨"a", "a", .directory, ⟨1⟩⟩

theorem furnished_inner_link_steady : furnished.Steady Volume.furnished (furnishedTop "a")
    furnishedTarget furnishedMoving true true (.below ["d", "l"]) := by
  have hmeets : furnished.pass .insensitivePreserving (.entry true) true ⟨1⟩ [] [] ["d", "l"] =
      .ok (.detour ⟨4⟩ "../f" ["d"] []) := by decide +kernel
  have hparse : Volume.furnished.parse "../f" = .ok ⟨0, "/", ["f"], false⟩ := by decide +kernel
  have hparts : Path.parts "../f".toList = ["..", "f"] := by decide +kernel
  have hinside : Path.StaysInside 1 (Path.parts "../f".toList) := by
    rw [hparts]
    simp [Path.StaysInside]
  have hinner : Path.pushAll ["d"] (Path.parts "../f".toList) = .ok ["f"] := by decide +kernel
  have harrives : furnished.pass .insensitivePreserving (.entry true) true ⟨1⟩ [] [] ["f"] =
      .ok (.arrived ⟨3⟩ [⟨3⟩] ["f"]) := by decide +kernel
  exact steady_of_inside hmeets hparse rfl hinside hinner (steady_of_arrives harrives)

theorem furnished_outer_link_steady : furnished.Steady Volume.furnished (furnishedTop "a")
    furnishedTarget furnishedMoving true true (.below ["m"]) := by
  have hmeets : furnished.pass .insensitivePreserving (.entry true) true ⟨1⟩ [] [] ["m"] =
      .ok (.detour ⟨7⟩ "/g" [] []) := by decide +kernel
  have hparse : Volume.furnished.parse "/g" = .ok ⟨0, "/", ["g"], true⟩ := by decide +kernel
  have harrives : furnished.passFrom Volume.furnished (.entry true) true 0 ["g"] =
      .ok (.arrived ⟨6⟩ [⟨0⟩, ⟨6⟩] ["g"]) := by decide +kernel
  refine steady_of_absolute hmeets hparse rfl (steady_elsewhere ?_ harrives)
  -- the walk to the file looks up its name in the root directory, and no other name
  rintro top directory name ⟨⟩ hlookup
  cases hlookup with
  | first =>
      have hkey : Collation.insensitivePreserving.key "g" ≠
        Collation.insensitivePreserving.key "a" := by decide +kernel
      exact ⟨fun his => hkey his.2, fun his => nomatch his.1⟩
  | later _ _ _ hnone => cases hnone

end World

/-- Both links lead where they led once the directory has moved, and the directory can be given
another spelling. -/
theorem furnished_move_only_relocates :
    Reachable World.furnished ∧ ∃ volume src dst moving after,
      World.furnished.slotOf ⟨0⟩ "/a" = .ok (volume, src) ∧
      World.furnished.slotOf ⟨0⟩ "/c/x" = .ok (volume, dst) ∧
      VolumeId.move ⟨0⟩ "/a" ⟨0⟩ "/c/x" {} World.furnished = (.ok (), after) ∧
      World.furnished.Moved volume src dst moving none after ∧
      (after.walk volume (dst.path.extend ["d", "l"]) (.entry true) true).map Visit.entry =
        .ok ⟨3⟩ ∧
      (after.walk volume (dst.path.extend ["m"]) (.entry true) true).map Visit.entry = .ok ⟨6⟩ ∧
      (VolumeId.move ⟨0⟩ "/a" ⟨0⟩ "/A" {} World.furnished).1 = .ok () := by
  have hreach : Reachable World.furnished := Reachable.start.run _
  obtain ⟨hmoves, hrespells⟩ := move_only_relocates hreach
  have hsrc : World.furnished.slotOf ⟨0⟩ "/a" =
      .ok (Volume.furnished, World.furnishedTop "a") := by decide +kernel
  have hdst : World.furnished.slotOf ⟨0⟩ "/c/x" =
      .ok (Volume.furnished, World.furnishedTarget) := by decide +kernel
  have hself : World.furnished.slotOf ⟨0⟩ "/A" =
      .ok (Volume.furnished, World.furnishedTop "A") := by decide +kernel
  have hbound : World.furnished.bound? Volume.furnished (World.furnishedTop "a") =
      some World.furnishedMoving := by decide +kernel
  have hfree : World.furnished.bound? Volume.furnished World.furnishedTarget = none := by
    decide +kernel
  have hspelled : World.furnished.bound? Volume.furnished (World.furnishedTop "A") =
      some World.furnishedMoving := by decide +kernel
  have hok : (VolumeId.move ⟨0⟩ "/a" ⟨0⟩ "/c/x" {} World.furnished).1 = .ok () := by
    decide +kernel
  obtain ⟨volume, src, dst, moving, hsource, htarget, hmoving, hmoved⟩ :=
    hmoves ⟨0⟩ "/a" "/c/x" {} _ (Prod.ext hok rfl)
  cases hsrc.symm.trans hsource
  cases hdst.symm.trans htarget
  obtain rfl := Option.some.inj (hbound.symm.trans hmoving)
  rw [hfree] at hmoved
  obtain ⟨hmoved, hwalks⟩ := hmoved nofun
  refine ⟨hreach, _, _, _, _, _, hsrc, hdst, Prod.ext hok rfl, hmoved, ?_, ?_, ?_⟩
  · rw [hwalks rfl ["d", "l"] true true World.furnished_inner_link_steady]
    decide +kernel
  · rw [hwalks rfl ["m"] true true World.furnished_outer_link_steady]
    decide +kernel
  · obtain ⟨names, -, hrun⟩ := hrespells ⟨0⟩ "/a" "/A" {} _ _ _ _ _ hsrc hself hbound hspelled rfl
    rw [hrun]

/-- A volume with a directory in which a link leads to a file beside the directory. -/
def World.outward : World :=
  List.foldl Call.perform {} [.newVolume {}, .onPath ⟨0⟩ (.createDirectory "/a" {}),
    .onPath ⟨0⟩ (.createDirectory "/c" {}), .onPath ⟨0⟩ (.createFile "/b" {}),
    .onPath ⟨0⟩ (.createSymlink "/a/l" "../b")]

/-- Once the directory has moved into another one the link leads nowhere: its target is resolved
from the link's new place. -/
theorem outward_link_breaks :
    Reachable World.outward ∧ ∃ volume src dst moving after,
      World.outward.slotOf ⟨0⟩ "/a" = .ok (volume, src) ∧
      World.outward.slotOf ⟨0⟩ "/c/a" = .ok (volume, dst) ∧
      World.outward.bound? volume src = some moving ∧ moving.kind = .directory ∧
      World.outward.bound? volume dst = none ∧
      VolumeId.move ⟨0⟩ "/a" ⟨0⟩ "/c/a" {} World.outward = (.ok (), after) ∧
      (World.outward.walk volume (src.path.extend ["l"]) (.entry true) true).map Visit.entry =
        .ok ⟨3⟩ ∧
      after.walk volume (dst.path.extend ["l"]) (.entry true) true = .error .notFound := by
  have hok : (VolumeId.move ⟨0⟩ "/a" ⟨0⟩ "/c/a" {} World.outward).1 = .ok () := by decide +kernel
  exact ⟨Reachable.start.run _, { config := {}, roots := [⟨0⟩] },
    ⟨⟨0⟩, ⟨0⟩, [⟨0⟩], ⟨0, "/", [], true⟩, "a"⟩, ⟨⟨0⟩, ⟨2⟩, [⟨0⟩, ⟨2⟩], ⟨0, "/", ["c"], true⟩, "a"⟩,
    ⟨"a", "a", .directory, ⟨1⟩⟩, _, by decide +kernel, by decide +kernel, by decide +kernel, rfl,
    by decide +kernel, Prod.ext hok rfl, by decide +kernel, by decide +kernel⟩

end RamFs
