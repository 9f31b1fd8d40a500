import RamFs.Proofs.Namespace.Canonical
import RamFs.Proofs.Namespace.Relocations
import RamFs.Proofs.Relocations.Holds
import RamFs.Proofs.Sharing.Copies

/-!
When a relocation is refused as invalid. A move below its own source is recognized by the
spelling of two canonical paths; since there is one route to an entry, the spelling begins with
that of the source just when the route passes the source. No other move is refused in this way:
whatever a relocation asks to hold it is given, and what it writes it holds for writing.
-/

namespace RamFs

open RamFs.Action

theorem World.bound?_eq_some {world : World} {volume : Volume} {slot : Slot} {binding : Binding}
    (h : world.bound? volume slot = some binding) : ∃ names,
      world.directory slot.directory = .ok names ∧
      names.find? volume.collation slot.name = some binding := by
  unfold World.bound? at h
  split at h
  case h_1 names hnames => exact ⟨names, hnames, h⟩
  case h_2 => cases h

namespace Namespace

variable {n : Namespace} {top entry other : EntryId} {bindings bindings' : List Binding}

/-- Bindings with the same keys lead to the same place. -/
theorem Leads.eq_of_keys (hn : n.WellFormed) (h : n.Leads top bindings entry)
    (h' : n.Leads top bindings' other)
    (hkeys : bindings.map Binding.key = bindings'.map Binding.key) :
    bindings = bindings' ∧ entry = other := by
  induction h generalizing bindings' other with
  | top =>
      obtain rfl : bindings' = [] := by simpa using hkeys.symm
      exact ⟨rfl, h'.eq_top.symm⟩
  | @step before directory binding _ hbinds ih =>
      rw [List.map_append] at hkeys
      obtain ⟨before', tail, rfl, hbefore, htail⟩ := List.map_eq_append_iff.1 hkeys.symm
      obtain ⟨binding', rfl, hkey⟩ : ∃ binding', tail = [binding'] ∧ binding'.key = binding.key := by
        simpa [List.map_eq_cons_iff] using htail
      obtain ⟨directory', hleads', hbinds', rfl⟩ := h'.last
      obtain ⟨rfl, rfl⟩ := ih hleads' hbefore.symm
      obtain ⟨names, hnode, hmem⟩ := hbinds
      obtain ⟨names', hnode', hmem'⟩ := hbinds'
      obtain rfl : names = names' := by simpa [hnode] using hnode'
      obtain rfl := (hn.ordered hnode).eq_of_key hmem hmem' hkey.symm
      exact ⟨rfl, rfl⟩

end Namespace

/-- The directory of the target slot is what the source slot is bound to, or lies below it. -/
def World.Below (world : World) (volume : Volume) (src dst : Slot) : Prop :=
  ∃ moving bindings, world.bound? volume src = some moving ∧
    world.namespace.Leads moving.entry bindings dst.directory

variable {world : World} {id sourceId targetId : VolumeId} {volume sourceVolume targetVolume : Volume}
  {src dst : Slot} {top top' : EntryId} {bindings bindings' : List Binding}

/-- The spelling of the target's parent begins with that of the source just when the target lies
below the source. -/
theorem World.startsWith_iff_below (hn : world.namespace.Sound)
    (hground : world.namespace.ground? src.volume = some volume.ground)
    (hvolume : src.volume = dst.volume) (hsrc : src.Stays world.namespace top bindings)
    (hdst : dst.Stays world.namespace top' bindings') :
    dst.parent.startsWith volume.collation src.path = true ↔ world.Below volume src dst := by
  have hkeys := World.keys_of_leads hn hground hsrc.root hsrc.leads
  have hkeys' := World.keys_of_leads hn (hvolume ▸ hground) hdst.root hdst.leads
  rw [Path.startsWith_iff]
  change dst.parent.root = src.parent.root ∧ (src.parent.elements ++ [src.name]).map _ <+: _ ↔ _
  rw [List.map_append, hsrc.elements, hdst.elements, hkeys, hkeys', List.map_singleton]
  constructor
  · -- the route to the target goes the way to the source's directory and on with the source
    rintro ⟨hroot, rest, hrest⟩
    obtain ⟨front, later, rfl, hfront, -⟩ := List.map_eq_append_iff.1 hrest.symm
    obtain ⟨above, tail, rfl, habove, htail⟩ := List.map_eq_append_iff.1 hfront
    obtain ⟨moving, rfl, hkey⟩ : ∃ moving, tail = [moving] ∧
        moving.key = volume.collation.key src.name := by
      simpa [List.map_eq_cons_iff] using htail
    obtain ⟨ground, hsome, htop⟩ := hsrc.root
    obtain ⟨ground', hsome', htop'⟩ := hdst.root
    obtain rfl : ground = ground' := Option.some.inj (hsome.symm.trans (hvolume ▸ hsome'))
    obtain rfl : top = top' := Option.some.inj (htop.symm.trans (hroot ▸ htop'))
    have hleads := hdst.leads
    rw [List.append_assoc] at hleads
    obtain ⟨here, hhere, hbelow⟩ := hleads.split
    obtain ⟨-, rfl⟩ := hhere.eq_of_keys hn.toWellFormed hsrc.leads habove
    obtain ⟨⟨names, hnode, hmem⟩, hbelow⟩ := hbelow.head
    refine ⟨moving, later, ?_, hbelow⟩
    rw [World.bound?_of_directory (World.directory_eq_ok.2 hnode)]
    exact (hn.ordered hnode).find?_eq_some hmem hkey
  · rintro ⟨moving, below, hbound, hbelow⟩
    obtain ⟨names, hnames, hfind⟩ := World.bound?_eq_some hbound
    have hnode := World.directory_eq_ok.1 hnames
    have hleads := (hsrc.leads.step ⟨names, hnode, Directory.find?_mem hfind⟩).append hbelow
    obtain ⟨-, hordinal, -, rfl⟩ := hn.route_unique hsrc.root hdst.root hleads hdst.leads
    refine ⟨hordinal.symm, ?_⟩
    rw [List.map_append, List.map_append, List.map_singleton, Directory.find?_key hfind]
    exact List.prefix_append _ _

/-! ### What a relocation asks to hold -/

/-- Holds what is replaced, if anything is. -/
def Holds.seize (holds : Holds) : Option Binding → Except Failure Holds
  | none => .ok holds
  | some replaced => holds.acquire replaced.entry .write

namespace Relocation

/-- How a relocation holds its source. -/
def access (op : Relocation) : Access :=
  if op.isMove then .write else .read

/-- What is bound to the target name is another entry, and neither directory lies below it. -/
def Replaceable (holds : Holds) (moving : Binding) (existing : Option Binding) : Prop :=
  ∀ replaced, existing = some replaced →
    replaced.entry ≠ moving.entry ∧ holds.covers replaced.entry = false

/-- The relocation is given all that it asks to hold, and it holds both directories, what it
replaces and what it moves for writing. -/
def Grants (op : Relocation) (world : World) (sourceVolume targetVolume : Volume)
    (src dst : Slot) : Prop :=
  ∃ holds, Slot.holdBoth sourceVolume.collation src dst = .ok holds ∧
    holds.lookup src.directory = some .write ∧ holds.lookup dst.directory = some .write ∧
    ∀ moving, world.bound? sourceVolume src = some moving →
      (op.isMove = true → src.volume = dst.volume → ¬world.Below sourceVolume src dst) →
      Replaceable holds moving (world.bound? targetVolume dst) →
      ∃ first last, holds.seize (world.bound? targetVolume dst) = .ok first ∧
        first.acquire moving.entry op.access = .ok last ∧
        (∀ entry, holds.lookup entry = some .write → last.lookup entry = some .write) ∧
        (∀ replaced, world.bound? targetVolume dst = some replaced →
          last.lookup replaced.entry = some .write) ∧
        (op.isMove = true → last.lookup moving.entry = some .write)

variable {op : Relocation} {holds : Holds} {moving : Binding} {existing : Option Binding}

/-- An entry that is held is held for reading only if it may be asked for only for reading. -/
theorem seize_gains (hreplaceable : Replaceable holds moving existing) :
    ∃ first, holds.seize existing = .ok first ∧
      (∀ entry, holds.lookup entry = some .write → first.lookup entry = some .write) ∧
      (∀ replaced, existing = some replaced → first.lookup replaced.entry = some .write) ∧
      first.lookup moving.entry = holds.lookup moving.entry := by
  cases existing with
  | none => exact ⟨holds, rfl, fun _ h => h, nofun, rfl⟩
  | some replaced =>
      obtain ⟨hother, hfree⟩ := hreplaceable replaced rfl
      rw [Holds.covers_eq_false] at hfree
      refine ⟨_, Holds.acquire_of_free hfree, ?_, ?_, ?_⟩
      · intro entry hentry
        rw [Holds.lookup_acquired hfree, if_neg, hentry]
        rintro rfl
        rw [hfree] at hentry
        cases hentry
      · rintro _ ⟨⟩
        rw [Holds.lookup_acquired hfree, if_pos rfl]
      · rw [Holds.lookup_acquired hfree, if_neg (Ne.symm hother)]

theorem grants_of_slots (hn : world.namespace.Sound)
    (hsrc : src.Stays world.namespace top bindings)
    (hdst : dst.Stays world.namespace top' bindings') :
    op.Grants world sourceVolume targetVolume src dst := by
  obtain ⟨holds, hholds, hcovers, hwritten⟩ :=
    Slot.holdBoth_gains hn hsrc hdst sourceVolume.collation
  refine ⟨holds, hholds, (hwritten _).2 (.inl rfl), (hwritten _).2 (.inr rfl), ?_⟩
  intro moving hbound houtside hreplaceable
  obtain ⟨first, hseize, hkept, hreplaced, hsame⟩ := seize_gains hreplaceable
  -- what is moved stands on neither route
  have hfree : op.isMove = true → first.lookup moving.entry = none := by
    intro hmove
    rw [hsame, ← Holds.covers_eq_false, Bool.eq_false_iff]
    intro hheld
    obtain ⟨names, hnames, hfind⟩ := World.bound?_eq_some hbound
    have hbinds : world.namespace.Binds src.directory moving :=
      ⟨names, World.directory_eq_ok.1 hnames, Directory.find?_mem hfind⟩
    rcases (hcovers moving.entry).1 hheld with hpassed | hpassed
    · obtain ⟨htree, rest, hrest⟩ := hsrc.passes hpassed
      exact absurd (hn.acyclic htree (hrest.step hbinds)) (by simp)
    · obtain ⟨htree, rest, hrest⟩ := hdst.passes hpassed
      have hvolume := hn.inTree_unique (hsrc.inTree.step hbinds) htree
      exact houtside hmove hvolume ⟨moving, rest, hbound, hrest⟩
  have hasked : op.access = .write → first.lookup moving.entry ≠ some .read := by
    intro hwrite
    have hmove : op.isMove = true := by
      unfold access at hwrite
      by_contra hnot
      rw [if_neg hnot] at hwrite
      cases hwrite
    rw [hfree hmove]
    nofun
  obtain ⟨last, hlast, hgains⟩ := Holds.acquire_gains first moving.entry op.access hasked
  refine ⟨first, last, hseize, hlast, ?_, ?_, ?_⟩
  · exact fun entry hentry => (hgains.written entry).2 (.inl (hkept entry hentry))
  · exact fun replaced hexisting =>
      (hgains.written replaced.entry).2 (.inl (hreplaced replaced hexisting))
  · intro hmove
    refine (hgains.written moving.entry).2 (.inr ⟨?_, rfl⟩)
    unfold access
    rw [if_pos hmove]

/-! ### Why a relocation is invalid -/

theorem failed_of_bind {α β : Type} {outcome : Except Failure α} {next : α → Except Failure β}
    {failure : Failure} (h : (outcome >>= next) = .error failure) :
    outcome = .error failure ∨ ∃ value, outcome = .ok value ∧ next value = .error failure := by
  cases outcome with
  | error other =>
      cases h
      exact .inl rfl
  | ok value => exact .inr ⟨value, rfl, h⟩

theorem entry_valid {entry : EntryId} : world.entry entry ≠ .error .invalidArgument := by
  unfold World.entry
  split <;> nofun

theorem checkRemovable_valid {found : Entry} : found.checkRemovable ≠ .error .invalidArgument := by
  unfold Entry.checkRemovable
  split
  case h_1 => split <;> nofun
  case h_2 => split <;> nofun
  case h_3 => nofun

/-- A plan is refused as invalid only to link a link, if nothing it asks to hold is refused. -/
theorem plan_invalid {sameVolume : Bool}
    (hgrants : Replaceable holds moving existing → ∃ first last, holds.seize existing = .ok first ∧
      first.acquire moving.entry op.access = .ok last)
    (hother : ∀ binding, existing = some binding → binding.entry ≠ moving.entry)
    (h : op.plan sameVolume holds moving existing world = .error .invalidArgument) :
    op = .link ∧ moving.kind = .symlink := by
  -- the last checks are the same whether or not something is replaced
  have hfinish : ∀ {first : Holds}, (∃ last, first.acquire moving.entry op.access = .ok last) →
      (do
        let _ ← first.acquire moving.entry (if op.isMove = true then Access.write else Access.read)
        if (op.isMove && !sameVolume) = true then do
          (← world.entry moving.entry).checkRemovable
          pure (Plan.mk moving existing)
        else pure (Plan.mk moving existing)) ≠ Except.error .invalidArgument := by
    rintro first ⟨last, hlast⟩ h
    rcases failed_of_bind h with hrefused | ⟨_, _, h⟩
    · cases hlast.symm.trans hrefused
    · split at h
      · rcases failed_of_bind h with hentry | ⟨found, _, h⟩
        · exact entry_valid hentry
        rcases failed_of_bind h with hcheck | ⟨_, _, h⟩
        · exact checkRemovable_valid hcheck
        · cases h
      · cases h
  unfold Relocation.plan at h
  dsimp only at h
  by_cases hlink : op = .link
  · subst hlink
    rw [if_pos rfl] at h
    cases hkind : moving.kind with
    | symlink => exact ⟨rfl, rfl⟩
    | directory =>
        rw [hkind] at h
        cases h
    | file =>
        rw [hkind] at h
        cases existing with
        | some replaced => cases h
        | none =>
            obtain ⟨first, last, hseize, hlast⟩ := hgrants nofun
            obtain rfl := Except.ok.inj hseize
            exact absurd h (hfinish ⟨last, hlast⟩)
  rw [if_neg hlink] at h
  cases existing with
  | none =>
      obtain ⟨first, last, hseize, hlast⟩ := hgrants nofun
      obtain rfl := Except.ok.inj hseize
      exact absurd h (hfinish ⟨last, hlast⟩)
  | some replaced =>
      dsimp only at h
      split at h
      · cases h
      split at h
      · cases h
      case isFalse hcovers =>
      obtain ⟨first, last, hseize, hlast⟩ := hgrants fun binding hbinding => by
        obtain rfl := Option.some.inj hbinding
        exact ⟨hother _ rfl, Bool.eq_false_iff.2 hcovers⟩
      change holds.acquire replaced.entry .write = .ok first at hseize
      rw [hseize, ok_bind] at h
      rcases failed_of_bind h with hentry | ⟨found, _, h⟩
      · exact absurd hentry entry_valid
      rcases failed_of_bind h with hcheck | ⟨_, _, h⟩
      · exact absurd hcheck checkRemovable_valid
      · exact absurd h (hfinish ⟨last, hlast⟩)

section Decisions

variable {source target : Path} {names names' : Directory}

/-- A relocation between slots whose directories are there is refused as invalid if it is a move
below its source, and otherwise only if it links a link. -/
theorem decision_invalid (hn : world.namespace.Sound)
    (hvolume : world.volume sourceId = .ok sourceVolume)
    (hvolume' : world.volume targetId = .ok targetVolume)
    (hsrc : world.slot sourceId sourceVolume source = .ok src)
    (hdst : world.slot targetId targetVolume target = .ok dst)
    (h : op.decision sourceId source targetId target world = .error .invalidArgument) :
    (op.isMove = true ∧ sourceId = targetId ∧ world.Below sourceVolume src dst) ∨
      op = .link ∧ ∃ moving, world.bound? sourceVolume src = some moving ∧
        moving.kind = .symlink := by
  obtain ⟨rfl, top, bindings, hstays⟩ := World.slot_stays hvolume hsrc
  obtain ⟨rfl, top', bindings', hstays'⟩ := World.slot_stays hvolume' hdst
  obtain ⟨names, hnames⟩ := World.slot_directory hsrc
  obtain ⟨names', hnames'⟩ := World.slot_directory hdst
  have hbelow : ∀ hsame : src.volume = dst.volume,
      dst.parent.startsWith sourceVolume.collation src.path = true ↔
        world.Below sourceVolume src dst := fun hsame =>
    World.startsWith_iff_below hn (World.ground?_of_volume hvolume) hsame hstays hstays'
  unfold decision at h
  dsimp only at h
  split at h
  · cases h
  rw [hvolume, ok_bind, hvolume', ok_bind, hsrc, ok_bind, hdst, ok_bind] at h
  split at h
  case isTrue hstarts =>
    rw [Bool.and_eq_true, Bool.and_eq_true, decide_eq_true_iff] at hstarts
    obtain ⟨⟨hsame, hmove⟩, hstarts⟩ := hstarts
    exact .inl ⟨hmove, hsame, (hbelow hsame).1 hstarts⟩
  case isFalse houtside =>
    refine .inr ?_
    obtain ⟨holds, hholds, -, -, hgrants⟩ :=
      @grants_of_slots world sourceVolume targetVolume src dst top top' bindings bindings' op hn
        hstays hstays'
    rw [hholds, ok_bind, hnames, ok_bind, hnames', ok_bind] at h
    rw [World.bound?_of_directory hnames, World.bound?_of_directory hnames'] at hgrants
    rw [World.bound?_of_directory hnames]
    cases hmoving : names.find? sourceVolume.collation src.name with
    | none =>
        rw [hmoving] at h
        cases h
    | some moving =>
        rw [hmoving] at h
        dsimp only at h
        cases hexisting : (names'.find? targetVolume.collation dst.name).filter
            (·.entry = moving.entry) with
        | some same =>
            rw [hexisting] at h
            dsimp only at h
            split at h <;> cases h
        | none =>
            rw [hexisting] at h
            rcases failed_of_bind h with hplan | ⟨_, _, h⟩
            · have hoff : op.isMove = true → src.volume = dst.volume →
                  ¬world.Below sourceVolume src dst := by
                intro hmove hsame hlies
                apply houtside
                rw [hmove, (hbelow hsame).2 hlies, decide_eq_true hsame]
                rfl
              have hother : ∀ binding, names'.find? targetVolume.collation dst.name =
                  some binding → binding.entry ≠ moving.entry := by
                intro binding hbinding hsame
                rw [hbinding] at hexisting
                simp [Option.filter, hsame] at hexisting
              obtain ⟨hlink, hkind⟩ := plan_invalid (fun hreplaceable => by
                obtain ⟨first, last, hseize, hlast, -⟩ := hgrants moving hmoving hoff hreplaceable
                exact ⟨first, last, hseize, hlast⟩) hother hplan
              exact ⟨hlink, moving, rfl, hkind⟩
            · cases h

/-- A move below its source is refused as invalid. -/
theorem decision_below (hn : world.namespace.Sound) (hmove : op.isMove = true)
    (hvolume : world.volume id = .ok volume) (hsrc : world.slot id volume source = .ok src)
    (hdst : world.slot id volume target = .ok dst) (h : world.Below volume src dst) :
    op.decision id source id target world = .error .invalidArgument := by
  obtain ⟨rfl, top, bindings, hstays⟩ := World.slot_stays hvolume hsrc
  obtain ⟨hsame, top', bindings', hstays'⟩ := World.slot_stays hvolume hdst
  have hstarts := (World.startsWith_iff_below hn (World.ground?_of_volume hvolume) hsame.symm hstays
    hstays').2 h
  have hlink : (op = .link && !decide (src.volume = src.volume)) = false := by simp
  unfold decision
  dsimp only
  rw [hlink, if_neg Bool.false_ne_true, hvolume, ok_bind, ok_bind, hsrc, ok_bind, hdst, ok_bind,
    hmove, hstarts, decide_eq_true rfl]
  rfl

end Decisions

end Relocation

/-! ### Calls -/

/-- The call copies, moves or links what one path names to another path. -/
inductive PathCall.Relocates (id : VolumeId) :
    PathCall → Relocation → String → VolumeId → String → Prop where
  | copy (source : String) (targetId : VolumeId) (target : String) (options : CopyOptions) :
      Relocates id (.copy source targetId target options) (.copy options) source targetId target
  | move (source : String) (targetId : VolumeId) (target : String) (options : CopyOptions) :
      Relocates id (.move source targetId target options) (.move options) source targetId target
  | link (link existing : String) :
      Relocates id (.createHardLink link existing) .link existing id link

theorem World.slotOf_eq_ok {text : String} {slot : Slot}
    (h : world.slotOf id text = .ok (volume, slot)) : world.volume id = .ok volume ∧
      ∃ path, volume.parse text = .ok path ∧ world.slot id volume path = .ok slot := by
  unfold World.slotOf at h
  obtain ⟨_, hvolume, h⟩ := exists_of_bind_ok h
  obtain ⟨path, hparse, h⟩ := exists_of_bind_ok h
  obtain ⟨_, hslot, h⟩ := exists_of_bind_ok h
  cases h
  exact ⟨hvolume, path, hparse, hslot⟩

/-- Where both slots are there, the call is one relocation. -/
theorem PathCall.Relocates.runs {call : PathCall} {op : Relocation} {s t : String}
    (hcall : PathCall.Relocates id call op s targetId t)
    (hsource : world.slotOf id s = .ok (sourceVolume, src))
    (htarget : world.slotOf targetId t = .ok (targetVolume, dst)) :
    ∃ source target, world.slot id sourceVolume source = .ok src ∧
      world.slot targetId targetVolume target = .ok dst ∧
      call.act id world = op.run id source targetId target world := by
  obtain ⟨hvolume, source, hparse, hsrc⟩ := World.slotOf_eq_ok hsource
  obtain ⟨hvolume', target, hparse', hdst⟩ := World.slotOf_eq_ok htarget
  refine ⟨source, target, hsrc, hdst, ?_⟩
  cases hcall with
  | copy s targetId t options =>
      change id.copy s targetId t options world = _
      unfold VolumeId.copy
      rw [bind_ask_ok hvolume, bind_lift_ok hparse, bind_ask_ok hvolume', bind_lift_ok hparse']
  | move s targetId t options =>
      change id.move s targetId t options world = _
      unfold VolumeId.move
      rw [bind_ask_ok hvolume, bind_lift_ok hparse, bind_ask_ok hvolume', bind_lift_ok hparse']
  | link =>
      obtain rfl := Except.ok.inj (hvolume.symm.trans hvolume')
      change id.createHardLink t s world = _
      unfold VolumeId.createHardLink
      rw [bind_ask_ok hvolume, bind_lift_ok hparse, bind_lift_ok hparse']

/-- Once everything is decided a relocation cannot fail, so that it is refused where its decision
is. -/
theorem Relocation.run_refused {op : Relocation} {source target : Path} {failure : Failure}
    (hn : world.namespace.Sound) :
    (op.run sourceId source targetId target world).1 = .error failure ↔
      op.decision sourceId source targetId target world = .error failure := by
  rw [run_eq]
  cases hdecision : op.decision sourceId source targetId target world with
  | error other =>
      rw [bind_apply, ask_apply, hdecision]
      simp
  | ok decision =>
      obtain ⟨after, hrun, -⟩ := carryOut_of_decision hn hdecision
      rw [bind_ask_ok hdecision, hrun]
      simp

/-- A move within a volume is refused as invalid just when the directory of its target is what it
would move or lies below that. No copy, move or link is ever refused what it asks to hold, and all
that it writes it holds for writing; what else is invalid is to link a link. -/
theorem move_invalid_iff_below_source (h : Reachable world) :
    (∀ id s t options volume src dst, world.slotOf id s = .ok (volume, src) →
      world.slotOf id t = .ok (volume, dst) →
      ((id.move s id t options world).1 = .error .invalidArgument ↔ world.Below volume src dst)) ∧
    ∀ id call op s targetId t sourceVolume targetVolume src dst,
      PathCall.Relocates id call op s targetId t →
      world.slotOf id s = .ok (sourceVolume, src) →
      world.slotOf targetId t = .ok (targetVolume, dst) →
      op.Grants world sourceVolume targetVolume src dst ∧
      ((call.act id world).1 = .error .invalidArgument →
        (op.isMove = true ∧ id = targetId ∧ world.Below sourceVolume src dst) ∨
        op = .link ∧ ∃ moving, world.bound? sourceVolume src = some moving ∧
          moving.kind = .symlink) := by
  have hn := h.sound
  have hreason : ∀ {id call op s targetId t sourceVolume targetVolume src dst},
      PathCall.Relocates id call op s targetId t →
      world.slotOf id s = .ok (sourceVolume, src) →
      world.slotOf targetId t = .ok (targetVolume, dst) →
      (call.act id world).1 = .error .invalidArgument →
        (op.isMove = true ∧ id = targetId ∧ world.Below sourceVolume src dst) ∨
        op = .link ∧ ∃ moving, world.bound? sourceVolume src = some moving ∧
          moving.kind = .symlink := by
    intro id call op s targetId t sourceVolume targetVolume src dst hcall hsource htarget hinvalid
    obtain ⟨source, target, hsrc, hdst, hrun⟩ := hcall.runs hsource htarget
    rw [hrun, Relocation.run_refused hn] at hinvalid
    exact Relocation.decision_invalid hn (World.slotOf_eq_ok hsource).1
      (World.slotOf_eq_ok htarget).1 hsrc hdst hinvalid
  refine ⟨?_, ?_⟩
  · intro id s t options volume src dst hsource htarget
    constructor
    · intro hinvalid
      rcases hreason (.move s id t options) hsource htarget hinvalid with
        ⟨-, -, hbelow⟩ | ⟨hlink, -⟩
      · exact hbelow
      · cases hlink
    · intro hbelow
      have hcall : PathCall.Relocates id (.move s id t options) (.move options) s id t :=
        .move s id t options
      obtain ⟨source, target, hsrc, hdst, hrun⟩ := hcall.runs hsource htarget
      change ((PathCall.move s id t options).act id world).1 = _
      rw [hrun, Relocation.run_refused hn]
      exact Relocation.decision_below hn rfl (World.slotOf_eq_ok hsource).1 hsrc hdst hbelow
  · intro id call op s targetId t sourceVolume targetVolume src dst hcall hsource htarget
    obtain ⟨hvolume, _, -, hsrc⟩ := World.slotOf_eq_ok hsource
    obtain ⟨hvolume', _, -, hdst⟩ := World.slotOf_eq_ok htarget
    obtain ⟨-, top, bindings, hstays⟩ := World.slot_stays hvolume hsrc
    obtain ⟨-, top', bindings', hstays'⟩ := World.slot_stays hvolume' hdst
    exact ⟨Relocation.grants_of_slots hn hstays hstays', hreason hcall hsource htarget⟩

/-- A volume with a directory in a directory, and a link that leads to the inner one. -/
def World.enclosed : World :=
  List.foldl Call.perform {} [.newVolume {}, .onPath ⟨0⟩ (.createDirectory "/a" {}),
    .onPath ⟨0⟩ (.createDirectory "/a/b" {}), .onPath ⟨0⟩ (.createSymlink "/l" "a/b")]

/-- Through the link the outer directory cannot be moved into the inner one, but it can be
copied there. -/
theorem enclosed_move_is_invalid :
    Reachable World.enclosed ∧ ∃ volume src dst, World.enclosed.slotOf ⟨0⟩ "/a" = .ok (volume, src) ∧
      World.enclosed.slotOf ⟨0⟩ "/l/x" = .ok (volume, dst) ∧ World.enclosed.Below volume src dst ∧
      (VolumeId.move ⟨0⟩ "/a" ⟨0⟩ "/l/x" {} World.enclosed).1 = .error .invalidArgument ∧
      (Relocation.copy {}).Grants World.enclosed volume volume src dst ∧
      (VolumeId.copy ⟨0⟩ "/a" ⟨0⟩ "/l/x" {} World.enclosed).1 = .ok () := by
  have hreach : Reachable World.enclosed := Reachable.start.run _
  obtain ⟨hinvalid, hcalls⟩ := move_invalid_iff_below_source hreach
  have hsrc : World.enclosed.slotOf ⟨0⟩ "/a" = .ok ({ config := {}, roots := [⟨0⟩] },
      ⟨⟨0⟩, ⟨0⟩, [⟨0⟩], ⟨0, "/", [], true⟩, "a"⟩) := by
    decide +kernel
  have hdst : World.enclosed.slotOf ⟨0⟩ "/l/x" = .ok ({ config := {}, roots := [⟨0⟩] },
      ⟨⟨0⟩, ⟨2⟩, [⟨0⟩, ⟨1⟩, ⟨2⟩], ⟨0, "/", ["a", "b"], true⟩, "x"⟩) := by
    decide +kernel
  have hmove : (VolumeId.move ⟨0⟩ "/a" ⟨0⟩ "/l/x" {} World.enclosed).1 = .error .invalidArgument := by
    decide +kernel
  obtain ⟨hgrants, -⟩ := hcalls _ _ _ _ _ _ _ _ _ _ (.copy "/a" ⟨0⟩ "/l/x" {}) hsrc hdst
  exact ⟨hreach, _, _, _, hsrc, hdst, (hinvalid _ _ _ _ _ _ _ hsrc hdst).1 hmove, hmove, hgrants,
    by decide +kernel⟩

end RamFs
