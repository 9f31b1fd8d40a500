import RamFs.Proofs.Namespace.Steps

/-!
Calls on single entries. Each either fails and leaves the world as it was, or leads to a sound
namespace that has lost at most the entry that was to be deleted.
-/

namespace RamFs

open RamFs.Action

variable {world : World} {kind : Kind} {node : Node} {δ : Type} {view : World → δ}

namespace VolumeId

/-! ### Creation -/

theorem createEntry_transacts {newNode : Action Node} (hn : world.namespace.Sound)
    (hnew : Supplies newNode world kind none) (id : VolumeId) (text : String) (owner : Ownership) :
    Transacts (id.createEntry text owner kind newNode) world fun _ after =>
      world.Expands after := by
  unfold VolumeId.createEntry
  refine transacts_ask_bind fun volume hvolume => transacts_lift_bind fun path _ => ?_
  split
  · exact transacts_throw
  refine transacts_ask_bind fun parent hparent => ?_
  obtain ⟨name, harrives, hname⟩ :=
    World.walk_parent_arrives (World.ground?_of_volume hvolume) hparent
  rw [hname]
  refine transacts_ask_bind fun names hnames => ?_
  split
  · exact transacts_throw
  case isFalse hfree =>
  apply transacts_get_bind
  obtain ⟨node, middle, after, hrun, hbind, hplaced⟩ := supply_named hn hnew
    (World.ground?_of_volume hvolume) harrives.inTree (World.directory_eq_ok.1 hnames)
    (Option.not_isSome_iff_eq_none.1 hfree) (.at (world.now volume)) owner (world.now volume)
  refine .bind_of_ok hrun ⟨(), after, ?_, hplaced.advances⟩
  rw [bind_ok (add_apply ..)]
  exact hbind

/-- Making an entry opens and closes nothing. -/
theorem createEntry_keeps [Aloof view] {newNode : Action Node} (hnew : Keeps view newNode)
    (id : VolumeId) (text : String) (owner : Ownership) :
    Keeps view (id.createEntry text owner kind newNode) := by
  unfold VolumeId.createEntry
  refine (keeps_ask _).bind fun volume => (keeps_lift _).bind fun path => ?_
  refine .ite ((keeps_throw _).bind fun _ => ?_) ?_
  all_goals
    refine (keeps_ask _).bind fun parent => ?_
    split
    case h_2 => exact keeps_throw _
    refine (keeps_ask _).bind fun names => .ite ((keeps_throw _).bind fun _ => ?_) ?_
    all_goals
      exact keeps_get.bind fun _ => hnew.bind fun _ => .bind (keeps_add fun _ => Aloof.new_entry)
        fun _ => bind_keeps _ _ _ _ _ _

theorem newFile_keeps [Aloof view] (volume : Volume) : Keeps view (newFile volume) :=
  .bind (keeps_add fun _ => Aloof.new_inode rfl) fun _ => keeps_pure _

theorem createDirectory_transacts (hn : world.namespace.Sound) (id : VolumeId) (path : String)
    (request : OwnerRequest) :
    Transacts (id.createDirectory path request) world fun _ after =>
      world.Expands after :=
  transacts_ask_bind fun _ _ =>
    createEntry_transacts hn (supplies_pure (.directory {}) rfl nofun) id path _

theorem createFile_transacts (hn : world.namespace.Sound) (id : VolumeId) (path : String)
    (request : OwnerRequest) :
    Transacts (id.createFile path request) world fun _ after =>
      world.Expands after :=
  transacts_ask_bind fun _ _ => createEntry_transacts hn (supplies_inode _ rfl) id path _

theorem createSymlink_transacts (hn : world.namespace.Sound) (id : VolumeId)
    (link target : String) :
    Transacts (id.createSymlink link target) world fun _ after =>
      world.Expands after :=
  transacts_ask_bind fun _ _ => transacts_lift_bind fun _ _ =>
    createEntry_transacts hn (supplies_pure (.symlink target) trivial nofun) id link _

/-! ### Deletion -/

theorem deleteEntry_transacts (hn : world.namespace.Sound) (id : VolumeId) (path : Path)
    (expected : Option EntryId) :
    Transacts (id.deleteEntry path expected) world fun _ after =>
      world.Advances (fun entry => world.namespace.Spent after.namespace entry ∧
        ∀ only, expected = some only → entry = only) after := by
  unfold VolumeId.deleteEntry
  split
  · exact transacts_throw
  refine transacts_ask_bind fun volume hvolume => transacts_ask_bind fun parent hparent => ?_
  obtain ⟨name, harrives, hname⟩ :=
    World.walk_parent_arrives (World.ground?_of_volume hvolume) hparent
  rw [hname]
  refine transacts_ask_bind fun names hnames => ?_
  dsimp only
  split
  case h_2 => exact transacts_throw
  case h_1 binding hfind =>
  split
  · exact transacts_throw
  case isFalse hexpected =>
  refine transacts_ask_bind fun found hfound => transacts_lift_bind fun _ hcheck => ?_
  have hnode := World.directory_eq_ok.1 hnames
  have hbinds : world.namespace.Binds parent.entry binding :=
    ⟨names, hnode, Directory.find?_mem hfind⟩
  obtain ⟨hentry, hidle⟩ := World.idle_of_checkRemovable hn hbinds.bound hfound hcheck
  obtain ⟨middle, after, hmark, hunbind, hafter, _, hevolves, hbooked⟩ :=
    mark_unbind hn hnode hfind hentry hidle
  apply Transacts.bind_of_ok hmark
  rw [bind_ok hunbind, bind_ok (get_apply _)]
  obtain ⟨last, htouch, hlast, htally⟩ :=
    touchModified_names after parent.entry (after.now volume)
  have hleases : last.namespace.leases = world.namespace.leases := by
    rw [hlast, hafter, Namespace.leases_retire, Namespace.leases_setNode]
  have hadvances : world.Advances (· = binding.entry) last :=
    (World.Advances.trans ⟨hevolves, hbooked none⟩
      (.of_same hevolves.sound hlast htally)).weaken fun _ hlost => hlost.resolve_right not_false
  refine ⟨(), last, htouch, hadvances.weaken ?_⟩
  rintro _ rfl
  refine ⟨hn.spent_of_idle hentry hidle hleases, ?_⟩
  rintro only rfl
  have honly : only = binding.entry := by simpa using hexpected
  exact honly.symm

/-- Removing an entry opens and closes nothing. -/
theorem deleteEntry_keeps [Aloof view] (id : VolumeId) (path : Path)
    (expected : Option EntryId) : Keeps view (id.deleteEntry path expected) := by
  unfold VolumeId.deleteEntry
  refine .ite ((keeps_throw _).bind fun _ => ?_) ?_
  all_goals
    refine (keeps_ask _).bind fun volume => (keeps_ask _).bind fun parent => ?_
    split
    case h_2 => exact keeps_throw _
    refine (keeps_ask _).bind fun directory => ?_
    split
    case h_2 => exact keeps_throw _
    refine .ite ((keeps_throw _).bind fun _ => ?_) ?_
    all_goals
      exact (keeps_ask _).bind fun _ => (keeps_lift _).bind fun _ =>
        (markDeleted_keeps _).bind fun _ => (unbind_keeps _ _ _).bind fun _ =>
          keeps_get.bind fun _ => touchModified_keeps _ _

theorem delete_transacts (hn : world.namespace.Sound) (id : VolumeId) (text : String) :
    Transacts (id.delete text) world fun _ after =>
      world.Advances (world.namespace.Spent after.namespace) after :=
  transacts_ask_bind fun _ _ => transacts_lift_bind fun path _ =>
    (deleteEntry_transacts hn id path none).mono fun _ _ h => h.weaken fun _ hlost => hlost.1

/-! ### Attributes -/

theorem modifyAt_keeps [Aloof view] (id : VolumeId) (text : String) (change : Entry → Entry) :
    Keeps view (id.modifyAt text change) :=
  (keeps_ask _).bind fun _ => keeps_modify fun _ => Aloof.entries

theorem truncate_keeps [Aloof view] (id : VolumeId) (path : String) (size : Nat) :
    Keeps view (id.truncate path size) :=
  (keeps_ask _).bind fun _ => (keeps_ask _).bind fun _ => (keeps_lift _).bind fun _ =>
    .bind (keeps_modify fun _ => Aloof.inodes fun _ => rfl) fun _ => keeps_get.bind fun _ =>
      touchModified_keeps _ _

theorem modifyAt_transacts (hn : world.namespace.Sound) (id : VolumeId) (text : String)
    {change : Entry → Entry} (hchange : ∀ entry, (change entry).node = entry.node) :
    Transacts (id.modifyAt text change) world fun _ after =>
      world.Expands after :=
  transacts_ask_bind fun _ _ => .of_ok (modify_apply ..)
    (.of_same hn (World.namespace_modifyEntry_same hchange) rfl)

theorem setTimes_transacts (hn : world.namespace.Sound) (id : VolumeId) (path : String)
    (times : TimesRequest) :
    Transacts (id.setTimes path times) world fun _ after =>
      world.Expands after :=
  transacts_ask_bind fun _ _ => modifyAt_transacts hn id path fun _ => rfl

theorem truncate_transacts (hn : world.namespace.Sound) (id : VolumeId) (path : String)
    (size : Nat) :
    Transacts (id.truncate path size) world fun _ after =>
      world.Expands after := by
  unfold VolumeId.truncate
  refine transacts_ask_bind fun found _ => ?_
  dsimp only
  refine transacts_ask_bind fun entry _ => transacts_lift_bind fun file _ => ?_
  apply Transacts.bind_of_ok (modify_apply ..)
  rw [bind_ok (get_apply _)]
  obtain ⟨last, htouch, hlast, htally⟩ := touchModified_names (world.modifyInode file.inode
    (·.truncate size)) found.2.entry _
  refine ⟨(), last, htouch, .of_same hn (hlast.trans World.namespace_modifyInode) ?_⟩
  rw [htally]
  exact World.tally_modifyInode_same fun _ => rfl

end VolumeId

/-! ### Volumes -/

/-- Making the same empty directory for each of some names gives as many loose directories. -/
theorem mapM_addEntry (root : Entry) (hroot : root.node = .directory {}) (roots : List String) :
    ∀ {world : World}, world.namespace.Sound → ∃ tops after,
      (roots.mapM fun _ => (Action.add (·.addEntry root) : Action EntryId)) world =
        (.ok tops, after) ∧
      world.Expands after ∧ tops.Nodup ∧
      (∀ top ∈ tops, world.namespace.node? top = none ∧
        after.namespace.Loose top .directory) ∧
      (∀ entry kind, world.namespace.Loose entry kind → after.namespace.Loose entry kind) ∧
      after.namespace.ground? = world.namespace.ground? := by
  induction roots with
  | nil =>
      intro world hn
      exact ⟨[], world, rfl, .refl hn, List.nodup_nil, nofun, fun _ _ h => h, rfl⟩
  | cons name rest ih =>
      intro world hn
      have hfresh : world.namespace.node? (world.addEntry root).1 = none := World.node?_next
      have hadd : (world.addEntry root).2.namespace =
        world.namespace.setNode (world.addEntry root).1 root.node := World.namespace_addEntry
      have hidle : root.node.IsIdle := by rw [hroot]; rfl
      have hplain : ∀ file, root.node ≠ .file file := by rw [hroot]; exact nofun
      have hgrows := hn.addNode hfresh hidle fun file hfile => absurd hfile (hplain file)
      have hloose := hn.loose_addNode hfresh hidle
      have hkeep : ∀ entry kind, world.namespace.Loose entry kind →
          (world.addEntry root).2.namespace.Loose entry kind := by
        rw [hadd]
        exact fun _ _ h => h.addNode hfresh hidle
      have hadvances : world.Expands (world.addEntry root).2 := by
        refine ⟨hadd ▸ hgrows, fun hb => ?_⟩
        unfold World.Booked
        rw [hadd]
        refine Namespace.Booked.grows hb hn hgrows
          (fun _ => Namespace.users_addNode hfresh hplain) ?_
        rintro entry ⟨parent, binding, hbinding, hentry⟩
        exact ⟨parent, binding, (Namespace.binds_setNode_fresh hfresh hidle).1 hbinding, hentry⟩
      rw [← hadd, hroot] at hloose
      obtain ⟨tops, after, hrun, hadvances', hnodup, htops, hloose', hground⟩ :=
        ih hadvances.evolves.sound
      refine ⟨(world.addEntry root).1 :: tops, after, ?_,
        World.Expands.trans hadvances hadvances', ?_, ?_,
        fun entry kind h => hloose' entry kind (hkeep entry kind h), ?_⟩
      · rw [List.mapM_cons, bind_ok (add_apply ..), bind_ok hrun, pure_apply]
      · refine List.nodup_cons.2 ⟨fun hmem => ?_, hnodup⟩
        have hnone := (htops _ hmem).1
        rw [hadd, Namespace.node?_setNode_self] at hnone
        cases hnone
      · intro top hmem
        rcases List.mem_cons.1 hmem with rfl | hmem
        · exact ⟨hfresh, hloose' _ _ hloose⟩
        · obtain ⟨hnone, htop⟩ := htops top hmem
          refine ⟨?_, htop⟩
          rw [hadd] at hnone
          by_cases h : top = (world.addEntry root).1
          · rw [h]
            exact hfresh
          · rwa [Namespace.node?_setNode_of_ne h] at hnone
      · rw [hground, hadd, Namespace.ground?_setNode]

/-- A new volume comes last, and nothing is open on it. -/
theorem newVolume_transacts (hn : world.namespace.Sound) (config : Config) :
    Transacts (newVolume config) world fun _ after => world.Expands after ∧
      ∃ volume : Volume, volume.openHandles = 0 ∧
        after.roster = ⟨world.volumes.push volume, world.namespace.leases⟩ := by
  unfold newVolume
  refine transacts_lift_bind fun _ _ => transacts_get_bind ?_
  have hroot : ∀ (root : Entry) (_ : String), Keeps World.roster
      (Action.add (·.addEntry root) : Action EntryId) := fun _ _ => keeps_add fun _ => rfl
  have hkeeps := Keeps.mapM (hroot ⟨.at (world.now ⟨config, [], 0, 1⟩),
    Volume.ownership ⟨config, [], 0, 1⟩ {} .directory, .directory {}⟩) config.roots world
  obtain ⟨tops, middle, hrun, hexpands, hnodup, htops, _⟩ := mapM_addEntry
    ⟨.at (world.now ⟨config, [], 0, 1⟩), Volume.ownership ⟨config, [], 0, 1⟩ {} .directory,
      .directory {}⟩ rfl config.roots hn
  rw [hrun] at hkeeps
  refine .bind_of_ok hrun ⟨_, _, add_apply .., ?_, ⟨config, tops, 0, 1⟩, rfl, ?_⟩
  · have hloose : ∀ top ∈ tops, middle.namespace.Loose top .directory :=
      fun top htop => (htops top htop).2
    exact World.Expands.trans hexpands (.of_ground hexpands.evolves.sound
      World.namespace_addVolume rfl (hexpands.evolves.sound.found World.ground?_next hnodup hloose))
  · exact congrArg (fun roster : Roster => Roster.mk (roster.volumes.push ⟨config, tops, 0, 1⟩)
      roster.leases) hkeeps

namespace VolumeId

theorem share_expands (hn : world.namespace.Sound) (id : VolumeId) :
    world.Expands (id.share world).2 := by
  change world.Expands (world.modifyVolume id _)
  cases hvolume : world.volume id with
  | error failure => exact .of_same hn (World.namespace_modifyVolume_of_missing hvolume) rfl
  | ok volume =>
      refine .of_ground hn (World.namespace_modifyVolume _ hvolume) rfl ?_
      refine hn.grows_setOwners (World.ground?_of_volume hvolume) fun hlive => ?_
      change 0 < if volume.isLive then volume.owners + 1 else 0
      rw [if_pos (show volume.isLive = true from decide_eq_true hlive)]
      exact Nat.succ_pos _

theorem drop_sound (hn : world.namespace.Sound) (id : VolumeId) :
    (id.drop world).2.namespace.Sound := by
  change (world.modifyVolume id _).namespace.Sound
  cases hvolume : world.volume id with
  | error failure =>
      rw [World.namespace_modifyVolume_of_missing hvolume]
      exact hn
  | ok volume =>
      rw [World.namespace_modifyVolume _ hvolume]
      exact hn.setOwners (World.ground?_of_volume hvolume)

/-- The names in a volume are counted on when nobody owns it any more. -/
theorem drop_booked (hb : world.Booked) (id : VolumeId) :
    (id.drop world).2.Booked := by
  change (world.modifyVolume id _).Booked
  unfold World.Booked
  cases hvolume : world.volume id with
  | error failure =>
      rw [World.namespace_modifyVolume_of_missing hvolume]
      exact hb
  | ok volume =>
      have hroots : ∀ {id' ordinal top}, (world.namespace.setGround id
          { volume.ground with owners := volume.owners - 1 }).IsRoot id' ordinal top ↔
            world.namespace.IsRoot id' ordinal top :=
        Namespace.isRoot_setOwners (World.ground?_of_volume hvolume)
      rw [World.namespace_modifyVolume _ hvolume]
      refine Namespace.Booked.congr hb (fun _ => rfl) fun {other entry} => or_congr_left ?_
      exact ⟨fun h => h.mono hroots.1 fun hbinds => hbinds,
        fun h => h.mono hroots.2 fun hbinds => hbinds⟩

/-- A volume that keeps an owner loses nothing. -/
theorem drop_expands (hn : world.namespace.Sound) (id : VolumeId)
    (hkept : ∀ volume, world.volume id = .ok volume → volume.owners ≠ 1) :
    world.Expands (id.drop world).2 := by
  change world.Expands (world.modifyVolume id _)
  cases hvolume : world.volume id with
  | error failure => exact .of_same hn (World.namespace_modifyVolume_of_missing hvolume) rfl
  | ok volume =>
      refine .of_ground hn (World.namespace_modifyVolume _ hvolume) rfl ?_
      refine hn.grows_setOwners (World.ground?_of_volume hvolume) fun hlive => ?_
      have hne := hkept volume hvolume
      change 0 < volume.owners at hlive
      change 0 < volume.owners - 1
      omega

end VolumeId

end RamFs
