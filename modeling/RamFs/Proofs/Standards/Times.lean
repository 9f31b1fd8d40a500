import RamFs.Proofs.Standards.Runs

/-!
Granularity of stored times. Every time is cut to the resolution of the volume when it is stored,
except for those that a move or a copy with attributes takes along. They stay multiples of the unit
only where the unit of the other volume is no greater.
-/

namespace RamFs

namespace Resolution

variable {resolution fine coarse : Resolution} {time : Time}

theorem truncate_eq_self :
    resolution.truncate time = time ↔ time < 0 ∨ (resolution.unit : Int) ∣ time := by
  unfold truncate
  split
  case isTrue hearly => exact ⟨fun _ => .inl hearly, fun _ => rfl⟩
  case isFalse hlate =>
    rw [or_iff_right hlate, Int.dvd_iff_emod_eq_zero]
    exact sub_eq_self

theorem truncate_truncate (resolution : Resolution) (time : Time) :
    resolution.truncate (resolution.truncate time) = resolution.truncate time := by
  rw [truncate_eq_self]
  unfold truncate
  split
  case isTrue hearly => exact .inl hearly
  case isFalse => exact .inr (Int.dvd_self_sub_emod ..)

theorem unit_dvd (h : fine.unit ≤ coarse.unit) : fine.unit ∣ coarse.unit := by
  revert h
  cases fine <;> cases coarse <;> decide

theorem truncate_of_coarser (h : fine.unit ≤ coarse.unit) (htime : coarse.truncate time = time) :
    fine.truncate time = time := by
  rw [truncate_eq_self] at htime ⊢
  exact htime.imp_right (Int.dvd_trans (Int.natCast_dvd_natCast.2 (unit_dvd h)))

end Resolution

/-- Times are cut to the resolution. -/
def Standard.granular : Standard where
  time config time := config.resolution.truncate time = time
  store _ _ := True
  time_now config now := config.resolution.truncate_truncate now
  store_new _ := trivial
  store_write _ _ := trivial
  store_truncate _ _ := trivial
  store_transfer _ _ _ _ := trivial

/-- If the relocation takes times along, then to a volume that is as fine at least. -/
def Relocation.KeepsGrain (op : Relocation) (_ : Kind) (source target : Config) : Prop :=
  op.keepsTimes = true → target.resolution.unit ≤ source.resolution.unit

theorem Relocation.KeepsGrain.carries {op : Relocation} {kind : Kind} {source target : Config}
    (h : op.KeepsGrain kind source target) : Standard.granular.Carries op kind source target :=
  ⟨fun _ _ _ => trivial, fun hkeeps _ => Resolution.truncate_of_coarser (h hkeeps)⟩

variable {world : World} {id : VolumeId} {volume : Volume} {entry : EntryId} {found : Entry}

/-- However entries are made, changed, copied and moved, on however many volumes, every time of
every entry is cut to the resolution of its volume, as long as no coarser volume is given times
of a finer one. -/
theorem stored_times_are_granular
    (h : ReachableBy (Call.Between Relocation.KeepsGrain) world)
    (hvolume : world.volume id = .ok volume) (htree : world.namespace.InTree id entry)
    (hentry : world.entry entry = .ok found) :
    volume.config.resolution.truncate found.times.created = found.times.created ∧
      volume.config.resolution.truncate found.times.modified = found.times.modified ∧
      volume.config.resolution.truncate found.times.accessed = found.times.accessed := by
  have hconforms : world.Conforms Standard.granular := h.conforms Relocation.KeepsGrain.carries
  exact hconforms.times hvolume htree hentry

namespace World

/-- Two volumes, and a file on the first of them. -/
def paired (first second : Resolution) : World :=
  List.foldl Call.perform {} [.newVolume { resolution := first },
    .newVolume { resolution := second }, .setClock 1500000001,
    .onPath ⟨0⟩ (.createFile "/f" {})]

/-- The file is copied to the second volume, times and all. -/
def handedOver (first second : Resolution) : World :=
  Call.perform (paired first second) (.onPath ⟨0⟩ (.copy "/f" ⟨1⟩ "/g" { copyAttributes := true }))

theorem reachable_handedOver {first second : Resolution}
    (hgrain : second.unit ≤ first.unit) :
    ReachableBy (Call.Between Relocation.KeepsGrain) (handedOver first second) := by
  have hpaired : ReachableBy (Call.Between Relocation.KeepsGrain) (paired first second) :=
    ReachableBy.start.run _ (by simp [Call.Between])
  refine hpaired.step _ fun source target _ hsource htarget _ _ => ?_
  have hfirst : ((paired first second).volume ⟨0⟩).map (·.config.resolution) = .ok first := by
    cases first <;> cases second <;> decide +kernel
  have hsecond : ((paired first second).volume ⟨1⟩).map (·.config.resolution) = .ok second := by
    cases first <;> cases second <;> decide +kernel
  rw [hsource] at hfirst
  rw [htarget] at hsecond
  have hsame : source.config.resolution = first := Except.ok.inj hfirst
  have hsame' : target.config.resolution = second := Except.ok.inj hsecond
  rw [hsame, hsame']
  exact hgrain

theorem handedOver_tree (first second : Resolution) :
    (handedOver first second).namespace.InTree ⟨1⟩ ⟨3⟩ := by
  have hground : (handedOver first second).namespace.ground? ⟨1⟩ = some ⟨.sensitive, [⟨1⟩], 1⟩ := by
    cases first <;> cases second <;> decide +kernel
  have hbinds : (handedOver first second).namespace.Binds ⟨1⟩ ⟨"g", "g", .file, ⟨3⟩⟩ :=
    ⟨⟨[_]⟩, by cases first <;> cases second <;> decide +kernel, List.mem_singleton_self _⟩
  exact ⟨0, ⟨1⟩, _, ⟨_, hground, rfl⟩, .step .top hbinds⟩

end World

theorem refined_times_are_granular : ∃ volume found,
    (World.handedOver .seconds .milliseconds).volume ⟨1⟩ = .ok volume ∧
    (World.handedOver .seconds .milliseconds).entry ⟨3⟩ = .ok found ∧
    volume.config.resolution.truncate found.times.created = found.times.created ∧
    volume.config.resolution.truncate found.times.modified = found.times.modified ∧
    volume.config.resolution.truncate found.times.accessed = found.times.accessed := by
  have hreachable : ReachableBy (Call.Between Relocation.KeepsGrain)
      (World.handedOver .seconds .milliseconds) := World.reachable_handedOver (by decide)
  have htree := World.handedOver_tree .seconds .milliseconds
  obtain ⟨_, _, _, ⟨ground, hground, _⟩, _⟩ := id htree
  obtain ⟨volume, hvolume, _⟩ := World.volume_of_ground? hground
  have hfile : (World.handedOver .seconds .milliseconds).namespace.node? ⟨3⟩ =
      some (.file { inode := ⟨1⟩ }) := by decide +kernel
  obtain ⟨found, hfound, _⟩ := World.entry_of_node? hfile
  exact ⟨volume, found, hvolume, hfound, stored_times_are_granular hreachable hvolume htree hfound⟩

/-- A volume of seconds is given milliseconds with a copied file. -/
theorem coarsened_times_are_not_granular :
    Reachable (World.handedOver .milliseconds .seconds) ∧
    (World.handedOver .milliseconds .seconds).namespace.InTree ⟨1⟩ ⟨3⟩ ∧
    ((World.handedOver .milliseconds .seconds).volume ⟨1⟩).map (·.config.resolution) =
      .ok .seconds ∧
    ((World.handedOver .milliseconds .seconds).entry ⟨3⟩).map Entry.times =
      .ok (.at 1500000000) ∧
    Resolution.seconds.truncate 1500000000 ≠ 1500000000 :=
  ⟨(Reachable.start.run _).step _, World.handedOver_tree .milliseconds .seconds, by decide +kernel,
    by decide +kernel, by decide⟩

end RamFs
