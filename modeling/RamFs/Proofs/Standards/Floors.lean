import RamFs.Proofs.Standards.Times

/-!
Truncation of times as a floor. The truncated time is the nearest one before that is a multiple of
the unit, except that a time before 1970 is not changed at all. The order of times is kept either
way, and so is everything that a coarser resolution sees.
-/

namespace RamFs

namespace Resolution

variable {resolution fine : Resolution} {time : Time}

theorem unit_pos (resolution : Resolution) : (0 : Int) < resolution.unit := by
  cases resolution <;> decide

theorem truncate_of_early (h : time < 0) : resolution.truncate time = time := if_pos h

theorem truncate_of_late (h : 0 ≤ time) :
    resolution.truncate time = time - time % resolution.unit := if_neg (Int.not_lt.2 h)

theorem truncate_le (resolution : Resolution) (time : Time) : resolution.truncate time ≤ time := by
  rcases Int.lt_or_le time 0 with hearly | hlate
  · rw [truncate_of_early hearly]
  · rw [truncate_of_late hlate]
    exact Int.sub_le_self time (Int.emod_nonneg time resolution.unit_pos.ne')

theorem sub_truncate_lt (resolution : Resolution) (time : Time) :
    time - resolution.truncate time < resolution.unit := by
  rcases Int.lt_or_le time 0 with hearly | hlate
  · rw [truncate_of_early hearly, Int.sub_self]
    exact resolution.unit_pos
  · rw [truncate_of_late hlate, sub_sub_cancel]
    exact Int.emod_lt_of_pos time resolution.unit_pos

/-- A time from 1970 on becomes a multiple of the unit, any other only if it is one. -/
theorem dvd_truncate_iff :
    (resolution.unit : Int) ∣ resolution.truncate time ↔
      0 ≤ time ∨ (resolution.unit : Int) ∣ time := by
  rcases Int.lt_or_le time 0 with hearly | hlate
  · rw [truncate_of_early hearly, or_iff_right (Int.not_le.2 hearly)]
  · rw [truncate_of_late hlate]
    exact iff_of_true (Int.dvd_self_sub_emod ..) (.inl hlate)

/-- No multiple of the unit lies between the truncated time and the time. -/
theorem le_truncate {multiple : Time} (hmultiple : (resolution.unit : Int) ∣ multiple)
    (hle : multiple ≤ time) (hlate : 0 ≤ time) : multiple ≤ resolution.truncate time := by
  obtain ⟨count, rfl⟩ := hmultiple
  have hcount : count ≤ time / resolution.unit :=
    Int.le_ediv_of_mul_le resolution.unit_pos (Int.mul_comm _ _ ▸ hle)
  rw [truncate_of_late hlate, Int.emod_def, sub_sub_cancel]
  exact Int.mul_le_mul_of_nonneg_left hcount resolution.unit_pos.le

theorem truncate_nonneg (h : 0 ≤ time) : 0 ≤ resolution.truncate time :=
  le_truncate (Int.dvd_zero _) h h

theorem truncate_mono (resolution : Resolution) {later : Time} (h : time ≤ later) :
    resolution.truncate time ≤ resolution.truncate later := by
  rcases Int.lt_or_le time 0 with hearly | hlate
  · rw [truncate_of_early hearly]
    rcases Int.lt_or_le later 0 with hearly' | hlate'
    · rwa [truncate_of_early hearly']
    · exact Int.le_trans (Int.le_of_lt hearly) (truncate_nonneg hlate')
  · refine le_truncate (dvd_truncate_iff.2 (.inl hlate)) ?_ (Int.le_trans hlate h)
    exact Int.le_trans (truncate_le resolution time) h

/-- A coarser resolution sees no more of a time than what a finer one leaves. -/
theorem truncate_truncate_of_finer (h : fine.unit ≤ resolution.unit) :
    resolution.truncate (fine.truncate time) = resolution.truncate time := by
  rcases Int.lt_or_le time 0 with hearly | hlate
  · rw [@truncate_of_early fine time hearly]
  · have hmultiple : (resolution.unit : Int) ∣ resolution.truncate time :=
      dvd_truncate_iff.2 (.inl hlate)
    have hfine : (fine.unit : Int) ∣ resolution.truncate time :=
      Int.dvd_trans (Int.natCast_dvd_natCast.2 (unit_dvd h)) hmultiple
    refine Int.le_antisymm (resolution.truncate_mono (truncate_le fine time)) ?_
    refine le_truncate hmultiple ?_ (truncate_nonneg hlate)
    exact le_truncate hfine (truncate_le resolution time) hlate

end Resolution

/-- Truncation to a resolution is a floor that keeps the order of times: it goes back by less than a
unit, a second time by nothing, and it may be done in a finer resolution first. What it yields is a
multiple of the unit for every time from 1970 on, and for the earlier ones that are multiples
themselves. -/
theorem truncation_is_floor (resolution : Resolution) (time : Time) :
    resolution.truncate time ≤ time ∧ time - resolution.truncate time < resolution.unit ∧
      resolution.truncate (resolution.truncate time) = resolution.truncate time ∧
      (∀ later, time ≤ later → resolution.truncate time ≤ resolution.truncate later) ∧
      (∀ fine : Resolution, fine.unit ≤ resolution.unit →
        resolution.truncate (fine.truncate time) = resolution.truncate time) ∧
      ((resolution.unit : Int) ∣ resolution.truncate time ↔
        0 ≤ time ∨ (resolution.unit : Int) ∣ time) :=
  ⟨resolution.truncate_le time, resolution.sub_truncate_lt time, resolution.truncate_truncate time,
    fun _ => resolution.truncate_mono, fun _ => Resolution.truncate_truncate_of_finer,
    Resolution.dvd_truncate_iff⟩

theorem late_time_loses_its_fraction :
    Resolution.seconds.truncate 1999999999 ≤ Resolution.seconds.truncate 2000000000 ∧
      Resolution.milliseconds.unit ≤ Resolution.seconds.unit ∧
      Resolution.seconds.truncate (Resolution.milliseconds.truncate 1999999999) =
        Resolution.seconds.truncate 1999999999 := by
  obtain ⟨-, -, -, hmono, hfiner, -⟩ := truncation_is_floor .seconds 1999999999
  exact ⟨hmono 2000000000 (by decide), by decide, hfiner .milliseconds (by decide)⟩

/-- The last nanosecond of 1969 is not a whole second, nor is what is left of it. -/
theorem early_time_is_kept :
    Resolution.seconds.truncate (-1) = -1 ∧
      ¬(Resolution.seconds.unit : Int) ∣ Resolution.seconds.truncate (-1) := by
  decide

end RamFs
