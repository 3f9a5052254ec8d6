import Mathlib.Data.List.Nodup
import MotionNotation.Proofs.Stage.Replay

/-!
# Exact reports

The changes in the report of an update are what the update has done to the
targets: every cell at most once, with the value that it has afterwards, and
nothing that is not in the report has changed.
-/

namespace MotionNotation

variable {α : Type}

namespace Change

def cell (change : Change α) : TargetId × Channel :=
  (change.target, change.channel)

theorem sameCell_eq_false_iff (first second : Change α) :
    first.sameCell second = false ↔ first.cell ≠ second.cell := by
  by_cases htarget : first.target = second.target <;> simp [sameCell, cell, htarget]

theorem nodup_cells_iff (changes : List (Change α)) :
    (changes.map cell).Nodup ↔
      changes.Pairwise fun first second => first.sameCell second = false := by
  rw [List.nodup_iff_pairwise_ne, List.pairwise_map]
  simp only [sameCell_eq_false_iff]

theorem valueAt?_eq_none_iff (changes : List (Change α)) (id : TargetId) (channel : Channel) :
    valueAt? changes id channel = none ↔ (id, channel) ∉ changes.map cell := by
  rw [valueAt?, Option.map_eq_none_iff, List.find?_eq_none]
  simp [cell]

theorem valueAt?_of_mem {changes : List (Change α)} {change : Change α}
    (once : (changes.map cell).Nodup) (hmem : change ∈ changes) :
    valueAt? changes change.target change.channel = some change.value := by
  cases hvalue : valueAt? changes change.target change.channel with
  | none =>
      have hnone := (valueAt?_eq_none_iff ..).mp hvalue
      exact absurd (List.mem_map_of_mem hmem) hnone
  | some value =>
      rw [valueAt?, Option.map_eq_some_iff] at hvalue
      obtain ⟨found, hfind, rfl⟩ := hvalue
      have hfound := List.mem_of_find?_eq_some hfind
      have hcell : found.cell = change.cell := by simpa [cell] using List.find?_some hfind
      rw [List.inj_on_of_nodup_map once hfound hmem hcell]

end Change

structure Report.Exact (report : Report α) (before after : Roster α) : Prop where
  once : (report.changes.map Change.cell).Nodup
  current : ∀ change ∈ report.changes,
    after.valueAt? change.target change.channel = some change.value
  unchanged : ∀ id channel, (id, channel) ∉ report.changes.map Change.cell →
    after.valueAt? id channel = before.valueAt? id channel
  measures : ∀ id, (after.get? id).map Target.measures = (before.get? id).map Target.measures

namespace Stage

variable [Scalar α] [Eases α]

theorem get?_sweepFrom_measures (config : Config α) (now : α) (targets : Roster α)
    (runs : List (Running α)) (id : TargetId) :
    ((sweepFrom config now targets runs).targets.get? id).map Target.measures =
      (targets.get? id).map Target.measures := by
  induction runs generalizing targets with
  | nil => rfl
  | cons run rest ih =>
      rw [sweepFrom]
      split
      · exact ih targets
      · rename_i target htarget
        obtain ⟨writes, hwrites, -⟩ := advance_writes config run target now
        rw [ih, Roster.get?_insert]
        split
        · rename_i hid
          rw [hid, htarget, Option.map_some, Option.map_some, hwrites.target,
            Target.measures_writeAll]
        · rfl

theorem registered_of_mem_changes {config : Config α} {now : α} {targets : Roster α}
    {runs : List (Running α)} :
    ∀ change ∈ (sweepFrom config now targets runs).changes,
      (targets.get? change.target).isSome = true := by
  induction runs generalizing targets with
  | nil => exact List.forall_mem_nil _
  | cons run rest ih =>
      intro change hmem
      rw [sweepFrom] at hmem
      split at hmem
      · exact ih change hmem
      · rename_i target htarget
        obtain ⟨writes, hwrites, -⟩ := advance_writes config run target now
        simp only [Sweep.changes, List.filterMap_append, hwrites.changes, List.mem_append] at hmem
        rcases hmem with hmem | hmem
        · obtain ⟨write, -, rfl⟩ := List.mem_map.mp hmem
          simp [Change.ofWrite, htarget]
        · have hnext := ih change hmem
          rw [Roster.get?_insert] at hnext
          split at hnext
          · rename_i hid
            rw [hid, htarget]
            rfl
          · exact hnext

theorem registered_of_mem_report {stage : Stage α} {now : α} :
    ∀ change ∈ (stage.update now).report.changes,
      (stage.target? change.target).isSome = true := by
  intro change hmem
  have hcell : (change.target, change.channel) ∈
      (stage.update now).report.changes.map Change.cell := List.mem_map_of_mem hmem
  have htold : (Change.valueAt? (stage.update now).report.changes change.target
      change.channel).isSome = true := by
    rw [Option.isSome_iff_ne_none, ne_eq, Change.valueAt?_eq_none_iff, not_not]
    exact hcell
  obtain ⟨found, hfound, htarget, -⟩ :=
    (Change.valueAt?_foldl_record_isSome_iff (stage.sweep now).changes _ _).mp htold
  rw [← htarget]
  exact registered_of_mem_changes found hfound

/-- Whatever the stage is and whatever the time, the report of an update is
exact. -/
theorem update_exact (stage : Stage α) (now : α) :
    (stage.update now).report.Exact stage.targets (stage.update now).targets := by
  have hdistinct : (stage.update now).report.changes.Pairwise
      fun first second => first.sameCell second = false :=
    Change.foldl_record_distinct (stage.sweep now).changes
  have honce := (Change.nodup_cells_iff _).mpr hdistinct
  have hvalue : ∀ id channel, (stage.update now).targets.valueAt? id channel =
      (stage.targets.valueAt? id channel).map fun old =>
        (Change.valueAt? (stage.update now).report.changes id channel).getD old := by
    intro id channel
    rw [valueAt?_update]
    exact Change.valueAt?_replay_of_distinct hdistinct ..
  constructor
  case once => exact honce
  case current =>
    intro change hmem
    obtain ⟨target, htarget⟩ := Option.isSome_iff_exists.mp (registered_of_mem_report change hmem)
    rw [hvalue, Change.valueAt?_of_mem honce hmem, valueAt?_of_target? htarget]
    rfl
  case unchanged =>
    intro id channel hcell
    rw [hvalue, (Change.valueAt?_eq_none_iff ..).mpr hcell]
    exact Option.map_id'
  case measures => exact get?_sweepFrom_measures stage.config now stage.targets stage.running

end Stage

end MotionNotation
