import Mathlib.Data.List.Basic
import Mathlib.Data.List.Induction
import MotionNotation.Proofs.Playback.Writes
import MotionNotation.Stage.Basic

/-!
# Replaying changes

A host that overwrites a value for each change of a report ends with the values
that the stage has.  The report keeps the last value of every cell only, and the
order of its changes does not matter, because no cell is in it twice.
-/

namespace MotionNotation

variable {α : Type}

def Roster.valueAt? (roster : Roster α) (id : TargetId) (channel : Channel) : Option α :=
  (roster.get? id).map fun target => target.get channel

theorem Roster.valueAt?_insert (roster : Roster α) (id other : TargetId) (target : Target α)
    (channel : Channel) :
    (roster.insert id target).valueAt? other channel =
      if other = id then some (target.get channel) else roster.valueAt? other channel := by
  rw [valueAt?, Roster.get?_insert]
  split <;> rfl

namespace Change

/-- Overwrites the cell of a change; a target that is not there stays away. -/
def apply (roster : Roster α) (change : Change α) : Roster α :=
  match roster.get? change.target with
  | none => roster
  | some target => roster.insert change.target (target.set change.channel change.value)

def replay (roster : Roster α) (changes : List (Change α)) : Roster α :=
  changes.foldl apply roster

theorem replay_append (roster : Roster α) (first second : List (Change α)) :
    replay roster (first ++ second) = replay (replay roster first) second :=
  List.foldl_append

def ofWrite (target : TargetId) (write : Write α) : Change α :=
  ⟨target, write.channel, write.value⟩

theorem valueAt?_apply (roster : Roster α) (change : Change α) (id : TargetId)
    (channel : Channel) :
    (apply roster change).valueAt? id channel =
      if change.target = id ∧ change.channel = channel then
        (roster.valueAt? id channel).map fun _ => change.value
      else roster.valueAt? id channel := by
  unfold apply
  cases h : roster.get? change.target with
  | none =>
      by_cases hid : change.target = id
      · subst hid
        simp [Roster.valueAt?, h]
      · simp [hid]
  | some target =>
      simp only [Roster.valueAt?_insert]
      by_cases hid : change.target = id
      · subst hid
        by_cases hchannel : change.channel = channel
        · simp [hchannel, Roster.valueAt?, h]
        · simp [hchannel, Ne.symm hchannel, Roster.valueAt?, h]
      · simp [hid, Ne.symm hid]

/-! ## The last value of a cell -/

theorem valueAt?_replay (roster : Roster α) (changes : List (Change α)) (id : TargetId)
    (channel : Channel) :
    (replay roster changes).valueAt? id channel =
      (roster.valueAt? id channel).map fun old =>
        (valueAt? (changes.foldl record []) id channel).getD old := by
  induction changes using List.reverseRecOn with
  | nil => simp [replay]
  | append_singleton changes change ih =>
      rw [replay, List.foldl_concat, ← replay, valueAt?_apply, ih, List.foldl_concat,
        valueAt?_record]
      split <;> simp [Function.comp_def]

theorem valueAt?_replay_of_distinct {changes : List (Change α)}
    (distinct : changes.Pairwise fun first second => first.sameCell second = false)
    (roster : Roster α) (id : TargetId) (channel : Channel) :
    (replay roster changes).valueAt? id channel =
      (roster.valueAt? id channel).map fun old => (valueAt? changes id channel).getD old := by
  induction changes generalizing roster with
  | nil => simp [replay]
  | cons change rest ih =>
      obtain ⟨hfirst, hrest⟩ := List.pairwise_cons.mp distinct
      rw [replay, List.foldl_cons, ← replay, ih hrest, valueAt?_apply]
      by_cases hcell : change.target = id ∧ change.channel = channel
      · have hlast : valueAt? rest id channel = none := by
          rw [valueAt?, Option.map_eq_none_iff, List.find?_eq_none]
          intro other hmem hother
          have hdistinct := hfirst other hmem
          simp_all [sameCell]
        rw [if_pos hcell, hlast]
        simp [valueAt?, hcell, Function.comp_def]
      · have hlast : valueAt? (change :: rest) id channel = valueAt? rest id channel := by
          rw [valueAt?, List.find?_cons_of_neg (by simpa using hcell)]
          rfl
        rw [if_neg hcell, hlast]

theorem mem_record {changes : List (Change α)} {change found : Change α}
    (h : found ∈ record changes change) :
    found.sameCell change = true ∨ found ∈ changes := by
  induction changes with
  | nil =>
      rw [List.mem_singleton.mp h]
      simp [sameCell]
  | cons first rest ih =>
      rw [record] at h
      split at h
      · rename_i hsame
        rcases List.mem_cons.mp h with rfl | h
        · exact .inl hsame
        · exact .inr (List.mem_cons_of_mem _ h)
      · rcases List.mem_cons.mp h with rfl | h
        · exact .inr List.mem_cons_self
        · exact (ih h).imp_right (List.mem_cons_of_mem _)

theorem sameCell_of_sameCell {first second third : Change α}
    (h : second.sameCell third = true) : first.sameCell second = first.sameCell third := by
  simp only [sameCell, Bool.and_eq_true, beq_iff_eq] at h
  simp only [sameCell, h]

theorem record_distinct {changes : List (Change α)}
    (distinct : changes.Pairwise fun first second => first.sameCell second = false)
    (change : Change α) :
    (record changes change).Pairwise fun first second => first.sameCell second = false := by
  induction changes with
  | nil => exact List.pairwise_singleton _ _
  | cons first rest ih =>
      obtain ⟨hfirst, hrest⟩ := List.pairwise_cons.mp distinct
      rw [record]
      split
      · exact List.pairwise_cons.mpr ⟨hfirst, hrest⟩
      · rename_i hother
        refine List.pairwise_cons.mpr ⟨fun found hmem => ?_, ih hrest⟩
        rcases mem_record hmem with hsame | hmem
        · rw [sameCell_of_sameCell hsame]
          simpa using hother
        · exact hfirst found hmem

theorem foldl_record_distinct (changes : List (Change α)) :
    (changes.foldl record []).Pairwise fun first second => first.sameCell second = false := by
  induction changes using List.reverseRecOn with
  | nil => exact List.Pairwise.nil
  | append_singleton changes change ih =>
      rw [List.foldl_concat]
      exact record_distinct ih change

theorem valueAt?_replay_record (roster : Roster α) (changes : List (Change α)) (id : TargetId)
    (channel : Channel) :
    (replay roster (changes.foldl record [])).valueAt? id channel =
      (replay roster changes).valueAt? id channel := by
  rw [valueAt?_replay_of_distinct (foldl_record_distinct changes), valueAt?_replay]

theorem valueAt?_replay_congr {first second : Roster α}
    (h : ∀ id channel, first.valueAt? id channel = second.valueAt? id channel)
    (changes : List (Change α)) (id : TargetId) (channel : Channel) :
    (replay first changes).valueAt? id channel = (replay second changes).valueAt? id channel := by
  rw [valueAt?_replay, valueAt?_replay, h]

theorem valueAt?_foldl_record_isSome_iff (changes : List (Change α)) (id : TargetId)
    (channel : Channel) :
    (valueAt? (changes.foldl record []) id channel).isSome = true ↔
      ∃ change ∈ changes, change.target = id ∧ change.channel = channel := by
  induction changes using List.reverseRecOn with
  | nil => simp
  | append_singleton changes change ih =>
      rw [List.foldl_concat, valueAt?_record]
      by_cases hcell : change.target = id ∧ change.channel = channel
      · simp [hcell]
      · simp [hcell, ih]

theorem valueAt?_replay_writes {roster : Roster α} {id : TargetId} {target : Target α}
    (h : roster.get? id = some target) (writes : List (Write α)) (other : TargetId)
    (channel : Channel) :
    (replay roster (writes.map (ofWrite id))).valueAt? other channel =
      (roster.insert id (target.writeAll writes)).valueAt? other channel := by
  induction writes generalizing roster target with
  | nil =>
      rw [Roster.valueAt?_insert]
      split
      · simp_all [replay, Roster.valueAt?]
      · rfl
  | cons write rest ih =>
      have happly : apply roster (ofWrite id write) =
          roster.insert id (target.set write.channel write.value) := by
        simp only [apply, ofWrite, h]
      have hget : (roster.insert id (target.set write.channel write.value)).get? id =
          some (target.set write.channel write.value) := by simp
      rw [List.map_cons, replay, List.foldl_cons, ← replay, happly, ih hget]
      simp only [Roster.valueAt?_insert, Target.writeAll_cons]
      split <;> rfl

end Change

/-! ## One update of a stage -/

namespace Stage

theorem valueAt?_of_target? {stage : Stage α} {id : TargetId} {target : Target α}
    (h : stage.target? id = some target) (channel : Channel) :
    stage.targets.valueAt? id channel = some (target.get channel) := by
  rw [target?] at h
  rw [Roster.valueAt?, h]
  rfl

variable [Scalar α] [Eases α]

structure Turn.Writes (target : Target α) (id : TargetId) (writes : List (Write α))
    (turn : Turn α) : Prop where
  changes : turn.entries.filterMap Entry.change? = writes.map (Change.ofWrite id)
  target : turn.target = target.writeAll writes

omit [Scalar α] [Eases α] in
theorem Turn.Writes.after {target middle : Target α} {id : TargetId}
    {first second : List (Write α)} {turn : Turn α} (h : turn.Writes middle id second)
    (hmiddle : middle = target.writeAll first) {entries : List (Entry α)}
    (changes : entries.filterMap Entry.change? = first.map (Change.ofWrite id)) :
    (turn.after entries).Writes target id (first ++ second) where
  changes := by
    rw [Turn.after, List.filterMap_append, changes, h.changes, List.map_append]
  target := by
    rw [Target.writeAll_append, ← hmiddle]
    exact h.target

omit [Scalar α] [Eases α] in
theorem changes_map_beat (animation : AnimationId) (target : TargetId)
    (beats : List (GroupBeat α)) :
    (beats.map (Entry.beat animation target)).filterMap Entry.change? =
      (GroupBeat.writes beats).map (Change.ofWrite target) := by
  rw [List.filterMap_map, GroupBeat.writes, List.map_filterMap]
  rfl

theorem continueWith_writes (config : Config α) (run : Running α) (script : Script)
    (target : Target α) (now : α) :
    ∃ writes, (continueWith config run script target now).Writes target run.target writes := by
  unfold continueWith
  split
  · rename_i turn hturn
    refine ⟨GroupBeat.writes turn.beats, changes_map_beat .., ?_⟩
    obtain ⟨segments, -, rfl⟩ := Animation.launch_ok hturn
    exact Animation.startFrom_target ..
  · exact ⟨[], rfl, rfl⟩

theorem conclude_writes (config : Config α) (run : Running α) (target : Target α) (now : α) :
    ∃ writes, (conclude config run target now).Writes target run.target writes := by
  unfold conclude
  split
  · exact continueWith_writes ..
  · rename_i script _
    split
    · obtain ⟨writes, h⟩ := continueWith_writes config run script target now
      exact ⟨[] ++ writes, h.after rfl rfl⟩
    · exact ⟨[], rfl, rfl⟩
  · exact ⟨[], rfl, rfl⟩

theorem advance_writes (config : Config α) (run : Running α) (target : Target α) (now : α) :
    ∃ writes, (advance config run target now).Writes target run.target writes ∧
      run.animation.channels ⊆ writes.map Write.channel := by
  have htarget : (run.animation.update target now).target = _ :=
    Animation.updateFrom_target 0 target now run.animation.tracks
  have hchannels : run.animation.channels ⊆
      (GroupBeat.writes (run.animation.update target now).beats).map Write.channel :=
    Animation.channels_subset_updateFrom 0 target now run.animation.tracks
  simp only [advance]
  split
  · exact ⟨_, ⟨changes_map_beat .., htarget⟩, hchannels⟩
  · obtain ⟨writes, h⟩ := conclude_writes config
      { run with animation := (run.animation.update target now).animation }
      (run.animation.update target now).target now
    refine ⟨_ ++ writes, h.after htarget (changes_map_beat ..), ?_⟩
    rw [List.map_append]
    exact List.subset_append_of_subset_left _ hchannels

def Sweep.changes (sweep : Sweep α) : List (Change α) :=
  sweep.entries.filterMap Entry.change?

theorem valueAt?_sweepFrom (config : Config α) (now : α) (targets : Roster α)
    (runs : List (Running α)) (id : TargetId) (channel : Channel) :
    (sweepFrom config now targets runs).targets.valueAt? id channel =
      (Change.replay targets (sweepFrom config now targets runs).changes).valueAt? id channel := by
  induction runs generalizing targets with
  | nil => rfl
  | cons run rest ih =>
      rw [sweepFrom]
      split
      · exact ih targets
      · rename_i target htarget
        obtain ⟨writes, hwrites, -⟩ := advance_writes config run target now
        simp only [Sweep.changes, List.filterMap_append, hwrites.changes]
        rw [ih, Change.replay_append, hwrites.target]
        apply Change.valueAt?_replay_congr
        intro other channel
        rw [Change.valueAt?_replay_writes htarget]

theorem mem_changes_sweepFrom {config : Config α} {now : α} {targets : Roster α}
    {runs : List (Running α)} {run : Running α} {channel : Channel} (hrun : run ∈ runs)
    (htarget : (targets.get? run.target).isSome = true) (h : channel ∈ run.animation.channels) :
    ∃ change ∈ (sweepFrom config now targets runs).changes,
      change.target = run.target ∧ change.channel = channel := by
  induction runs generalizing targets with
  | nil => cases hrun
  | cons first rest ih =>
      rw [sweepFrom]
      split
      · rename_i hmissing
        rcases List.mem_cons.mp hrun with rfl | hrun
        · simp [hmissing] at htarget
        · exact ih hrun htarget
      · rename_i target hfound
        obtain ⟨writes, hwrites, hchannels⟩ := advance_writes config first target now
        simp only [Sweep.changes, List.filterMap_append, hwrites.changes, List.mem_append]
        rcases List.mem_cons.mp hrun with rfl | hrun
        · obtain ⟨write, hmem, rfl⟩ := List.mem_map.mp (hchannels h)
          exact ⟨_, .inl (List.mem_map_of_mem hmem), rfl, rfl⟩
        · have hstays : ((targets.insert first.target
              (advance config first target now).target).get? run.target).isSome = true := by
            rw [Roster.get?_insert]
            split
            · rfl
            · exact htarget
          obtain ⟨change, hmem, hcell⟩ := ih hrun hstays
          exact ⟨change, .inr hmem, hcell⟩

/-- The report of an update replays to the targets of the stage. -/
theorem valueAt?_update (stage : Stage α) (now : α) (id : TargetId) (channel : Channel) :
    (stage.update now).targets.valueAt? id channel =
      (Change.replay stage.targets (stage.update now).report.changes).valueAt? id channel := by
  have hchanges : (stage.update now).report.changes =
      (stage.sweep now).changes.foldl Change.record [] := rfl
  rw [hchanges, Change.valueAt?_replay_record]
  exact valueAt?_sweepFrom ..

end Stage

end MotionNotation
