import MotionNotation.Proofs.Stage.Life

/-!
# One animation in a sweep

An update sweeps over all running animations.  Followed by its identifier, an
animation is advanced exactly once in it: what the sweep tells under that
identifier is what the advance tells, and what is left of the animation runs on.
-/

namespace MotionNotation

namespace Stage

variable {α : Type} [Scalar α] [Eases α]

omit [Scalar α] [Eases α] in
theorem events_map_beat (animation : AnimationId) (target : TargetId)
    (beats : List (GroupBeat α)) :
    (beats.map (Entry.beat animation target)).filterMap Entry.event? =
      (GroupBeat.events beats).map (.group animation target) := by
  rw [List.filterMap_map, GroupBeat.events, List.map_filterMap]
  apply List.filterMap_congr
  intro entry _
  simp [Entry.event?, Function.comp_def]

theorem AdvanceOutcome.animation_eq {config : Config α} {run : Running α} {target : Target α}
    {now : α} (h : AdvanceOutcome config run target now) :
    ∀ event ∈ (advance config run target now).entries.filterMap Entry.event?,
      event.animation = run.id := by
  have hbeats : ∀ beats : List (GroupBeat α),
      ∀ event ∈ (beats.map (Entry.beat run.id run.target)).filterMap Entry.event?,
        event.animation = run.id := by
    intro beats event hmem
    rw [events_map_beat] at hmem
    obtain ⟨found, -, rfl⟩ := List.mem_map.mp hmem
    rfl
  cases h with
  | goesOn _ _ entries =>
      rw [entries]
      exact hbeats _
  | ends _ _ _ entries =>
      rw [entries, List.filterMap_append]
      exact List.forall_mem_append.mpr
        ⟨hbeats _, by simp [Entry.event?, StageEvent.animation]⟩
  | continues _ _ _ _ _ _ entries =>
      rw [entries, List.filterMap_append]
      exact List.forall_mem_append.mpr ⟨hbeats _, hbeats _⟩
  | repeats _ _ _ _ _ _ _ entries =>
      rw [entries, List.filterMap_append]
      exact List.forall_mem_append.mpr
        ⟨hbeats _, List.forall_mem_cons.mpr ⟨rfl, hbeats _⟩⟩

theorem ids_sweepFrom {config : Config α} {targets : Roster α} {runs : List (Running α)}
    (h : Intact config targets runs) (now : α) :
    ((sweepFrom config now targets runs).running.map Running.id).Sublist
      (runs.map Running.id) := by
  induction runs generalizing targets with
  | nil => exact List.Sublist.slnil
  | cons run rest ih =>
      obtain ⟨target, next, -, houtcome, -, hrest, heq⟩ := h.sweepFrom_cons now
      rw [heq]
      cases hsurvivor : (advance config run target now).survivor with
      | none => exact (ih hrest).cons run.id
      | some survivor =>
          obtain ⟨hid, -⟩ := houtcome.survivor_same hsurvivor
          simp only [Option.toList_some, List.singleton_append, List.map_cons, hid]
          exact (ih hrest).cons_cons run.id

theorem events_sweepFrom_of_absent {config : Config α} {targets : Roster α}
    {runs : List (Running α)} (h : Intact config targets runs) (now : α) {id : AnimationId}
    (absent : ∀ run ∈ runs, run.id ≠ id) :
    StageEvent.ofAnimation id
      ((sweepFrom config now targets runs).entries.filterMap Entry.event?) = [] := by
  induction runs generalizing targets with
  | nil => rfl
  | cons run rest ih =>
      obtain ⟨target, next, -, houtcome, -, hrest, heq⟩ := h.sweepFrom_cons now
      rw [heq, List.filterMap_append, StageEvent.ofAnimation_append,
        ih hrest fun found hmem => absent found (List.mem_cons_of_mem _ hmem), List.append_nil]
      apply StageEvent.ofAnimation_eq_nil
      intro event hmem
      rw [houtcome.animation_eq event hmem]
      exact absent run List.mem_cons_self

/-- What an update tells of an animation that runs, and what it leaves of it,
is what comes of this animation alone. -/
theorem sweepFrom_of_mem {config : Config α} {targets : Roster α} {runs : List (Running α)}
    (h : Intact config targets runs) (distinct : (runs.map Running.id).Nodup) (now : α)
    {run : Running α} (hrun : run ∈ runs) :
    ∃ target, AdvanceOutcome config run target now ∧
      StageEvent.ofAnimation run.id
          ((sweepFrom config now targets runs).entries.filterMap Entry.event?) =
        (advance config run target now).entries.filterMap Entry.event? ∧
      ∀ survivor, survivor ∈ (sweepFrom config now targets runs).running ∧ survivor.id = run.id ↔
        (advance config run target now).survivor = some survivor := by
  induction runs generalizing targets with
  | nil => cases hrun
  | cons first rest ih =>
      obtain ⟨hfirst, hdistinct⟩ := List.nodup_cons.mp distinct
      obtain ⟨target, next, -, houtcome, -, hrest, heq⟩ := h.sweepFrom_cons now
      simp only [heq, List.filterMap_append, StageEvent.ofAnimation_append, List.mem_append,
        Option.mem_toList]
      rcases List.mem_cons.mp hrun with rfl | hrun
      · have habsent : ∀ found ∈ rest, found.id ≠ run.id := by
          intro found hmem hid
          exact hfirst (hid ▸ List.mem_map_of_mem hmem)
        refine ⟨target, houtcome, ?_, fun survivor => ⟨?_, fun hsome => ⟨.inl hsome, ?_⟩⟩⟩
        · rw [StageEvent.ofAnimation_eq_self houtcome.animation_eq,
            events_sweepFrom_of_absent hrest now habsent, List.append_nil]
        · rintro ⟨hmem | hmem, hid⟩
          · exact hmem
          · obtain ⟨found, hfound, hsame, -⟩ := same_of_mem_sweepFrom hrest now survivor hmem
            exact absurd (hsame.symm.trans hid) (habsent found hfound)
        · exact (houtcome.survivor_same hsome).1
      · have hne : first.id ≠ run.id := by
          intro hid
          exact hfirst (hid ▸ List.mem_map_of_mem hrun)
        obtain ⟨found, hadvance, hevents, hsurvivor⟩ := ih hrest hdistinct hrun
        refine ⟨found, hadvance, ?_, fun survivor => ⟨?_, fun hsome => ?_⟩⟩
        · have hsilent : StageEvent.ofAnimation run.id
              ((advance config first target now).entries.filterMap Entry.event?) = [] := by
            apply StageEvent.ofAnimation_eq_nil
            intro event hmem
            rw [houtcome.animation_eq event hmem]
            exact hne
          rw [hsilent, List.nil_append, hevents]
        · rintro ⟨hmem | hmem, hid⟩
          · exact absurd ((houtcome.survivor_same hmem).1.symm.trans hid) hne
          · exact (hsurvivor survivor).mp ⟨hmem, hid⟩
        · obtain ⟨hmem, hid⟩ := (hsurvivor survivor).mpr hsome
          exact ⟨.inr hmem, hid⟩

end Stage

end MotionNotation
