import MotionNotation.Proofs.Notation.Matching
import MotionNotation.Proofs.Stage.Move

/-!
# Integrity of stages

However a stage is moved, the target of every running animation is registered
and the main notation of every script that is played fits on any target.  So an
update always finds the target it looks for, and a script always goes on.
-/

namespace MotionNotation

variable {α : Type} [Scalar α]

def Script.Fits (config : Config α) (script : Script) : Prop :=
  ∀ target, ∃ segments, Segment.readAll config target script.main = .ok segments

theorem Script.fits_of_readAll {config : Config α} {script : Script} {target : Target α}
    {segments : List (Segment α)} (h : Segment.readAll config target script.main = .ok segments) :
    script.Fits config :=
  Segment.readAll_ok_of_ok h

namespace Stage

def Entry.isFault : Entry α → Bool
  | .orphaned .. | .abandoned .. => true
  | .beat .. | .restarted .. | .continued .. | .completed .. => false

def Sound (config : Config α) (routine : Routine) : Prop :=
  ∀ script, routine.script? = some script → script.Fits config

variable [Eases α]

/-! ## One animation in an update -/

inductive AdvanceOutcome (config : Config α) (run : Running α) (target : Target α) (now : α) : Prop
  | goesOn
      (status : (run.animation.update target now).animation.status = .running)
      (survivor : (advance config run target now).survivor =
        some { run with animation := (run.animation.update target now).animation })
      (entries : (advance config run target now).entries =
        (run.animation.update target now).beats.map (.beat run.id run.target))
  | ends
      (status : (run.animation.update target now).animation.status = .finished)
      (last : ∀ script, run.routine.script? = some script →
        run.routine = .main script ∧ script.repeats = false)
      (survivor : (advance config run target now).survivor = none)
      (entries : (advance config run target now).entries =
        (run.animation.update target now).beats.map (.beat run.id run.target) ++
          [.completed run.id run.target])
  | continues (script : Script) (next : Animation.Turn α)
      (status : (run.animation.update target now).animation.status = .finished)
      (launched : Animation.launch config (run.animation.update target now).target script.main now
        none = .ok next)
      (routine : run.routine = .intro script)
      (survivor : (advance config run target now).survivor =
        some { run with animation := next.animation, routine := .main script })
      (entries : (advance config run target now).entries =
        (run.animation.update target now).beats.map (.beat run.id run.target) ++
          .continued script.main (run.animation.update target now).target ::
            next.beats.map (.beat run.id run.target))
  | repeats (script : Script) (next : Animation.Turn α)
      (status : (run.animation.update target now).animation.status = .finished)
      (launched : Animation.launch config (run.animation.update target now).target script.main now
        none = .ok next)
      (routine : run.routine = .main script)
      (again : script.repeats = true)
      (survivor : (advance config run target now).survivor =
        some { run with animation := next.animation, routine := .main script })
      (entries : (advance config run target now).entries =
        (run.animation.update target now).beats.map (.beat run.id run.target) ++
          .restarted run.id run.target ::
            .continued script.main (run.animation.update target now).target ::
              next.beats.map (.beat run.id run.target))

omit [Eases α] in
theorem launch_of_fits [Eases α] {config : Config α} {script : Script} (fits : script.Fits config)
    (target : Target α) (now : α) (signal : Option Nat) :
    ∃ turn, Animation.launch config target script.main now signal = .ok turn := by
  obtain ⟨segments, hread⟩ := fits target
  exact ⟨Animation.start segments target now signal, by simp only [Animation.launch, hread]⟩

theorem advance_outcome {config : Config α} {run : Running α} (sound : Sound config run.routine)
    (target : Target α) (now : α) : AdvanceOutcome config run target now := by
  cases hstatus : (run.animation.update target now).animation.status with
  | running =>
      exact .goesOn hstatus (by simp only [advance, hstatus]) (by simp only [advance, hstatus])
  | finished =>
      cases hroutine : run.routine with
      | single =>
          refine .ends hstatus ?_ ?_ ?_
          · intro script hscript
            rw [hroutine] at hscript
            cases hscript
          · simp only [advance, hstatus, conclude, hroutine, Turn.after]
          · simp only [advance, hstatus, conclude, hroutine, Turn.after]
      | intro script =>
          obtain ⟨next, hnext⟩ := launch_of_fits (sound script (by rw [hroutine]; rfl))
            (run.animation.update target now).target now none
          refine .continues script next hstatus hnext hroutine ?_ ?_
          · simp only [advance, hstatus, conclude, hroutine, continueWith, hnext, Turn.after]
          · simp only [advance, hstatus, conclude, hroutine, continueWith, hnext, Turn.after]
      | main script =>
          cases hrepeats : script.repeats with
          | false =>
              refine .ends hstatus ?_ ?_ ?_
              · intro found hfound
                rw [hroutine] at hfound
                cases hfound
                exact ⟨hroutine, hrepeats⟩
              · simp [advance, hstatus, conclude, hroutine, hrepeats, Turn.after]
              · simp [advance, hstatus, conclude, hroutine, hrepeats, Turn.after]
          | true =>
              obtain ⟨next, hnext⟩ := launch_of_fits (sound script (by rw [hroutine]; rfl))
                (run.animation.update target now).target now none
              refine .repeats script next hstatus hnext hroutine hrepeats ?_ ?_
              · simp [advance, hstatus, conclude, hroutine, hrepeats, continueWith, hnext,
                  Turn.after]
              · simp [advance, hstatus, conclude, hroutine, hrepeats, continueWith, hnext,
                  Turn.after]

namespace AdvanceOutcome

variable {config : Config α} {run : Running α} {target : Target α} {now : α}

theorem not_fault (h : AdvanceOutcome config run target now) :
    ∀ entry ∈ (advance config run target now).entries, entry.isFault = false := by
  have hbeats : ∀ beats : List (GroupBeat α),
      ∀ entry ∈ beats.map (Entry.beat run.id run.target), entry.isFault = false := by
    intro beats entry hmem
    obtain ⟨beat, -, rfl⟩ := List.mem_map.mp hmem
    rfl
  cases h with
  | goesOn _ _ entries =>
      rw [entries]
      exact hbeats _
  | ends _ _ _ entries =>
      rw [entries]
      exact List.forall_mem_append.mpr ⟨hbeats _, by simp [Entry.isFault]⟩
  | continues _ _ _ _ _ _ entries =>
      rw [entries]
      exact List.forall_mem_append.mpr
        ⟨hbeats _, List.forall_mem_cons.mpr ⟨rfl, hbeats _⟩⟩
  | repeats _ _ _ _ _ _ _ entries =>
      rw [entries]
      exact List.forall_mem_append.mpr
        ⟨hbeats _, List.forall_mem_cons.mpr ⟨rfl, List.forall_mem_cons.mpr ⟨rfl, hbeats _⟩⟩⟩

theorem survivor_same (h : AdvanceOutcome config run target now) {survivor : Running α}
    (hsome : (advance config run target now).survivor = some survivor) :
    survivor.id = run.id ∧ survivor.target = run.target ∧
      survivor.routine.script? = run.routine.script? := by
  cases h with
  | goesOn _ heq =>
      rw [heq] at hsome
      cases hsome
      exact ⟨rfl, rfl, rfl⟩
  | ends _ _ heq =>
      rw [heq] at hsome
      cases hsome
  | continues _ _ _ _ routine heq =>
      rw [heq] at hsome
      cases hsome
      exact ⟨rfl, rfl, by rw [routine]; rfl⟩
  | repeats _ _ _ _ routine _ heq =>
      rw [heq] at hsome
      cases hsome
      exact ⟨rfl, rfl, by rw [routine]⟩

end AdvanceOutcome

/-! ## All animations in an update -/

structure Intact (config : Config α) (targets : Roster α) (runs : List (Running α)) : Prop where
  registered : ∀ run ∈ runs, (targets.get? run.target).isSome = true
  sound : ∀ run ∈ runs, Sound config run.routine

namespace Intact

variable {config : Config α} {targets : Roster α} {run : Running α} {rest : List (Running α)}

omit [Eases α] in
theorem tail (h : Intact config targets (run :: rest)) (target : Target α) :
    Intact config (targets.insert run.target target) rest where
  registered := by
    intro found hmem
    rw [Roster.get?_insert]
    split
    · rfl
    · exact h.registered found (List.mem_cons_of_mem _ hmem)
  sound := fun found hmem => h.sound found (List.mem_cons_of_mem _ hmem)

theorem sweepFrom_cons (h : Intact config targets (run :: rest)) (now : α) :
    ∃ target next,
      targets.get? run.target = some target ∧
      AdvanceOutcome config run target now ∧
      next = targets.insert run.target (advance config run target now).target ∧
      Intact config next rest ∧
      sweepFrom config now targets (run :: rest) =
        ⟨(sweepFrom config now next rest).targets,
          (advance config run target now).survivor.toList ++
            (sweepFrom config now next rest).running,
          (advance config run target now).entries ++ (sweepFrom config now next rest).entries⟩ := by
  obtain ⟨target, htarget⟩ := Option.isSome_iff_exists.mp (h.registered run List.mem_cons_self)
  refine ⟨target, _, htarget, advance_outcome (h.sound run List.mem_cons_self) target now, rfl,
    h.tail _, ?_⟩
  simp only [sweepFrom, htarget]

end Intact

theorem sweepFrom_not_fault {config : Config α} {targets : Roster α} {runs : List (Running α)}
    (h : Intact config targets runs) (now : α) :
    ∀ entry ∈ (sweepFrom config now targets runs).entries, entry.isFault = false := by
  induction runs generalizing targets with
  | nil => simp [sweepFrom]
  | cons run rest ih =>
      obtain ⟨target, next, -, houtcome, -, hrest, heq⟩ := h.sweepFrom_cons now
      rw [heq]
      exact List.forall_mem_append.mpr ⟨houtcome.not_fault, ih hrest⟩

theorem same_of_mem_sweepFrom {config : Config α} {targets : Roster α} {runs : List (Running α)}
    (h : Intact config targets runs) (now : α) :
    ∀ survivor ∈ (sweepFrom config now targets runs).running, ∃ run ∈ runs,
      survivor.id = run.id ∧ survivor.target = run.target ∧
        survivor.routine.script? = run.routine.script? := by
  induction runs generalizing targets with
  | nil => simp [sweepFrom]
  | cons run rest ih =>
      obtain ⟨target, next, -, houtcome, -, hrest, heq⟩ := h.sweepFrom_cons now
      rw [heq]
      intro survivor hmem
      rcases List.mem_append.mp hmem with hmem | hmem
      · exact ⟨run, List.mem_cons_self, houtcome.survivor_same (Option.mem_toList.mp hmem)⟩
      · obtain ⟨found, hfound, hsame⟩ := ih hrest survivor hmem
        exact ⟨found, List.mem_cons_of_mem _ hfound, hsame⟩

theorem registered_sweepFrom (config : Config α) (now : α) {targets : Roster α} {id : TargetId}
    (h : (targets.get? id).isSome = true) (runs : List (Running α)) :
    ((sweepFrom config now targets runs).targets.get? id).isSome = true := by
  induction runs generalizing targets with
  | nil => exact h
  | cons run rest ih =>
      rw [sweepFrom]
      split
      · exact ih h
      · apply ih
        rw [Roster.get?_insert]
        split
        · rfl
        · exact h

/-! ## Every course of moves -/

namespace Intact

variable {config : Config α}

theorem sweepFrom {targets : Roster α} {runs : List (Running α)} (h : Intact config targets runs)
    (now : α) :
    Intact config (sweepFrom config now targets runs).targets
      (sweepFrom config now targets runs).running where
  registered := by
    intro survivor hmem
    obtain ⟨run, hrun, -, htarget, -⟩ := same_of_mem_sweepFrom h now survivor hmem
    rw [htarget]
    exact registered_sweepFrom config now (h.registered run hrun) runs
  sound := by
    intro survivor hmem script hscript
    obtain ⟨run, hrun, -, -, hroutine⟩ := same_of_mem_sweepFrom h now survivor hmem
    exact h.sound run hrun script (by rw [← hroutine]; exact hscript)

theorem make {stage : Stage α} (hconfig : stage.config = config)
    (h : Intact config stage.targets stage.running) (move : Move α) :
    Intact config (stage.make move).targets (stage.make move).running ∧
      (stage.make move).config = config := by
  subst hconfig
  cases stage.make_outcome move with
  | settles _ _ untouched =>
      refine ⟨⟨?_, ?_⟩, untouched.config⟩
      · intro run hrun
        rw [untouched.running] at hrun
        exact untouched.registered run.target (h.registered run hrun)
      · intro run hrun
        rw [untouched.running] at hrun
        exact h.sound run hrun
  | launches launch target turn _ _ made =>
      rw [made.next]
      refine ⟨⟨?_, ?_⟩, rfl⟩
      · intro run hrun
        rw [Roster.get?_insert]
        split
        · rfl
        · rename_i hne
          rcases List.mem_append.mp hrun with hrun | hrun
          · exact h.registered run hrun
          · rw [List.mem_singleton.mp hrun] at hne
            exact absurd rfl hne
      · intro run hrun
        rcases List.mem_append.mp hrun with hrun | hrun
        · exact h.sound run hrun
        · rw [List.mem_singleton.mp hrun]
          intro script hscript
          obtain ⟨segments, hread⟩ := made.fits script hscript
          exact Script.fits_of_readAll hread
  | removes id _ made =>
      rw [made]
      refine ⟨⟨?_, ?_⟩, rfl⟩
      · intro run hrun
        obtain ⟨hmem, hne⟩ := List.mem_filter.mp hrun
        rw [Roster.get?_erase, if_neg (by simpa using hne)]
        exact h.registered run hmem
      · intro run hrun
        exact h.sound run (List.mem_filter.mp hrun).1
  | stops id move_eq =>
      subst move_eq
      refine ⟨⟨?_, ?_⟩, rfl⟩
      · intro run hrun
        exact h.registered run (List.mem_filter.mp hrun).1
      · intro run hrun
        exact h.sound run (List.mem_filter.mp hrun).1
  | updates now move_eq =>
      subst move_eq
      exact ⟨h.sweepFrom now, rfl⟩

end Intact

theorem course_intact (config : Config α) (moves : List (Move α)) :
    Intact config ((Stage.start config).course moves).targets
        ((Stage.start config).course moves).running ∧
      ((Stage.start config).course moves).config = config := by
  induction moves using List.reverseRecOn with
  | nil => exact ⟨⟨by simp [Stage.start], by simp [Stage.start]⟩, rfl⟩
  | append_singleton moves move ih =>
      obtain ⟨hintact, hconfig⟩ := ih
      rw [course_append, course_cons, course_nil]
      exact hintact.make hconfig move

/-- On every stage that can be reached the targets of all animations are there,
all scripts can be continued on any target, and so no update loses an animation
for want of a target or of room. -/
theorem course_faultless (config : Config α) (moves : List (Move α)) :
    let stage := (Stage.start config).course moves
    (∀ run ∈ stage.running, (stage.target? run.target).isSome = true) ∧
      (∀ run ∈ stage.running, ∀ script, run.routine.script? = some script → ∀ target,
        ∃ segments, Segment.readAll stage.config target script.main = .ok segments) ∧
      ∀ now, ∀ entry ∈ (stage.sweep now).entries, entry.isFault = false := by
  obtain ⟨hintact, hconfig⟩ := course_intact config moves
  refine ⟨hintact.registered, ?_, ?_⟩
  · rw [hconfig]
    exact hintact.sound
  · intro now
    rw [sweep, hconfig]
    exact sweepFrom_not_fault hintact now

end Stage

end MotionNotation
