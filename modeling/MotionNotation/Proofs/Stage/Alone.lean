import MotionNotation.Proofs.Stage.Replay
import MotionNotation.Proofs.Stage.Sweep

/-!
# One target alone

What a stage has of one target can be looked at as a stage of its own, with
other identifiers if need be.  An update of the stage is for each of its targets
an update of this target alone: the animations of the others, which are advanced
in between, do not come into it.
-/

namespace MotionNotation

variable {α : Type}

structure Alias where
  target : TargetId
  animation : AnimationId → AnimationId
  ids : IdCounter

namespace Alias

def same (id : TargetId) : Alias :=
  ⟨id, fun animation => animation, .start⟩

end Alias

namespace Running

def ofTarget (id : TargetId) (runs : List (Running α)) : List (Running α) :=
  runs.filter (·.target == id)

@[simp] theorem ofTarget_append (id : TargetId) (first second : List (Running α)) :
    ofTarget id (first ++ second) = ofTarget id first ++ ofTarget id second :=
  List.filter_append ..

def renamed (names : Alias) (run : Running α) : Running α :=
  { run with id := names.animation run.id, target := names.target }

theorem map_renamed_same (id : TargetId) (runs : List (Running α)) :
    (ofTarget id runs).map (renamed (.same id)) = ofTarget id runs := by
  refine (List.map_congr_left fun run hmem => ?_).trans (List.map_id _)
  obtain rfl : run.target = id := by simpa using (List.mem_filter.mp hmem).2
  rfl

end Running

namespace StageEvent

def target : StageEvent α → TargetId
  | group _ target _ | animationCompleted _ target | playbackRestarted _ target => target

def ofTarget (id : TargetId) (events : List (StageEvent α)) : List (StageEvent α) :=
  events.filter (·.target == id)

@[simp] theorem ofTarget_append (id : TargetId) (first second : List (StageEvent α)) :
    ofTarget id (first ++ second) = ofTarget id first ++ ofTarget id second :=
  List.filter_append ..

def renamed (names : Alias) : StageEvent α → StageEvent α
  | group animation _ event => group (names.animation animation) names.target event
  | animationCompleted animation _ =>
    animationCompleted (names.animation animation) names.target
  | playbackRestarted animation _ => playbackRestarted (names.animation animation) names.target

@[simp] theorem target_renamed (names : Alias) (event : StageEvent α) :
    (event.renamed names).target = names.target := by
  cases event <;> rfl

theorem map_renamed_same (id : TargetId) (events : List (StageEvent α)) :
    (ofTarget id events).map (renamed (.same id)) = ofTarget id events := by
  refine (List.map_congr_left fun event hmem => ?_).trans (List.map_id _)
  obtain rfl : event.target = id := by simpa using (List.mem_filter.mp hmem).2
  cases event <;> rfl

end StageEvent

namespace Change

def ofTarget (id : TargetId) (changes : List (Change α)) : List (Change α) :=
  changes.filter (·.target == id)

@[simp] theorem ofTarget_append (id : TargetId) (first second : List (Change α)) :
    ofTarget id (first ++ second) = ofTarget id first ++ ofTarget id second :=
  List.filter_append ..

def renamed (names : Alias) (change : Change α) : Change α :=
  { change with target := names.target }

theorem map_renamed_same (id : TargetId) (changes : List (Change α)) :
    (ofTarget id changes).map (renamed (.same id)) = ofTarget id changes := by
  refine (List.map_congr_left fun change hmem => ?_).trans (List.map_id _)
  obtain rfl : change.target = id := by simpa using (List.mem_filter.mp hmem).2
  rfl

theorem record_alone (id : TargetId) (names : Alias) (changes : List (Change α))
    (change : Change α) :
    (ofTarget id (record changes change)).map (renamed names) =
      if change.target = id then
        record ((ofTarget id changes).map (renamed names)) (change.renamed names)
      else (ofTarget id changes).map (renamed names) := by
  unfold ofTarget
  induction changes with
  | nil => by_cases h : change.target = id <;> simp [record, h]
  | cons first rest ih =>
      by_cases hsame : first.sameCell change = true
      · rw [record, if_pos hsame]
        simp only [sameCell, Bool.and_eq_true, beq_iff_eq] at hsame
        by_cases h : change.target = id <;> simp [record, hsame, h, renamed, sameCell]
      · by_cases hfirst : first.target = id
        · by_cases h : change.target = id
          · have hchannel : first.channel ≠ change.channel := by
              intro heq
              simp [sameCell, hfirst, h, heq] at hsame
            rw [if_pos h] at ih
            simpa [record, hsame, hfirst, h, hchannel, renamed, sameCell] using ih
          · rw [if_neg h] at ih
            simpa [record, hsame, hfirst, h] using ih
        · simpa [record, hsame, hfirst] using ih

theorem foldl_record_alone (id : TargetId) (names : Alias) (changes : List (Change α)) :
    (ofTarget id (changes.foldl record [])).map (renamed names) =
      ((ofTarget id changes).map (renamed names)).foldl record [] := by
  induction changes using List.reverseRecOn with
  | nil => rfl
  | append_singleton changes change ih =>
      rw [List.foldl_concat, record_alone, ih]
      by_cases h : change.target = id <;> simp [ofTarget, h]

end Change

def Report.alone (report : Report α) (id : TargetId) (names : Alias) : Report α where
  loaded := (Change.ofTarget id report.loaded).map (Change.renamed names)
  written := (Change.ofTarget id report.written).map (Change.renamed names)
  events := (StageEvent.ofTarget id report.events).map (StageEvent.renamed names)

namespace Roster

def only (id : TargetId) : Option (Target α) → Roster α
  | none => empty
  | some target => empty.insert id target

@[simp] theorem get?_only (id : TargetId) (state : Option (Target α)) :
    (only id state).get? id = state := by
  cases state <;> simp [only]

@[simp] theorem insert_only (id : TargetId) (state : Option (Target α)) (target : Target α) :
    (only id state).insert id target = only id (some target) := by
  cases state <;> simp [only, insert, put, empty]

@[simp] theorem erase_only (id : TargetId) (state : Option (Target α)) :
    (only id state).erase id = only id none := by
  cases state <;> simp [only, insert, put, empty, erase]

end Roster

namespace Stage

/-! ## One animation under another name -/

def Entry.renamed (names : Alias) : Entry α → Entry α
  | beat animation _ entry => beat (names.animation animation) names.target entry
  | restarted animation _ => restarted (names.animation animation) names.target
  | continued text target => continued text target
  | abandoned animation text target error =>
    abandoned (names.animation animation) text target error
  | completed animation _ => completed (names.animation animation) names.target
  | orphaned animation _ => orphaned (names.animation animation) names.target

def Turn.renamed (names : Alias) (turn : Turn α) : Turn α where
  survivor := turn.survivor.map (Running.renamed names)
  target := turn.target
  entries := turn.entries.map (Entry.renamed names)

theorem event?_renamed (names : Alias) (entry : Entry α) :
    (entry.renamed names).event? = entry.event?.map (StageEvent.renamed names) := by
  cases entry with
  | beat animation target entry =>
      simp [Entry.renamed, Entry.event?, Function.comp_def, StageEvent.renamed]
  | _ => rfl

theorem change?_renamed (names : Alias) (entry : Entry α) :
    (entry.renamed names).change? = entry.change?.map (Change.renamed names) := by
  cases entry with
  | beat animation target entry =>
      simp [Entry.renamed, Entry.change?, Function.comp_def, Change.renamed]
  | _ => rfl

@[simp] theorem Turn.events_renamed (names : Alias) (turn : Turn α) :
    (turn.renamed names).entries.filterMap Entry.event? =
      (turn.entries.filterMap Entry.event?).map (StageEvent.renamed names) := by
  simp only [renamed, List.filterMap_map, List.map_filterMap, Function.comp_def, event?_renamed]

@[simp] theorem Turn.changes_renamed (names : Alias) (turn : Turn α) :
    (turn.renamed names).entries.filterMap Entry.change? =
      (turn.entries.filterMap Entry.change?).map (Change.renamed names) := by
  simp only [renamed, List.filterMap_map, List.map_filterMap, Function.comp_def, change?_renamed]

theorem Turn.after_renamed (names : Alias) (turn : Turn α) (entries : List (Entry α)) :
    (turn.after entries).renamed names =
      (turn.renamed names).after (entries.map (Entry.renamed names)) := by
  simp only [renamed, after, List.map_append]

theorem map_beat_renamed (names : Alias) (animation : AnimationId) (target : TargetId)
    (beats : List (GroupBeat α)) :
    (beats.map (Entry.beat animation target)).map (Entry.renamed names) =
      beats.map (Entry.beat (names.animation animation) names.target) :=
  List.map_map

variable [Scalar α] [Eases α]

theorem continueWith_renamed (names : Alias) (config : Config α) (run : Running α)
    (script : Script) (target : Target α) (now : α) :
    continueWith config (run.renamed names) script target now =
      (continueWith config run script target now).renamed names := by
  unfold continueWith
  split
  · simp only [Turn.renamed, List.map_cons, map_beat_renamed]
    rfl
  · rfl

theorem conclude_renamed (names : Alias) (config : Config α) (run : Running α)
    (target : Target α) (now : α) :
    conclude config (run.renamed names) target now =
      (conclude config run target now).renamed names := by
  unfold conclude
  have hroutine : (run.renamed names).routine = run.routine := rfl
  rw [hroutine]
  split
  · exact continueWith_renamed ..
  · split
    · rw [continueWith_renamed, Turn.after_renamed]
      rfl
    · rfl
  · rfl

theorem advance_renamed (names : Alias) (config : Config α) (run : Running α)
    (target : Target α) (now : α) :
    advance config (run.renamed names) target now =
      (advance config run target now).renamed names := by
  have hconclude := conclude_renamed names config
    { run with animation := (run.animation.update target now).animation }
    (run.animation.update target now).target now
  simp only [advance]
  have hanimation : (run.renamed names).animation = run.animation := rfl
  rw [hanimation]
  split
  · simp only [Turn.renamed, map_beat_renamed]
    rfl
  · rw [Turn.after_renamed, ← hconclude, map_beat_renamed]
    rfl

structure Turn.On (turn : Turn α) (id : TargetId) : Prop where
  survivor : ∀ run ∈ turn.survivor, run.target = id
  events : ∀ event ∈ turn.entries.filterMap Entry.event?, event.target = id
  changes : ∀ change ∈ turn.entries.filterMap Entry.change?, change.target = id

theorem advance_on (config : Config α) (run : Running α) (target : Target α) (now : α) :
    (advance config run target now).On run.target := by
  have hsame := advance_renamed (.same run.target) config run target now
  change advance config run target now = _ at hsame
  rw [hsame]
  constructor
  · intro survivor hmem
    obtain ⟨found, -, rfl⟩ := Option.map_eq_some_iff.mp hmem
    rfl
  · rw [Turn.events_renamed]
    intro event hmem
    obtain ⟨found, -, rfl⟩ := List.mem_map.mp hmem
    exact StageEvent.target_renamed ..
  · rw [Turn.changes_renamed]
    intro change hmem
    obtain ⟨found, -, rfl⟩ := List.mem_map.mp hmem
    rfl

/-! ## All animations of a target -/

structure Sweep.Shows (whole : Sweep α) (id : TargetId) (names : Alias) (own : Sweep α) : Prop where
  targets : own.targets = .only names.target (whole.targets.get? id)
  running : own.running = (Running.ofTarget id whole.running).map (Running.renamed names)
  events : own.entries.filterMap Entry.event? =
    (StageEvent.ofTarget id (whole.entries.filterMap Entry.event?)).map (StageEvent.renamed names)
  changes : own.entries.filterMap Entry.change? =
    (Change.ofTarget id (whole.entries.filterMap Entry.change?)).map (Change.renamed names)

def Sweep.after (sweep : Sweep α) (turn : Turn α) : Sweep α :=
  ⟨sweep.targets, turn.survivor.toList ++ sweep.running, turn.entries ++ sweep.entries⟩

namespace Sweep.Shows

variable {whole own : Sweep α} {id : TargetId} {names : Alias} {turn : Turn α}

omit [Scalar α] [Eases α] in
theorem after_own (h : whole.Shows id names own) (hon : turn.On id) :
    (whole.after turn).Shows id names (own.after (turn.renamed names)) := by
  have hsurvivor : Running.ofTarget id turn.survivor.toList = turn.survivor.toList :=
    List.filter_eq_self.mpr fun run hmem => by
      simpa using hon.survivor run (Option.mem_toList.mp hmem)
  have htold : StageEvent.ofTarget id (turn.entries.filterMap Entry.event?) = _ :=
    List.filter_eq_self.mpr fun event hmem => by simpa using hon.events event hmem
  have hwritten : Change.ofTarget id (turn.entries.filterMap Entry.change?) = _ :=
    List.filter_eq_self.mpr fun change hmem => by simpa using hon.changes change hmem
  refine ⟨h.targets, ?_, ?_, ?_⟩
  · simp only [after, Running.ofTarget_append, List.map_append, hsurvivor, h.running]
    rw [Turn.renamed, Option.toList_map]
  · simp only [after, List.filterMap_append, StageEvent.ofTarget_append, List.map_append, htold,
      h.events, Turn.events_renamed]
  · simp only [after, List.filterMap_append, Change.ofTarget_append, List.map_append, hwritten,
      h.changes, Turn.changes_renamed]

omit [Scalar α] [Eases α] in
theorem after_other (h : whole.Shows id names own) {other : TargetId} (hon : turn.On other)
    (hne : other ≠ id) : (whole.after turn).Shows id names own := by
  have hsurvivor : Running.ofTarget id turn.survivor.toList = [] :=
    List.filter_eq_nil_iff.mpr fun run hmem => by
      simpa [hon.survivor run (Option.mem_toList.mp hmem)] using hne
  have htold : StageEvent.ofTarget id (turn.entries.filterMap Entry.event?) = [] :=
    List.filter_eq_nil_iff.mpr fun event hmem => by simpa [hon.events event hmem] using hne
  have hwritten : Change.ofTarget id (turn.entries.filterMap Entry.change?) = [] :=
    List.filter_eq_nil_iff.mpr fun change hmem => by simpa [hon.changes change hmem] using hne
  refine ⟨h.targets, ?_, ?_, ?_⟩
  · rw [after, Running.ofTarget_append, hsurvivor, List.nil_append]
    exact h.running
  · rw [after, List.filterMap_append, StageEvent.ofTarget_append, htold, List.nil_append]
    exact h.events
  · rw [after, List.filterMap_append, Change.ofTarget_append, hwritten, List.nil_append]
    exact h.changes

end Sweep.Shows

theorem sweepFrom_of_found {config : Config α} {now : α} {targets : Roster α} {run : Running α}
    {target : Target α} (h : targets.get? run.target = some target) (rest : List (Running α)) :
    sweepFrom config now targets (run :: rest) =
      (sweepFrom config now
        (targets.insert run.target (advance config run target now).target) rest).after
        (advance config run target now) := by
  rw [sweepFrom, h]
  rfl

/-- The animations of the other targets, which come in between, change nothing. -/
theorem sweepFrom_shows (config : Config α) (now : α) (id : TargetId) (names : Alias)
    (targets : Roster α) (runs : List (Running α)) :
    (sweepFrom config now targets runs).Shows id names
      (sweepFrom config now (.only names.target (targets.get? id))
        ((Running.ofTarget id runs).map (Running.renamed names))) := by
  induction runs generalizing targets with
  | nil => exact ⟨rfl, rfl, rfl, rfl⟩
  | cons run rest ih =>
      have hon := advance_on config run
      by_cases hmine : run.target = id
      · have hruns : Running.ofTarget id (run :: rest) = run :: Running.ofTarget id rest := by
          simp [Running.ofTarget, hmine]
        rw [hruns, List.map_cons]
        cases hfound : targets.get? id with
        | none =>
            obtain ⟨htargets, hrunning, hevents, hchanges⟩ := ih targets
            rw [sweepFrom, sweepFrom, hmine, hfound, Running.renamed]
            rw [hfound] at htargets hrunning hevents hchanges
            exact ⟨htargets, hrunning, hevents, hchanges⟩
        | some target =>
            have hwhole : targets.get? run.target = some target := hmine ▸ hfound
            have hown : (Roster.only names.target (some target)).get?
                (run.renamed names).target = some target := Roster.get?_only ..
            have hnext : (Roster.only names.target (some target)).insert
                (run.renamed names).target (advance config run target now).target =
                .only names.target (some (advance config run target now).target) :=
              Roster.insert_only ..
            have hrest := ih (targets.insert run.target (advance config run target now).target)
            rw [Roster.get?_insert, if_pos hmine.symm] at hrest
            rw [sweepFrom_of_found hwhole, sweepFrom_of_found hown, advance_renamed, Turn.renamed,
              hnext]
            exact hrest.after_own (hmine ▸ hon target now)
      · have hruns : Running.ofTarget id (run :: rest) = Running.ofTarget id rest := by
          simp [Running.ofTarget, hmine]
        rw [hruns]
        cases hfound : targets.get? run.target with
        | none =>
            obtain ⟨htargets, hrunning, hevents, hchanges⟩ := ih targets
            rw [sweepFrom, hfound]
            exact ⟨htargets, hrunning, hevents, hchanges⟩
        | some target =>
            have hrest := ih (targets.insert run.target (advance config run target now).target)
            rw [Roster.get?_insert, if_neg (Ne.symm hmine)] at hrest
            rw [sweepFrom_of_found hfound]
            exact hrest.after_other (hon target now) hmine

/-! ## A stage with one target -/

def alone (stage : Stage α) (id : TargetId) (names : Alias) : Stage α where
  config := stage.config
  ids := names.ids
  targets := .only names.target (stage.target? id)
  running := (Running.ofTarget id stage.running).map (Running.renamed names)
  pending := (StageEvent.ofTarget id stage.pending).map (StageEvent.renamed names)
  report := stage.report.alone id names

theorem alone_update (stage : Stage α) (id : TargetId) (names : Alias) (now : α) :
    (stage.update now).alone id names = (stage.alone id names).update now := by
  obtain ⟨htargets, hrunning, hevents, hchanges⟩ :=
    sweepFrom_shows stage.config now id names stage.targets stage.running
  simp only [alone, update, sweep, target?, Report.alone, Sweep.report, htargets, hrunning,
    hevents, hchanges, Change.foldl_record_alone, StageEvent.ofTarget_append, List.map_append]
  rfl

/-! ## Two stages with the same of a target -/

structure Alike (first second : Stage α) (id : TargetId) : Prop where
  config : first.config = second.config
  target : first.target? id = second.target? id
  running : Running.ofTarget id first.running = Running.ofTarget id second.running
  pending : StageEvent.ofTarget id first.pending = StageEvent.ofTarget id second.pending

omit [Scalar α] [Eases α] in
theorem Alike.alone_eq {first second : Stage α} {id : TargetId} (h : first.Alike second id)
    (report : first.report = second.report) (names : Alias) :
    first.alone id names = second.alone id names := by
  rw [alone, alone, h.config, h.target, h.running, h.pending, report]

omit [Scalar α] [Eases α] in
theorem alone_same_report (stage : Stage α) (id : TargetId) :
    (stage.alone id (.same id)).report.changes = Change.ofTarget id stage.report.changes ∧
      (stage.alone id (.same id)).report.events = StageEvent.ofTarget id stage.report.events := by
  constructor
  · rw [alone, Report.alone, Report.changes, Change.map_renamed_same, Change.map_renamed_same,
      ← Change.ofTarget_append]
    rfl
  · exact StageEvent.map_renamed_same ..

/-- An update has for a target what it has for the target alone, so it cannot
tell such stages apart. -/
theorem Alike.update {first second : Stage α} {id : TargetId} (h : first.Alike second id)
    (now : α) :
    (first.update now).Alike (second.update now) id ∧
      Change.ofTarget id (first.update now).report.changes =
        Change.ofTarget id (second.update now).report.changes ∧
      StageEvent.ofTarget id (first.update now).report.events =
        StageEvent.ofTarget id (second.update now).report.events := by
  have hupdate : (first.update now).alone id (.same id) =
      (second.update now).alone id (.same id) := by
    have hunread : ({ first with report := second.report } : Stage α).Alike second id :=
      ⟨h.config, h.target, h.running, h.pending⟩
    have hfirst := alone_update { first with report := second.report } id (.same id) now
    rw [hunread.alone_eq rfl, ← alone_update] at hfirst
    exact hfirst
  obtain ⟨hchanges, hevents⟩ := (first.update now).alone_same_report id
  obtain ⟨hchanges', hevents'⟩ := (second.update now).alone_same_report id
  refine ⟨⟨h.config, ?_, ?_, rfl⟩, ?_, ?_⟩
  · have htargets := congrArg (fun stage => stage.targets.get? id) hupdate
    simpa [alone, Alias.same] using htargets
  · have hrunning := congrArg Stage.running hupdate
    simpa only [alone, Running.map_renamed_same] using hrunning
  · rw [← hchanges, ← hchanges', hupdate]
  · rw [← hevents, ← hevents', hupdate]

end Stage

end MotionNotation
