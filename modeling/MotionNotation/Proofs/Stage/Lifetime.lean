import MotionNotation.Easing.Transcendental
import MotionNotation.Proofs.Stage.Orderly

/-!
# Lifetimes on a stage

The events that a stage reports of one animation are a beginning of its life.
Between a start and the next update they wait among the pending events; an
update hands these over first, then what the animation does in it, then what
follows the animation if it has finished.  An animation that is gone tells
nothing but what was pending.
-/

namespace MotionNotation

namespace Stage

variable {α : Type} [Scalar α] [Eases α]

open Animation (Activation)

/-! ## A life goes on -/

def Lives (config : Config α) (launch : Launch) (events : List (StageEvent α)) (run : Running α) :
    Prop :=
  run.target = launch.target ∧
    ∃ segments told, Activation segments told run.animation ∧
      Life config launch events (.playing run.routine (segments.map Segment.plan) told)

omit [Eases α] in
theorem reads_of_readAll {config : Config α} {text : String} {target : Target α}
    {segments : List (Segment α)} (h : Segment.readAll config target text = .ok segments) :
    Reads config text (segments.map Segment.plan) :=
  ⟨target, segments, h, rfl⟩

theorem Life.begins {config : Config α} {launch : Launch} {events : List (StageEvent α)}
    {routine : Routine} {segments : List (Segment α)}
    (life : Life config launch events (.playing routine (segments.map Segment.plan) []))
    (target : Target α) (now : α) (signal : Option Nat) :
    Life config launch
      (events ++ (GroupBeat.events (Animation.start segments target now signal).beats).map
        (.group launch.id launch.target))
      (.playing routine (segments.map Segment.plan)
        (GroupBeat.events (Animation.start segments target now signal).beats)) := by
  have hactivation : Animation.Activation segments _ _ := .start target now signal
  simpa using life.tells_all (by simpa using hactivation.begun)

theorem Lives.advance {config : Config α} {launch : Launch} {events : List (StageEvent α)}
    {run : Running α} (h : Lives config launch events run) (hid : run.id = launch.id)
    {target : Target α} {now : α} (outcome : AdvanceOutcome config run target now) :
    (∃ standing, Life config launch
        (events ++ (advance config run target now).entries.filterMap Entry.event?) standing) ∧
      ∀ survivor, (Stage.advance config run target now).survivor = some survivor →
        Lives config launch
          (events ++ (Stage.advance config run target now).entries.filterMap Entry.event?)
          survivor := by
  obtain ⟨htarget, segments, told, activation, life⟩ := h
  have hnext := activation.update target now
  have hlife := life.tells_all hnext.begun
  cases outcome with
  | goesOn status survivor entries =>
      rw [survivor, entries, events_map_beat, hid, htarget]
      refine ⟨⟨_, hlife⟩, ?_⟩
      rintro _ ⟨⟩
      exact ⟨rfl, segments, _, hnext, hlife⟩
  | ends status last survivor entries =>
      have hend := hlife.completes (hnext.played status) last
      rw [survivor, entries, List.filterMap_append, events_map_beat, hid, htarget]
      refine ⟨⟨.completed, ?_⟩, ?_⟩
      · rw [← List.append_assoc]
        exact hend
      · rintro _ ⟨⟩
  | continues script next status launched routine survivor entries =>
      obtain ⟨others, hread, rfl⟩ := Animation.launch_ok launched
      rw [routine] at hlife
      have hopen := hlife.continues (hnext.played status) (reads_of_readAll hread)
      have hmain := hopen.begins (run.animation.update target now).target now none
      rw [survivor, entries, List.filterMap_append, events_map_beat, List.filterMap_cons,
        events_map_beat, hid, htarget, ← List.append_assoc]
      refine ⟨⟨_, hmain⟩, ?_⟩
      rintro _ ⟨⟩
      exact ⟨rfl, others, _, .start _ now none, hmain⟩
  | repeats script next status launched routine again survivor entries =>
      obtain ⟨others, hread, rfl⟩ := Animation.launch_ok launched
      rw [routine] at hlife
      have hopen := hlife.restarts (hnext.played status) again (reads_of_readAll hread)
      have hmain := hopen.begins (run.animation.update target now).target now none
      have hevents : (Stage.advance config run target now).entries.filterMap Entry.event? =
          (GroupBeat.events (run.animation.update target now).beats).map
              (.group launch.id launch.target) ++
            .playbackRestarted launch.id launch.target ::
              (GroupBeat.events (Animation.start others (run.animation.update target now).target
                now none).beats).map (.group launch.id launch.target) := by
        rw [entries, List.filterMap_append, events_map_beat, ← hid, ← htarget, ← events_map_beat,
          ← events_map_beat]
        rfl
      rw [survivor, hevents, List.append_cons, ← List.append_assoc, ← List.append_assoc]
      refine ⟨⟨_, hmain⟩, ?_⟩
      rintro _ ⟨⟩
      exact ⟨htarget, others, _, .start _ now none, hmain⟩

/-! ## What is reported and what is pending -/

def reported (stage : Stage α) (id : AnimationId) : List (Move α) → List (StageEvent α)
  | [] => []
  | move :: rest =>
    StageEvent.ofAnimation id (stage.heard move) ++ (stage.make move).reported id rest

theorem reported_append (stage : Stage α) (id : AnimationId) (first second : List (Move α)) :
    stage.reported id (first ++ second) =
      stage.reported id first ++ (stage.course first).reported id second := by
  induction first generalizing stage with
  | nil => rfl
  | cons move rest ih => simp [reported, ih]

structure Follows (config : Config α) (stage : Stage α) (launch : Launch)
    (told : List (StageEvent α)) : Prop where
  life : ∃ standing,
    Life config launch (told ++ StageEvent.ofAnimation launch.id stage.pending) standing
  lives : ∀ run ∈ stage.running, run.id = launch.id →
    Lives config launch (told ++ StageEvent.ofAnimation launch.id stage.pending) run

namespace Follows

variable {config : Config α} {stage : Stage α} {launches : List Launch} {launch : Launch}
  {told : List (StageEvent α)}

theorem start (orderly : stage.Orderly launches) (hconfig : stage.config = config)
    {next : Stage α} {target : Target α} {turn : Animation.Turn α}
    (made : stage.Launched next launch target turn) : Follows config next launch [] := by
  subst hconfig
  obtain ⟨now, signal, hturn⟩ := made.read
  obtain ⟨segments, hread, rfl⟩ := Animation.launch_ok hturn
  have hpending : StageEvent.ofAnimation launch.id stage.pending = [] := by
    apply StageEvent.ofAnimation_eq_nil
    intro event hmem
    obtain ⟨-, found, hfound, heq⟩ := orderly.pending event hmem
    rw [← heq, made.id]
    exact orderly.id_ne_next hfound
  have hopens : Life stage.config launch [] _ := .opens (reads_of_readAll hread)
  have hlife := hopens.begins target now signal
  have htold : StageEvent.ofAnimation launch.id next.pending =
      (GroupBeat.events (Animation.start segments target now signal).beats).map
        (.group launch.id launch.target) := by
    rw [made.next]
    simp only [StageEvent.ofAnimation_append, hpending, List.nil_append, eventsOf]
    apply StageEvent.ofAnimation_eq_self
    intro event hmem
    obtain ⟨found, -, rfl⟩ := List.mem_map.mp hmem
    rfl
  rw [List.nil_append] at hlife
  constructor
  case life => exact ⟨_, by rw [List.nil_append, htold]; exact hlife⟩
  case lives =>
    rw [List.nil_append, htold]
    intro run hrun hid
    rw [made.next] at hrun
    rcases List.mem_append.mp hrun with hrun | hrun
    · obtain ⟨found, hfound, heq⟩ := orderly.running run hrun
      exact absurd (heq.trans (hid.trans made.id)) (orderly.id_ne_next hfound)
    · rw [List.mem_singleton.mp hrun]
      exact ⟨rfl, segments, _, .start target now signal, hlife⟩

theorem make (h : Follows config stage launch told) (orderly : stage.Orderly launches)
    (hconfig : stage.config = config) (intact : Intact config stage.targets stage.running)
    (hlaunch : launch ∈ launches) (move : Move α) :
    Follows config (stage.make move) launch
      (told ++ StageEvent.ofAnimation launch.id (stage.heard move)) := by
  subst hconfig
  cases stage.make_outcome move with
  | settles _ heard untouched =>
      rw [heard, StageEvent.ofAnimation_nil, List.append_nil]
      exact ⟨by rw [untouched.pending]; exact h.life,
        by rw [untouched.pending, untouched.running]; exact h.lives⟩
  | launches other target turn _ heard made =>
      have hne : other.id ≠ launch.id := by
        rw [made.id]
        exact (orderly.id_ne_next hlaunch).symm
      rw [heard, StageEvent.ofAnimation_nil, List.append_nil]
      refine ⟨by rw [made.ofAnimation_pending hne]; exact h.life, ?_⟩
      rw [made.ofAnimation_pending hne, made.next]
      intro run hrun hid
      rcases List.mem_append.mp hrun with hrun | hrun
      · exact h.lives run hrun hid
      · rw [List.mem_singleton.mp hrun] at hid
        exact absurd hid hne
  | removes id move_eq made =>
      subst move_eq
      rw [made]
      simp only [heard, StageEvent.ofAnimation_nil, List.append_nil]
      exact ⟨h.life, fun run hrun => h.lives run (List.mem_filter.mp hrun).1⟩
  | stops id move_eq =>
      subst move_eq
      simp only [heard, StageEvent.ofAnimation_nil, List.append_nil]
      exact ⟨h.life, fun run hrun => h.lives run (List.mem_filter.mp hrun).1⟩
  | updates now move_eq =>
      subst move_eq
      have hpending : (stage.make (.operate (.update now))).pending = [] := rfl
      rw [ofAnimation_heard_update, ← List.append_assoc]
      by_cases hrun : ∃ run ∈ stage.running, run.id = launch.id
      · obtain ⟨run, hrun, hid⟩ := hrun
        obtain ⟨target, houtcome, hevents, hsurvivor⟩ :=
          sweepFrom_of_mem intact orderly.distinct now hrun
        obtain ⟨hlife, hlives⟩ := (h.lives run hrun hid).advance hid houtcome
        rw [hid] at hevents hsurvivor
        rw [sweep, hevents]
        refine ⟨by rw [hpending, StageEvent.ofAnimation_nil, List.append_nil]; exact hlife, ?_⟩
        rw [hpending, StageEvent.ofAnimation_nil, List.append_nil]
        intro survivor hmem hsame
        exact hlives survivor ((hsurvivor survivor).mp ⟨hmem, hsame⟩)
      · have habsent : ∀ run ∈ stage.running, run.id ≠ launch.id :=
          fun run hmem hid => hrun ⟨run, hmem, hid⟩
        rw [sweep, events_sweepFrom_of_absent intact now habsent, List.append_nil]
        refine ⟨by rw [hpending, StageEvent.ofAnimation_nil, List.append_nil]; exact h.life, ?_⟩
        intro survivor hmem hsame
        obtain ⟨run, hfound, hid, -⟩ := same_of_mem_sweepFrom intact now survivor hmem
        exact absurd (hid.symm.trans hsame) (habsent run hfound)

end Follows

/-! ## From the first move on -/

structure Record (config : Config α) (moves : List (Move α)) : Prop where
  intact : Intact config ((start config).course moves).targets
    ((start config).course moves).running
  orderly : ((start config).course moves).Orderly ((start config).launches moves)
  follows : ∀ launch ∈ (start config).launches moves,
    Follows config ((start config).course moves) launch
      ((start config).reported launch.id moves)
  unheard : ∀ id, (∀ launch ∈ (start config).launches moves, launch.id ≠ id) →
    (start config).reported id moves = []

theorem course_record (config : Config α) (moves : List (Move α))
    (bound : ((start config).launches moves).length < 4294967296) : Record config moves := by
  induction moves using List.reverseRecOn with
  | nil =>
      refine ⟨(course_intact config []).1, ⟨rfl, rfl, ?_, List.nodup_nil, ?_⟩, ?_, fun _ _ => rfl⟩
      · exact List.forall_mem_nil _
      · exact List.forall_mem_nil _
      · exact List.forall_mem_nil _
  | append_singleton moves move ih =>
      obtain ⟨hintact, hconfig⟩ := course_intact config moves
      have hlaunches : (start config).launches (moves ++ [move]) =
          (start config).launches moves ++
            (((start config).course moves).launched? move).toList := by
        simp [launches_append, launches]
      have hreported : ∀ id, (start config).reported id (moves ++ [move]) =
          (start config).reported id moves ++
            StageEvent.ofAnimation id (((start config).course moves).heard move) := by
        simp [reported_append, reported]
      have hcourse : (start config).course (moves ++ [move]) =
          ((start config).course moves).make move := by
        simp [course_append]
      rw [hlaunches] at bound
      have record := ih (by rw [List.length_append] at bound; omega)
      refine ⟨(course_intact config _).1, ?_, ?_, ?_⟩
      · rw [hcourse, hlaunches]
        exact record.orderly.make hconfig hintact move bound
      · intro launch hlaunch
        rw [hreported, hcourse]
        rw [hlaunches] at hlaunch
        rcases List.mem_append.mp hlaunch with hold | hnew
        · exact (record.follows launch hold).make record.orderly hconfig hintact hold move
        · obtain ⟨target, turn, hheard, made⟩ :=
            launched_of_launched? (Option.mem_toList.mp hnew)
          have hnone : (start config).reported launch.id moves = [] := by
            apply record.unheard
            intro found hfound
            rw [made.id]
            exact record.orderly.id_ne_next hfound
          rw [hnone, hheard]
          exact .start record.orderly hconfig made
      · intro id hother
        rw [hlaunches] at hother
        rw [hreported, record.unheard id fun launch hlaunch =>
          hother launch (List.mem_append_left _ hlaunch), List.nil_append]
        apply StageEvent.ofAnimation_eq_nil
        intro event hmem
        obtain ⟨launch, hlaunch, hid⟩ :=
          record.orderly.launched_of_heard hconfig hintact move event hmem
        rw [← hid]
        exact hother launch (List.mem_append_left _ hlaunch)

end Stage

end MotionNotation
