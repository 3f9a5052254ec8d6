import Mathlib.Data.List.Nodup
import MotionNotation.Proofs.Stage.Sweep

/-!
# Stages in order

Animations are numbered by their starts.  As long as the numbers last no two
running animations share one, and nothing runs, is pending or is heard under a
number that was not given out before.
-/

namespace MotionNotation

namespace Stage

variable {α : Type} [Scalar α] [Eases α]

def launches (stage : Stage α) : List (Move α) → List Launch
  | [] => []
  | move :: rest => (stage.launched? move).toList ++ (stage.make move).launches rest

theorem launches_append (stage : Stage α) (first second : List (Move α)) :
    stage.launches (first ++ second) =
      stage.launches first ++ (stage.course first).launches second := by
  induction first generalizing stage with
  | nil => rfl
  | cons move rest ih => simp [launches, ih]

omit [Scalar α] [Eases α] in
theorem isRunning_iff (stage : Stage α) (id : AnimationId) :
    stage.isRunning id = true ↔ ∃ run ∈ stage.running, run.id = id := by
  simp [isRunning]

theorem ofAnimation_heard_update (stage : Stage α) (now : α) (id : AnimationId) :
    StageEvent.ofAnimation id (stage.heard (.operate (.update now))) =
      StageEvent.ofAnimation id stage.pending ++
        StageEvent.ofAnimation id ((stage.sweep now).entries.filterMap Entry.event?) := by
  rw [← StageEvent.ofAnimation_append]
  rfl

structure Orderly (stage : Stage α) (launches : List Launch) : Prop where
  counter : stage.ids.nextAnimation.toNat = launches.length
  numbers : launches.map (fun launch => launch.id.val.toNat) = List.range launches.length
  running : ∀ run ∈ stage.running, ∃ launch ∈ launches, launch.id = run.id
  distinct : (stage.running.map Running.id).Nodup
  pending : ∀ event ∈ stage.pending, event.isCompletion = false ∧
    ∃ launch ∈ launches, launch.id = event.animation

namespace Orderly

variable {config : Config α} {stage : Stage α} {launches : List Launch}

omit [Scalar α] [Eases α] in
theorem id_lt (h : stage.Orderly launches) {launch : Launch} (hlaunch : launch ∈ launches) :
    launch.id.val.toNat < launches.length := by
  rw [← List.mem_range, ← h.numbers]
  exact List.mem_map_of_mem hlaunch

omit [Scalar α] [Eases α] in
theorem id_ne_next (h : stage.Orderly launches) {launch : Launch} (hlaunch : launch ∈ launches) :
    launch.id ≠ ⟨stage.ids.nextAnimation⟩ := by
  intro hid
  have hlt := h.id_lt hlaunch
  rw [hid, h.counter] at hlt
  exact Nat.lt_irrefl _ hlt

theorem make (h : stage.Orderly launches) (hconfig : stage.config = config)
    (intact : Intact config stage.targets stage.running) (move : Move α)
    (bound : (launches ++ (stage.launched? move).toList).length < 4294967296) :
    (stage.make move).Orderly (launches ++ (stage.launched? move).toList) := by
  subst hconfig
  cases stage.make_outcome move with
  | settles launched _ untouched =>
      rw [launched, Option.toList_none, List.append_nil]
      refine ⟨?_, h.numbers, ?_, ?_, ?_⟩
      · rw [untouched.nextAnimation, h.counter]
      · rw [untouched.running]
        exact h.running
      · rw [untouched.running]
        exact h.distinct
      · rw [untouched.pending]
        exact h.pending
  | launches launch target turn launched _ made =>
      have hid := made.id
      rw [launched, Option.toList_some] at bound ⊢
      rw [made.next]
      have hnew : launch ∈ launches ++ [launch] := List.mem_append_right _ List.mem_cons_self
      refine ⟨?_, ?_, ?_, ?_, ?_⟩
      · rw [IdCounter.takeAnimation_next, h.counter, List.length_append, List.length_singleton]
        rw [List.length_append, List.length_singleton] at bound
        exact Nat.mod_eq_of_lt bound
      · rw [List.map_append, h.numbers, List.length_append, List.length_singleton,
          List.range_succ, List.map_singleton, hid, h.counter]
      · intro run hrun
        rcases List.mem_append.mp hrun with hrun | hrun
        · obtain ⟨found, hfound, heq⟩ := h.running run hrun
          exact ⟨found, List.mem_append_left _ hfound, heq⟩
        · rw [List.mem_singleton.mp hrun]
          exact ⟨launch, hnew, rfl⟩
      · rw [List.map_append, List.map_singleton]
        refine h.distinct.append (List.nodup_singleton _) ?_
        rw [List.disjoint_singleton]
        intro hmem
        obtain ⟨run, hrun, heq⟩ := List.mem_map.mp hmem
        obtain ⟨found, hfound, hsame⟩ := h.running run hrun
        exact h.id_ne_next hfound (hsame.trans (heq.trans hid))
      · intro event hmem
        rcases List.mem_append.mp hmem with hmem | hmem
        · obtain ⟨hkind, found, hfound, heq⟩ := h.pending event hmem
          exact ⟨hkind, found, List.mem_append_left _ hfound, heq⟩
        · obtain ⟨told, -, rfl⟩ := List.mem_map.mp hmem
          exact ⟨rfl, launch, hnew, rfl⟩
  | removes id move_eq made =>
      subst move_eq
      rw [made]
      simp only [launched?, Option.toList_none, List.append_nil]
      refine ⟨h.counter, h.numbers, ?_, ?_, h.pending⟩
      · exact fun run hrun => h.running run (List.mem_filter.mp hrun).1
      · exact h.distinct.sublist (List.filter_sublist.map _)
  | stops id move_eq =>
      subst move_eq
      simp only [launched?, Option.toList_none, List.append_nil]
      refine ⟨h.counter, h.numbers, ?_, ?_, h.pending⟩
      · exact fun run hrun => h.running run (List.mem_filter.mp hrun).1
      · exact h.distinct.sublist (List.filter_sublist.map _)
  | updates now move_eq =>
      subst move_eq
      simp only [launched?, Option.toList_none, List.append_nil]
      refine ⟨h.counter, h.numbers, ?_, ?_, List.forall_mem_nil _⟩
      · intro survivor hmem
        obtain ⟨run, hrun, hid, -⟩ := same_of_mem_sweepFrom intact now survivor hmem
        rw [hid]
        exact h.running run hrun
      · exact h.distinct.sublist (ids_sweepFrom intact now)

theorem launched_of_heard (h : stage.Orderly launches) (hconfig : stage.config = config)
    (intact : Intact config stage.targets stage.running) (move : Move α) :
    ∀ event ∈ stage.heard move, ∃ launch ∈ launches, launch.id = event.animation := by
  subst hconfig
  have hupdate : ∀ now, ∀ event ∈ stage.heard (.operate (.update now)),
      ∃ launch ∈ launches, launch.id = event.animation := by
    intro now event hmem
    by_contra hnone
    have habsent : ∀ run ∈ stage.running, run.id ≠ event.animation := by
      intro run hrun hid
      obtain ⟨launch, hlaunch, hsame⟩ := h.running run hrun
      exact hnone ⟨launch, hlaunch, hsame.trans hid⟩
    have hmine : event ∈ StageEvent.ofAnimation event.animation
        (stage.heard (.operate (.update now))) :=
      List.mem_filter.mpr ⟨hmem, by simp⟩
    rw [ofAnimation_heard_update, sweep, events_sweepFrom_of_absent intact now habsent,
      List.append_nil] at hmine
    exact hnone (h.pending event (List.mem_filter.mp hmine).1).2
  cases stage.make_outcome move with
  | settles _ heard => rw [heard]; exact List.forall_mem_nil _
  | launches _ _ _ _ heard => rw [heard]; exact List.forall_mem_nil _
  | removes id move_eq => subst move_eq; exact List.forall_mem_nil _
  | stops id move_eq => subst move_eq; exact List.forall_mem_nil _
  | updates now move_eq => subst move_eq; exact hupdate now

end Orderly

theorem Launched.ofAnimation_pending {stage next : Stage α} {other : Launch}
    {target : Target α} {turn : Animation.Turn α} (made : stage.Launched next other target turn)
    {id : AnimationId} (hne : other.id ≠ id) :
    StageEvent.ofAnimation id next.pending = StageEvent.ofAnimation id stage.pending := by
  have hsilent : StageEvent.ofAnimation id
      (eventsOf other.id other.target turn.beats) = [] := by
    apply StageEvent.ofAnimation_eq_nil
    intro event hmem
    obtain ⟨found, -, rfl⟩ := List.mem_map.mp hmem
    exact hne
  rw [made.next]
  simp only [StageEvent.ofAnimation_append, hsilent, List.append_nil]

end Stage

end MotionNotation
