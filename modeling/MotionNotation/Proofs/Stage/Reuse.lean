import MotionNotation.Easing.Transcendental
import MotionNotation.Proofs.Stage.Counting

/-!
# When numbers come again

The numbers of targets and of animations run through a machine word and then
begin again.  A number that comes again while it is in use has been in use while
all the others were given out.
-/

namespace MotionNotation

namespace Stage

variable {α : Type} [Scalar α] [Eases α]

/-! ## Targets -/

/-- A number has been that of a target ever since one was added under it, while
so many others were added. -/
def Held (config : Config α) (moves : List (Move α)) (id : TargetId) (others : Nat) : Prop :=
  ∃ before target after, moves = before ++ .operate (.addTarget target) :: after ∧
    (((start config).course before).addTarget target).1 = id ∧
    (∀ middle, middle <+: after →
      (((start config).course (before ++ .operate (.addTarget target) :: middle)).target?
        id).isSome = true) ∧
    additions after = others

theorem launch_registered {stage next : Stage α} {id other : TargetId} {text : String} {now : α}
    {signal : Option Nat} {routine : Routine} {animation : AnimationId}
    (h : stage.launch other text now signal routine = .ok (animation, next))
    (registered : (next.target? id).isSome = true) : (stage.target? id).isSome = true := by
  obtain ⟨target, turn, htarget, -, -, rfl⟩ := launch_ok h
  rw [target?, Roster.get?_insert] at registered
  split at registered
  · rename_i hid
    rw [hid, htarget]
    rfl
  · exact registered

theorem registered_of_sweepFrom {config : Config α} {now : α} {targets : Roster α}
    {runs : List (Running α)} {id : TargetId}
    (h : ((sweepFrom config now targets runs).targets.get? id).isSome = true) :
    (targets.get? id).isSome = true := by
  induction runs generalizing targets with
  | nil => exact h
  | cons run rest ih =>
      rw [sweepFrom] at h
      split at h
      · exact ih h
      · rename_i target hfound
        have hnext := ih h
        rw [Roster.get?_insert] at hnext
        split at hnext
        · rename_i hid
          rw [hid, hfound]
          rfl
        · exact hnext

theorem registered_of_make {stage : Stage α} {move : Move α} {id : TargetId}
    (h : ((stage.make move).target? id).isSome = true) :
    (stage.target? id).isSome = true ∨
      ∃ target, move = .operate (.addTarget target) ∧ (stage.addTarget target).1 = id := by
  cases move with
  | edit other change =>
      rw [make, target?_editTarget] at h
      split at h
      · rename_i hid
        rw [hid]
        exact .inl (by simpa using h)
      · exact .inl h
  | operate operation =>
      cases operation with
      | addTarget target =>
          rw [make, perform, target?_addTarget] at h
          split at h
          · rename_i hid
            exact .inr ⟨target, rfl, hid.symm⟩
          · exact .inl h
      | removeTarget other =>
          rw [make, perform, target?_removeTarget] at h
          split at h
          · cases h
          · exact .inl h
      | animate other text now signal =>
          refine .inl (settle_cases (motive := fun next => (next.target? id).isSome = true →
            (stage.target? id).isSome = true) (fun hsame => hsame) ?_ h)
          exact fun _ _ hok => launch_registered hok
      | play other script now =>
          refine .inl (settle_cases (motive := fun next => (next.target? id).isSome = true →
            (stage.target? id).isSome = true) (fun hsame => hsame) ?_ h)
          exact fun _ _ hok => launch_registered (play_ok hok)
      | stop animation => exact .inl h
      | update now => exact .inl (registered_of_sweepFrom h)

theorem held_of_registered (config : Config α) (moves : List (Move α)) (id : TargetId)
    (h : (((start config).course moves).target? id).isSome = true) :
    ∃ others, Held config moves id others := by
  induction moves using List.reverseRecOn with
  | nil => cases h
  | append_singleton moves move ih =>
      have hnow := h
      rw [course_concat] at hnow
      obtain hbefore | ⟨target, rfl, hid⟩ := registered_of_make hnow
      · obtain ⟨_, before, target, after, hmoves, hid, hheld, -⟩ := ih hbefore
        refine ⟨_, before, target, after ++ [move], by simp [hmoves], hid, ?_, rfl⟩
        intro middle hmiddle
        rcases List.prefix_concat_iff.mp hmiddle with rfl | hmiddle
        · rw [hmoves] at h
          simpa using h
        · exact hheld middle hmiddle
      · refine ⟨_, moves, target, [], rfl, hid, ?_, rfl⟩
        intro middle hmiddle
        rw [List.prefix_nil.mp hmiddle]
        exact h

/-- A number comes again when the counter has run through. -/
theorem le_of_ofNat_eq {first others : Nat}
    (h : UInt32.ofNat (first + 1 + others) = .ofNat first) : 4294967295 ≤ others := by
  have hmod := congrArg UInt32.toNat h
  simp only [UInt32.toNat_ofNat'] at hmod
  omega

theorem le_others_of_held {config : Config α} {moves : List (Move α)} {id : TargetId}
    {others : Nat} (h : Held config moves id others) {target : Target α}
    (again : (((start config).course moves).addTarget target).1 = id) : 4294967295 ≤ others := by
  obtain ⟨before, added, after, rfl, hid, -, rfl⟩ := h
  have hsame := congrArg TargetId.val (again.trans hid.symm)
  change ((start config).course _).ids.nextTarget =
    ((start config).course _).ids.nextTarget at hsame
  rw [nextTarget_of_start, nextTarget_of_start, List.append_cons, additions_append,
    additions_append] at hsame
  exact le_of_ofNat_eq hsame

/-! ## Animations -/

/-- A number has been that of a running animation ever since one was started
under it, while so many others were started. -/
def InUse (config : Config α) (moves : List (Move α)) (id : AnimationId) (others : Nat) : Prop :=
  ∃ before move launch after, moves = before ++ move :: after ∧
    ((start config).course before).launched? move = some launch ∧ launch.id = id ∧
    (∀ middle, middle <+: after →
      ((start config).course (before ++ move :: middle)).isRunning id = true) ∧
    (((start config).course (before ++ [move])).launches after).length = others

theorem isRunning_of_make {config : Config α} {stage : Stage α} (hconfig : stage.config = config)
    (intact : Intact config stage.targets stage.running) {move : Move α} {id : AnimationId}
    (h : (stage.make move).isRunning id = true) :
    stage.isRunning id = true ∨ ∃ launch, stage.launched? move = some launch ∧ launch.id = id := by
  subst hconfig
  obtain ⟨run, hrun, hid⟩ := (isRunning_iff _ id).mp h
  cases stage.make_outcome move with
  | settles _ _ untouched =>
      rw [untouched.running] at hrun
      exact .inl ((isRunning_iff stage id).mpr ⟨run, hrun, hid⟩)
  | launches launch target turn launched _ made =>
      rw [made.next] at hrun
      rcases List.mem_append.mp hrun with hrun | hrun
      · exact .inl ((isRunning_iff stage id).mpr ⟨run, hrun, hid⟩)
      · rw [List.mem_singleton.mp hrun] at hid
        exact .inr ⟨launch, launched, hid⟩
  | removes other move_eq made =>
      rw [made] at hrun
      exact .inl ((isRunning_iff stage id).mpr ⟨run, (List.mem_filter.mp hrun).1, hid⟩)
  | stops animation move_eq =>
      subst move_eq
      exact .inl ((isRunning_iff stage id).mpr ⟨run, (List.mem_filter.mp hrun).1, hid⟩)
  | updates now move_eq =>
      subst move_eq
      obtain ⟨found, hfound, hsame, -⟩ := same_of_mem_sweepFrom intact now run hrun
      exact .inl ((isRunning_iff stage id).mpr ⟨found, hfound, hsame.symm.trans hid⟩)

theorem inUse_of_isRunning (config : Config α) (moves : List (Move α)) (id : AnimationId)
    (h : ((start config).course moves).isRunning id = true) :
    ∃ others, InUse config moves id others := by
  induction moves using List.reverseRecOn with
  | nil => cases h
  | append_singleton moves move ih =>
      obtain ⟨hintact, hconfig⟩ := course_intact config moves
      have hnow := h
      rw [course_concat] at hnow
      obtain hbefore | ⟨launch, hlaunch, hid⟩ := isRunning_of_make hconfig hintact hnow
      · obtain ⟨_, before, first, launch, after, hmoves, hlaunch, hid, hused, -⟩ := ih hbefore
        refine ⟨_, before, first, launch, after ++ [move], by simp [hmoves], hlaunch, hid, ?_, rfl⟩
        intro middle hmiddle
        rcases List.prefix_concat_iff.mp hmiddle with rfl | hmiddle
        · rw [hmoves] at h
          simpa using h
        · exact hused middle hmiddle
      · refine ⟨_, moves, move, launch, [], rfl, hlaunch, hid, ?_, rfl⟩
        intro middle hmiddle
        rw [List.prefix_nil.mp hmiddle]
        exact h

theorem length_launches_le (stage : Stage α) (moves : List (Move α)) :
    (stage.launches moves).length ≤ moves.length := by
  induction moves generalizing stage with
  | nil => exact Nat.le_refl _
  | cons move rest ih =>
      have hrest := ih (stage.make move)
      have hone : (stage.launched? move).toList.length ≤ 1 := by
        cases stage.launched? move <;> simp
      rw [launches, List.length_append, List.length_cons]
      omega

theorem InUse.le_length {config : Config α} {moves : List (Move α)} {id : AnimationId}
    {others : Nat} (h : InUse config moves id others) : others ≤ moves.length := by
  obtain ⟨before, move, launch, after, rfl, -, -, -, rfl⟩ := h
  refine (length_launches_le _ after).trans ?_
  rw [List.length_append, List.length_cons]
  omega

theorem le_others_of_inUse {config : Config α} {moves : List (Move α)} {id : AnimationId}
    {others : Nat} (h : InUse config moves id others) {move : Move α} {launch : Launch}
    (launched : ((start config).course moves).launched? move = some launch)
    (again : launch.id = id) : 4294967295 ≤ others := by
  obtain ⟨before, first, earlier, after, rfl, hearlier, rfl, -, rfl⟩ := h
  obtain ⟨_, _, -, hlate⟩ := launched_of_launched? launched
  obtain ⟨_, _, -, hearly⟩ := launched_of_launched? hearlier
  have hnumbers := congrArg AnimationId.val (hlate.id.symm.trans (again.trans hearly.id))
  change ((start config).course _).ids.nextAnimation =
    ((start config).course _).ids.nextAnimation at hnumbers
  have hone : (start config).launches (before ++ [first]) =
      (start config).launches before ++ [earlier] := by
    simp [launches_append, launches, hearlier]
  rw [nextAnimation_of_start, nextAnimation_of_start, List.append_cons, launches_append, hone,
    List.length_append, List.length_append] at hnumbers
  exact le_of_ofNat_eq hnumbers

omit [Scalar α] [Eases α] in
theorem length_running_le_stop {stage : Stage α} (distinct : (stage.running.map Running.id).Nodup)
    (id : AnimationId) : stage.running.length ≤ (stage.stop id).running.length + 1 := by
  have honce : (stage.running.map Running.id).count id ≤ 1 :=
    List.nodup_iff_count_le_one.mp distinct id
  have hsplit := stage.running.length_eq_countP_add_countP fun run => run.id == id
  have hkept : (stage.stop id).running.length =
      stage.running.countP fun run => !(run.id == id) := by
    rw [List.countP_eq_length_filter]
    rfl
  rw [List.count, List.countP_map] at honce
  change stage.running.countP (fun run => run.id == id) ≤ 1 at honce
  simp only [Bool.not_eq_true, Bool.decide_eq_false] at hsplit
  omega

theorem ids_update {config : Config α} {stage : Stage α} (hconfig : stage.config = config)
    (intact : Intact config stage.targets stage.running) (now : α) :
    ((stage.update now).running.map Running.id).Sublist (stage.running.map Running.id) := by
  subst hconfig
  exact ids_sweepFrom intact now

theorem distinct_of_brief (config : Config α) (moves : List (Move α))
    (brief : ∀ before, before <+: moves → ∀ id others, InUse config before id others →
      others < 4294967295) :
    (((start config).course moves).running.map Running.id).Nodup := by
  induction moves using List.reverseRecOn with
  | nil => exact List.nodup_nil
  | append_singleton moves move ih =>
      have hdistinct := ih fun before h => brief before (h.trans (List.prefix_append ..))
      obtain ⟨hintact, hconfig⟩ := course_intact config moves
      rw [course_concat]
      cases ((start config).course moves).make_outcome move with
      | settles _ _ untouched =>
          rw [untouched.running]
          exact hdistinct
      | launches launch target turn launched _ made =>
          have hnew : launch.id ∉ ((start config).course moves).running.map Running.id := by
            intro hmem
            obtain ⟨run, hrun, hid⟩ := List.mem_map.mp hmem
            obtain ⟨others, hused⟩ := inUse_of_isRunning config moves launch.id
              ((isRunning_iff _ launch.id).mpr ⟨run, hrun, hid⟩)
            have hmany := le_others_of_inUse hused launched rfl
            have hfew := brief moves (List.prefix_append ..) launch.id others hused
            omega
          rw [made.next]
          simpa [List.nodup_append, hdistinct] using hnew
      | removes id _ made =>
          rw [made]
          exact hdistinct.sublist (List.filter_sublist.map _)
      | stops id move_eq =>
          subst move_eq
          exact hdistinct.sublist (List.filter_sublist.map _)
      | updates now move_eq =>
          subst move_eq
          exact hdistinct.sublist (ids_update hconfig hintact now)

/-! ## Hosts that use numbers up -/

def churn (brief : Target α) (count : Nat) : List (Move α) :=
  (List.range count).flatMap fun place =>
    [.operate (.addTarget brief), .operate (.removeTarget ⟨.ofNat (place + 1)⟩)]

omit [Scalar α] [Eases α] in
theorem churn_succ (brief : Target α) (count : Nat) :
    churn brief (count + 1) = churn brief count ++
      [.operate (.addTarget brief), .operate (.removeTarget ⟨.ofNat (count + 1)⟩)] := by
  simp [churn, List.range_succ]

omit [Scalar α] [Eases α] in
theorem additions_churn (first brief : Target α) (count : Nat) :
    additions (.operate (.addTarget first) :: churn brief count) = count + 1 := by
  induction count with
  | zero => rfl
  | succ count ih =>
      rw [churn_succ, ← List.cons_append, additions_append, ih]
      rfl

theorem ofNat_succ_ne_zero {count : Nat} (h : count + 1 < 4294967296) :
    UInt32.ofNat (count + 1) ≠ 0 := by
  intro hzero
  have hnat := congrArg UInt32.toNat hzero
  rw [UInt32.toNat_ofNat', Nat.mod_eq_of_lt h] at hnat
  cases hnat

theorem target?_churn (config : Config α) (first brief : Target α) {count : Nat}
    (h : count < 4294967296) :
    ((start config).course (.operate (.addTarget first) :: churn brief count)).target? ⟨0⟩ =
      some first := by
  induction count with
  | zero => rfl
  | succ count ih =>
      have hnext := nextTarget_of_start config (.operate (.addTarget first) :: churn brief count)
      rw [additions_churn] at hnext
      have hnew : (((start config).course (.operate (.addTarget first) :: churn brief
          count)).addTarget brief).1 = ⟨.ofNat (count + 1)⟩ := congrArg TargetId.mk hnext
      have hother : (⟨0⟩ : TargetId) ≠ ⟨.ofNat (count + 1)⟩ := by
        intro heq
        exact ofNat_succ_ne_zero h (congrArg TargetId.val heq).symm
      rw [churn_succ, ← List.cons_append, course_append, course_cons, course_cons, course_nil,
        make, perform, target?_removeTarget, if_neg hother, make, perform, target?_addTarget, hnew,
        if_neg hother, ih (by omega)]

def bustle (count : Nat) : List (Move Float) :=
  (List.range count).flatMap fun place =>
    [.operate (.animate ⟨0⟩ "" 0 none), .operate (.stop ⟨.ofNat (place + 1)⟩)]

theorem bustle_succ (count : Nat) :
    bustle (count + 1) = bustle count ++
      [.operate (.animate ⟨0⟩ "" 0 none), .operate (.stop ⟨.ofNat (count + 1)⟩)] := by
  simp [bustle, List.range_succ]

theorem animate_blank (target : Target Float) :
    ∃ turn, Animation.launch Config.standard target "" 0 none = .ok turn := by
  have hfits : (Segment.readAll Config.standard (Target.standard : Target Float) "").isOk =
      true := by
    decide +kernel
  cases hread : Segment.readAll Config.standard (Target.standard : Target Float) "" with
  | error full =>
      rw [hread] at hfits
      cases hfits
  | ok segments =>
      obtain ⟨others, hothers⟩ := Segment.readAll_ok_of_ok hread target
      exact ⟨_, by rw [Animation.launch, hothers]⟩

structure Stays (stage : Stage Float) (given : Nat) : Prop where
  config : stage.config = .standard
  target : (stage.target? ⟨0⟩).isSome = true
  running : ∃ run, stage.running = [run] ∧ run.id = ⟨0⟩
  counter : stage.ids.nextAnimation = .ofNat given

theorem Stays.animate {stage : Stage Float} {given : Nat} (h : stage.Stays given) :
    ∃ first second next, stage.animate ⟨0⟩ "" 0 none = .ok (⟨.ofNat given⟩, next) ∧
      next.config = .standard ∧ (next.target? ⟨0⟩).isSome = true ∧
      next.running = [first, second] ∧ first.id = ⟨0⟩ ∧ second.id = ⟨.ofNat given⟩ ∧
      next.ids.nextAnimation = .ofNat (given + 1) := by
  obtain ⟨hconfig, htarget, ⟨first, hrunning, hid⟩, hcounter⟩ := h
  obtain ⟨target, htarget⟩ := Option.isSome_iff_exists.mp htarget
  obtain ⟨turn, hturn⟩ := animate_blank target
  have haccepted : ∃ animation next, stage.animate ⟨0⟩ "" 0 none = .ok (animation, next) := by
    simp [Stage.animate, launch, htarget, hconfig, hturn]
  obtain ⟨animation, next, hok⟩ := haccepted
  obtain ⟨found, started, -, -, hanimation, hnext⟩ := launch_ok hok
  have hgiven : animation = ⟨.ofNat given⟩ := by
    rw [hanimation, ← hcounter]
    rfl
  have hcount : next.ids.nextAnimation = .ofNat (given + 1) := by
    rw [hnext, UInt32.ofNat_add, ← hcounter]
    rfl
  refine ⟨first, ⟨animation, ⟨0⟩, started.animation, .single⟩, next, hgiven ▸ hok, ?_, ?_, ?_, hid,
    hgiven, hcount⟩
  · rw [hnext, hconfig]
  · simp [hnext, target?]
  · simp [hnext, hrunning]

theorem stays_bustle (count : Nat) (h : count < 4294967296) :
    ((start Config.standard).course
      (.operate (.addTarget .standard) :: .operate (.animate ⟨0⟩ "" 0 none) :: bustle count)).Stays
        (count + 1) := by
  induction count with
  | zero => exact ⟨rfl, by decide +kernel, ⟨_, rfl, rfl⟩, by decide +kernel⟩
  | succ count ih =>
      obtain ⟨first, second, next, hok, hconfig, htarget, hrunning, hfirst, hsecond, hcounter⟩ :=
        (ih (by omega)).animate
      have hne : (⟨0⟩ : AnimationId) ≠ ⟨.ofNat (count + 1)⟩ := by
        intro heq
        exact ofNat_succ_ne_zero h (congrArg AnimationId.val heq).symm
      rw [bustle_succ, ← List.cons_append, ← List.cons_append, course_append, course_cons,
        course_cons, course_nil]
      simp only [make, perform, hok, settle]
      have hstays : (first.id != ⟨.ofNat (count + 1)⟩) = true := bne_iff_ne.mpr (hfirst ▸ hne)
      have hgoes : (second.id != ⟨.ofNat (count + 1)⟩) = false := by
        rw [hsecond]
        exact bne_self_eq_false _
      refine ⟨hconfig, htarget, ⟨first, ?_, hfirst⟩, hcounter⟩
      simp only [stop, hrunning, List.filter_cons, List.filter_nil, hstays, hgoes, if_true,
        Bool.false_eq_true, if_false]

theorem target_replaced {count : Nat} (h : count + 1 = 4294967296) (config : Config α)
    (first brief last : Target α) :
    let stage := (start config).course (.operate (.addTarget first) :: churn brief count)
    stage.target? ⟨0⟩ = some first ∧ (stage.addTarget last).1 = ⟨0⟩ ∧
      (stage.addTarget last).2.target? ⟨0⟩ = some last := by
  intro stage
  have hnext : (stage.addTarget last).1 = ⟨0⟩ := by
    refine congrArg TargetId.mk ?_
    rw [nextTarget_of_start, additions_churn, h]
    rfl
  refine ⟨target?_churn config first brief (by omega), hnext, ?_⟩
  rw [target?_addTarget, hnext, if_pos rfl]

theorem Stays.animation_doubled {stage : Stage Float} (h : stage.Stays 4294967296) :
    stage.isRunning ⟨0⟩ = true ∧
      ∃ next, stage.animate ⟨0⟩ "" 0 none = .ok (⟨0⟩, next) ∧
        next.running.map Running.id = [⟨0⟩, ⟨0⟩] ∧ (next.stop ⟨0⟩).running = [] := by
  obtain ⟨run, hrunning, hid⟩ := h.running
  obtain ⟨first, second, next, hok, -, -, hnext, hfirst, hsecond, -⟩ := h.animate
  have hsecond : second.id = ⟨0⟩ := hsecond
  refine ⟨(isRunning_iff stage ⟨0⟩).mpr ⟨run, by rw [hrunning]; exact List.mem_cons_self, hid⟩,
    next, hok, ?_, ?_⟩
  · rw [hnext, List.map_cons, List.map_cons, List.map_nil, hfirst, hsecond]
  · simp [stop, hnext, hfirst, hsecond]

/-! ## How long numbers last -/

/-- A number is given to a target while another has it, or to an animation while
another runs under it, only if that one has had it while all the other numbers
were given out.  Until an animation runs as long, the numbers of running
animations are distinct and a stop takes away at most one. -/
theorem numbers_last (config : Config α) (moves : List (Move α)) :
    let stage := (start config).course moves
    (∀ target, (stage.target? (stage.addTarget target).1).isSome = true →
      ∃ others, Held config moves (stage.addTarget target).1 others ∧ 4294967295 ≤ others) ∧
      (∀ move launch, stage.launched? move = some launch → stage.isRunning launch.id = true →
        ∃ others, InUse config moves launch.id others ∧ 4294967295 ≤ others) ∧
      ((∀ before, before <+: moves → ∀ id others, InUse config before id others →
          others < 4294967295) →
        (stage.running.map Running.id).Nodup ∧
          ∀ id, stage.running.length ≤ (stage.stop id).running.length + 1) := by
  intro stage
  refine ⟨fun target registered => ?_, fun move launch launched running => ?_, fun brief => ?_⟩
  · obtain ⟨others, hheld⟩ := held_of_registered config moves _ registered
    exact ⟨others, hheld, le_others_of_held hheld rfl⟩
  · obtain ⟨others, hused⟩ := inUse_of_isRunning config moves _ running
    exact ⟨others, hused, le_others_of_inUse hused launched rfl⟩
  · have hdistinct := distinct_of_brief config moves brief
    exact ⟨hdistinct, length_running_le_stop hdistinct⟩

theorem numbers_last_of_churn :
    let worn : List (Move Float) :=
      .operate (.addTarget .standard) :: churn .standard 4294967295
    let busy : List (Move Float) := .operate (.addTarget .standard) ::
      .operate (.animate ⟨0⟩ "" 0 none) :: bustle 4294967295
    let brief : List (Move Float) :=
      [.operate (.addTarget .standard), .operate (.animate ⟨0⟩ "x5" 0 none),
        .operate (.animate ⟨0⟩ "y3d2" 0 none), .operate (.update 1), .operate (.stop ⟨0⟩)]
    (∃ others, Held Config.standard worn ⟨0⟩ others ∧ 4294967295 ≤ others) ∧
      (∃ others, InUse Config.standard busy ⟨0⟩ others ∧ 4294967295 ≤ others) ∧
      (((start Config.standard).course brief).running.map Running.id).Nodup := by
  intro worn busy brief
  have hcount : 4294967295 + 1 = 4294967296 := rfl
  refine ⟨?_, ?_, ?_⟩
  · obtain ⟨hfirst, hnext, -⟩ := target_replaced hcount (Config.standard : Config Float) .standard
      .standard .standard
    have hheld := (numbers_last Config.standard worn).1 .standard
    rw [hnext, hfirst] at hheld
    exact hheld rfl
  · have hstays := stays_bustle 4294967295 (by decide)
    rw [hcount] at hstays
    obtain ⟨hrunning, next, hok, -⟩ := hstays.animation_doubled
    have hlaunched : ((start Config.standard).course busy).launched?
        (.operate (.animate ⟨0⟩ "" 0 none)) = some ⟨⟨0⟩, ⟨0⟩, "", .single⟩ := by
      rw [launched?, hok, accepted?]
    exact (numbers_last Config.standard busy).2.1 _ _ hlaunched hrunning
  · refine ((numbers_last Config.standard brief).2.2 ?_).1
    intro before hbefore id others hused
    have hlength := hbefore.length_le.trans_lt (show brief.length < 4294967295 by decide)
    exact hused.le_length.trans_lt hlength

/-- A host that uses the numbers up.  The next target is registered in the place
of the first one, and the next animation runs under the number of the first one,
so that a stop takes both away. -/
theorem numbers_given_twice :
    (let stage : Stage Float := (start Config.standard).course
        (.operate (.addTarget .standard) :: churn .standard 4294967295)
      let last : Target Float := { Target.standard with alpha := 0 }
      stage.target? ⟨0⟩ = some .standard ∧ (stage.addTarget last).1 = ⟨0⟩ ∧
        (stage.addTarget last).2.target? ⟨0⟩ = some last) ∧
      let stage : Stage Float := (start Config.standard).course
        (.operate (.addTarget .standard) :: .operate (.animate ⟨0⟩ "" 0 none) ::
          bustle 4294967295)
      stage.isRunning ⟨0⟩ = true ∧
        ∃ next, stage.animate ⟨0⟩ "" 0 none = .ok (⟨0⟩, next) ∧
          next.running.map Running.id = [⟨0⟩, ⟨0⟩] ∧ (next.stop ⟨0⟩).running = [] := by
  have hcount : 4294967295 + 1 = 4294967296 := rfl
  have hstays := stays_bustle 4294967295 (by decide)
  rw [hcount] at hstays
  exact ⟨target_replaced hcount Config.standard _ _ _, hstays.animation_doubled⟩

end Stage

end MotionNotation
