import MotionNotation.Proofs.Stage.Concern
import MotionNotation.Proofs.Stage.Counting
import MotionNotation.Proofs.Stage.Lifetime

/-!
# Isolation

The moves of a host that have to do with one target make a course of their own.
It comes to what the whole course has of that target, so that nothing that is
done to the other targets and their animations is seen there.  Only the numbers
are others, because the targets of a stage are counted together, and so are its
animations.
-/

namespace MotionNotation

namespace Alias

/-- The names of the only target of a stage, on which these animations were
started in this order. -/
def numbered (own : List AnimationId) (ids : IdCounter) : Alias :=
  ⟨⟨0⟩, fun animation => ⟨.ofNat (own.idxOf animation)⟩, ids⟩

variable {own all : List AnimationId} {animation other : AnimationId}

theorem numbered_of_prefix (h : own <+: all) (hmem : animation ∈ own) (ids counters : IdCounter) :
    (numbered all ids).animation animation = (numbered own counters).animation animation := by
  obtain ⟨later, rfl⟩ := h
  simp only [numbered, List.idxOf_append_of_mem hmem]

theorem numbered_next (h : own ++ [animation] <+: all) (distinct : all.Nodup) (ids : IdCounter) :
    (numbered all ids).animation animation = ⟨.ofNat own.length⟩ := by
  obtain ⟨later, rfl⟩ := h
  have hnew : animation ∉ own := by
    intro hmem
    have hnodup := distinct.sublist (List.sublist_append_left ..)
    exact (List.nodup_append.mp hnodup).2.2 animation hmem animation List.mem_cons_self rfl
  simp [numbered, List.idxOf_append, hnew]

theorem numbered_injective (small : all.length < 4294967296) (hmem : animation ∈ all)
    {ids : IdCounter} (h : (numbered all ids).animation other = (numbered all ids).animation
      animation) : other = animation := by
  have hplaces : all.idxOf other = all.idxOf animation := by
    have hfirst : all.idxOf other ≤ all.length := List.idxOf_le_length
    have hsecond : all.idxOf animation ≤ all.length := List.idxOf_le_length
    have heq := congrArg (fun id => AnimationId.val id |>.toNat) h
    simp only [numbered, UInt32.toNat_ofNat'] at heq
    omega
  exact ((List.idxOf_inj hmem).mp hplaces.symm).symm

end Alias

namespace Stage

variable {α : Type}

/-! ## A course of the target's own -/

def startedOn [Scalar α] [Eases α] (stage : Stage α) (id : TargetId) (moves : List (Move α)) :
    List AnimationId :=
  ((stage.launches moves).filter (·.target == id)).map Launch.id

/-- The moves that concern a target, as a host would make them that has no other
target. -/
def solo [Scalar α] [Eases α] (stage : Stage α) (id : TargetId) (own : List AnimationId) :
    List (Move α) → List (Move α)
  | [] => []
  | move :: rest =>
    (if stage.concerns id own move then [move.renamed (.numbered own .start)] else []) ++
      (stage.make move).solo id (own ++ stage.startedOn id [move]) rest

def soloIds (stage : Stage α) (id : TargetId) (own : List AnimationId) : IdCounter :=
  ⟨if id.val < stage.ids.nextTarget then 1 else 0, .ofNat own.length⟩

variable [Scalar α] [Eases α]

theorem startedOn_append (stage : Stage α) (id : TargetId) (first second : List (Move α)) :
    stage.startedOn id (first ++ second) =
      stage.startedOn id first ++ (stage.course first).startedOn id second := by
  simp only [startedOn, launches_append, List.filter_append, List.map_append]

theorem startedOn_singleton (stage : Stage α) (id : TargetId) (move : Move α) :
    stage.startedOn id [move] =
      ((stage.launched? move).toList.filter (·.target == id)).map Launch.id := by
  simp [startedOn, launches]

theorem solo_append (stage : Stage α) (id : TargetId) (own : List AnimationId)
    (first second : List (Move α)) :
    stage.solo id own (first ++ second) =
      stage.solo id own first ++
        (stage.course first).solo id (own ++ stage.startedOn id first) second := by
  induction first generalizing stage own with
  | nil => simp [solo, startedOn, launches]
  | cons move rest ih =>
      have hstarted := stage.startedOn_append id [move] rest
      rw [course_cons, course_nil, List.singleton_append] at hstarted
      rw [List.cons_append, solo, solo, ih, hstarted, course_cons, List.append_assoc,
        List.append_assoc]

theorem solo_singleton (stage : Stage α) (id : TargetId) (own : List AnimationId)
    (move : Move α) :
    stage.solo id own [move] =
      if stage.concerns id own move then [move.renamed (.numbered own .start)] else [] := by
  simp [solo]

omit [Scalar α] [Eases α] in
theorem filter_accepted (attempt : Except Error (AnimationId × Stage α)) (other id : TargetId)
    (text : String) (routine : Routine) :
    (accepted? attempt other text routine).toList.filter (·.target == id) =
      if other = id then (accepted? attempt other text routine).toList else [] := by
  cases attempt with
  | error error => simp [accepted?]
  | ok result => by_cases h : other = id <;> simp [accepted?, h]

theorem startedOn_of_not_concerns {stage : Stage α} {id : TargetId} {own : List AnimationId}
    {move : Move α} (h : stage.concerns id own move = false) : stage.startedOn id [move] = [] := by
  rw [startedOn_singleton]
  cases move with
  | edit => rfl
  | operate operation =>
      cases operation with
      | animate other text now signal =>
          have hne : other ≠ id := by simpa [concerns] using h
          rw [launched?, filter_accepted, if_neg hne, List.map_nil]
      | play other script now =>
          have hne : other ≠ id := by simpa [concerns] using h
          rw [launched?, filter_accepted, if_neg hne, List.map_nil]
      | _ => rfl

theorem lt_nextTarget_make_iff {stage : Stage α} {id : TargetId} {move : Move α}
    (room : (stage.make move).ids.nextTarget.toNat =
      stage.ids.nextTarget.toNat + additions [move])
    (h : move.adds = true → (⟨stage.ids.nextTarget⟩ : TargetId) ≠ id) :
    id.val < (stage.make move).ids.nextTarget ↔ id.val < stage.ids.nextTarget := by
  rw [UInt32.lt_iff_toNat_lt, UInt32.lt_iff_toNat_lt, room]
  cases hadds : move.adds with
  | false => simp [additions, hadds]
  | true =>
      have hne : stage.ids.nextTarget.toNat ≠ id.val.toNat :=
        fun heq => h hadds (congrArg TargetId.mk (UInt32.toNat_inj.mp heq))
      simp only [additions, List.countP_cons, List.countP_nil, hadds, if_true]
      omega

theorem soloIds_make {stage : Stage α} {id : TargetId} {own : List AnimationId} {move : Move α}
    (room : (stage.make move).ids.nextTarget.toNat =
      stage.ids.nextTarget.toNat + additions [move])
    (h : move.adds = true → (⟨stage.ids.nextTarget⟩ : TargetId) ≠ id) :
    (stage.make move).soloIds id own = stage.soloIds id own := by
  simp only [soloIds, lt_nextTarget_make_iff room h]

omit [Scalar α] [Eases α] in
theorem concerns_of_adds {stage : Stage α} {id : TargetId} {own : List AnimationId}
    {move : Move α} (h : move.adds = true) :
    stage.concerns id own move = (⟨stage.ids.nextTarget⟩ == id) := by
  cases move with
  | edit => cases h
  | operate operation =>
      cases operation with
      | addTarget target => rfl
      | _ => cases h

omit [Scalar α] [Eases α] in
theorem alone_make_addTarget {stage : Stage α} {id : TargetId} {target : Target α}
    (hid : (stage.addTarget target).1 = id)
    (room : (stage.addTarget target).2.ids.nextTarget.toNat = stage.ids.nextTarget.toNat + 1)
    (own all : List AnimationId) :
    (stage.addTarget target).2.alone id
        (.numbered all ((stage.addTarget target).2.soloIds id own)) =
      ((stage.alone id (.numbered all (stage.soloIds id own))).addTarget target).2 := by
  subst hid
  have hbefore : stage.soloIds (stage.addTarget target).1 own = ⟨0, .ofNat own.length⟩ := by
    simp [soloIds, addTarget, IdCounter.takeTarget]
  have hafter : (stage.addTarget target).2.soloIds (stage.addTarget target).1 own =
      ⟨1, .ofNat own.length⟩ := by
    have hlt : (stage.addTarget target).1.val < (stage.addTarget target).2.ids.nextTarget := by
      rw [UInt32.lt_iff_toNat_lt, room]
      exact Nat.lt_succ_self _
    rw [soloIds, if_pos hlt]
  have htarget : (stage.addTarget target).2.target? (stage.addTarget target).1 = some target := by
    rw [target?_addTarget, if_pos rfl]
  rw [hbefore, hafter, alone, htarget,
    ← Roster.insert_only _ (stage.target? (stage.addTarget target).1)]
  rfl

theorem alone_make_start {stage : Stage α} {id : TargetId} {own all : List AnimationId}
    {move : Move α} {attempt reply : Except Error (AnimationId × Stage α)} {text : String}
    {routine : Routine} (hmake : stage.make move = stage.settle attempt)
    (hlaunched : stage.launched? move = accepted? attempt id text routine)
    (hnext : (stage.make move).ids.nextTarget = stage.ids.nextTarget)
    (counted : own ++ stage.startedOn id [move] <+: all) (distinct : all.Nodup)
    (answers : (∀ animation next, attempt = .ok (animation, next) →
        (Alias.numbered all (stage.soloIds id own)).animation animation =
          (Alias.numbered all (stage.soloIds id own)).ids.takeAnimation.1) →
      Answers id (.numbered all (stage.soloIds id own)) attempt reply) :
    (stage.make move).alone id
        (.numbered all ((stage.make move).soloIds id (own ++ stage.startedOn id [move]))) =
      (stage.alone id (.numbered all (stage.soloIds id own))).settle reply := by
  rw [startedOn_singleton, hlaunched, filter_accepted, if_pos rfl] at counted ⊢
  cases attempt with
  | error error =>
      cases answers fun _ _ h => nomatch h with
      | refused =>
          rw [hmake, accepted?, Option.toList_none, List.map_nil, List.append_nil]
          rfl
  | ok result =>
      obtain ⟨animation, next⟩ := result
      have hname := Alias.numbered_next counted distinct (stage.soloIds id own)
      cases answers fun _ _ h => by cases h; exact hname with
      | accepted _ halone =>
          have hids : next.soloIds id (own ++ [animation]) =
              (stage.soloIds id own).takeAnimation.2 := by
            rw [hmake] at hnext
            have hcount : UInt32.ofNat (own ++ [animation]).length = .ofNat own.length + 1 := by
              rw [List.length_append, UInt32.ofNat_add]
              rfl
            rw [soloIds, hcount, show next.ids.nextTarget = _ from hnext]
            rfl
          rw [hmake, ← halone]
          exact congrArg (fun ids => next.alone id (.numbered all ids)) hids

theorem soloIds_make_of_steady {stage : Stage α} {move : Move α}
    (launched : stage.launched? move = none) (adds : move.adds = false) (id : TargetId)
    (own : List AnimationId) :
    (stage.make move).soloIds id (own ++ stage.startedOn id [move]) = stage.soloIds id own := by
  rw [startedOn_singleton, launched, Option.toList_none, List.filter_nil, List.map_nil,
    List.append_nil, soloIds, nextTarget_make_of_not_adds adds, soloIds]

theorem alone_make_of_not_concerns {stage : Stage α} {id : TargetId} {own : List AnimationId}
    {move : Move α} (foreign : stage.concerns id own move = false)
    (known : ∀ run ∈ stage.running, run.target = id → run.id ∈ own)
    (room : (stage.make move).ids.nextTarget.toNat =
      stage.ids.nextTarget.toNat + additions [move]) (all : List AnimationId) :
    (stage.make move).alone id
        (.numbered all ((stage.make move).soloIds id (own ++ stage.startedOn id [move]))) =
      stage.alone id (.numbered all (stage.soloIds id own)) := by
  have hadds : move.adds = true → (⟨stage.ids.nextTarget⟩ : TargetId) ≠ id := by
    intro hadds
    rw [concerns_of_adds hadds] at foreign
    simpa using foreign
  have hunseen := unseen_make foreign known
  rw [startedOn_of_not_concerns foreign, List.append_nil, soloIds_make room hadds]
  exact hunseen.toAlike.alone_eq hunseen.report _

theorem alone_make_of_concerns {stage : Stage α} {id : TargetId} {own all : List AnimationId}
    {move : Move α} (mine : stage.concerns id own move = true)
    (room : (stage.make move).ids.nextTarget.toNat =
      stage.ids.nextTarget.toNat + additions [move])
    (counted : own ++ stage.startedOn id [move] <+: all) (distinct : all.Nodup)
    (small : all.length < 4294967296) :
    (stage.make move).alone id
        (.numbered all ((stage.make move).soloIds id (own ++ stage.startedOn id [move]))) =
      (stage.alone id (.numbered all (stage.soloIds id own))).make
        (move.renamed (.numbered own .start)) := by
  cases move with
  | edit other change =>
      obtain rfl : other = id := by simpa [concerns] using mine
      rw [soloIds_make_of_steady rfl rfl]
      exact alone_editTarget ..
  | operate operation =>
      cases operation with
      | addTarget target =>
          have hstarted : stage.startedOn id [.operate (.addTarget target)] = [] :=
            startedOn_singleton ..
          rw [hstarted, List.append_nil]
          exact alone_make_addTarget (by simpa [concerns] using mine) room own all
      | removeTarget other =>
          obtain rfl : other = id := by simpa [concerns] using mine
          rw [soloIds_make_of_steady rfl rfl]
          exact alone_removeTarget ..
      | animate other text now signal =>
          obtain rfl : other = id := by simpa [concerns] using mine
          exact alone_make_start rfl rfl (nextTarget_make_of_not_adds rfl) counted distinct
            fun hname => answers_launch _ _ _ hname
      | play other script now =>
          obtain rfl : other = id := by simpa [concerns] using mine
          exact alone_make_start rfl rfl (nextTarget_make_of_not_adds rfl) counted distinct
            fun hname => answers_play _ _ _ hname
      | stop animation =>
          have hmine : animation ∈ own := by simpa [concerns] using mine
          have howned : own <+: all := (List.prefix_append ..).trans counted
          have hname := Alias.numbered_of_prefix howned hmine (stage.soloIds id own) .start
          rw [soloIds_make_of_steady rfl rfl, Move.renamed, Operation.renamed, ← hname]
          exact alone_stop _ _ _ fun _ _ _ heq =>
            Alias.numbered_injective small (howned.subset hmine) heq
      | update now =>
          rw [soloIds_make_of_steady rfl rfl]
          exact alone_update ..

/-- A move does to the target alone what the target's own course has for it. -/
theorem alone_make {stage : Stage α} {id : TargetId} {own all : List AnimationId} (move : Move α)
    (known : ∀ run ∈ stage.running, run.target = id → run.id ∈ own)
    (room : (stage.make move).ids.nextTarget.toNat =
      stage.ids.nextTarget.toNat + additions [move])
    (counted : own ++ stage.startedOn id [move] <+: all) (distinct : all.Nodup)
    (small : all.length < 4294967296) :
    (stage.make move).alone id
        (.numbered all ((stage.make move).soloIds id (own ++ stage.startedOn id [move]))) =
      (stage.alone id (.numbered all (stage.soloIds id own))).course
        (stage.solo id own [move]) := by
  rw [solo_singleton]
  cases hconcerns : stage.concerns id own move with
  | false => exact alone_make_of_not_concerns hconcerns known room all
  | true => exact alone_make_of_concerns hconcerns room counted distinct small

/-! ## From the first move on -/

theorem mem_startedOn {config : Config α} {moves : List (Move α)} (record : Record config moves)
    (id : TargetId) :
    ∀ run ∈ ((start config).course moves).running, run.target = id →
      run.id ∈ (start config).startedOn id moves := by
  intro run hrun hmine
  obtain ⟨launch, hlaunch, hid⟩ := record.orderly.running run hrun
  obtain ⟨htarget, -⟩ := (record.follows launch hlaunch).lives run hrun hid.symm
  refine List.mem_map.mpr ⟨launch, List.mem_filter.mpr ⟨hlaunch, ?_⟩, hid⟩
  simpa using htarget.symm.trans hmine

theorem startedOn_distinct {config : Config α} {moves : List (Move α)}
    (record : Record config moves) (id : TargetId) :
    ((start config).startedOn id moves).Nodup := by
  have hnumbers : (((start config).launches moves).map fun launch =>
      launch.id.val.toNat).Nodup := by
    rw [record.orderly.numbers]
    exact List.nodup_range
  have hids : (((start config).launches moves).map Launch.id).Nodup := by
    apply List.Nodup.of_map fun id : AnimationId => id.val.toNat
    rw [List.map_map]
    exact hnumbers
  exact hids.sublist (List.filter_sublist.map _)

/-! ## The whole account -/

def told? (stage : Stage α) : Move α → Option (Report α)
  | .operate (.update now) => some (stage.update now).report
  | _ => none

def reports (stage : Stage α) : List (Move α) → List (Report α)
  | [] => []
  | move :: rest => (stage.told? move).toList ++ (stage.make move).reports rest

theorem reports_append (stage : Stage α) (first second : List (Move α)) :
    stage.reports (first ++ second) =
      stage.reports first ++ (stage.course first).reports second := by
  induction first generalizing stage with
  | nil => rfl
  | cons move rest ih => simp [reports, ih]

theorem told?_renamed (stage : Stage α) (id : TargetId) (names others : Alias) (move : Move α) :
    (stage.alone id names).told? (move.renamed others) =
      (stage.told? move).map (Report.alone · id names) := by
  cases move with
  | edit => rfl
  | operate operation =>
      cases operation with
      | update now =>
          have hreport := congrArg Stage.report (stage.alone_update id names now)
          exact congrArg some hreport.symm
      | _ => rfl

theorem told?_of_not_concerns {stage : Stage α} {id : TargetId} {own : List AnimationId}
    {move : Move α} (h : stage.concerns id own move = false) : stage.told? move = none := by
  cases move with
  | edit => rfl
  | operate operation =>
      cases operation with
      | update now => cases h
      | _ => rfl

theorem reports_solo_singleton (stage : Stage α) (id : TargetId) (own : List AnimationId)
    (names : Alias) (move : Move α) :
    (stage.alone id names).reports (stage.solo id own [move]) =
      (stage.reports [move]).map (Report.alone · id names) := by
  rw [solo_singleton, reports, reports, List.append_nil]
  cases hconcerns : stage.concerns id own move with
  | false =>
      rw [told?_of_not_concerns hconcerns]
      rfl
  | true =>
      rw [if_pos rfl, reports, reports, List.append_nil, told?_renamed, Option.toList_map]

theorem room_of_additions_lt (config : Config α) (moves : List (Move α)) (move : Move α)
    (additions_lt : additions moves + additions [move] < 4294967296) :
    (((start config).course moves).make move).ids.nextTarget.toNat =
      ((start config).course moves).ids.nextTarget.toNat + additions [move] := by
  rw [nextTarget_make, nextTarget_of_start, ← UInt32.ofNat_add, UInt32.toNat_ofNat',
    UInt32.toNat_ofNat', Nat.mod_eq_of_lt additions_lt, Nat.mod_eq_of_lt (by omega)]

theorem course_alone (config : Config α) (id : TargetId) (moves : List (Move α))
    (additions_lt : additions moves < 4294967296)
    (launches_lt : ((start config).launches moves).length < 4294967296)
    {all : List AnimationId} (counted : (start config).startedOn id moves <+: all)
    (distinct : all.Nodup) (small : all.length < 4294967296) {names : Alias}
    (hnames : names = .numbered all
      (((start config).course moves).soloIds id ((start config).startedOn id moves))) :
    ((start config).course moves).alone id names =
        (start config).course ((start config).solo id [] moves) ∧
      ((start config).reports moves).map (Report.alone · id names) =
        (start config).reports ((start config).solo id [] moves) := by
  -- On the last move.  All animations are named from the beginning as they are in
  -- the end, so that a name stands while more of them are started.
  induction moves using List.reverseRecOn generalizing names with
  | nil =>
      have hids : (start config).soloIds id [] = .start := by
        simp [soloIds, start, IdCounter.start]
      rw [hnames, course_nil, startedOn, launches, List.filter_nil, List.map_nil, hids]
      exact ⟨rfl, rfl⟩
  | append_singleton moves move ih =>
      have hstarted : (start config).startedOn id (moves ++ [move]) =
          (start config).startedOn id moves ++
            ((start config).course moves).startedOn id [move] := startedOn_append ..
      rw [hstarted] at counted hnames
      rw [course_concat] at hnames
      rw [additions_append] at additions_lt
      have hlaunches : ((start config).launches moves).length < 4294967296 := by
        rw [launches_append, List.length_append] at launches_lt
        omega
      obtain ⟨halone, hreports⟩ :=
        ih (by omega) hlaunches ((List.prefix_append ..).trans counted) rfl
      have hmake := alone_make move (mem_startedOn (course_record config moves hlaunches) id)
        (room_of_additions_lt config moves move additions_lt) counted distinct small
      rw [course_concat, hnames, solo_append, List.nil_append, course_append, reports_append,
        reports_append, List.map_append, ← halone, reports_solo_singleton, ← hreports]
      exact ⟨hmake, rfl⟩

structure Account (α : Type) where
  stage : Stage α
  reports : List (Report α)

/-- The account of a target in a course, under the names that the target has
alone. -/
def account (config : Config α) (moves : List (Move α)) (id : TargetId) : Account α :=
  let stage := (start config).course moves
  let own := (start config).startedOn id moves
  let names := Alias.numbered own (stage.soloIds id own)
  ⟨stage.alone id names, ((start config).reports moves).map (Report.alone · id names)⟩

theorem account_eq_solo (config : Config α) (moves : List (Move α)) (id : TargetId)
    (additions_lt : additions moves < 4294967296)
    (launches_lt : ((start config).launches moves).length < 4294967296) :
    account config moves id =
      ⟨(start config).course ((start config).solo id [] moves),
        (start config).reports ((start config).solo id [] moves)⟩ := by
  have hdistinct := startedOn_distinct (course_record config moves launches_lt) id
  have hsmall : ((start config).startedOn id moves).length < 4294967296 := by
    rw [startedOn, List.length_map]
    exact (List.length_filter_le ..).trans_lt launches_lt
  obtain ⟨hstage, hreports⟩ := course_alone config id moves additions_lt launches_lt
    (List.prefix_refl _) hdistinct hsmall rfl
  rw [account, hstage, hreports]

/-- An update cannot tell stages apart that have the same of a target.  A course
has for a target what its own moves come to without the others.  So two courses
that differ in the moves of others only have the same account of it. -/
theorem isolated (config : Config α) :
    (∀ (first second : Stage α) (id : TargetId), first.Alike second id → ∀ now,
      (first.update now).Alike (second.update now) id ∧
        Change.ofTarget id (first.update now).report.changes =
          Change.ofTarget id (second.update now).report.changes ∧
        StageEvent.ofTarget id (first.update now).report.events =
          StageEvent.ofTarget id (second.update now).report.events) ∧
      (∀ (moves : List (Move α)) (id : TargetId), additions moves < 4294967296 →
        ((start config).launches moves).length < 4294967296 →
        account config moves id =
          ⟨(start config).course ((start config).solo id [] moves),
            (start config).reports ((start config).solo id [] moves)⟩) ∧
      ∀ (first second : List (Move α)) (one other : TargetId),
        additions first < 4294967296 → additions second < 4294967296 →
        ((start config).launches first).length < 4294967296 →
        ((start config).launches second).length < 4294967296 →
        (start config).solo one [] first = (start config).solo other [] second →
        account config first one = account config second other := by
  refine ⟨fun first second id alike => alike.update, account_eq_solo config, ?_⟩
  intro first second one other hfirst hsecond hstarts hlaunches hsolo
  rw [account_eq_solo config first one hfirst hstarts,
    account_eq_solo config second other hsecond hlaunches, hsolo]

theorem isolated_of_neighbour :
    let still : Stage Float := (start .standard).course
      [.operate (.addTarget .standard), .operate (.animate ⟨0⟩ "x5d1" 0 none)]
    let crowded : Stage Float := still.course
      [.operate (.addTarget .standard), .operate (.play ⟨1⟩ ⟨none, "y3", true⟩ 0)]
    let quiet : List (Move Float) :=
      [.operate (.addTarget .standard), .operate (.animate ⟨0⟩ "x5d1" 0 none),
        .operate (.update 1)]
    let busy : List (Move Float) :=
      [.operate (.addTarget .standard), .operate (.addTarget .standard),
        .operate (.animate ⟨0⟩ "[y3][!f0]" 0 none), .operate (.animate ⟨1⟩ "x5d1" 0 none),
        .edit ⟨0⟩ Target.reset, .operate (.update 1), .operate (.removeTarget ⟨0⟩)]
    (still.update 1).Alike (crowded.update 1) ⟨0⟩ ∧
      account .standard quiet ⟨0⟩ =
        ⟨(start .standard).course quiet, (start .standard).reports quiet⟩ ∧
      account .standard quiet ⟨0⟩ = account .standard busy ⟨1⟩ := by
  intro still crowded quiet busy
  obtain ⟨hupdate, hdeletion, hcourses⟩ := isolated (Config.standard : Config Float)
  have halike : still.Alike crowded ⟨0⟩ :=
    ⟨rfl, by decide +kernel, by decide +kernel, by decide +kernel⟩
  have hquiet : ((start Config.standard).launches quiet).length < 4294967296 := by decide +kernel
  have hbusy : ((start Config.standard).launches busy).length < 4294967296 := by decide +kernel
  have hown : (start Config.standard).solo ⟨0⟩ [] quiet = quiet := rfl
  have hsolo : (start Config.standard).solo ⟨0⟩ [] quiet =
      (start Config.standard).solo ⟨1⟩ [] busy := rfl
  refine ⟨(hupdate still crowded ⟨0⟩ halike 1).1, ?_, ?_⟩
  · have hsame := hdeletion quiet ⟨0⟩ (by decide) hquiet
    rw [hown] at hsame
    exact hsame
  · exact hcourses quiet busy ⟨0⟩ ⟨1⟩ (by decide) (by decide) hquiet hbusy hsolo

end Stage

end MotionNotation
