import MotionNotation.Proofs.Notation.Capacity
import MotionNotation.Proofs.Playback.Chronicle
import MotionNotation.Proofs.Playback.InPlace

/-!
# What a grid stores

Pushes onto a grid come in any order and at any pipe, and some are refused.  The
others alone tell what the grid is: each pipe holds what was pushed onto it, in
the order of pushing, and there are as many pipes as the furthest of these pushes
needs.
-/

namespace MotionNotation

namespace Grid

variable {α β : Type}

/-! ## Items put into pipes -/

def pushedOnto (index : Nat) (pushes : List (Nat × β)) : List β :=
  (pushes.filter fun push => push.1 == index).map Prod.snd

theorem pushedOnto_cons (index : Nat) (push : Nat × β) (rest : List (Nat × β)) :
    pushedOnto index (push :: rest) =
      if push.1 = index then push.2 :: pushedOnto index rest else pushedOnto index rest := by
  simp only [pushedOnto, List.filter_cons, beq_iff_eq]
  split <;> rfl

theorem appendAt_eq_modify (pipes : List (List β)) (place : Nat) (item : β) :
    appendAt pipes place item = (pipes.rightpad (place + 1) []).modify place (· ++ [item]) := by
  induction pipes, place, item using appendAt.induct with
  | case1 item => rfl
  | case2 place item ih =>
      rw [appendAt, ih]
      simp [List.rightpad, List.replicate_succ]
  | case3 first rest item => simp [appendAt, List.rightpad]
  | case4 first rest place item ih =>
      rw [appendAt, ih]
      simp [List.rightpad]

theorem getElem?_getD_filled (pipes : List (List β)) (pushes : List (Nat × β)) (index : Nat) :
    (filled pipes pushes)[index]?.getD [] =
      pipes[index]?.getD [] ++ pushedOnto index pushes := by
  induction pushes generalizing pipes with
  | nil => simp [filled, pushedOnto]
  | cons push rest ih =>
      rw [filled, ih, getElem?_getD_appendAt, pushedOnto_cons]
      by_cases hpush : index = push.1
      · simp [hpush]
      · rw [if_neg hpush, if_neg (Ne.symm hpush)]

example : filled [] [(2, 'a'), (0, 'b'), (2, 'c')] = [['b'], [], ['a', 'c']] := rfl

theorem length_filled_le_iff (pipes : List (List β)) (pushes : List (Nat × β)) (bound : Nat) :
    (filled pipes pushes).length ≤ bound ↔
      pipes.length ≤ bound ∧ ∀ push ∈ pushes, push.1 < bound := by
  induction pushes generalizing pipes with
  | nil => simp [filled]
  | cons push rest ih =>
      rw [filled, ih, length_appendAt_le_iff, List.forall_mem_cons, and_assoc]

theorem appendAt_ne_nil (pipes : List (List β)) (place : Nat) (item : β) :
    appendAt pipes place item ≠ [] := by
  cases pipes <;> cases place <;> simp [appendAt]

theorem getLast?_appendAt {pipes : List (List β)}
    (h : ∀ last ∈ pipes.getLast?, last ≠ []) (place : Nat) (item : β) :
    ∀ last ∈ (appendAt pipes place item).getLast?, last ≠ [] := by
  induction pipes, place, item using appendAt.induct with
  | case1 item => simp [appendAt]
  | case2 place item ih =>
      rw [appendAt, List.getLast?_cons_of_ne_nil (appendAt_ne_nil _ _ _)]
      exact ih h
  | case3 first rest item =>
      cases rest with
      | nil => simp [appendAt]
      | cons second rest => simpa [appendAt] using h
  | case4 first rest place item ih =>
      rw [appendAt, List.getLast?_cons_of_ne_nil (appendAt_ne_nil _ _ _)]
      cases rest with
      | nil => exact ih (by simp)
      | cons second rest => exact ih (by simpa using h)

theorem getLast?_filled {pipes : List (List β)} (h : ∀ last ∈ pipes.getLast?, last ≠ [])
    (pushes : List (Nat × β)) : ∀ last ∈ (filled pipes pushes).getLast?, last ≠ [] := by
  induction pushes generalizing pipes with
  | nil => exact h
  | cons push rest ih => exact ih (getLast?_appendAt h push.1 push.2)

theorem flatten_appendAt_perm (pipes : List (List β)) (place : Nat) (item : β) :
    (appendAt pipes place item).flatten.Perm (item :: pipes.flatten) := by
  induction pipes, place, item using appendAt.induct with
  | case1 item => simp [appendAt]
  | case2 place item ih => simpa [appendAt] using ih
  | case3 first rest item => simp [appendAt, List.perm_middle]
  | case4 first rest place item ih =>
      simp only [appendAt, List.flatten_cons]
      exact (ih.append_left first).trans List.perm_middle

theorem flatten_filled_perm (pipes : List (List β)) (pushes : List (Nat × β)) :
    (filled pipes pushes).flatten.Perm (pipes.flatten ++ pushes.map Prod.snd) := by
  induction pushes generalizing pipes with
  | nil => simp [filled]
  | cons push rest ih =>
      have hpush := (flatten_appendAt_perm pipes push.1 push.2).append_right (rest.map Prod.snd)
      exact (ih _).trans (hpush.trans List.perm_middle.symm)

/-! ## Pushes in place -/

/-- A push that writes in place.  It makes all pipes up to its own before it stores
the action, so that it has to refuse before that. -/
def pushInPlace (index : Nat) (action : Action α) :
    InPlace (Grid α) CapacityExceeded PUnit := do
  let grid ← get
  let held := (grid.pipe index).length
  if grid.maxPipes ≤ index ∨ grid.maxActions ≤ held then
    throw ⟨index, held, grid.maxPipes, grid.maxActions⟩
  if grid.pipes.length ≤ index then
    modify fun grid => { grid with pipes := grid.pipes.rightpad (index + 1) [] }
  modify fun grid => { grid with pipes := grid.pipes.modify index (· ++ [action]) }

theorem exec_pushInPlace (grid : Grid α) (index : Nat) (action : Action α) :
    (pushInPlace index action).exec grid =
      match grid.push index action with
      | .ok next => (.ok ⟨⟩, next)
      | .error full => (.error full, grid) := by
  by_cases hroom : index < grid.maxPipes ∧ (grid.pipe index).length < grid.maxActions
  · have hopen : ¬(grid.maxPipes ≤ index ∨ grid.maxActions ≤ (grid.pipe index).length) := by omega
    rw [(push_eq_ok_iff grid _ index action).mpr ⟨hroom, rfl⟩, appendAt_eq_modify]
    simp only [pushInPlace, InPlace.exec_bind, InPlace.exec_get, if_neg hopen]
    by_cases hpast : grid.pipes.length ≤ index
    · rw [if_pos hpast, InPlace.exec_bind]
      rfl
    · have hpad : grid.pipes.rightpad (index + 1) [] = grid.pipes := by
        rw [List.rightpad, Nat.sub_eq_zero_of_le (by omega)]
        simp
      rw [if_neg hpast, hpad]
      rfl
  · have hfull : grid.maxPipes ≤ index ∨ grid.maxActions ≤ (grid.pipe index).length := by omega
    rw [(push_eq_error_iff grid index action _).mpr ⟨hfull, rfl⟩]
    simp only [pushInPlace, InPlace.exec_bind, InPlace.exec_get, if_pos hfull,
      InPlace.exec_throw]

theorem exec_pushInPlace_error_iff (grid after : Grid α) (index : Nat) (action : Action α)
    (full : CapacityExceeded) :
    (pushInPlace index action).exec grid = (.error full, after) ↔
      grid.push index action = .error full ∧ after = grid := by
  rw [exec_pushInPlace]
  cases grid.push index action <;> simp [eq_comm]

def pushEach (grid : Grid α) :
    List (Nat × Action α) → List (Except CapacityExceeded PUnit) × Grid α
  | [] => ([], grid)
  | push :: rest =>
    let (answer, after) := (pushInPlace push.1 push.2).exec grid
    let (answers, last) := pushEach after rest
    (answer :: answers, last)

def granted (pushes : List (Nat × β)) (answers : List (Except CapacityExceeded PUnit)) :
    List (Nat × β) :=
  ((pushes.zip answers).filter fun entry => entry.2.isOk).map Prod.fst

theorem pushEach_cons_of_ok {grid next : Grid α} {first : Nat × Action α}
    (h : grid.push first.1 first.2 = .ok next) (rest : List (Nat × Action α)) :
    pushEach grid (first :: rest) =
      (.ok ⟨⟩ :: (pushEach next rest).1, (pushEach next rest).2) := by
  simp only [pushEach, exec_pushInPlace, h]

theorem pushEach_cons_of_error {grid : Grid α} {first : Nat × Action α} {full : CapacityExceeded}
    (h : grid.push first.1 first.2 = .error full) (rest : List (Nat × Action α)) :
    pushEach grid (first :: rest) =
      (.error full :: (pushEach grid rest).1, (pushEach grid rest).2) := by
  simp only [pushEach, exec_pushInPlace, h]

/-- Refused pushes leave no trace: the grid is filled with the others. -/
theorem pushEach_grid (grid : Grid α) (pushes : List (Nat × Action α)) :
    (pushEach grid pushes).2 =
      { grid with pipes := filled grid.pipes (granted pushes (pushEach grid pushes).1) } := by
  induction pushes generalizing grid with
  | nil => rfl
  | cons first rest ih =>
      cases hpush : grid.push first.1 first.2 with
      | error full =>
          rw [pushEach_cons_of_error hpush, ih]
          rfl
      | ok next =>
          obtain ⟨-, rfl⟩ := (push_eq_ok_iff grid next _ _).mp hpush
          rw [pushEach_cons_of_ok hpush, ih]
          rfl

theorem fits_pushEach (grid : Grid α) (pushes : List (Nat × Action α))
    (h : Fits grid.maxPipes grid.maxActions grid.pipes) :
    Fits grid.maxPipes grid.maxActions (pushEach grid pushes).2.pipes := by
  induction pushes generalizing grid with
  | nil => exact h
  | cons first rest ih =>
      cases hpush : grid.push first.1 first.2 with
      | error full =>
          rw [pushEach_cons_of_error hpush]
          exact ih grid h
      | ok next =>
          obtain ⟨hroom, rfl⟩ := (push_eq_ok_iff grid next _ _).mp hpush
          rw [pushEach_cons_of_ok hpush]
          refine ih _ ((fits_appendAt_iff ..).mpr ⟨h, ?_⟩)
          simpa [Beyond, pipe] using hroom

theorem pipe_pushEach (grid : Grid α) (pushes : List (Nat × Action α)) (index : Nat)
    (h : (grid.pipe index).length ≤ grid.maxActions) :
    (pushEach grid pushes).2.pipe index =
      if index < grid.maxPipes then
        (grid.pipe index ++ pushedOnto index pushes).take grid.maxActions
      else grid.pipe index := by
  induction pushes generalizing grid with
  | nil => simp [pushEach, pushedOnto, List.take_of_length_le h]
  | cons first rest ih =>
      rw [pushedOnto_cons]
      cases hpush : grid.push first.1 first.2 with
      | error full =>
          obtain ⟨hfull, -⟩ := (push_eq_error_iff grid _ _ full).mp hpush
          rw [pushEach_cons_of_error hpush, ih grid h]
          by_cases hfirst : first.1 = index
          · subst hfirst
            by_cases hpipe : first.1 < grid.maxPipes
            · have hheld : (grid.pipe first.1).length = grid.maxActions := by omega
              simp only [if_pos hpipe, ← hheld, List.take_left]
            · simp only [if_neg hpipe]
          · rw [if_neg hfirst]
      | ok next =>
          obtain ⟨hroom, hnext⟩ := (push_eq_ok_iff grid next _ _).mp hpush
          have hpipe := pipe_push hpush index
          have hpipes : next.maxPipes = grid.maxPipes := by rw [hnext]
          have hactions : next.maxActions = grid.maxActions := by rw [hnext]
          rw [pushEach_cons_of_ok hpush]
          by_cases hfirst : first.1 = index
          · subst hfirst
            rw [if_pos rfl] at hpipe
            have hfits : (next.pipe first.1).length ≤ next.maxActions := by
              rw [hpipe, hactions, List.length_append]
              exact hroom.2
            rw [ih next hfits, hpipe, hpipes, hactions, if_pos rfl, if_pos hroom.1, if_pos hroom.1,
              List.append_assoc, List.singleton_append]
          · rw [if_neg (Ne.symm hfirst)] at hpipe
            have hfits : (next.pipe index).length ≤ next.maxActions := by
              rw [hpipe, hactions]
              exact h
            rw [ih next hfits, hpipe, hpipes, hactions, if_neg hfirst]

/-! ## What is read from a grid -/

theorem getElem?_pipes (grid : Grid α) (index : Nat) :
    grid.pipes[index]? = if index < grid.pipes.length then some (grid.pipe index) else none := by
  rw [pipe]
  split <;> simp_all

theorem mem_activePipes_iff (grid : Grid α) (index : Nat) (actions : List (Action α)) :
    (index, actions) ∈ grid.activePipes ↔ actions = grid.pipe index ∧ actions ≠ [] := by
  constructor
  · intro hmem
    obtain ⟨hpipe, hactive⟩ := pipe_of_mem_activePipes hmem
    exact ⟨hpipe.symm, hactive⟩
  · rintro ⟨rfl, hactive⟩
    have hlt : index < grid.pipes.length := by
      by_contra hpast
      exact hactive (by rw [pipe, List.getElem?_eq_none (by omega)]; rfl)
    refine List.mem_map.mpr ⟨(grid.pipe index, index), List.mem_filter.mpr ⟨?_, ?_⟩, rfl⟩
    · rw [List.mem_zipIdx_iff_getElem?, getElem?_pipes, if_pos hlt]
    · simpa using hactive

theorem actions_eq_flatMap (grid : Grid α) :
    grid.actions = (List.range grid.pipes.length).flatMap grid.pipe := by
  have hpipes : (List.range grid.pipes.length).map grid.pipe = grid.pipes := by
    refine List.ext_getElem? fun index => ?_
    rw [getElem?_pipes, List.getElem?_map]
    split
    · rw [List.getElem?_range ‹_›]
      rfl
    · rw [List.getElem?_eq_none (by simp; omega)]
      rfl
  rw [actions, List.flatMap_def, hpipes]

theorem isEmpty_iff (grid : Grid α) : grid.isEmpty = true ↔ grid.actions = [] := by
  simp [isEmpty, actions, List.flatten_eq_nil_iff]

theorem activePipes_eq_nil_iff (grid : Grid α) : grid.activePipes = [] ↔ grid.actions = [] := by
  rw [activePipes, List.map_eq_nil_iff, List.filter_eq_nil_iff, actions, List.flatten_eq_nil_iff,
    ← List.zipIdx_map_fst 0 grid.pipes, List.forall_mem_map, List.zipIdx_map_fst]
  simp

structure Stores (maxPipes maxActions : Nat) (stored : List (Nat × Action α))
    (grid : Grid α) : Prop where
  length_le : grid.pipes.length ≤ maxPipes
  length_pipe_le : ∀ pipe ∈ grid.pipes, pipe.length ≤ maxActions
  last_active : ∀ last ∈ grid.pipes.getLast?, last ≠ []
  slots : ∀ index, grid.pipes[index]? =
    if ∃ push ∈ stored, index ≤ push.1 then some (pushedOnto index stored) else none
  pipe : ∀ index, grid.pipe index = pushedOnto index stored
  active_increasing : (grid.activePipes.map Prod.fst).Pairwise (· < ·)
  mem_active_iff : ∀ index actions, (index, actions) ∈ grid.activePipes ↔
    actions = pushedOnto index stored ∧ actions ≠ []
  actions_eq : grid.actions =
    (List.range grid.pipes.length).flatMap fun index => pushedOnto index stored
  actions_perm : grid.actions.Perm (stored.map Prod.snd)
  isEmpty_iff : grid.isEmpty = true ↔ stored = []
  active_eq_nil_iff : grid.activePipes = [] ↔ stored = []
  actions_eq_nil_iff : grid.actions = [] ↔ stored = []

theorem stores_of_filled {grid : Grid α} {maxPipes maxActions : Nat}
    {stored : List (Nat × Action α)} (hfilled : grid.pipes = filled [] stored)
    (hfits : Fits maxPipes maxActions grid.pipes) : Stores maxPipes maxActions stored grid := by
  have hpipe : ∀ index, grid.pipe index = pushedOnto index stored := by
    intro index
    rw [pipe, hfilled, getElem?_getD_filled]
    rfl
  have hslots : ∀ index, index < grid.pipes.length ↔ ∃ push ∈ stored, index ≤ push.1 := by
    intro index
    rw [← not_le, hfilled, length_filled_le_iff]
    simp
  have hperm : grid.actions.Perm (stored.map Prod.snd) := by
    rw [actions, hfilled]
    exact flatten_filled_perm [] stored
  have hnone : grid.actions = [] ↔ stored = [] := by
    rw [← List.map_eq_nil_iff (f := Prod.snd), ← List.length_eq_zero_iff, hperm.length_eq,
      List.length_eq_zero_iff]
  constructor
  case length_le => exact hfits.1
  case length_pipe_le => exact hfits.2
  case last_active =>
    rw [hfilled]
    exact getLast?_filled (by simp) stored
  case slots =>
    intro index
    simp only [getElem?_pipes, hslots, hpipe]
  case pipe => exact hpipe
  case active_increasing =>
    rw [List.pairwise_map]
    exact activePipes_pairwise grid
  case mem_active_iff =>
    intro index actions
    rw [mem_activePipes_iff, hpipe]
  case actions_eq => rw [actions_eq_flatMap, funext hpipe]
  case actions_perm => exact hperm
  case isEmpty_iff => exact grid.isEmpty_iff.trans hnone
  case active_eq_nil_iff => exact grid.activePipes_eq_nil_iff.trans hnone
  case actions_eq_nil_iff => exact hnone

/-- Whatever is pushed onto an empty grid, in any order and at any pipe, the grid
keeps to its bounds and stores what was not refused: in each pipe the first actions
that were pushed onto it, until it is full.  A push done in place is the same as
one that gives a new grid.  It is refused exactly where its pipe is beyond the
bounds or full, and then it leaves the grid as it was. -/
theorem pushEach_stores (maxPipes maxActions : Nat) (pushes : List (Nat × Action α)) :
    let answers := (pushEach (empty maxPipes maxActions) pushes).1
    let grid := (pushEach (empty maxPipes maxActions) pushes).2
    grid.Stores maxPipes maxActions (granted pushes answers) ∧
      (∀ index, grid.pipe index =
        if index < maxPipes then (pushedOnto index pushes).take maxActions else []) ∧
      (∀ index action,
        (pushInPlace index action).exec grid =
          match grid.push index action with
          | .ok next => (.ok ⟨⟩, next)
          | .error full => (.error full, grid)) ∧
      ∀ index action full after,
        (pushInPlace index action).exec grid = (.error full, after) ↔
          (maxPipes ≤ index ∨ (grid.pipe index).length = maxActions) ∧
            full = ⟨index, (grid.pipe index).length, maxPipes, maxActions⟩ ∧ after = grid := by
  intro answers grid
  have hgrid : grid = ⟨filled [] (granted pushes answers), maxPipes, maxActions⟩ :=
    pushEach_grid (empty maxPipes maxActions) pushes
  have hfits : Fits maxPipes maxActions grid.pipes :=
    fits_pushEach (empty maxPipes maxActions) pushes ⟨Nat.zero_le _, by simp [empty]⟩
  have hpipe : ∀ index, grid.pipe index =
      if index < maxPipes then (pushedOnto index pushes).take maxActions else [] :=
    fun index => pipe_pushEach (empty maxPipes maxActions) pushes index (Nat.zero_le _)
  have hbounds : grid.maxPipes = maxPipes ∧ grid.maxActions = maxActions := by
    rw [hgrid]
    exact ⟨rfl, rfl⟩
  have hheld : ∀ index, (grid.pipe index).length ≤ maxActions := by
    intro index
    rw [hpipe]
    split <;> simp
  refine ⟨stores_of_filled (congrArg Grid.pipes hgrid) hfits, hpipe, exec_pushInPlace grid,
    fun index action full after => ?_⟩
  rw [exec_pushInPlace_error_iff, push_eq_error_iff, hbounds.1, hbounds.2, and_assoc,
    (hheld index).ge_iff_eq]

end Grid

end MotionNotation
