import MotionNotation.Proofs.Notation.Grammar

/-!
# The capacity of a grid

Bounds reject a notation and never change what it means.  Where the actions of a
notation go is told by its marks alone, in the order of reading.  Under bounds
that hold all these places the grid is the same as under any others, and
otherwise the first place beyond the bounds is the error.
-/

namespace MotionNotation

namespace Mark

def places : Mark → Bool
  | pause | act _ => true
  | invert | nextPipe | ease => false

def steers : Mark → Bool
  | nextPipe | pause | act _ => true
  | invert | ease => false

end Mark

namespace Grammar

/-- The places of actions, each a pipe and a place in it, from a pipe on that
holds some actions already. -/
def placesFrom (pipe held : Nat) : List Mark → List (Nat × Nat)
  | [] => []
  | .invert :: rest | .ease :: rest => placesFrom pipe held rest
  | .nextPipe :: rest => placesFrom (pipe + 1) 0 rest
  | .pause :: rest =>
    let own := if held = 0 then pipe else pipe + 1
    (own, 0) :: placesFrom (own + 1) 0 rest
  | .act _ :: rest => (pipe, held) :: placesFrom pipe (held + 1) rest

def marks (letters : List Char) : List Mark :=
  letters.filterMap Mark.ofChar?

def places (text : String) : List (Nat × Nat) :=
  placesFrom 0 0 (marks text.toList)

theorem placesFrom_filter (pipe held : Nat) (found : List Mark) :
    placesFrom pipe held (found.filter Mark.steers) = placesFrom pipe held found := by
  induction found generalizing pipe held with
  | nil => rfl
  | cons mark rest ih =>
      cases mark <;> simp [List.filter_cons, Mark.steers, placesFrom, ih]

theorem placesFrom_append_of_not_places {found tail : List Mark}
    (h : ∀ mark ∈ tail, mark.places = false) (pipe held : Nat) :
    placesFrom pipe held (found ++ tail) = placesFrom pipe held found := by
  induction found generalizing pipe held with
  | nil =>
      induction tail generalizing pipe held with
      | nil => rfl
      | cons mark rest ih =>
          rw [List.forall_mem_cons] at h
          cases mark <;> simp_all [Mark.places, placesFrom]
  | cons mark rest ih => cases mark <;> simp [placesFrom, ih]

theorem marks_append (first second : List Char) :
    marks (first ++ second) = marks first ++ marks second :=
  List.filterMap_append

theorem places_of_not_steers (front back : String) {switch : String}
    (h : ∀ mark ∈ marks switch.toList, mark.steers = false) :
    places (front ++ switch ++ back) = places (front ++ back) := by
  have hnone : (marks switch.toList).filter Mark.steers = [] := by
    simpa [List.filter_eq_nil_iff] using h
  rw [places, places, ← placesFrom_filter, ← placesFrom_filter 0 0 (marks (front ++ back).toList)]
  simp only [String.toList_append, marks_append, List.filter_append, hnone, List.append_nil]

theorem places_of_not_places (front : String) {tail : String}
    (h : ∀ mark ∈ marks tail.toList, mark.places = false) :
    places (front ++ tail) = places front := by
  rw [places, String.toList_append, marks_append, placesFrom_append_of_not_places h]
  rfl

end Grammar

/-! ## Bounds -/

def Config.bounded {α : Type} (config : Config α) (maxPipes maxActions : Nat) : Config α :=
  { config with maxPipes, maxActions }

namespace Grid

variable {β : Type}

def filled (pipes : List (List β)) : List (Nat × β) → List (List β)
  | [] => pipes
  | push :: rest => filled (appendAt pipes push.1 push.2) rest

def placed (pipes : List (List β)) : List (Nat × β) → List (Nat × Nat)
  | [] => []
  | push :: rest =>
    (push.1, (pipes[push.1]?.getD []).length) :: placed (appendAt pipes push.1 push.2) rest

def Beyond (maxPipes maxActions : Nat) (place : Nat × Nat) : Prop :=
  maxPipes ≤ place.1 ∨ maxActions ≤ place.2

instance (maxPipes maxActions : Nat) : DecidablePred (Beyond maxPipes maxActions) :=
  fun place => inferInstanceAs (Decidable (maxPipes ≤ place.1 ∨ maxActions ≤ place.2))

def Fits (maxPipes maxActions : Nat) (pipes : List (List β)) : Prop :=
  pipes.length ≤ maxPipes ∧ ∀ pipe ∈ pipes, pipe.length ≤ maxActions

theorem filled_append (pipes : List (List β)) (first second : List (Nat × β)) :
    filled pipes (first ++ second) = filled (filled pipes first) second := by
  induction first generalizing pipes with
  | nil => rfl
  | cons push rest ih => exact ih _

theorem placed_append (pipes : List (List β)) (first second : List (Nat × β)) :
    placed pipes (first ++ second) = placed pipes first ++ placed (filled pipes first) second := by
  induction first generalizing pipes with
  | nil => rfl
  | cons push rest ih => simp [placed, filled, ih]

theorem length_appendAt_le_iff (pipes : List (List β)) (place : Nat) (item : β) (bound : Nat) :
    (appendAt pipes place item).length ≤ bound ↔ pipes.length ≤ bound ∧ place < bound := by
  induction pipes, place, item using appendAt.induct generalizing bound with
  | case1 item =>
      simp only [appendAt, List.length_singleton, List.length_nil]
      omega
  | case2 place item ih =>
      cases bound with
      | zero => simp [appendAt]
      | succ bound => simp [appendAt, ih]
  | case3 first rest item =>
      simp only [appendAt, List.length_cons]
      omega
  | case4 first rest place item ih =>
      cases bound with
      | zero => simp [appendAt]
      | succ bound => simp [appendAt, ih]

theorem forall_appendAt_length_le_iff (pipes : List (List β)) (place : Nat) (item : β)
    (bound : Nat) :
    (∀ pipe ∈ appendAt pipes place item, pipe.length ≤ bound) ↔
      (∀ pipe ∈ pipes, pipe.length ≤ bound) ∧ (pipes[place]?.getD []).length < bound := by
  induction pipes, place, item using appendAt.induct with
  | case1 item => simp [appendAt, Nat.succ_le_iff]
  | case2 place item ih => simpa [appendAt] using ih
  | case3 first rest item =>
      simp only [appendAt, List.forall_mem_cons, List.length_append, List.length_singleton,
        List.getElem?_cons_zero, Option.getD_some]
      constructor
      · rintro ⟨hfirst, hrest⟩
        exact ⟨⟨by omega, hrest⟩, by omega⟩
      · rintro ⟨⟨-, hrest⟩, hroom⟩
        exact ⟨by omega, hrest⟩
  | case4 first rest place item ih =>
      simp only [appendAt, List.forall_mem_cons, ih, List.getElem?_cons_succ, and_assoc]

theorem fits_appendAt_iff (pipes : List (List β)) (place : Nat) (item : β)
    (maxPipes maxActions : Nat) :
    Fits maxPipes maxActions (appendAt pipes place item) ↔
      Fits maxPipes maxActions pipes ∧
        ¬Beyond maxPipes maxActions (place, (pipes[place]?.getD []).length) := by
  simp only [Fits, Beyond, length_appendAt_le_iff, forall_appendAt_length_le_iff, not_or, not_le,
    and_and_and_comm]

theorem fits_filled_iff (pipes : List (List β)) (pushes : List (Nat × β))
    (maxPipes maxActions : Nat) :
    Fits maxPipes maxActions (filled pipes pushes) ↔
      Fits maxPipes maxActions pipes ∧
        ∀ place ∈ placed pipes pushes, ¬Beyond maxPipes maxActions place := by
  induction pushes generalizing pipes with
  | nil => simp [filled, placed]
  | cons push rest ih =>
      rw [filled, placed, ih, fits_appendAt_iff, List.forall_mem_cons, and_assoc]

theorem length_le_filled (pipes : List (List β)) (pushes : List (Nat × β)) (pipe : Nat) :
    (pipes[pipe]?.getD []).length ≤ ((filled pipes pushes)[pipe]?.getD []).length := by
  induction pushes generalizing pipes with
  | nil => exact Nat.le_refl _
  | cons push rest ih =>
      have hpush : (pipes[pipe]?.getD []).length ≤
          ((appendAt pipes push.1 push.2)[pipe]?.getD []).length := by
        rw [getElem?_getD_appendAt]
        split <;> simp_all
      exact hpush.trans (ih _)

theorem mem_placed_iff (pipes : List (List β)) (pushes : List (Nat × β)) (place : Nat × Nat) :
    place ∈ placed pipes pushes ↔
      (pipes[place.1]?.getD []).length ≤ place.2 ∧
        place.2 < ((filled pipes pushes)[place.1]?.getD []).length := by
  induction pushes generalizing pipes with
  | nil =>
      simp only [placed, List.not_mem_nil, filled, false_iff]
      omega
  | cons push rest ih =>
      have hkept := length_le_filled (appendAt pipes push.1 push.2) rest place.1
      simp only [placed, List.mem_cons, ih, filled, Prod.ext_iff]
      simp only [getElem?_getD_appendAt] at hkept ⊢
      by_cases hpipe : place.1 = push.1
      · simp only [hpipe, true_and, if_true, List.length_append, List.length_singleton]
          at hkept ⊢
        omega
      · simp [hpipe]

end Grid

namespace Reader

variable {α : Type}

def bounded (reader : Reader α) (maxPipes maxActions : Nat) : Reader α :=
  { reader with grid := { reader.grid with maxPipes, maxActions } }

/-- What comes of a run that would end in a reader after taking some places. -/
def within (last : Reader α) (places : List (Nat × Nat)) (maxPipes maxActions : Nat) :
    Except CapacityExceeded (Reader α) :=
  match places.find? fun place => Grid.Beyond maxPipes maxActions place with
  | some place => .error ⟨place.1, place.2, maxPipes, maxActions⟩
  | none => .ok (last.bounded maxPipes maxActions)

theorem within_append {next last : Reader α} {first second : List (Nat × Nat)}
    {maxPipes maxActions : Nat} {run : Reader α → Except CapacityExceeded (Reader α)}
    (h : run (next.bounded maxPipes maxActions) = last.within second maxPipes maxActions) :
    (match next.within first maxPipes maxActions with
      | .ok reached => run reached
      | .error full => .error full) = last.within (first ++ second) maxPipes maxActions := by
  rw [within, within, List.find?_append]
  cases first.find? fun place => Grid.Beyond maxPipes maxActions place with
  | none => exact h
  | some place => rfl

theorem within_cons_of_room (last : Reader α) {place : Nat × Nat} {maxPipes maxActions : Nat}
    (h : ¬Grid.Beyond maxPipes maxActions place) (rest : List (Nat × Nat)) :
    last.within (place :: rest) maxPipes maxActions = last.within rest maxPipes maxActions := by
  simp [within, h]

theorem within_cons_of_beyond (last : Reader α) {place : Nat × Nat} {maxPipes maxActions : Nat}
    (h : Grid.Beyond maxPipes maxActions place) (rest : List (Nat × Nat)) :
    last.within (place :: rest) maxPipes maxActions =
      .error ⟨place.1, place.2, maxPipes, maxActions⟩ := by
  simp [within, h]

def route (reader : Reader α) (marks : List Mark) : List (Nat × Nat) :=
  Grammar.placesFrom reader.pipe (reader.grid.pipe reader.pipe).length marks

theorem push_bounded (reader next : Reader α) {pipe : Nat} {action : Action α}
    (h : next.grid.pipes = Grid.appendAt reader.grid.pipes pipe action)
    (maxPipes maxActions : Nat) :
    (match (reader.bounded maxPipes maxActions).grid.push pipe action with
      | .ok grid => .ok { next with grid }
      | .error full => .error full) =
      next.within (Grid.placed reader.grid.pipes [(pipe, action)]) maxPipes maxActions := by
  by_cases hroom : pipe < maxPipes ∧ (reader.grid.pipe pipe).length < maxActions
  · have hpush : (reader.bounded maxPipes maxActions).grid.push pipe action =
        .ok ⟨Grid.appendAt reader.grid.pipes pipe action, maxPipes, maxActions⟩ := if_pos hroom
    rw [hpush, Grid.placed, within_cons_of_room]
    · simp [within, Grid.placed, bounded, h]
    · simpa [Grid.Beyond, Grid.pipe] using hroom
  · have hpush : (reader.bounded maxPipes maxActions).grid.push pipe action = .error _ :=
      if_neg hroom
    rw [hpush, Grid.placed, within_cons_of_beyond]
    · rfl
    · simp only [Grid.Beyond]
      simp only [Grid.pipe] at hroom
      omega

theorem pipe_of_appended (reader next : Reader α) {pipe : Nat} {action : Action α}
    (h : next.grid.pipes = Grid.appendAt reader.grid.pipes pipe action) (other : Nat) :
    next.grid.pipe other =
      if other = pipe then reader.grid.pipe pipe ++ [action] else reader.grid.pipe other := by
  rw [Grid.pipe, h, Grid.getElem?_getD_appendAt]
  rfl

theorem ahead_of_appended {reader next : Reader α} (ahead : reader.Ahead) {pipe : Nat}
    {action : Action α} (h : next.grid.pipes = Grid.appendAt reader.grid.pipes pipe action)
    (hpipe : pipe ≤ next.pipe) (hreader : reader.pipe ≤ next.pipe) : next.Ahead := by
  intro later hlater
  rw [pipe_of_appended reader next h, if_neg (by omega)]
  exact ahead later (by omega)

variable [Scalar α]

theorem step_bounded_config (config : Config α) (maxPipes maxActions : Nat) :
    Reader.step (config.bounded maxPipes maxActions) = Reader.step config := by
  funext target reader mark literal
  cases mark with
  | act operator => cases operator <;> rfl
  | _ => rfl

theorem run_bounded_config (config : Config α) (maxPipes maxActions : Nat) (target : Target α)
    (reader : Reader α) (text : List Char) :
    reader.run (config.bounded maxPipes maxActions) target text =
      reader.run config target text := by
  induction text generalizing reader with
  | nil => rfl
  | cons c rest ih => simp only [run, step_bounded_config, ih]

theorem step_bounded {reader : Reader α} (ahead : reader.Ahead) (config : Config α)
    (target : Target α) (mark : Mark) (literal : Literal α) :
    ∃ (pushes : List (Nat × Action α)) (next : Reader α),
      next.Ahead ∧ next.grid.pipes = Grid.filled reader.grid.pipes pushes ∧
      (∀ rest, reader.route (mark :: rest) =
        Grid.placed reader.grid.pipes pushes ++ next.route rest) ∧
      ∀ maxPipes maxActions,
        (reader.bounded maxPipes maxActions).step config target mark literal =
          next.within (Grid.placed reader.grid.pipes pushes) maxPipes maxActions := by
  cases mark with
  | invert =>
      exact ⟨[], { reader with inverse := true }, ahead, rfl, fun _ => rfl, fun _ _ => rfl⟩
  | nextPipe =>
      refine ⟨[], { reader with pipe := reader.pipe + 1 }, ?_, rfl, ?_, fun _ _ => rfl⟩
      · exact fun later hlater => ahead later (Nat.lt_of_succ_lt hlater)
      · intro rest
        have hnext : reader.grid.pipe (reader.pipe + 1) = [] := ahead _ (Nat.lt_succ_self _)
        simp [route, Grammar.placesFrom, Grid.placed, hnext]
  | pause =>
      let pause := Action.pause config.pauseDuration reader.easing
      let next : Reader α :=
        { reader with
          grid := ⟨Grid.appendAt reader.grid.pipes reader.pausePipe pause, 0, 0⟩
          pipe := reader.pausePipe + 1 }
      have hafter := reader.le_pausePipe
      have hahead : next.Ahead :=
        ahead_of_appended ahead rfl (Nat.le_succ _) (Nat.le_succ_of_le hafter)
      refine ⟨[(reader.pausePipe, pause)], next, hahead, rfl, fun rest => ?_,
        push_bounded reader next rfl⟩
      have hnext : next.grid.pipe (reader.pausePipe + 1) = [] := by
        rw [pipe_of_appended reader next rfl, if_neg (by omega)]
        exact ahead _ (by omega)
      have hheld : reader.grid.pipe reader.pausePipe = [] := by
        unfold pausePipe
        split
        · exact List.isEmpty_iff.mp ‹_›
        · exact ahead _ (Nat.lt_succ_self _)
      have hown : Grammar.placesFrom reader.pipe (reader.grid.pipe reader.pipe).length
          (.pause :: rest) =
            (reader.pausePipe, 0) :: Grammar.placesFrom (reader.pausePipe + 1) 0 rest := by
        rw [pausePipe_eq]
        rfl
      rw [route, hown, route, hnext, Grid.placed, ← Grid.pipe, hheld]
      rfl
  | ease =>
      exact ⟨[], { reader with easing := selectEasing reader.easing literal, inverse := false },
        ahead, rfl, fun _ => rfl, fun _ _ => rfl⟩
  | act operator =>
      let action :=
        Action.resolve operator reader.inverse literal.value? reader.easing target config
      let next : Reader α :=
        { reader with
          grid := ⟨Grid.appendAt reader.grid.pipes reader.pipe action, 0, 0⟩
          inverse := false }
      have hahead : next.Ahead := ahead_of_appended ahead rfl (Nat.le_refl _) (Nat.le_refl _)
      refine ⟨[(reader.pipe, action)], next, hahead, rfl, fun rest => ?_,
        push_bounded reader next rfl⟩
      have hheld : (next.grid.pipe reader.pipe).length =
          (reader.grid.pipe reader.pipe).length + 1 := by
        rw [pipe_of_appended reader next rfl, if_pos rfl, List.length_append,
          List.length_singleton]
      rw [route, Grammar.placesFrom, route, hheld]
      rfl

/-- A reader comes to the same pipes under all bounds that have room for them, and
stops at the first place beyond the bounds under all others. -/
theorem run_bounded {reader : Reader α} (ahead : reader.Ahead) (config : Config α)
    (target : Target α) (text : List Char) :
    ∃ (pushes : List (Nat × Action α)) (last : Reader α),
      last.grid.pipes = Grid.filled reader.grid.pipes pushes ∧
      reader.route (Grammar.marks text) = Grid.placed reader.grid.pipes pushes ∧
      ∀ maxPipes maxActions,
        (reader.bounded maxPipes maxActions).run config target text =
          last.within (Grid.placed reader.grid.pipes pushes) maxPipes maxActions := by
  induction text generalizing reader with
  | nil => exact ⟨[], reader, rfl, rfl, fun _ _ => rfl⟩
  | cons c rest ih =>
      cases hmark : Mark.ofChar? c with
      | none =>
          simp only [run, Grammar.marks, List.filterMap_cons, hmark]
          exact ih ahead
      | some mark =>
          obtain ⟨first, next, hahead, hpipes, hroute, hstep⟩ :=
            step_bounded ahead config target mark (Literal.find rest)
          obtain ⟨second, last, hlast, hrest, hrun⟩ := ih hahead
          rw [hpipes] at hlast hrest hrun
          refine ⟨first ++ second, last, ?_, ?_, ?_⟩
          · rw [hlast, Grid.filled_append]
          · rw [Grammar.marks, List.filterMap_cons_some hmark, hroute, Grid.placed_append, ← hrest]
            rfl
          · intro maxPipes maxActions
            rw [run, hmark, Grid.placed_append]
            simp only [hstep]
            exact within_append (hrun maxPipes maxActions)

end Reader

/-! ## Reading under bounds -/

namespace Grid

variable {α : Type} [Scalar α]

theorem exists_read_bounded (config : Config α) (target : Target α) (text : String) :
    ∃ pushes : List (Nat × Action α), placed [] pushes = Grammar.places text ∧
      ∀ maxPipes maxActions,
        read (config.bounded maxPipes maxActions) target text =
          match (Grammar.places text).find? fun place => Beyond maxPipes maxActions place with
          | some place => .error ⟨place.1, place.2, maxPipes, maxActions⟩
          | none => .ok ⟨filled [] pushes, maxPipes, maxActions⟩ := by
  obtain ⟨pushes, last, hlast, hplaces, hrun⟩ :=
    Reader.run_bounded (Reader.start_ahead config) config target text.toList
  have hroute : (Reader.start config).route (Grammar.marks text.toList) = Grammar.places text := rfl
  rw [hroute] at hplaces
  refine ⟨pushes, hplaces.symm, fun maxPipes maxActions => ?_⟩
  have hstart : Reader.start (config.bounded maxPipes maxActions) =
      (Reader.start config).bounded maxPipes maxActions := rfl
  rw [read, hstart, Reader.run_bounded_config, hrun, Reader.within, ← hplaces]
  cases (Grammar.places text).find? fun place => Beyond maxPipes maxActions place with
  | some place => rfl
  | none => simp [Reader.bounded, hlast, Reader.start, empty]

theorem read_bounded_eq_error_iff (config : Config α) (target : Target α) (text : String)
    (maxPipes maxActions : Nat) (full : CapacityExceeded) :
    read (config.bounded maxPipes maxActions) target text = .error full ↔
      ∃ place, ((Grammar.places text).find? fun place => Beyond maxPipes maxActions place) =
          some place ∧ full = ⟨place.1, place.2, maxPipes, maxActions⟩ := by
  obtain ⟨pushes, -, hread⟩ := exists_read_bounded config target text
  rw [hread]
  cases (Grammar.places text).find? fun place => Beyond maxPipes maxActions place with
  | some place => simp [eq_comm]
  | none => simp

/-- Bounds reject a notation and never change what it means.  There is one list of
pushes, at the places that the marks tell, and under all bounds that have room for
the pipes they fill these are the pipes that are read.  All other bounds refuse the
first place that is beyond them.  What has no say in where actions go has none in
this, wherever it stands, and neither has a pipe that no action comes to. -/
theorem read_bounded (config : Config α) (target : Target α) (text : String) :
    ∃ pushes : List (Nat × Action α),
      placed [] pushes = Grammar.places text ∧
      (∀ place, place ∈ Grammar.places text ↔
        place.2 < ((filled [] pushes)[place.1]?.getD []).length) ∧
      (∀ maxPipes maxActions grid,
        read (config.bounded maxPipes maxActions) target text = .ok grid ↔
          Fits maxPipes maxActions (filled [] pushes) ∧
            grid = ⟨filled [] pushes, maxPipes, maxActions⟩) ∧
      (∀ maxPipes maxActions full,
        read (config.bounded maxPipes maxActions) target text = .error full ↔
          ∃ place, ((Grammar.places text).find? fun place => Beyond maxPipes maxActions place) =
              some place ∧ full = ⟨place.1, place.2, maxPipes, maxActions⟩) ∧
      (∀ front switch back, text = front ++ switch ++ back →
        (∀ mark ∈ Grammar.marks switch.toList, mark.steers = false) →
        ∀ maxPipes maxActions full,
          read (config.bounded maxPipes maxActions) target text = .error full ↔
            read (config.bounded maxPipes maxActions) target (front ++ back) = .error full) ∧
      ∀ front tail, text = front ++ tail →
        (∀ mark ∈ Grammar.marks tail.toList, mark.places = false) →
        ∀ maxPipes maxActions full,
          read (config.bounded maxPipes maxActions) target text = .error full ↔
            read (config.bounded maxPipes maxActions) target front = .error full := by
  obtain ⟨pushes, hplaces, hread⟩ := exists_read_bounded config target text
  refine ⟨pushes, hplaces, ?_, ?_, read_bounded_eq_error_iff config target text, ?_, ?_⟩
  · intro place
    rw [← hplaces, mem_placed_iff]
    simp
  · intro maxPipes maxActions grid
    have hfits : Fits maxPipes maxActions (filled [] pushes) ↔
        ((Grammar.places text).find? fun place => Beyond maxPipes maxActions place) = none := by
      rw [fits_filled_iff, hplaces, List.find?_eq_none]
      simp [Fits]
    rw [hread, hfits]
    cases (Grammar.places text).find? fun place => Beyond maxPipes maxActions place with
    | some place => simp
    | none => simp [eq_comm]
  · rintro front switch back rfl hswitch maxPipes maxActions full
    rw [read_bounded_eq_error_iff, read_bounded_eq_error_iff,
      Grammar.places_of_not_steers front back hswitch]
  · rintro front tail rfl htail maxPipes maxActions full
    rw [read_bounded_eq_error_iff, read_bounded_eq_error_iff,
      Grammar.places_of_not_places front htail]

end Grid

end MotionNotation
