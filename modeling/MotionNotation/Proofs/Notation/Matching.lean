import Mathlib.Data.List.Forall2
import MotionNotation.Notation.Segment

/-!
# Readings against two targets

A notation read against one target and against another fails at the same place
or gives grids with the same slots.  What more the two grids have in common
depends on what resolving an action has in common, so the view of an action
that is compared is left open.
-/

namespace MotionNotation

inductive Agrees {ε α : Type} (related : α → α → Prop) : Except ε α → Except ε α → Prop
  | ok {first second : α} (h : related first second) : Agrees related (.ok first) (.ok second)
  | error (error : ε) : Agrees related (.error error) (.error error)

namespace Agrees

variable {ε α : Type} {related : α → α → Prop} {first second : Except ε α}

theorem ok_or_error (h : Agrees related first second) :
    (∃ one other, first = .ok one ∧ second = .ok other ∧ related one other) ∨
      ∃ error, first = .error error ∧ second = .error error := by
  cases h with
  | ok h => exact .inl ⟨_, _, rfl, rfl, h⟩
  | error error => exact .inr ⟨error, rfl, rfl⟩

theorem exists_ok (h : Agrees related first second) {result : α} (hok : first = .ok result) :
    ∃ other, second = .ok other ∧ related result other := by
  subst hok
  cases h with
  | ok h => exact ⟨_, rfl, h⟩

end Agrees

variable {α β : Type}

namespace Grid

theorem map_appendAt {γ δ : Type} (view : γ → δ) (lists : List (List γ)) (place : Nat) (item : γ) :
    (appendAt lists place item).map (List.map view) =
      appendAt (lists.map (List.map view)) place (view item) := by
  induction lists, place, item using appendAt.induct with
  | case1 item => rfl
  | case2 place item ih => simpa [appendAt] using ih
  | case3 first rest item => simp [appendAt]
  | case4 first rest place item ih => simpa [appendAt] using ih

structure Matches (view : Action α → β) (first second : Grid α) : Prop where
  pipes : first.pipes.map (List.map view) = second.pipes.map (List.map view)
  maxPipes : first.maxPipes = second.maxPipes
  maxActions : first.maxActions = second.maxActions

namespace Matches

variable {view : Action α → β} {first second : Grid α}

theorem pipe (h : first.Matches view second) (index : Nat) :
    (first.pipe index).map view = (second.pipe index).map view := by
  have hmap : ∀ grid : Grid α, (grid.pipe index).map view =
      (grid.pipes.map (List.map view))[index]?.getD [] := by
    intro grid
    rw [Grid.pipe, List.getElem?_map]
    cases grid.pipes[index]? <;> rfl
  rw [hmap, hmap, h.pipes]

theorem length_pipe (h : first.Matches view second) (index : Nat) :
    (first.pipe index).length = (second.pipe index).length := by
  simpa using congrArg List.length (h.pipe index)

theorem push (h : first.Matches view second) (index : Nat) {action other : Action α}
    (hview : view action = view other) :
    Agrees (Matches view) (first.push index action) (second.push index other) := by
  simp only [Grid.push, h.length_pipe index, h.maxPipes, h.maxActions]
  split
  · refine .ok ⟨?_, rfl, rfl⟩
    simp only [map_appendAt, h.pipes, hview]
  · exact .error _

end Matches

end Grid

/-! ## The reader -/

variable [Scalar α]

def Config.Resolves (config : Config α) (view : Action α → β) (first second : Target α) : Prop :=
  ∀ operator inverse literal easing,
    view (Action.resolve operator inverse literal easing first config) =
      view (Action.resolve operator inverse literal easing second config)

namespace Reader

structure Matches (view : Action α → β) (first second : Reader α) : Prop where
  grid : first.grid.Matches view second.grid
  pipe : first.pipe = second.pipe
  easing : first.easing = second.easing
  inverse : first.inverse = second.inverse

variable {config : Config α} {view : Action α → β} {one other : Target α}
  {first second : Reader α}

omit [Scalar α] in
theorem Matches.pausePipe (h : first.Matches view second) :
    first.pausePipe = second.pausePipe := by
  simp only [Reader.pausePipe, List.isEmpty_iff_length_eq_zero, h.pipe,
    h.grid.length_pipe second.pipe]

theorem Matches.step (h : first.Matches view second) (resolves : config.Resolves view one other)
    (mark : Mark) (literal : Literal α) :
    Agrees (Matches view) (first.step config one mark literal)
      (second.step config other mark literal) := by
  cases mark with
  | invert => exact .ok ⟨h.grid, h.pipe, h.easing, rfl⟩
  | nextPipe => exact .ok ⟨h.grid, congrArg (· + 1) h.pipe, h.easing, h.inverse⟩
  | pause =>
      have hpush := h.grid.push second.pausePipe
        (rfl : view (.pause config.pauseDuration second.easing) = _)
      obtain ⟨grid, found, hfirst, hsecond, hgrid⟩ | ⟨full, hfirst, hsecond⟩ := hpush.ok_or_error
      · simp only [Reader.step, h.pausePipe, h.easing, hfirst, hsecond]
        exact .ok ⟨hgrid, rfl, rfl, h.inverse⟩
      · simp only [Reader.step, h.pausePipe, h.easing, hfirst, hsecond]
        exact .error full
  | ease =>
      refine .ok ⟨h.grid, h.pipe, ?_, rfl⟩
      simp only [h.easing]
  | act operator =>
      have hpush := h.grid.push second.pipe
        (resolves operator second.inverse literal.value? second.easing)
      obtain ⟨grid, found, hfirst, hsecond, hgrid⟩ | ⟨full, hfirst, hsecond⟩ := hpush.ok_or_error
      · simp only [Reader.step, h.pipe, h.easing, h.inverse, hfirst, hsecond]
        exact .ok ⟨hgrid, rfl, rfl, rfl⟩
      · simp only [Reader.step, h.pipe, h.easing, h.inverse, hfirst, hsecond]
        exact .error full

theorem Matches.run (h : first.Matches view second) (resolves : config.Resolves view one other)
    (text : List Char) :
    Agrees (Matches view) (first.run config one text) (second.run config other text) := by
  induction text generalizing first second with
  | nil => exact .ok h
  | cons c rest ih =>
      rw [Reader.run, Reader.run]
      cases Mark.ofChar? c with
      | none => exact ih h
      | some mark =>
          have hstep := h.step resolves mark (Literal.find rest)
          obtain ⟨next, found, hfirst, hsecond, hnext⟩ | ⟨full, hfirst, hsecond⟩ :=
            hstep.ok_or_error
          · simp only [hfirst, hsecond]
            exact ih hnext
          · simp only [hfirst, hsecond]
            exact .error full

end Reader

/-! ## Grids and segments -/

variable {config : Config α} {view : Action α → β} {one other : Target α}

theorem Grid.read_matches (resolves : config.Resolves view one other) (text : String) :
    Agrees (Matches view) (read config one text) (read config other text) := by
  have hstart : (Reader.start config : Reader α).Matches view (Reader.start config) :=
    ⟨⟨rfl, rfl, rfl⟩, rfl, rfl, rfl⟩
  have hrun := hstart.run resolves text.toList
  obtain ⟨first, second, hfirst, hsecond, hreader⟩ | ⟨full, hfirst, hsecond⟩ := hrun.ok_or_error
  · simp only [read, hfirst, hsecond]
    exact .ok hreader.grid
  · simp only [read, hfirst, hsecond]
    exact .error full

namespace Segment

theorem read_matches (resolves : config.Resolves view one other) (text : String) :
    Agrees (fun first second => first.grid.Matches view second.grid) (read config one text)
      (read config other text) := by
  obtain ⟨first, second, hfirst, hsecond, hgrid⟩ | ⟨full, hfirst, hsecond⟩ :=
    (Grid.read_matches resolves text).ok_or_error
  · simp only [read, hfirst, hsecond]
    exact .ok hgrid
  · simp only [read, hfirst, hsecond]
    exact .error full

theorem readEach_matches (resolves : config.Resolves view one other) (texts : List String) :
    Agrees (List.Forall₂ fun first second => first.grid.Matches view second.grid)
      (readEach config one texts) (readEach config other texts) := by
  induction texts with
  | nil => exact .ok .nil
  | cons text rest ih =>
      obtain ⟨first, second, hfirst, hsecond, hgrid⟩ | ⟨full, hfirst, hsecond⟩ :=
        (read_matches resolves text).ok_or_error
      · obtain ⟨firsts, seconds, hfirsts, hseconds, hgrids⟩ | ⟨full, hfirsts, hseconds⟩ :=
          ih.ok_or_error
        · simp only [readEach, hfirst, hsecond, hfirsts, hseconds]
          exact .ok (.cons hgrid hgrids)
        · simp only [readEach, hfirst, hsecond, hfirsts, hseconds]
          exact .error full
      · simp only [readEach, hfirst, hsecond]
        exact .error full

theorem readAll_matches (resolves : config.Resolves view one other) (text : String) :
    Agrees (List.Forall₂ fun first second => first.grid.Matches view second.grid)
      (readAll config one text) (readAll config other text) :=
  readEach_matches resolves (Groups.ofText text)

/-- Whether a notation fits does not depend on the target. -/
theorem readAll_ok_of_ok {text : String} {segments : List (Segment α)}
    (h : readAll config one text = .ok segments) (other : Target α) :
    ∃ others, readAll config other text = .ok others := by
  have resolves : config.Resolves (fun _ => ()) one other := fun _ _ _ _ => rfl
  obtain ⟨others, hothers, -⟩ := (readAll_matches resolves text).exists_ok h
  exact ⟨others, hothers⟩

end Segment

end MotionNotation
