import MotionNotation.Proofs.Playback.Chronicle

/-!
# The signal of an animation

The signal goes to the first group of a notation.  A notation with brackets
around blanks only has no group at all: it is finished as soon as it is started
and its signal is lost.  Every other notation keeps its signal until the update
that completes the first group, and gives it exactly once.
-/

namespace MotionNotation

namespace Groups

/-- Brackets, with nothing but blanks inside and outside of them. -/
def Hollow (text : String) : Prop :=
  '[' ∈ text.toList ∧ ∀ c ∈ text.toList, c = '[' ∨ c = ']' ∨ Text.isBlank c = true

instance (text : String) : Decidable (Hollow text) :=
  decidable_of_iff
    ('[' ∈ text.toList ∧
      (text.toList.all fun c => c == '[' || (c == ']' || Text.isBlank c)) = true)
    (by simp [Hollow])

theorem allBlank_pieces_iff (text : List Char) :
    (∀ piece ∈ pieces text, Text.allBlank piece = true) ↔
      ∀ c ∈ text, c = ']' ∨ Text.isBlank c = true := by
  induction text with
  | nil => simp [pieces, Text.allBlank]
  | cons c rest ih =>
      rw [List.forall_mem_cons, ← ih, pieces]
      by_cases hc : c = ']'
      · simp [hc, Text.allBlank]
      · cases h : pieces rest with
        | nil => exact absurd h (pieces_ne_nil rest)
        | cons piece others => simp [hc, Text.allBlank, and_assoc]

theorem ofText_eq_nil_iff (text : String) : ofText text = [] ↔ Hollow text := by
  rw [ofText, List.map_eq_nil_iff, split, Hollow]
  by_cases h : '[' ∈ text.toList
  · have hbracketed : bracketed text.toList = true := by simpa [bracketed] using h
    rw [if_pos hbracketed, List.filter_eq_nil_iff]
    have hpieces := allBlank_pieces_iff (text.toList.filter fun c => c != '[')
    simp only [Bool.not_eq_true', Bool.not_eq_false, hpieces, List.mem_filter, bne_iff_ne]
    constructor
    · intro hblank
      refine ⟨h, fun c hc => ?_⟩
      by_cases hopen : c = '['
      · exact .inl hopen
      · exact .inr (hblank c ⟨hc, hopen⟩)
    · rintro ⟨-, hblank⟩ c ⟨hc, hopen⟩
      exact (hblank c hc).resolve_left hopen
  · have hbracketed : bracketed text.toList = false := by simpa [bracketed] using h
    simp [hbracketed, h]

end Groups

namespace Segment

variable {α : Type} [Scalar α]

theorem length_readEach {config : Config α} {target : Target α} {texts : List String}
    {segments : List (Segment α)} (h : readEach config target texts = .ok segments) :
    segments.length = texts.length := by
  induction texts generalizing segments with
  | nil =>
      cases h
      rfl
  | cons text rest ih =>
      obtain ⟨segment, others, -, hrest, rfl⟩ := readEach_cons_ok h
      rw [List.length_cons, List.length_cons, ih hrest]

theorem readAll_eq_nil_iff {config : Config α} {target : Target α} {text : String}
    {segments : List (Segment α)} (h : readAll config target text = .ok segments) :
    segments = [] ↔ Groups.Hollow text := by
  rw [← Groups.ofText_eq_nil_iff, ← List.length_eq_zero_iff, ← List.length_eq_zero_iff,
    length_readEach h]

end Segment

namespace Animation

variable {α : Type} [Scalar α] [Eases α]

namespace Turn

def given (turn : Turn α) (times : List α) : List Nat :=
  (turn.history times).flatMap fun found => GroupBeat.signals found.beats

structure KeepsSignal (turn : Turn α) (signal : Nat) : Prop where
  withheld : GroupBeat.signals turn.beats = []
  unfinished : turn.animation.isFinished = false
  atMostOnce : ∀ times, (turn.given times).length ≤ 1
  given_of_finished : ∀ times now,
    ((turn.last times).next now).animation.status = .finished →
      turn.given (times ++ [now]) = [signal]

end Turn

theorem start_given (segment : Segment α) (rest : List (Segment α)) (target : Target α)
    (now : α) (signal : Option Nat) (times : List α) :
    ∃ track,
      ((start (segment :: rest) target now signal).last times).animation.tracks[0]? =
          some track ∧
        (start (segment :: rest) target now signal).given times =
          if track.isFinished then signal.toList else [] := by
  have hsegment : (segment :: rest)[0]? = some segment := rfl
  obtain ⟨track, htrack, run⟩ := start_run hsegment target now signal times
  refine ⟨track, htrack, ?_⟩
  have hsignals := run.signals
  rw [if_pos rfl] at hsignals
  rw [← hsignals, Turn.given, Beat.signals, List.filterMap_flatten, List.map_map, List.flatMap]
  congr 1
  apply List.map_congr_left
  intro found hmem
  exact signals_eq_first hmem

theorem start_keepsSignal (segment : Segment α) (rest : List (Segment α)) (target : Target α)
    (now : α) (signal : Nat) :
    (start (segment :: rest) target now (some signal)).KeepsSignal signal := by
  constructor
  case withheld =>
    obtain ⟨track, htrack, hgiven⟩ :=
      start_given segment rest target now (some signal) []
    have hfinished : track.isFinished = false := by
      cases htrack
      exact Track.start_isFinished ..
    simpa [hfinished, Turn.given, Turn.history, Turn.updates] using hgiven
  case unfinished =>
    rw [start, startFrom, isFinished, cons_tracks, List.all_cons, Track.start_isFinished]
    rfl
  case atMostOnce =>
    intro times
    obtain ⟨track, -, hgiven⟩ := start_given segment rest target now (some signal) times
    rw [hgiven]
    split <;> simp
  case given_of_finished =>
    intro times time hstatus
    obtain ⟨track, htrack, hgiven⟩ :=
      start_given segment rest target now (some signal) (times ++ [time])
    rw [← Turn.last_concat, Turn.status_eq_finished_iff] at hstatus
    have hzero := hstatus 0 (List.getElem?_eq_some_iff.mp htrack).1
    rw [Turn.groupFinished, htrack, Option.any_some] at hzero
    rw [hgiven, if_pos hzero]
    rfl

/-- A start keeps the signal unless the notation is hollow. -/
theorem launch_keepsSignal_iff {config : Config α} {target : Target α} {text : String} {now : α}
    {signal : Nat} {turn : Turn α} (h : launch config target text now (some signal) = .ok turn) :
    turn.KeepsSignal signal ↔ ¬ Groups.Hollow text := by
  obtain ⟨segments, hread, rfl⟩ := launch_ok h
  rw [← Segment.readAll_eq_nil_iff hread]
  cases segments with
  | nil =>
      constructor
      · intro hkeeps
        have hunfinished : true = false := hkeeps.unfinished
        cases hunfinished
      · intro hne
        exact absurd rfl hne
  | cons segment rest =>
      constructor
      · intro _
        exact List.cons_ne_nil segment rest
      · intro _
        exact start_keepsSignal segment rest target now signal

theorem launch_keepsSignal_of_two_groups :
    ∃ turn : Turn Float,
      launch Config.standard Target.standard "[x1o2|y3][,e7z]" 0 (some 7) = .ok turn ∧
      (turn.KeepsSignal 7 ↔ ¬ Groups.Hollow "[x1o2|y3][,e7z]") ∧
      ¬ Groups.Hollow "[x1o2|y3][,e7z]" := by
  have hok : (launch Config.standard (Target.standard : Target Float) "[x1o2|y3][,e7z]" 0
      (some 7)).isOk = true := by decide +kernel
  cases h : launch Config.standard (Target.standard : Target Float) "[x1o2|y3][,e7z]" 0
      (some 7) with
  | error full => simp [h, Except.isOk, Except.toBool] at hok
  | ok turn => exact ⟨turn, rfl, launch_keepsSignal_iff h, by decide⟩

/-- One blank in brackets: finished at the start, and no signal with the update
that says so. -/
theorem launch_loses_signal :
    ∃ turn : Turn Float,
      launch Config.standard Target.standard "[ ]" 0 (some 7) = .ok turn ∧
      turn.animation.isFinished = true ∧
      (turn.next 0).animation.status = .finished ∧
      turn.given [0] = [] :=
  ⟨_, rfl, rfl, rfl, rfl⟩

end Animation

end MotionNotation
