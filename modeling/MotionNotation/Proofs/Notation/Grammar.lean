import Mathlib.Data.List.TakeWhile
import MotionNotation.Notation.Reader
import MotionNotation.Proofs.Notation.Bytes

/-!
# The grammar of notations

What a notation means, told without a cursor.  The bytes that count are cut into
marks, each with the number characters behind it, and the marks act one after
the other on a state that knows how many actions the current pipe holds.  The
reader, which walks over the characters and skips as it goes, comes to the same
grid and fails at the same place.
-/

namespace MotionNotation

namespace Grammar

structure Token where
  mark : Mark
  digits : List Char
  deriving DecidableEq, Repr

/-- What stands before the first mark, and the tokens. -/
def cut : List Char → List Char × List Token
  | [] => ([], [])
  | c :: rest =>
    match Mark.ofChar? c with
    | none => (c :: (cut rest).1, (cut rest).2)
    | some mark => ([], ⟨mark, (cut rest).1⟩ :: (cut rest).2)

def Token.text (token : Token) : List Char :=
  token.mark.symbol :: token.digits

theorem text_cut (letters : List Char) :
    (cut letters).1 ++ (cut letters).2.flatMap Token.text = letters := by
  induction letters with
  | nil => rfl
  | cons c rest ih =>
      rw [cut]
      cases hmark : Mark.ofChar? c with
      | none => simp [ih]
      | some mark => simp [Token.text, Mark.symbol_of_ofChar? hmark, ih]

theorem cut_fst (letters : List Char) :
    (cut letters).1 = letters.takeWhile fun c => !Mark.isMark c := by
  induction letters with
  | nil => rfl
  | cons c rest ih =>
      rw [cut]
      cases hmark : Mark.ofChar? c with
      | none => simp [Mark.isMark, hmark, ih]
      | some mark => simp [Mark.isMark, hmark]

theorem digits_unmarked (letters : List Char) :
    ∀ token ∈ (cut letters).2, ∀ c ∈ token.digits, Mark.isMark c = false := by
  induction letters with
  | nil => simp [cut]
  | cons c rest ih =>
      rw [cut]
      cases hmark : Mark.ofChar? c with
      | none => exact ih
      | some mark =>
          intro token hmem found hfound
          rcases List.mem_cons.mp hmem with rfl | hmem
          · rw [cut_fst] at hfound
            simpa using List.mem_takeWhile_imp hfound
          · exact ih token hmem found hfound

section Value

variable {α : Type} [Scalar α]

def tenfold (value : α) (c : Char) : α :=
  value * 10 + Scalar.ofNat (Tally.digitValue c)

def fractional (sum : α × α) (c : Char) : α × α :=
  (sum.1 + Scalar.ofNat (Tally.digitValue c) / sum.2, sum.2 * 10)

/-- The value of digits with a point among them.  All that is neither a digit
nor the first point counts nothing. -/
def magnitude (digits : List Char) : α :=
  let whole := (digits.takeWhile (· != '.')).filter Char.isDigit
  let behind := (digits.dropWhile (· != '.')).filter Char.isDigit
  (behind.foldl fractional (whole.foldl tenfold 0, 10)).1

def signed : List Char → α
  | '-' :: digits => -magnitude digits
  | '+' :: digits => magnitude digits
  | digits => magnitude digits

def literal? (digits : List Char) : Option α :=
  if digits.isEmpty then none
  else if Scalar.isFinite (signed digits : α) then some (signed digits)
  else none

/-- The easing at the truncated value, which is zero already above minus one. -/
def easingAt? (value : α) : Option Easing :=
  if -1 < value ∧ value < 22 then Easing.atPlace? (Scalar.wholePart value) else none

end Value

structure State (α : Type) where
  grid : Grid α
  pipe : Nat
  held : Nat
  easing : Easing
  inverse : Bool
  deriving DecidableEq, Repr

variable {α : Type} [Scalar α]

def start (config : Config α) : State α where
  grid := .empty config.maxPipes config.maxActions
  pipe := 0
  held := 0
  easing := config.initialEasing
  inverse := false

/-- The number behind a mark counts for easings and operators only. -/
def step (config : Config α) (target : Target α) (state : State α) (token : Token) :
    Except CapacityExceeded (State α) :=
  match token.mark with
  | .invert => .ok { state with inverse := true }
  | .nextPipe => .ok { state with pipe := state.pipe + 1, held := 0 }
  | .pause => do
    let pipe := if state.held = 0 then state.pipe else state.pipe + 1
    let grid ← state.grid.push pipe (.pause config.pauseDuration state.easing)
    return { state with grid, pipe := pipe + 1, held := 0 }
  | .ease =>
    let selected := (literal? token.digits : Option α).bind easingAt?
    .ok { state with easing := selected.getD state.easing, inverse := false }
  | .act operator => do
    let literal := literal? token.digits
    let action := Action.resolve operator state.inverse literal state.easing target config
    let grid ← state.grid.push state.pipe action
    return { state with grid, held := state.held + 1, inverse := false }

def read (config : Config α) (target : Target α) (text : String) :
    Except CapacityExceeded (Grid α) := do
  let state ← (cut (Mark.letters text)).2.foldlM (step config target) (start config)
  return state.grid

end Grammar

/-! ## Numbers -/

namespace Tally

variable {α : Type} [Scalar α]

theorem feed_of_not_number {c : Char} (h : Mark.isNumberChar c = false) (tally : Tally α) :
    tally.feed c = tally := by
  simp only [Mark.isNumberChar, Bool.or_eq_false_iff, beq_eq_false_iff_ne] at h
  obtain ⟨⟨⟨hdigit, -⟩, -⟩, hpoint⟩ := h
  simp [feed, hdigit, hpoint]

theorem foldl_feed_fractional (value divisor : α) (digits : List Char) :
    (digits.foldl feed ⟨value, true, divisor⟩).value =
      ((digits.filter Char.isDigit).foldl Grammar.fractional (value, divisor)).1 := by
  induction digits generalizing value divisor with
  | nil => rfl
  | cons c rest ih =>
      rw [List.foldl_cons]
      by_cases hdigit : c.isDigit = true
      · have hfeed : feed ⟨value, true, divisor⟩ c =
            ⟨(Grammar.fractional (value, divisor) c).1, true,
              (Grammar.fractional (value, divisor) c).2⟩ := by
          simp [feed, hdigit, Grammar.fractional]
        rw [hfeed, ih, List.filter_cons_of_pos hdigit, List.foldl_cons]
      · have hfeed : feed ⟨value, true, divisor⟩ c = ⟨value, true, divisor⟩ := by
          by_cases hpoint : c = '.' <;> simp [feed, hdigit, hpoint]
        rw [hfeed, ih, List.filter_cons_of_neg hdigit]

theorem foldl_feed_whole (value : α) (digits : List Char) :
    (digits.foldl feed ⟨value, false, 10⟩).value =
      (((digits.dropWhile (· != '.')).filter Char.isDigit).foldl Grammar.fractional
        (((digits.takeWhile (· != '.')).filter Char.isDigit).foldl Grammar.tenfold value,
          10)).1 := by
  induction digits generalizing value with
  | nil => rfl
  | cons c rest ih =>
      rw [List.foldl_cons]
      by_cases hpoint : c = '.'
      · subst hpoint
        have hfeed : feed (⟨value, false, 10⟩ : Tally α) '.' = ⟨value, true, 10⟩ := rfl
        rw [hfeed, foldl_feed_fractional]
        rfl
      · have hbefore : (c != '.') = true := by simpa using hpoint
        simp only [List.takeWhile_cons, List.dropWhile_cons, hbefore, if_true]
        by_cases hdigit : c.isDigit = true
        · have hfeed : feed ⟨value, false, 10⟩ c = ⟨Grammar.tenfold value c, false, 10⟩ := by
            simp [feed, hdigit, Grammar.tenfold]
          rw [hfeed, ih, List.filter_cons_of_pos hdigit, List.foldl_cons]
        · have hfeed : feed (⟨value, false, 10⟩ : Tally α) c = ⟨value, false, 10⟩ := by
            simp [feed, hdigit, hpoint]
          rw [hfeed, ih, List.filter_cons_of_neg hdigit]

theorem foldl_feed_start (digits : List Char) :
    (digits.foldl feed (start : Tally α)).value = Grammar.magnitude digits :=
  foldl_feed_whole 0 digits

theorem read_value (tally : Tally α) (text : List Char) :
    (tally.read text).1 =
      (Grammar.cut (text.filter Mark.counts)).1.foldl feed tally := by
  induction text generalizing tally with
  | nil => rfl
  | cons c rest ih =>
      by_cases hmark : Mark.isMark c = true
      · obtain ⟨mark, hsome⟩ := Option.isSome_iff_exists.mp hmark
        rw [List.filter_cons_of_pos (by simp [Mark.counts, hmark])]
        simp [read, hmark, Grammar.cut, hsome]
      · have hnone : Mark.ofChar? c = none := by simpa [Mark.isMark] using hmark
        rw [read, if_neg hmark, ih]
        by_cases hnumber : Mark.isNumberChar c = true
        · rw [List.filter_cons_of_pos (by simp [Mark.counts, hnumber])]
          simp [Grammar.cut, hnone]
        · rw [List.filter_cons_of_neg (by simp [Mark.counts, hmark, hnumber]),
            feed_of_not_number (by simpa using hnumber)]

end Tally

namespace Literal

variable {α : Type} [Scalar α]

theorem readNumber_value {c : Char} (hmark : Mark.isMark c = false) (text : List Char) :
    (readNumber (c :: text) : α × List Char).1 =
      Grammar.signed (c :: (Grammar.cut (text.filter Mark.counts)).1) := by
  by_cases hminus : c = '-'
  · subst hminus
    simp only [readNumber, Grammar.signed]
    rw [Tally.read_value, Tally.foldl_feed_start]
  · by_cases hplus : c = '+'
    · subst hplus
      simp only [readNumber, Grammar.signed]
      rw [Tally.read_value, Tally.foldl_feed_start]
    · have hsigned : ∀ digits, (Grammar.signed (c :: digits) : α) =
          Grammar.magnitude (c :: digits) := by
        intro digits
        simp [Grammar.signed, hminus, hplus]
      have hread : (readNumber (c :: text) : α × List Char).1 =
          ((Tally.start : Tally α).read (c :: text)).1.value := by
        simp [readNumber, hminus, hplus]
      rw [hsigned, hread, Tally.read, if_neg (by simp [hmark]), Tally.read_value,
        ← Tally.foldl_feed_start, List.foldl_cons]

theorem value?_find (text : List Char) :
    (find text : Literal α).value? =
      Grammar.literal? (Grammar.cut (text.filter Mark.counts)).1 := by
  induction text with
  | nil => rfl
  | cons c rest ih =>
      by_cases hmark : Mark.isMark c = true
      · obtain ⟨mark, hsome⟩ := Option.isSome_iff_exists.mp hmark
        rw [List.filter_cons_of_pos (by simp [Mark.counts, hmark])]
        simp [find, hmark, Grammar.cut, hsome, value?, Grammar.literal?]
      · have hnone : Mark.ofChar? c = none := by simpa [Mark.isMark] using hmark
        rw [find, if_neg hmark]
        by_cases hnumber : Mark.isNumberChar c = true
        · rw [List.filter_cons_of_pos (by simp [Mark.counts, hnumber]), if_pos hnumber,
            readNumber_value (by simpa using hmark)]
          simp only [Grammar.cut, hnone, Grammar.literal?, List.isEmpty_cons, ofValue]
          split <;> simp_all [value?]
        · rw [List.filter_cons_of_neg (by simp [Mark.counts, hmark, hnumber]), if_neg hnumber, ih]

end Literal

/-! ## The reader -/

namespace Reader

variable {α : Type}

def state (reader : Reader α) : Grammar.State α where
  grid := reader.grid
  pipe := reader.pipe
  held := (reader.grid.pipe reader.pipe).length
  easing := reader.easing
  inverse := reader.inverse

@[simp] theorem state_grid (reader : Reader α) : reader.state.grid = reader.grid := rfl

@[simp] theorem state_pipe (reader : Reader α) : reader.state.pipe = reader.pipe := rfl

@[simp] theorem state_easing (reader : Reader α) : reader.state.easing = reader.easing := rfl

@[simp] theorem state_inverse (reader : Reader α) : reader.state.inverse = reader.inverse := rfl

def Ahead (reader : Reader α) : Prop :=
  ∀ later, reader.pipe < later → reader.grid.pipe later = []

theorem pausePipe_eq (reader : Reader α) :
    reader.pausePipe = if reader.state.held = 0 then reader.pipe else reader.pipe + 1 := by
  simp only [pausePipe, state, List.isEmpty_iff_length_eq_zero, List.length_eq_zero_iff]

theorem le_pausePipe (reader : Reader α) : reader.pipe ≤ reader.pausePipe := by
  unfold pausePipe
  split <;> omega

theorem pipe_push_later {grid next : Grid α} {index : Nat} {action : Action α}
    (h : grid.push index action = .ok next) {later : Nat} (hlater : index < later) :
    next.pipe later = grid.pipe later := by
  rw [Grid.pipe_push h, if_neg (Nat.ne_of_gt hlater)]

theorem start_ahead (config : Config α) : (Reader.start config).Ahead :=
  fun _ _ => rfl

variable [Scalar α]

theorem step_ahead {reader next : Reader α} (ahead : reader.Ahead) {config : Config α}
    {target : Target α} {mark : Mark} {literal : Literal α}
    (h : reader.step config target mark literal = .ok next) : next.Ahead := by
  cases mark with
  | invert =>
      cases h
      exact ahead
  | nextPipe =>
      cases h
      intro later hlater
      exact ahead later (Nat.lt_of_succ_lt hlater)
  | pause =>
      simp only [step] at h
      split at h
      · rename_i grid hpush
        cases h
        intro later hlater
        have hpipe := reader.le_pausePipe
        rw [pipe_push_later hpush (Nat.lt_of_succ_lt hlater)]
        exact ahead later (by simp only at hlater; omega)
      · cases h
  | ease =>
      cases h
      exact ahead
  | act operator =>
      simp only [step] at h
      split at h
      · rename_i grid hpush
        cases h
        intro later hlater
        rw [pipe_push_later hpush hlater]
        exact ahead later hlater
      · cases h

/-- A mark does to a reader what its token does to the state. -/
theorem step_state {reader : Reader α} (ahead : reader.Ahead) (config : Config α)
    (target : Target α) {literal : Literal α} (token : Grammar.Token)
    (hliteral : literal.value? = Grammar.literal? token.digits) :
    (reader.step config target token.mark literal).map state =
      Grammar.step config target reader.state token := by
  obtain ⟨mark, digits⟩ := token
  cases mark with
  | invert => rfl
  | nextPipe =>
      have hnext : reader.grid.pipe (reader.pipe + 1) = [] := ahead _ (Nat.lt_succ_self _)
      simp [step, Grammar.step, Except.map, state, hnext]
  | pause =>
      simp only [step, Grammar.step, state_grid, state_easing, state_pipe]
      rw [← pausePipe_eq]
      cases hpush : reader.grid.push reader.pausePipe
          (.pause config.pauseDuration reader.easing) with
      | error full => rfl
      | ok grid =>
          have hnext : grid.pipe (reader.pausePipe + 1) = [] := by
            rw [pipe_push_later hpush (Nat.lt_succ_self _)]
            exact ahead _ (Nat.lt_succ_of_le reader.le_pausePipe)
          simp only [Except.map, state, hnext]
          rfl
  | ease =>
      have heasing : (literal.value?.bind easingAt?) =
          (Grammar.literal? digits : Option α).bind Grammar.easingAt? := by
        rw [hliteral]
        rfl
      simp only [step, Grammar.step, Except.map, selectEasing, heasing]
      rfl
  | act operator =>
      simp only [step, Grammar.step, hliteral, state_grid, state_easing, state_pipe,
        state_inverse]
      cases hpush : reader.grid.push reader.pipe (Action.resolve operator reader.inverse
          (Grammar.literal? digits) reader.easing target config) with
      | error full => rfl
      | ok grid =>
          have hheld : (grid.pipe reader.pipe).length =
              (reader.grid.pipe reader.pipe).length + 1 := by
            rw [Grid.pipe_push hpush, if_pos rfl, List.length_append]
            rfl
          simp only [Except.map, state, hheld]
          rfl

theorem run_state {reader : Reader α} (ahead : reader.Ahead) (config : Config α)
    (target : Target α) (text : List Char) :
    (reader.run config target text).map state =
      (Grammar.cut (text.filter Mark.counts)).2.foldlM (Grammar.step config target)
        reader.state := by
  induction text generalizing reader with
  | nil => rfl
  | cons c rest ih =>
      rw [run]
      cases hmark : Mark.ofChar? c with
      | none =>
          by_cases hcounts : Mark.counts c = true
          · rw [List.filter_cons_of_pos hcounts, Grammar.cut, hmark]
            exact ih ahead
          · rw [List.filter_cons_of_neg hcounts]
            exact ih ahead
      | some mark =>
          have hcounts : Mark.counts c = true := by simp [Mark.counts, Mark.isMark, hmark]
          rw [List.filter_cons_of_pos hcounts, Grammar.cut, hmark]
          simp only [List.foldlM_cons]
          have hstep := step_state ahead config target
            ⟨mark, (Grammar.cut (rest.filter Mark.counts)).1⟩
            (Literal.value?_find rest)
          rw [← hstep]
          cases hnext : reader.step config target mark (Literal.find rest) with
          | error full => rfl
          | ok next => exact ih (step_ahead ahead hnext)

end Reader

/-- The reader comes to the grid of the grammar, for every notation, config and
target, and refuses what the grammar refuses in the same words. -/
theorem Grid.read_eq_grammar {α : Type} [Scalar α] (config : Config α) (target : Target α)
    (text : String) : Grid.read config target text = Grammar.read config target text := by
  have hrun := Reader.run_state (Reader.start_ahead config) config target text.toList
  rw [← Mark.letters_eq] at hrun
  have hstart : (Reader.start config).state = Grammar.start config := rfl
  rw [hstart] at hrun
  rw [Grid.read, Grammar.read, ← hrun]
  cases (Reader.start config).run config target text.toList <;> rfl

end MotionNotation
