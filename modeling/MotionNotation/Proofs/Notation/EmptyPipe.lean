import MotionNotation.Description.Basic
import MotionNotation.Easing.Transcendental
import MotionNotation.Proofs.Notation.Capacity
import MotionNotation.Proofs.Playback.Rearrangement

/-!
# Empty pipes

A bar with nothing before it or behind it opens a pipe without actions.  Such a
pipe has no plan, no sentence and no event; all it does is to give the pipes
behind it a number more.
-/

namespace MotionNotation

namespace Grid

variable {α β : Type}

/-! ## Gaps -/

/-- An empty list at a place, where there is anything from there on. -/
def insertGap : Nat → List (List β) → List (List β)
  | _, [] => []
  | 0, first :: rest => [] :: first :: rest
  | gap + 1, first :: rest => first :: insertGap gap rest

def skip (gap index : Nat) : Nat :=
  if index < gap then index else index + 1

theorem skip_strictMono (gap : Nat) : StrictMono (skip gap) := by
  intro first second h
  unfold skip
  split <;> split <;> omega

theorem skip_of_le {gap index : Nat} (h : gap ≤ index) : skip gap index = index + 1 :=
  if_neg (Nat.not_lt.mpr h)

theorem insertGap_of_length_le {gap : Nat} {pipes : List (List β)} (h : pipes.length ≤ gap) :
    insertGap gap pipes = pipes := by
  induction gap, pipes using insertGap.induct with
  | case1 gap => simp [insertGap]
  | case2 first rest => simp at h
  | case3 gap first rest ih =>
      rw [List.length_cons] at h
      rw [insertGap, ih (by omega)]

theorem insertGap_zero_appendAt (pipes : List (List β)) (place : Nat) (item : β) :
    insertGap 0 (appendAt pipes place item) = [] :: appendAt pipes place item := by
  cases pipes <;> cases place <;> rfl

theorem insertGap_appendAt {gap place : Nat} (h : gap ≤ place) (pipes : List (List β))
    (item : β) :
    insertGap gap (appendAt pipes place item) =
      appendAt (insertGap gap pipes) (place + 1) item := by
  induction gap generalizing place pipes with
  | zero => cases pipes <;> rw [insertGap_zero_appendAt] <;> rfl
  | succ gap ih =>
      obtain ⟨place, rfl⟩ : ∃ before, place = before + 1 := ⟨place - 1, by omega⟩
      have hplace : gap ≤ place := by omega
      cases pipes with
      | nil => simpa [appendAt, insertGap] using ih hplace []
      | cons first rest => simpa [appendAt, insertGap] using ih hplace rest

theorem getElem?_insertGap (gap : Nat) (pipes : List (List β)) (index : Nat) :
    (insertGap gap pipes)[skip gap index]?.getD [] = pipes[index]?.getD [] := by
  induction gap, pipes using insertGap.induct generalizing index with
  | case1 gap => simp [insertGap]
  | case2 first rest => simp [insertGap, skip]
  | case3 gap first rest ih =>
      cases index with
      | zero => simp [insertGap, skip]
      | succ index =>
          have hskip : skip (gap + 1) (index + 1) = skip gap index + 1 := by
            unfold skip
            split <;> split <;> omega
          simpa [insertGap, hskip] using ih index

def gapped (gap : Nat) (grid : Grid α) : Grid α :=
  { grid with pipes := insertGap gap grid.pipes }

theorem pipe_gapped (gap : Nat) (grid : Grid α) (index : Nat) :
    (grid.gapped gap).pipe (skip gap index) = grid.pipe index :=
  getElem?_insertGap gap grid.pipes index

theorem gapped_of_length_le {gap : Nat} {grid : Grid α} (h : grid.pipes.length ≤ gap) :
    grid.gapped gap = grid := by
  rw [gapped, insertGap_of_length_le h]

theorem push_gapped {gap index : Nat} (past : gap ≤ index) {grid result : Grid α}
    {action : Action α} (h : (grid.gapped gap).push (index + 1) action = .ok result) :
    ∃ next, grid.push index action = .ok next ∧ result = next.gapped gap := by
  have hpipe := pipe_gapped gap grid index
  rw [skip_of_le past] at hpipe
  simp only [push, hpipe] at h
  split at h
  · rename_i hroom
    cases h
    have hindex : index < grid.maxPipes := Nat.lt_of_succ_lt hroom.1
    refine ⟨_, if_pos ⟨hindex, hroom.2⟩, ?_⟩
    rw [gapped, gapped, insertGap_appendAt past]
  · cases h

theorem length_push_le {grid result : Grid α} {index bound : Nat} {action : Action α}
    (h : grid.push index action = .ok result) (held : grid.pipes.length ≤ bound)
    (room : index < bound) : result.pipes.length ≤ bound := by
  simp only [push] at h
  split at h
  · cases h
    exact (length_appendAt_le_iff grid.pipes index action bound).mpr ⟨held, room⟩
  · cases h

theorem activePipes_gapped (gap : Nat) (grid : Grid α) :
    (grid.gapped gap).activePipes =
      grid.activePipes.map fun entry => (skip gap entry.1, entry.2) := by
  have hpipes : ∀ (gap place : Nat) (pipes : List (List (Action α))),
      (((insertGap gap pipes).zipIdx place).filter fun entry => !entry.1.isEmpty).map
          (fun entry => (entry.2, entry.1)) =
        ((pipes.zipIdx place).filter fun entry => !entry.1.isEmpty).map fun entry =>
          (skip (place + gap) entry.2, entry.1) := by
    intro gap place pipes
    induction gap, pipes using insertGap.induct generalizing place with
    | case1 gap => simp [insertGap]
    | case2 first rest =>
        rw [insertGap, List.zipIdx_cons, List.filter_cons_of_neg (by simp), List.zipIdx_succ,
          List.filter_map, List.map_map]
        apply List.map_congr_left
        intro entry hentry
        have hplace := List.le_snd_of_mem_zipIdx (List.mem_of_mem_filter hentry)
        rw [Nat.add_zero, skip_of_le hplace]
        rfl
    | case3 gap first rest ih =>
        have hskip : skip (place + (gap + 1)) place = place := if_pos (by omega)
        have hplace : place + (gap + 1) = place + 1 + gap := by omega
        simp only [insertGap, List.zipIdx_cons, List.filter_cons]
        split
        · rw [List.map_cons, List.map_cons, ih, hskip, hplace]
        · rw [ih, hplace]
  have hall := hpipes gap 0 grid.pipes
  rw [Nat.zero_add] at hall
  rw [activePipes, activePipes, gapped, hall, List.map_map]
  rfl

end Grid

/-! ## Bars -/

namespace Grammar

/-- One more bar, where it opens an empty pipe. -/
inductive Widened : String → String → Prop
  | between (front back : String) : Widened (front ++ "|" ++ back) (front ++ "||" ++ back)
  | before (back : String) : Widened back ("|" ++ back)
  | after (front : String) : Widened front (front ++ "|")

def tokens (text : String) : List Token :=
  (cut (Mark.letters text)).2

theorem cut_append_of_mark {c : Char} {mark : Mark} (h : Mark.ofChar? c = some mark)
    (front back : List Char) :
    (cut (front ++ c :: back)).1 = (cut front).1 ∧
      (cut (front ++ c :: back)).2 = (cut front).2 ++ ⟨mark, (cut back).1⟩ :: (cut back).2 := by
  induction front with
  | nil => simp [cut, h]
  | cons first rest ih =>
      obtain ⟨hdigits, htokens⟩ := ih
      rw [List.cons_append, cut, cut]
      cases Mark.ofChar? first with
      | none => simp [hdigits, htokens]
      | some found => simp [hdigits, htokens]

theorem tokens_bar (front back : String) :
    ∃ digits, tokens (front ++ "|" ++ back) =
      tokens front ++ ⟨.nextPipe, digits⟩ :: tokens back := by
  refine ⟨(cut (Mark.letters back)).1, ?_⟩
  have hletters : Mark.letters (front ++ "|" ++ back) =
      Mark.letters front ++ '|' :: Mark.letters back := by
    have hbar : Mark.counts '|' = true := by decide
    simp only [Mark.letters_eq, String.toList_append, List.filter_append]
    simp [hbar]
  have hmark : Mark.ofChar? '|' = some .nextPipe := rfl
  rw [tokens, hletters, (cut_append_of_mark hmark _ _).2]
  rfl

theorem tokens_before_bar (back : String) :
    ∃ digits, tokens ("|" ++ back) = ⟨.nextPipe, digits⟩ :: tokens back := by
  obtain ⟨digits, h⟩ := tokens_bar "" back
  exact ⟨digits, h⟩

end Grammar

namespace Grammar

variable {α : Type}

def State.advanced (state : State α) : State α :=
  { state with pipe := state.pipe + 1, held := 0 }

def State.Within (state : State α) : Prop :=
  state.grid.pipes.length ≤ state.pipe + 1

structure State.Gapped (gap : Nat) (first second : State α) : Prop where
  past : gap ≤ first.pipe
  grid : second.grid = first.grid.gapped gap
  pipe : second.pipe = first.pipe + 1
  held : second.held = first.held
  easing : second.easing = first.easing
  inverse : second.inverse = first.inverse

theorem exists_of_bind_ok {ε β γ : Type} {first : Except ε β} {next : β → Except ε γ} {result : γ}
    (h : (first >>= next) = .ok result) :
    ∃ middle, first = .ok middle ∧ next middle = .ok result := by
  cases first with
  | error failure => cases h
  | ok middle => exact ⟨middle, rfl, h⟩

variable [Scalar α] {config : Config α} {target : Target α}

theorem step_within {state next : State α} {token : Token} (within : state.Within)
    (h : step config target state token = .ok next) : next.Within := by
  obtain ⟨mark, digits⟩ := token
  cases mark with
  | invert =>
      cases h
      exact within
  | nextPipe =>
      cases h
      exact Nat.le_succ_of_le within
  | pause =>
      obtain ⟨grid, hgrid, hnext⟩ := exists_of_bind_ok h
      cases hnext
      unfold State.Within at within
      refine Grid.length_push_le hgrid ?_ (by simp only; omega)
      simp only
      split <;> omega
  | ease =>
      cases h
      exact within
  | act operator =>
      obtain ⟨grid, hgrid, hnext⟩ := exists_of_bind_ok h
      cases hnext
      exact Grid.length_push_le hgrid within (Nat.lt_succ_self _)

theorem step_gapped {gap : Nat} {first second next : State α} (h : first.Gapped gap second)
    {token : Token} (fits : step config target second token = .ok next) :
    ∃ found, step config target first token = .ok found ∧ found.Gapped gap next := by
  obtain ⟨mark, digits⟩ := token
  obtain ⟨past, hgrid, hpipe, hheld, heasing, hinverse⟩ := h
  cases mark with
  | invert =>
      cases fits
      exact ⟨_, rfl, past, hgrid, hpipe, hheld, heasing, rfl⟩
  | nextPipe =>
      cases fits
      refine ⟨_, rfl, Nat.le_succ_of_le past, hgrid, ?_, rfl, heasing, hinverse⟩
      rw [hpipe]
  | pause =>
      obtain ⟨grid, hpush, hnext⟩ := exists_of_bind_ok fits
      cases hnext
      have hplace : (if second.held = 0 then second.pipe else second.pipe + 1) =
          (if first.held = 0 then first.pipe else first.pipe + 1) + 1 := by
        rw [hheld, hpipe]
        split <;> rfl
      have hpast : gap ≤ if first.held = 0 then first.pipe else first.pipe + 1 := by
        split <;> omega
      rw [hgrid, hplace, heasing] at hpush
      obtain ⟨found, hfound, rfl⟩ := Grid.push_gapped hpast hpush
      refine ⟨{ first with
          grid := found
          pipe := (if first.held = 0 then first.pipe else first.pipe + 1) + 1
          held := 0 }, ?_, Nat.le_succ_of_le hpast, rfl, ?_, rfl, heasing, hinverse⟩
      · simp only [step, hfound]
        rfl
      · rw [hplace]
  | ease =>
      cases fits
      refine ⟨_, rfl, past, hgrid, hpipe, hheld, ?_, rfl⟩
      rw [heasing]
  | act operator =>
      obtain ⟨grid, hpush, hnext⟩ := exists_of_bind_ok fits
      cases hnext
      rw [hgrid, hpipe, heasing, hinverse] at hpush
      obtain ⟨found, hfound, rfl⟩ := Grid.push_gapped past hpush
      refine ⟨{ first with grid := found, held := first.held + 1, inverse := false }, ?_, past, rfl,
        hpipe, ?_, heasing, rfl⟩
      · simp only [step, hfound]
        rfl
      · rw [hheld]

theorem run_within {found : List Token} {state last : State α} (within : state.Within)
    (h : found.foldlM (step config target) state = .ok last) : last.Within := by
  induction found generalizing state with
  | nil =>
      cases h
      exact within
  | cons token rest ih =>
      obtain ⟨next, hnext, hrest⟩ := exists_of_bind_ok h
      exact ih (step_within within hnext) hrest

theorem run_gapped {gap : Nat} {first second last : State α} (h : first.Gapped gap second)
    {found : List Token} (fits : found.foldlM (step config target) second = .ok last) :
    ∃ state, found.foldlM (step config target) first = .ok state ∧ state.Gapped gap last := by
  induction found generalizing first second with
  | nil =>
      cases fits
      exact ⟨first, rfl, h⟩
  | cons token rest ih =>
      obtain ⟨next, hnext, hrest⟩ := exists_of_bind_ok fits
      obtain ⟨other, hother, hgapped⟩ := step_gapped h hnext
      obtain ⟨state, hstate, hlast⟩ := ih hgapped hrest
      refine ⟨state, ?_, hlast⟩
      rw [List.foldlM_cons, hother]
      exact hstate

theorem read_ok {text : String} {grid : Grid α} (h : read config target text = .ok grid) :
    ∃ state, (tokens text).foldlM (step config target) (start config) = .ok state ∧
      grid = state.grid := by
  obtain ⟨state, hstate, hgrid⟩ := exists_of_bind_ok h
  exact ⟨state, hstate, (Except.ok.inj hgrid).symm⟩

theorem read_of_run {text : String} {state : State α}
    (h : (tokens text).foldlM (step config target) (start config) = .ok state) :
    read config target text = .ok state.grid := by
  rw [tokens] at h
  rw [read, h]
  rfl

end Grammar

/-- A notation with an empty pipe reads to the grid without it, with a gap. -/
theorem Grid.read_widened {α : Type} [Scalar α] {config : Config α} {target : Target α}
    {text wider : String} (widened : Grammar.Widened text wider) {wide : Grid α}
    (h : Grid.read config target wider = .ok wide) :
    ∃ grid gap, Grid.read config target text = .ok grid ∧ wide = grid.gapped gap := by
  rw [Grid.read_eq_grammar] at h ⊢
  obtain ⟨last, hrun, rfl⟩ := Grammar.read_ok h
  cases widened with
  | between front back =>
      have hbars : front ++ "||" ++ back = front ++ "|" ++ ("|" ++ back) := by
        rw [← String.toList_inj]
        simp
      obtain ⟨digits, hwider⟩ := Grammar.tokens_bar front ("|" ++ back)
      obtain ⟨others, htext⟩ := Grammar.tokens_bar front back
      obtain ⟨inner, hback⟩ := Grammar.tokens_before_bar back
      rw [hbars, hwider, hback, List.foldlM_append] at hrun
      obtain ⟨middle, hmiddle, hrest⟩ := Grammar.exists_of_bind_ok hrun
      have within := Grammar.run_within (Nat.zero_le _) hmiddle
      have hgapped : middle.advanced.Gapped (middle.pipe + 1) middle.advanced.advanced :=
        ⟨Nat.le_refl _, (Grid.gapped_of_length_le within).symm, rfl, rfl, rfl, rfl⟩
      obtain ⟨state, hstate, hlast⟩ := Grammar.run_gapped hgapped hrest
      refine ⟨state.grid, _, Grammar.read_of_run ?_, hlast.grid⟩
      rw [htext, List.foldlM_append, hmiddle]
      exact hstate
  | before =>
      obtain ⟨digits, hwider⟩ := Grammar.tokens_before_bar text
      rw [hwider] at hrun
      have hgapped : (Grammar.start config).Gapped 0
          (Grammar.start config : Grammar.State α).advanced :=
        ⟨Nat.le_refl _, (Grid.gapped_of_length_le (Nat.le_refl _)).symm, rfl, rfl, rfl, rfl⟩
      obtain ⟨state, hstate, hlast⟩ := Grammar.run_gapped hgapped hrun
      exact ⟨state.grid, _, Grammar.read_of_run hstate, hlast.grid⟩
  | after =>
      obtain ⟨digits, hwider⟩ := Grammar.tokens_bar text ""
      rw [String.append_empty] at hwider
      rw [hwider, List.foldlM_append] at hrun
      obtain ⟨state, hstate, hrest⟩ := Grammar.exists_of_bind_ok hrun
      have hlast : last.grid = state.grid := by
        cases hrest
        rfl
      refine ⟨state.grid, state.grid.pipes.length, Grammar.read_of_run hstate, ?_⟩
      rw [hlast, Grid.gapped_of_length_le (Nat.le_refl _)]

/-! ## Notations without brackets -/

theorem Grammar.Widened.notMem {text wider : String} (widened : Widened text wider)
    (bare : '[' ∉ text.toList) : '[' ∉ wider.toList := by
  cases widened <;> simp_all

theorem Segment.readAll_of_notMem {α : Type} [Scalar α] {config : Config α} {target : Target α}
    {text : String} (bare : '[' ∉ text.toList) {grid : Grid α}
    (h : Grid.read config target text = .ok grid) :
    readAll config target text = .ok [grid.planned config] := by
  have hread : read config target text = .ok (grid.planned config) := by
    rw [read, h]
    rfl
  rw [readAll, Groups.ofText_of_notMem bare, readEach, hread]
  rfl

theorem Description.describe_of_notMem {config : Config Float} {target : Target Float}
    {text : String} (bare : '[' ∉ text.toList) {segment : Segment Float}
    (h : Segment.readAll config target text = .ok [segment]) :
    describe config target text = .ok (finalize (String.join [segment.describe target])) := by
  have hbracketed : Groups.bracketed text.toList = false := by
    simp [Groups.bracketed, bare]
  rw [describe, h]
  simp only [hbracketed]
  rfl

/-! ## Plans and sentences -/

theorem Plan.ofGrid_gapped {α : Type} [Scalar α] (config : Config α) (gap : Nat) (grid : Grid α) :
    (Plan.ofGrid config (grid.gapped gap)).pipes =
      (Plan.ofGrid config grid).pipes.map (.renumber (Grid.skip gap)) := by
  rw [Plan.ofGrid, Plan.ofGrid, Grid.activePipes_gapped, List.map_map, List.map_map]
  rfl

namespace Segment

theorem steps_gapped {α : Type} [Scalar α] (config : Config α) (gap : Nat) (grid : Grid α) :
    List.Forall₂ (Step.Mirrors (Grid.skip gap)) (grid.planned config).steps
      ((grid.gapped gap).planned config).steps := by
  rw [Segment.steps, Segment.steps, Grid.planned, Grid.planned, Plan.ofGrid_gapped]
  simp only [List.forall₂_map_left_iff, List.forall₂_map_right_iff]
  refine List.forall₂_same.mpr fun plan _ => ⟨rfl, ?_⟩
  have hpipe := grid.pipe_gapped gap plan.index
  simp only [PipePlan.renumber, hpipe]
  exact .refl _

theorem describe_gapped (config : Config Float) (gap : Nat) (grid : Grid Float)
    (target : Target Float) :
    ((grid.gapped gap).planned config).describe target =
      (grid.planned config).describe target := by
  have hsentences : ((grid.gapped gap).planned config).sentences target =
      (grid.planned config).sentences target := by
    rw [sentences, sentences, Grid.planned, Grid.planned, Plan.ofGrid_gapped, List.map_map]
    apply List.map_congr_left
    intro plan _
    simp only [Function.comp_apply, PipePlan.renumber, Grid.pipe_gapped]
    rfl
  rw [describe, describe, hsentences]

end Segment

namespace Animation

open Description (describe)

/-- A bar that opens an empty pipe changes nothing but the numbers of the pipes:
not what is described, not what is planned, and not what is played. -/
theorem launch_widened {text wider : String} (widened : Grammar.Widened text wider)
    (bare : '[' ∉ text.toList) {config : Config Float} {target : Target Float}
    {segments : List (Segment Float)}
    (fits : Segment.readAll config target wider = .ok segments) :
    ∃ first second rename,
      Segment.readAll config target text = .ok [first] ∧
      Segment.readAll config target wider = .ok [second] ∧
      StrictMono rename ∧
      second.plan.pipes = first.plan.pipes.map (.renumber rename) ∧
      (∃ description, describe config target text = .ok description ∧
        describe config target wider = .ok description) ∧
      ∀ now signal, ∃ turn other,
        launch config target text now signal = .ok turn ∧
        launch config target wider now signal = .ok other ∧
        ∀ times, (other.history times).map Turn.shown =
          (turn.history times).map fun found => found.shown.renumber rename := by
  have hbare := widened.notMem bare
  rw [Segment.readAll, Groups.ofText_of_notMem hbare] at fits
  obtain ⟨segment, others, hread, -, -⟩ := Segment.readEach_cons_ok fits
  obtain ⟨wide, hwide, rfl⟩ := Segment.read_ok hread
  obtain ⟨grid, gap, hgrid, rfl⟩ := Grid.read_widened widened hwide
  have hfirst := Segment.readAll_of_notMem bare hgrid
  have hsecond := Segment.readAll_of_notMem hbare hwide
  refine ⟨grid.planned config, (grid.gapped gap).planned config, Grid.skip gap, hfirst, hsecond,
    Grid.skip_strictMono gap, Plan.ofGrid_gapped config gap grid, ?_, fun now signal => ?_⟩
  · refine ⟨_, Description.describe_of_notMem bare hfirst, ?_⟩
    rw [Description.describe_of_notMem hbare hsecond, Segment.describe_gapped]
  · have hsteps : List.Forall₂ (fun segment other : Segment Float =>
        List.Forall₂ (Step.Mirrors (Grid.skip gap)) segment.steps other.steps)
        [grid.planned config] [(grid.gapped gap).planned config] :=
      .cons (Segment.steps_gapped config gap grid) .nil
    have hstart := startFrom_mirrors hsteps 0 signal target now
    refine ⟨_, _, ?_, ?_, fun times => hstart.history times⟩
    · rw [launch, hfirst]
      rfl
    · rw [launch, hsecond]
      rfl

theorem launch_widened_of_two_bars :
    ∃ segments : List (Segment Float),
      Grammar.Widened "x5|!y3,f0" "x5||!y3,f0" ∧
      '[' ∉ "x5|!y3,f0".toList ∧
      Segment.readAll Config.standard Target.standard "x5||!y3,f0" = .ok segments ∧
      ∃ (first second : Segment Float) (rename : Nat → Nat),
        Segment.readAll Config.standard Target.standard "x5|!y3,f0" = .ok [first] ∧
        Segment.readAll Config.standard Target.standard "x5||!y3,f0" = .ok [second] ∧
        StrictMono rename ∧
        second.plan.pipes = first.plan.pipes.map (.renumber rename) ∧
        (∃ description, describe Config.standard Target.standard "x5|!y3,f0" = .ok description ∧
          describe Config.standard Target.standard "x5||!y3,f0" = .ok description) ∧
        ∀ now signal, ∃ turn other : Turn Float,
          launch Config.standard Target.standard "x5|!y3,f0" now signal = .ok turn ∧
          launch Config.standard Target.standard "x5||!y3,f0" now signal = .ok other ∧
          ∀ times, (other.history times).map Turn.shown =
            (turn.history times).map fun found => found.shown.renumber rename := by
  have widened : Grammar.Widened "x5|!y3,f0" "x5||!y3,f0" := .between "x5" "!y3,f0"
  have bare : '[' ∉ "x5|!y3,f0".toList := by decide
  exact ⟨_, widened, bare, rfl, launch_widened widened bare rfl⟩

end Animation

end MotionNotation
