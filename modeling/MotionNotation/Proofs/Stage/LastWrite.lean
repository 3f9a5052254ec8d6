import Mathlib.Data.List.Basic
import Mathlib.Data.List.Induction
import MotionNotation.Document.Playback
import MotionNotation.Proofs.Stage.Exactness

/-!
# The last write of a cell

A report can be kept as one list of changes with an index of the places where
cells were written.  The index is not stored, so a report that was read knows no
places, and the first change of a cell that it holds already is appended.  As
long as that does not happen every cell is listed once, in the order of the first
writes and with the value of the last one.
-/

namespace MotionNotation

variable {α : Type}

section Lists

variable {β : Type} [BEq β] [LawfulBEq β] {items : List β}

theorem idxOf?_concat {item : β} (h : item ∉ items) (other : β) :
    (items ++ [item]).idxOf? other =
      if other == item then some items.length else items.idxOf? other := by
  rw [List.idxOf?, List.findIdx?_append, ← List.idxOf?]
  by_cases heq : other = item
  · subst heq
    simp [List.idxOf?_eq_none_iff.mpr h]
  · simp [heq, Ne.symm heq]

theorem eraseDups_concat (items : List β) (item : β) :
    (items ++ [item]).eraseDups =
      if item ∈ items then items.eraseDups else items.eraseDups ++ [item] := by
  rw [List.eraseDups_append]
  split
  · rename_i hmem
    simp [List.removeAll, hmem]
  · rename_i hmem
    simp [List.removeAll, hmem, List.eraseDups_cons]

theorem eraseDups_of_nodup (h : items.Nodup) : items.eraseDups = items := by
  induction items with
  | nil => rfl
  | cons item rest ih =>
      obtain ⟨hitem, hrest⟩ := List.nodup_cons.mp h
      have hfilter : rest.filter (fun other => !other == item) = rest := by
        rw [List.filter_eq_self]
        intro other hmem
        have hne : other ≠ item := fun heq => hitem (heq ▸ hmem)
        simpa using hne
      rw [List.eraseDups_cons, hfilter, ih hrest]

end Lists

namespace Report

inductive Call (α : Type) where
  | record (change : Change α)
  | tell (event : StageEvent α)
  | clear
  deriving DecidableEq, Repr

def answer (report : Report α) : Call α → Report α
  | .record change => report.record change
  | .tell event => report.tell event
  | .clear => report.clear

def answerAll (report : Report α) (calls : List (Call α)) : Report α :=
  calls.foldl answer report

end Report

/-! ## Places -/

structure Ledger (α : Type) where
  changes : List (Change α)
  events : List (StageEvent α)
  places : List ((TargetId × Channel) × Nat)
  deriving DecidableEq, Repr

namespace Ledger

/-- A place outside the list is a fault. -/
def record? (ledger : Ledger α) (change : Change α) : Option (Ledger α) :=
  match ledger.places.lookup change.cell with
  | some place =>
    ledger.changes[place]?.map fun found =>
      { ledger with changes := ledger.changes.set place { found with value := change.value } }
  | none =>
    some { ledger with
      changes := ledger.changes ++ [change]
      places := (change.cell, ledger.changes.length) :: ledger.places }

def answer? (ledger : Ledger α) : Report.Call α → Option (Ledger α)
  | .record change => ledger.record? change
  | .tell event => some { ledger with events := ledger.events ++ [event] }
  | .clear => some ⟨[], [], []⟩

def answerAll? (ledger : Ledger α) (calls : List (Report.Call α)) : Option (Ledger α) :=
  calls.foldlM answer? ledger

def placesFrom (place : Nat) : List (Change α) → List ((TargetId × Channel) × Nat)
  | [] => []
  | change :: rest => (change.cell, place) :: placesFrom (place + 1) rest

def ofReport (report : Report α) : Ledger α where
  changes := report.changes
  events := report.events
  places := placesFrom report.loaded.length report.written

structure Keeps (ledger : Ledger α) (report : Report α) : Prop where
  changes : ledger.changes = report.changes
  events : ledger.events = report.events
  places : ∀ cell, ledger.places.lookup cell =
    ((report.written.map Change.cell).idxOf? cell).map (report.loaded.length + ·)

theorem lookup_placesFrom (place : Nat) (changes : List (Change α))
    (cell : TargetId × Channel) :
    (placesFrom place changes).lookup cell =
      ((changes.map Change.cell).idxOf? cell).map (place + ·) := by
  induction changes generalizing place with
  | nil => rfl
  | cons change rest ih =>
      rw [placesFrom, List.lookup_cons, List.map_cons, List.idxOf?_cons, ih]
      by_cases h : cell = change.cell
      · simp [h]
      · have hne : (cell == change.cell) = false := by simpa using h
        have hswap : (change.cell == cell) = false := by simpa using Ne.symm h
        simp only [hne, hswap, Bool.false_eq_true, if_false, Option.map_map]
        congr 1
        funext index
        simp only [Function.comp_apply]
        omega

theorem ofReport_keeps (report : Report α) : (ofReport report).Keeps report :=
  ⟨rfl, rfl, lookup_placesFrom _ _⟩

end Ledger

namespace Change

theorem sameCell_iff (first second : Change α) :
    first.sameCell second = true ↔ first.cell = second.cell := by
  rw [← not_iff_not, Bool.not_eq_true, sameCell_eq_false_iff]

theorem record_append_of_notMem {first : List (Change α)} {change : Change α}
    (h : change.cell ∉ first.map cell) (second : List (Change α)) :
    record (first ++ second) change = first ++ record second change := by
  induction first with
  | nil => rfl
  | cons found rest ih =>
      rw [List.map_cons, List.mem_cons, not_or] at h
      have hfound : found.sameCell change = false :=
        (sameCell_eq_false_iff ..).mpr (Ne.symm h.1)
      simp [record, hfound, ih h.2]

theorem record_of_notMem {changes : List (Change α)} {change : Change α}
    (h : change.cell ∉ changes.map cell) : record changes change = changes ++ [change] := by
  simpa [record] using record_append_of_notMem h []

theorem record_of_idxOf? {changes : List (Change α)} {change : Change α} {place : Nat}
    (h : (changes.map cell).idxOf? change.cell = some place) :
    ∃ found, changes[place]? = some found ∧ found.cell = change.cell ∧
      record changes change = changes.set place { found with value := change.value } := by
  induction changes generalizing place with
  | nil => cases h
  | cons first rest ih =>
      rw [List.map_cons, List.idxOf?_cons] at h
      by_cases hfirst : first.cell = change.cell
      · rw [if_pos (by simpa using hfirst)] at h
        cases h
        have hsame := (sameCell_iff ..).mpr hfirst
        exact ⟨first, rfl, hfirst, by simp [record, hsame]⟩
      · rw [if_neg (by simpa using hfirst), Option.map_eq_some_iff] at h
        obtain ⟨before, hbefore, rfl⟩ := h
        obtain ⟨found, hfound, hcell, hrecord⟩ := ih hbefore
        have hother : first.sameCell change = false := (sameCell_eq_false_iff ..).mpr hfirst
        exact ⟨found, by simpa using hfound, hcell, by simp [record, hother, hrecord]⟩

theorem cells_set {changes : List (Change α)} {place : Nat} {found : Change α}
    (h : changes[place]? = some found) (value : α) :
    (changes.set place { found with value := value }).map cell = changes.map cell := by
  induction changes generalizing place with
  | nil => cases h
  | cons first rest ih =>
      cases place with
      | zero =>
          cases h
          rfl
      | succ place => simpa using ih h

theorem cells_record (changes : List (Change α)) (change : Change α) :
    (record changes change).map cell =
      if change.cell ∈ changes.map cell then changes.map cell
      else changes.map cell ++ [change.cell] := by
  split
  · rename_i hmem
    cases hplace : (changes.map cell).idxOf? change.cell with
    | none => exact absurd hmem (List.idxOf?_eq_none_iff.mp hplace)
    | some place =>
        obtain ⟨found, hfound, -, hrecord⟩ := record_of_idxOf? hplace
        rw [hrecord, cells_set hfound]
  · rename_i hmem
    rw [record_of_notMem hmem, List.map_append]
    rfl

end Change

namespace Ledger

variable {ledger : Ledger α} {report : Report α}

/-- A place that the index gives is a place of the list, so recording never fails. -/
theorem Keeps.record (h : ledger.Keeps report) (change : Change α) :
    ∃ next, ledger.record? change = some next ∧ next.Keeps (report.record change) := by
  unfold record?
  rw [h.places]
  cases hplace : (report.written.map Change.cell).idxOf? change.cell with
  | none =>
      have hnew := List.idxOf?_eq_none_iff.mp hplace
      have hrecord := Change.record_of_notMem hnew
      refine ⟨_, rfl, ?_, h.events, fun cell => ?_⟩
      · simp [Report.record, Report.changes, hrecord, h.changes]
      · rw [Report.record, hrecord, List.map_append, List.map_singleton, idxOf?_concat hnew,
          List.lookup_cons, h.places, h.changes]
        by_cases hcell : cell = change.cell
        · simp [hcell, Report.changes]
        · have hbeq : (cell == change.cell) = false := by simpa using hcell
          simp [hbeq]
  | some place =>
      obtain ⟨found, hfound, -, hrecord⟩ := Change.record_of_idxOf? hplace
      have hat : ledger.changes[report.loaded.length + place]? = some found := by
        rw [h.changes, Report.changes, List.getElem?_append_right (Nat.le_add_right ..),
          Nat.add_sub_cancel_left, hfound]
      simp only [Option.map_some, hat]
      refine ⟨_, rfl, ?_, h.events, fun cell => ?_⟩
      · simp only [h.changes, Report.changes, Report.record, hrecord]
        rw [List.set_append_right _ _ (Nat.le_add_right ..), Nat.add_sub_cancel_left]
      · rw [h.places, Report.record, hrecord, Change.cells_set hfound]

theorem Keeps.answer (h : ledger.Keeps report) (call : Report.Call α) :
    ∃ next, ledger.answer? call = some next ∧ next.Keeps (report.answer call) := by
  cases call with
  | record change => exact h.record change
  | tell event => exact ⟨_, rfl, h.changes, by rw [h.events]; rfl, h.places⟩
  | clear => exact ⟨_, rfl, rfl, rfl, fun _ => rfl⟩

theorem Keeps.answerAll (h : ledger.Keeps report) (calls : List (Report.Call α)) :
    ∃ last, ledger.answerAll? calls = some last ∧ last.Keeps (report.answerAll calls) := by
  induction calls generalizing ledger report with
  | nil => exact ⟨ledger, rfl, h⟩
  | cons call rest ih =>
      obtain ⟨next, hnext, hkeeps⟩ := h.answer call
      obtain ⟨last, hlast, hkept⟩ := ih hkeeps
      refine ⟨last, ?_, hkept⟩
      rw [answerAll?, List.foldlM_cons, hnext]
      exact hlast

end Ledger

/-! ## Last writes -/

namespace Change

structure LastWrites (told changes : List (Change α)) : Prop where
  once : (changes.map cell).Nodup
  order : changes.map cell = (told.map cell).eraseDups
  value : ∀ id channel, valueAt? changes id channel = valueAt? told.reverse id channel

theorem valueAt?_reverse {changes : List (Change α)} (once : (changes.map cell).Nodup)
    (id : TargetId) (channel : Channel) :
    valueAt? changes.reverse id channel = valueAt? changes id channel := by
  have honce : (changes.reverse.map cell).Nodup := by
    rw [List.map_reverse]
    exact List.nodup_reverse.mpr once
  by_cases hmem : (id, channel) ∈ changes.map cell
  · obtain ⟨change, hchange, hcell⟩ := List.mem_map.mp hmem
    cases hcell
    rw [valueAt?_of_mem once hchange, valueAt?_of_mem honce (List.mem_reverse.mpr hchange)]
  · have hreverse : (id, channel) ∉ changes.reverse.map cell := by
      rwa [List.map_reverse, List.mem_reverse]
    rw [(valueAt?_eq_none_iff ..).mpr hmem, (valueAt?_eq_none_iff ..).mpr hreverse]

theorem lastWrites_self {changes : List (Change α)} (once : (changes.map cell).Nodup) :
    LastWrites changes changes :=
  ⟨once, (eraseDups_of_nodup once).symm, fun id channel => (valueAt?_reverse once id channel).symm⟩

theorem LastWrites.record {told changes : List (Change α)} (h : LastWrites told changes)
    (change : Change α) : LastWrites (told ++ [change]) (Change.record changes change) := by
  have hmem : change.cell ∈ changes.map cell ↔ change.cell ∈ told.map cell := by
    rw [h.order, List.mem_eraseDups]
  refine ⟨?_, ?_, fun id channel => ?_⟩
  · exact (nodup_cells_iff _).mpr (record_distinct ((nodup_cells_iff _).mp h.once) change)
  · rw [cells_record, List.map_append, List.map_singleton, eraseDups_concat, ← h.order]
    simp only [hmem]
  · rw [valueAt?_record, h.value, List.reverse_append, List.reverse_singleton,
      List.singleton_append]
    by_cases hcell : change.target = id ∧ change.channel = channel
    · simp [valueAt?, hcell]
    · rw [if_neg hcell, valueAt?, valueAt?, List.find?_cons_of_neg (by simpa using hcell)]

theorem LastWrites.recordAll {told changes : List (Change α)} (h : LastWrites told changes)
    (pushed : List (Change α)) :
    LastWrites (told ++ pushed) (pushed.foldl Change.record changes) := by
  induction pushed generalizing told changes with
  | nil => simpa using h
  | cons change rest ih => simpa using ih (h.record change)

theorem mem_cells_recordAll (changes : List (Change α)) {pushed : List (Change α)}
    {change : Change α} (h : change ∈ pushed) :
    change.cell ∈ (pushed.foldl record changes).map cell := by
  induction pushed using List.reverseRecOn with
  | nil => cases h
  | append_singleton earlier last ih =>
      rw [List.foldl_concat, cells_record]
      rcases List.mem_append.mp h with hearlier | hlast
      · split
        · exact ih hearlier
        · exact List.mem_append_left _ (ih hearlier)
      · obtain rfl := List.mem_singleton.mp hlast
        split
        · assumption
        · exact List.mem_append_right _ List.mem_cons_self

theorem recordAll_append {loaded written pushed : List (Change α)}
    (apart : ∀ change ∈ pushed, change.cell ∉ loaded.map cell) :
    pushed.foldl record (loaded ++ written) = loaded ++ pushed.foldl record written := by
  induction pushed generalizing written with
  | nil => rfl
  | cons change rest ih =>
      rw [List.forall_mem_cons] at apart
      rw [List.foldl_cons, List.foldl_cons, record_append_of_notMem apart.1, ih apart.2]

end Change

/-! ## A report under calls -/

namespace Report

/-- What was recorded since the last clearing, behind what there was before. -/
def recordedSince (before : List (Change α)) : List (Call α) → List (Change α)
  | [] => before
  | .record change :: rest => recordedSince (before ++ [change]) rest
  | .tell _ :: rest => recordedSince before rest
  | .clear :: rest => recordedSince [] rest

def toldSince (before : List (StageEvent α)) : List (Call α) → List (StageEvent α)
  | [] => before
  | .record _ :: rest => toldSince before rest
  | .tell event :: rest => toldSince (before ++ [event]) rest
  | .clear :: rest => toldSince [] rest

theorem events_answerAll (report : Report α) (calls : List (Call α)) :
    (report.answerAll calls).events = toldSince report.events calls := by
  induction calls generalizing report with
  | nil => rfl
  | cons call rest ih =>
      rw [answerAll, List.foldl_cons, ← answerAll, ih]
      cases call <;> rfl

def Call.change? : Call α → Option (Change α)
  | .record change => some change
  | .tell _ | .clear => none

theorem recordedSince_of_notMem {calls : List (Call α)} (h : .clear ∉ calls)
    (before : List (Change α)) :
    recordedSince before calls = before ++ calls.filterMap Call.change? := by
  induction calls generalizing before with
  | nil => simp [recordedSince]
  | cons call rest ih =>
      rw [List.mem_cons, not_or] at h
      cases call with
      | record change => simp [recordedSince, ih h.2, Call.change?]
      | tell event =>
          rw [recordedSince, ih h.2, List.filterMap_cons_none rfl]
      | clear => exact absurd rfl h.1

theorem changes_answerAll_of_notMem {calls : List (Call α)} (h : .clear ∉ calls)
    (report : Report α) :
    (report.answerAll calls).changes =
      report.loaded ++ (calls.filterMap Call.change?).foldl Change.record report.written := by
  induction calls generalizing report with
  | nil => rfl
  | cons call rest ih =>
      rw [List.mem_cons, not_or] at h
      rw [answerAll, List.foldl_cons, ← answerAll, ih h.2]
      cases call with
      | record change => rfl
      | tell event => rfl
      | clear => exact absurd rfl h.1

theorem answerAll_of_mem {calls : List (Call α)} (h : .clear ∈ calls) :
    ∃ back, .clear ∉ back ∧ ∀ (report : Report α) (before : List (Change α)),
      report.answerAll calls = empty.answerAll back ∧
        recordedSince before calls = recordedSince [] back := by
  induction calls with
  | nil => cases h
  | cons call rest ih =>
      by_cases hrest : .clear ∈ rest
      · obtain ⟨back, hback, hsame⟩ := ih hrest
        refine ⟨back, hback, fun report before => ⟨(hsame (report.answer call) []).1, ?_⟩⟩
        cases call <;> exact (hsame report _).2
      · rcases List.mem_cons.mp h with rfl | hmem
        · exact ⟨rest, hrest, fun _ _ => ⟨rfl, rfl⟩⟩
        · exact absurd hmem hrest

theorem lastWrites_iff_of_notMem {report : Report α}
    (once : (report.changes.map Change.cell).Nodup) {calls : List (Call α)}
    (h : .clear ∉ calls) :
    Change.LastWrites (recordedSince report.changes calls) (report.answerAll calls).changes ↔
      ∀ change, .record change ∈ calls → change.cell ∉ report.loaded.map Change.cell := by
  rw [recordedSince_of_notMem h, changes_answerAll_of_notMem h]
  have hmem : ∀ change, change ∈ calls.filterMap Call.change? ↔ .record change ∈ calls := by
    intro change
    rw [List.mem_filterMap]
    constructor
    · rintro ⟨call, hcall, hchange⟩
      cases call <;> cases hchange
      exact hcall
    · exact fun hcall => ⟨_, hcall, rfl⟩
  simp only [← hmem]
  constructor
  · intro hlast change hpushed hloaded
    have hwritten := Change.mem_cells_recordAll report.written hpushed
    have honce := hlast.once
    rw [List.map_append] at honce
    exact List.disjoint_of_nodup_append honce hloaded hwritten
  · intro apart
    rw [← Change.recordAll_append apart]
    exact (Change.lastWrites_self once).recordAll _

/-- Calls never fail, and they leave the last writes unless one of them records a
cell that was read and is not cleared yet. -/
theorem lastWrites_iff {report : Report α} (once : (report.changes.map Change.cell).Nodup)
    (calls : List (Call α)) :
    ∃ last, (Ledger.ofReport report).answerAll? calls = some last ∧
      last.changes = (report.answerAll calls).changes ∧
      last.events = toldSince report.events calls ∧
      (Change.LastWrites (recordedSince report.changes calls) last.changes ↔
        .clear ∈ calls ∨
          ∀ change, .record change ∈ calls → change.cell ∉ report.loaded.map Change.cell) := by
  obtain ⟨last, hlast, hkeeps⟩ := (Ledger.ofReport_keeps report).answerAll calls
  refine ⟨last, hlast, hkeeps.changes, by rw [hkeeps.events, events_answerAll], ?_⟩
  rw [hkeeps.changes]
  by_cases hclear : .clear ∈ calls
  · obtain ⟨back, hback, hsame⟩ := answerAll_of_mem hclear
    have hempty : ((empty : Report α).changes.map Change.cell).Nodup := List.nodup_nil
    rw [(hsame report report.changes).1, (hsame report report.changes).2]
    simp only [hclear, true_or, iff_true]
    exact (lastWrites_iff_of_notMem hempty hback).mpr fun _ _ => List.not_mem_nil
  · rw [lastWrites_iff_of_notMem once hclear]
    simp [hclear]

theorem lastWrites_of_read :
    let told : Report Float := (empty.record ⟨⟨0⟩, .alpha, 1⟩).record ⟨⟨1⟩, .scale, 2⟩
    let beside : List (Call Float) :=
      [.record ⟨⟨1⟩, .alpha, 3⟩, .record ⟨⟨0⟩, .scale, 4⟩, .record ⟨⟨1⟩, .alpha, 5⟩]
    let again : List (Call Float) :=
      [.record ⟨⟨0⟩, .alpha, 3⟩, .clear, .record ⟨⟨0⟩, .alpha, 4⟩, .record ⟨⟨0⟩, .alpha, 5⟩]
    ∃ report, Document.decode? (Document.encode told) = some report ∧
      (report.changes.map Change.cell).Nodup ∧
      (∃ last, (Ledger.ofReport report).answerAll? beside = some last ∧
        Change.LastWrites (recordedSince report.changes beside) last.changes) ∧
      ∃ last, (Ledger.ofReport report).answerAll? again = some last ∧
        Change.LastWrites (recordedSince report.changes again) last.changes := by
  intro told beside again
  have once : ((⟨[⟨⟨0⟩, .alpha, 1⟩, ⟨⟨1⟩, .scale, 2⟩], [], []⟩ : Report Float).changes.map
      Change.cell).Nodup := by decide
  refine ⟨_, rfl, once, ?_, ?_⟩
  · obtain ⟨last, hlast, -, -, hwrites⟩ := lastWrites_iff once beside
    refine ⟨last, hlast, hwrites.mpr (.inr ?_)⟩
    simp [beside, Change.cell]
  · obtain ⟨last, hlast, -, -, hwrites⟩ := lastWrites_iff once again
    exact ⟨last, hlast, hwrites.mpr (.inl (by decide))⟩

theorem read_cell_listed_twice :
    ∃ report : Report Float,
      Document.decode? (Document.encode (empty.record (⟨⟨0⟩, .alpha, 1⟩ : Change Float))) =
        some report ∧
      (report.changes.map Change.cell).Nodup ∧
      ∃ last, (Ledger.ofReport report).answerAll? [.record ⟨⟨0⟩, .alpha, 2⟩] = some last ∧
        last.changes = [⟨⟨0⟩, .alpha, 1⟩, ⟨⟨0⟩, .alpha, 2⟩] ∧
        ¬ Change.LastWrites (recordedSince report.changes [.record ⟨⟨0⟩, .alpha, 2⟩])
          last.changes := by
  refine ⟨_, rfl, by decide, _, rfl, rfl, fun h => ?_⟩
  exact absurd h.once (by decide)

end Report

end MotionNotation
