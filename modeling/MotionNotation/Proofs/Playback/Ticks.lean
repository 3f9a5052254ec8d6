import MotionNotation.Proofs.Playback.Score
import MotionNotation.Proofs.Rounding.Sign

/-!
# Ticks

What a timer tells over any list of times, and what becomes of it.  It may have
been started or read from a document, and the times may be anything: they only
decide when a run is over, not what can be told after what.
-/

namespace MotionNotation

namespace Timer

variable {α : Type}

/-! ## Words of ticks -/

namespace Tick

def isLooped : Tick α → Bool
  | looped => true
  | progress _ | completed | idle => false

def goesOn : Tick α → Bool
  | progress _ | looped => true
  | completed | idle => false

/-- All ticks of a timer that begins its last run after some others: the ends of
these among any progress, the completion, and silence. -/
def Word (loops : Nat) (word : List (Tick α)) : Prop :=
  ∃ running silence, word = running ++ .completed :: List.replicate silence .idle ∧
    (∀ tick ∈ running, tick.goesOn = true) ∧ running.countP isLooped = loops

theorem Word.progress {loops : Nat} {word : List (Tick α)} (h : Word loops word) (value : α) :
    Word loops (.progress value :: word) := by
  obtain ⟨running, silence, rfl, hrunning, hloops⟩ := h
  refine ⟨.progress value :: running, silence, rfl, ?_, ?_⟩
  · exact List.forall_mem_cons.mpr ⟨rfl, hrunning⟩
  · rw [List.countP_cons_of_neg Bool.false_ne_true, hloops]

theorem Word.looped {loops : Nat} {word : List (Tick α)} (h : Word loops word) :
    Word (loops + 1) (.looped :: word) := by
  obtain ⟨running, silence, rfl, hrunning, hloops⟩ := h
  refine ⟨.looped :: running, silence, rfl, ?_, ?_⟩
  · exact List.forall_mem_cons.mpr ⟨rfl, hrunning⟩
  · rw [List.countP_cons_of_pos rfl, hloops]

theorem word_completed (silence : Nat) :
    Word 0 (.completed :: List.replicate silence .idle : List (Tick α)) :=
  ⟨[], silence, rfl, by simp, rfl⟩

theorem exists_word (loops : Nat) : ∃ word : List (Tick α), Word loops word := by
  induction loops with
  | zero => exact ⟨_, word_completed 0⟩
  | succ loops ih =>
      obtain ⟨word, hword⟩ := ih
      exact ⟨_, hword.looped⟩

end Tick

/-! ## Runs of a timer -/

variable [Scalar α]

def ticks (timer : Timer α) : List α → List (Tick α)
  | [] => []
  | now :: rest => (timer.advance now).1 :: (timer.advance now).2.ticks rest

def last (timer : Timer α) (times : List α) : Timer α :=
  times.foldl (fun current now => (current.advance now).2) timer

theorem last_cons (timer : Timer α) (now : α) (rest : List α) :
    timer.last (now :: rest) = (timer.advance now).2.last rest := rfl

theorem last_append (timer : Timer α) (first second : List α) :
    timer.last (first ++ second) = (timer.last first).last second :=
  List.foldl_append

theorem exists_of_mem_ticks {timer : Timer α} {times : List α} {tick : Tick α}
    (h : tick ∈ timer.ticks times) :
    ∃ earlier now, ((timer.last earlier).advance now).1 = tick := by
  induction times generalizing timer with
  | nil => cases h
  | cons now rest ih =>
      rcases List.mem_cons.mp h with rfl | h
      · exact ⟨[], now, rfl⟩
      · obtain ⟨earlier, later, hlater⟩ := ih h
        exact ⟨now :: earlier, later, hlater⟩

theorem of_completed {timer : Timer α} (h : timer.state = .completed) (times : List α) :
    timer.ticks times = List.replicate times.length .idle ∧ timer.last times = timer := by
  induction times with
  | nil => exact ⟨rfl, rfl⟩
  | cons now rest ih =>
      rw [ticks, last_cons, advance_of_completed h, ih.1]
      exact ⟨rfl, ih.2⟩

structure Steps (timer : Timer α) (now : α) : Prop where
  progress : ∀ value, (timer.advance now).1 = .progress value →
    (timer.advance now).2 = timer
  looped : (timer.advance now).1 = .looped →
    timer.remaining.Follows (timer.advance now).2.remaining
  kept : (timer.advance now).1 ≠ .looped → (timer.advance now).2.remaining = timer.remaining
  completed : (timer.advance now).1 = .completed → (timer.advance now).2.state = .completed

theorem advance_steps (timer : Timer α) (now : α) : timer.Steps now := by
  cases hstate : timer.state with
  | completed =>
      have hadvance := advance_of_completed hstate now
      constructor <;> simp [hadvance]
  | running =>
      have hanswer := advance_answer hstate now
      generalize hreply : timer.advance now = reply at hanswer
      cases hanswer with
      | goesOn early => constructor <;> simp [hreply]
      | restarts late follows => constructor <;> simp [hreply, restart, follows]
      | ends late counted last => constructor <;> simp [hreply]

/-! ## What is told -/

theorem mem_progress {timer : Timer Float} {times : List Float} {value : Float}
    (h : .progress value ∈ timer.ticks times) :
    0 ≤ value ∧ value < 1 ∧ value.isNaN = false := by
  obtain ⟨earlier, now, htick⟩ := exists_of_mem_ticks h
  cases hstate : (timer.last earlier).state with
  | completed =>
      rw [advance_of_completed hstate] at htick
      cases htick
  | running =>
      have hanswer := advance_answer hstate now
      generalize (timer.last earlier).advance now = reply at hanswer htick
      cases hanswer with
      | restarts => cases htick
      | ends => cases htick
      | goesOn early =>
          obtain rfl : (timer.last earlier).progress now = value := Tick.progress.inj htick
          have hclamp : (timer.last earlier).progress now = Scalar.clampNonneg
              ((now - (timer.last earlier).begins) /
                ((timer.last earlier).ends - (timer.last earlier).begins)) := by
            unfold progress at early ⊢
            split
            · rename_i hempty
              rw [if_pos hempty] at early
              exact absurd early (by decide)
            · rfl
          obtain ⟨hnonneg, hnan⟩ := Scalar.clampNonneg_nonneg
            ((now - (timer.last earlier).begins) /
              ((timer.last earlier).ends - (timer.last earlier).begins))
          rw [← hclamp] at hnonneg hnan
          exact ⟨hnonneg, early, hnan⟩

theorem ticks_prefix {timer : Timer α} {count : Nat} (running : timer.state = .running)
    (counted : timer.remaining = .finite count) (times : List α) :
    ∃ word, Tick.Word (max count 1 - 1) word ∧ timer.ticks times <+: word := by
  induction times generalizing timer count with
  | nil =>
      obtain ⟨word, hword⟩ := Tick.exists_word (α := α) (max count 1 - 1)
      exact ⟨word, hword, List.nil_prefix⟩
  | cons now rest ih =>
      have hanswer := advance_answer running now
      rw [ticks]
      generalize timer.advance now = reply at hanswer
      cases hanswer with
      | goesOn early =>
          obtain ⟨word, hword, hprefix⟩ := ih running counted
          exact ⟨_, hword.progress _, (List.prefix_cons_inj _).mpr hprefix⟩
      | @restarts remaining late follows =>
          rw [counted] at follows
          cases follows with
          | counted hmany =>
              obtain ⟨word, hword, hprefix⟩ :=
                @ih ({ timer with remaining := .finite (count - 1) }.restart now) _ running rfl
              have hloops : max count 1 - 1 = max (count - 1) 1 - 1 + 1 := by omega
              rw [hloops]
              exact ⟨_, hword.looped, (List.prefix_cons_inj _).mpr hprefix⟩
      | @ends found late found_counted last =>
          obtain rfl : count = found := Repetition.finite.inj (counted.symm.trans found_counted)
          have hzero : max count 1 - 1 = 0 := by omega
          have hcompleted : ({ timer with state := .completed } : Timer α).state = .completed := rfl
          have hsilent := (of_completed hcompleted rest).1
          rw [hzero, hsilent]
          exact ⟨_, Tick.word_completed _, List.prefix_rfl⟩

theorem completed_notMem_ticks {timer : Timer α} (endless : timer.remaining = .infinite)
    (times : List α) : .completed ∉ timer.ticks times := by
  induction times generalizing timer with
  | nil => exact List.not_mem_nil
  | cons now rest ih =>
      cases hstate : timer.state with
      | completed =>
          rw [(of_completed hstate _).1, List.mem_replicate]
          rintro ⟨-, htick⟩
          cases htick
      | running =>
          have hanswer := advance_answer hstate now
          rw [ticks]
          generalize timer.advance now = reply at hanswer
          cases hanswer with
          | goesOn early => simpa using ih endless
          | restarts late follows =>
              rw [endless] at follows
              cases follows
              simpa using @ih ({ timer with remaining := .infinite }.restart now) rfl
          | ends late counted last =>
              rw [endless] at counted
              cases counted

/-! ## What becomes of the timer -/

theorem remaining_last {timer : Timer α} {count : Nat} (counted : timer.remaining = .finite count)
    (times : List α) :
    (timer.ticks times).countP Tick.isLooped ≤ count - 1 ∧
      (timer.last times).remaining =
        .finite (count - (timer.ticks times).countP Tick.isLooped) := by
  induction times generalizing timer count with
  | nil => exact ⟨Nat.zero_le _, counted⟩
  | cons now rest ih =>
      have hsteps := timer.advance_steps now
      rw [ticks, last_cons]
      by_cases hlooped : (timer.advance now).1 = .looped
      · have hfollows := hsteps.looped hlooped
        rw [counted] at hfollows
        generalize hremaining : (timer.advance now).2.remaining = remaining at hfollows
        cases hfollows with
        | counted hmany =>
            obtain ⟨hbound, hleft⟩ := ih hremaining
            rw [hlooped, List.countP_cons_of_pos rfl, hleft]
            exact ⟨by omega, by congr 1; omega⟩
      · have htick : ¬ Tick.isLooped (timer.advance now).1 = true := by
          intro h
          cases hreply : (timer.advance now).1 <;> simp_all [Tick.isLooped]
        obtain ⟨hbound, hleft⟩ := ih ((hsteps.kept hlooped).trans counted)
        rw [List.countP_cons_of_neg htick]
        exact ⟨hbound, hleft⟩

theorem state_last_of_completed {timer : Timer α} {times : List α}
    (h : .completed ∈ timer.ticks times) : (timer.last times).state = .completed := by
  induction times generalizing timer with
  | nil => cases h
  | cons now rest ih =>
      rw [last_cons]
      rcases List.mem_cons.mp h with hhead | htail
      · have hstate := (timer.advance_steps now).completed hhead.symm
        rw [(of_completed hstate rest).2, hstate]
      · exact ih htail

structure Regular (timer : Timer Float) (times : List Float) : Prop where
  progress : ∀ value, .progress value ∈ timer.ticks times →
    0 ≤ value ∧ value < 1 ∧ value.isNaN = false
  counted : ∀ count, timer.state = .running → timer.remaining = .finite count →
    ∃ word, Tick.Word (max count 1 - 1) word ∧ timer.ticks times <+: word
  endless : timer.remaining = .infinite → .completed ∉ timer.ticks times
  spent : timer.state = .completed →
    timer.ticks times = List.replicate times.length .idle ∧ timer.last times = timer
  steps : ∀ now, (timer.last times).Steps now
  remaining : ∀ count, timer.remaining = .finite count →
    (timer.ticks times).countP Tick.isLooped ≤ count - 1 ∧
      (timer.last times).remaining =
        .finite (count - (timer.ticks times).countP Tick.isLooped)
  frozen : .completed ∈ timer.ticks times → ∀ later, timer.last (times ++ later) = timer.last times

/-- Every timer runs regularly, also one that was read from a document and could not
have been started. -/
theorem advance_regular (timer : Timer Float) (times : List Float) : timer.Regular times where
  progress _ h := mem_progress h
  counted _ running counted := ticks_prefix running counted times
  endless h := completed_notMem_ticks h times
  spent h := of_completed h times
  steps now := advance_steps _ now
  remaining _ counted := remaining_last counted times
  frozen h later := by
    rw [last_append]
    exact (of_completed (state_last_of_completed h) later).2

end Timer

end MotionNotation
