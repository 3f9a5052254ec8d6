import MotionNotation.Proofs.Description.Punctual
import MotionNotation.Proofs.Description.Spacing

/-!
# Sentences of pipes

What all sentences have in common: the only blanks are spaces, the first word is
one of a few, and the last one tells the time.
-/

namespace MotionNotation

/-! ## Numbers -/

namespace Decimal

def isNumeral (c : Char) : Bool :=
  c.isDigit || ['-', '.', 'i', 'n', 'f'].contains c

theorem isNumeral_of_mem_toDigits {n : Nat} {c : Char} (h : c ∈ Nat.toDigits 10 n) :
    isNumeral c = true := by
  have hdigit : c.isDigit = true := Nat.isDigit_of_mem_toDigits (by omega) (by omega) h
  simp [isNumeral, hdigit]

theorem isNumeral_of_mem_repr {n : Nat} {c : Char} (h : c ∈ n.repr.toList) :
    isNumeral c = true := by
  rw [Nat.repr, String.toList_ofList] at h
  exact isNumeral_of_mem_toDigits h

theorem isNumeral_of_mem_positionalDigits {digits : List Char} {point : Int}
    (hdigits : ∀ c ∈ digits, isNumeral c = true) {c : Char}
    (h : c ∈ (Layout.plain.positionalDigits digits point).toList) : isNumeral c = true := by
  have hzero : isNumeral '0' = true := by decide
  have hpoint : isNumeral '.' = true := by decide
  unfold Layout.positionalDigits at h
  split at h
  · simp only [String.toList_ofList, List.cons_append, List.mem_cons, List.mem_append,
      List.mem_replicate] at h
    rcases h with rfl | rfl | ⟨-, rfl⟩ | h
    · exact hzero
    · exact hpoint
    · exact hzero
    · exact hdigits c h
  · split at h
    · simp only [Layout.plain, String.append_empty, String.toList_ofList, List.mem_append,
        List.mem_replicate] at h
      rcases h with h | ⟨-, rfl⟩
      · exact hdigits c h
      · exact hzero
    · simp only [String.toList_ofList, List.mem_append, List.mem_cons] at h
      rcases h with h | rfl | h
      · exact hdigits c (List.mem_of_mem_take h)
      · exact hpoint
      · exact hdigits c (List.mem_of_mem_drop h)

theorem isNumeral_of_mem_magnitude {value : Binary} {c : Char}
    (h : c ∈ (Layout.plain.magnitude value).toList) : isNumeral c = true := by
  unfold Layout.magnitude at h
  split at h
  · have hzero : c = '0' := by simpa [Layout.plain] using h
    rw [hzero]
    decide
  · have hdigits : ∀ d ∈ Nat.toDigits 10 (value.shortest Layout.plain.tie).digits,
        isNumeral d = true := fun d hd => isNumeral_of_mem_toDigits hd
    exact isNumeral_of_mem_positionalDigits hdigits h

theorem plain_eq_or (x : Float) :
    plain x = "NaN" ∨ ∀ c ∈ (plain x).toList, isNumeral c = true := by
  unfold plain Layout.text
  split
  · exact .inl rfl
  · right
    have hword : ∀ negative : Bool,
        (if negative then "-inf" else "inf").toList.all isNumeral = true := by decide
    exact List.all_eq_true.mp (hword _)
  · right
    intro c hc
    split at hc
    · rcases List.mem_append.mp (String.toList_append ▸ hc) with hc | hc
      · have hsign : c = '-' := by simpa using hc
        rw [hsign]
        decide
      · exact isNumeral_of_mem_magnitude hc
    · exact isNumeral_of_mem_magnitude hc

end Decimal

namespace Description

theorem isBlank_of_isNumeral {c : Char} (h : Decimal.isNumeral c = true) :
    Text.isBlank c = false := by
  simp only [Decimal.isNumeral, Bool.or_eq_true, List.contains_iff_mem] at h
  rcases h with h | h
  · simp only [Char.isDigit, Bool.and_eq_true, decide_eq_true_eq] at h
    have hlow : 48 ≤ c.toNat := h.1
    have hhigh : c.toNat ≤ 57 := h.2
    simp [Text.isBlank]
    omega
  · have hall : ['-', '.', 'i', 'n', 'f'].all (!Text.isBlank ·) = true := by decide
    simpa using List.all_eq_true.mp hall c h

theorem spaced_phrase (easing : Easing) : Spaced easing.phrase.toList := by
  have hall : ∀ easing ∈ Easing.all, Spaced easing.phrase.toList := by decide +kernel
  exact hall easing easing.mem_all

/-! ## Words and numbers -/

def vocabulary : List String :=
  ["", " ", "move from ", "move to ", "x", "y", "z", " pos, ", "move in from ", "move ", "left",
    "right", "up", "down", "below", "above", " units, ", "scale in from ", "scale to ", "%, ",
    "rotate in from around ", "rotate around ", " by ", ", ", "fade from ", "% to ", "fade to ",
    "absolute", "relative", " repeating ", " times, ", " repeating forever, ", " instantly.",
    " over ", " seconds.", " wait for "]

inductive Worded : String → Prop
  | word {text : String} (h : text ∈ vocabulary) : Worded text
  | number (x : Float) : Worded (number x)
  | count (n : Nat) : Worded n.repr
  | append {first second : String} (before : Worded first) (behind : Worded second) :
      Worded (first ++ second)

namespace Worded

theorem percent (x : Float) : Worded (Description.percent x) :=
  number _

theorem join {texts : List String} (h : ∀ text ∈ texts, Worded text) :
    Worded (String.join texts) := by
  induction texts with
  | nil => exact word (by decide)
  | cons text rest ih =>
      rw [List.forall_mem_cons] at h
      rw [String.join_cons]
      exact append h.1 (ih h.2)

theorem clause (action : Action Float) : Worded action.clause := by
  have hnone : Worded "" := word (by decide)
  unfold Action.clause
  cases action.operator with
  | position axis =>
      refine append (append (append (append ?_ (number _)) (word (by decide))) ?_)
        (word (by decide))
      · split <;> exact word (by decide)
      · cases axis <;> exact word (by decide)
  | move heading =>
      refine append (append (append ?_ (word (by decide))) (number _)) (word (by decide))
      split
      · refine append (word (by decide)) ?_
        cases heading <;> exact word (by decide)
      · refine append (word (by decide)) ?_
        cases heading <;> exact word (by decide)
  | scale =>
      refine append (append ?_ (percent _)) (word (by decide))
      split <;> exact word (by decide)
  | rotate axis =>
      refine append (append (append (append ?_ ?_) (word (by decide))) (number _))
        (word (by decide))
      · split <;> exact word (by decide)
      · cases axis <;> exact word (by decide)
  | fade =>
      dsimp only
      split
      · exact append (append (append (append (word (by decide)) (percent _)) (word (by decide)))
          (percent _)) (word (by decide))
      · exact append (append (word (by decide)) (percent _)) (word (by decide))
  | duration => exact hnone
  | stagger => exact hnone
  | loop mode => exact hnone

theorem repetition (repetition : Repetition) (mode : LoopMode) :
    Worded (repetition.clause mode) := by
  have hword : Worded mode.word := by cases mode <;> exact word (by decide)
  unfold Repetition.clause
  cases repetition with
  | finite count =>
      simp only
      split
      · exact append (append (append (append (word (by decide)) hword) (word (by decide)))
          (.count _)) (word (by decide))
      · exact word (by decide)
  | infinite => exact append (append (word (by decide)) hword) (word (by decide))

theorem deeds (plan : PipePlan Float) (actions : List (Action Float)) :
    Worded (plan.deeds actions) := by
  refine append (join ?_) (repetition plan.repetition plan.mode)
  intro text hmem
  obtain ⟨action, -, rfl⟩ := List.mem_map.mp hmem
  exact clause action

theorem spaced {text : String} (h : Worded text) : Spaced text.toList := by
  have hdigits : ∀ {numeral : List Char}, (∀ c ∈ numeral, Decimal.isNumeral c = true) →
      Spaced numeral := by
    intro numeral hnumeral c hc hblank
    rw [isBlank_of_isNumeral (hnumeral c hc)] at hblank
    cases hblank
  induction h with
  | word h =>
      have hall : ∀ text ∈ vocabulary, Spaced text.toList := by decide +kernel
      exact hall _ h
  | number x =>
      rcases Decimal.plain_eq_or (roundToPlaces x) with hnan | hnumeral
      · rw [Description.number, hnan]
        decide
      · exact hdigits hnumeral
  | count n => exact hdigits fun c hc => Decimal.isNumeral_of_mem_repr hc
  | append _ _ before behind =>
      rw [String.toList_append, spaced_append]
      exact ⟨before, behind⟩

end Worded

end Description

namespace PipePlan

open Description

/-! ## The first word -/

def openings : List Char :=
  ['m', 's', 'r', 'f', 'a', 'w']

/-- The first character that is no space is one that sentences begin with. -/
def Opens (text : String) : Prop :=
  ∃ c ∈ openings, text.toList.find? (· != ' ') = some c

theorem Opens.append {first : String} (h : Opens first) (second : String) :
    Opens (first ++ second) := by
  obtain ⟨c, hc, hfind⟩ := h
  refine ⟨c, hc, ?_⟩
  rw [String.toList_append, List.find?_append, hfind]
  rfl

instance (text : String) : Decidable (Opens text) :=
  List.decidableBEx (fun c => text.toList.find? (· != ' ') = some c) openings

theorem clause_eq_empty {action : Action Float} (h : action.operator.channel? = none) :
    action.clause = "" := by
  unfold Action.clause
  cases hoperator : action.operator with
  | duration => rfl
  | stagger => rfl
  | loop mode => rfl
  | move heading => cases heading <;> simp [hoperator, Operator.channel?] at h
  | _ => simp [hoperator, Operator.channel?] at h

theorem opens_clause {action : Action Float} (h : action.operator.channel?.isSome = true) :
    Opens action.clause := by
  unfold Action.clause
  cases hoperator : action.operator with
  | position axis =>
      refine .append (.append (.append (.append ?_ _) _) _) _
      split <;> decide
  | move heading =>
      refine .append (.append (.append ?_ _) _) _
      split
      · exact .append (by decide) _
      · exact .append (by decide) _
  | scale =>
      refine .append (.append ?_ _) _
      split <;> decide
  | rotate axis =>
      refine .append (.append (.append (.append ?_ _) _) _) _
      split <;> decide
  | fade =>
      dsimp only
      split
      · exact .append (.append (.append (.append (by decide) _) _) _) _
      · exact .append (.append (by decide) _) _
  | duration => simp [hoperator, Operator.channel?] at h
  | stagger => simp [hoperator, Operator.channel?] at h
  | loop mode => simp [hoperator, Operator.channel?] at h

theorem opens_repetition (repetition : Repetition) (mode : LoopMode) :
    repetition.clause mode = "" ∨ Opens (repetition.clause mode) := by
  have hword : Opens (" " ++ mode.word) := by cases mode <;> decide
  unfold Repetition.clause
  cases repetition with
  | finite count =>
      dsimp only
      split
      · exact .inr (.append (.append (.append hword _) _) _)
      · exact .inl rfl
  | infinite => exact .inr (.append hword _)

theorem opens_join (actions : List (Action Float)) :
    (∀ action ∈ actions, action.operator.channel? = none) ∧
        String.join (actions.map Action.clause) = "" ∨
      Opens (String.join (actions.map Action.clause)) := by
  induction actions with
  | nil => exact .inl ⟨by simp, rfl⟩
  | cons action rest ih =>
      rw [List.map_cons, String.join_cons, List.forall_mem_cons]
      cases hchannel : action.operator.channel? with
      | none =>
          rw [clause_eq_empty hchannel, String.empty_append]
          exact ih.imp_left fun h => ⟨⟨rfl, h.1⟩, h.2⟩
      | some channel => exact .inr ((opens_clause (by simp [hchannel])).append _)

theorem opens_deeds {plan : PipePlan Float} {actions : List (Action Float)}
    (h : plan.deeds actions ≠ "") : Opens (plan.deeds actions) := by
  rw [deeds] at h ⊢
  rcases opens_join actions with ⟨-, hempty⟩ | hopens
  · rw [hempty, String.empty_append] at h ⊢
    exact (opens_repetition plan.repetition plan.mode).resolve_left h
  · exact hopens.append _

theorem deeds_ne_empty {plan : PipePlan Float} {actions : List (Action Float)}
    {action : Action Float} (hmem : action ∈ actions)
    (h : action.operator.channel?.isSome = true) : plan.deeds actions ≠ "" := by
  rcases opens_join actions with ⟨hnone, -⟩ | hopens
  · rw [hnone action hmem] at h
    cases h
  · obtain ⟨c, -, hfind⟩ := hopens.append (plan.repetition.clause plan.mode)
    intro hempty
    rw [deeds] at hempty
    rw [hempty] at hfind
    cases hfind

/-! ## Whole sentences -/

def timing (plan : PipePlan Float) : String :=
  if plan.duration == 0 then " instantly."
  else " over " ++ Description.number plan.duration ++ " seconds."

theorem worded_timing (plan : PipePlan Float) : Worded plan.timing := by
  unfold timing
  split
  · exact .word (by decide)
  · exact .append (.append (.word (by decide)) (.number _)) (.word (by decide))

theorem append_seconds (text : String) : text ++ " seconds." = text ++ " " ++ "seconds." := by
  rw [String.append_assoc]
  rfl

theorem timing_ends (plan : PipePlan Float) :
    ∃ beginning,
      plan.timing = beginning ++ "instantly." ∨ plan.timing = beginning ++ "seconds." := by
  unfold timing
  split
  · exact ⟨" ", .inl rfl⟩
  · exact ⟨_, .inr (append_seconds _)⟩

theorem sentence_of_no_deeds {plan : PipePlan Float} {actions : List (Action Float)}
    (h : plan.deeds actions = "") :
    plan.sentence actions =
      " wait for " ++ Description.number plan.duration ++ " seconds." := by
  rw [sentence]
  exact if_pos h

theorem sentence_of_deeds {plan : PipePlan Float} {actions : List (Action Float)}
    (h : plan.deeds actions ≠ "") {first : Action Float} (head : actions.head? = some first) :
    plan.sentence actions =
      plan.deeds actions ++ " " ++ first.easing.phrase ++ plan.timing := by
  rw [sentence]
  simp only [if_neg h, ending, head, ← String.append_assoc]
  rfl

theorem sentence_opens (plan : PipePlan Float) (actions : List (Action Float)) :
    Opens (plan.sentence actions) := by
  unfold sentence
  dsimp only
  split
  · exact .append (.append (by decide) _) _
  · rename_i hdeeds
    exact (opens_deeds hdeeds).append _

section Active

/- A pipe that is planned has actions. -/
variable (plan : PipePlan Float) {actions : List (Action Float)} (active : actions ≠ [])

include active

theorem sentence_spaced : Spaced (plan.sentence actions).toList := by
  by_cases hdeeds : plan.deeds actions = ""
  · rw [sentence_of_no_deeds hdeeds]
    exact Worded.spaced (.append (.append (.word (by decide)) (.number _)) (.word (by decide)))
  · obtain ⟨first, rest, rfl⟩ := List.exists_cons_of_ne_nil active
    have hspace : Spaced " ".toList := by decide
    rw [sentence_of_deeds hdeeds rfl]
    simp only [String.toList_append, spaced_append]
    exact ⟨⟨⟨(Worded.deeds plan _).spaced, hspace⟩, spaced_phrase _⟩, plan.worded_timing.spaced⟩

theorem sentence_ends :
    ∃ beginning, plan.sentence actions = beginning ++ "instantly." ∨
      plan.sentence actions = beginning ++ "seconds." := by
  by_cases hdeeds : plan.deeds actions = ""
  · rw [sentence_of_no_deeds hdeeds]
    exact ⟨_, .inr (append_seconds _)⟩
  · obtain ⟨first, rest, rfl⟩ := List.exists_cons_of_ne_nil active
    obtain ⟨beginning, htiming⟩ := plan.timing_ends
    refine ⟨plan.deeds (first :: rest) ++ " " ++ first.easing.phrase ++ beginning, ?_⟩
    rw [sentence_of_deeds hdeeds rfl]
    rcases htiming with htiming | htiming
    · left
      rw [htiming, ← String.append_assoc]
    · right
      rw [htiming, ← String.append_assoc]

end Active

end PipePlan

end MotionNotation
