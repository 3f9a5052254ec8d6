import MotionNotation.Proofs.Description.Shape

/-!
# The easing that a sentence names

A sentence tells one easing, and it is the one that the first action of the pipe
has got, whatever this action does.  So it is the easing that the pipe runs with
unless a duration or a loop operator opens the pipe and the easing changes behind
it.
-/

namespace MotionNotation

/-! ## One pair of letters -/

structure Apart (x y : Char) (text : List Char) : Prop where
  chain : text.IsChain fun c d => ¬(c = x ∧ d = y)
  last : text.getLast? ≠ some x

namespace Apart

variable {x y : Char}

instance (text : List Char) : Decidable (Apart x y text) :=
  decidable_of_iff
    ((text.IsChain fun c d => ¬(c = x ∧ d = y)) ∧ text.getLast? ≠ some x)
    ⟨fun h => ⟨h.1, h.2⟩, fun h => ⟨h.chain, h.last⟩⟩

theorem append {first second : List Char} (h : Apart x y first) (behind : Apart x y second) :
    Apart x y (first ++ second) := by
  refine ⟨List.isChain_append.mpr ⟨h.chain, behind.chain, ?_⟩, ?_⟩
  · rintro c hc d - ⟨rfl, -⟩
    exact h.last hc
  · rw [List.getLast?_append]
    cases hlast : second.getLast? with
    | none => simpa using h.last
    | some c => simpa [hlast] using behind.last

theorem of_notMem {text : List Char} (h : x ∉ text) : Apart x y text := by
  refine ⟨?_, fun hlast => h (List.mem_of_getLast? hlast)⟩
  induction text with
  | nil => exact .nil
  | cons c rest ih =>
      rw [List.mem_cons, not_or] at h
      exact List.isChain_cons.mpr ⟨fun d _ hboth => h.1 hboth.1.symm, ih h.2⟩

theorem collapseSpaces {text : List Char} (h : Apart x y text) :
    Apart x y (Description.collapseSpaces text) := by
  have hchain : ∀ {found : List Char}, (found.IsChain fun c d => ¬(c = x ∧ d = y)) →
      (Description.collapseSpaces found).IsChain fun c d => ¬(c = x ∧ d = y) := by
    intro found hfound
    induction found with
    | nil => exact .nil
    | cons c rest ih =>
        obtain ⟨hnext, hrest⟩ := List.isChain_cons.mp hfound
        rw [Description.collapseSpaces]
        split
        · exact ih hrest
        · rw [List.isChain_cons, Description.head?_collapseSpaces]
          exact ⟨hnext, ih hrest⟩
  refine ⟨hchain h.chain, ?_⟩
  rw [Description.getLast?_collapseSpaces]
  exact h.last

theorem squeeze {text : List Char} (h : Apart x y text) :
    Apart x y (Description.squeeze text) := by
  obtain ⟨lead, -, heq⟩ := Description.collapseSpaces_eq text
  have hcollapsed := h.collapseSpaces
  rw [heq] at hcollapsed
  refine ⟨(List.isChain_append.mp hcollapsed.chain).2.1, fun hlast => hcollapsed.last ?_⟩
  rw [List.getLast?_append, hlast]
  rfl

theorem unique {first second before behind : List Char} (hfirst : Apart x y first)
    (hsecond : Apart x y (y :: second))
    (h : first ++ x :: y :: second = before ++ x :: y :: behind) :
    first = before ∧ second = behind := by
  induction first generalizing before with
  | nil =>
      cases before with
      | nil =>
          cases h
          exact ⟨rfl, rfl⟩
      | cons c rest =>
          obtain ⟨-, hrest⟩ := List.cons.inj h
          have hpair := (List.isChain_append.mp (hrest ▸ hsecond.chain)).2.1
          exact absurd ⟨rfl, rfl⟩ ((List.isChain_cons.mp hpair).1 y rfl)
  | cons d rest ih =>
      cases before with
      | nil =>
          obtain ⟨rfl, hrest⟩ := List.cons.inj h
          cases rest with
          | nil => exact absurd rfl hfirst.last
          | cons e others =>
              obtain ⟨rfl, -⟩ := List.cons.inj hrest
              exact absurd ⟨rfl, rfl⟩ ((List.isChain_cons.mp hfirst.chain).1 e rfl)
      | cons c others =>
          obtain ⟨rfl, hothers⟩ := List.cons.inj h
          have hrest : Apart x y rest := by
            refine ⟨(List.isChain_cons.mp hfirst.chain).2, fun hlast => hfirst.last ?_⟩
            rw [List.getLast?_cons, hlast]
            rfl
          obtain ⟨rfl, rfl⟩ := ih hrest hothers
          exact ⟨rfl, rfl⟩

end Apart

/-! ## The name of an easing -/

namespace Description

def Names (sentence : String) (easing : Easing) : Prop :=
  easing.phrase.toList <:+: sentence.toList

instance (sentence : String) (easing : Easing) : Decidable (Names sentence easing) :=
  inferInstanceAs (Decidable (easing.phrase.toList <:+: sentence.toList))

/-- Of all that sentences are made of, only the name of an easing has an `a` before
an `s`. -/
theorem Worded.apart {text : String} (h : Worded text) : Apart 'a' 's' text.toList := by
  induction h with
  | word h =>
      have hall : ∀ text ∈ vocabulary, Apart 'a' 's' text.toList := by decide +kernel
      exact hall _ h
  | number x =>
      rcases Decimal.plain_eq_or (roundToPlaces x) with hnan | hnumeral
      · rw [Description.number, hnan]
        decide
      · refine .of_notMem fun hmem => ?_
        have hletter := hnumeral 'a' hmem
        revert hletter
        decide
  | count n =>
      refine .of_notMem fun hmem => ?_
      have hletter := Decimal.isNumeral_of_mem_repr hmem
      revert hletter
      decide
  | append _ _ before behind =>
      rw [String.toList_append]
      exact before.append behind

end Description

namespace Easing

/-- What stands behind the first letters of the name, which all easings share. -/
def rest (easing : Easing) : List Char :=
  easing.phrase.toList.drop 3

theorem toList_phrase (easing : Easing) :
    easing.phrase.toList = ['e'] ++ 'a' :: 's' :: easing.rest := by
  have hall : ∀ easing ∈ all, easing.phrase.toList = ['e'] ++ 'a' :: 's' :: easing.rest := by
    decide +kernel
  exact hall easing easing.mem_all

theorem eq_of_rest_prefix {first second : Easing} (h : first.rest <+: second.rest) :
    first = second := by
  have hall : ∀ first ∈ all, ∀ second ∈ all, first.rest <+: second.rest → first = second := by
    decide +kernel
  exact hall first first.mem_all second second.mem_all h

end Easing

/-! ## The name in a sentence -/

namespace PipePlan

open Description

theorem toList_tidy_sentence {plan : PipePlan Float} {actions : List (Action Float)}
    (deeds : plan.deeds actions ≠ "") {first : Action Float} (head : actions.head? = some first) :
    ∃ before behind, Apart 'a' 's' before ∧ Apart 'a' 's' behind ∧
      (tidy (plan.sentence actions)).toList =
        before ++ first.easing.phrase.toList ++ behind := by
  have active : actions ≠ [] := by
    rintro rfl
    cases head
  have hphrase : ∀ easing ∈ Easing.all, easing.phrase.toList.head? = some 'e' ∧
      easing.phrase.toList.getLast? ≠ some ' ' ∧
      collapseSpaces easing.phrase.toList = easing.phrase.toList := by decide +kernel
  obtain ⟨hhead, hlast, hcollapsed⟩ := hphrase first.easing first.easing.mem_all
  have hjoin : (first.easing.phrase ++ plan.timing).toList =
      first.easing.phrase.toList ++ plan.timing.toList := String.toList_append
  have hopening : (first.easing.phrase ++ plan.timing).toList.head? ≠ some ' ' := by
    rw [hjoin, List.head?_append, hhead, Option.some_or]
    decide
  have hworded : Worded (plan.deeds actions ++ " ") :=
    .append (.deeds plan actions) (.word (by decide))
  refine ⟨squeeze (plan.deeds actions ++ " ").toList, collapseSpaces plan.timing.toList,
    hworded.apart.squeeze, plan.worded_timing.apart.collapseSpaces, ?_⟩
  rw [toList_tidy (stopped_sentence plan active), sentence_of_deeds deeds head,
    String.append_assoc, String.toList_append, squeeze_append hopening, hjoin,
    collapseSpaces_append (.inl hlast), hcollapsed, ← List.append_assoc]

theorem names_sentence_iff {plan : PipePlan Float} {actions : List (Action Float)}
    (deeds : plan.deeds actions ≠ "") {first : Action Float} (head : actions.head? = some first)
    (easing : Easing) :
    Names (tidy (plan.sentence actions)) easing ↔ first.easing = easing := by
  obtain ⟨before, behind, hbefore, hbehind, hsentence⟩ := toList_tidy_sentence deeds head
  rw [Names, hsentence]
  constructor
  · rintro ⟨front, back, h⟩
    have hrest : ∀ easing ∈ Easing.all, Apart 'a' 's' ('s' :: easing.rest) := by decide +kernel
    have hpair : (before ++ ['e']) ++ 'a' :: 's' :: (first.easing.rest ++ behind) =
        (front ++ ['e']) ++ 'a' :: 's' :: (easing.rest ++ back) := by
      simpa [Easing.toList_phrase] using h.symm
    have hsecond : Apart 'a' 's' ('s' :: (first.easing.rest ++ behind)) :=
      (hrest first.easing first.easing.mem_all).append hbehind
    obtain ⟨-, htails⟩ := (hbefore.append (by decide)).unique hsecond hpair
    have hfirst : first.easing.rest <+: easing.rest ++ back := htails ▸ List.prefix_append _ _
    rcases List.prefix_or_prefix_of_prefix hfirst (List.prefix_append _ _) with h | h
    · exact Easing.eq_of_rest_prefix h
    · exact (Easing.eq_of_rest_prefix h).symm
  · rintro rfl
    exact ⟨before, behind, rfl⟩

end PipePlan

/-! ## The easing that runs -/

structure Action.EasedBy (easing : Easing) (actions : List (Action Float)) : Prop where
  writes : ∃ action ∈ actions, action.operator.channel?.isSome = true
  same : ∀ action ∈ actions, action.operator.channel?.isSome = true → action.easing = easing

instance (easing : Easing) (actions : List (Action Float)) :
    Decidable (Action.EasedBy easing actions) :=
  decidable_of_iff
    ((∃ action ∈ actions, action.operator.channel?.isSome = true) ∧
      ∀ action ∈ actions, action.operator.channel?.isSome = true → action.easing = easing)
    ⟨fun h => ⟨h.1, h.2⟩, fun h => ⟨h.writes, h.same⟩⟩

namespace Description

/-- The sentence of a pipe names the easing that the pipe runs with if and only if
the first action of the pipe has got this easing too. -/
theorem describe_names_iff {config : Config Float} {target : Target Float} {text : String}
    {segments : List (Segment Float)}
    (h : Segment.readAll config target text = .ok segments) :
    describe config target text =
        .ok (String.intercalate "\n" (lines (Groups.bracketed text.toList) segments target)) ∧
      ∀ segment ∈ segments,
        segment.tale target = segment.plan.pipes.map (fun plan =>
          tidy (plan.sentence (segment.staged target plan))) ∧
        ∀ plan ∈ segment.plan.pipes, ∀ easing,
          Action.EasedBy easing (segment.grid.pipe plan.index) →
          (Names (tidy (plan.sentence (segment.staged target plan))) easing ↔
            (segment.grid.pipe plan.index).head?.map (·.easing) = some easing) := by
  refine ⟨describe_eq_lines h, fun segment _ => ⟨?_, fun plan _ easing eased => ?_⟩⟩
  · rw [Segment.tale, Segment.sentences_eq, List.map_map]
    rfl
  · obtain ⟨action, hmem, hchannel⟩ := eased.writes
    obtain ⟨first, others, hpipe⟩ := List.exists_cons_of_ne_nil (List.ne_nil_of_mem hmem)
    have hstaged : action.rebase target ∈ segment.staged target plan :=
      List.mem_map_of_mem hmem
    have hhead : (segment.staged target plan).head? = some (first.rebase target) := by
      rw [Segment.staged, hpipe]
      rfl
    rw [PipePlan.names_sentence_iff (PipePlan.deeds_ne_empty hstaged hchannel) hhead, hpipe]
    exact Option.some_inj.symm

theorem describe_names_of_two_pipes :
    ∃ segments,
      Segment.readAll Config.standard Target.standard "e0x5|e3d2e0y3" = .ok segments ∧
      ∀ segment ∈ segments, ∀ plan ∈ segment.plan.pipes,
        Action.EasedBy .linear (segment.grid.pipe plan.index) ∧
        (Names (tidy (plan.sentence (segment.staged Target.standard plan))) .linear ↔
          plan.index = 0) := by
  have hok : (Segment.readAll Config.standard (Target.standard : Target Float)
      "e0x5|e3d2e0y3").toOption.any (fun segments => segments.all fun segment =>
        segment.plan.pipes.all fun plan =>
          decide (Action.EasedBy .linear (segment.grid.pipe plan.index) ∧
            ((segment.grid.pipe plan.index).head?.map (·.easing) = some .linear ↔
              plan.index = 0))) = true := by decide +kernel
  cases hread : Segment.readAll Config.standard (Target.standard : Target Float)
      "e0x5|e3d2e0y3" with
  | error full =>
      rw [hread] at hok
      cases hok
  | ok segments =>
      simp only [hread, Except.toOption, Option.any_some, List.all_eq_true, decide_eq_true_eq]
        at hok
      obtain ⟨-, hnames⟩ := describe_names_iff hread
      refine ⟨segments, rfl, fun segment hsegment plan hplan => ?_⟩
      obtain ⟨eased, hfirst⟩ := hok segment hsegment plan hplan
      exact ⟨eased, ((hnames segment hsegment).2 plan hplan .linear eased).trans hfirst⟩

/-- The duration stands before the easing and has got the usual one, which is told
although nothing moves with it. -/
theorem describe_misnames_of_opening_duration :
    ∃ segment plan,
      Segment.readAll Config.standard Target.standard "d1e0x5" = .ok [segment] ∧
      segment.plan.pipes = [plan] ∧
      Action.EasedBy .linear (segment.grid.pipe plan.index) ∧
      segment.tale Target.standard = ["move to 5 x pos, ease in/out quad over 1 seconds."] ∧
      ¬Names "move to 5 x pos, ease in/out quad over 1 seconds." .linear ∧
      describe Config.standard Target.standard "d1e0x5" =
        .ok "Move to 5 x pos, ease in/out quad over 1 seconds." := by
  exact ⟨_, _, rfl, rfl, by decide +kernel, by decide +kernel, by decide +kernel,
    by decide +kernel⟩

end Description

end MotionNotation
