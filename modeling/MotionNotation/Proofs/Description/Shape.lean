import MotionNotation.Proofs.Description.Sentences
import MotionNotation.Proofs.Notation.Brackets
import MotionNotation.Proofs.Playback.Signal

/-!
# The shape of a description

A description is put together from the sentences of the pipes, and tidied as a
whole at the end.  It comes to the same to tidy each sentence by itself and to put
the results together: one line for a notation without brackets, and otherwise a
heading with one numbered line for each group that has something to tell.
-/

namespace MotionNotation

namespace Description

/-! ## Texts that end in a stop -/

structure Stopped (text : List Char) : Prop where
  spaced : Spaced text
  last : text.getLast? = some '.'

namespace Stopped

theorem firm {text : List Char} (h : Stopped text) : Firm (squeeze text) :=
  firm_squeeze h.spaced h.last rfl

theorem trim {text : List Char} (h : Stopped text) :
    Text.trim (collapseSpaces text) = squeeze text :=
  trim_collapseSpaces h.spaced h.last rfl

theorem squeezed {text : List Char} (h : Stopped text) : Stopped (squeeze text) :=
  ⟨fun c hc => h.spaced c ((squeeze_sublist text).subset hc), getLast?_squeeze h.last (by decide)⟩

theorem append {first second : List Char} (spaced : Spaced first) (h : Stopped second) :
    Stopped (first ++ second) := by
  refine ⟨spaced_append.mpr ⟨spaced, h.spaced⟩, ?_⟩
  rw [List.getLast?_append, h.last]
  rfl

end Stopped

theorem toList_tidy {text : String} (h : Stopped text.toList) :
    (tidy text).toList = squeeze text.toList := by
  rw [tidy, String.toList_ofList, h.trim]

theorem tidy_append {beginning word : String} (h : Stopped (beginning ++ word).toList)
    (one : ' ' ∉ word.toList) :
    tidy (beginning ++ word) = String.ofList (squeeze beginning.toList) ++ word := by
  have hhead : word.toList.head? ≠ some ' ' := fun hhead => one (List.mem_of_mem_head? hhead)
  rw [← String.toList_inj, toList_tidy h, String.toList_append, squeeze_append hhead,
    collapseSpaces_of_notMem one, String.toList_append, String.toList_ofList]

theorem stopped_sentence (plan : PipePlan Float) {actions : List (Action Float)}
    (active : actions ≠ []) : Stopped (plan.sentence actions).toList := by
  refine ⟨plan.sentence_spaced active, ?_⟩
  obtain ⟨beginning, h | h⟩ := plan.sentence_ends active
  · rw [h, String.toList_append, List.getLast?_append]
    rfl
  · rw [h, String.toList_append, List.getLast?_append]
    rfl

/-! ## Sentences joined -/

def link : String := " Once complete then "

theorem toList_link : link.toList = ' ' :: ("Once complete then".toList ++ [' ']) := by
  decide

theorem stopped_join {sentences : List (List Char)} (hne : sentences ≠ [])
    (h : ∀ sentence ∈ sentences, Stopped sentence) :
    Stopped (link.toList.intercalate sentences) := by
  induction sentences with
  | nil => exact absurd rfl hne
  | cons sentence rest ih =>
      rw [List.forall_mem_cons] at h
      cases rest with
      | nil => simpa using h.1
      | cons next others =>
          have hlink : Spaced link.toList := by decide
          rw [List.intercalate_cons_cons]
          exact .append (spaced_append.mpr ⟨h.1.spaced, hlink⟩) (ih (by simp) h.2)

theorem squeeze_join {sentences : List (List Char)}
    (h : ∀ sentence ∈ sentences, Stopped sentence) :
    squeeze (link.toList.intercalate sentences) =
      link.toList.intercalate (sentences.map squeeze) := by
  induction sentences with
  | nil => rfl
  | cons sentence rest ih =>
      rw [List.forall_mem_cons] at h
      cases rest with
      | nil => simp
      | cons next others =>
          have hwords : squeeze "Once complete then".toList = "Once complete then".toList := by
            decide
          have hlast : "Once complete then".toList.getLast? = some 'n' := by decide
          rw [List.intercalate_cons_cons, toList_link, List.append_assoc, List.cons_append,
            List.append_assoc, List.singleton_append,
            squeeze_append_space h.1.last (by decide), squeeze_append_space hlast (by decide),
            hwords, ← toList_link, ih h.2]
          simp [toList_link]

end Description

/-! ## Groups -/

namespace Segment

open Description

def tale (segment : Segment Float) (target : Target Float) : List String :=
  (segment.sentences target).map tidy

def story (segment : Segment Float) (target : Target Float) : String :=
  String.intercalate link (segment.tale target)

def isActive {α : Type} (segment : Segment α) : Bool :=
  !segment.grid.activePipes.isEmpty

section Planned

variable {config : Config Float} {segment : Segment Float}
  (planned : segment.plan = Plan.ofGrid config segment.grid) (target : Target Float)

include planned

theorem sentences_of_planned :
    segment.sentences target = segment.grid.activePipes.map fun entry =>
      (PipePlan.ofActions config entry.1 entry.2).sentence (entry.2.map (·.rebase target)) := by
  rw [sentences, planned, Plan.ofGrid, List.map_map]
  apply List.map_congr_left
  intro entry hentry
  have hpipe : segment.grid.pipe (PipePlan.ofActions config entry.1 entry.2).index = entry.2 :=
    (Grid.pipe_of_mem_activePipes hentry).1
  simp only [Function.comp_apply, hpipe]

theorem stopped_sentences :
    ∀ sentence ∈ segment.sentences target, Stopped sentence.toList := by
  rw [sentences_of_planned planned]
  intro sentence hmem
  obtain ⟨entry, hentry, rfl⟩ := List.mem_map.mp hmem
  apply stopped_sentence
  simpa using (Grid.pipe_of_mem_activePipes hentry).2

theorem tale_ends :
    ∀ sentence ∈ segment.tale target, ∃ beginning,
      sentence = beginning ++ "instantly." ∨ sentence = beginning ++ "seconds." := by
  intro sentence hmem
  obtain ⟨raw, hraw, rfl⟩ := List.mem_map.mp hmem
  have hstopped := stopped_sentences planned target raw hraw
  rw [sentences_of_planned planned] at hraw
  obtain ⟨entry, hentry, rfl⟩ := List.mem_map.mp hraw
  have active : entry.2.map (·.rebase target) ≠ [] := by
    simpa using (Grid.pipe_of_mem_activePipes hentry).2
  obtain ⟨beginning, h | h⟩ := PipePlan.sentence_ends _ active
  · rw [h] at hstopped ⊢
    exact ⟨_, .inl (tidy_append hstopped (by decide))⟩
  · rw [h] at hstopped ⊢
    exact ⟨_, .inr (tidy_append hstopped (by decide))⟩

theorem toList_story :
    (segment.story target).toList = squeeze (segment.describe target).toList := by
  have hstopped := stopped_sentences planned target
  have htidy : (segment.tale target).map String.toList =
      ((segment.sentences target).map String.toList).map squeeze := by
    rw [tale, List.map_map, List.map_map]
    exact List.map_congr_left fun sentence hmem => toList_tidy (hstopped sentence hmem)
  rw [story, describe, String.toList_intercalate, String.toList_intercalate, htidy]
  refine (squeeze_join fun sentence hmem => ?_).symm
  obtain ⟨found, hfound, rfl⟩ := List.mem_map.mp hmem
  exact hstopped found hfound

theorem stopped_describe (active : segment.isActive = true) :
    Stopped (segment.describe target).toList := by
  rw [describe, String.toList_intercalate]
  apply stopped_join
  · rw [sentences_of_planned planned]
    simpa [isActive] using active
  · intro sentence hmem
    obtain ⟨found, hfound, rfl⟩ := List.mem_map.mp hmem
    exact stopped_sentences planned target found hfound

theorem story_line (active : segment.isActive = true) :
    Line (segment.story target).toList := by
  have hstopped := stopped_describe planned target active
  rw [toList_story planned]
  exact ⟨hstopped.squeezed.spaced, squeeze_single _, hstopped.firm⟩

theorem head?_story (active : segment.isActive = true) :
    ∃ c ∈ PipePlan.openings, (segment.story target).toList.head? = some c := by
  obtain ⟨entry, others, hpipes⟩ := List.exists_cons_of_ne_nil
    (by simpa [isActive] using active : segment.grid.activePipes ≠ [])
  rw [toList_story planned, head?_squeeze_eq, describe, sentences_of_planned planned, hpipes,
    List.map_cons]
  have hopens := (PipePlan.ofActions config entry.1 entry.2).sentence_opens
    (entry.2.map (·.rebase target))
  cases others with
  | nil => simpa [PipePlan.Opens] using hopens
  | cons next rest =>
      rw [List.map_cons, String.intercalate_cons_cons, String.append_assoc]
      exact hopens.append _

theorem describe_of_idle (idle : segment.isActive = false) : segment.describe target = "" := by
  have hnone : segment.grid.activePipes = [] := by simpa [isActive] using idle
  rw [describe, sentences_of_planned planned, hnone]
  rfl

theorem allBlank_describe :
    Text.allBlank (segment.describe target).toList = !segment.isActive := by
  cases hactive : segment.isActive with
  | false => rw [describe_of_idle planned target hactive]; rfl
  | true =>
      have hlast := (stopped_describe planned target hactive).last
      have hmem := List.mem_of_getLast? hlast
      rw [Bool.not_true, Text.allBlank, List.all_eq_false]
      exact ⟨'.', hmem, by decide⟩

end Planned

end Segment

/-! ## Lines -/

namespace Description

def heading : String := "Perform a series of animations at the same time."

def numbered (story : String) (number : Nat) : String :=
  "Animation #" ++ number.repr ++ " will " ++ story

/-- The lines of a description: for a notation that does nothing, for one in
brackets and for one without. -/
def lines (bracketed : Bool) (segments : List (Segment Float)) (target : Target Float) :
    List String :=
  match segments.filter Segment.isActive with
  | [] => [nothing]
  | active =>
    if bracketed then
      heading :: (active.zipIdx 1).map fun entry => numbered (entry.1.story target) entry.2
    else active.map fun segment => String.ofList (capitalize (segment.story target).toList)

theorem lines_bracketed {segments : List (Segment Float)}
    (active : segments.filter Segment.isActive ≠ []) (target : Target Float) :
    lines true segments target =
      heading :: ((segments.filter Segment.isActive).zipIdx 1).map fun entry =>
        numbered (entry.1.story target) entry.2 := by
  rw [lines]
  cases h : segments.filter Segment.isActive with
  | nil => exact absurd h active
  | cons first rest => rfl

theorem lines_plain {segments : List (Segment Float)}
    (active : segments.filter Segment.isActive ≠ []) (target : Target Float) :
    lines false segments target = (segments.filter Segment.isActive).map fun segment =>
      String.ofList (capitalize (segment.story target).toList) := by
  rw [lines]
  cases h : segments.filter Segment.isActive with
  | nil => exact absurd h active
  | cons first rest => rfl

theorem lines_of_idle {segments : List (Segment Float)}
    (idle : segments.filter Segment.isActive = []) (bracketed : Bool) (target : Target Float) :
    lines bracketed segments target = [nothing] := by
  rw [lines, idle]

theorem numberedLines_cons (first : Nat) (text : String) (rest : List String) :
    numberedLines first (text :: rest) =
      numbered text first ++ "\n" ++ numberedLines (first + 1) rest :=
  rfl

theorem toList_numberedLines (first : Nat) (texts : List String) :
    (numberedLines first texts).toList =
      ((texts.zipIdx first).map fun entry => (numbered entry.1 entry.2).toList).flatMap
        (· ++ ['\n']) := by
  induction texts generalizing first with
  | nil => rfl
  | cons text rest ih =>
      rw [numberedLines_cons, String.toList_append, String.toList_append, ih]
      rfl

theorem flatMap_newline {texts : List (List Char)} (hne : texts ≠ []) :
    texts.flatMap (· ++ ['\n']) = ['\n'].intercalate texts ++ ['\n'] := by
  induction texts with
  | nil => exact absurd rfl hne
  | cons text rest ih =>
      cases rest with
      | nil => simp
      | cons next others =>
          rw [List.flatMap_cons, ih (by simp), List.intercalate_cons_cons]
          simp

theorem collapseSpaces_flatMap (texts : List (List Char)) :
    collapseSpaces (texts.flatMap (· ++ ['\n'])) =
      (texts.map collapseSpaces).flatMap (· ++ ['\n']) := by
  induction texts with
  | nil => rfl
  | cons text rest ih =>
      rw [List.flatMap_cons, List.map_cons, List.flatMap_cons, collapseSpaces_append, ih,
        collapseSpaces_append]
      · rfl
      · exact .inr (by decide)
      · exact .inl (by simp)

theorem collapseSpaces_numbered (story : String) (number : Nat) :
    collapseSpaces (numbered story number).toList =
      "Animation #".toList ++ number.repr.toList ++ " will ".toList ++ squeeze story.toList := by
  have hnumber : ' ' ∉ '#' :: number.repr.toList := by
    rw [List.mem_cons, not_or]
    refine ⟨by decide, fun hmem => ?_⟩
    have hnumeral := Decimal.isNumeral_of_mem_repr hmem
    revert hnumeral
    decide
  have hwords : (numbered story number).toList = "Animation".toList ++ ' ' ::
      (('#' :: number.repr.toList) ++ ' ' :: ("will".toList ++ ' ' :: story.toList)) := by
    simp [numbered]
  have hhead : (numbered story number).toList.head? ≠ some ' ' := by
    simp [hwords]
  rw [← squeeze_of_head? hhead, hwords, squeeze_word_append (by decide) (by decide),
    squeeze_word_append (by simp) hnumber, squeeze_word_append (by decide) (by decide)]
  simp

theorem numbered_line {story : String} (line : Line story.toList) (number : Nat) :
    Line (numbered story number).toList := by
  have hcollapsed : collapseSpaces (numbered story number).toList =
      (numbered story number).toList := by
    rw [collapseSpaces_numbered, line.squeeze]
    simp [numbered]
  obtain ⟨last, hlast, hblank⟩ := line.firm.last
  refine ⟨?_, ?_, ⟨'A', by simp [numbered], rfl⟩, last, ?_, hblank⟩
  · have hfront : Spaced "Animation #".toList := by decide
    have hwill : Spaced " will ".toList := by decide
    simp only [numbered, String.toList_append, spaced_append]
    exact ⟨⟨⟨hfront, (Worded.count number).spaced⟩, hwill⟩, line.spaced⟩
  · rw [← hcollapsed]
    exact collapseSpaces_single _
  · rw [numbered, String.toList_append, List.getLast?_append, hlast]
    rfl

theorem capital_of_opening {c : Char} (opening : c ∈ PipePlan.openings) :
    Text.uppercase c = [c.toUpper] ∧ Text.isBlank c.toUpper = false ∧ c.toUpper ≠ 'd' := by
  have hall : PipePlan.openings.all (fun c => decide (Text.uppercase c = [c.toUpper] ∧
      Text.isBlank c.toUpper = false ∧ c.toUpper ≠ 'd')) = true := by decide
  simpa only [decide_eq_true_eq] using List.all_eq_true.mp hall c opening

theorem capitalize_of_opening {text : List Char} {c : Char} (opening : c ∈ PipePlan.openings)
    (head : text.head? = some c) :
    ∃ rest, text = c :: rest ∧ capitalize text = c.toUpper :: rest := by
  obtain ⟨rest, rfl⟩ := List.head?_eq_some_iff.mp head
  refine ⟨rest, rfl, ?_⟩
  rw [capitalize, (capital_of_opening opening).1]
  rfl

theorem capitalize_line {text : List Char} (line : Line text) {c : Char}
    (opening : c ∈ PipePlan.openings) (head : text.head? = some c) : Line (capitalize text) := by
  obtain ⟨-, hblank, -⟩ := capital_of_opening opening
  obtain ⟨rest, rfl, hcapital⟩ := capitalize_of_opening opening head
  obtain ⟨last, hlast, hend⟩ := line.firm.last
  rw [hcapital]
  refine ⟨?_, ?_, ⟨_, rfl, hblank⟩, ?_⟩
  · intro d hd hd'
    rcases List.mem_cons.mp hd with rfl | hd
    · rw [hblank] at hd'
      cases hd'
    · exact line.spaced d (List.mem_cons_of_mem _ hd) hd'
  · exact List.isChain_cons.mpr ⟨fun d _ hboth => ne_space_of_not_isBlank hblank hboth.1,
      (List.isChain_cons.mp line.single).2⟩
  · cases rest with
    | nil => exact ⟨_, rfl, hblank⟩
    | cons next others => exact ⟨last, hlast, hend⟩

theorem collapseSpaces_heading : collapseSpaces heading.toList = heading.toList := by
  decide

theorem finalize_eq {text : String} {body : List Char}
    (h : Text.trim (collapseSpaces text.toList) = body) (hne : body ≠ []) :
    finalize text = String.ofList (capitalize body) := by
  rw [finalize, h]
  cases body with
  | nil => exact absurd rfl hne
  | cons c rest => rfl

theorem toList_gather {texts told : List String}
    (h : (texts.filter fun text => !Text.allBlank text.toList) = told) (hne : told ≠ []) :
    (gather texts).toList =
      (heading.toList :: (told.zipIdx 1).map fun entry =>
        (numbered entry.1 entry.2).toList).flatMap (· ++ ['\n']) := by
  have hheading : "Perform a series of animations at the same time.\n".toList =
      heading.toList ++ ['\n'] := by decide +kernel
  rw [gather, h]
  cases told with
  | nil => exact absurd rfl hne
  | cons first rest =>
      simp only
      rw [String.toList_append, toList_numberedLines, hheading, List.flatMap_cons]

theorem head?_intercalate {text : List Char} {c : Char} (h : text.head? = some c)
    (others : List (List Char)) (between : List Char) :
    (between.intercalate (text :: others)).head? = some c := by
  cases others with
  | nil => simpa using h
  | cons next rest =>
      rw [List.intercalate_cons_cons, List.append_assoc, List.head?_append, h]
      rfl

theorem getLast?_intercalate {texts : List (List Char)} {c : Char} (hne : texts ≠ [])
    (h : ∀ text ∈ texts, text.getLast? = some c) (between : List Char) :
    (between.intercalate texts).getLast? = some c := by
  induction texts with
  | nil => exact absurd rfl hne
  | cons text rest ih =>
      rw [List.forall_mem_cons] at h
      cases rest with
      | nil => simpa using h.1
      | cons next others =>
          rw [List.intercalate_cons_cons, List.getLast?_append, ih (by simp) h.2]
          rfl

section Planned

variable {config : Config Float} {segments : List (Segment Float)}
  (planned : ∀ segment ∈ segments, segment.plan = Plan.ofGrid config segment.grid)
  (target : Target Float)

include planned

theorem told_eq :
    ((segments.map (·.describe target)).filter fun text => !Text.allBlank text.toList) =
      (segments.filter Segment.isActive).map (·.describe target) := by
  rw [List.filter_map]
  congr 1
  apply List.filter_congr
  intro segment hmem
  rw [Function.comp_apply, Segment.allBlank_describe (planned segment hmem) target, Bool.not_not]

theorem collapseSpaces_gather (active : segments.filter Segment.isActive ≠ []) :
    collapseSpaces (gather (segments.map (·.describe target))).toList =
      ['\n'].intercalate ((lines true segments target).map String.toList) ++ ['\n'] := by
  have hplanned : ∀ segment ∈ segments.filter Segment.isActive,
      segment.plan = Plan.ofGrid config segment.grid :=
    fun segment hmem => planned segment (List.mem_of_mem_filter hmem)
  have hraw := toList_gather (told_eq planned target) (by simpa using active)
  rw [lines_bracketed active, hraw]
  generalize segments.filter Segment.isActive = told at hplanned
  have hline : ∀ entry ∈ told.zipIdx 1,
      collapseSpaces (numbered (entry.1.describe target) entry.2).toList =
        (numbered (entry.1.story target) entry.2).toList := by
    intro entry hentry
    have hmem := List.fst_mem_of_mem_zipIdx hentry
    rw [collapseSpaces_numbered, ← Segment.toList_story (hplanned entry.1 hmem) target]
    simp [numbered]
  have hlines : ((told.map (·.describe target)).zipIdx 1).map (fun entry =>
        collapseSpaces (numbered entry.1 entry.2).toList) =
      (told.zipIdx 1).map fun entry => (numbered (entry.1.story target) entry.2).toList := by
    rw [List.zipIdx_map, List.map_map]
    exact List.map_congr_left hline
  rw [collapseSpaces_flatMap, List.map_cons, collapseSpaces_heading, List.map_map]
  simp only [Function.comp_def]
  rw [hlines, ← flatMap_newline (by simp), List.map_cons, List.map_map]
  rfl

theorem getLast?_lines (active : segments.filter Segment.isActive ≠ []) :
    ∀ line ∈ lines true segments target, line.toList.getLast? = some '.' := by
  rw [lines_bracketed active, List.forall_mem_cons]
  refine ⟨by decide, fun line hline => ?_⟩
  obtain ⟨entry, hentry, rfl⟩ := List.mem_map.mp hline
  obtain ⟨hsegment, hactive⟩ := List.mem_filter.mp (List.fst_mem_of_mem_zipIdx hentry)
  have hstory := (Segment.stopped_describe (planned _ hsegment) target hactive).squeezed.last
  rw [← Segment.toList_story (planned _ hsegment)] at hstory
  rw [numbered, String.toList_append, List.getLast?_append, hstory]
  rfl

theorem finalize_gather :
    finalize (gather (segments.map (·.describe target))) =
      String.intercalate "\n" (lines true segments target) := by
  by_cases active : segments.filter Segment.isActive = []
  · rw [gather, told_eq planned, lines, active]
    rfl
  · obtain ⟨others, hlines⟩ : ∃ others, lines true segments target = heading :: others :=
      ⟨_, lines_bracketed active target⟩
    have hlast : (['\n'].intercalate ((lines true segments target).map String.toList)).getLast? =
        some '.' := by
      apply getLast?_intercalate
      · simp [hlines]
      · intro line hline
        obtain ⟨found, hfound, rfl⟩ := List.mem_map.mp hline
        exact getLast?_lines planned target active found hfound
    obtain ⟨body, hbody⟩ : ∃ body,
        ['\n'].intercalate ((lines true segments target).map String.toList) = 'P' :: body := by
      rw [hlines, List.map_cons]
      cases others with
      | nil => exact ⟨_, rfl⟩
      | cons next rest => exact ⟨_, rfl⟩
    have htrim : Text.trim (collapseSpaces (gather (segments.map (·.describe target))).toList) =
        'P' :: body := by
      have firm : Firm ('P' :: body) := ⟨⟨'P', rfl, rfl⟩, '.', hbody ▸ hlast, rfl⟩
      have htail : Text.trim ([] ++ ('P' :: body) ++ ['\n']) = 'P' :: body :=
        trim_of_firm (by simp) firm (by simp [Text.isBlank])
      rw [collapseSpaces_gather planned target active, hbody]
      exact htail
    have hcapital : capitalize ('P' :: body) = 'P' :: body := by
      have hletter : Text.uppercase 'P' = ['P'] := by decide
      rw [capitalize, hletter]
      rfl
    rw [finalize_eq htrim (by simp), hcapital, ← hbody, ← String.toList_inj,
      String.toList_ofList, String.toList_intercalate]
    rfl

theorem finalize_join (single : segments.length = 1) :
    finalize (String.join (segments.map (·.describe target))) =
      String.intercalate "\n" (lines false segments target) := by
  obtain ⟨segment, rfl⟩ := List.length_eq_one_iff.mp single
  have hplanned := planned segment List.mem_cons_self
  have hjoin : String.join ([segment].map (·.describe target)) = segment.describe target := by
    rw [List.map_singleton, String.join_cons]
    exact String.append_empty
  rw [hjoin, lines]
  cases hactive : segment.isActive with
  | false =>
      rw [List.filter_cons_of_neg (by simp [hactive]),
        Segment.describe_of_idle hplanned target hactive]
      rfl
  | true =>
      have hstopped := Segment.stopped_describe hplanned target hactive
      have hstory := Segment.toList_story hplanned target
      have hne : (segment.story target).toList ≠ [] := by
        intro hnone
        have hlast := hstopped.squeezed.last
        rw [← hstory, hnone] at hlast
        cases hlast
      rw [List.filter_cons_of_pos hactive, finalize_eq (hstopped.trim.trans hstory.symm) hne]
      rfl

theorem lines_line (active : segments.filter Segment.isActive ≠ []) (bracketed : Bool) :
    ∀ text ∈ (lines bracketed segments target).map String.toList, Line text := by
  have hactive : ∀ segment ∈ segments.filter Segment.isActive,
      Line (segment.story target).toList ∧
        ∃ c ∈ PipePlan.openings, (segment.story target).toList.head? = some c := by
    intro segment hmem
    obtain ⟨hsegment, hactive⟩ := List.mem_filter.mp hmem
    exact ⟨Segment.story_line (planned segment hsegment) target hactive,
      Segment.head?_story (planned segment hsegment) target hactive⟩
  intro text hmem
  obtain ⟨line, hline, rfl⟩ := List.mem_map.mp hmem
  cases bracketed with
  | true =>
      rw [lines_bracketed active, List.mem_cons] at hline
      rcases hline with rfl | hline
      · exact ⟨by decide, collapseSpaces_heading ▸ collapseSpaces_single _,
          ⟨'P', rfl, rfl⟩, '.', by decide, rfl⟩
      · obtain ⟨entry, hentry, rfl⟩ := List.mem_map.mp hline
        exact numbered_line (hactive entry.1 (List.fst_mem_of_mem_zipIdx hentry)).1 entry.2
  | false =>
      rw [lines_plain active] at hline
      obtain ⟨segment, hsegment, rfl⟩ := List.mem_map.mp hline
      obtain ⟨hstory, c, hc, hhead⟩ := hactive segment hsegment
      rw [String.toList_ofList]
      exact capitalize_line hstory hc hhead

theorem intercalate_lines_ne_nothing (active : segments.filter Segment.isActive ≠ [])
    (bracketed : Bool) :
    String.intercalate "\n" (lines bracketed segments target) ≠ nothing := by
  intro h
  have hhead := congrArg (fun text => text.toList.head?) h
  rw [String.toList_intercalate] at hhead
  cases bracketed with
  | true =>
      have hheading : heading.toList.head? = some 'P' := rfl
      simp only [lines_bracketed active, List.map_cons, head?_intercalate hheading] at hhead
      revert hhead
      decide
  | false =>
      obtain ⟨first, others, hfilter⟩ := List.exists_cons_of_ne_nil active
      have hmem : first ∈ segments.filter Segment.isActive := hfilter ▸ List.mem_cons_self
      obtain ⟨hsegment, hactive⟩ := List.mem_filter.mp hmem
      obtain ⟨c, hc, hstory⟩ := Segment.head?_story (planned first hsegment) target hactive
      obtain ⟨rest, -, hcapital⟩ := capitalize_of_opening hc hstory
      have hfirst : (String.ofList (capitalize (first.story target).toList)).toList.head? =
          some c.toUpper := by
        rw [String.toList_ofList, hcapital]
        rfl
      simp only [lines_plain active, hfilter, List.map_cons, head?_intercalate hfirst] at hhead
      exact (capital_of_opening hc).2.2 (Option.some.inj hhead)

theorem page_lines (active : segments.filter Segment.isActive ≠ []) (bracketed : Bool) :
    Page (String.intercalate "\n" (lines bracketed segments target)).toList
      ((lines bracketed segments target).length - 1) := by
  have hlines := lines_line planned target active bracketed
  have hne : lines bracketed segments target ≠ [] := by
    cases bracketed with
    | true => simp [lines_bracketed active]
    | false => simpa [lines_plain active] using active
  rw [String.toList_intercalate]
  have hpage := Page.intercalate (by simpa using hne) hlines
  rw [List.length_map] at hpage
  exact hpage

end Planned

theorem length_of_readAll {config : Config Float} {target : Target Float} {text : String}
    {segments : List (Segment Float)} (h : Segment.readAll config target text = .ok segments)
    (plain : Groups.bracketed text.toList = false) : segments.length = 1 := by
  have hnone : '[' ∉ text.toList := by simpa [Groups.bracketed] using plain
  rw [Segment.length_readEach h, Groups.ofText_of_notMem hnone]
  rfl

theorem describe_eq_lines {config : Config Float} {target : Target Float} {text : String}
    {segments : List (Segment Float)}
    (h : Segment.readAll config target text = .ok segments) :
    describe config target text =
      .ok (String.intercalate "\n" (lines (Groups.bracketed text.toList) segments target)) := by
  have planned := Segment.plan_of_readEach h
  rw [describe, h]
  simp only
  cases hbracketed : Groups.bracketed text.toList with
  | true => rw [if_pos rfl, finalize_gather planned]
  | false =>
      rw [if_neg (by simp), finalize_join planned target (length_of_readAll h hbracketed)]

structure Shape (config : Config Float) (target : Target Float) (bracketed : Bool)
    (segments : List (Segment Float)) (description : String) : Prop where
  nothing_iff : description = nothing ↔ ∀ segment ∈ segments, segment.grid.activePipes = []
  idle_iff : description = nothing ↔ ∀ segment ∈ segments, segment.steps = []
  tales : ∀ segment ∈ segments, segment.tale target =
    segment.grid.activePipes.map fun entry =>
      tidy ((PipePlan.ofActions config entry.1 entry.2).sentence (entry.2.map (·.rebase target)))
  ends : ∀ segment ∈ segments, ∀ sentence ∈ segment.tale target,
    ∃ beginning, sentence = beginning ++ "instantly." ∨ sentence = beginning ++ "seconds."
  plain : bracketed = false → description ≠ nothing → ∃ segment, segments = [segment] ∧
    description = String.ofList (capitalize (segment.story target).toList)
  gathered : bracketed = true → description ≠ nothing →
    description = String.intercalate "\n" (heading ::
      ((segments.filter Segment.isActive).zipIdx 1).map fun entry =>
        "Animation #" ++ entry.2.repr ++ " will " ++ entry.1.story target)
  page : Page description.toList
    (if bracketed then (segments.filter Segment.isActive).length else 0)

theorem describe_shape {config : Config Float} {target : Target Float} {text description : String}
    (h : describe config target text = .ok description) :
    ∃ segments, Segment.readAll config target text = .ok segments ∧
      Shape config target (Groups.bracketed text.toList) segments description := by
  obtain ⟨segments, hread⟩ : ∃ segments, Segment.readAll config target text = .ok segments := by
    rw [describe] at h
    split at h
    · cases h
    · exact ⟨_, by assumption⟩
  have planned := Segment.plan_of_readEach hread
  have hdescription : description =
      String.intercalate "\n" (lines (Groups.bracketed text.toList) segments target) := by
    rw [describe_eq_lines hread] at h
    exact (Except.ok.inj h).symm
  have hidle : segments.filter Segment.isActive = [] ↔
      ∀ segment ∈ segments, segment.grid.activePipes = [] := by
    simp [List.filter_eq_nil_iff, Segment.isActive]
  have hsteps : ∀ segment ∈ segments, (segment.steps = [] ↔ segment.grid.activePipes = []) := by
    intro segment hmem
    simp [Segment.steps, planned segment hmem, Plan.ofGrid]
  have hnothing : description = nothing ↔ segments.filter Segment.isActive = [] := by
    constructor
    · intro heq
      by_contra active
      exact intercalate_lines_ne_nothing planned target active _ (hdescription ▸ heq)
    · intro idle
      rw [hdescription, lines_of_idle idle]
      rfl
  have hplain : Groups.bracketed text.toList = false → ∃ segment, segments = [segment] :=
    fun plain => List.length_eq_one_iff.mp (length_of_readAll hread plain)
  refine ⟨segments, hread, hnothing.trans hidle, ?_, ?_, ?_, ?_, ?_, ?_⟩
  · rw [hnothing, hidle]
    exact forall₂_congr fun segment hmem => (hsteps segment hmem).symm
  · intro segment hmem
    rw [Segment.tale, Segment.sentences_of_planned (planned segment hmem), List.map_map]
    rfl
  · exact fun segment hmem => Segment.tale_ends (planned segment hmem) target
  · intro plain hne
    obtain ⟨segment, rfl⟩ := hplain plain
    rw [Ne, hnothing] at hne
    have hactive : [segment].filter Segment.isActive = [segment] := by
      simpa [List.filter_cons] using hne
    refine ⟨segment, rfl, ?_⟩
    rw [hdescription, plain, lines_plain hne, hactive]
    rfl
  · intro bracketed hne
    rw [hdescription, bracketed, lines_bracketed fun idle => hne (hnothing.mpr idle)]
    rfl
  · by_cases idle : segments.filter Segment.isActive = []
    · rw [hnothing.mpr idle, idle, List.length_nil, ite_self]
      exact .of_line ⟨by decide, collapseSpaces_single nothing.toList, ⟨'d', rfl, rfl⟩,
        'g', by decide, rfl⟩
    · have hpage := page_lines planned target idle (Groups.bracketed text.toList)
      rw [← hdescription] at hpage
      cases bracketed : Groups.bracketed text.toList with
      | true =>
          rw [bracketed, lines_bracketed idle] at hpage
          simpa using hpage
      | false =>
          obtain ⟨segment, rfl⟩ := hplain bracketed
          have hone : ([segment].filter Segment.isActive).length ≤ 1 := List.length_filter_le _ _
          rw [bracketed, lines_plain idle, List.length_map, Nat.sub_eq_zero_of_le hone] at hpage
          exact hpage

theorem describe_shape_of_three_groups :
    ∃ segments description,
      describe Config.standard Target.standard "[x5|d2][ ][L2,][|]" = .ok description ∧
      Segment.readAll Config.standard Target.standard "[x5|d2][ ][L2,][|]" = .ok segments ∧
      Shape Config.standard Target.standard true segments description := by
  have h : describe Config.standard Target.standard "[x5|d2][ ][L2,][|]" = .ok _ := rfl
  obtain ⟨segments, hread, hshape⟩ := describe_shape h
  exact ⟨segments, _, h, hread, hshape⟩

end Description

end MotionNotation
