import Mathlib.Data.List.Chain
import Mathlib.Data.List.DropRight
import MotionNotation.Description.Basic

/-!
# Spaces

What tidying does to a text: one of each run of spaces stays, and none at the
front.  A text in which other blanks do not occur, and which ends in a letter or
a stop, is trimmed by that already.
-/

namespace MotionNotation.Description

/-- The text from its first character that is no space, with one of each run of
spaces. -/
def squeeze (text : List Char) : List Char :=
  collapseSpaces (text.dropWhile (· == ' '))

def tidy (sentence : String) : String :=
  String.ofList (Text.trim (collapseSpaces sentence.toList))

/-! ## Runs of spaces -/

theorem collapseSpaces_append {first second : List Char}
    (h : first.getLast? ≠ some ' ' ∨ second.head? ≠ some ' ') :
    collapseSpaces (first ++ second) = collapseSpaces first ++ collapseSpaces second := by
  induction first with
  | nil => rfl
  | cons c rest ih =>
      cases rest with
      | nil =>
          have hboth : ¬(c = ' ' ∧ second.head? = some ' ') := by
            rintro ⟨rfl, hsecond⟩
            simp [hsecond] at h
          simp [collapseSpaces, hboth]
      | cons next others =>
          rw [List.getLast?_cons_cons] at h
          have hrest := ih h
          rw [List.cons_append, collapseSpaces, collapseSpaces, hrest, List.cons_append,
            List.head?_cons, List.head?_cons]
          split <;> rfl

theorem collapseSpaces_of_notMem {text : List Char} (h : ' ' ∉ text) :
    collapseSpaces text = text := by
  induction text with
  | nil => rfl
  | cons c rest ih =>
      rw [List.mem_cons, not_or] at h
      rw [collapseSpaces, if_neg (fun hboth => h.1 hboth.1.symm), ih h.2]

theorem collapseSpaces_sublist (text : List Char) : (collapseSpaces text).Sublist text := by
  induction text with
  | nil => exact .slnil
  | cons c rest ih =>
      rw [collapseSpaces]
      split
      · exact ih.cons c
      · exact ih.cons_cons c

theorem head?_collapseSpaces (text : List Char) :
    (collapseSpaces text).head? = text.head? := by
  induction text with
  | nil => rfl
  | cons c rest ih =>
      rw [collapseSpaces]
      split
      · rename_i h
        rw [ih, h.1, h.2, List.head?_cons]
      · rfl

theorem getLast?_collapseSpaces (text : List Char) :
    (collapseSpaces text).getLast? = text.getLast? := by
  induction text with
  | nil => rfl
  | cons c rest ih =>
      rw [collapseSpaces]
      split
      · rename_i h
        cases rest with
        | nil => cases h.2
        | cons next others => rw [ih, List.getLast?_cons_cons]
      · rw [List.getLast?_cons, List.getLast?_cons, ih]

def Single (text : List Char) : Prop :=
  text.IsChain fun first second => ¬(first = ' ' ∧ second = ' ')

theorem collapseSpaces_single (text : List Char) : Single (collapseSpaces text) := by
  induction text with
  | nil => exact .nil
  | cons c rest ih =>
      rw [collapseSpaces]
      split
      · exact ih
      · rename_i h
        refine List.isChain_cons.mpr ⟨fun next hnext => ?_, ih⟩
        rw [Option.mem_def, head?_collapseSpaces] at hnext
        rintro ⟨hc, rfl⟩
        exact h ⟨hc, hnext⟩

theorem collapseSpaces_of_single {text : List Char} (h : Single text) :
    collapseSpaces text = text := by
  induction text with
  | nil => rfl
  | cons c rest ih =>
      obtain ⟨hnext, hrest⟩ := List.isChain_cons.mp h
      have hboth : ¬(c = ' ' ∧ rest.head? = some ' ') :=
        fun hboth => hnext ' ' hboth.2 ⟨hboth.1, rfl⟩
      rw [collapseSpaces, if_neg hboth, ih hrest]

/-! ## Spaces at the front -/

theorem collapseSpaces_cons_space (text : List Char) :
    collapseSpaces (' ' :: text) = ' ' :: squeeze text := by
  induction text with
  | nil => rfl
  | cons c rest ih =>
      by_cases hc : c = ' '
      · rw [hc, collapseSpaces, if_pos (by simp), ih, squeeze, squeeze,
          List.dropWhile_cons_of_pos (by simp)]
      · rw [collapseSpaces, if_neg (by simp [hc]), squeeze,
          List.dropWhile_cons_of_neg (by simpa using hc)]

theorem squeeze_cons_space (text : List Char) : squeeze (' ' :: text) = squeeze text := by
  rw [squeeze, squeeze, List.dropWhile_cons_of_pos (by simp)]

theorem squeeze_of_head? {text : List Char} (h : text.head? ≠ some ' ') :
    squeeze text = collapseSpaces text := by
  cases text with
  | nil => rfl
  | cons c rest =>
      rw [squeeze, List.dropWhile_cons_of_neg]
      simpa using h

theorem head?_squeeze (text : List Char) : (squeeze text).head? ≠ some ' ' := by
  rw [squeeze, head?_collapseSpaces]
  intro h
  have hhead := List.head?_dropWhile_not (· == ' ') text
  rw [h] at hhead
  simp at hhead

theorem head?_squeeze_eq (text : List Char) :
    (squeeze text).head? = text.find? (· != ' ') := by
  rw [squeeze, head?_collapseSpaces]
  induction text with
  | nil => rfl
  | cons c rest ih =>
      by_cases hc : c = ' '
      · rw [List.dropWhile_cons_of_pos (by simpa using hc), ih,
          List.find?_cons_of_neg (by simpa using hc)]
      · rw [List.dropWhile_cons_of_neg (by simpa using hc),
          List.find?_cons_of_pos (by simpa using hc)]
        rfl

theorem squeeze_sublist (text : List Char) : (squeeze text).Sublist text :=
  (collapseSpaces_sublist _).trans (List.dropWhile_sublist _)

theorem squeeze_of_notMem {text : List Char} (h : ' ' ∉ text) : squeeze text = text := by
  rw [squeeze_of_head?, collapseSpaces_of_notMem h]
  intro hhead
  exact h (List.mem_of_mem_head? hhead)

theorem squeeze_append {first second : List Char} (h : second.head? ≠ some ' ') :
    squeeze (first ++ second) = squeeze first ++ collapseSpaces second := by
  have hsecond : squeeze second = collapseSpaces second := squeeze_of_head? h
  rw [squeeze, List.dropWhile_append]
  split
  · rename_i hempty
    rw [List.isEmpty_iff] at hempty
    rw [← squeeze, hsecond, squeeze, hempty]
    rfl
  · rw [collapseSpaces_append (.inr h), squeeze]

theorem squeeze_append_space {first : List Char} {c : Char} (h : first.getLast? = some c)
    (hc : c ≠ ' ') (second : List Char) :
    squeeze (first ++ ' ' :: second) = squeeze first ++ ' ' :: squeeze second := by
  induction first with
  | nil => cases h
  | cons d rest ih =>
      by_cases hd : d = ' '
      · cases rest with
        | nil => exact absurd ((Option.some.inj h).symm.trans hd) hc
        | cons next others =>
            rw [List.getLast?_cons_cons] at h
            rw [hd, List.cons_append, squeeze_cons_space, squeeze_cons_space, ih h]
      · have hhead : ∀ text : List Char, (d :: text).head? ≠ some ' ' := by
          intro text
          simpa using hd
        rw [squeeze_of_head? (hhead rest), List.cons_append, squeeze_of_head? (hhead _),
          ← List.cons_append, collapseSpaces_append, collapseSpaces_cons_space]
        rw [h]
        exact .inl fun hspace => hc (Option.some.inj hspace)

theorem squeeze_word_append {word : List Char} (hne : word ≠ []) (h : ' ' ∉ word)
    (text : List Char) : squeeze (word ++ ' ' :: text) = word ++ ' ' :: squeeze text := by
  have hlast := List.getLast?_eq_some_getLast hne
  have hspace : word.getLast hne ≠ ' ' := fun hc => h (hc ▸ List.getLast_mem hne)
  rw [squeeze_append_space hlast hspace, squeeze_of_notMem h]

theorem squeeze_single (text : List Char) : Single (squeeze text) :=
  collapseSpaces_single _

theorem collapseSpaces_eq (text : List Char) :
    ∃ lead, (∀ c ∈ lead, c = ' ') ∧ collapseSpaces text = lead ++ squeeze text := by
  cases text with
  | nil => exact ⟨[], by simp, rfl⟩
  | cons c rest =>
      by_cases hc : c = ' '
      · refine ⟨[' '], by simp, ?_⟩
        rw [hc, collapseSpaces_cons_space, squeeze_cons_space]
        rfl
      · refine ⟨[], by simp, ?_⟩
        rw [squeeze_of_head? (by simpa using hc), List.nil_append]

theorem getLast?_squeeze {text : List Char} {c : Char} (h : text.getLast? = some c)
    (hc : c ≠ ' ') : (squeeze text).getLast? = some c := by
  obtain ⟨lead, hlead, heq⟩ := collapseSpaces_eq text
  rw [← getLast?_collapseSpaces, heq, List.getLast?_append] at h
  cases hlast : (squeeze text).getLast? with
  | none =>
      rw [hlast, Option.none_or] at h
      exact absurd (hlead c (List.mem_of_getLast? h)) hc
  | some d =>
      rw [hlast, Option.some_or] at h
      exact h

/-! ## Blanks at the ends -/

structure Firm (text : List Char) : Prop where
  head : ∃ c, text.head? = some c ∧ Text.isBlank c = false
  last : ∃ c, text.getLast? = some c ∧ Text.isBlank c = false

theorem trim_of_firm {lead body tail : List Char} (before : ∀ c ∈ lead, Text.isBlank c = true)
    (firm : Firm body) (behind : ∀ c ∈ tail, Text.isBlank c = true) :
    Text.trim (lead ++ body ++ tail) = body := by
  obtain ⟨⟨first, hhead, hfirst⟩, last, hlast, hblank⟩ := firm
  have hfront : (lead ++ body ++ tail).dropWhile Text.isBlank = body ++ tail := by
    rw [List.append_assoc, List.dropWhile_append_of_pos before]
    obtain ⟨rest, rfl⟩ := List.head?_eq_some_iff.mp hhead
    rw [List.cons_append, List.dropWhile_cons_of_neg (by simp [hfirst])]
  have hback : (body ++ tail).reverse.dropWhile Text.isBlank = body.reverse := by
    rw [List.reverse_append, List.dropWhile_append_of_pos (by simpa using behind)]
    obtain ⟨rest, rfl⟩ := List.getLast?_eq_some_iff.mp hlast
    rw [List.reverse_append, List.reverse_singleton, List.singleton_append,
      List.dropWhile_cons_of_neg (by simp [hblank])]
  rw [Text.trim, hfront, hback, List.reverse_reverse]

def Spaced (text : List Char) : Prop :=
  ∀ c ∈ text, Text.isBlank c = true → c = ' '

instance (text : List Char) : Decidable (Spaced text) :=
  List.decidableBAll (fun c => Text.isBlank c = true → c = ' ') text

theorem spaced_append {first second : List Char} :
    Spaced (first ++ second) ↔ Spaced first ∧ Spaced second :=
  List.forall_mem_append

theorem ne_space_of_not_isBlank {c : Char} (h : Text.isBlank c = false) : c ≠ ' ' := by
  rintro rfl
  cases h

theorem firm_squeeze {text : List Char} (spaced : Spaced text) {c : Char}
    (last : text.getLast? = some c) (hc : Text.isBlank c = false) : Firm (squeeze text) := by
  have hlast := getLast?_squeeze last (ne_space_of_not_isBlank hc)
  refine ⟨?_, c, hlast, hc⟩
  cases hhead : (squeeze text).head? with
  | none =>
      rw [List.head?_eq_none_iff.mp hhead] at hlast
      cases hlast
  | some first =>
      refine ⟨first, rfl, ?_⟩
      by_contra hblank
      have hmem := (squeeze_sublist text).subset (List.mem_of_mem_head? hhead)
      have hspace := spaced first hmem (by simpa using hblank)
      exact head?_squeeze text (hspace ▸ hhead)

theorem trim_collapseSpaces {text : List Char} (spaced : Spaced text) {c : Char}
    (last : text.getLast? = some c) (hc : Text.isBlank c = false) :
    Text.trim (collapseSpaces text) = squeeze text := by
  obtain ⟨lead, hlead, heq⟩ := collapseSpaces_eq text
  have hblank : ∀ d ∈ lead, Text.isBlank d = true := by
    intro d hd
    rw [hlead d hd]
    rfl
  have htrim : Text.trim (lead ++ squeeze text ++ []) = squeeze text :=
    trim_of_firm hblank (firm_squeeze spaced last hc) (by simp)
  rw [List.append_nil] at htrim
  rw [heq, htrim]

/-! ## Pages -/

structure Line (text : List Char) : Prop where
  spaced : Spaced text
  single : Single text
  firm : Firm text

theorem Line.squeeze {text : List Char} (line : Line text) : squeeze text = text := by
  obtain ⟨c, hhead, hc⟩ := line.firm.head
  have hspace : text.head? ≠ some ' ' := by
    rw [hhead]
    exact fun h => ne_space_of_not_isBlank hc (Option.some.inj h)
  rw [squeeze_of_head? hspace, collapseSpaces_of_single line.single]

structure Page (text : List Char) (breaks : Nat) : Prop where
  breaks : text.count '\n' = breaks
  blanks : ∀ c ∈ text, Text.isBlank c = true → c = ' ' ∨ c = '\n'
  single : Single text
  firm : Firm text

namespace Page

theorem of_line {text : List Char} (line : Line text) : Page text 0 := by
  refine ⟨List.count_eq_zero.mpr fun hmem => ?_, ?_, line.single, line.firm⟩
  · have hspace := line.spaced '\n' hmem (by decide)
    cases hspace
  · exact fun c hc hblank => .inl (line.spaced c hc hblank)

theorem cons {text rest : List Char} {breaks : Nat} (line : Line text) (page : Page rest breaks) :
    Page (text ++ '\n' :: rest) (breaks + 1) := by
  have hline := of_line line
  obtain ⟨head, hhead, hblank⟩ := line.firm.head
  obtain ⟨last, hlast, hend⟩ := page.firm.last
  refine ⟨?_, ?_, ?_, ⟨head, ?_, hblank⟩, last, ?_, hend⟩
  · rw [List.count_append, List.count_cons_self, hline.breaks, page.breaks, Nat.zero_add]
  · intro c hc hc'
    rcases List.mem_append.mp hc with hc | hc
    · exact hline.blanks c hc hc'
    · rcases List.mem_cons.mp hc with hc | hc
      · exact .inr hc
      · exact page.blanks c hc hc'
  · refine List.isChain_append.mpr ⟨line.single, ?_, ?_⟩
    · exact List.isChain_cons.mpr ⟨fun c _ hboth => absurd hboth.1 (by decide), page.single⟩
    · intro c _ d hd hboth
      simp only [List.head?_cons, Option.mem_def, Option.some.injEq] at hd
      exact absurd (hd.trans hboth.2) (by decide)
  · rw [List.head?_append, hhead]
    rfl
  · rw [List.getLast?_append, List.getLast?_cons, hlast]
    rfl

theorem intercalate {texts : List (List Char)} (hne : texts ≠ [])
    (h : ∀ text ∈ texts, Line text) :
    Page (['\n'].intercalate texts) (texts.length - 1) := by
  induction texts with
  | nil => exact absurd rfl hne
  | cons text rest ih =>
      rw [List.forall_mem_cons] at h
      cases rest with
      | nil => simpa using of_line h.1
      | cons next others =>
          rw [List.intercalate_cons_cons, List.append_assoc]
          exact cons h.1 (ih (by simp) h.2)

end Page

end MotionNotation.Description
