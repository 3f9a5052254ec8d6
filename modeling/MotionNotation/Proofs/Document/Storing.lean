import Mathlib.Data.List.Basic
import MotionNotation.Document.Playback

/-!
# Storing values

What it takes for a value to be read back as it was written: its floats are
finite and its counts fit the words they are read into.  The second needs no
care, since whatever is read from a document fits.
-/

namespace MotionNotation

namespace Json

/-! ## Members by their names -/

theorem membersNamed_fields {members : List (String × Json)} (once : (members.map Prod.fst).Nodup)
    {member : String × Json} (h : member ∈ members) :
    membersNamed (members.map fun member => (some member.1, member.2)) member.1 =
      [member.2] := by
  induction members with
  | nil => cases h
  | cons first rest ih =>
      obtain ⟨hfresh, honce⟩ := List.nodup_cons.mp once
      rcases List.mem_cons.mp h with rfl | hmem
      · have hrest : membersNamed (rest.map fun member => (some member.1, member.2)) member.1 =
            [] := by
          rw [membersNamed, List.map_eq_nil_iff, List.filter_eq_nil_iff]
          intro other hother hsame
          obtain ⟨found, hfound, rfl⟩ := List.mem_map.mp hother
          have hname : found.1 = member.1 := by simpa using hsame
          exact hfresh (hname ▸ List.mem_map_of_mem hfound)
        rw [membersNamed] at hrest ⊢
        rw [List.map_cons, List.filter_cons_of_pos (by simp), List.map_cons, hrest]
      · have hother : first.1 ≠ member.1 := by
          rintro hsame
          exact hfresh (hsame ▸ List.mem_map_of_mem hmem)
        rw [← ih honce hmem, membersNamed, membersNamed, List.map_cons,
          List.filter_cons_of_neg (by simpa using hother)]

theorem uniqueMember_fields {members : List (String × Json)}
    (once : (members.map Prod.fst).Nodup) {name : String} {value : Json}
    (h : (name, value) ∈ members) :
    uniqueMember (members.map fun member => (some member.1, member.2)) name =
      some (some value) := by
  rw [uniqueMember, membersNamed_fields once h]

theorem mapM_eq_some {β γ : Type} {f : β → Option γ} {g : β → γ} {items : List β}
    (h : ∀ item ∈ items, f item = some (g item)) : items.mapM f = some (items.map g) := by
  induction items with
  | nil => rfl
  | cons item rest ih =>
      obtain ⟨hitem, hrest⟩ := List.forall_mem_cons.mp h
      rw [List.mapM_cons, hitem, ih hrest]
      rfl

theorem exists_of_mapM_eq_some {β γ : Type} {f : β → Option γ} {items : List β}
    {results : List γ} (h : items.mapM f = some results) {result : γ} (hmem : result ∈ results) :
    ∃ item, f item = some result := by
  induction items generalizing results with
  | nil =>
      cases h
      cases hmem
  | cons item rest ih =>
      rw [List.mapM_cons] at h
      obtain ⟨first, hfirst, h⟩ := Option.bind_eq_some_iff.mp h
      obtain ⟨others, hothers, h⟩ := Option.bind_eq_some_iff.mp h
      cases h
      rcases List.mem_cons.mp hmem with rfl | hmem
      · exact ⟨item, hfirst⟩
      · exact ih hothers hmem

theorem bind_record?_fields {α : Type} {names : List String} {members : List (String × Json)}
    {read : List (Option Json) → Option α} {value : α} (named : members.map Prod.fst = names)
    (once : names.Nodup) (h : read (members.map fun member => some member.2) = some value) :
    ((fields members).record? names).bind read = some value := by
  subst named
  have hfields : (fields members).record? (members.map Prod.fst) =
      some (members.map fun member => some member.2) := by
    rw [fields, record?, if_pos (by simp), List.mapM_map]
    exact mapM_eq_some fun member hmem => uniqueMember_fields once hmem
  rw [hfields, Option.bind_some, h]

end Json

/-! ## Values that are kept -/

class Measured (α : Type) where
  IsFinite : α → Prop := fun _ => True
  /-- All counts fit the machine words that hold them. -/
  Fits : α → Prop := fun _ => True

open Document Measured

class Storable (α : Type) [Document α] [Measured α] : Prop where
  decode_encode {value : α} (fits : Fits value) (finite : IsFinite value) :
    decode? (encode value) = some value
  fits_of_decode {json : Json} {value : α} (h : decode? json = some value) : Fits value

open Storable

section Fields

variable {α β : Type} [Document α] [Measured α] [Storable α] {next : α → Option β} {result : β}

theorem bind_required {value : α} (fits : Fits value) (finite : IsFinite value)
    (h : next value = some result) : (required (some (encode value))).bind next = some result := by
  rw [required, decode_encode fits finite, Option.bind_some, h]

theorem bind_optional {default value : α} (fits : Fits value) (finite : IsFinite value)
    (h : next value = some result) :
    (Document.optional default (some (encode value))).bind next = some result := by
  rw [Document.optional, decode_encode fits finite, Option.bind_some, h]

theorem exists_of_bind_decode? {json : Json} (h : (decode? json).bind next = some result) :
    ∃ value, Fits value ∧ next value = some result := by
  obtain ⟨value, hvalue, hnext⟩ := Option.bind_eq_some_iff.mp h
  exact ⟨value, fits_of_decode hvalue, hnext⟩

theorem exists_of_bind_required {field : Option Json}
    (h : (required field).bind next = some result) :
    ∃ value, Fits value ∧ next value = some result := by
  cases field with
  | none => cases h
  | some json => exact exists_of_bind_decode? h

theorem exists_of_bind_optional {default : α} (standard : Fits default) {field : Option Json}
    (h : (Document.optional default field).bind next = some result) :
    ∃ value, Fits value ∧ next value = some result := by
  cases field with
  | none => exact ⟨default, standard, h⟩
  | some json => exact exists_of_bind_decode? h

end Fields

/-! ## Numbers, words and texts -/

theorem Json.lt_of_natural? {bits value : Nat} {json : Json}
    (h : json.natural? bits = some value) : value < Nat.pow 2 bits := by
  unfold Json.natural? at h
  split at h
  · split at h
    · rename_i hword
      cases h
      exact hword.2
    · cases h
  · cases h

theorem Json.map_natural?_word {β : Type} (word : UInt32) (make : UInt32 → β) :
    (Json.natural? 32 (.natural word.toNat)).map (fun value => make value.toUInt32) =
      some (make word) := by
  have hword : Json.natural? 32 (.natural word.toNat) = some word.toNat :=
    Json.natural?_natural word.toNat_lt
  rw [hword, Option.map_some, Nat.toUInt32, UInt32.ofNat_toNat]

instance : Measured Float where
  IsFinite value := value.isFinite = true

instance : Storable Float where
  decode_encode _ finite := if_pos finite
  fits_of_decode _ := trivial

instance : Measured Nat where
  Fits value := value < Nat.pow 2 64

instance (value : Nat) : Decidable (Fits value) :=
  inferInstanceAs (Decidable (value < Nat.pow 2 64))

instance : Storable Nat where
  decode_encode fits _ := Json.natural?_natural fits
  fits_of_decode h := Json.lt_of_natural? h

instance : Measured Bool := {}

instance : Storable Bool where
  decode_encode _ _ := rfl
  fits_of_decode _ := trivial

instance : Measured String := {}

instance : Storable String where
  decode_encode _ _ := rfl
  fits_of_decode _ := trivial

instance : Measured TargetId := {}

instance : Storable TargetId where
  decode_encode := by
    intro id _ _
    exact Json.map_natural?_word id.val TargetId.mk
  fits_of_decode _ := trivial

instance : Measured AnimationId := {}

instance : Storable AnimationId where
  decode_encode := by
    intro id _ _
    exact Json.map_natural?_word id.val AnimationId.mk
  fits_of_decode _ := trivial

/-! ## Names -/

theorem find?_name {β : Type} {name : β → String} {all : List β} (once : (all.map name).Nodup)
    {item : β} (h : item ∈ all) : all.find? (name · == name item) = some item := by
  induction all with
  | nil => cases h
  | cons first rest ih =>
      obtain ⟨hfresh, honce⟩ := List.nodup_cons.mp once
      rcases List.mem_cons.mp h with rfl | hmem
      · exact List.find?_cons_of_pos (by simp)
      · have hother : name first ≠ name item := by
          intro hsame
          exact hfresh (hsame ▸ List.mem_map_of_mem hmem)
        rw [List.find?_cons_of_neg (by simpa using hother), ih honce hmem]

instance : Measured Easing := {}

instance : Storable Easing where
  decode_encode := by
    intro easing _ _
    change Easing.all.find? (·.key == easing.key) = some easing
    exact find?_name (by decide) easing.mem_all
  fits_of_decode _ := trivial

instance : Measured Channel := {}

instance : Storable Channel where
  decode_encode := by
    intro channel _ _
    change Channel.all.find? (·.name == channel.name) = some channel
    exact find?_name (by decide) channel.mem_all
  fits_of_decode _ := trivial

instance : Measured Operator := {}

instance : Storable Operator where
  decode_encode := by
    intro operator _ _
    change Operator.all.find? (·.key == operator.key) = some operator
    exact find?_name (by decide) operator.mem_all
  fits_of_decode _ := trivial

instance : Measured LoopMode := {}

instance : Storable LoopMode where
  decode_encode := by
    intro mode _ _
    cases mode <;> rfl
  fits_of_decode _ := trivial

instance : Measured Timer.State := {}

instance : Storable Timer.State where
  decode_encode := by
    intro state _ _
    cases state <;> rfl
  fits_of_decode _ := trivial

instance : Measured Repetition where
  Fits
    | .finite count => count < Nat.pow 2 32
    | .infinite => True

instance : Storable Repetition where
  decode_encode := by
    intro repetition fits _
    cases repetition with
    | finite count =>
        have hcount : Json.natural? 32 (.natural count) = some count := Json.natural?_natural fits
        change (Json.natural? 32 (.natural count)).map _ = _
        rw [hcount, Option.map_some]
    | infinite => rfl
  fits_of_decode := by
    intro json repetition h
    cases repetition with
    | finite count =>
        simp only [decode?] at h
        split at h
        · obtain ⟨found, hfound, heq⟩ := Option.map_eq_some_iff.mp h
          cases heq
          exact Json.lt_of_natural? hfound
        all_goals cases h
    | infinite => exact trivial

/-! ## Containers -/

class Visible (α : Type) [Document α] : Prop where
  encode_ne_null (value : α) : encode value ≠ .null

instance : Visible Float := ⟨fun _ => nofun⟩

instance : Visible String := ⟨fun _ => nofun⟩

section Containers

variable {α : Type} [Document α] [Measured α]

instance : Measured (Option α) where
  IsFinite value? := ∀ value ∈ value?, IsFinite value
  Fits value? := ∀ value ∈ value?, Fits value

omit [Measured α] in
theorem decode?_option {json : Json} (h : json ≠ .null) :
    (decode? json : Option (Option α)) = (decode? json).map some := by
  cases json with
  | null => exact absurd rfl h
  | _ => rfl

instance [Storable α] [Visible α] : Storable (Option α) where
  decode_encode := by
    intro value? fits finite
    cases value? with
    | none => rfl
    | some value =>
        change decode? (encode value) = some (some value)
        rw [decode?_option (Visible.encode_ne_null value), decode_encode (fits value rfl)
          (finite value rfl), Option.map_some]
  fits_of_decode := by
    intro json value? h value hvalue
    obtain rfl : value? = some value := hvalue
    cases json with
    | null => cases h
    | _ =>
        obtain ⟨found, hfound, heq⟩ := Option.map_eq_some_iff.mp h
        cases heq
        exact fits_of_decode hfound

instance : Measured (List α) where
  IsFinite items := ∀ item ∈ items, IsFinite item
  Fits items := ∀ item ∈ items, Fits item

instance [Storable α] : Storable (List α) where
  decode_encode := by
    intro items fits finite
    have hitems : (items.map encode).mapM decode? = some (items.map id) := by
      rw [List.mapM_map]
      exact Json.mapM_eq_some fun item hmem => decode_encode (fits item hmem) (finite item hmem)
    rwa [List.map_id] at hitems
  fits_of_decode := by
    intro json items h item hmem
    cases json with
    | array found =>
        obtain ⟨source, hsource⟩ := Json.exists_of_mapM_eq_some h hmem
        exact fits_of_decode hsource
    | _ => cases h

instance : Measured (Triple α) where
  IsFinite triple := IsFinite triple.x ∧ IsFinite triple.y ∧ IsFinite triple.z
  Fits triple := Fits triple.x ∧ Fits triple.y ∧ Fits triple.z

instance [Storable α] : Storable (Triple α) where
  decode_encode := by
    rintro triple ⟨hx, hy, hz⟩ ⟨x, y, z⟩
    exact bind_required hx x (bind_required hy y (bind_required hz z rfl))
  fits_of_decode := by
    intro json triple h
    simp only [decode?] at h
    split at h
    · obtain ⟨x, hx, h⟩ := exists_of_bind_decode? h
      obtain ⟨y, hy, h⟩ := exists_of_bind_decode? h
      obtain ⟨z, hz, h⟩ := exists_of_bind_decode? h
      cases h
      exact ⟨hx, hy, hz⟩
    · cases h

end Containers

end MotionNotation
