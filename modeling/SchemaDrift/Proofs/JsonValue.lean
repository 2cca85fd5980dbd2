import Mathlib.Data.List.Forall2
import Mathlib.Data.List.Nodup
import Mathlib.Data.Option.Basic
import SchemaDrift.Json.Basic

/-! Values that can be told from their JSON form. Two JSON values are the same if they hold the same at each place,
whatever the order of fields; a type is faithful if only equal values have the same form. Types of fields are put
together to types of records by one fact: an object whose labels are distinct has what its fields have, and a field
that is left out is told from every field that is there. -/

namespace SchemaDrift

namespace Json

/-- Equality of JSON values. Objects are the same if they have the same under each label, in whatever order their
fields stand. -/
inductive Same : Json → Json → Prop where
  | null : Same .null .null
  | bool (value : Bool) : Same (.bool value) (.bool value)
  | number (value : Nat) : Same (.number value) (.number value)
  | string (text : String) : Same (.string text) (.string text)
  | array {first second : List Json} (items : List.Forall₂ Same first second) : Same (.array first) (.array second)
  | object {first second : List (String × Json)}
      (fields : ∀ label, Option.Rel Same (first.lookup label) (second.lookup label)) :
      Same (.object first) (.object second)

theorem mem_of_lookup {β : Type} {fields : List (String × β)} {label : String} {value : β}
    (found : fields.lookup label = some value) : (label, value) ∈ fields := by
  induction fields with
  | nil => contradiction
  | cons field rest ih =>
      obtain ⟨own, held⟩ := field
      rw [List.lookup_cons] at found
      split at found
      next same =>
        obtain rfl := Option.some.inj found
        rw [eq_of_beq same]
        exact List.mem_cons_self
      next => exact List.mem_cons_of_mem _ (ih found)

@[simp] theorem Same.refl : (json : Json) → Same json json
  | .null => .null
  | .bool value => .bool value
  | .number value => .number value
  | .string text => .string text
  | .array items => .array (List.forall₂_same.mpr fun item _ => refl item)
  | .object fields => .object fun label => by
      cases found : fields.lookup label with
      | none => exact .none
      | some value =>
          have member := mem_of_lookup found
          exact .some (refl value)
termination_by json => sizeOf json
decreasing_by
  · have smaller := List.sizeOf_lt_of_mem ‹_›
    simp only [array.sizeOf_spec]
    omega
  · have smaller := List.sizeOf_lt_of_mem member
    simp only [object.sizeOf_spec, Prod.mk.sizeOf_spec] at smaller ⊢
    omega

/-- Lists with the same labels, each once, hold related values if each label looks up related values. -/
theorem forall₂_of_lookup {β : Type} {related : β → β → Prop} {first second : List (String × β)}
    (labels : first.map Prod.fst = second.map Prod.fst) (distinct : (first.map Prod.fst).Nodup)
    (each : ∀ label one other, first.lookup label = some one → second.lookup label = some other →
      related one other) : List.Forall₂ (fun one other => related one.2 other.2) first second := by
  induction first generalizing second with
  | nil =>
      obtain rfl := List.map_eq_nil_iff.mp labels.symm
      exact .nil
  | cons field rest ih =>
      cases second with
      | nil => contradiction
      | cons other others =>
          obtain ⟨label, one⟩ := field
          obtain ⟨_, two⟩ := other
          obtain ⟨rfl, behind⟩ := List.cons.inj labels
          obtain ⟨fresh, distinct⟩ := List.nodup_cons.mp distinct
          constructor
          · exact each label one two (by simp) (by simp)
          · apply ih behind distinct
            intro later here there found found_too
            have different : (later == label) = false := by
              simp only [beq_eq_false_iff_ne]
              rintro rfl
              exact fresh (List.mem_map.mpr ⟨_, mem_of_lookup found, rfl⟩)
            apply each later here there
            · rw [List.lookup_cons, different]
              exact found
            · rw [List.lookup_cons, different]
              exact found_too

def written (slots : List (String × Option Json)) : List (String × Json) :=
  slots.filterMap fun slot => slot.2.map (slot.1, ·)

theorem lookup_written {slots : List (String × Option Json)} (distinct : (slots.map Prod.fst).Nodup)
    (label : String) : (written slots).lookup label = (slots.lookup label).join := by
  induction slots with
  | nil => rfl
  | cons slot rest ih =>
      obtain ⟨own, held⟩ := slot
      obtain ⟨fresh, distinct⟩ := List.nodup_cons.mp distinct
      have behind := ih distinct
      by_cases same : label = own
      · subst same
        have missing : rest.lookup label = none := by
          rw [List.lookup_eq_none_iff]
          intro other listed
          simp only [bne_iff_ne]
          rintro rfl
          exact fresh (List.mem_map.mpr ⟨other, listed, rfl⟩)
        cases held with
        | none => simpa [written, missing] using behind
        | some value => simp [written]
      · have different : (label == own) = false := beq_false_of_ne same
        cases held with
        | none => simpa [written, List.lookup_cons, different] using behind
        | some value => simpa [written, List.lookup_cons, different] using behind

namespace Same

variable {first second : List (String × Json)} {some_first some_second : List (String × Option Json)}

theorem eq_null_of_left {json : Json} (same : Same .null json) : json = .null := by
  cases same
  rfl

theorem eq_null_of_right {json : Json} (same : Same json .null) : json = .null := by
  cases same
  rfl

theorem lookup (same : Same (.object first) (.object second)) (label : String) :
    Option.Rel Same (first.lookup label) (second.lookup label) := by
  cases same with
  | object each => exact each label

theorem fields (same : Same (.object first) (.object second))
    (labels : first.map Prod.fst = second.map Prod.fst) (distinct : (first.map Prod.fst).Nodup) :
    List.Forall₂ (fun one other => Same one.2 other.2) first second := by
  apply forall₂_of_lookup labels distinct
  intro label one other found found_too
  have related := same.lookup label
  rw [found, found_too] at related
  cases related with
  | some values => exact values

theorem slots (same : Same (.object (written some_first)) (.object (written some_second)))
    (labels : some_first.map Prod.fst = some_second.map Prod.fst) (distinct : (some_first.map Prod.fst).Nodup) :
    List.Forall₂ (fun one other => Option.Rel Same one.2 other.2) some_first some_second := by
  apply forall₂_of_lookup labels distinct
  intro label one other found found_too
  have related := same.lookup label
  rw [lookup_written distinct, lookup_written (labels ▸ distinct), found, found_too] at related
  exact related

end Same

end Json

/-! Faithful types. -/

theorem eq_of_rel_map {α : Type} {form : α → Json}
    (told : ∀ first second, (form first).Same (form second) → first = second) {first second : Option α}
    (related : Option.Rel Json.Same (first.map form) (second.map form)) : first = second := by
  cases first with
  | none =>
      cases second with
      | none => rfl
      | some value => cases related
  | some value =>
      cases second with
      | none => cases related
      | some other =>
          cases related with
          | some values => exact congrArg some (told value other values)

/-- Values with the same JSON form are equal. -/
class Faithful (α : Type) [ToJson α] : Prop where
  eq_of_same : ∀ first second : α, (toJson first).Same (toJson second) → first = second

/-- No value is written as null, so an optional value tells whether it is missing. -/
class NeverNull (α : Type) [ToJson α] : Prop where
  ne_null : ∀ value : α, toJson value ≠ .null

section

variable {α : Type} [ToJson α]

@[simp] theorem same_toJson_iff [Faithful α] (first second : α) :
    (toJson first).Same (toJson second) ↔ first = second := by
  constructor
  · exact Faithful.eq_of_same first second
  · rintro rfl
    exact .refl _

@[simp] theorem rel_map_toJson_iff [Faithful α] (first second : Option α) :
    Option.Rel Json.Same (first.map toJson) (second.map toJson) ↔ first = second := by
  constructor
  · exact eq_of_rel_map Faithful.eq_of_same
  · rintro rfl
    cases first <;> simp

theorem Faithful.ofText {text : α → String} (written : ∀ value, toJson value = .string (text value))
    (injective : Function.Injective text) : Faithful α where
  eq_of_same first second same := by
    rw [written, written] at same
    generalize one : text first = left at same
    generalize other : text second = right at same
    cases same
    exact injective (one.trans other.symm)

/-- Records that are written as their fields: all have the same labels, each once, and what stands under them tells
the record. -/
theorem Faithful.ofFields {fields : α → List (String × Json)}
    (written : ∀ value, toJson value = .object (fields value))
    (labels : ∀ first second, (fields first).map Prod.fst = (fields second).map Prod.fst)
    (distinct : ∀ value, ((fields value).map Prod.fst).Nodup)
    (told : ∀ first second,
      List.Forall₂ (fun one other => Json.Same one.2 other.2) (fields first) (fields second) → first = second) :
    Faithful α where
  eq_of_same first second same := by
    rw [written, written] at same
    exact told first second (same.fields (labels first second) (distinct first))

instance [Faithful α] [NeverNull α] : Faithful (Option α) where
  eq_of_same first second same := by
    cases first with
    | none =>
        cases second with
        | none => rfl
        | some value => exact absurd same.eq_null_of_left (NeverNull.ne_null value)
    | some value =>
        cases second with
        | none => exact absurd same.eq_null_of_right (NeverNull.ne_null value)
        | some other => exact congrArg some (Faithful.eq_of_same value other same)

instance [Faithful α] : Faithful (List α) where
  eq_of_same first second same := by
    generalize one : toJson first = left at same
    generalize other : toJson second = right at same
    cases same with
    | array items =>
        cases one
        cases other
        simpa [List.forall₂_map_left_iff, List.forall₂_map_right_iff] using items
    | _ => cases one

end

instance : Faithful String :=
  .ofText (fun _ => rfl) fun _ _ same => same

instance : Faithful Bool where
  eq_of_same _ _ same := by
    cases same
    rfl

instance : Faithful Nat where
  eq_of_same _ _ same := by
    cases same
    rfl

instance : Faithful UInt64 where
  eq_of_same first second same :=
    UInt64.toNat_inj.mp (Faithful.eq_of_same first.toNat second.toNat same)

instance : NeverNull String := ⟨nofun⟩

instance : NeverNull Bool := ⟨nofun⟩

instance : NeverNull UInt64 := ⟨nofun⟩

instance {α : Type} [ToJson α] : NeverNull (List α) := ⟨nofun⟩

end SchemaDrift
