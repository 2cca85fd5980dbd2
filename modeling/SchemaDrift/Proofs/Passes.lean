import SchemaDrift.Proofs.Leftovers
import Mathlib.Data.List.ReduceOption

/-!
Any number of passes by keys of any kind, told by places alone. Whatever passes have been made, the partners are a
one-to-one part of the old places; one more pass adds to them, for each key, the free places with it on both sides in
order, and nothing else.
-/

namespace SchemaDrift.Pairing

open scoped List

variable {α κ : Type}

/-- For each new entry the place of its partner. -/
def partners (pairing : Pairing α) : List (Option Nat) :=
  pairing.rows.map fun row => row.old.map (·.2)

/-- An old place is paired if no entry waits there. -/
def isPaired (pairing : Pairing α) (origin : Nat) : Bool :=
  origin ∉ pairing.unpaired.map (·.2)

/-- The free places of the entries with a key, in order. -/
def placesWith [DecidableEq κ] (key : α → κ) (chosen : κ) (entries : List α) (free : Nat → Bool) : List Nat :=
  (entriesWith key chosen (entries.zipIdx.filter (free ·.2))).map (·.2)

/-- The old places with a key that are not paired. -/
def waitingFor [DecidableEq κ] (key : α → κ) (chosen : κ) (old : List α) (pairing : Pairing α) : List Nat :=
  placesWith key chosen old fun origin => !pairing.isPaired origin

/-- The new places with a key that have no partner. -/
def standingFor [DecidableEq κ] (key : α → κ) (chosen : κ) (new : List α) (pairing : Pairing α) : List Nat :=
  placesWith key chosen new fun place => pairing.partners[place]? = some none

/-- The partners are old places, each of them once, and a place is paired just when it is a partner. -/
structure Bijective (old new : List α) (pairing : Pairing α) : Prop where
  length : pairing.partners.length = new.length
  inside : ∀ origin ∈ pairing.partners.reduceOption, origin < old.length
  once : pairing.partners.reduceOption.Nodup
  flagged : ∀ origin < old.length, pairing.isPaired origin = true ↔ origin ∈ pairing.partners.reduceOption

/-- From one pairing to another by a key: the pairs stay; for each key the k-th waiting place becomes the partner of
the k-th standing one; there are no other pairs; and no key has free places left on both sides. -/
structure PairsInOrder [DecidableEq κ] (key : α → κ) (old new : List α) (before after : Pairing α) : Prop where
  kept : ∀ {place origin : Nat}, before.partners[place]? = some (some origin) →
    after.partners[place]? = some (some origin)
  joined : ∀ (chosen : κ) (k : Nat) {place origin : Nat}, (waitingFor key chosen old before)[k]? = some origin →
    (standingFor key chosen new before)[k]? = some place → after.partners[place]? = some (some origin)
  only : ∀ {place origin : Nat}, after.partners[place]? = some (some origin) →
    before.partners[place]? = some (some origin) ∨ ∃ (chosen : κ) (k : Nat),
      (waitingFor key chosen old before)[k]? = some origin ∧ (standingFor key chosen new before)[k]? = some place
  exhausted : ∀ chosen : κ, waitingFor key chosen old after = [] ∨ standingFor key chosen new after = []

/-! From places to entries. -/

theorem eq_of_place {entries : List α} {first second : α × Nat} (one : first ∈ entries.zipIdx)
    (other : second ∈ entries.zipIdx) (same : first.2 = second.2) : first = second := by
  rw [List.mem_zipIdx_iff_getElem?] at one other
  rw [same, other] at one
  exact Prod.ext (Option.some.inj one).symm same

theorem filter_places {part : List (α × Nat)} {entries : List α} (ordered : part.Sublist entries.zipIdx) :
    entries.zipIdx.filter (fun entry => entry.2 ∈ part.map (·.2)) = part := by
  classical
  refine Eq.trans ?_ (sublist_eq_filter part _ (zipIdx_nodup entries) ordered).symm
  apply List.filter_congr
  intro entry present
  rw [decide_eq_decide]
  constructor
  · intro member
    obtain ⟨other, held, same⟩ := List.mem_map.mp member
    exact eq_of_place (ordered.subset held) present same ▸ held
  · exact List.mem_map_of_mem

theorem placesWith_eq [DecidableEq κ] (key : α → κ) (chosen : κ) {part : List (α × Nat)} {entries : List α}
    (ordered : part.Sublist entries.zipIdx) {free : Nat → Bool}
    (told : ∀ place, free place = true ↔ place ∈ part.map (·.2)) :
    placesWith key chosen entries free = (entriesWith key chosen part).map (·.2) := by
  have same : entries.zipIdx.filter (free ·.2) = part := by
    conv_rhs => rw [← filter_places ordered]
    exact List.filter_congr fun entry _ => by rw [Bool.eq_iff_iff, told, decide_eq_true_iff]
  rw [placesWith, same]

section Sound

variable {old new : List α} {pairing : Pairing α} (sound : Sound old new pairing)
include sound

theorem row_place {place : Nat} {row : PairingRow α} :
    pairing.rows[place]? = some row ↔ row ∈ pairing.rows ∧ row.new.2 = place := by
  have placed {spot : Nat} (found : pairing.rows[spot]? = some row) : row.new.2 = spot := by
    have named := congrArg (·[spot]?) sound.rows
    rw [List.getElem?_map, found, Option.map_some, List.getElem?_zipIdx, Nat.zero_add] at named
    obtain ⟨_, _, same⟩ := Option.map_eq_some_iff.mp named.symm
    rw [← same]
  constructor
  · exact fun found => ⟨List.mem_of_getElem? found, placed found⟩
  · rintro ⟨member, rfl⟩
    obtain ⟨other, found⟩ := List.mem_iff_getElem?.mp member
    rwa [placed found]

theorem partners_at {place : Nat} {held : Option Nat} :
    pairing.partners[place]? = some held ↔
      ∃ row ∈ pairing.rows, row.new.2 = place ∧ row.old.map (·.2) = held := by
  simp only [partners, List.getElem?_map, Option.map_eq_some_iff, row_place sound, and_assoc]

theorem partners_pairs {place origin : Nat} :
    pairing.partners[place]? = some (some origin) ↔
      ∃ pair ∈ pairing.pairs, pair.1.2 = origin ∧ pair.2.2 = place := by
  rw [partners_at sound]
  constructor
  · rintro ⟨row, member, placed, held⟩
    obtain ⟨entry, filled, rfl⟩ := Option.map_eq_some_iff.mp held
    exact ⟨(entry, row.new), List.mem_filterMap.mpr ⟨row, member, by rw [filled, Option.map_some]⟩, rfl, placed⟩
  · rintro ⟨pair, member, rfl, rfl⟩
    obtain ⟨row, present, paired⟩ := List.mem_filterMap.mp member
    obtain ⟨entry, filled, rfl⟩ := Option.map_eq_some_iff.mp paired
    exact ⟨row, present, rfl, by rw [filled, Option.map_some]⟩

theorem unmet_sublist : pairing.unmet.Sublist new.zipIdx := by
  rw [← sound.rows]
  exact List.filter_sublist.map _

theorem partners_unmet {place : Nat} :
    pairing.partners[place]? = some none ↔ place ∈ pairing.unmet.map (·.2) := by
  rw [partners_at sound]
  simp only [unmet, openOf, List.map_map, List.mem_map, List.mem_filter, Option.isNone_iff_eq_none,
    Option.map_eq_none_iff, Function.comp_apply]
  constructor
  · rintro ⟨row, member, placed, opened⟩
    exact ⟨row, ⟨member, opened⟩, placed⟩
  · rintro ⟨row, ⟨member, opened⟩, placed⟩
    exact ⟨row, member, placed, opened⟩

theorem waitingFor_eq [DecidableEq κ] (key : α → κ) (chosen : κ) :
    waitingFor key chosen old pairing = (entriesWith key chosen pairing.unpaired).map (·.2) :=
  placesWith_eq key chosen sound.ordered fun place => by simp [isPaired]

theorem standingFor_eq [DecidableEq κ] (key : α → κ) (chosen : κ) :
    standingFor key chosen new pairing = (entriesWith key chosen pairing.unmet).map (·.2) :=
  placesWith_eq key chosen (unmet_sublist sound) fun place => by rw [decide_eq_true_iff, partners_unmet sound]

theorem places_perm : pairing.partners.reduceOption ++ pairing.unpaired.map (·.2) ~ List.range old.length := by
  have taken_places : pairing.partners.reduceOption = (taken pairing.rows).map (·.2) := by
    simp [List.reduceOption, partners, taken, List.filterMap_map, List.map_filterMap]
  have places := sound.split.map Prod.snd
  rwa [List.map_append, List.zipIdx_map_snd, ← List.range_eq_range', ← taken_places] at places

theorem bijective_of_sound : Bijective old new pairing where
  length := by rw [partners, List.length_map, rows_length sound]
  inside origin member :=
    List.mem_range.mp ((places_perm sound).subset (List.mem_append_left _ member))
  once := (List.nodup_append.mp ((places_perm sound).nodup_iff.mpr List.nodup_range)).1
  flagged := by
    intro origin inside
    have apart := (List.nodup_append.mp ((places_perm sound).nodup_iff.mpr List.nodup_range)).2.2
    have somewhere := List.mem_append.mp ((places_perm sound).symm.subset (List.mem_range.mpr inside))
    rw [isPaired, decide_eq_true_iff]
    exact ⟨somewhere.resolve_right, fun paired waits => apart origin paired origin waits rfl⟩

end Sound

theorem pairBy_inOrder [DecidableEq κ] (key : α → κ) {old new : List α} {pairing : Pairing α}
    (sound : Sound old new pairing) : PairsInOrder key old new pairing (pairing.pairBy key) := by
  have later := pairBy_sound key old new pairing sound
  obtain ⟨made, pairs, meets⟩ := pairBy_meets key pairing
  constructor
  case kept =>
    intro place origin
    rw [partners_pairs sound, partners_pairs later]
    rintro ⟨pair, member, placed⟩
    exact ⟨pair, pairs.mem_iff.mpr (List.mem_append_left _ member), placed⟩
  case joined =>
    intro chosen k place origin waits stands
    rw [waitingFor_eq sound, List.getElem?_map, Option.map_eq_some_iff] at waits
    rw [standingFor_eq sound, List.getElem?_map, Option.map_eq_some_iff] at stands
    obtain ⟨entry, waits, rfl⟩ := waits
    obtain ⟨fresh, stands, rfl⟩ := stands
    have zipped : ((entriesWith key chosen pairing.unpaired).zip (entriesWith key chosen pairing.unmet))[k]? =
        some (entry, fresh) := List.getElem?_zip_eq_some.mpr ⟨waits, stands⟩
    rw [← meets.joined] at zipped
    have member := (List.mem_filter.mp (List.mem_of_getElem? zipped)).1
    rw [partners_pairs later]
    exact ⟨_, pairs.mem_iff.mpr (List.mem_append_right _ member), rfl, rfl⟩
  case only =>
    intro place origin found
    rw [partners_pairs later] at found
    rw [partners_pairs sound]
    obtain ⟨pair, member, rfl, rfl⟩ := found
    rcases List.mem_append.mp (pairs.mem_iff.mp member) with before | fresh
    · exact .inl ⟨pair, before, rfl, rfl⟩
    · refine .inr ⟨key pair.2.1, ?_⟩
      have own : pair ∈ made.filter fun other => key other.2.1 = key pair.2.1 :=
        List.mem_filter.mpr ⟨fresh, by simp⟩
      rw [meets.joined] at own
      obtain ⟨k, zipped⟩ := List.mem_iff_getElem?.mp own
      obtain ⟨waits, stands⟩ := List.getElem?_zip_eq_some.mp zipped
      refine ⟨k, ?_, ?_⟩
      · rw [waitingFor_eq sound, List.getElem?_map, waits, Option.map_some]
      · rw [standingFor_eq sound, List.getElem?_map, stands, Option.map_some]
  case exhausted =>
    intro chosen
    rw [waitingFor_eq later, standingFor_eq later, meets.left, meets.right, List.map_eq_nil_iff, List.map_eq_nil_iff,
      List.drop_eq_nil_iff, List.drop_eq_nil_iff]
    exact Nat.le_total _ _

structure Pass (α : Type) where
  Key : Type
  keyEq : DecidableEq Key
  key : α → Key

instance (pass : Pass α) : DecidableEq pass.Key := pass.keyEq

def run (passes : List (Pass α)) (pairing : Pairing α) : Pairing α :=
  passes.foldl (fun pairing pass => pairing.pairBy pass.key) pairing

theorem run_concat (passes : List (Pass α)) (pass : Pass α) (pairing : Pairing α) :
    run (passes ++ [pass]) pairing = (run passes pairing).pairBy pass.key :=
  List.foldl_concat ..

theorem run_sound (passes : List (Pass α)) {old new : List α} {pairing : Pairing α} (sound : Sound old new pairing) :
    Sound old new (run passes pairing) := by
  induction passes generalizing pairing with
  | nil => exact sound
  | cons pass rest ih => exact ih (pairBy_sound pass.key old new pairing sound)

/-- No pass undoes a pair. -/
theorem run_kept (passes : List (Pass α)) {old new : List α} {pairing : Pairing α} (sound : Sound old new pairing)
    {place origin : Nat} (paired : pairing.partners[place]? = some (some origin)) :
    (run passes pairing).partners[place]? = some (some origin) := by
  induction passes generalizing pairing with
  | nil => exact paired
  | cons pass rest ih =>
      exact ih (pairBy_sound pass.key old new pairing sound) ((pairBy_inOrder pass.key sound).kept paired)

/-- Any passes make a partial bijection, each pass pairs in order what the passes before it have left, and what is
paired stays so. -/
theorem run_passes (old new : List α) (passes : List (Pass α)) :
    Bijective old new (run passes (start old new)) ∧
    (∀ pass : Pass α, PairsInOrder pass.key old new (run passes (start old new))
      (run (passes ++ [pass]) (start old new))) ∧
    ∀ (later : List (Pass α)) (place origin : Nat),
      (run passes (start old new)).partners[place]? = some (some origin) →
        (run (passes ++ later) (start old new)).partners[place]? = some (some origin) := by
  have sound := run_sound passes (start_sound old new)
  refine ⟨bijective_of_sound sound, fun pass => ?_, fun later place origin paired => ?_⟩
  · rw [run_concat]
    exact pairBy_inOrder pass.key sound
  · rw [run, List.foldl_append]
    exact run_kept later sound paired

end SchemaDrift.Pairing
