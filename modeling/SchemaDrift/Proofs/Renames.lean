import SchemaDrift.Proofs.Gate
import SchemaDrift.Proofs.Leftovers

/-!
What looking for renames does to a comparison. The second pass joins entries that the first one has
left on both sides; as those have no identity in common, every pair it makes shows a change of name.
So it turns additions and removals of one shape into modifications, as many as both sides have, and
touches nothing else.
-/

namespace SchemaDrift

open scoped List

namespace Change

variable {α : Type} [Compared α]

def added? : Change α → Option α
  | .added new => some new
  | _ => none

def removed? : Change α → Option α
  | .removed old => some old
  | _ => none

def isModified : Change α → Bool
  | .modified _ _ _ => true
  | _ => false

theorem isModified_iff (change : Change α) : change.isModified = true ↔ change.kind = .modified := by
  cases change <;> simp [isModified]

/-- Is it a modification whose record shows a change of the aspect? -/
def Shows (aspect : Compared.Aspect α) (change : Change α) : Prop :=
  ∃ record, change.record? = some record ∧ record aspect ≠ none

end Change

/-- How many additions and removals with a common key the changes hold: for each key, as many as there
are of the rarer kind. -/
def mergeable {α κ : Type} [Compared α] [DecidableEq κ] (key : α → κ)
    (changes : List (Change α)) : Nat :=
  let removed := (changes.filterMap Change.removed?).map key
  let added := (changes.filterMap Change.added?).map key
  ∑ chosen ∈ removed.toFinset, min (removed.count chosen) (added.count chosen)

/-- The changes `on` are those of `off` with additions and removals of one key merged into changes of
the name. No modification is lost, each new one shows a name that differs, and nothing that could be
merged is left. -/
structure Merged {α κ : Type} [Compared α] [DecidableEq κ] (key : α → κ) (name : Compared.Aspect α)
    (off on : List (Change α)) : Prop where
  kept : ∀ change ∈ off, change.kind = .modified → change ∈ on
  apart : ∀ new old, .added new ∈ on → .removed old ∈ on → key old ≠ key new
  renamed : ∀ change ∈ on, change.kind = .modified → change ∉ off → change.Shows name
  grown : ∃ merged, on.filter Change.isModified ~ off.filter Change.isModified ++ merged ∧
    ∀ change ∈ merged, change.Shows name
  added : (ChangeCounts.ofChanges on).added + mergeable key off = (ChangeCounts.ofChanges off).added
  removed : (ChangeCounts.ofChanges on).removed + mergeable key off =
    (ChangeCounts.ofChanges off).removed
  modified : (ChangeCounts.ofChanges on).modified =
    (ChangeCounts.ofChanges off).modified + mergeable key off

namespace ChangeCounts

variable {α : Type} [Compared α] (changes : List (Change α))

theorem countP_kind {β : Type} {kind : ChangeKind} {read : Change α → Option β}
    (reads : ∀ change, (read change).isSome = (change.kind == kind)) :
    changes.countP (·.kind == kind) = (changes.filterMap read).length := by
  rw [List.length_filterMap_eq_countP]
  simp only [reads]

theorem added_eq_length : (ofChanges changes).added = (changes.filterMap Change.added?).length := by
  apply countP_kind
  rintro (_ | _ | _) <;> rfl

theorem removed_eq_length :
    (ofChanges changes).removed = (changes.filterMap Change.removed?).length := by
  apply countP_kind
  rintro (_ | _ | _) <;> rfl

theorem modified_eq_length :
    (ofChanges changes).modified = (changes.filter Change.isModified).length := by
  rw [← List.countP_eq_length_filter]
  apply List.countP_congr
  intro change _
  cases change <;> simp [Change.isModified]

end ChangeCounts

namespace Pairing

section Parts

variable {α : Type} [Compared α] (pairing : Pairing α)

theorem of_mem_modifiedOf {pairs : List ((α × Nat) × (α × Nat))} {change : Change α}
    (member : change ∈ modifiedOf pairs) :
    ∃ old new, (old, new) ∈ pairs ∧
      change = .modified old.1 new.1 (ChangeRecord.between old.1 new.1) := by
  obtain ⟨⟨old, new⟩, present, made⟩ := List.mem_filterMap.mp member
  rw [Change.between?] at made
  split at made
  · contradiction
  · exact ⟨old, new, present, (Option.some.inj made).symm⟩

theorem filterMap_changes {β : Type} (read : Change α → Option β)
    (skips : ∀ old new record, read (.modified old new record) = none) :
    pairing.changes.filterMap read ~
      pairing.unmet.filterMap (fun entry => read (.added entry.1)) ++
        pairing.unpaired.filterMap fun entry => read (.removed entry.1) := by
  have none_modified : (modifiedOf pairing.pairs).filterMap read = [] := by
    apply List.filterMap_eq_nil_iff.mpr
    intro change member
    obtain ⟨old, new, _, rfl⟩ := of_mem_modifiedOf member
    exact skips old.1 new.1 _
  have parts := (changes_perm pairing).filterMap read
  rw [List.filterMap_append, none_modified, List.filterMap_append, List.filterMap_map,
    List.filterMap_map] at parts
  exact parts

theorem filterMap_added : pairing.changes.filterMap Change.added? ~ pairing.unmet.map (·.1) := by
  have read := filterMap_changes pairing Change.added? fun _ _ _ => rfl
  simpa [Change.added?] using read

theorem filterMap_removed :
    pairing.changes.filterMap Change.removed? ~ pairing.unpaired.map (·.1) := by
  have read := filterMap_changes pairing Change.removed? fun _ _ _ => rfl
  simpa [Change.removed?] using read

theorem filter_modified :
    pairing.changes.filter Change.isModified ~ modifiedOf pairing.pairs := by
  have all_modified :
      (modifiedOf pairing.pairs).filter Change.isModified = modifiedOf pairing.pairs := by
    apply List.filter_eq_self.mpr
    intro change member
    obtain ⟨old, new, _, rfl⟩ := of_mem_modifiedOf member
    rfl
  have parts := (changes_perm pairing).filter Change.isModified
  simpa [List.filter_append, all_modified, List.filter_map, Function.comp_def,
    Change.isModified] using parts

theorem filter_modified_append {before after : Pairing α} {made : List ((α × Nat) × (α × Nat))}
    (pairs : after.pairs ~ before.pairs ++ made) :
    after.changes.filter Change.isModified ~
      before.changes.filter Change.isModified ++ modifiedOf made := by
  calc
    after.changes.filter Change.isModified ~ modifiedOf after.pairs := filter_modified after
    _ ~ modifiedOf (before.pairs ++ made) := pairs.filterMap _
    _ = modifiedOf before.pairs ++ modifiedOf made := modifiedOf_append _ _
    _ ~ before.changes.filter Change.isModified ++ modifiedOf made :=
      (filter_modified before).symm.append_right _

theorem mergeable_changes {κ : Type} [DecidableEq κ] (key : α → κ) : mergeable key pairing.changes =
    ∑ chosen ∈ (pairing.unpaired.map (key ·.1)).toFinset,
      min ((pairing.unpaired.map (key ·.1)).count chosen)
        ((pairing.unmet.map (key ·.1)).count chosen) := by
  have removed := (filterMap_removed pairing).map key
  have added := (filterMap_added pairing).map key
  rw [List.map_map] at removed added
  simp only [mergeable, List.toFinset_eq_of_perm _ _ removed, removed.count_eq, added.count_eq]
  rfl

end Parts

end Pairing

/-- A kind whose entries can be renamed: where two of one shape have different identities, it is by
their names. -/
class Renamable (α : Type) [Listed α] where
  renamable : Listed.renamable α = true
  name : Compared.Aspect α
  names_differ : ∀ old new : α, Listed.shape old = Listed.shape new →
    Listed.identity old ≠ Listed.identity new →
      Compared.content name old ≠ Compared.content name new

instance : Renamable Index where
  renamable := rfl
  name := IndexAspect.name
  names_differ _ _ same different names :=
    different (Prod.ext names same)

instance : Renamable ForeignKey where
  renamable := rfl
  name := ForeignKeyAspect.name
  names_differ _ _ same different names :=
    different (Prod.ext names same)

instance : Renamable Check where
  renamable := rfl
  name := CheckAspect.name
  names_differ old new same different names := by
    apply different
    have expressions : old.expression = new.expression := same
    have named : old.name = new.name := names
    simp only [Listed.identity, Check.identity, named, expressions]

namespace Pairing

variable {α : Type} [Listed α] [Renamable α]

theorem between?_renamed {old new : α} (same : Listed.shape old = Listed.shape new)
    (different : Listed.identity old ≠ Listed.identity new) :
    ∃ change, Change.between? old new = some change ∧
      change.Shows (Renamable.name : Compared.Aspect α) := by
  have names := Renamable.names_differ old new same different
  have shown : ChangeRecord.between old new Renamable.name ≠ none :=
    mt (ChangeRecord.between_eq_none_iff old new _).mp names
  have some_change : (ChangeRecord.between old new).isEmpty = false := by
    rw [Bool.eq_false_iff]
    intro empty
    exact shown ((ChangeRecord.isEmpty_iff _).mp empty _)
  refine ⟨.modified old new (ChangeRecord.between old new), ?_, _, rfl, shown⟩
  simp [Change.between?, some_change]

theorem modifiedOf_renamed (pairs : List ((α × Nat) × (α × Nat)))
    (renames : ∀ old new, (old, new) ∈ pairs → Listed.shape old.1 = Listed.shape new.1 ∧
      Listed.identity old.1 ≠ Listed.identity new.1) :
    (modifiedOf pairs).length = pairs.length ∧
      ∀ change ∈ modifiedOf pairs, change.Shows (Renamable.name : Compared.Aspect α) := by
  constructor
  · apply List.filterMap_length_eq_length.mpr
    rintro ⟨old, new⟩ member
    obtain ⟨same, different⟩ := renames old new member
    obtain ⟨change, made, _⟩ := between?_renamed same different
    rw [made, Option.isSome_some]
  · intro change member
    obtain ⟨⟨old, new⟩, present, made⟩ := List.mem_filterMap.mp member
    obtain ⟨same, different⟩ := renames old new present
    obtain ⟨other, also_made, shows⟩ := between?_renamed same different
    rw [Option.some.inj (made.symm.trans also_made)]
    exact shows

/-- A pass by shape only merges, where the passes before it have left no identity on both sides. -/
theorem pairBy_shape_merged (pairing : Pairing α)
    (exhausted : ∀ old ∈ pairing.unpaired, ∀ new ∈ pairing.unmet,
      Listed.identity old.1 ≠ Listed.identity new.1) :
    Merged (Listed.shape (α := α)) Renamable.name pairing.changes
      (pairing.pairBy Listed.shape).changes := by
  obtain ⟨made, pairs, meets⟩ := pairBy_meets Listed.shape pairing
  obtain ⟨all_made, shown⟩ := modifiedOf_renamed made fun old new member =>
    have ⟨waits, stands, same⟩ := meets.of_made member
    ⟨same, exhausted old waits new stands⟩
  have grown := filter_modified_append pairs
  have total : made.length = mergeable Listed.shape pairing.changes := by
    rw [mergeable_changes, ← meets.length_made]
  constructor
  case kept =>
    intro change member kind
    have filtered := List.mem_filter.mpr ⟨member, change.isModified_iff.mpr kind⟩
    exact (List.mem_filter.mp (grown.symm.subset (List.mem_append_left _ filtered))).1
  case apart =>
    intro new old is_added is_removed
    have among_new := (filterMap_added _).subset (List.mem_filterMap.mpr ⟨_, is_added, rfl⟩)
    have among_old := (filterMap_removed _).subset (List.mem_filterMap.mpr ⟨_, is_removed, rfl⟩)
    obtain ⟨_, stands, rfl⟩ := List.mem_map.mp among_new
    obtain ⟨_, waits, rfl⟩ := List.mem_map.mp among_old
    exact meets.apart waits stands
  case renamed =>
    intro change member kind missing
    have filtered := List.mem_filter.mpr ⟨member, change.isModified_iff.mpr kind⟩
    rcases List.mem_append.mp (grown.subset filtered) with before | merged
    · exact absurd (List.mem_filter.mp before).1 missing
    · exact shown change merged
  case grown => exact ⟨modifiedOf made, grown, shown⟩
  case added =>
    have balance := meets.right_perm.length_eq
    rw [ChangeCounts.added_eq_length, ChangeCounts.added_eq_length, (filterMap_added _).length_eq,
      (filterMap_added _).length_eq, ← total]
    simp only [List.length_append, List.length_map] at balance ⊢
    omega
  case removed =>
    have balance := meets.left_perm.length_eq
    rw [ChangeCounts.removed_eq_length, ChangeCounts.removed_eq_length,
      (filterMap_removed _).length_eq, (filterMap_removed _).length_eq, ← total]
    simp only [List.length_append, List.length_map] at balance ⊢
    omega
  case modified =>
    rw [ChangeCounts.modified_eq_length, ChangeCounts.modified_eq_length, grown.length_eq,
      List.length_append, all_made, total]

end Pairing

namespace Listed

variable {α : Type} [Listed α]

theorem changes_merged [Renamable α] (old new : List α) :
    Merged (shape (α := α)) Renamable.name (changes false old new) (changes true old new) := by
  obtain ⟨_, _, meets⟩ := Pairing.pairBy_meets identity (Pairing.start old new)
  have merged := Pairing.pairBy_shape_merged ((Pairing.start old new).pairBy identity)
    fun _ waits _ stands => meets.apart waits stands
  simpa [changes, pairing, Renamable.renamable] using merged

theorem changes_isEmpty [Complete α] (renames : Bool) (old new : List α) :
    (changes renames old new).isEmpty = (changes false old new).isEmpty := by
  rw [Bool.eq_iff_iff, List.isEmpty_iff, List.isEmpty_iff, changes_eq_nil_iff, changes_eq_nil_iff]

end Listed

/-- Looking for renames only merges: in the kinds that have names it turns additions and removals of
one shape into changes of the name, and it changes nothing else. -/
theorem TableDiff.renames_merge (old new : Option Table) :
    let off := between false old new
    let on := between true old new
    Merged (fun index : Index => (KeyPart.names index.columns, index.kind)) IndexAspect.name
        off.indexes on.indexes ∧
      Merged (fun key : ForeignKey => (key.columns, key.reference.table, key.reference.columns))
        ForeignKeyAspect.name off.foreignKeys on.foreignKeys ∧
      Merged Check.expression CheckAspect.name off.checks on.checks ∧
      on.columns = off.columns ∧ on.primaryKey = off.primaryKey ∧ on.options = off.options ∧
      on.partitioning = off.partitioning ∧ on.hasChanges = off.hasChanges := by
  refine ⟨Listed.changes_merged _ _, Listed.changes_merged _ _, Listed.changes_merged _ _, rfl, rfl,
    rfl, rfl, ?_⟩
  simp only [hasChanges, between, Listed.changes_isEmpty true]

end SchemaDrift
