import SchemaDrift.Proofs.Renames

/-!
What a comparison keeps when its two sides list their entries in another order. As long as entries of
one identity keep their order among themselves, the first pass joins the same entries and leaves the
same ones without a partner. The second pass may then join others; but how many it joins depends on
what is left and not on its order, and each pair it makes is one modification.
-/

namespace SchemaDrift

open scoped List

section Lists

variable {α : Type} [Listed α]

/-- The same entries in another order, in which those of one identity follow each other as before. -/
structure Rearranged (before after : List α) : Prop where
  perm : before ~ after
  kept : SameByKey (Listed.identity (α := α)) before after

namespace Rearranged

theorem refl (entries : List α) : Rearranged entries entries :=
  ⟨.refl entries, fun _ => rfl⟩

theorem swap {first second : α} (different : Listed.identity first ≠ Listed.identity second)
    (earlier later : List α) :
    Rearranged (earlier ++ first :: second :: later) (earlier ++ second :: first :: later) := by
  refine ⟨(List.Perm.swap second first later).append_left earlier, fun chosen => ?_⟩
  have apart : ¬ (Listed.identity first = chosen ∧ Listed.identity second = chosen) :=
    fun ⟨one, other⟩ => different (one.trans other.symm)
  by_cases one : Listed.identity first = chosen
  · have other : Listed.identity second ≠ chosen := fun same => apart ⟨one, same⟩
    simp [one, other]
  · simp [List.filter_cons, one]

end Rearranged

end Lists

namespace Pairing

variable {α κ : Type}

def valuesOf (pairs : List ((α × Nat) × (α × Nat))) : List (α × α) :=
  pairs.map fun pair => (pair.1.1, pair.2.1)

theorem modifiedOf_eq_valuesOf [Compared α] (pairs : List ((α × Nat) × (α × Nat))) :
    modifiedOf pairs = (valuesOf pairs).filterMap fun pair => Change.between? pair.1 pair.2 := by
  rw [modifiedOf, valuesOf, List.filterMap_map]
  rfl

section Values

variable [DecidableEq κ] {key : α → κ} {waiting standing : List (α × Nat)}
  {made : List ((α × Nat) × (α × Nat))} {stillWaiting stillStanding : List (α × Nat)}
  (meets : Meets key waiting standing made stillWaiting stillStanding) (chosen : κ)
include meets

theorem Meets.joined_values :
    (valuesOf made).filter (fun pair => key pair.2 = chosen) =
      ((waiting.map (·.1)).filter (key · = chosen)).zip
        ((standing.map (·.1)).filter (key · = chosen)) := by
  rw [valuesOf, List.filter_map, ← entriesWith_fst, ← entriesWith_fst, List.zip_map]
  exact congrArg (List.map (Prod.map Prod.fst Prod.fst)) (meets.joined chosen)

theorem Meets.left_values :
    (stillWaiting.map (·.1)).filter (key · = chosen) =
      ((waiting.map (·.1)).filter (key · = chosen)).drop
        ((standing.map (·.1)).filter (key · = chosen)).length := by
  rw [← entriesWith_fst, ← entriesWith_fst, ← entriesWith_fst, meets.left, List.map_drop,
    List.length_map]

theorem Meets.right_values :
    (stillStanding.map (·.1)).filter (key · = chosen) =
      ((standing.map (·.1)).filter (key · = chosen)).drop
        ((waiting.map (·.1)).filter (key · = chosen)).length := by
  rw [← entriesWith_fst, ← entriesWith_fst, ← entriesWith_fst, meets.right, List.map_drop,
    List.length_map]

end Values

theorem start_pairs (old new : List α) : (start old new).pairs = [] :=
  pairsOf_openRows new.zipIdx

theorem start_unmet (old new : List α) : (start old new).unmet.map (·.1) = new := by
  rw [unmet, start]
  exact (congrArg (List.map (·.1)) (openOf_openRows new.zipIdx)).trans (List.zipIdx_map_fst 0 new)

theorem start_unpaired (old new : List α) : (start old new).unpaired.map (·.1) = old :=
  List.zipIdx_map_fst 0 old

theorem changes_of_sameByKey [Compared α] [DecidableEq κ] {key : α → κ}
    {old older new newer : List α} (left : SameByKey key old older)
    (right : SameByKey key new newer) :
    ((start old new).pairBy key).changes ~ ((start older newer).pairBy key).changes := by
  obtain ⟨made, pairs, meets⟩ := pairBy_meets key (start old new)
  obtain ⟨remade, pairs_again, meets_again⟩ := pairBy_meets key (start older newer)
  rw [start_pairs, List.nil_append] at pairs pairs_again
  have joined : valuesOf made ~ valuesOf remade := by
    apply perm_of_filter_eq fun pair : α × α => key pair.2
    intro chosen
    rw [meets.joined_values, meets_again.joined_values]
    simp only [start_unpaired, start_unmet, left chosen, right chosen]
  have standing : ((start old new).pairBy key).unmet.map (·.1) ~
      ((start older newer).pairBy key).unmet.map (·.1) := by
    apply perm_of_filter_eq key
    intro chosen
    rw [meets.right_values, meets_again.right_values]
    simp only [start_unpaired, start_unmet, left chosen, right chosen]
  have waiting : ((start old new).pairBy key).unpaired.map (·.1) ~
      ((start older newer).pairBy key).unpaired.map (·.1) := by
    apply perm_of_filter_eq key
    intro chosen
    rw [meets.left_values, meets_again.left_values]
    simp only [start_unpaired, start_unmet, left chosen, right chosen]
  have modified : modifiedOf ((start old new).pairBy key).pairs ~
      modifiedOf ((start older newer).pairBy key).pairs := by
    calc
      modifiedOf ((start old new).pairBy key).pairs ~ modifiedOf made := pairs.filterMap _
      _ ~ modifiedOf remade := by
        rw [modifiedOf_eq_valuesOf, modifiedOf_eq_valuesOf]
        exact joined.filterMap _
      _ ~ modifiedOf ((start older newer).pairBy key).pairs := (pairs_again.filterMap _).symm
  have added := standing.map (Change.added (α := α))
  have removed := waiting.map (Change.removed (α := α))
  rw [List.map_map, List.map_map] at added removed
  calc
    _ ~ _ := changes_perm _
    _ ~ _ := modified.append (added.append removed)
    _ ~ _ := (changes_perm _).symm

end Pairing

section Counts

variable {α κ : Type} [Compared α] {changes others : List (Change α)}

theorem ChangeCounts.ofChanges_perm (perm : changes ~ others) :
    ofChanges changes = ofChanges others := by
  simp only [ofChanges, perm.countP_eq]

theorem mergeable_perm [DecidableEq κ] (key : α → κ) (perm : changes ~ others) :
    mergeable key changes = mergeable key others := by
  have removed := (perm.filterMap Change.removed?).map key
  have added := (perm.filterMap Change.added?).map key
  simp only [mergeable, List.toFinset_eq_of_perm _ _ removed, removed.count_eq, added.count_eq]

end Counts

namespace Listed

variable {α : Type} [Listed α] {old older new newer : List α}

theorem changes_not_renamable (fixed : Listed.renamable α = false) (renames : Bool)
    (old new : List α) : changes renames old new = changes false old new := by
  simp only [changes, pairing, fixed, Bool.and_false]

theorem changes_rearranged (left : Rearranged old older) (right : Rearranged new newer) :
    changes false old new ~ changes false older newer :=
  Pairing.changes_of_sameByKey left.kept right.kept

/-- With renames other entries may be paired, but as many. -/
theorem counts_rearranged [Renamable α] (renames : Bool) (left : Rearranged old older)
    (right : Rearranged new newer) :
    ChangeCounts.ofChanges (changes renames old new) =
      ChangeCounts.ofChanges (changes renames older newer) := by
  have plain := ChangeCounts.ofChanges_perm (changes_rearranged left right)
  cases renames with
  | false => exact plain
  | true =>
      have same := mergeable_perm (shape (α := α)) (changes_rearranged left right)
      have before := changes_merged old new
      have after := changes_merged older newer
      have added := before.added
      have removed := before.removed
      have modified := before.modified
      rw [same, plain] at added removed modified
      have more := after.added
      have fewer := after.removed
      have edited := after.modified
      cases counts : ChangeCounts.ofChanges (changes true old new)
      cases recounts : ChangeCounts.ofChanges (changes true older newer)
      simp only [counts, recounts] at added removed modified more fewer edited
      simp only [ChangeCounts.mk.injEq]
      omega

end Listed

/-- For a comparison the same table up to the order of its entries, in which those of one identity keep
theirs. -/
structure Table.Rearranged (before after : Table) : Prop where
  name : before.name = after.name
  columns : SchemaDrift.Rearranged before.columns after.columns
  primaryKey : before.primaryKey = after.primaryKey
  indexes : SchemaDrift.Rearranged before.indexes after.indexes
  foreignKeys : SchemaDrift.Rearranged before.foreignKeys after.foreignKeys
  checks : SchemaDrift.Rearranged before.checks after.checks
  options : before.options = after.options
  partitioning : before.partitioning = after.partitioning

theorem TableDiff.hasChanges_eq_of_summary {diff other : TableDiff}
    (same : diff.summary = other.summary) : diff.hasChanges = other.hasChanges := by
  have empty {α : Type} [Compared α] (changes : List (Change α)) :
      changes.isEmpty = ((ChangeCounts.ofChanges changes).total == 0) := by
    rw [ChangeCounts.total_ofChanges]
    cases changes <;> rfl
  simp only [summary, TableSummary.mk.injEq] at same
  obtain ⟨name, columns, indexes, foreignKeys, checks, primaryKey, options, partitioning⟩ := same
  simp only [hasChanges, empty, name, columns, indexes, foreignKeys, checks, primaryKey, options,
    partitioning]

/-- The order of the entries of either table makes no difference to what is counted, with and without
renames; without renames, and for columns in any case, the same changes are listed. -/
theorem TableDiff.between_rearranged (renames : Bool) {old older new newer : Table}
    (left : old.Rearranged older) (right : new.Rearranged newer) :
    let before := between renames (some old) (some new)
    let after := between renames (some older) (some newer)
    after.hasChanges = before.hasChanges ∧ after.summary = before.summary ∧
      after.primaryKey = before.primaryKey ∧ after.options = before.options ∧
      after.partitioning = before.partitioning ∧ before.columns ~ after.columns ∧
      (renames = false → before.indexes ~ after.indexes ∧
        before.foreignKeys ~ after.foreignKeys ∧ before.checks ~ after.checks) := by
  intro before after
  have columns : before.columns ~ after.columns := by
    have fixed (old new : List Column) := Listed.changes_not_renamable rfl renames old new
    simp only [before, after, between, entriesOf, Option.map_some, Option.getD_some, fixed]
    exact Listed.changes_rearranged left.columns right.columns
  have indexes : ChangeCounts.ofChanges after.indexes = ChangeCounts.ofChanges before.indexes :=
    (Listed.counts_rearranged renames left.indexes right.indexes).symm
  have foreignKeys :
      ChangeCounts.ofChanges after.foreignKeys = ChangeCounts.ofChanges before.foreignKeys :=
    (Listed.counts_rearranged renames left.foreignKeys right.foreignKeys).symm
  have checks : ChangeCounts.ofChanges after.checks = ChangeCounts.ofChanges before.checks :=
    (Listed.counts_rearranged renames left.checks right.checks).symm
  have primaryKey : after.primaryKey = before.primaryKey := by
    simp only [before, after, between, Option.bind_some, left.primaryKey, right.primaryKey]
  have options : after.options = before.options := by
    simp only [before, after, between, Option.bind_some, left.options, right.options]
  have partitioning : after.partitioning = before.partitioning := by
    simp only [before, after, between, Option.bind_some, left.partitioning, right.partitioning]
  have name : after.nameChanged = before.nameChanged := by
    simp only [before, after, between, left.name, right.name]
  have summary : after.summary = before.summary := by
    simp only [TableDiff.summary, name, ChangeCounts.ofChanges_perm columns, indexes, foreignKeys,
      checks, primaryKey, options, partitioning]
  refine ⟨hasChanges_eq_of_summary summary, summary, primaryKey, options, partitioning, columns, ?_⟩
  rintro rfl
  exact ⟨Listed.changes_rearranged left.indexes right.indexes,
    Listed.changes_rearranged left.foreignKeys right.foreignKeys,
    Listed.changes_rearranged left.checks right.checks⟩

/-- Of two indexes on one column the first is renamed; which one that is depends on their order. -/
theorem TableDiff.between_rearranged_indexes :
    let index (name : String) : Index :=
      { name := some name, kind := .plain, columns := [{ name := "a" }] }
    let table (indexes : List Index) : Table := { schema := none, name := "t", indexes }
    let old := table [index "x", index "y", index "x"]
    let older := table [index "y", index "x", index "x"]
    let new := table [index "z"]
    let before := between true (some old) (some new)
    let after := between true (some older) (some new)
    old.Rearranged older ∧ new.Rearranged new ∧
      before.indexes.filterMap Change.removed? = [index "y", index "x"] ∧
      after.indexes.filterMap Change.removed? = [index "x", index "x"] ∧
      after.hasChanges = before.hasChanges ∧ after.summary = before.summary ∧
      after.primaryKey = before.primaryKey ∧ after.options = before.options ∧
      after.partitioning = before.partitioning ∧ before.columns ~ after.columns := by
  intro index table old older new before after
  have different : Listed.identity (index "x") ≠ Listed.identity (index "y") := by decide
  have left : old.Rearranged older :=
    { name := rfl, columns := .refl _, primaryKey := rfl, indexes := .swap different [] [index "x"]
      foreignKeys := .refl _, checks := .refl _, options := rfl, partitioning := rfl }
  have right : new.Rearranged new :=
    { name := rfl, columns := .refl _, primaryKey := rfl, indexes := .refl _
      foreignKeys := .refl _, checks := .refl _, options := rfl, partitioning := rfl }
  obtain ⟨gate, summary, primaryKey, options, partitioning, columns, _⟩ :=
    between_rearranged true left right
  exact ⟨left, right, by decide +kernel, by decide +kernel, gate, summary, primaryKey, options,
    partitioning, columns⟩

end SchemaDrift
