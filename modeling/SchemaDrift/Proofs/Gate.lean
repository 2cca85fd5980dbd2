import SchemaDrift.Proofs.Comparison
import Mathlib.Tactic.Tauto

/-!
When a comparison reports nothing. A list category is silent just when, for each identity, both
lists hold the same entries with it in the same order; looking for renames never silences a
difference, because whatever the second pass pairs has two identities.
-/

namespace SchemaDrift

/-- For each key, the entries with it are the same on both sides, in all fields and in the same
order. -/
def SameByKey {α κ : Type} [DecidableEq κ] (key : α → κ) (old new : List α) : Prop :=
  ∀ chosen, old.filter (key · = chosen) = new.filter (key · = chosen)

/-- Only which entries share a key counts, not what the keys are. -/
theorem SameByKey.of_keys {α κ ι : Type} [DecidableEq κ] [DecidableEq ι] {key : α → κ}
    {other : α → ι} (keys : ∀ first second, key first = key second ↔ other first = other second)
    {old new : List α} (same : SameByKey key old new) : SameByKey other old new := by
  intro chosen
  by_cases used : ∃ entry ∈ old ++ new, other entry = chosen
  · obtain ⟨entry, -, rfl⟩ := used
    simpa only [keys] using same (key entry)
  · have unused : ∀ entries ⊆ old ++ new, entries.filter (other · = chosen) = [] := by
      intro entries within
      refine List.filter_eq_nil_iff.mpr fun entry member shared => used ?_
      exact ⟨entry, within member, of_decide_eq_true shared⟩
    rw [unused old (List.subset_append_left old new), unused new (List.subset_append_right old new)]

structure PrimaryKey.Agree (old new : PrimaryKey) : Prop where
  columns : old.columns.map (·.name) = new.columns.map (·.name)
  name : old.name = new.name
  indexType : old.indexType = new.indexType
  comment : old.comment = new.comment

structure Partitioning.Agree (old new : Partitioning) : Prop where
  method : old.method = new.method
  linear : old.linear = new.linear
  expression : old.expression = new.expression
  columns : old.columns = new.columns
  count : old.count = new.count
  definitions : old.partitions.length = new.partitions.length

/-- All that a comparison looks at is the same. A check goes by its name, without one by its
condition. -/
structure Table.Unchanged (old new : Table) : Prop where
  name : old.name = new.name
  columns : SameByKey (fun column : Column => column.name) old.columns new.columns
  indexes : SameByKey
    (fun index : Index => (index.name, index.columns.map (·.name), index.kind))
    old.indexes new.indexes
  foreignKeys : SameByKey
    (fun key : ForeignKey => (key.name, key.columns, key.reference.table, key.reference.columns))
    old.foreignKeys new.foreignKeys
  checks : SameByKey
    (fun check : Check => (check.name, if check.name = none then some check.expression else none))
    old.checks new.checks
  options : old.options = new.options
  primaryKey : Option.Rel PrimaryKey.Agree old.primaryKey new.primaryKey
  partitioning : Option.Rel Partitioning.Agree old.partitioning new.partitioning

namespace Pairing

variable {α κ : Type}

/-- Every entry of either list is paired with one that equals it. -/
def Settled (pairing : Pairing α) : Prop :=
  pairing.unpaired = [] ∧ ∀ row ∈ pairing.rows, row.old.map (·.1) = some row.new.1

theorem paired_of_settled (pairing : Pairing α) (settled : Settled pairing) :
    ∀ row ∈ pairing.rows, row.old ≠ none := by
  intro row member opened
  have same := settled.2 row member
  simp [opened] at same

theorem getElem?_range_iff {β : Type} (xs ys : List β) :
    (xs.drop ys.length = [] ∧ (List.range ys.length).map (xs[·]?) = ys.map some) ↔ xs = ys := by
  constructor
  · rintro ⟨short, same⟩
    apply List.ext_getElem?
    intro place
    by_cases inside : place < ys.length
    · simpa [inside] using congrArg (·[place]?) same
    · have bound : xs.length ≤ ys.length := List.drop_eq_nil_iff.mp short
      rw [List.getElem?_eq_none (by omega), List.getElem?_eq_none (by omega)]
  · rintro rfl
    refine ⟨List.drop_length, ?_⟩
    apply List.ext_getElem?
    intro place
    by_cases inside : place < xs.length <;> simp [inside]

section Pass

variable [DecidableEq κ]

theorem settled_in_order (key : α → κ) (chosen : κ) (unpaired : List (α × Nat))
    (rows : List (PairingRow α)) (entriesShare : ∀ entry ∈ unpaired, key entry.1 = chosen)
    (rowsShare : ∀ row ∈ rows, key row.new.1 = chosen) (opened : ∀ row ∈ rows, row.old = none) :
    ((pairRows key unpaired rows).2 = [] ∧
        ∀ row ∈ (pairRows key unpaired rows).1, row.old.map (·.1) = some row.new.1) ↔
      unpaired.map (·.1) = rows.map (·.new.1) := by
  obtain ⟨order, behind⟩ := pairRows_in_order key chosen unpaired rows entriesShare rowsShare opened
  have olds : (pairRows key unpaired rows).1.map (fun row => row.old.map (·.1)) =
      (List.range rows.length).map ((unpaired.map (·.1))[·]?) := by
    have same := congrArg (List.map (Option.map Prod.fst)) order
    simpa [Function.comp_def] using same
  have news : (pairRows key unpaired rows).1.map (fun row => some row.new.1) =
      (rows.map (·.new.1)).map some := by
    have same :=
      congrArg (List.map fun entry : α × Nat => some entry.1) (pairRows_new key unpaired rows)
    simpa [Function.comp_def] using same
  have whole := getElem?_range_iff (unpaired.map (·.1)) (rows.map (·.new.1))
  rw [← List.map_inj_left, olds, news, behind]
  simpa using whole

/-- A pass settles two lists just when, key by key, they hold the same entries. -/
theorem settled_pass_iff (key : α → κ) (old new : List α) :
    Settled ((start old new).pairBy key) ↔ SameByKey key old new := by
  have each : ∀ chosen,
      (entriesWith key chosen ((start old new).pairBy key).unpaired = [] ∧
          ∀ row ∈ rowsWith key chosen ((start old new).pairBy key).rows,
            row.old.map (·.1) = some row.new.1) ↔
        old.filter (key · = chosen) = new.filter (key · = chosen) := by
    intro chosen
    have own := pairRows_with key chosen (start old new).unpaired (start old new).rows
    have order := settled_in_order key chosen (entriesWith key chosen (start old new).unpaired)
      (rowsWith key chosen (start old new).rows)
      (fun entry member => by simpa [entriesWith] using (List.mem_filter.mp member).2)
      (fun row member => by simpa [rowsWith] using (List.mem_filter.mp member).2)
      (fun row member => by
        obtain ⟨_, _, same⟩ := List.mem_map.mp (List.mem_filter.mp member).1
        rw [← same])
    have olds : (start old new).unpaired.map (·.1) = old := List.zipIdx_map_fst 0 old
    have news : (start old new).rows.map (·.new.1) = new := by simp [start, Function.comp_def]
    rw [own, entriesWith_fst, rowsWith_new, olds, news] at order
    exact order
  constructor
  · rintro ⟨empty, same⟩ chosen
    apply (each chosen).mp
    exact ⟨by simp [entriesWith, empty], fun row member => same row (List.mem_filter.mp member).1⟩
  · intro same
    constructor
    · apply List.eq_nil_iff_forall_not_mem.mpr
      intro entry member
      have none := ((each (key entry.1)).mpr (same (key entry.1))).1
      have present : entry ∈ entriesWith key (key entry.1) ((start old new).pairBy key).unpaired :=
        List.mem_filter.mpr ⟨member, by simp⟩
      simp [none] at present
    · intro row member
      have settled := ((each (key row.new.1)).mpr (same (key row.new.1))).2
      exact settled row (List.mem_filter.mpr ⟨member, by simp⟩)

/-- What a first pass leaves has no common key, so a second pass by another key settles nothing
more. -/
theorem settled_second_iff {ι : Type} [DecidableEq ι] (identity : α → ι) (shape : α → κ)
    (pairing : Pairing α) :
    Settled ((pairing.pairBy identity).pairBy shape) ↔ Settled (pairing.pairBy identity) := by
  let first := pairing.pairBy identity
  have unchanged : (∀ row ∈ first.rows, row.old ≠ none) → first.pairBy shape = first := by
    intro paired
    simp only [pairBy, pairRows_paired shape first.unpaired first.rows paired]
  constructor
  · intro settled
    have paired : ∀ row ∈ first.rows, row.old ≠ none := by
      intro row member opened
      obtain ⟨after, present, step⟩ :=
        mem_of_forall₂ (pairRows_fills shape first.unpaired first.rows).flip row member
      have same := settled.2 after present
      rcases step with kept | ⟨_, entry, waiting, _, filled⟩
      · simp [kept, opened] at same
      · -- Equal entries have one identity, and the first pass left none of them apart.
        have equal : entry.1 = row.new.1 := by simpa [filled] using same
        exact pairRows_exhausted identity _ _ row member opened entry waiting
          (congrArg identity equal)
    rwa [unchanged paired] at settled
  · intro settled
    rwa [unchanged (paired_of_settled first settled)]

end Pass

theorem changes_eq_nil_iff [Listed α] [Listed.Complete α] (renames : Bool) (pairing : Pairing α)
    (within : Within (Listed.Alike renames) pairing) : pairing.changes = [] ↔ Settled pairing := by
  classical
  have silent : ∀ row ∈ pairing.rows,
      Change.ofOptions (row.old.map (·.1)) (some row.new.1) = none ↔
        row.old.map (·.1) = some row.new.1 := by
    intro row member
    cases held : row.old with
    | none => simp [Change.ofOptions]
    | some entry =>
        have alike := within row member entry held
        simp [Change.ofOptions, Listed.between?_of_alike renames entry.1 row.new.1 alike]
  simp only [changes, List.append_eq_nil_iff, List.filterMap_eq_nil_iff, List.map_eq_nil_iff,
    Settled]
  rw [and_comm, forall₂_congr silent]

end Pairing

theorem Listed.changes_eq_nil_iff {α : Type} [Listed α] [Complete α] (renames : Bool)
    (old new : List α) : changes renames old new = [] ↔ SameByKey (identity (α := α)) old new := by
  rw [changes, Pairing.changes_eq_nil_iff renames _ (pairing_within renames old new),
    ← Pairing.settled_pass_iff]
  unfold pairing
  dsimp only
  split
  · exact Pairing.settled_second_iff identity shape (Pairing.start old new)
  · exact Iff.rfl

theorem Change.ofOptions_eq_none_iff {α : Type} [Compared α] (agree : α → α → Prop)
    (decided : ∀ before after, (ChangeRecord.between before after).isEmpty = true ↔
      agree before after) (old new : Option α) :
    Change.ofOptions old new = none ↔ Option.Rel agree old new := by
  cases old <;> cases new <;> simp [Change.ofOptions, Change.between?, decided]

theorem PrimaryKey.agree_iff (old new : PrimaryKey) :
    (ChangeRecord.between old new).isEmpty = true ↔ PrimaryKey.Agree old new := by
  rw [ChangeRecord.isEmpty_between_iff]
  constructor
  · intro same
    exact ⟨same .columns, same .name, same .indexType, same .comment⟩
  · intro agree (aspect : PrimaryKeyAspect)
    cases aspect with
    | columns => exact agree.columns
    | name => exact agree.name
    | indexType => exact agree.indexType
    | comment => exact agree.comment

theorem Partitioning.agree_iff (old new : Partitioning) :
    (ChangeRecord.between old new).isEmpty = true ↔ Partitioning.Agree old new := by
  rw [ChangeRecord.isEmpty_between_iff]
  constructor
  · intro same
    exact ⟨same .method, same .linear, same .expression, same .columns, same .count,
      same .definitions⟩
  · intro agree (aspect : PartitioningAspect)
    cases aspect with
    | method => exact agree.method
    | linear => exact agree.linear
    | expression => exact agree.expression
    | columns => exact agree.columns
    | count => exact agree.count
    | definitions => exact agree.definitions

theorem TableOptions.agree_iff (old new : TableOptions) :
    (ChangeRecord.between old new).isEmpty = true ↔ old = new := by
  rw [ChangeRecord.isEmpty_between_iff]
  constructor
  · exact TableOptions.ext_value
  · rintro rfl _
    rfl

theorem TableDiff.silent_iff (diff : TableDiff) :
    diff.hasChanges = false ↔
      diff.nameChanged = false ∧ diff.columns = [] ∧ diff.indexes = [] ∧ diff.foreignKeys = [] ∧
        diff.checks = [] ∧ diff.options = none ∧ diff.primaryKey = none ∧
        diff.partitioning = none := by
  simp only [hasChanges, Bool.or_eq_false_iff, Bool.not_eq_false', List.isEmpty_iff,
    Option.isSome_eq_false_iff, Option.isNone_iff_eq_none]
  tauto

theorem Check.identity_eq_iff (first second : Check) :
    first.identity = second.identity ↔
      (first.name, if first.name = none then some first.expression else none) =
        (second.name, if second.name = none then some second.expression else none) := by
  cases one : first.name <;> cases other : second.name <;> simp [Check.identity, one, other]

theorem Table.unchanged_iff (old new : Table) :
    Table.Unchanged old new ↔
      old.name = new.name ∧ SameByKey (Listed.identity (α := Column)) old.columns new.columns ∧
        SameByKey (Listed.identity (α := Index)) old.indexes new.indexes ∧
        SameByKey (Listed.identity (α := ForeignKey)) old.foreignKeys new.foreignKeys ∧
        SameByKey (Listed.identity (α := Check)) old.checks new.checks ∧ old.options = new.options ∧
        Option.Rel PrimaryKey.Agree old.primaryKey new.primaryKey ∧
        Option.Rel Partitioning.Agree old.partitioning new.partitioning := by
  constructor
  · rintro ⟨name, columns, indexes, foreignKeys, checks, options, primaryKey, partitioning⟩
    exact ⟨name, columns, indexes, foreignKeys,
      checks.of_keys fun first second => (Check.identity_eq_iff first second).symm, options,
      primaryKey, partitioning⟩
  · rintro ⟨name, columns, indexes, foreignKeys, checks, options, primaryKey, partitioning⟩
    exact ⟨name, columns, indexes, foreignKeys, checks.of_keys Check.identity_eq_iff, options,
      primaryKey, partitioning⟩

/-- The gate is exact: a comparison reports no change just where nothing it looks at has changed. -/
theorem TableDiff.hasChanges_eq_false_iff (renames : Bool) (old new : Table) :
    (TableDiff.between renames (some old) (some new)).hasChanges = false ↔
      Table.Unchanged old new := by
  have name : (old.name != new.name) = false ↔ old.name = new.name := by simp
  have primaryKey : Change.ofOptions old.primaryKey new.primaryKey = none ↔
      Option.Rel PrimaryKey.Agree old.primaryKey new.primaryKey :=
    Change.ofOptions_eq_none_iff _ PrimaryKey.agree_iff _ _
  have partitioning : Change.ofOptions old.partitioning new.partitioning = none ↔
      Option.Rel Partitioning.Agree old.partitioning new.partitioning :=
    Change.ofOptions_eq_none_iff _ Partitioning.agree_iff _ _
  have options : Change.ofOptions old.options new.options = none ↔ old.options = new.options := by
    rw [Change.ofOptions_eq_none_iff _ TableOptions.agree_iff]
    cases old.options <;> cases new.options <;> simp
  rw [silent_iff, Table.unchanged_iff]
  simp only [between, entriesOf, Option.map_some, Option.getD_some, Option.bind_some, name,
    primaryKey, partitioning, options, Listed.changes_eq_nil_iff]

end SchemaDrift
