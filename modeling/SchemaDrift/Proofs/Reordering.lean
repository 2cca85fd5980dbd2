import Mathlib.Data.List.Nodup
import Mathlib.Data.List.Perm.Basic
import SchemaDrift.Proofs.Gate
import SchemaDrift.Proofs.Parts

/-!
The order of the elements of a table makes no difference. Each element is read from its own run, so
the runs of an element list in another order give the same entries in another order, and a
comparison that pairs entries by their keys finds nothing changed.
-/

namespace SchemaDrift

open scoped List

theorem eq_of_perm_of_length_le_one {α : Type} {first second : List α} (perm : first ~ second)
    (short : first.length ≤ 1) : first = second := by
  match first, short with
  | [], _ => exact (List.nil_perm.mp perm).symm
  | [entry], _ => exact List.singleton_perm.mp perm

theorem sameByKey_of_perm {α κ : Type} [DecidableEq κ] {key : α → κ} {old new : List α}
    (perm : old ~ new) (distinct : (old.map key).Nodup) : SameByKey key old new := by
  intro chosen
  refine eq_of_perm_of_length_le_one (perm.filter (key · = chosen)) ?_
  have once := List.nodup_iff_count_le_one.mp distinct chosen
  rw [List.count, List.countP_map, List.countP_eq_length_filter] at once
  simpa [Function.comp_def, beq_eq_decide] using once

theorem Change.ofOptions_self {α : Type} [Compared α] (value : Option α) :
    ofOptions value value = none := by
  cases value with
  | none => rfl
  | some value =>
      have same : (ChangeRecord.between value value).isEmpty = true :=
        (ChangeRecord.isEmpty_between_iff value value).mpr fun _ => rfl
      simp [ofOptions, between?, same]

namespace Table

/-- The tables differ at most in the order of what they list. -/
structure Reordered (old new : Table) : Prop where
  schema : old.schema = new.schema
  name : old.name = new.name
  temporary : old.temporary = new.temporary
  ifNotExists : old.ifNotExists = new.ifNotExists
  columns : old.columns ~ new.columns
  primaryKey : old.primaryKey = new.primaryKey
  indexes : old.indexes ~ new.indexes
  foreignKeys : old.foreignKeys ~ new.foreignKeys
  checks : old.checks ~ new.checks
  options : old.options = new.options
  partitioning : old.partitioning = new.partitioning

/-- No two entries of one category have the same identity. -/
structure KeysDistinct (table : Table) : Prop where
  columns : (table.columns.map Listed.identity).Nodup
  indexes : (table.indexes.map Listed.identity).Nodup
  foreignKeys : (table.foreignKeys.map Listed.identity).Nodup
  checks : (table.checks.map Listed.identity).Nodup

instance : DecidablePred KeysDistinct := fun table =>
  decidable_of_iff
    ((table.columns.map Listed.identity).Nodup ∧ (table.indexes.map Listed.identity).Nodup ∧
      (table.foreignKeys.map Listed.identity).Nodup ∧ (table.checks.map Listed.identity).Nodup)
    ⟨fun ⟨columns, indexes, foreignKeys, checks⟩ => ⟨columns, indexes, foreignKeys, checks⟩,
      fun ⟨columns, indexes, foreignKeys, checks⟩ => ⟨columns, indexes, foreignKeys, checks⟩⟩

theorem Reordered.hasChanges {old new : Table} (reordered : Reordered old new)
    (distinct : KeysDistinct old) (renames : Bool) :
    (TableDiff.between renames (some old) (some new)).hasChanges = false := by
  have silent {α : Type} [Listed α] [Listed.Complete α] {old new : List α} (perm : old ~ new)
      (keys : (old.map Listed.identity).Nodup) : Listed.changes renames old new = [] :=
    (Listed.changes_eq_nil_iff renames old new).mpr (sameByKey_of_perm perm keys)
  rw [TableDiff.silent_iff]
  exact ⟨by simp [TableDiff.between, reordered.name],
    silent reordered.columns distinct.columns, silent reordered.indexes distinct.indexes,
    silent reordered.foreignKeys distinct.foreignKeys, silent reordered.checks distinct.checks,
    by simpa [TableDiff.between, reordered.options] using Change.ofOptions_self new.options,
    by simpa [TableDiff.between, reordered.primaryKey] using Change.ofOptions_self new.primaryKey,
    by simpa [TableDiff.between, reordered.partitioning] using
      Change.ofOptions_self new.partitioning⟩

end Table

theorem Element.OneKey.findSome?_eq {first second : List Element} (perm : first ~ second)
    (one : OneKey first) :
    first.findSome? primaryKey? = second.findSome? primaryKey? := by
  rw [← List.head?_filterMap, ← List.head?_filterMap,
    eq_of_perm_of_length_le_one (perm.filterMap primaryKey?) one]

/-- The runs of an element list in another order give the same table up to the order of its entries;
a comparison of the two finds no change where entries are told apart by their keys. -/
theorem ElementList.reordered {source : List Char} {first second : List Token}
    {list other : ElementList} {old new : Table} (cut : ofTokens? first = some list)
    (recut : ofTokens? second = some other) (heading : list.heading = other.heading)
    (runs : list.runs ~ other.runs) (behind : list.behind = other.behind)
    (matched : ∀ run ∈ list.runs, Matched run)
    (no_end : ∀ run ∈ list.runs, ∀ token ∈ run, token.kind ≠ .endOfInput)
    (one : Table.read.result (.ofTokens source first) = .ok old)
    (another : Table.read.result (.ofTokens source second) = .ok new) :
    Table.Reordered old new ∧
      (old.KeysDistinct → ∀ renames,
        (TableDiff.between renames (some old) (some new)).hasChanges = false) := by
  obtain ⟨named, elements, settings, gives, rfl⟩ := gives_of_cut cut matched no_end one
  obtain ⟨named_again, others, settings_again, gives_again, rfl⟩ := gives_of_cut recut
    (fun run member => matched run (runs.mem_iff.mpr member))
    (fun run member => no_end run (runs.mem_iff.mpr member)) another
  have same_heading : named = named_again := by
    have again := gives_again.named
    rw [← heading] at again
    exact gives.named.unique again
  have same_settings : settings = settings_again := by
    have again := gives_again.configured
    rw [← behind, gives.configured] at again
    exact Except.ok.inj again
  subst same_heading same_settings
  have perm : elements ~ others :=
    List.rel_perm_imp (fun _ _ _ one other => one.unique other) gives.listed gives_again.listed runs
  have reordered : Table.Reordered (.assemble named elements settings)
      (.assemble named others settings) :=
    { schema := rfl, name := rfl, temporary := rfl, ifNotExists := rfl
      columns := perm.filterMap _
      primaryKey := gives.oneKey.findSome?_eq perm
      indexes := perm.filterMap _
      foreignKeys := perm.filterMap _
      checks := perm.flatMap_right _
      options := rfl
      partitioning := rfl }
  exact ⟨reordered, fun distinct renames => reordered.hasChanges distinct renames⟩

theorem ElementList.reordered_last_first :
    ∃ first second old new,
      first = Token.ofText "CREATE TABLE t (a INT, b INT DEFAULT 1, KEY (a))" ∧
      second =
        [0, 1, 2, 3, 12, 13, 14, 15, 6, 4, 5, 11, 7, 8, 9, 10, 16, 17].filterMap (first[·]?) ∧
      Table.read.result
        (.ofTokens "CREATE TABLE t (a INT, b INT DEFAULT 1, KEY (a))".toList first) = .ok old ∧
      Table.read.result
        (.ofTokens "CREATE TABLE t (a INT, b INT DEFAULT 1, KEY (a))".toList second) = .ok new ∧
      Table.Reordered old new ∧
      (TableDiff.between true (some old) (some new)).hasChanges = false := by
  let source := "CREATE TABLE t (a INT, b INT DEFAULT 1, KEY (a))"
  let first := Token.ofText source
  let second :=
    [0, 1, 2, 3, 12, 13, 14, 15, 6, 4, 5, 11, 7, 8, 9, 10, 16, 17].filterMap (first[·]?)
  have reads : (Table.read.result (.ofTokens source.toList first)).toBool = true ∧
      (Table.read.result (.ofTokens source.toList second)).toBool = true := by decide +kernel
  have cuts : (ofTokens? first).isSome = true ∧ (ofTokens? second).isSome = true := by
    decide +kernel
  have alike : ∀ list ∈ ofTokens? first, ∀ other ∈ ofTokens? second,
      list.heading = other.heading ∧ list.runs ~ other.runs ∧ list.behind = other.behind ∧
        (∀ run ∈ list.runs, Matched run) ∧
        ∀ run ∈ list.runs, ∀ token ∈ run, token.kind ≠ .endOfInput := by
    decide +kernel
  have distinct : ∀ table ∈ (Table.read.result (.ofTokens source.toList first)).toOption,
      table.KeysDistinct := by
    decide +kernel
  obtain ⟨old, one⟩ := exists_ok_of_toBool reads.1
  obtain ⟨new, another⟩ := exists_ok_of_toBool reads.2
  obtain ⟨list, cut⟩ := Option.isSome_iff_exists.mp cuts.1
  obtain ⟨other, recut⟩ := Option.isSome_iff_exists.mp cuts.2
  obtain ⟨heading, runs, behind, matched, no_end⟩ := alike list cut other recut
  obtain ⟨same, silent⟩ :=
    reordered cut recut heading runs behind matched no_end one another
  exact ⟨first, second, old, new, rfl, rfl, one, another, same,
    silent (distinct old (by rw [one]; rfl)) true⟩

end SchemaDrift
