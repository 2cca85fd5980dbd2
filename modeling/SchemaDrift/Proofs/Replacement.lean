import SchemaDrift.Proofs.Reordering

/-!
Tables that differ in one place. Where one entry of a list is replaced by another in its place, the
comparison is silent only if the two are equal. So an index shows every change of its key parts; a
primary key, of which only the names of the parts are compared, shows those that change the names.
-/

namespace SchemaDrift

theorem sameByKey_replaced_iff {α κ : Type} [DecidableEq κ] (key : α → κ) (before after : α)
    (earlier later : List α) :
    SameByKey key (earlier ++ before :: later) (earlier ++ after :: later) ↔ before = after := by
  constructor
  · intro same
    have own := same (key before)
    by_cases agree : key after = key before
    · simpa [agree] using own
    · -- One entry more has the key on the one side than on the other.
      have lengths := congrArg List.length own
      simp [agree] at lengths
  · rintro rfl _
    rfl

theorem Listed.changes_replaced_iff {α : Type} [Listed α] [Complete α] (renames : Bool)
    (before after : α) (earlier later : List α) :
    changes renames (earlier ++ before :: later) (earlier ++ after :: later) = [] ↔
      before = after := by
  rw [changes_eq_nil_iff, sameByKey_replaced_iff]

theorem Listed.changes_self {α : Type} [Listed α] [Complete α] (renames : Bool)
    (entries : List α) : changes renames entries entries = [] :=
  (changes_eq_nil_iff renames entries entries).mpr fun _ => rfl

namespace TableDiff

theorem between_self_settings (renames : Bool) (table : Table) :
    let diff := between renames (some table) (some table)
    diff.nameChanged = false ∧ diff.columns = [] ∧ diff.indexes = [] ∧ diff.foreignKeys = [] ∧
      diff.checks = [] ∧ diff.options = none ∧ diff.primaryKey = none ∧ diff.partitioning = none := by
  intro diff
  exact ⟨bne_self_eq_false _, Listed.changes_self renames _, Listed.changes_self renames _,
    Listed.changes_self renames _, Listed.changes_self renames _, Change.ofOptions_self _,
    Change.ofOptions_self _, Change.ofOptions_self _⟩

theorem hasChanges_primaryKey (renames : Bool) (table : Table) (before after : PrimaryKey) :
    (between renames (some { table with primaryKey := some before })
        (some { table with primaryKey := some after })).hasChanges = false ↔
      PrimaryKey.Agree before after := by
  obtain ⟨name, columns, indexes, foreignKeys, checks, options, _, partitioning⟩ :=
    between_self_settings renames table
  have rest := Change.ofOptions_eq_none_iff _ PrimaryKey.agree_iff (some before) (some after)
  rw [Option.rel_some_some] at rest
  rw [silent_iff, ← rest]
  exact ⟨fun silent => silent.2.2.2.2.2.2.1, fun same =>
    ⟨name, columns, indexes, foreignKeys, checks, options, same, partitioning⟩⟩

theorem hasChanges_indexes (renames : Bool) (table : Table) (before after : Index)
    (earlier later : List Index) :
    (between renames (some { table with indexes := earlier ++ before :: later })
        (some { table with indexes := earlier ++ after :: later })).hasChanges = false ↔
      before = after := by
  obtain ⟨name, columns, _, foreignKeys, checks, options, primaryKey, partitioning⟩ :=
    between_self_settings renames table
  rw [silent_iff, ← Listed.changes_replaced_iff renames before after earlier later]
  exact ⟨fun silent => silent.2.2.1, fun same =>
    ⟨name, columns, same, foreignKeys, checks, options, primaryKey, partitioning⟩⟩

theorem hasChanges_foreignKeys (renames : Bool) (table : Table) (before after : ForeignKey)
    (earlier later : List ForeignKey) :
    (between renames (some { table with foreignKeys := earlier ++ before :: later })
        (some { table with foreignKeys := earlier ++ after :: later })).hasChanges = false ↔
      before = after := by
  obtain ⟨name, columns, indexes, _, checks, options, primaryKey, partitioning⟩ :=
    between_self_settings renames table
  rw [silent_iff, ← Listed.changes_replaced_iff renames before after earlier later]
  exact ⟨fun silent => silent.2.2.2.1, fun same =>
    ⟨name, columns, indexes, same, checks, options, primaryKey, partitioning⟩⟩

/-- Other parts of an index are a change in any case, other parts of a primary key where they have other
names; so the two disagree where only the lengths or directions of the parts are others. -/
theorem keyParts_shown (renames : Bool) (table : Table) (key : PrimaryKey) (index : Index)
    (earlier later : List Index) (old new : List KeyPart) :
    let keyed (parts : List KeyPart) : Table :=
      { table with primaryKey := some { key with columns := parts } }
    let indexed (parts : List KeyPart) : Table :=
      { table with indexes := earlier ++ { index with columns := parts } :: later }
    let byKey := (between renames (some (keyed old)) (some (keyed new))).hasChanges
    let byIndex := (between renames (some (indexed old)) (some (indexed new))).hasChanges
    (byKey = true ↔ KeyPart.names old ≠ KeyPart.names new) ∧ (byIndex = true ↔ old ≠ new) ∧
      (byKey = byIndex ↔ old = new ∨ KeyPart.names old ≠ KeyPart.names new) := by
  intro keyed indexed byKey byIndex
  have keys : byKey = false ↔ KeyPart.names old = KeyPart.names new := by
    rw [hasChanges_primaryKey]
    exact ⟨fun agree => agree.columns, fun names => ⟨names, rfl, rfl, rfl⟩⟩
  have indexes : byIndex = false ↔ old = new := by
    rw [hasChanges_indexes]
    exact ⟨congrArg Index.columns, fun same => by rw [same]⟩
  have shown : byKey = true ↔ KeyPart.names old ≠ KeyPart.names new := by
    rw [← Bool.not_eq_false, keys]
  have shownToo : byIndex = true ↔ old ≠ new := by
    rw [← Bool.not_eq_false, indexes]
  refine ⟨shown, shownToo, ?_⟩
  by_cases same : old = new
  · simp [indexes.mpr same, keys.mpr (congrArg KeyPart.names same), same]
  · rw [shownToo.mpr same, shown]
    exact ⟨Or.inr, fun either => either.resolve_left same⟩

/-- A prefix of another length is a change of an index and none of a primary key. -/
theorem prefix_length_shown_by_index_only :
    let column : Column := { name := "a", dataType := { name := "VARCHAR", parameters := ["50"] } }
    let table : Table := { schema := none, name := "t", columns := [column] }
    let parts (length : UInt64) : List KeyPart := [{ name := "a", length := some length }]
    let keyed (parts : List KeyPart) : Table :=
      { table with primaryKey := some { name := none, columns := parts } }
    let indexed (parts : List KeyPart) : Table :=
      { table with indexes := [{ name := some "x", kind := .unique, columns := parts }] }
    (between true (some (keyed (parts 10))) (some (keyed (parts 20)))).hasChanges = false ∧
      (between true (some (indexed (parts 10))) (some (indexed (parts 20)))).hasChanges = true := by
  decide +kernel

end TableDiff

end SchemaDrift
