import SchemaDrift.Proofs.ByName
import SchemaDrift.Proofs.Gate
import SchemaDrift.Proofs.Parts
import SchemaDrift.Proofs.Reversal

/-! A table that stands on one side only is always reported. A comparison sees no more of a table than the entries of
its lists and its singletons; but every element that is read leaves something there, and an element list has at least
one element. -/

namespace SchemaDrift

open Reading

/-- Something stands in one of the lists of the table, or it has a primary key. -/
def Table.Stocked (table : Table) : Prop :=
  table.columns ≠ [] ∨ table.primaryKey ≠ none ∨ table.indexes ≠ [] ∨ table.foreignKeys ≠ [] ∨ table.checks ≠ []

/-! What is read is stocked. -/

namespace Element

theorem readMore_ne_nil (seen : List Element) : Yields Anywhere (readMore seen) (· ≠ []) :=
  (any_yields _).clause fun element _ => List.cons_ne_nil element seen

theorem readList_ne_nil : Yields Anywhere readList (· ≠ []) := by
  apply (readMore_ne_nil []).bind
  intro first given
  have round (seen : List Element) (_ : seen ≠ []) :
      Yields Anywhere (do discard advance; readMore seen) (· ≠ []) :=
    (any_yields _).bind fun _ _ => readMore_ne_nil seen
  exact (Yields.foldWhile round given).clause fun latestFirst kept => by simpa using kept

end Element

theorem Table.ofElements_stocked (heading : TableHeading) {elements : List Element} (listed : elements ≠ []) :
    (ofElements heading elements).Stocked := by
  cases elements with
  | nil => contradiction
  | cons element rest =>
      cases element with
      | column value checks => exact .inl (by simp [ofElements, Element.column?])
      | primaryKey value => exact .inr (.inl (by simp [ofElements, Element.primaryKey?]))
      | index value => exact .inr (.inr (.inl (by simp [ofElements, Element.index?])))
      | foreignKey value => exact .inr (.inr (.inr (.inl (by simp [ofElements, Element.foreignKey?]))))
      | check value => exact .inr (.inr (.inr (.inr (by simp [ofElements, Element.checks]))))

theorem Table.read_stocked : Yields Anywhere Table.read Stocked := by
  apply (any_yields _).bind
  intro heading _
  apply (any_yields _).bind
  intro _ _
  apply Element.readList_ne_nil.bind
  intro elements listed
  apply (any_yields _).bind
  intro _ _
  apply (any_yields _).bind
  intro options _
  apply (any_yields _).bind
  intro partitioned _
  have stocked := ofElements_stocked heading listed
  exact .ite ((any_yields _).bind fun _ _ => .pure stocked) ((any_yields _).bind fun _ _ => .pure stocked)

theorem Table.ofStatement_stocked {statement : Statement} {table : Table}
    (done : ofStatement statement = .ok table) : table.Stocked := by
  obtain ⟨after, found⟩ := ok_of_result_ok done
  exact (read_stocked _ trivial table after found).1

namespace Dump

theorem mem_of_collect {policy : ErrorPolicy} {results : List (Except SyntaxError Table)} {tables : List Table}
    (collected : collect policy results = .ok tables) {table : Table} (listed : table ∈ tables) :
    .ok table ∈ results := by
  induction results generalizing tables with
  | nil =>
      obtain rfl := Except.ok.inj collected
      contradiction
  | cons result rest ih =>
      cases result with
      | error error =>
          cases policy with
          | abort => contradiction
          | skip => exact List.mem_cons_of_mem _ (ih collected listed)
      | ok first =>
          rw [collect] at collected
          cases others : collect policy rest with
          | error error =>
              rw [others] at collected
              contradiction
          | ok more =>
              rw [others] at collected
              obtain rfl := Except.ok.inj collected
              rcases List.mem_cons.mp listed with rfl | behind
              · exact List.mem_cons_self
              · exact List.mem_cons_of_mem _ (ih others behind)

theorem tables_stocked {policy : ErrorPolicy} {text : String} {tables : List Table}
    (done : Dump.tables policy text = .ok tables) {table : Table} (listed : table ∈ tables) : table.Stocked := by
  obtain ⟨statement, _, read⟩ := List.mem_map.mp (mem_of_collect done listed)
  exact Table.ofStatement_stocked read

end Dump

/-! What is stocked is reported. -/

theorem SameByKey.eq_nil_of_left {α κ : Type} [DecidableEq κ] {key : α → κ} {new : List α}
    (same : SameByKey key [] new) : new = [] := by
  cases new with
  | nil => rfl
  | cons entry rest =>
      have own := same (key entry)
      simp at own

namespace TableDiff

variable {renames : Bool} {table : Table}

theorem hasChanges_added (stocked : table.Stocked) : (between renames none (some table)).hasChanges = true := by
  -- Were nothing reported, each list would be the empty list of the other side, and the key missing.
  by_contra quiet
  rw [Bool.not_eq_true, silent_iff] at quiet
  obtain ⟨_, columns, indexes, foreignKeys, checks, _, primaryKey, _⟩ := quiet
  rcases stocked with some_column | some_key | some_index | some_foreignKey | some_check
  · exact some_column ((Listed.changes_eq_nil_iff _ _ _).mp columns).eq_nil_of_left
  · cases held : table.primaryKey with
    | none => exact some_key held
    | some key => simp [between, held, Change.ofOptions] at primaryKey
  · exact some_index ((Listed.changes_eq_nil_iff _ _ _).mp indexes).eq_nil_of_left
  · exact some_foreignKey ((Listed.changes_eq_nil_iff _ _ _).mp foreignKeys).eq_nil_of_left
  · exact some_check ((Listed.changes_eq_nil_iff _ _ _).mp checks).eq_nil_of_left

theorem hasChanges_removed (stocked : table.Stocked) : (between renames (some table) none).hasChanges = true := by
  rw [(between_mirrored renames none (some table)).hasChanges]
  exact hasChanges_added stocked

end TableDiff

namespace SchemaDiff

theorem hasChanges_compared (renames : Bool) {old new : List Table}
    (stocked : ∀ table, table ∈ old ∨ table ∈ new → table.Stocked) {name : String}
    (oneSided : ¬(name ∈ Table.namesOf old ↔ name ∈ Table.namesOf new)) :
    (compared renames old new name).hasChanges = true := by
  by_cases ofOld : name ∈ Table.namesOf old
  · have gone : name ∉ Table.namesOf new := fun ofNew => oneSided ⟨fun _ => ofNew, fun _ => ofOld⟩
    obtain ⟨table, found, _⟩ := Table.exists_find?_of_mem ofOld
    rw [compared, found, Table.find?_none_of_not_mem gone]
    exact TableDiff.hasChanges_removed (stocked table (.inl (List.mem_of_find?_eq_some found)))
  · have ofNew : name ∈ Table.namesOf new := by
      by_contra missing
      exact oneSided ⟨fun present => absurd present ofOld, fun present => absurd present missing⟩
    obtain ⟨table, found, _⟩ := Table.exists_find?_of_mem ofNew
    rw [compared, found, Table.find?_none_of_not_mem ofOld]
    exact TableDiff.hasChanges_added (stocked table (.inr (List.mem_of_find?_eq_some found)))

/-- A table that one of two dumps creates and the other does not know has one entry in the comparison, and the entry
is among the changed ones, whatever the dumps, the ways of reading them and the look for renames. -/
theorem created_or_dropped_changed {oldPolicy newPolicy : ErrorPolicy} {oldText newText : String}
    {old new : List Table} (readOld : Dump.tables oldPolicy oldText = .ok old)
    (readNew : Dump.tables newPolicy newText = .ok new) (renames : Bool) {name : String}
    (oneSided : ¬(name ∈ old.map Table.name ↔ name ∈ new.map Table.name)) :
    ∃ entry, entry.name = name ∧ entry.hasChanges = true ∧
      (between renames old new).tables.filter (·.name == name) = [entry] ∧
      (between renames old new).changed.filter (·.name == name) = [entry] := by
  have present : name ∈ names old new := by
    rw [mem_names]
    by_contra missing
    rw [not_or] at missing
    exact oneSided ⟨fun ofOld => absurd ofOld missing.1, fun ofNew => absurd ofNew missing.2⟩
  have stocked : ∀ table, table ∈ old ∨ table ∈ new → table.Stocked := by
    rintro table (ofOld | ofNew)
    · exact Dump.tables_stocked readOld ofOld
    · exact Dump.tables_stocked readNew ofNew
  have changed := hasChanges_compared renames stocked oneSided
  have only : (between renames old new).tables.filter (·.name == name) = [compared renames old new name] := by
    rw [filter_tables_between, if_pos present]
  refine ⟨compared renames old new name, name_compared renames present, changed, only, ?_⟩
  rw [SchemaDiff.changed, List.filter_comm, only]
  simp [changed]

/-- The table `a` of the first dump gives way to the table `b` of the second. -/
theorem created_or_dropped_changed_replaced :
    ∃ old new, Dump.tables .abort "CREATE TABLE a (x INT);" = .ok old ∧
      Dump.tables .skip "CREATE TABLE b (x INT);" = .ok new ∧
      ¬("a" ∈ old.map Table.name ↔ "a" ∈ new.map Table.name) ∧
      ∃ entry, entry.name = "a" ∧ entry.hasChanges = true ∧
        (between true old new).tables.filter (·.name == "a") = [entry] ∧
        (between true old new).changed.filter (·.name == "a") = [entry] := by
  obtain ⟨old, readOld, oldNames⟩ : ∃ old, Dump.tables .abort "CREATE TABLE a (x INT);" = .ok old ∧
      old.map Table.name = ["a"] := exists_ok_of_map (by decide +kernel)
  obtain ⟨new, readNew, newNames⟩ : ∃ new, Dump.tables .skip "CREATE TABLE b (x INT);" = .ok new ∧
      new.map Table.name = ["b"] := exists_ok_of_map (by decide +kernel)
  have oneSided : ¬("a" ∈ old.map Table.name ↔ "a" ∈ new.map Table.name) := by
    rw [oldNames, newNames]
    decide
  exact ⟨old, new, readOld, readNew, oneSided, created_or_dropped_changed readOld readNew true oneSided⟩

end SchemaDiff

end SchemaDrift
