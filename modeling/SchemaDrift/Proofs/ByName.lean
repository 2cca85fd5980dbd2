import Mathlib.Data.List.Nodup
import Mathlib.Data.List.Count
import Mathlib.Data.List.Induction
import SchemaDrift.Command.Report

/-! Two lists of tables are compared name by name. The walk over both lists keeps the names it has seen and looks
tables up in an index; what comes out is told without either: each name once, in the order in which the names first
stand, and for each name its first tables. So the tables of other names have no part in what is reported of a name. -/

namespace SchemaDrift

/-! The index. -/

namespace TableIndex

theorem get?_cons (table : Table) (entries : List (String × Table)) (name : String) :
    get? ⟨(table.name, table) :: entries⟩ name =
      if table.name == name then some table else get? ⟨entries⟩ name := by
  by_cases same : table.name = name
  · subst same
    simp [get?]
  · have other : (name == table.name) = false := beq_false_of_ne (Ne.symm same)
    simp [get?, List.lookup_cons, same, other]

theorem get?_insertNew (index : TableIndex) (table : Table) (name : String) :
    (index.insertNew table).get? name = (index.get? name).or (if table.name == name then some table else none) := by
  unfold insertNew
  cases held : index.get? table.name with
  | none =>
      rw [if_neg (by simp), get?_cons]
      by_cases same : table.name = name
      · subst same
        simp [held]
      · simp [same]
  | some kept =>
      rw [if_pos (by simp)]
      by_cases same : table.name = name
      · subst same
        simp [held]
      · simp [same]

theorem get?_foldl (index : TableIndex) (tables : List Table) (name : String) :
    (tables.foldl insertNew index).get? name = (index.get? name).or (tables.find? (·.name == name)) := by
  induction tables generalizing index with
  | nil => simp
  | cons table rest ih =>
      rw [List.foldl_cons, ih, get?_insertNew, Option.or_assoc, List.find?_cons]
      cases table.name == name <;> simp

theorem get?_ofTables (tables : List Table) (name : String) :
    (ofTables tables).get? name = tables.find? (·.name == name) := by
  unfold ofTables
  simpa [get?, empty] using get?_foldl empty tables name

end TableIndex

/-! Names without repetitions. -/

theorem nodup_eraseDups (names : List String) : names.eraseDups.Nodup := by
  induction names using List.reverseRecOn with
  | nil => simp
  | append_singleton front name ih =>
      rw [List.eraseDups_append]
      by_cases known : name ∈ front
      · simpa [List.removeAll, known] using ih
      · simp [List.removeAll, known, List.nodup_append, ih, List.eraseDups_cons]
        rintro other listed rfl
        exact known listed

theorem filter_beq_of_nodup {names : List String} (once : names.Nodup) (name : String) :
    names.filter (· == name) = if name ∈ names then [name] else [] := by
  rw [List.filter_beq, once.count]
  split <;> rfl

/-! The walk. -/

def Table.namesOf (tables : List Table) : List String :=
  tables.map (·.name)

theorem Table.find?_none_of_not_mem {tables : List Table} {name : String} (missing : name ∉ namesOf tables) :
    tables.find? (·.name == name) = none := by
  rw [List.find?_eq_none]
  intro table listed same
  exact missing (List.mem_map.mpr ⟨table, listed, by simpa using same⟩)

theorem Table.exists_find?_of_mem {tables : List Table} {name : String} (present : name ∈ namesOf tables) :
    ∃ table, tables.find? (·.name == name) = some table ∧ table.name = name := by
  obtain ⟨table, listed, same⟩ := List.mem_map.mp present
  have found : (tables.find? (·.name == name)).isSome :=
    List.find?_isSome.mpr ⟨table, listed, by simpa using same⟩
  obtain ⟨first, held⟩ := Option.isSome_iff_exists.mp found
  exact ⟨first, held, by simpa using List.find?_some held⟩

namespace TableWalk

variable {compare : Table → TableDiff}

theorem visit_of_seen {walk : TableWalk} {table : Table} (seen : table.name ∈ walk.seen) :
    walk.visit compare table = walk := by
  simp [visit, seen]

theorem visit_of_unseen {walk : TableWalk} {table : Table} (unseen : table.name ∉ walk.seen) :
    walk.visit compare table = ⟨table.name :: walk.seen, walk.found.push (compare table)⟩ := by
  simp [visit, unseen]

theorem mem_seen_visit (walk : TableWalk) (table : Table) (name : String) :
    name ∈ (walk.visit compare table).seen ↔ name ∈ walk.seen ∨ name = table.name := by
  by_cases seen : table.name ∈ walk.seen
  · rw [visit_of_seen seen]
    constructor
    · exact .inl
    · rintro (known | rfl)
      · exact known
      · exact seen
  · rw [visit_of_unseen seen, List.mem_cons, or_comm]

theorem visitAll_cons (walk : TableWalk) (table : Table) (rest : List Table) :
    walk.visitAll compare (table :: rest) = (walk.visit compare table).visitAll compare rest :=
  rfl

theorem mem_seen_visitAll (walk : TableWalk) (tables : List Table) (name : String) :
    name ∈ (walk.visitAll compare tables).seen ↔ name ∈ walk.seen ∨ name ∈ Table.namesOf tables := by
  induction tables generalizing walk with
  | nil => simp [visitAll, Table.namesOf]
  | cons table rest ih =>
      rw [visitAll_cons, ih, mem_seen_visit, or_assoc]
      simp [Table.namesOf]

theorem found_visitAll (result : String → TableDiff) (walk : TableWalk) (tables : List Table)
    (first : ∀ name, name ∉ walk.seen → ∀ table, tables.find? (·.name == name) = some table →
      compare table = result name) :
    (walk.visitAll compare tables).found.toList =
      walk.found.toList ++ (((Table.namesOf tables).filter (· ∉ walk.seen)).eraseDups.map result) := by
  induction tables generalizing walk with
  | nil => simp [visitAll, Table.namesOf]
  | cons table rest ih =>
      -- The first table of a name in the rest is its first one in the whole list, unless the step saw the name.
      have later : ∀ name, name ∉ (walk.visit compare table).seen →
          ∀ other, rest.find? (·.name == name) = some other → compare other = result name := by
        intro name unseen other found
        rw [mem_seen_visit, not_or] at unseen
        have different : (table.name == name) = false := beq_false_of_ne (Ne.symm unseen.2)
        exact first name unseen.1 other (by rw [List.find?_cons, different]; exact found)
      rw [visitAll_cons, ih _ later]
      by_cases seen : table.name ∈ walk.seen
      · simp [visit_of_seen seen, Table.namesOf, seen]
      · have here : compare table = result table.name := first table.name seen table (by simp)
        have behind : (Table.namesOf rest).filter (· ∉ table.name :: walk.seen) =
            ((Table.namesOf rest).filter (· ∉ walk.seen)).filter fun name => !name == table.name := by
          rw [List.filter_filter]
          apply List.filter_congr
          intro name _
          rw [Bool.eq_iff_iff]
          simp
        rw [visit_of_unseen seen, behind]
        simp [Table.namesOf, seen, List.eraseDups_cons, here]

end TableWalk

namespace SchemaDiff

/-- The names of two lists of tables, each once: those of the old list in the order in which they first stand there,
then those that only the new list has, in the order in which they first stand there. -/
def names (old new : List Table) : List String :=
  (Table.namesOf old).eraseDups ++ ((Table.namesOf new).filter (· ∉ Table.namesOf old)).eraseDups

/-- The changes from the first old table of a name to the first new one; either may be missing. -/
def compared (renames : Bool) (old new : List Table) (name : String) : TableDiff :=
  .between renames (old.find? (·.name == name)) (new.find? (·.name == name))

theorem mem_names {old new : List Table} {name : String} :
    name ∈ names old new ↔ name ∈ Table.namesOf old ∨ name ∈ Table.namesOf new := by
  simp only [names, List.mem_append, List.mem_eraseDups, List.mem_filter, decide_eq_true_eq]
  tauto

theorem tables_between (renames : Bool) (old new : List Table) :
    (between renames old new).tables = (names old new).map (compared renames old new) := by
  simp only [between]
  rw [TableWalk.found_visitAll (compared renames old new) _ new,
    TableWalk.found_visitAll (compared renames old new) .start old]
  · simp [TableWalk.mem_seen_visitAll, TableWalk.start, names]
  · intro name _ table found
    have same : table.name = name := by simpa using List.find?_some found
    simp only [compared, TableIndex.get?_ofTables, same, found]
  · -- A name that the first walk has not seen is no name of an old table.
    intro name unseen table found
    rw [TableWalk.mem_seen_visitAll, not_or] at unseen
    simp only [compared, Table.find?_none_of_not_mem unseen.2, found]

theorem nodup_names (old new : List Table) : (names old new).Nodup := by
  rw [names, List.nodup_append]
  refine ⟨nodup_eraseDups _, nodup_eraseDups _, ?_⟩
  intro name ofOld other ofNew same
  subst same
  simp only [List.mem_eraseDups, List.mem_filter, decide_eq_true_eq] at ofOld ofNew
  exact ofNew.2 ofOld

theorem name_compared (renames : Bool) {old new : List Table} {name : String} (present : name ∈ names old new) :
    (compared renames old new name).name = name := by
  rw [mem_names] at present
  by_cases ofNew : name ∈ Table.namesOf new
  · obtain ⟨table, found, same⟩ := Table.exists_find?_of_mem ofNew
    simp [compared, TableDiff.between, found, same]
  · obtain ⟨table, found, same⟩ := Table.exists_find?_of_mem (present.resolve_right ofNew)
    simp [compared, TableDiff.between, found, Table.find?_none_of_not_mem ofNew, same]

theorem filter_tables_between (renames : Bool) (old new : List Table) (name : String) :
    (between renames old new).tables.filter (·.name == name) =
      if name ∈ names old new then [compared renames old new name] else [] := by
  have own_name : (names old new).filter (fun other => (compared renames old new other).name == name) =
      (names old new).filter (· == name) := by
    apply List.filter_congr
    intro other present
    rw [name_compared renames present]
  rw [tables_between, List.filter_map, Function.comp_def, own_name, filter_beq_of_nodup (nodup_names old new)]
  split <;> rfl

/-! Only the tables of one name. -/

theorem namesOf_selectTables (name : String) (tables : List Table) :
    Table.namesOf (Report.selectTables (some name) tables) = (Table.namesOf tables).filter (· == name) := by
  simp only [Table.namesOf, Report.selectTables, List.filter_map]
  rfl

theorem find?_selectTables (name : String) (tables : List Table) :
    (Report.selectTables (some name) tables).find? (·.name == name) = tables.find? (·.name == name) := by
  simp only [Report.selectTables, List.find?_filter, and_self, Bool.decide_eq_true]

theorem names_selectTables (name : String) (old new : List Table) :
    names (Report.selectTables (some name) old) (Report.selectTables (some name) new) =
      if name ∈ names old new then [name] else [] := by
  have only : ∀ other ∈ names (Report.selectTables (some name) old) (Report.selectTables (some name) new),
      (other == name) = true := by
    intro other present
    rw [mem_names, namesOf_selectTables, namesOf_selectTables] at present
    rcases present with present | present <;> exact (List.mem_filter.mp present).2
  have kept : name ∈ names (Report.selectTables (some name) old) (Report.selectTables (some name) new) ↔
      name ∈ names old new := by
    simp [mem_names, namesOf_selectTables]
  rw [← List.filter_eq_self.mpr only, filter_beq_of_nodup (nodup_names _ _)]
  simp only [kept]

theorem compared_selectTables (renames : Bool) (old new : List Table) (name : String) :
    compared renames (Report.selectTables (some name) old) (Report.selectTables (some name) new) name =
      compared renames old new name := by
  simp only [compared, find?_selectTables]

theorem tables_between_selectTables (renames : Bool) (old new : List Table) (name : String) :
    (between renames (Report.selectTables (some name) old) (Report.selectTables (some name) new)).tables =
      if name ∈ names old new then [compared renames old new name] else [] := by
  rw [tables_between, names_selectTables]
  split
  · simp only [List.map_cons, List.map_nil, compared_selectTables]
  · rfl

theorem selectTables_isEmpty (name : String) (old new : List Table) :
    ((Report.selectTables (some name) old).isEmpty && (Report.selectTables (some name) new).isEmpty) =
      !decide (name ∈ names old new) := by
  have none_of_name (tables : List Table) :
      (Report.selectTables (some name) tables).isEmpty = !decide (name ∈ Table.namesOf tables) := by
    rw [Bool.eq_iff_iff]
    simp [Report.selectTables, Table.namesOf]
  rw [none_of_name, none_of_name, Bool.eq_iff_iff]
  simp [mem_names]

/-- The comparison of two lists of tables is, for each name in the order in which the names first stand in the old
list and then in the new one, the comparison of the first tables of that name. Where only the tables of one name
are kept beforehand, it is the entry of that name, and nothing else; the command refuses a name that no table has. -/
theorem between_by_name (renames : Bool) (old new : List Table) :
    (between renames old new).tables = (names old new).map (compared renames old new) ∧
    ∀ name,
      (between renames (Report.selectTables (some name) old) (Report.selectTables (some name) new)).tables =
        (between renames old new).tables.filter (·.name == name) ∧
      (Report.select (some name) old new).map (fun kept => (between renames kept.1 kept.2).tables) =
        if name ∈ names old new then .ok [compared renames old new name] else .error (.noSuchTable name) := by
  constructor
  · exact tables_between renames old new
  · intro name
    constructor
    · rw [tables_between_selectTables, filter_tables_between]
    · simp only [Report.select, selectTables_isEmpty]
      by_cases present : name ∈ names old new
      · simp [present, Except.map, tables_between_selectTables]
      · simp [present, Except.map]

end SchemaDiff

end SchemaDrift
