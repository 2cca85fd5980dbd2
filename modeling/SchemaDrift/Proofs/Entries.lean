import SchemaDrift.Proofs.Parts

/-!
No element of a statement is lost. Each run of the element list gives one entry of the table, of the
kind that its first word tells, and the table has no other entries.
-/

namespace SchemaDrift

open Reading

theorem front_word (source : List Char) (run : List Token) (close : Token) :
    (Cursor.mk source (run ++ [Behind.parenthesis]) close).current.keyword? =
      run.head?.bind Token.keyword? := by
  cases run <;> rfl

theorem Element.readConstraintName_eq (source : List Char) (run : List Token) (close : Token) :
    ∃ name, Element.readConstraintName ⟨source, run ++ [Behind.parenthesis], close⟩ =
      .ok name ⟨source, behindConstraint run ++ [Behind.parenthesis], close⟩ := by
  cases run with
  | nil => exact ⟨none, rfl⟩
  | cons first rest =>
      by_cases word : first.kind = .keyword .CONSTRAINT
      · have eaten : eatWord .CONSTRAINT ⟨source, first :: rest ++ [Behind.parenthesis], close⟩ =
            .ok true ⟨source, rest ++ [Behind.parenthesis], close⟩ := by
          simp [eatWord, eat, Cursor.sees, Cursor.current, Cursor.next, word]
        rw [Element.readConstraintName, bind_of_ok eaten, if_pos rfl]
        cases rest with
        | nil => exact ⟨none, by simp [behindConstraint, word]; rfl⟩
        | cons name behind =>
            cases named : name.isName with
            | true => exact ⟨some name.text, by
                simp [name?, behindConstraint, Cursor.current, Cursor.next, word, named]⟩
            | false => exact ⟨none, by simp [name?, behindConstraint, Cursor.current, word, named]⟩
      · have kept : eatWord .CONSTRAINT ⟨source, first :: rest ++ [Behind.parenthesis], close⟩ =
            .ok false ⟨source, first :: rest ++ [Behind.parenthesis], close⟩ := by
          simp [eatWord, eat, Cursor.sees, Cursor.current, word]
        rw [Element.readConstraintName, bind_of_ok kept, if_neg Bool.false_ne_true]
        exact ⟨none, by simp [behindConstraint, word]; rfl⟩

/-- The kind of an element is told by the first token of its run, or by the one behind the name of a
constraint. -/
theorem Element.takes_category {source : List Char} {run : List Token} {element : Element}
    (takes : (Element.read false).Takes source run element) :
    element.category = Category.ofRun run := by
  obtain ⟨name, constraint⟩ :=
    Element.readConstraintName_eq source run (.endOfInput 0 .start)
  rw [Takes, Element.read, bind_of_ok constraint] at takes
  rw [Element.readBody_category takes, front_word, Category.ofRun]

namespace Element

def check? : Element → Option Check
  | .check value => some value
  | _ => none

theorem categories_length (elements : List Element) :
    (elements.filterMap column?).length + (elements.filterMap index?).length +
        (elements.filterMap foreignKey?).length + (elements.filterMap primaryKey?).length +
        (elements.filterMap check?).length = elements.length := by
  induction elements with
  | nil => rfl
  | cons element rest ih =>
      cases element <;>
        simp only [List.filterMap_cons, column?, index?, foreignKey?, primaryKey?, check?,
          List.length_cons] <;> omega

theorem OneKey.findSome? {elements : List Element} (one : OneKey elements) :
    (elements.findSome? primaryKey?).toList = elements.filterMap primaryKey? := by
  rw [OneKey] at one
  rw [← List.head?_filterMap]
  cases keys : elements.filterMap primaryKey? with
  | nil => rfl
  | cons key rest =>
      rw [keys, List.length_cons] at one
      obtain rfl : rest = [] := List.eq_nil_of_length_eq_zero (by omega)
      rfl

end Element

namespace ElementList

/-- The entries of a table are the elements that the runs of a list give, one for each. -/
structure Accounts (source : List Char) (list : ElementList) (elements : List Element)
    (table : Table) : Prop where
  named : ∃ heading, TableHeading.read.Takes source list.heading heading ∧
    table.name = heading.name ∧ table.schema = heading.schema
  each : List.Forall₂ ((Element.read false).Takes source) list.runs elements
  kinds : elements.map Element.category = list.runs.map Category.ofRun
  columns : table.columns = elements.filterMap Element.column?
  indexes : table.indexes = elements.filterMap Element.index?
  foreignKeys : table.foreignKeys = elements.filterMap Element.foreignKey?
  primaryKey : table.primaryKey.toList = elements.filterMap Element.primaryKey?
  checks : table.checks = elements.flatMap Element.checks
  total : table.columns.length + table.indexes.length + table.foreignKeys.length +
    table.primaryKey.toList.length + (elements.filterMap Element.check?).length = list.runs.length

/-- Where no comma and no parenthesis stands right behind a MATCH, a statement that is read has an
element list that is closed, and no element of it is lost. -/
theorem nothing_lost {source : List Char} {tokens : List Token} {table : Table}
    (guarded : MatchGuarded tokens)
    (no_end : ∀ token ∈ tokens.dropLast, token.kind ≠ .endOfInput)
    (done : Table.read.result (.ofTokens source tokens) = .ok table) :
    ∃ list elements, ofTokens? tokens = some list ∧ Accounts source list elements table := by
  obtain ⟨list, heading, elements, settings, cut, gives, rfl⟩ :=
    gives_of_guarded guarded no_end done
  have kinds : elements.map Element.category = list.runs.map Category.ofRun := by
    rw [← List.forall₂_eq_eq_eq, List.forall₂_map_left_iff, List.forall₂_map_right_iff]
    exact gives.listed.flip.imp fun element run takes => Element.takes_category takes
  refine ⟨list, elements, cut, ⟨heading, gives.named, rfl, rfl⟩, gives.listed, kinds, rfl, rfl, rfl,
    gives.oneKey.findSome?, rfl, ?_⟩
  rw [gives.listed.length_eq, ← Element.categories_length elements, ← gives.oneKey.findSome?]
  rfl

theorem nothing_lost_full_match :
    ∃ table list elements,
      Table.read.result (.ofTokens
        "CREATE TABLE t (a INT REFERENCES p (x) MATCH FULL, KEY (a))".toList
        (Token.ofText "CREATE TABLE t (a INT REFERENCES p (x) MATCH FULL, KEY (a))")) = .ok table ∧
      ofTokens? (Token.ofText "CREATE TABLE t (a INT REFERENCES p (x) MATCH FULL, KEY (a))") =
        some list ∧
      Accounts "CREATE TABLE t (a INT REFERENCES p (x) MATCH FULL, KEY (a))".toList list elements
        table := by
  have guarded : MatchGuarded
      (Token.ofText "CREATE TABLE t (a INT REFERENCES p (x) MATCH FULL, KEY (a))") := by
    rw [MatchGuarded]
    decide +kernel
  have no_end : ∀ token ∈
      (Token.ofText "CREATE TABLE t (a INT REFERENCES p (x) MATCH FULL, KEY (a))").dropLast,
      token.kind ≠ .endOfInput := by
    decide +kernel
  have read : (Table.read.result
      (.ofTokens "CREATE TABLE t (a INT REFERENCES p (x) MATCH FULL, KEY (a))".toList
        (Token.ofText "CREATE TABLE t (a INT REFERENCES p (x) MATCH FULL, KEY (a))"))).toBool =
          true := by
    decide +kernel
  obtain ⟨table, done⟩ := exists_ok_of_toBool read
  obtain ⟨list, elements, cut, accounts⟩ := nothing_lost guarded no_end done
  exact ⟨table, list, elements, done, cut, accounts⟩

/-- A comma right behind MATCH is passed over with it: of two runs, one entry is left. -/
theorem lost_behind_match :
    (ofTokens? (Token.ofText "CREATE TABLE t (a INT REFERENCES p (x) MATCH, b INT)")).map
        (·.runs.length) = some 2 ∧
      (Table.read.result (.ofTokens "CREATE TABLE t (a INT REFERENCES p (x) MATCH, b INT)".toList
        (Token.ofText "CREATE TABLE t (a INT REFERENCES p (x) MATCH, b INT)"))).toOption.map
          (fun table => table.columns.length + table.indexes.length + table.foreignKeys.length +
            table.primaryKey.toList.length + table.checks.length) = some 1 := by
  decide +kernel

end ElementList

end SchemaDrift
