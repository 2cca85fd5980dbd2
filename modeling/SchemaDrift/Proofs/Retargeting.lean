import SchemaDrift.Proofs.ClauseForms
import SchemaDrift.Proofs.InPlace
import SchemaDrift.Proofs.KeyText
import SchemaDrift.Proofs.Replacement
import SchemaDrift.Proofs.RunsApart

/-!
A foreign key that refers to another table. Two texts that name different targets in one place, and are
the same around it, are read alike up to that target; so a comparison shows the change whenever the
target is kept as another string. The schema and the name are kept as one string with a dot between
them, and a dot inside a name is not told from that.
-/

namespace SchemaDrift

open Reading

def backQuoted (name : String) : List Char :=
  '\x60' :: name.toList ++ ['\x60']

/-- A table that a foreign key refers to, by names that can be written between back-quotes. -/
structure Target where
  schema : Option String
  name : String
  plain : ∀ part ∈ name :: schema.toList, '\x60' ∉ part.toList
  deriving DecidableEq

namespace Target

/-- How the target is kept. -/
def joined (target : Target) : String :=
  qualified target.schema target.name

def written (target : Target) : List Char :=
  match target.schema with
  | some schema => backQuoted schema ++ '.' :: backQuoted target.name
  | none => backQuoted target.name

def Undotted (target : Target) : Prop :=
  ∀ part ∈ target.name :: target.schema.toList, '.' ∉ part.toList

instance : DecidablePred Undotted :=
  fun target => inferInstanceAs (Decidable (∀ part ∈ target.name :: target.schema.toList, _))

/-- Without dots in the names, the string that is kept tells the target. -/
theorem eq_of_joined {first second : Target} (one : first.Undotted) (other : second.Undotted)
    (same : first.joined = second.joined) : first = second := by
  obtain ⟨schema, name, plain⟩ := first
  obtain ⟨schemaToo, nameToo, plainToo⟩ := second
  have chars := congrArg String.toList same
  simp only [Undotted, List.forall_mem_cons] at one other
  cases schema with
  | none =>
      cases schemaToo with
      | none => simpa [joined, qualified] using same
      | some schemaToo =>
          refine absurd ?_ one.1
          rw [show name.toList = _ from chars]
          simp [joined, qualified]
  | some schema =>
      cases schemaToo with
      | none =>
          refine absurd ?_ other.1
          rw [show nameToo.toList = _ from chars.symm]
          simp [joined, qualified]
      | some schemaToo =>
          obtain ⟨schemas, names⟩ := KeyPart.append_cons_cancel '.' schema.toList schemaToo.toList
            name.toList nameToo.toList (by simpa using one.2) (by simpa using other.2)
            (by simpa [joined, qualified] using chars)
          simp [String.toList_inj.mp schemas, String.toList_inj.mp names]

def quoted (before : List Char) (name : String) : Token :=
  .standing before (backQuoted name) .quotedIdentifier name.toList

theorem quoted_text (before : List Char) (name : String) : (quoted before name).text = name :=
  String.ofList_toList

theorem visible_quoted {name : String} (plain : '\x60' ∉ name.toList) (before behind : List Char) :
    Token.visible (.ofPrefix before) (backQuoted name ++ behind) =
      quoted before name :: Token.visible (.ofPrefix (before ++ backQuoted name)) behind :=
  Token.visible_lexeme (.quotedIdentifier plain (.inl rfl)) (by simp)

def tokens (target : Target) (before : List Char) : List Token :=
  match target.schema with
  | some schema =>
      [quoted before schema, .standing (before ++ backQuoted schema) ['.'] .dot ['.'],
        quoted (before ++ backQuoted schema ++ ['.']) target.name]
  | none => [quoted before target.name]

theorem visible (target : Target) (before behind : List Char) :
    Token.visible (.ofPrefix before) (target.written ++ behind) =
      target.tokens before ++ Token.visible (.ofPrefix (before ++ target.written)) behind := by
  obtain ⟨schema, name, plain⟩ := target
  rw [List.forall_mem_cons] at plain
  cases schema with
  | none => exact visible_quoted plain.1 before behind
  | some schema =>
      have dotted := Token.visible_mark (show ('.', .dot) ∈ marks by decide)
        (before ++ backQuoted schema) (backQuoted name ++ behind)
      simp only [written, tokens, List.append_assoc, List.cons_append] at dotted ⊢
      rw [visible_quoted (by simpa using plain.2), dotted, visible_quoted plain.1]
      simp

theorem tokens_named (target : Target) (before : List Char) :
    TableName (target.tokens before) target.joined := by
  obtain ⟨schema, name, plain⟩ := target
  cases schema with
  | none =>
      have named := @TableName.plain (quoted before name) rfl
      rwa [quoted_text] at named
  | some schema =>
      have named := @TableName.ofSchema (quoted before schema)
        (.standing (before ++ backQuoted schema) ['.'] .dot ['.'])
        (quoted (before ++ backQuoted schema ++ ['.']) name) rfl rfl rfl
      rwa [quoted_text, quoted_text] at named

theorem tokens_inside (target : Target) (before : List Char) :
    Inside True 0 (target.tokens before) := by
  have goes_on {token : Token} {rest : List Token}
      (kind : token.kind = .quotedIdentifier ∨ token.kind = .dot) (inside : Inside True 0 rest) :
      Inside True 0 (token :: rest) := by
    refine .plain ?_ ?_ inside <;> rcases kind with kind | kind <;> simp [Token.IsBorder, kind]
  obtain ⟨schema, name, plain⟩ := target
  cases schema with
  | none => exact goes_on (.inl rfl) (.finish fun _ => rfl)
  | some schema =>
      exact goes_on (.inl rfl) (goes_on (.inr rfl) (goes_on (.inl rfl) (.finish fun _ => rfl)))

end Target

/-! Where the target of a foreign key stands. -/

/-- The tokens of a foreign key up to its target: CONSTRAINT and a name, FOREIGN KEY and a name, columns
between parentheses, REFERENCES. Either name may be missing. -/
structure ForeignKey.Opening where
  constraint : List Token
  name : Option String
  words : List Token
  index : Option Token
  opening : Token
  inner : List Token
  closing : Token
  references : Token
  constrained : ConstraintName constraint name
  spelled : Spell words [.FOREIGN, .KEY]
  named : ∀ token ∈ index, token.isName = true
  opens : opening.kind = .leftParen
  balanced : Balanced 0 inner
  closes : closing.kind = .rightParen
  refers : references.kind = .keyword .REFERENCES

namespace ForeignKey.Opening

def tokens (opening : Opening) : List Token :=
  opening.constraint ++ (opening.words ++ (opening.index.toList ++
    (opening.opening :: (opening.inner ++ [opening.closing, opening.references]))))

def key (opening : Opening) (columns : List KeyPart)
    (behind : List KeyPart × List ReferenceClause) (table : String) : ForeignKey where
  name := opening.name.or (opening.index.map Token.text)
  columns := KeyPart.names columns
  reference := behind.2.foldl Reference.apply { table, columns := KeyPart.names behind.1 }

theorem key_injective (opening : Opening) (columns : List KeyPart)
    (behind : List KeyPart × List ReferenceClause) {first second : String} :
    opening.key columns behind first = opening.key columns behind second ↔ first = second := by
  have kept (table : String) : (opening.key columns behind table).reference.table = table :=
    foldl_untouched (fun _ clause => by cases clause <;> rfl) _ behind.2
  constructor
  · intro same
    rw [← kept first, same, kept]
  · exact congrArg _

end ForeignKey.Opening

def Reference.readBehind : Reading (List KeyPart × List ReferenceClause) := do
  let columns ← KeyPart.readList
  let clauses ← many ReferenceClause.starts ReferenceClause.read
  return (columns, clauses)

theorem Reference.readBehind_uniform : Uniform readBehind := by
  have clauses := many_uniform ReferenceClause.starts_shared ReferenceClause.read_uniform
  exact KeyPart.readList_uniform.bind fun _ => clauses.bind fun _ => .pure _

theorem Reference.read_eq : Reference.read = (do
    expectWord .REFERENCES
    let (schema, name) ← qualifiedName
    let behind ← readBehind
    return behind.2.foldl Reference.apply
      { table := qualified schema name, columns := KeyPart.names behind.1 }) := by
  simp only [Reference.read, readBehind, bind_assoc, pure_bind]

theorem Table.readSettings_uniform : Uniform readSettings :=
  TableOptions.read?_uniform.bind fun _ =>
    (look_uniform (Cursor.seesWord_shared .PARTITION)).bind fun _ =>
      .optional (Partitioning.read_uniform.map some) (.pure none) fun _ => .pure _

section

variable {source : List Char} {rest : List Token} {close : Token}

theorem ConstraintName.read {tokens : List Token} {name : Option String}
    (constraint : ConstraintName tokens name)
    (no_constraint : (rest.headD close).kind ≠ .keyword .CONSTRAINT)
    (no_name : (rest.headD close).isName = false) :
    Element.readConstraintName ⟨source, tokens ++ rest, close⟩ = .ok name ⟨source, rest, close⟩ := by
  have missed : name? ⟨source, rest, close⟩ = .ok Option.none ⟨source, rest, close⟩ := by
    simp only [name?, Cursor.current, no_name, Bool.false_eq_true, ↓reduceIte]
  rw [Element.readConstraintName]
  cases constraint with
  | none => exact ifWord_missed no_constraint _ _
  | unnamed starts => exact (ifWord_found starts _ _).trans missed
  | named starts named =>
      refine (ifWord_found starts _ _).trans ?_
      simp [name?, Cursor.current, Cursor.next, named]

namespace ForeignKey.Opening

variable (opening : Opening)

theorem name?_found (behind : (rest.headD close).isName = false) :
    name? ⟨source, opening.index.toList ++ rest, close⟩ =
      .ok (opening.index.map Token.text) ⟨source, rest, close⟩ := by
  have named := opening.named
  cases index : opening.index with
  | none =>
      simp only [Option.toList_none, List.nil_append, name?, Cursor.current, behind]
      rfl
  | some token => simp [name?, Cursor.current, Cursor.next, named token index]

theorem columns_ok (guarded : MatchGuarded (opening.inner ++ [opening.closing]))
    (no_end : ∀ token ∈ opening.inner, token.kind ≠ .endOfInput) (ended : close.kind = .endOfInput)
    {columns : List KeyPart} {after : Cursor}
    (done : KeyPart.readList ⟨source, opening.opening :: (opening.inner ++ opening.closing :: rest),
      close⟩ = .ok columns after) :
    after = ⟨source, rest, close⟩ ∧ ∃ runs,
      cutRuns 0 (opening.inner ++ [opening.closing]) = some (runs, [opening.closing]) ∧
        List.Forall₂ (KeyPart.read.Takes source) runs columns := by
  obtain ⟨runs, cut⟩ := opening.balanced.cut opening.closes
  have alone : Parted (opening.inner ++ [opening.closing]) runs [opening.closing] := by
    refine .of_guarded (cut []) guarded ?_
    simp only [List.forall_mem_append, List.forall_mem_singleton, opening.closes]
    exact ⟨no_end, by simp⟩
  have parted := alone.append (by simp) rest
  rw [List.append_assoc, List.singleton_append] at parted
  obtain ⟨-, middle, read, closes, rfl⟩ := listOf_ok done
  obtain ⟨rfl, -, takes⟩ := separated_parted KeyPart.read_uniform KeyPart.read_stays ended parted read
    closes
  exact ⟨rfl, runs, cut [], takes⟩

theorem read_ok (guarded : MatchGuarded (opening.inner ++ [opening.closing]))
    (no_end : ∀ token ∈ opening.inner, token.kind ≠ .endOfInput) (ended : close.kind = .endOfInput)
    {named : List Token} {table : String} (target : TableName named table)
    (no_dot : (rest.headD close).kind ≠ .dot) {element : Element} {after : Cursor}
    (done : Element.read false ⟨source, opening.tokens ++ (named ++ rest), close⟩ =
      .ok element after) :
    ∃ runs columns behind,
      cutRuns 0 (opening.inner ++ [opening.closing]) = some (runs, [opening.closing]) ∧
        List.Forall₂ (KeyPart.read.Takes source) runs columns ∧
        Reference.readBehind ⟨source, rest, close⟩ = .ok behind after ∧
        element = .foreignKey (opening.key columns behind table) := by
  obtain ⟨foreign, others, words, is_foreign, spelled⟩ := opening.spelled.cons
  obtain ⟨key, rfl, is_key⟩ := spelled.single
  simp only [tokens, words, List.append_assoc, List.cons_append, List.nil_append] at done
  rw [Element.read, bind_of_ok (opening.constrained.read (by simp [is_foreign])
    (by simp [Token.isName, is_foreign]; rfl)), Element.readBody, current_bind] at done
  have word : foreign.keyword? = some .FOREIGN := Token.keyword?_eq_some_iff.mpr is_foreign
  simp only [Cursor.current, List.headD_cons, word] at done
  obtain ⟨value, last, read, made⟩ := ok_of_bind_ok done
  obtain ⟨rfl, rfl⟩ := EStateM.Result.ok.inj made
  rw [ForeignKey.read, bind_of_ok (expectWord_found is_foreign), bind_of_ok (expectWord_found is_key),
    bind_of_ok (opening.name?_found (by simp [Token.isName, opening.opens]))] at read
  obtain ⟨columns, middle, listed, read⟩ := ok_of_bind_ok read
  obtain ⟨rfl, runs, cut, takes⟩ := opening.columns_ok guarded no_end ended listed
  obtain ⟨reference, last, referred, made⟩ := ok_of_bind_ok read
  obtain ⟨rfl, rfl⟩ := EStateM.Result.ok.inj made
  obtain ⟨schema, name, qualifies, rfl⟩ := target.read no_dot source
  rw [Reference.read_eq, bind_of_ok (expectWord_found opening.refers), bind_of_ok qualifies] at referred
  obtain ⟨behind, last, tail, made⟩ := ok_of_bind_ok referred
  obtain ⟨rfl, rfl⟩ := EStateM.Result.ok.inj made
  exact ⟨runs, columns, behind, cut, takes, tail, rfl⟩

end ForeignKey.Opening

end

/-- Between these characters stands the target of a foreign key of a table: the list that is open in front
of it ends in the start of the foreign key, and the name does not go on behind it. -/
structure ForeignKey.Place (front back : List Char) where
  heading : List Token
  earlier : List (List Token)
  opening : Opening
  cut : ElementList.ofTokens? (Token.visible .start front ++ [Behind.parenthesis]) =
    some ⟨heading, earlier ++ [opening.tokens], [Behind.parenthesis]⟩
  undotted : ∀ token ∈ (Token.visible .start back).head?, token.kind ≠ .dot

/-- The text names the target in this place: a token starts there, and no comma and no parenthesis stands
right behind a MATCH. -/
structure Target.StandsIn (target : Target) (front back : List Char) (text : String) : Prop where
  parts : text.toList = front ++ (target.written ++ back)
  scanned : ∃ token ∈ Token.scanText text, token.span.start = String.utf8Len front
  guarded : MatchGuarded (Token.visible .start text.toList)

theorem Target.StandsIn.reached {target : Target} {front back : List Char} {text : String}
    (stands : target.StandsIn front back text) :
    Reaches (front ++ (target.written ++ back)) (target.written ++ back) := by
  obtain ⟨token, member, start⟩ := stands.scanned
  obtain ⟨before, c, rest, scanned⟩ := Token.scan_mem_stands member
  have same := scanned.text.symm.trans stands.parts
  have reached := scanned.reached
  simp only [scanned.span] at start
  -- two fronts of one text that have the same length
  obtain ⟨between, rfl, behind⟩ := prefix_of_utf8Len_le same start.le
  obtain rfl : between = [] := by
    by_contra nonempty
    have positive := utf8Len_pos_of_ne_nil nonempty
    rw [String.utf8Len_append] at start
    omega
  rw [List.nil_append] at behind
  rwa [stands.parts, behind] at reached

theorem Target.StandsIn.tokens_eq {target : Target} {front back : List Char} {text : String}
    (stands : target.StandsIn front back text) :
    Token.toEnd text.toList = Token.visible .start front ++ (target.tokens front ++
      (Token.toEnd back).map (Token.relocate (Position.ofPrefix (front ++ target.written)))) := by
  have behind := Token.toEnd_behind (front ++ target.written) back
  rw [List.append_assoc] at behind
  rw [← behind, Token.toEnd, stands.parts, Token.visible_append _ _ _ stands.reached,
    Position.start_advance, target.visible]
  simp only [List.append_assoc]

section

variable {α : Type} {reading : Reading α} (uniform : Uniform reading) {target : Target}
  {front back : List Char} {text : String} (stands : target.StandsIn front back text)
  {run : List Token} {value : α}
include uniform stands

theorem Target.StandsIn.takes_front (standing : ∀ token ∈ run, token ∈ Token.visible .start front)
    (takes : reading.Takes text.toList run value) : reading.Takes front run value := by
  have whole : text.toList = [] ++ front ++ (target.written ++ back) := stands.parts
  rw [whole, ← List.map_id run] at takes
  exact takes.of_moved uniform Token.id_moves standing

theorem Target.StandsIn.takes_back (standing : ∀ token ∈ run, token ∈ Token.visible .start back)
    (takes : reading.Takes text.toList
      (run.map (Token.relocate (Position.ofPrefix (front ++ target.written)))) value) :
    reading.Takes back run value := by
  have whole : text.toList = front ++ target.written ++ back ++ [] := by simp [stands.parts]
  rw [whole] at takes
  exact takes.of_moved uniform (Token.relocate_moves _) standing

end

namespace ForeignKey.Place

variable {front back : List Char} (place : Place front back)

theorem parts : ∃ opening inner before,
    Token.visible .start front = place.heading ++ opening :: inner ∧
      (∀ token ∈ place.heading, token.kind ≠ .leftParen) ∧ opening.kind = .leftParen ∧
      (∀ run ∈ place.earlier, run ⊆ inner) ∧ inner = before ++ place.opening.tokens ∧
      ∀ more, cutRuns 0 (inner ++ more) = (cutRuns 0 more).map
        (Prod.map (place.earlier ++ List.modifyHead (place.opening.tokens ++ ·) ·) id) := by
  obtain ⟨opening, inner, whole, no_opening, kind, cut⟩ := ElementList.ofTokens?_eq_some place.cut
  obtain ⟨-, inner, rfl, within⟩ := cutRuns_parts cut
  obtain ⟨runs, last, before, same, parts, -, opened⟩ := cutRuns_open cut
  obtain ⟨rfl, tokens⟩ := List.append_inj' same rfl
  obtain rfl : place.opening.tokens = last := by simpa using tokens
  refine ⟨opening, inner, before, ?_, no_opening, kind, ?_, parts, opened⟩
  · rw [← List.cons_append, ← List.append_assoc] at whole
    exact List.append_cancel_right whole
  · exact fun run member => within run (List.mem_append_left _ member)

structure Around where
  heading : TableHeading
  before : List Element
  columns : List KeyPart
  behind : List KeyPart × List ReferenceClause
  after : List Element
  settings : Table.Settings

def table (around : Around) (target : String) : Table :=
  .assemble around.heading
    (around.before ++ .foreignKey (place.opening.key around.columns around.behind target) ::
      around.after)
    around.settings

/-- What is read around the target is told from the two parts of the text alone. -/
structure Gives (around : Around) : Prop where
  heading : TableHeading.read.Takes front place.heading around.heading
  before : List.Forall₂ ((Element.read false).Takes front) place.earlier around.before
  columns : ∃ runs,
    cutRuns 0 (place.opening.inner ++ [place.opening.closing]) =
        some (runs, [place.opening.closing]) ∧
      List.Forall₂ (KeyPart.read.Takes front) runs around.columns
  behind : ∃ rest later ends, cutRuns 0 (Token.toEnd back) = some (rest :: later, ends) ∧
    Reference.readBehind.Takes back rest around.behind ∧
    List.Forall₂ ((Element.read false).Takes back) later around.after ∧
    Table.readSettings.result (Cursor.ofTokens back ends).next = .ok around.settings

theorem Gives.unique {first second : Around} (one : place.Gives first)
    (other : place.Gives second) : first = second := by
  obtain ⟨heading, before, ⟨runs, cut, columns⟩, rest, later, ends, parts, behind, after, settings⟩ :=
    one
  obtain ⟨headingToo, beforeToo, ⟨runsToo, cutToo, columnsToo⟩, _, _, _, partsToo, behindToo, afterToo,
    settingsToo⟩ := other
  rw [cut] at cutToo
  rw [parts] at partsToo
  obtain rfl : runs = runsToo := by simpa using cutToo
  simp only [Option.some.injEq, Prod.mk.injEq, List.cons.injEq] at partsToo
  obtain ⟨⟨rfl, rfl⟩, rfl⟩ := partsToo
  rw [settings] at settingsToo
  obtain ⟨_, _, _, _, _, _⟩ := first
  obtain ⟨_, _, _, _, _, _⟩ := second
  simp only [Around.mk.injEq]
  exact ⟨heading.unique headingToo, Takes.all_unique before beforeToo,
    Takes.all_unique columns columnsToo, behind.unique behindToo, Takes.all_unique after afterToo,
    Except.ok.inj settingsToo⟩

section

variable {target : Target} {text : String} (stands : target.StandsIn front back text)
include stands

theorem list_eq {list : ElementList}
    (cut : ElementList.ofTokens? (Token.toEnd text.toList) = some list) :
    let move := Token.relocate (Position.ofPrefix (front ++ target.written))
    ∃ rest later ends, cutRuns 0 (Token.toEnd back) = some (rest :: later, ends) ∧
      list.heading = place.heading ∧
      list.runs = place.earlier ++
        (place.opening.tokens ++ (target.tokens front ++ rest.map move)) :: later.map (List.map move) ∧
      list.behind = ends.map move := by
  obtain ⟨opening, inner, -, whole, no_opening, is_opening, -, -, opened⟩ := place.parts
  rw [stands.tokens_eq, whole, List.append_assoc, List.cons_append,
    ElementList.ofTokens?_split no_opening is_opening, opened,
    (target.tokens_inside front).cut trivial,
    cutRuns_map (Token.relocate_moves (front ++ target.written)).kind] at cut
  cases parts : cutRuns 0 (Token.toEnd back) with
  | none => simp [parts] at cut
  | some found =>
      obtain ⟨runs, ends⟩ := found
      obtain ⟨rest, later, -, rfl, -⟩ := cutRuns_front parts
      simp only [parts, Option.map_some, Prod.map_apply, List.map_cons, List.modifyHead_cons, id_eq,
        Option.some.injEq] at cut
      exact ⟨rest, later, ends, rfl, by simp [← cut]⟩

omit stands in
include place in
theorem no_dot {rest : List Token} {later : List (List Token)} {ends : List Token}
    (parts : cutRuns 0 (Token.toEnd back) = some (rest :: later, ends)) :
    ∀ token ∈ rest.head?, token.kind ≠ .dot := by
  obtain ⟨first, others, left, same, whole, -⟩ := cutRuns_front parts
  obtain ⟨rfl, rfl⟩ := List.cons.inj same
  intro token head
  have front : (Token.toEnd back).head? = some token := by
    obtain ⟨more, rfl⟩ := List.head?_eq_some_iff.mp head
    rw [whole]
    rfl
  have undotted := place.undotted
  rw [Token.toEnd] at front
  cases visible : Token.visible .start back with
  | nil =>
      obtain rfl : Token.endOf (.ofList back) = token := by simpa [visible] using front
      simp [Token.endOf, Token.endOfInput]
  | cons other more =>
      obtain rfl : other = token := by simpa [visible] using front
      exact undotted other (by simp [visible])

omit stands in
theorem opening_infix :
    place.opening.inner ++ [place.opening.closing] <:+: Token.visible .start front := by
  obtain ⟨opening, inner, before, whole, -, -, -, rfl, -⟩ := place.parts
  rw [whole]
  refine ⟨place.heading ++ opening :: before ++ place.opening.constraint ++ place.opening.words ++
    place.opening.index.toList ++ [place.opening.opening], [place.opening.references], ?_⟩
  simp [Opening.tokens]

theorem key_of_takes {rest : List Token} (standing : ∀ token ∈ rest, token ∈ Token.visible .start back)
    (no_dot : ∀ token ∈ rest.head?, token.kind ≠ .dot) {element : Element}
    (takes : (Element.read false).Takes text.toList (place.opening.tokens ++ (target.tokens front ++
      rest.map (Token.relocate (Position.ofPrefix (front ++ target.written))))) element) :
    ∃ runs columns behind,
      cutRuns 0 (place.opening.inner ++ [place.opening.closing]) =
          some (runs, [place.opening.closing]) ∧
        List.Forall₂ (KeyPart.read.Takes front) runs columns ∧
        Reference.readBehind.Takes back rest behind ∧
        element = .foreignKey (place.opening.key columns behind target.joined) := by
  have guarded : MatchGuarded (place.opening.inner ++ [place.opening.closing]) := by
    have whole : Token.visible .start front <+: Token.visible .start text.toList := by
      rw [stands.parts, Token.visible_append _ _ _ stands.reached]
      exact List.prefix_append _ _
    exact stands.guarded.infix (place.opening_infix.trans whole.isInfix)
  have no_end : ∀ token ∈ place.opening.inner, token.kind ≠ .endOfInput := fun token member =>
    Token.scan_not_end (List.mem_filter.mp
      (place.opening_infix.subset (List.mem_append_left _ member))).1
  have undotted : ((rest.map (Token.relocate (Position.ofPrefix (front ++ target.written))) ++
      [Behind.parenthesis]).headD (.endOfInput 0 .start)).kind ≠ .dot := by
    cases rest with
    | nil => simp [Behind.parenthesis]
    | cons token rest => exact no_dot token rfl
  rw [Takes] at takes
  simp only [List.append_assoc] at takes
  obtain ⟨runs, columns, behind, cut, listed, read, same⟩ := place.opening.read_ok guarded no_end rfl
    (target.tokens_named front) undotted takes
  obtain ⟨-, inner, parts, within⟩ := cutRuns_parts cut
  obtain rfl : place.opening.inner = inner := List.append_cancel_right parts
  refine ⟨runs, columns, behind, cut, ?_, ?_, same⟩
  · refine forall₂_of_mem (fun run member column takes => ?_) listed
    exact stands.takes_front KeyPart.read_uniform (fun token inside => place.opening_infix.subset
      (List.mem_append_left _ (within run member inside))) takes
  · exact stands.takes_back Reference.readBehind_uniform standing read

end

/-- A text with a target in the place gives the table that refers to the target, and is for the rest as
its two parts tell. -/
theorem gives_of_parse {target : Target} {text : String} (stands : target.StandsIn front back text)
    {table : Table} (done : Table.parse text = .ok table) :
    ∃ around, place.Gives around ∧ table = place.table around target.joined := by
  have guarded : MatchGuarded (Token.toEnd text.toList) := by
    refine List.isChain_append.mpr ⟨stands.guarded, List.isChain_singleton _, ?_⟩
    intro token _ last same _
    obtain rfl := Option.mem_some_iff.mp same
    simp [Token.endOf, Token.endOfInput]
  have no_end : ∀ token ∈ (Token.toEnd text.toList).dropLast, token.kind ≠ .endOfInput := by
    rw [Token.toEnd, List.dropLast_concat]
    exact fun token member => Token.scan_not_end (List.mem_filter.mp member).1
  rw [Table.parse, Cursor.ofText_eq] at done
  obtain ⟨list, heading, elements, settings, cut, gives, rfl⟩ :=
    ElementList.gives_of_guarded guarded no_end done
  obtain ⟨rest, later, ends, parts, same_heading, same_runs, same_behind⟩ := place.list_eq stands cut
  obtain ⟨named, listed, -, configured⟩ := gives
  rw [same_heading] at named
  rw [same_runs] at listed
  rw [same_behind] at configured
  obtain ⟨before, element, after, rfl, listed_before, key, listed_behind⟩ := forall₂_around listed
  obtain ⟨closed, inner, whole, within⟩ := cutRuns_parts parts
  have behind : ∀ run ∈ rest :: later, ∀ token ∈ run, token ∈ Token.visible .start back := by
    intro run member token inside
    have seen : Token.visible .start back = inner ++ ends.dropLast := by
      rw [← List.dropLast_append_of_ne_nil closed, ← whole, Token.toEnd, List.dropLast_concat]
    rw [seen]
    exact List.mem_append_left _ (within run member inside)
  obtain ⟨runs, columns, tail, cut_columns, listed_columns, read, rfl⟩ :=
    place.key_of_takes stands (behind rest List.mem_cons_self) (place.no_dot parts) key
  obtain ⟨opening, inner_front, -, whole_front, -, -, within_front, -, -⟩ := place.parts
  refine ⟨⟨heading, before, columns, tail, after, settings⟩, ⟨?_, ?_,
    ⟨runs, cut_columns, listed_columns⟩, rest, later, ends, parts, read, ?_, ?_⟩, rfl⟩
  · refine stands.takes_front TableHeading.read_uniform (fun token member => ?_) named
    rw [whole_front]
    exact List.mem_append_left _ member
  · refine forall₂_of_mem (fun run member element takes => ?_) listed_before
    refine stands.takes_front (Element.read_uniform false) (fun token inside => ?_) takes
    rw [whole_front]
    exact List.mem_append_right _ (List.mem_cons_of_mem _ (within_front run member inside))
  · refine forall₂_of_mem (fun run member element takes => ?_)
      (List.forall₂_map_left_iff.mp listed_behind)
    exact stands.takes_back (Element.read_uniform false)
      (behind run (List.mem_cons_of_mem _ member)) takes
  · have text_parts : text.toList = front ++ target.written ++ back := by simp [stands.parts]
    rw [text_parts] at configured
    refine Table.readSettings_uniform.result_of_moved closed ?_ configured
    rw [whole]
    exact List.suffix_append _ _

theorem table_eq (around : Around) (target : String) :
    place.table around target = { Table.assemble around.heading (around.before ++ around.after)
        around.settings with
      foreignKeys := around.before.filterMap Element.foreignKey? ++
        place.opening.key around.columns around.behind target ::
          around.after.filterMap Element.foreignKey? } := by
  simp [table, Table.assemble, Table.ofElements, Element.column?, Element.primaryKey?, Element.index?,
    Element.foreignKey?, Element.checks, List.findSome?_append, List.filterMap_cons, List.findSome?_cons]

end ForeignKey.Place

/-- A foreign key that is made to refer to another table is a change just when the two targets are kept as
two strings; so it is one wherever no name has a dot inside. -/
theorem TableDiff.retargeted {front back : List Char} (place : ForeignKey.Place front back)
    {old new : Target} {oldText newText : String} {oldTable newTable : Table}
    (one : old.StandsIn front back oldText) (other : new.StandsIn front back newText)
    (oldRead : Table.parse oldText = .ok oldTable) (newRead : Table.parse newText = .ok newTable)
    (renames : Bool) :
    let diff := between renames (some oldTable) (some newTable)
    (diff.hasChanges = true ↔ old.joined ≠ new.joined) ∧
      (old.Undotted → new.Undotted → (diff.hasChanges = true ↔ old ≠ new)) := by
  intro diff
  obtain ⟨around, gives, rfl⟩ := place.gives_of_parse one oldRead
  obtain ⟨again, givesToo, rfl⟩ := place.gives_of_parse other newRead
  obtain rfl := gives.unique place givesToo
  have silent : diff.hasChanges = false ↔ old.joined = new.joined := by
    have replaced := TableDiff.hasChanges_foreignKeys renames
      (.assemble around.heading (around.before ++ around.after) around.settings)
      (place.opening.key around.columns around.behind old.joined)
      (place.opening.key around.columns around.behind new.joined)
      (around.before.filterMap Element.foreignKey?) (around.after.filterMap Element.foreignKey?)
    rw [ForeignKey.Opening.key_injective, ← place.table_eq, ← place.table_eq] at replaced
    exact replaced
  have shown : diff.hasChanges = true ↔ old.joined ≠ new.joined := by
    rw [← Bool.not_eq_false, silent]
  refine ⟨shown, fun oldPlain newPlain => shown.trans (not_congr ?_)⟩
  exact ⟨Target.eq_of_joined oldPlain newPlain, congrArg Target.joined⟩

theorem TableDiff.retargeted_schema :
    ∃ oldTable newTable,
      Table.parse "CREATE TABLE t (x INT, FOREIGN KEY (x) REFERENCES `a`.`p` (y))" = .ok oldTable ∧
      Table.parse "CREATE TABLE t (x INT, FOREIGN KEY (x) REFERENCES `b`.`p` (y))" = .ok newTable ∧
      (between true (some oldTable) (some newTable)).hasChanges = true := by
  let front := "CREATE TABLE t (x INT, FOREIGN KEY (x) REFERENCES ".toList
  let back := " (y))".toList
  let tokens := Token.visible .start front
  let place : ForeignKey.Place front back :=
    { heading := tokens.take 3
      earlier := [(tokens.drop 4).take 2]
      opening :=
        { constraint := []
          name := none
          words := (tokens.drop 7).take 2
          index := none
          opening := tokens.getD 9 Behind.parenthesis
          inner := (tokens.drop 10).take 1
          closing := tokens.getD 11 Behind.parenthesis
          references := tokens.getD 12 Behind.parenthesis
          constrained := .none
          spelled := by unfold Spell; decide +kernel
          named := by decide
          opens := by decide +kernel
          balanced := .of_plain (by decide +kernel)
          closes := by decide +kernel
          refers := by decide +kernel }
      cut := by decide +kernel
      undotted := by decide +kernel }
  let old : Target := ⟨some "a", "p", by decide⟩
  let new : Target := ⟨some "b", "p", by decide⟩
  have one : old.StandsIn front back
      "CREATE TABLE t (x INT, FOREIGN KEY (x) REFERENCES `a`.`p` (y))" :=
    { parts := by decide +kernel
      scanned := by decide +kernel
      guarded := by unfold MatchGuarded; decide +kernel }
  have other : new.StandsIn front back
      "CREATE TABLE t (x INT, FOREIGN KEY (x) REFERENCES `b`.`p` (y))" :=
    { parts := by decide +kernel
      scanned := by decide +kernel
      guarded := by unfold MatchGuarded; decide +kernel }
  have reads :
      (Table.parse "CREATE TABLE t (x INT, FOREIGN KEY (x) REFERENCES `a`.`p` (y))").toBool = true ∧
        (Table.parse "CREATE TABLE t (x INT, FOREIGN KEY (x) REFERENCES `b`.`p` (y))").toBool =
          true := by
    decide +kernel
  obtain ⟨oldTable, oldRead⟩ := exists_ok_of_toBool reads.1
  obtain ⟨newTable, newRead⟩ := exists_ok_of_toBool reads.2
  refine ⟨oldTable, newTable, oldRead, newRead, ?_⟩
  exact ((retargeted place one other oldRead newRead true).2 (by decide) (by decide)).mpr (by decide)

/-- A dot inside a name is not told from the one between the names: a key that is made to refer to another
table, kept as the same string, shows no change. -/
theorem TableDiff.silent_on_dot_inside_name :
    let text (target : Target) : String := .ofList
      ("CREATE TABLE t (x INT, FOREIGN KEY (x) REFERENCES ".toList ++ target.written ++ " (y))".toList)
    let old : Target := ⟨some "a", "b.c", by decide⟩
    let new : Target := ⟨some "a.b", "c", by decide⟩
    let oldTable := (Table.parse (text old)).toOption
    let newTable := (Table.parse (text new)).toOption
    old ≠ new ∧ oldTable.isSome = true ∧ newTable.isSome = true ∧
      ∀ renames, (between renames oldTable newTable).hasChanges = false := by
  decide +kernel

end SchemaDrift
