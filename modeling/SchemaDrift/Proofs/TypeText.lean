import SchemaDrift.Proofs.Account
import SchemaDrift.Proofs.ByName
import SchemaDrift.Proofs.Capture
import SchemaDrift.Proofs.Printed
import SchemaDrift.Proofs.TypeForms

/-!
The text of a column type. A type that was read from a text is written out in a way that is read as
that type again, so types with the same text are the same, and a change of a type always shows two
texts.
-/

namespace SchemaDrift

open Reading

/-- A parameter is what a token is written as that can be written anywhere. -/
def TypeParameter (parameter : String) : Prop :=
  ∃ token : Token, token.isTypeParameter = true ∧ Writable token.kind token.text.toList ∧
    parameter = token.sql

/-- The name of a type stands for itself, and its parameters can be written anywhere. -/
structure DataType.Canonical (type : DataType) : Prop where
  name : ∃ word : Keyword, TypeName [word] word ∧ type.name = word.word
  parameters : ∀ parameter ∈ type.parameters, TypeParameter parameter

/-! What a canonical type is written as. -/

theorem parting_of_mark {c : Char} (mark : c ∈ ['(', ')', ',', ' ']) : Parting c := by
  simp only [List.mem_cons, List.not_mem_nil, or_false] at mark
  rcases mark with rfl | rfl | rfl | rfl <;>
    exact ⟨by decide, by decide, by decide, by decide⟩

theorem Keyword.writable (word : Keyword) : Writable (.keyword word) word.word.toList := by
  have spelled_out : ∀ word ∈ Keyword.all, (word.word.toList.head?.any Text.startsWord &&
      word.word.toList.tail.all Text.continuesWord) = true := by
    decide +kernel
  have capitals : ∀ word ∈ Keyword.all, word.word.map Char.toUpper = word.word := by
    decide +kernel
  intro behind parting
  have letters := spelled_out word (Keyword.mem_all word)
  rw [Bool.and_eq_true, Option.any_eq_true, List.all_eq_true] at letters
  obtain ⟨⟨c, first, starts⟩, continues⟩ := letters
  obtain ⟨rest, written⟩ := List.head?_eq_some_iff.mp first
  have spelled : Spelled (.ofList word.word.toList) (.keyword word) := by
    rw [String.ofList_toList]
    exact .of_keyword (Keyword.ofWord?_eq_some_iff.mpr (capitals word (Keyword.mem_all word)))
  rw [written] at continues spelled ⊢
  exact .word starts continues (fun d next => (parting d next).word) spelled

theorem contents_keyword (word : Keyword) {behind : List Char}
    (parting : ∀ c ∈ behind.head?, Parting c) :
    contents (word.word.toList ++ behind) = (.keyword word, word.word) :: contents behind := by
  have read := contents_lexeme (word.writable behind parting) (by simp)
  rwa [String.ofList_toList] at read

theorem contents_mark {c : Char} {kind : TokenKind} (listed : (c, kind) ∈ marks)
    (behind : List Char) : contents (c :: behind) = (kind, .ofList [c]) :: contents behind := by
  have no_mark : ∀ mark ∈ marks, mark.2 ≠ .directive := by decide
  exact contents_lexeme (.mark listed) (no_mark _ listed)

theorem contents_parameter {token : Token} (fit : token.isTypeParameter = true)
    (writable : Writable token.kind token.text.toList) {behind : List Char}
    (parting : ∀ c ∈ behind.head?, Parting c) :
    contents (token.sql.toList ++ behind) = token.content :: contents behind := by
  have seen : token.kind ≠ .directive := by
    intro kind
    simp [Token.isTypeParameter, kind] at fit
  have read := contents_lexeme (writable behind parting) seen
  rwa [← Token.sql_toList, String.ofList_toList] at read

theorem contents_nil : contents [] = [] := by
  simp [contents, Token.visible]

theorem contents_parameters {items : List Token}
    (each : ∀ item ∈ items, item.isTypeParameter = true ∧ Writable item.kind item.text.toList)
    (behind : List Char) :
    contents (items.flatMap (fun item => ',' :: item.sql.toList) ++ ')' :: behind) =
      items.flatMap (fun item => [(.comma, ","), item.content]) ++
        (.rightParen, ")") :: contents behind := by
  induction items with
  | nil => exact contents_mark (by decide) behind
  | cons item items ih =>
      obtain ⟨⟨fit, writable⟩, later⟩ := List.forall_mem_cons.mp each
      have parting : ∀ c ∈ (items.flatMap (fun item => ',' :: item.sql.toList) ++
          ')' :: behind).head?, Parting c := by
        cases items <;> simp [parting_of_mark]
      simp only [List.flatMap_cons, List.cons_append, List.append_assoc, List.nil_append]
      rw [contents_mark (show (',', .comma) ∈ marks by decide),
        contents_parameter fit writable parting, ih later]

theorem intercalate_comma (first : String) (rest : List String) :
    (",".intercalate (first :: rest)).toList =
      first.toList ++ rest.flatMap fun other => ',' :: other.toList := by
  induction rest generalizing first with
  | nil => simp
  | cons other rest ih => simp [String.intercalate_cons_cons, ih]

theorem Token.alike_of_content {first second : Token} (same : first.content = second.content) :
    first.isTypeParameter = second.isTypeParameter ∧ first.sql = second.sql := by
  obtain ⟨kind, text⟩ := Prod.mk.inj same
  simp [isTypeParameter, sql, kind, text]

theorem MoreItems.of_contents {items tokens : List Token}
    (each : ∀ item ∈ items, item.isTypeParameter = true)
    (said : tokens.map Token.content =
      items.flatMap fun item => [(.comma, ","), item.content]) :
    ∃ found, MoreItems Token.isTypeParameter tokens found ∧
      found.map Token.sql = items.map Token.sql := by
  induction items generalizing tokens with
  | nil =>
      obtain rfl := List.map_eq_nil_iff.mp said
      exact ⟨[], .finish, rfl⟩
  | cons item items ih =>
      obtain ⟨fit, later⟩ := List.forall_mem_cons.mp each
      obtain ⟨comma, others, rfl, parted, said⟩ := List.map_eq_cons_iff.mp said
      obtain ⟨token, others, rfl, same, said⟩ := List.map_eq_cons_iff.mp said
      obtain ⟨found, more, texts⟩ := ih later said
      obtain ⟨fits, text⟩ := Token.alike_of_content same
      refine ⟨token :: found, .item (Prod.mk.inj parted).1 (fits.trans fit) more, ?_⟩
      rw [List.map_cons, List.map_cons, text, texts]

def groupText (parameters : List String) : List Char :=
  if parameters.isEmpty then [] else '(' :: (",".intercalate parameters).toList ++ [')']

theorem contents_groupText {parameters : List String}
    (each : ∀ parameter ∈ parameters, TypeParameter parameter) (behind : List Char) :
    ∃ said, contents (groupText parameters ++ behind) = said ++ contents behind ∧
      ∀ tokens : List Token, tokens.map Token.content = said → TypeParameters tokens parameters := by
  obtain ⟨items, written, rfl⟩ : ∃ items : List Token,
      (∀ item ∈ items, item.isTypeParameter = true ∧ Writable item.kind item.text.toList) ∧
        items.map Token.sql = parameters := by
    induction parameters with
    | nil => exact ⟨[], by simp, rfl⟩
    | cons parameter parameters ih =>
        obtain ⟨⟨token, fit, writable, rfl⟩, later⟩ := List.forall_mem_cons.mp each
        obtain ⟨items, written, rfl⟩ := ih later
        exact ⟨token :: items, List.forall_mem_cons.mpr ⟨⟨fit, writable⟩, written⟩, rfl⟩
  cases items with
  | nil =>
      refine ⟨[], rfl, fun tokens said => ?_⟩
      obtain rfl := List.map_eq_nil_iff.mp said
      exact .none
  | cons first items =>
      obtain ⟨⟨fit, writable⟩, later⟩ := List.forall_mem_cons.mp written
      refine ⟨(.leftParen, "(") :: first.content ::
        (items.flatMap (fun item => [(.comma, ","), item.content]) ++ [(.rightParen, ")")]), ?_, ?_⟩
      · have parting : ∀ c ∈ (items.flatMap (fun item => ',' :: item.sql.toList) ++
            ')' :: behind).head?, Parting c := by
          cases items <;> simp [parting_of_mark]
        have chars : groupText ((first :: items).map Token.sql) ++ behind =
            '(' :: (first.sql.toList ++
              (items.flatMap (fun item => ',' :: item.sql.toList) ++ ')' :: behind)) := by
          rw [groupText, List.map_cons, intercalate_comma, List.flatMap_map]
          simp
        rw [chars, contents_mark (show ('(', .leftParen) ∈ marks by decide),
          contents_parameter fit writable parting, contents_parameters later]
        simp
      · intro tokens said
        obtain ⟨opening, others, rfl, opens, said⟩ := List.map_eq_cons_iff.mp said
        obtain ⟨token, others, rfl, same, said⟩ := List.map_eq_cons_iff.mp said
        obtain ⟨inner, last, rfl, between, ends⟩ := List.map_eq_append_iff.mp said
        obtain ⟨closing, rfl, closes⟩ := List.map_eq_singleton_iff.mp ends
        obtain ⟨found, more, texts⟩ := MoreItems.of_contents (fun item member => (later item member).1) between
        obtain ⟨fits, text⟩ := Token.alike_of_content same
        have group := TypeParameters.some (Prod.mk.inj opens).1 (fits.trans fit) more
          (show [].map Token.kind ∈ _ by decide) (Prod.mk.inj closes).1
        rw [List.map_cons, text, texts] at group
        exact group

def modifierText (word : Keyword) (present : Bool) : List Char :=
  if present then ' ' :: word.word.toList else []

theorem contents_modifierText (word : Keyword) (present : Bool) {behind : List Char}
    (parting : ∀ c ∈ behind.head?, Parting c) :
    contents (modifierText word present ++ behind) =
      (if present then [(.keyword word, word.word)] else []) ++ contents behind := by
  cases present with
  | false => rfl
  | true => exact (contents_blank (by decide) _).trans (contents_keyword word parting)

theorem parting_modifierText (word : Keyword) (present : Bool) {behind : List Char}
    (parting : ∀ c ∈ behind.head?, Parting c) :
    ∀ c ∈ (modifierText word present ++ behind).head?, Parting c := by
  cases present with
  | false => exact parting
  | true => simp [modifierText, parting_of_mark]

theorem parting_groupText (parameters : List String) {behind : List Char}
    (parting : ∀ c ∈ behind.head?, Parting c) :
    ∀ c ∈ (groupText parameters ++ behind).head?, Parting c := by
  cases parameters with
  | nil => exact parting
  | cons => simp [groupText, parting_of_mark]

theorem DataType.text_toList (type : DataType) :
    type.text.toList = type.name.toList ++ (groupText type.parameters ++
      (modifierText .UNSIGNED type.unsigned ++ modifierText .ZEROFILL type.zerofill)) := by
  rw [text, groupText, modifierText, modifierText]
  cases type.unsigned <;> cases type.zerofill <;> cases type.parameters <;> simp <;> rfl

namespace DataType.Canonical

variable {type : DataType}

theorem modify_of_kinds (name : String) (parameters : List String) {unsigned zerofill : Bool}
    {modifiers : List Token}
    (kinds : modifiers.map Token.kind = (if unsigned then [.keyword .UNSIGNED] else []) ++
      (if zerofill then [.keyword .ZEROFILL] else [])) :
    ({ name, parameters } : DataType).modify modifiers = ⟨name, parameters, unsigned, zerofill⟩ := by
  have has (word : Keyword) : modifiers.any (·.kind == .keyword word) =
      (modifiers.map Token.kind).any (· == .keyword word) := by
    rw [List.any_map]
    rfl
  simp only [modify, has, kinds]
  cases unsigned <;> cases zerofill <;> rfl

theorem contents_text (canonical : type.Canonical) :
    ∃ word said, TypeName [word] word ∧ type.name = word.word ∧
      (∀ tokens : List Token, tokens.map Token.content = said →
        TypeParameters tokens type.parameters) ∧
      contents type.text.toList = (.keyword word, word.word) :: (said ++
        ((if type.unsigned then [(.keyword .UNSIGNED, Keyword.UNSIGNED.word)] else []) ++
          (if type.zerofill then [(.keyword .ZEROFILL, Keyword.ZEROFILL.word)] else []))) := by
  obtain ⟨⟨word, name, named⟩, parameters⟩ := canonical
  have no_more : ∀ c ∈ ([] : List Char).head?, Parting c := by simp
  have zerofill := contents_modifierText .ZEROFILL type.zerofill no_more
  have unsigned := contents_modifierText .UNSIGNED type.unsigned
    (parting_modifierText .ZEROFILL type.zerofill no_more)
  obtain ⟨said, group, parameterized⟩ := contents_groupText parameters
    (modifierText .UNSIGNED type.unsigned ++ (modifierText .ZEROFILL type.zerofill ++ []))
  have parting := parting_groupText type.parameters (parting_modifierText .UNSIGNED type.unsigned
    (parting_modifierText .ZEROFILL type.zerofill no_more))
  refine ⟨word, said, name, named, parameterized, ?_⟩
  rw [type.text_toList, named, ← (modifierText .ZEROFILL type.zerofill).append_nil,
    contents_keyword word parting, group, unsigned, zerofill]
  rw [contents_nil, List.append_nil]

theorem written (canonical : type.Canonical) :
    Written (Token.visible .start type.text.toList) type := by
  obtain ⟨word, said, name, named, parameterized, whole⟩ := canonical.contents_text
  obtain ⟨first, others, tokens, starts, further⟩ := List.map_eq_cons_iff.mp whole
  obtain ⟨group, modifiers, rfl, inside, modified⟩ := List.map_eq_append_iff.mp further
  have spelled : Spell [first] [word] :=
    congrArg (fun content : TokenKind × String => [content.1]) starts
  have kinds : modifiers.map Token.kind =
      (if type.unsigned then [.keyword .UNSIGNED] else []) ++
        (if type.zerofill then [.keyword .ZEROFILL] else []) := by
    have kinds := congrArg (List.map Prod.fst) modified
    rw [List.map_map] at kinds
    refine Eq.trans kinds ?_
    cases type.unsigned <;> cases type.zerofill <;> rfl
  have each : ∀ token ∈ modifiers, token.IsTypeModifier := by
    intro token member
    have kind : token.kind ∈ modifiers.map Token.kind := List.mem_map_of_mem member
    rw [kinds, List.mem_append, List.mem_ite_nil_right, List.mem_ite_nil_right,
      List.mem_singleton, List.mem_singleton] at kind
    exact kind.imp And.right And.right
  have whole_type : ({ name := word.word, parameters := type.parameters } : DataType).modify
      modifiers = type := by
    rw [modify_of_kinds _ _ kinds, ← named]
  rw [tokens, ← whole_type]
  exact .mk name spelled (parameterized group inside) each

theorem reads_back (canonical : type.Canonical) :
    DataType.read.outcome (.ofText type.text) =
      (.ok type, ⟨type.text.toList, [], Token.endOf type.text⟩) := by
  have ends : (([] : List Token).headD (Token.endOf type.text)).EndsType := by
    simp [Token.EndsType, Token.endOf, Token.endOfInput]
  have read : DataType.read ⟨type.text.toList, Token.visible .start type.text.toList ++ [],
      Token.endOf type.text⟩ = .ok type ⟨type.text.toList, [], Token.endOf type.text⟩ :=
    canonical.written.read ends
  rw [List.append_nil] at read
  have cursor : Cursor.ofText type.text =
      ⟨type.text.toList, Token.visible .start type.text.toList, Token.endOf type.text⟩ := rfl
  rw [outcome, cursor, read]

theorem text_injective {other : DataType} (canonical : type.Canonical)
    (also : other.Canonical) (same : type.text = other.text) : type = other := by
  have back := canonical.reads_back
  rw [same, also.reads_back] at back
  exact (Except.ok.inj (Prod.mk.inj back).1).symm

end DataType.Canonical

/-! What is read from the tokens of a text is canonical. -/

/-- A cursor over some tokens of a text that follow each other. -/
def Cursor.Among (text : String) (cursor : Cursor) : Prop :=
  cursor.close.kind = .endOfInput ∧ cursor.ahead <:+: Token.visible .start text.toList

instance (text : String) : Cursor.Steady (Cursor.Among text) where
  ended among := among.1
  drop among count := ⟨among.1, (List.drop_suffix count _).isInfix.trans among.2⟩

namespace DataType

variable {text : String} {cursor after : Cursor}

theorem readName_yields :
    Yields (Cursor.Among text) readName fun word => TypeName [word] word := by
  have plain : ∀ word ∈ [Keyword.DOUBLE, .VARCHAR, .CHAR], TypeName [word] word := by
    intro word listed
    have type : ∀ word ∈ [Keyword.DOUBLE, .VARCHAR, .CHAR], word.isTypeName = true ∧
        word ∉ [Keyword.NATIONAL, .NCHAR, .NVARCHAR] := by decide
    exact .plain (type word listed).1 (type word listed).2
  have varchar := plain .VARCHAR (by decide)
  have char := plain .CHAR (by decide)
  rw [readName]
  refine .at_current fun token => ?_
  split
  · exact .fail .dataType
  next word found =>
    have type : word.isTypeName = true := (Option.filter_eq_some_iff.mp found).2
    refine discard_advance_uniform.before fun _ => ?_
    split
    · exact (eatWord_uniform .PRECISION).discard.before fun _ => .pure (plain _ (by decide))
    · refine (eatWord_uniform .VARCHAR).before fun _ => .ite (.pure varchar) ?_
      refine (eatWord_uniform .CHAR).before fun _ => .ite (.pure char) ?_
      exact (eatWord_uniform .CHARACTER).before fun _ => .ite (.pure char) (.fail .characterType)
    · exact (eatWord_uniform .VARCHAR).before fun _ => .ite (.pure varchar) (.pure char)
    · exact .pure varchar
    next _ no_national no_nchar no_nvarchar =>
      exact .pure (.plain type (by simpa using ⟨no_national, no_nchar, no_nvarchar⟩))

theorem readParameter_ok (ended : cursor.close.kind = .endOfInput) {parameter : String}
    (done : readParameter cursor = .ok parameter after) :
    ∃ token rest, cursor.ahead = token :: rest ∧ after = { cursor with ahead := rest } ∧
      token.isTypeParameter = true ∧ parameter = token.sql := by
  rw [readParameter_eq] at done
  split at done
  next fit =>
    obtain ⟨rfl, rfl⟩ := EStateM.Result.ok.inj done
    cases ahead : cursor.ahead with
    | nil => simp [Cursor.current, ahead, Token.isTypeParameter, ended] at fit
    | cons token rest =>
        have front : cursor.current = token := by rw [Cursor.current, ahead]; rfl
        exact ⟨token, rest, rfl, by rw [Cursor.next, ahead]; rfl, front ▸ fit, by rw [front]⟩
  next => contradiction

/-- If anything stands behind the parameters that were read, they can be written anywhere. -/
def Settled (text : String) (parameters : List String) (cursor : Cursor) : Prop :=
  cursor.Among text ∧ (cursor.ahead ≠ [] → ∀ parameter ∈ parameters, TypeParameter parameter)

instance (parameters : List String) : Cursor.Steady (Settled text parameters) where
  ended settled := settled.1.1
  drop settled count := by
    refine ⟨Cursor.Steady.drop settled.1 count, fun left => settled.2 ?_⟩
    rintro nothing
    simp [nothing] at left

theorem Settled.read {seen : List String} (settled : Settled text seen cursor)
    {parameter : String} (done : readParameter cursor = .ok parameter after) :
    Settled text (parameter :: seen) after := by
  obtain ⟨token, rest, ahead, same, fit, rfl⟩ := readParameter_ok settled.1.1 done
  have among := (readParameter_uniform.yields cursor settled.1 _ after done).2
  refine ⟨among, fun left => List.forall_mem_cons.mpr ⟨?_, settled.2 (by simp [ahead])⟩⟩
  -- a token that another one follows is closed
  obtain ⟨next, others, further⟩ := List.exists_cons_of_ne_nil left
  have followed := settled.1.2
  have behind : rest = next :: others := by simpa [same] using further
  rw [ahead, behind] at followed
  exact ⟨token, fit, Token.writable_of_followed followed, rfl⟩

theorem Settled.many {more : Cursor → Bool} {first : String} {others : List String}
    (settled : Settled text [first] cursor)
    (done : many more (do discard advance; readParameter) cursor = .ok others after) :
    Settled text (first :: others) after := by
  obtain ⟨latestFirst, behind, looped, made⟩ := ok_of_bind_ok done
  obtain ⟨rfl, rfl⟩ := EStateM.Result.ok.inj made
  -- the rounds gather the parameters in front of those before them
  have kept : Settled text (latestFirst ++ [first]) behind := by
    refine @foldWhile_keeps _ _ _ (fun seen => Settled text (seen ++ [first])) ?_ _ _ _ _ settled
      looped
    intro seen next cursor middle settled _ round
    obtain ⟨parameter, _, read, made⟩ := ok_of_bind_ok round
    obtain ⟨rfl, rfl⟩ := EStateM.Result.ok.inj made
    obtain ⟨_, further, passed, read⟩ := ok_of_bind_ok read
    exact Settled.read (discard_advance_uniform.yields cursor settled _ further passed).2 read
  refine ⟨kept.1, fun left parameter member => kept.2 left parameter ?_⟩
  simpa [or_comm] using member

theorem readParameters_yields :
    Yields (Cursor.Among text) readParameters fun parameters =>
      ∀ parameter ∈ parameters, TypeParameter parameter := by
  rw [readParameters]
  refine (eat_uniform .rightParen).before fun _ => .ite (.pure (by simp)) ?_
  intro cursor among parameters after done
  obtain ⟨first, second, read_first, done⟩ := ok_of_bind_ok done
  obtain ⟨others, third, read_others, done⟩ := ok_of_bind_ok done
  obtain ⟨_, fourth, comma, done⟩ := ok_of_bind_ok done
  obtain ⟨_, fifth, closing, done⟩ := ok_of_bind_ok done
  obtain ⟨rfl, rfl⟩ := EStateM.Result.ok.inj done
  have settled_first : Settled text [first] second := Settled.read ⟨among, by simp⟩ read_first
  have settled := settled_first.many read_others
  have behind := ((eat_uniform .comma).discard.yields third settled _ fourth comma).2
  -- the closing parenthesis stands behind the last parameter
  have left : fourth.ahead ≠ [] := by
    obtain ⟨_, closes⟩ := ok_of_discard_ok closing
    intro nothing
    have kind := (expect_ok closes).1
    simp [Cursor.current, nothing, behind.1.1] at kind
  exact ⟨behind.2 left, ((discard_expect_uniform .rightParen).yields fourth behind.1 _ _ closing).2⟩

theorem readModifier_yields {type : DataType} (canonical : type.Canonical) :
    Yields (Cursor.Among text) (readModifier type) Canonical := by
  rw [readModifier]
  have same (unsigned zerofill : Bool) : ({ type with unsigned, zerofill } : DataType).Canonical :=
    ⟨canonical.name, canonical.parameters⟩
  refine (eatWord_uniform .UNSIGNED).before fun _ => .ite (.pure (same _ _)) ?_
  exact (eatWord_uniform .ZEROFILL).discard.before fun _ => .pure (same _ _)

theorem read_yields : Yields (Cursor.Among text) read Canonical := by
  rw [DataType.read]
  apply readName_yields.bind
  intro word name
  refine (eat_uniform .leftParen).before fun _ => ?_
  have modifiers {parameters : List String} {more : Cursor → Bool}
      (each : ∀ parameter ∈ parameters, TypeParameter parameter) :
      Yields (Cursor.Among text)
        (foldWhile more readModifier { name := word.word, parameters }) Canonical :=
    Yields.foldWhile (fun _ => readModifier_yields) ⟨⟨word, name, rfl⟩, each⟩
  exact .ite (readParameters_yields.bind fun _ each => modifiers each)
    (modifiers (List.forall_mem_nil _))

end DataType

/-! What every reading of a column gives, every column of a table has. -/

section

variable {held : Cursor → Prop} [Cursor.Steady held] {post : Column → Prop}

namespace Element

theorem readBody_columns (columns : Yields held Column.read fun read => post read.1)
    (keyTaken : Bool) (constraint : Option String) :
    Yields held (readBody keyTaken constraint) fun element =>
      ∀ column ∈ element.column?, post column := by
  have other {α : Type} {reading : Reading α} (uniform : Uniform reading) {make : α → Element}
      (no_column : ∀ value, (make value).column? = none) :
      Yields held (do return make (← reading)) fun element =>
        ∀ column ∈ element.column?, post column :=
    uniform.yields.clause fun value _ => by simp [no_column]
  rw [readBody]
  refine .at_current fun token => ?_
  split
  · have key : Yields held (do return Element.primaryKey (← PrimaryKey.read constraint))
        fun element => ∀ column ∈ element.column?, post column :=
      other (PrimaryKey.read_uniform constraint) fun _ => rfl
    exact .ite ((fail_uniform .singlePrimaryKey).before fun _ => key) key
  · exact other (Index.readUnique_uniform constraint) fun _ => rfl
  · exact other (Index.read_uniform .plain) fun _ => rfl
  · exact other (Index.read_uniform .plain) fun _ => rfl
  · exact other (Index.read_uniform .fulltext) fun _ => rfl
  · exact other (Index.read_uniform .spatial) fun _ => rfl
  · exact other (ForeignKey.read_uniform constraint) fun _ => rfl
  · exact other (Check.read_uniform constraint) fun _ => rfl
  · have column : Yields held readColumn fun element => ∀ column ∈ element.column?, post column :=
      columns.clause fun read given => by simpa [column?] using given
    exact .ite ((fail_uniform .constraintBody).before fun _ => column) column

theorem readMore_columns (columns : Yields held Column.read fun read => post read.1)
    {seen : List Element} (before : ∀ element ∈ seen, ∀ column ∈ element.column?, post column) :
    Yields held (readMore seen) fun elements =>
      ∀ element ∈ elements, ∀ column ∈ element.column?, post column := by
  have read : Yields held (read (seen.any (·.primaryKey?.isSome))) fun element =>
      ∀ column ∈ element.column?, post column :=
    readConstraintName_uniform.before fun constraint => readBody_columns columns _ constraint
  exact read.clause fun element given => List.forall_mem_cons.mpr ⟨given, before⟩

theorem readList_columns (columns : Yields held Column.read fun read => post read.1) :
    Yields held readList fun elements =>
      ∀ element ∈ elements, ∀ column ∈ element.column?, post column := by
  rw [readList]
  apply (readMore_columns columns (List.forall_mem_nil _)).bind
  intro first given
  have rounds (seen : List Element)
      (before : ∀ element ∈ seen, ∀ column ∈ element.column?, post column) :=
    discard_advance_uniform.before fun _ => readMore_columns columns before
  exact (Yields.foldWhile rounds given).clause fun latestFirst each element member =>
    each element (List.mem_reverse.mp member)

end Element

theorem Table.read_columns (columns : Yields held Column.read fun read => post read.1) :
    Yields held Table.read fun table => ∀ column ∈ table.columns, post column := by
  rw [Table.read]
  apply TableHeading.read_uniform.before
  intro heading
  apply (discard_expect_uniform .leftParen).before
  intro _
  apply (Element.readList_columns columns).bind
  intro elements each
  have picked : ∀ column ∈ elements.filterMap Element.column?, post column := by
    intro column member
    obtain ⟨element, present, found⟩ := List.mem_filterMap.mp member
    exact each element present column found
  apply (discard_expect_uniform .rightParen).before
  intro _
  apply TableOptions.read?_uniform.before
  intro options
  apply (look_uniform (Cursor.seesWord_shared .PARTITION)).before
  intro _
  exact .either (Partitioning.read_uniform.map some) (.pure none) fun _ => .pure picked

end

theorem Column.read_canonical {text : String} :
    Yields (Cursor.Among text) Column.read fun read => read.1.dataType.Canonical := by
  rw [Column.read]
  apply (name_uniform .columnName).before
  intro name
  apply DataType.read_yields.bind
  intro dataType canonical
  have clauses := many_uniform (Cursor.atElementEnd_shared.comp not) ColumnClause.read_uniform
  refine clauses.before fun clauses => .pure ?_
  have untouched (column : Column) (clause : ColumnClause) :
      (column.apply clause).dataType = column.dataType := by
    cases clause <;> rfl
  rw [foldl_untouched untouched]
  exact canonical

/-- A table that some text defines, alone or as one statement of several. -/
def Table.Accepted (table : Table) : Prop :=
  ∃ text, Table.parse text = .ok table ∨
    ∃ statement ∈ Statement.ofText text, Table.ofStatement statement = .ok table

theorem Statement.among {text : String} {statement : Statement}
    (member : statement ∈ Statement.ofText text) :
    (Cursor.ofStatement statement).Among text := by
  obtain ⟨index, found⟩ := List.getElem?_of_mem member
  obtain ⟨before, behind, tokens, _, cut, next⟩ := (Splitter.ofText_cuts text).getElem? found
  have ended : statement.close.kind = .endOfInput := by
    simpa [Token.isEnd] using (cut.wellCut tokens next).last_end
  exact ⟨ended, before, behind, tokens.symm⟩

theorem Table.Accepted.canonical {table : Table} (accepted : table.Accepted) :
    ∀ column ∈ table.columns, column.dataType.Canonical := by
  obtain ⟨text, parsed | ⟨statement, member, read⟩⟩ := accepted
  · obtain ⟨after, done⟩ := ok_of_result_ok parsed
    exact (read_columns Column.read_canonical _ ⟨rfl, List.infix_refl _⟩ table after done).1
  · obtain ⟨after, done⟩ := ok_of_result_ok read
    exact (read_columns Column.read_canonical _ (Statement.among member) table after done).1

/-! What a comparison shows. -/

theorem Listed.exists_of_record {α : Type} [Listed α] [Listed.Complete α] [DecidableEq α]
    {renames : Bool} {old new : List α} {change : Change α} {record : ChangeRecord α}
    (listed : change ∈ Listed.changes renames old new) (recorded : record ∈ change.record?) :
    ∃ before ∈ old, ∃ after ∈ new, record = .between before after := by
  obtain ⟨matching, _, changes⟩ := (changes_accounted renames old new).matched
  rw [changes, Matching.changes, List.mem_append, List.mem_filterMap, List.mem_map] at listed
  rcases listed with ⟨place, _, made⟩ | ⟨origin, _, rfl⟩
  · rw [Matching.change?] at made
    split at made
    · obtain rfl := Option.some.inj made
      simp [Change.record?] at recorded
    · rename_i origin _
      split at made
      · simp at made
      · obtain rfl := Option.some.inj made
        obtain rfl := Option.mem_some.mp recorded
        exact ⟨_, List.getElem_mem _, _, List.getElem_mem _, rfl⟩
  · simp [Change.record?] at recorded

/-- Every change of a type shows two different texts. -/
def ShowsTypes (changes : List (Change Column)) : Prop :=
  ∀ change ∈ changes, ∀ record ∈ change.record?, ∀ field ∈ record ColumnAspect.dataType,
    field.old ≠ field.new

theorem Listed.changes_showTypes (renames : Bool) {old new : List Column}
    (oldCanonical : ∀ column ∈ old, column.dataType.Canonical)
    (newCanonical : ∀ column ∈ new, column.dataType.Canonical) :
    ShowsTypes (Listed.changes renames old new) := by
  intro change listed record recorded field shown same
  obtain ⟨before, wasThere, after, isThere, rfl⟩ := exists_of_record listed recorded
  have canonical := oldCanonical before wasThere
  by_cases agree : before.dataType = after.dataType
  · have nothing : ChangeRecord.between before after ColumnAspect.dataType = none :=
      (ChangeRecord.between_eq_none_iff before after ColumnAspect.dataType).mpr agree
    rw [nothing] at shown
    cases shown
  · have texts : ChangeRecord.between before after ColumnAspect.dataType =
        some ⟨before.dataType.text, after.dataType.text⟩ :=
      if_neg agree
    obtain rfl := Option.some.inj (texts.symm.trans shown)
    exact agree (canonical.text_injective (newCanonical after isThere) same)

theorem Table.Accepted.showsTypes (renames : Bool) {old new : Option Table}
    (oldAccepted : ∀ table ∈ old, table.Accepted) (newAccepted : ∀ table ∈ new, table.Accepted) :
    ShowsTypes (TableDiff.between renames old new).columns := by
  have entries {table : Option Table} (accepted : ∀ present ∈ table, present.Accepted) :
      ∀ column ∈ entriesOf Table.columns table, column.dataType.Canonical := by
    cases table with
    | none => simp [entriesOf]
    | some table => exact (accepted table rfl).canonical
  exact Listed.changes_showTypes renames (entries oldAccepted) (entries newAccepted)

/-- The type of a column of an accepted table is written out as a text that is read as that type
again, down to its last token. So accepted types with the same text are the same; and where two
tables or two lists of tables are compared, every change of a type shows two different texts. -/
theorem DataType.text_reads_back {old new : List Table}
    (accepted : ∀ table ∈ old ++ new, table.Accepted) :
    (∀ column ∈ (old ++ new).flatMap Table.columns,
      DataType.read.outcome (.ofText column.dataType.text) =
        (.ok column.dataType, ⟨column.dataType.text.toList, [], .endOf column.dataType.text⟩)) ∧
    (∀ first ∈ (old ++ new).flatMap Table.columns, ∀ second ∈ (old ++ new).flatMap Table.columns,
      first.dataType.text = second.dataType.text → first.dataType = second.dataType) ∧
    ∀ renames,
      (∀ before ∈ old, ∀ after ∈ new,
        ShowsTypes (TableDiff.between renames (some before) (some after)).columns) ∧
      ∀ diff ∈ (SchemaDiff.between renames old new).tables, ShowsTypes diff.columns := by
  have canonical : ∀ column ∈ (old ++ new).flatMap Table.columns, column.dataType.Canonical := by
    intro column member
    obtain ⟨table, listed, stands⟩ := List.mem_flatMap.mp member
    exact (accepted table listed).canonical column stands
  obtain ⟨oldAccepted, newAccepted⟩ := List.forall_mem_append.mp accepted
  refine ⟨fun column member => (canonical column member).reads_back, ?_, fun renames => ⟨?_, ?_⟩⟩
  · intro first one second another same
    exact (canonical first one).text_injective (canonical second another) same
  · intro before wasThere after isThere
    apply Table.Accepted.showsTypes
    · simpa using oldAccepted before wasThere
    · simpa using newAccepted after isThere
  · intro diff listed
    rw [SchemaDiff.tables_between, List.mem_map] at listed
    obtain ⟨name, _, rfl⟩ := listed
    apply Table.Accepted.showsTypes
    · exact fun table found => oldAccepted table (List.mem_of_find?_eq_some found)
    · exact fun table found => newAccepted table (List.mem_of_find?_eq_some found)

/-- A value list with a comma and a quote in it, and two names that are written in other words. -/
theorem DataType.text_reads_back_quoted :
    ∃ old new : Table,
      Table.parse "CREATE TABLE t (a ENUM('x,y', 'it''s'), b NATIONAL VARCHAR (9))" = .ok old ∧
      Table.parse "CREATE TABLE t (a ENUM('x', 'y'), b DOUBLE PRECISION UNSIGNED)" = .ok new ∧
      old.columns.map (·.dataType.text) = ["ENUM('x,y','it''s')", "VARCHAR(9)"] ∧
      (∀ table ∈ [old] ++ [new], table.Accepted) ∧
      (∀ column ∈ old.columns, DataType.read.outcome (.ofText column.dataType.text) =
        (.ok column.dataType, ⟨column.dataType.text.toList, [], .endOf column.dataType.text⟩)) ∧
      ShowsTypes (TableDiff.between true (some old) (some new)).columns := by
  obtain ⟨old, oldParsed, texts⟩ : ∃ old,
      Table.parse "CREATE TABLE t (a ENUM('x,y', 'it''s'), b NATIONAL VARCHAR (9))" =
        .ok old ∧
      old.columns.map (·.dataType.text) = ["ENUM('x,y','it''s')", "VARCHAR(9)"] :=
    exists_ok_of_map (by decide +kernel)
  obtain ⟨new, newParsed⟩ : ∃ new,
      Table.parse "CREATE TABLE t (a ENUM('x', 'y'), b DOUBLE PRECISION UNSIGNED)" = .ok new :=
    exists_ok_of_toBool (by decide +kernel)
  have accepted : ∀ table ∈ [old] ++ [new], table.Accepted := by
    simp only [List.cons_append, List.nil_append, List.forall_mem_cons]
    exact ⟨⟨_, .inl oldParsed⟩, ⟨_, .inl newParsed⟩, List.forall_mem_nil _⟩
  obtain ⟨back, _, shown⟩ := text_reads_back accepted
  refine ⟨old, new, oldParsed, newParsed, texts, accepted, ?_, ?_⟩
  · intro column member
    exact back column (List.mem_flatMap.mpr ⟨old, by simp, member⟩)
  · exact (shown true).1 old (by simp) new (by simp)

end SchemaDrift
