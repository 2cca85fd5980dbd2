import SchemaDrift.Proofs.Capture
import SchemaDrift.Proofs.Tiling
import SchemaDrift.Proofs.TypeForms

/-!
What the clauses of a column are made of: keywords in a row, expressions between parentheses, default
values, references and what is said about a check. Each is read in front of anything that it cannot
go on with.
-/

namespace SchemaDrift

open Reading

inductive Parenthesized (source : List Char) : List Token → String → Prop where
  | mk {opening closing : Token} {inner : List Token} (opens : opening.kind = .leftParen)
      (balanced : Balanced 0 inner) (closes : closing.kind = .rightParen) :
      Parenthesized source (opening :: (inner ++ [closing]))
        (Text.normalizeSpacing (Span.text ⟨opening.span.stop, closing.span.start⟩ source))

def Token.isBareWord (token : Token) : Bool :=
  match token.kind with
  | .identifier | .keyword _ => true
  | _ => false

/-- The values that a column may get by default or on update, and the texts that they are kept as. -/
inductive DefaultValue.Written (source : List Char) : List Token → String → Prop where
  | number {token : Token} (number : token.kind = .number) : Written source [token] token.text
  | string {token : Token} (string : token.isString = true) : Written source [token] token.sql
  | word {token : Token} (word : token.isBareWord = true) : Written source [token] token.text
  | call {token : Token} {tokens : List Token} {arguments : String}
      (word : token.isBareWord = true) (group : Parenthesized source tokens arguments) :
      Written source (token :: tokens) (token.text ++ "(" ++ arguments ++ ")")
  | group {tokens : List Token} {expression : String}
      (group : Parenthesized source tokens expression) :
      Written source tokens ("(" ++ expression ++ ")")

inductive TableName : List Token → String → Prop where
  | plain {token : Token} (name : token.isName = true) : TableName [token] token.text
  | ofSchema {schema dot token : Token} (first : schema.isName = true) (parted : dot.kind = .dot)
      (name : token.isName = true) :
      TableName [schema, dot, token] (schema.text ++ "." ++ token.text)

def ReferentialAction.words : ReferentialAction → List Keyword
  | .cascade => [.CASCADE]
  | .restrict => [.RESTRICT]
  | .setNull => [.SET, .NULL]
  | .setDefault => [.SET, .DEFAULT]
  | .noAction => [.NO, .ACTION]

def ReferentialAction.firstWords : List Keyword :=
  [.CASCADE, .RESTRICT, .SET, .NO]

inductive ReferenceClause.Written : List Token → ReferenceClause → Prop where
  | matching {tokens : List Token} {kind : Keyword} (known : kind ∈ [.FULL, .PARTIAL, .SIMPLE])
      (spelled : Spell tokens [.MATCH, kind]) : Written tokens .matching
  | onDelete {tokens : List Token} {action : ReferentialAction}
      (spelled : Spell tokens (.ON :: .DELETE :: action.words)) : Written tokens (.onDelete action)
  | onUpdate {tokens : List Token} {action : ReferentialAction}
      (spelled : Spell tokens (.ON :: .UPDATE :: action.words)) : Written tokens (.onUpdate action)

inductive ReferenceClauses : List Token → List ReferenceClause → Prop where
  | finish : ReferenceClauses [] []
  | clause {front tokens : List Token} {clause : ReferenceClause} {clauses : List ReferenceClause}
      (first : clause.Written front) (later : ReferenceClauses tokens clauses) :
      ReferenceClauses (front ++ tokens) (clause :: clauses)

def ReferenceClause.onDelete? : ReferenceClause → Option ReferentialAction
  | .onDelete action => some action
  | _ => none

def ReferenceClause.onUpdate? : ReferenceClause → Option ReferentialAction
  | .onUpdate action => some action
  | _ => none

/-- What a fold comes to is known from what one more step at the end does to it. -/
theorem foldl_eq_of_append {α β : Type} {step : β → α → β} {start : β} {whole : List α → β}
    (nothing : whole [] = start)
    (append : ∀ front last, whole (front ++ [last]) = step (whole front) last) (items : List α) :
    items.foldl step start = whole items := by
  induction items using List.reverseRecOn with
  | nil => exact nothing.symm
  | append_singleton front last ih =>
      rw [List.foldl_append, ih, append]
      rfl

/-- A reference with some clauses behind it: of those for the same occasion the last one counts. -/
def Reference.declared (table : String) (columns : List String) (clauses : List ReferenceClause) :
    Reference where
  table
  columns
  onDelete := (clauses.filterMap ReferenceClause.onDelete?).getLast?
  onUpdate := (clauses.filterMap ReferenceClause.onUpdate?).getLast?

inductive Reference.Written : List Token → Reference → Prop where
  | mk {first : Token} {named columns behind items : List Token} {table : String}
      {clauses : List ReferenceClause} (starts : first.kind = .keyword .REFERENCES)
      (name : TableName named table) (listed : ItemGroup Token.isName columns items)
      (followed : ReferenceClauses behind clauses) :
      Written (first :: (named ++ (columns ++ behind)))
        (.declared table (items.map Token.text) clauses)

def GeneratedStorage.spellings : List (List Keyword × GeneratedStorage) :=
  [([], .virtual), ([.VIRTUAL], .virtual), ([.STORED], .stored)]

inductive GeneratedColumn.Written (source : List Char) : List Token → GeneratedColumn → Prop where
  | mk {front group behind : List Token} {words storageWords : List Keyword} {expression : String}
      {storage : GeneratedStorage} (known : words ∈ [[.AS], [.GENERATED, .ALWAYS, .AS]])
      (starts : Spell front words) (captured : Parenthesized source group expression)
      (listed : (storageWords, storage) ∈ GeneratedStorage.spellings)
      (spelled : Spell behind storageWords) :
      Written source (front ++ (group ++ behind)) ⟨expression, storage⟩

def Check.enforcements : List (List Keyword × Option Bool) :=
  [([], none), ([.ENFORCED], some true), ([.NOT, .ENFORCED], some false)]

inductive ConstraintName : List Token → Option String → Prop where
  | none : ConstraintName [] none
  | unnamed {first : Token} (starts : first.kind = .keyword .CONSTRAINT) : ConstraintName [first] none
  | named {first token : Token} (starts : first.kind = .keyword .CONSTRAINT)
      (name : token.isName = true) : ConstraintName [first, token] (some token.text)

inductive Check.Written (source : List Char) (name : Option String) : List Token → Check → Prop where
  | mk {first : Token} {group behind : List Token} {words : List Keyword} {expression : String}
      {enforced : Option Bool} (starts : first.kind = .keyword .CHECK)
      (captured : Parenthesized source group expression)
      (listed : (words, enforced) ∈ enforcements) (spelled : Spell behind words) :
      Written source name (first :: (group ++ behind)) { name, expression, enforced }

/-- What is known of a token of a text: no end of input is among them, and a number stands there as
its text says. -/
structure Token.StandsIn (source : List Char) (token : Token) : Prop where
  not_end : token.kind ≠ .endOfInput
  number : token.kind = .number → Span.text token.span source = token.text

theorem Token.standsIn_of_mem {text : String} {token : Token}
    (member : token ∈ Token.visible .start text.toList) : token.StandsIn text.toList where
  not_end := scan_not_end (List.mem_filter.mp member).1
  number kind := by
    obtain ⟨scanned, same, stands⟩ := (ofText_tiles text).ended
    have present : token ∈ scanned := by
      rw [ofText] at same
      rw [(List.append_inj' same rfl).1.symm]
      exact (List.mem_filter.mp member).1
    obtain ⟨before, written, behind, parts, at_place⟩ := stands token present
    have lexeme := at_place.lexeme
    rw [kind] at lexeme
    have as_written : written = token.text.toList := by
      generalize token.text.toList = text at lexeme
      cases lexeme with
      | mark listed => simp [marks] at listed
      | word _ _ _ spelled => cases spelled.name (by simp)
      | number => rfl
    rw [List.nil_append] at parts
    rw [Span.text, parts, at_place.slice, Option.getD_some, as_written, String.ofList_toList]

/-! Reading what is written so. -/

/-- Can a type or a clause go on with the kind? -/
def TokenKind.goesOn : TokenKind → Bool
  | .leftParen | .string _ | .number => true
  | .keyword word => [.KEY, .STORED, .VIRTUAL, .ENFORCED, .UNSIGNED, .ZEROFILL, .PRECISION,
      .VARCHAR].contains word
  | _ => false

/-- What may stand behind a clause that ends in `last`: nothing that a type or a clause would go on
with, also where that takes more than one token to see. -/
structure Onward (last : Token) (cursor : Cursor) : Prop where
  kind : cursor.current.kind.goesOn = false
  apart : cursor.current.kind = .identifier → cursor.current.span.start ≠ last.span.stop
  not_enforced : (cursor.seesWord .NOT && cursor.peeksWord 1 .ENFORCED) = false
  no_action : ReferenceClause.starts cursor = false

section

variable {source : List Char} {last close : Token} {tokens rest : List Token}

namespace Onward

theorem missed (onward : Onward last ⟨source, rest, close⟩) (kind : TokenKind)
    (goes : kind.goesOn = true) : (rest.headD close).kind ≠ kind := by
  rintro rfl
  exact Bool.noConfusion (onward.kind.symm.trans goes)

theorem no_string (onward : Onward last ⟨source, rest, close⟩) :
    (rest.headD close).isString = false := by
  rw [Token.isString]
  split
  next quote kind => exact absurd kind (onward.missed (.string quote) rfl)
  next => rfl

end Onward

theorem Parenthesized.read {text : String} (group : Parenthesized source tokens text)
    (stands : ∀ token ∈ tokens, token.StandsIn source) (rest : List Token) (close : Token) :
    expression ⟨source, tokens ++ rest, close⟩ = .ok text ⟨source, rest, close⟩ := by
  obtain @⟨opening, closing, inner, opens, balanced, closes⟩ := group
  have no_end : ∀ token ∈ inner, token.kind ≠ .endOfInput :=
    fun token member => (stands token (by simp [member])).not_end
  obtain ⟨commas, read⟩ := Group.read_balanced balanced no_end closes close rest
  rw [expression_eq]
  simp [Cursor.current, Cursor.next, Cursor.slice, opens, closes, read]

namespace DefaultValue

theorem follow_apart (onward : Onward last ⟨source, rest, close⟩) :
    Token.follow last.span.stop rest = (last.span.stop, rest) := by
  cases rest with
  | nil => rfl
  | cons next rest =>
      have no_number : next.kind ≠ .number := onward.missed .number (by decide)
      have apart : ¬((next.kind = .identifier ∨ next.kind = .number) ∧
          next.span.start = last.span.stop) := by
        rintro ⟨kind | kind, touches⟩
        · exact onward.apart kind touches
        · exact no_number kind
      rw [Token.follow, if_neg apart]

theorem read_bareWord {token : Token} (word : token.isBareWord = true) (rest : List Token) :
    DefaultValue.read ⟨source, token :: rest, close⟩ = wordText token ⟨source, rest, close⟩ := by
  rw [DefaultValue.read, current_bind]
  rw [Token.isBareWord] at word
  simp only [Cursor.current, List.headD_cons]
  split at word
  next kind =>
    rw [kind]
    exact bind_of_ok discard_advance _
  next kind =>
    rw [kind]
    exact bind_of_ok discard_advance _
  next => contradiction

theorem Written.ne_nil {text : String} (written : Written source tokens text) : tokens ≠ [] := by
  cases written with
  | group group =>
      obtain ⟨_, _, _⟩ := group
      exact List.cons_ne_nil _ _
  | _ => exact List.cons_ne_nil _ _

theorem Written.read {text : String} (written : Written source tokens text)
    (stands : ∀ token ∈ tokens, token.StandsIn source) {front : List Token}
    (ends : (front ++ tokens).getLast? = some last) (onward : Onward last ⟨source, rest, close⟩) :
    DefaultValue.read ⟨source, tokens ++ rest, close⟩ = .ok text ⟨source, rest, close⟩ := by
  cases written with
  | @number token number =>
      -- the number is the last token, so nothing stands directly behind it
      obtain rfl : token = last := by simpa using ends
      have text := (stands token (by simp)).number number
      rw [DefaultValue.read, current_bind]
      simp only [Cursor.current, List.cons_append, List.nil_append, List.headD_cons, number]
      rw [bind_of_ok discard_advance]
      simp only [numberText, follow_apart onward, Cursor.slice, text]
  | @string token string =>
      rw [DefaultValue.read, current_bind]
      rw [Token.isString] at string
      simp only [Cursor.current, List.cons_append, List.nil_append, List.headD_cons]
      split at string
      next kind =>
        rw [kind]
        rfl
      next => contradiction
  | @word token word =>
      have no_group := onward.missed .leftParen (by decide)
      rw [List.cons_append, List.nil_append, read_bareWord word, wordText, current_bind]
      simp only [Cursor.current, onward.no_string, no_group, Bool.false_and, Bool.false_eq_true,
        ↓reduceIte]
      rfl
  | @call token tokens arguments word group =>
      have read := group.read (fun other member => stands other (List.mem_cons_of_mem _ member)) rest
        close
      obtain @⟨opening, _, _, opens, _, _⟩ := group
      have no_string : opening.isString = false := by rw [Token.isString, opens]
      rw [List.cons_append, read_bareWord word, wordText, current_bind]
      simp only [Cursor.current, List.cons_append, List.headD_cons, no_string, opens,
        Bool.false_and, Bool.false_eq_true, ↓reduceIte]
      exact bind_of_ok read _
  | group group =>
      have read := group.read stands rest close
      obtain ⟨opens, _, _⟩ := group
      rw [DefaultValue.read, current_bind]
      simp only [Cursor.current, List.cons_append, List.headD_cons, opens]
      exact bind_of_ok read _

end DefaultValue

/-! References. -/

theorem TableName.read {named : List Token} {name : String} (table : TableName named name)
    (no_dot : (rest.headD close).kind ≠ .dot) (source : List Char) :
    ∃ schema plain, qualifiedName ⟨source, named ++ rest, close⟩ =
      .ok (schema, plain) ⟨source, rest, close⟩ ∧ qualified schema plain = name := by
  cases table with
  | @plain token name =>
      refine ⟨none, token.text, ?_, rfl⟩
      rw [List.cons_append, List.nil_append, qualifiedName, Reading.name,
        bind_of_ok (textOf_found name .tableName), bind_of_ok (eat_missed no_dot)]
      rfl
  | @ofSchema schema dot token first parted name =>
      refine ⟨some schema.text, token.text, ?_, rfl⟩
      simp only [List.cons_append, List.nil_append]
      rw [qualifiedName, Reading.name, bind_of_ok (textOf_found first .tableName),
        ifEat_found parted, bind_of_ok (textOf_found name .tableName)]
      rfl

theorem KeyPart.read_takes :
    TakesItem source close Token.isName KeyPart.read fun token => { name := token.text } := by
  rintro token rest named ⟨next, front, parted⟩
  obtain ⟨behind, rfl⟩ := List.head?_eq_some_iff.mp front
  -- neither a length nor a direction starts with the mark behind the name
  have other (kind : TokenKind) (no_mark : kind ≠ .comma ∧ kind ≠ .rightParen) :
      next.kind ≠ kind := by
    rintro rfl
    exact parted.elim no_mark.1 no_mark.2
  have no_group : Cursor.sees ⟨source, token :: next :: behind, close⟩ .leftParen = false := by
    simp [Cursor.sees, Cursor.current, (Token.kind_ne_of_isName named).1]
  have name_read : readName ⟨source, token :: next :: behind, close⟩ =
      .ok token.text ⟨source, next :: behind, close⟩ := by
    rw [readName, bind_of_ok (look_eq _ _), no_group]
    exact textOf_found named .columnName
  have no_length : readLength ⟨source, next :: behind, close⟩ =
      .ok none ⟨source, next :: behind, close⟩ := by
    rw [readLength, bind_of_ok (eat_other (other .leftParen (by simp)))]
    rfl
  have no_direction : readDirection ⟨source, next :: behind, close⟩ =
      .ok none ⟨source, next :: behind, close⟩ := by
    rw [readDirection, ifWord_other (other _ (by simp)),
      bind_of_ok (eatWord_other (other _ (by simp)))]
    rfl
  rw [KeyPart.read, bind_of_ok name_read, bind_of_ok no_length, bind_of_ok no_direction]
  rfl

theorem ReferentialAction.words_front (action : ReferentialAction) :
    ∃ word further, action.words = word :: further ∧ word ∈ firstWords := by
  cases action <;> exact ⟨_, _, rfl, by decide⟩

theorem ReferentialAction.read_spelled {action : ReferentialAction}
    (spelled : Spell tokens action.words) (rest : List Token) :
    read ⟨source, tokens ++ rest, close⟩ = .ok action ⟨source, rest, close⟩ := by
  cases action
  all_goals
    obtain ⟨token, others, rfl, kind, further⟩ := spelled.cons
    rw [List.cons_append, read, bind_of_ok advance_found, Token.keyword?_eq_some_iff.mpr kind]
    dsimp only
  case cascade | restrict =>
    obtain rfl := further.nil
    rfl
  case setNull | noAction =>
    obtain ⟨second, rfl, kind⟩ := further.single
    rw [List.cons_append, bind_of_ok (eatWord_found kind)]
    rfl
  case setDefault =>
    obtain ⟨second, rfl, kind⟩ := further.single
    rw [List.cons_append, ifWord_other (by simp [kind]), bind_of_ok (eatWord_found kind)]
    rfl

namespace ReferenceClause

variable {clause : ReferenceClause}

theorem starts_of_action {on event : Token} {action : ReferentialAction}
    (first : on.kind = .keyword .ON) (spelled : Spell tokens action.words) (rest : List Token) :
    starts ⟨source, on :: event :: (tokens ++ rest), close⟩ = true := by
  obtain ⟨word, further, words, known⟩ := action.words_front
  rw [words] at spelled
  obtain ⟨token, others, rfl, kind, -⟩ := spelled.cons
  simp only [ReferentialAction.firstWords, List.mem_cons, List.not_mem_nil, or_false] at known
  rcases known with rfl | rfl | rfl | rfl <;>
    simp [starts, Cursor.seesWord, Cursor.sees, Cursor.peeksWord, Cursor.peek, Cursor.current,
      first, kind]

theorem Written.length_pos (written : clause.Written tokens) : 0 < tokens.length := by
  cases written with
  | matching _ spelled | onDelete spelled | onUpdate spelled =>
      obtain ⟨first, others, rfl, -⟩ := spelled.cons
      exact Nat.succ_pos _

theorem Written.starts (written : clause.Written tokens) (rest : List Token) :
    ReferenceClause.starts ⟨source, tokens ++ rest, close⟩ = true := by
  cases written with
  | matching known spelled =>
      obtain ⟨first, others, rfl, kind, -⟩ := spelled.cons
      simp [ReferenceClause.starts, Cursor.seesWord, Cursor.sees, Cursor.current, kind]
  | onDelete spelled =>
      obtain ⟨first, others, rfl, kind, spelled⟩ := spelled.cons
      obtain ⟨second, others, rfl, -, spelled⟩ := spelled.cons
      exact starts_of_action kind spelled rest
  | onUpdate spelled =>
      obtain ⟨first, others, rfl, kind, spelled⟩ := spelled.cons
      obtain ⟨second, others, rfl, -, spelled⟩ := spelled.cons
      exact starts_of_action kind spelled rest

theorem Written.read (written : clause.Written tokens) (rest : List Token) :
    ReferenceClause.read ⟨source, tokens ++ rest, close⟩ = .ok clause ⟨source, rest, close⟩ := by
  cases written with
  | matching known spelled =>
      obtain ⟨first, others, rfl, kind, spelled⟩ := spelled.cons
      obtain ⟨second, rfl, -⟩ := spelled.single
      simp only [List.cons_append, List.nil_append]
      rw [ReferenceClause.read, bind_of_ok (eatWord_found kind)]
      rfl
  | onDelete spelled =>
      obtain ⟨first, others, rfl, on, spelled⟩ := spelled.cons
      obtain ⟨second, others, rfl, delete, spelled⟩ := spelled.cons
      simp only [List.cons_append]
      rw [ReferenceClause.read, ifWord_other (by simp [on]), bind_of_ok discard_advance,
        bind_of_ok (eatWord_found delete)]
      exact bind_of_ok (ReferentialAction.read_spelled spelled rest) _
  | onUpdate spelled =>
      obtain ⟨first, others, rfl, on, spelled⟩ := spelled.cons
      obtain ⟨second, others, rfl, update, spelled⟩ := spelled.cons
      simp only [List.cons_append]
      rw [ReferenceClause.read, ifWord_other (by simp [on]), bind_of_ok discard_advance,
        ifWord_other (by simp [update]), bind_of_ok (expectWord_found update)]
      exact bind_of_ok (ReferentialAction.read_spelled spelled rest) _

end ReferenceClause

theorem ReferenceClauses.rounds {clauses : List ReferenceClause}
    (written : ReferenceClauses tokens clauses)
    (ends : ReferenceClause.starts ⟨source, rest, close⟩ = false) :
    Rounds ReferenceClause.starts ReferenceClause.read ⟨source, tokens ++ rest, close⟩ clauses
      ⟨source, rest, close⟩ := by
  induction written with
  | finish => exact .stop ends
  | @clause front tokens clause clauses first later ih =>
      have shorter : (tokens ++ rest).length < (front ++ (tokens ++ rest)).length := by
        have some_token := first.length_pos
        simp only [List.length_append]
        omega
      rw [List.append_assoc]
      exact .round (first.starts _) (first.read _) shorter ih

namespace Reference

theorem declared_append (table : String) (columns : List String) (clauses : List ReferenceClause)
    (clause : ReferenceClause) :
    declared table columns (clauses ++ [clause]) = (declared table columns clauses).apply clause := by
  cases clause <;> simp [declared, apply, ReferenceClause.onDelete?, ReferenceClause.onUpdate?]

/-- Clause by clause, the later one winning, a reference comes to what its last clauses say. -/
theorem foldl_apply (table : String) (columns : List String) (clauses : List ReferenceClause) :
    clauses.foldl apply { table, columns } = declared table columns clauses :=
  foldl_eq_of_append rfl (declared_append table columns) clauses

theorem Written.read {reference : Reference} (written : reference.Written tokens)
    (ends : ReferenceClause.starts ⟨source, rest, close⟩ = false) :
    Reference.read ⟨source, tokens ++ rest, close⟩ = .ok reference ⟨source, rest, close⟩ := by
  obtain @⟨first, named, columns, behind, items, table, clauses, starts, name, listed, followed⟩ :=
    written
  have no_dot : ((columns ++ (behind ++ rest)).headD close).kind ≠ .dot := by
    obtain ⟨opens, _, _, _⟩ := listed
    simp [opens]
  obtain ⟨schema, plain, name_read, same⟩ := name.read no_dot source
  have columns_read : listOf KeyPart.read ⟨source, columns ++ (behind ++ rest), close⟩ = _ :=
    listed.listOf KeyPart.read_takes (behind ++ rest)
  have names : KeyPart.names (items.map fun token => ({ name := token.text } : KeyPart)) =
      items.map Token.text := by
    simp [KeyPart.names]
  simp only [List.cons_append, List.append_assoc]
  rw [Reference.read, bind_of_ok (expectWord_found starts), bind_of_ok name_read]
  dsimp only
  rw [KeyPart.readList, bind_of_ok columns_read, bind_of_ok (followed.rounds ends).many, names, same,
    foldl_apply]
  rfl

end Reference

/-! Generated columns and checks. -/

theorem GeneratedStorage.read_spelled {words : List Keyword} {storage : GeneratedStorage}
    (listed : (words, storage) ∈ spellings) (spelled : Spell tokens words)
    (onward : Onward last ⟨source, rest, close⟩) (expression : String) :
    (do
      if ← eatWord .STORED then return ⟨expression, .stored⟩
      discard (eatWord .VIRTUAL)
      return ⟨expression, .virtual⟩ : Reading GeneratedColumn) ⟨source, tokens ++ rest, close⟩ =
      .ok ⟨expression, storage⟩ ⟨source, rest, close⟩ := by
  simp only [spellings, List.mem_cons, Prod.mk.injEq, List.not_mem_nil, or_false] at listed
  rcases listed with ⟨rfl, rfl⟩ | ⟨rfl, rfl⟩ | ⟨rfl, rfl⟩
  · obtain rfl := spelled.nil
    rw [List.nil_append, ifWord_missed (onward.missed _ (by decide)),
      bind_of_ok (discard_of_ok (eatWord_missed (onward.missed _ (by decide))))]
    rfl
  · obtain ⟨token, rfl, kind⟩ := spelled.single
    rw [List.cons_append, ifWord_other (by simp [kind]),
      bind_of_ok (discard_of_ok (eatWord_found kind))]
    rfl
  · obtain ⟨token, rfl, kind⟩ := spelled.single
    rw [List.cons_append, ifWord_found kind]
    rfl

theorem GeneratedColumn.Written.read {value : GeneratedColumn} (written : value.Written source tokens)
    (stands : ∀ token ∈ tokens, token.StandsIn source) (onward : Onward last ⟨source, rest, close⟩) :
    GeneratedColumn.read ⟨source, tokens ++ rest, close⟩ = .ok value ⟨source, rest, close⟩ := by
  obtain @⟨front, group, behind, words, storageWords, expression, storage, known, starts, captured,
    listed, spelled⟩ := written
  have group_read := captured.read (fun token member => stands token (by simp [member]))
    (behind ++ rest) close
  have storage_read := GeneratedStorage.read_spelled listed spelled onward expression
  simp only [List.mem_cons, List.not_mem_nil, or_false] at known
  rw [List.append_assoc, List.append_assoc]
  rcases known with rfl | rfl
  · obtain ⟨token, rfl, kind⟩ := starts.single
    rw [List.cons_append, GeneratedColumn.read, bind_of_ok (eatWord_other (by simp [kind]))]
    refine (bind_of_ok (expectWord_found kind) _).trans ?_
    exact (bind_of_ok group_read _).trans storage_read
  · obtain ⟨first, others, rfl, generated, starts⟩ := starts.cons
    obtain ⟨second, others, rfl, always, starts⟩ := starts.cons
    obtain ⟨third, rfl, as⟩ := starts.single
    simp only [List.cons_append, List.nil_append]
    rw [GeneratedColumn.read, ifWord_found generated, bind_of_ok (expectWord_found always)]
    refine (bind_of_ok (expectWord_found as) _).trans ?_
    exact (bind_of_ok group_read _).trans storage_read

theorem GeneratedColumn.Written.front {value : GeneratedColumn}
    (written : value.Written source tokens) :
    ∃ first others word, tokens = first :: others ∧ first.kind = .keyword word ∧
      (word = .AS ∨ word = .GENERATED) := by
  obtain ⟨known, starts, _, _, _⟩ := written
  simp only [List.mem_cons, List.not_mem_nil, or_false] at known
  rcases known with rfl | rfl
  · obtain ⟨first, others, rfl, kind, -⟩ := starts.cons
    exact ⟨first, _, _, rfl, kind, .inl rfl⟩
  · obtain ⟨first, others, rfl, kind, -⟩ := starts.cons
    exact ⟨first, _, _, rfl, kind, .inr rfl⟩

theorem Check.Written.front {name : Option String} {value : Check}
    (written : value.Written source name tokens) :
    ∃ first others, tokens = first :: others ∧ first.kind = .keyword .CHECK := by
  obtain ⟨starts, _, _, _⟩ := written
  exact ⟨_, _, rfl, starts⟩

theorem Check.Written.read {name : Option String} {value : Check}
    (written : value.Written source name tokens) (stands : ∀ token ∈ tokens, token.StandsIn source)
    (onward : Onward last ⟨source, rest, close⟩) :
    Check.read name ⟨source, tokens ++ rest, close⟩ = .ok value ⟨source, rest, close⟩ := by
  obtain @⟨first, group, behind, words, expression, enforced, starts, captured, listed, spelled⟩ :=
    written
  have group_read := captured.read (fun token member => stands token (by simp [member]))
    (behind ++ rest) close
  simp only [List.cons_append, List.append_assoc]
  rw [Check.read, bind_of_ok (expectWord_found starts), bind_of_ok group_read, bind_of_ok (look_eq _ _)]
  simp only [enforcements, List.mem_cons, Prod.mk.injEq, List.not_mem_nil, or_false] at listed
  -- where nothing is said, a NOT that may follow is not in front of ENFORCED
  rcases listed with ⟨rfl, rfl⟩ | ⟨rfl, rfl⟩ | ⟨rfl, rfl⟩
  · obtain rfl := spelled.nil
    rw [List.nil_append, onward.not_enforced]
    simp only [Bool.false_eq_true, ↓reduceIte]
    rw [bind_of_ok (eatWord_missed (onward.missed _ (by decide)))]
    rfl
  · obtain ⟨token, rfl, kind⟩ := spelled.single
    have no_not : Cursor.seesWord ⟨source, token :: rest, close⟩ .NOT = false := by
      simp [Cursor.seesWord, Cursor.sees, Cursor.current, kind]
    simp only [List.cons_append, List.nil_append, no_not, Bool.false_and, Bool.false_eq_true,
      ↓reduceIte]
    rw [bind_of_ok (eatWord_found kind)]
    rfl
  · obtain ⟨token, others, rfl, negated, spelled⟩ := spelled.cons
    obtain ⟨second, rfl, kind⟩ := spelled.single
    simp only [Cursor.seesWord, Cursor.sees, Cursor.peeksWord, Cursor.peek, Cursor.current,
      List.cons_append, List.headD_cons, List.getD_cons_succ, List.getD_cons_zero, negated, kind,
      BEq.rfl, Bool.and_self, ↓reduceIte]
    rfl

end

end SchemaDrift
