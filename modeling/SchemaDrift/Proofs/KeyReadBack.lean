import SchemaDrift.Proofs.KeyText
import SchemaDrift.Proofs.NormalText
import SchemaDrift.Proofs.OptionClauses
import SchemaDrift.Proofs.TypeText
import SchemaDrift.Proofs.ValueList

/-!
The text of a key reads back. The parts of a key that was read from a text without comments, with no
column among them in quotes, are written out as a list that is read as the same parts again: an
expression is in normal spacing already and pairs up its parentheses, so that it is captured whole a
second time.
-/

namespace SchemaDrift

open Text Reading

/-- The tokens directly between the parentheses that come first, up to where those close. -/
def Token.direct : Nat → List Token → List Token
  | _, [] => []
  | depth, token :: rest =>
      if token.kind = .leftParen then direct (depth + 1) rest
      else if token.kind = .rightParen then if depth ≤ 1 then [] else direct (depth - 1) rest
      else if depth = 1 then token :: direct depth rest
      else direct depth rest

namespace Token

theorem direct_opening {token : Token} (opens : token.kind = .leftParen) (depth : Nat)
    (rest : List Token) : direct depth (token :: rest) = direct (depth + 1) rest := by
  rw [direct, if_pos opens]

theorem direct_plain {token : Token} (plain : ¬token.IsParenthesis) (rest : List Token) :
    direct 1 (token :: rest) = token :: direct 1 rest := by
  rw [direct, if_neg fun opens => plain (.inl opens), if_neg fun closes => plain (.inr closes),
    if_pos rfl]

theorem direct_group {depth : Nat} {inner : List Token} (balanced : Balanced depth inner)
    {closing : Token} (closes : closing.kind = .rightParen) (rest : List Token) :
    direct (depth + 2) (inner ++ closing :: rest) = direct 1 rest := by
  induction balanced with
  | finish => simp [direct, closes]
  | opening kind later ih => simpa [direct, kind] using ih
  | closing kind later ih => simpa [direct, kind] using ih
  | other not_opening not_closing later ih => simpa [direct, not_opening, not_closing] using ih

end Token

/-- A cursor at a part of a list that stands in a text; no column from there on is in quotes. -/
structure Cursor.AmongParts (text : String) (cursor : Cursor) : Prop where
  source : cursor.source = text.toList
  ended : cursor.close.kind = .endOfInput
  tokens : cursor.ahead <:+: Token.visible .start text.toList
  unquoted : ∀ token ∈ Token.direct 1 cursor.ahead, token.kind ≠ .quotedIdentifier

/-- An expression that is captured as it is between any parentheses. -/
structure PartExpression (expression : String) : Prop where
  spaced : normalizeSpacing expression = expression
  reached : ∀ more, (∀ c ∈ more.head?, Severs c) → Reaches (expression.toList ++ more) more
  paired : ∃ inner, Balanced 0 inner ∧ contents expression.toList = inner.map Token.content

inductive PartName : String → Prop where
  | column {token : Token} (named : token.isName = true) (unquoted : token.kind ≠ .quotedIdentifier)
      (writable : Writable token.kind token.text.toList) : PartName token.text
  | expression {expression : String} (fixed : PartExpression expression) :
      PartName ("(" ++ expression ++ ")")

theorem Token.mark?_of_isName {token : Token} (named : token.isName = true)
    (unquoted : token.kind ≠ .quotedIdentifier) : token.kind.mark? = none := by
  rw [isName] at named
  cases kind : token.kind <;> simp_all [TokenKind.mark?]

/-! What the reader yields. -/

section

variable {text : String} {cursor : Cursor}

namespace Cursor.AmongParts

theorem past_plain (among : cursor.AmongParts text)
    (ahead : cursor.ahead = cursor.current :: cursor.next.ahead)
    (plain : ¬cursor.current.IsParenthesis) : cursor.next.AmongParts text where
  source := among.source
  ended := among.ended
  tokens := (List.tail_suffix cursor.ahead).isInfix.trans among.tokens
  unquoted other member := by
    refine among.unquoted other ?_
    rw [ahead, Token.direct_plain plain]
    exact List.mem_cons_of_mem _ member

theorem past_group (among : cursor.AmongParts text) {opening closing : Token}
    {inner rest : List Token} (ahead : cursor.ahead = opening :: (inner ++ closing :: rest))
    (opens : opening.kind = .leftParen) (closes : closing.kind = .rightParen)
    (balanced : Balanced 0 inner) : AmongParts text { cursor with ahead := rest } where
  source := among.source
  ended := among.ended
  tokens := by
    refine .trans ?_ among.tokens
    rw [ahead]
    exact ⟨opening :: (inner ++ [closing]), [], by simp⟩
  unquoted other member := by
    refine among.unquoted other ?_
    rwa [ahead, Token.direct_opening opens, Token.direct_group balanced closes]

end Cursor.AmongParts

theorem Reading.unsignedInteger_ok {after : Cursor} {value : UInt64}
    (done : unsignedInteger cursor = .ok value after) :
    cursor.current.kind = .number ∧ after = cursor.next := by
  rw [unsignedInteger] at done
  split at done
  next found =>
    obtain ⟨rfl, rfl⟩ := EStateM.Result.ok.inj done
    simp only [Token.unsignedInteger?] at found
    exact ⟨(Option.ite_none_right_eq_some.mp found).1.1, rfl⟩
  next => contradiction

theorem Reading.eatWord_amongParts (word : Keyword) :
    Yields (Cursor.AmongParts text) (eatWord word) fun _ => True := by
  intro cursor among found after done
  refine ⟨trivial, ?_⟩
  rcases eat_ok done with ⟨-, kind, rfl⟩ | ⟨-, rfl⟩
  · exact among.past_plain (Cursor.ahead_eq among.ended kind (by simp))
      (by simp [Token.IsParenthesis, kind])
  · exact among

namespace KeyPart

/-- An expression between the parentheses of the text is fixed once it is in normal spacing. -/
theorem partExpression_of_tokens (uncommented : Uncommented text.toList)
    {earlier inner later : List Token} {opening closing : Token}
    (tokens : Token.visible .start text.toList = earlier ++ opening :: (inner ++ closing :: later))
    (opens : opening.kind = .leftParen) (closes : closing.kind = .rightParen)
    (balanced : Balanced 0 inner) :
    PartExpression
      (normalizeSpacing (Span.text ⟨opening.span.stop, closing.span.start⟩ text.toList)) := by
  obtain ⟨before, inside, behind, parts, start, stop, passed, reached, said⟩ :=
    Token.visible_between tokens opens closes
  have slice : Span.text ⟨opening.span.stop, closing.span.start⟩ text.toList = .ofList inside := by
    rw [Span.text, parts, start, stop, Span.slice?_between, Option.getD_some]
  have further := uncommented.further passed
  rw [slice]
  rw [← @String.toList_ofList inside] at reached further said
  refine ⟨normalizeSpacing_normalizeSpacing _, fun more severs => ?_, inner, balanced, ?_⟩
  · exact .of_normalizeSpacing rfl reached further severs
  · rw [contents_normalizeSpacing rfl reached (further.inside reached rfl).tidy, said]

theorem readName_fixed (uncommented : Uncommented text.toList) :
    Yields (Cursor.AmongParts text) readName PartName := by
  intro cursor among name after done
  rw [readName, bind_of_ok (look_eq _ _)] at done
  split at done
  next opens =>
    obtain ⟨expression, middle, read, made⟩ := ok_of_bind_ok done
    obtain ⟨rfl, rfl⟩ := EStateM.Result.ok.inj made
    obtain ⟨opening, inner, closing, ahead, opens, closes, balanced, rfl, moved⟩ :=
      expression_ok among.ended read
    obtain ⟨earlier, later, tokens⟩ := among.tokens
    rw [moved]
    refine ⟨.expression ?_, among.past_group ahead opens closes balanced⟩
    rw [Cursor.slice, among.source]
    have parts : Token.visible .start text.toList =
        earlier ++ opening :: (inner ++ closing :: (middle.ahead ++ later)) := by
      rw [← tokens, ahead]
      simp
    exact partExpression_of_tokens uncommented parts opens closes balanced
  next =>
    rw [Reading.name, textOf] at done
    split at done
    next named =>
      obtain ⟨rfl, rfl⟩ := EStateM.Result.ok.inj done
      have seen : cursor.current.kind ≠ .endOfInput := fun kind => by
        simp [Token.isName, kind] at named
      have ahead := Cursor.ahead_eq among.ended rfl seen
      have plain : ¬cursor.current.IsParenthesis := fun parenthesis =>
        parenthesis.elim (Token.kind_ne_of_isName named).1 (Token.kind_ne_of_isName named).2
      have unquoted : cursor.current.kind ≠ .quotedIdentifier := by
        refine among.unquoted _ ?_
        rw [ahead, Token.direct_plain plain]
        exact List.mem_cons_self
      have member : cursor.current ∈ Token.visible .start text.toList :=
        among.tokens.subset (ahead ▸ List.mem_cons_self)
      obtain ⟨scanned, no_directive⟩ := List.mem_filter.mp member
      have closed : cursor.current.Closed text.toList := fun mark marked => by
        simp [Token.mark?_of_isName named unquoted] at marked
      have writable := Token.writable_of_mem scanned (by simpa using no_directive) closed
      exact ⟨.column named unquoted writable, among.past_plain ahead plain⟩
    next => contradiction

theorem readLength_among : Yields (Cursor.AmongParts text) readLength fun _ => True := by
  intro cursor among length after done
  refine ⟨trivial, ?_⟩
  obtain ⟨found, middle, eaten, rest⟩ := ok_of_bind_ok done
  rcases eat_ok eaten with ⟨rfl, opens, rfl⟩ | ⟨rfl, rfl⟩
  · obtain ⟨value, second, counted, rest⟩ := ok_of_bind_ok rest
    obtain ⟨_, third, closed, made⟩ := ok_of_bind_ok rest
    obtain ⟨closing, closed⟩ := ok_of_discard_ok closed
    obtain ⟨number, rfl⟩ := unsignedInteger_ok counted
    obtain ⟨closes, -, rfl⟩ := expect_ok closed
    obtain ⟨-, rfl⟩ := EStateM.Result.ok.inj made
    -- the digits between the two parentheses are a group of their own
    have ahead := Cursor.ahead_eq among.ended opens (by simp)
    have behind_opening := @Cursor.ahead_eq cursor.next _ among.ended number (by simp)
    have behind_number := @Cursor.ahead_eq cursor.next.next _ among.ended closes (by simp)
    rw [behind_opening, behind_number] at ahead
    have plain : ∀ token ∈ [cursor.next.current], ¬token.IsParenthesis := by
      simp [Token.IsParenthesis, number]
    exact @Cursor.AmongParts.past_group _ _ among _ _ [cursor.next.current] _ ahead opens closes
      (.of_plain plain)
  · obtain ⟨-, rfl⟩ := EStateM.Result.ok.inj rest
    exact among

theorem readDirection_among : Yields (Cursor.AmongParts text) readDirection fun _ => True :=
  (eatWord_amongParts .ASC).bind fun _ _ => .ite (.pure trivial) <|
    (eatWord_amongParts .DESC).bind fun _ _ => .ite (.pure trivial) (.pure trivial)

theorem read_among (uncommented : Uncommented text.toList) :
    Yields (Cursor.AmongParts text) read fun part => PartName part.name :=
  (readName_fixed uncommented).bind fun _ fixed => readLength_among.bind fun _ _ =>
    readDirection_among.bind fun _ _ => .pure fixed

theorem readList_among (uncommented : Uncommented text.toList) {cursor after : Cursor}
    {parts : List KeyPart} (source : cursor.source = text.toList)
    (ended : cursor.close.kind = .endOfInput)
    (tokens : cursor.ahead <:+: Token.visible .start text.toList)
    (unquoted : ∀ token ∈ Token.direct 0 cursor.ahead, token.kind ≠ .quotedIdentifier)
    (done : readList cursor = .ok parts after) :
    parts ≠ [] ∧ ∀ part ∈ parts, PartName part.name := by
  obtain ⟨opens, second, items, -, -⟩ := listOf_ok done
  have ahead := Cursor.ahead_eq ended opens (by simp)
  have among : cursor.next.AmongParts text := by
    refine ⟨source, ended, (List.tail_suffix _).isInfix.trans tokens, fun token member => ?_⟩
    refine unquoted token ?_
    rwa [ahead, Token.direct_opening opens]
  obtain ⟨part, third, first_read, rest⟩ := ok_of_bind_ok items
  obtain ⟨others, fourth, more_read, made⟩ := ok_of_bind_ok rest
  obtain ⟨rfl, rfl⟩ := EStateM.Result.ok.inj made
  obtain ⟨fixed, among⟩ := read_among uncommented _ among _ _ first_read
  have behind_comma (cursor : Cursor) (among : cursor.AmongParts text)
      (comma : cursor.sees .comma = true) (part : KeyPart) (after : Cursor)
      (done : (do discard advance; read) cursor = .ok part after) :
      PartName part.name ∧ after.AmongParts text := by
    have kind : cursor.current.kind = .comma := beq_iff_eq.mp comma
    have passed := among.past_plain (Cursor.ahead_eq among.ended kind (by simp))
      (by simp [Token.IsParenthesis, kind])
    exact read_among uncommented cursor.next passed part after done
  have each := (Yields.many_while behind_comma _ among _ _ more_read).1
  exact ⟨List.cons_ne_nil part others, List.forall_mem_cons.mpr ⟨fixed, each⟩⟩

end KeyPart

end

/-! Reading what is written. -/

theorem Balanced.of_kinds {depth : Nat} {tokens others : List Token} (balanced : Balanced depth others)
    (same : tokens.map Token.kind = others.map Token.kind) : Balanced depth tokens := by
  induction balanced generalizing tokens with
  | finish =>
      obtain rfl := List.map_eq_nil_iff.mp same
      exact .finish
  | opening kind later ih =>
      obtain ⟨token, rest, rfl, like, same⟩ := List.map_eq_cons_iff.mp same
      exact .opening (like.trans kind) (ih same)
  | closing kind later ih =>
      obtain ⟨token, rest, rfl, like, same⟩ := List.map_eq_cons_iff.mp same
      exact .closing (like.trans kind) (ih same)
  | other not_opening not_closing later ih =>
      obtain ⟨token, rest, rfl, like, same⟩ := List.map_eq_cons_iff.mp same
      exact .other (like ▸ not_opening) (like ▸ not_closing) (ih same)

def SortDirection.word : SortDirection → Keyword
  | .ascending => .ASC
  | .descending => .DESC

section

variable {source before more : List Char} {close : Token}

theorem PartExpression.read {expression : String} (fixed : PartExpression expression)
    (stands : source = before ++ '(' :: (expression.toList ++ ')' :: more)) :
    Reading.expression ⟨source, Token.visible (.ofPrefix before)
        ('(' :: (expression.toList ++ ')' :: more)), close⟩ =
      .ok expression ⟨source, Token.visible
        (.ofPrefix (before ++ '(' :: (expression.toList ++ [')']))) more, close⟩ := by
  obtain ⟨inner, balanced, said⟩ := fixed.paired
  have reached := fixed.reached (')' :: more) (by simp [Severs])
  -- in its place the expression pairs up its parentheses as it does alone
  have paired : Balanced 0 (Token.visible (.ofPrefix (before ++ ['('])) expression.toList) := by
    refine balanced.of_kinds ?_
    have same := (Token.visible_content (.ofPrefix (before ++ ['('])) expression.toList).trans said
    have kinds := congrArg (List.map Prod.fst) same
    rw [List.map_map, List.map_map] at kinds
    exact kinds
  have no_end : ∀ token ∈ Token.visible (.ofPrefix (before ++ ['('])) expression.toList,
      token.kind ≠ .endOfInput :=
    fun token member => Token.scan_not_end (List.mem_filter.mp member).1
  rw [Token.visible_opening, Token.visible_part reached,
    Token.visible_closing]
  obtain ⟨commas, group_read⟩ := @Group.read_balanced _ _ paired no_end
    (Token.standing (before ++ ['('] ++ expression.toList) [')'] .rightParen [')']) rfl close
    (Token.visible (.ofPrefix (before ++ ['('] ++ expression.toList ++ [')'])) more)
  have slice : Span.text ⟨String.utf8Len (before ++ ['(']),
      String.utf8Len (before ++ ['('] ++ expression.toList)⟩ source = expression := by
    have parts : source = before ++ ['('] ++ expression.toList ++ (')' :: more) := by
      rw [stands]
      simp
    rw [Span.text, parts, Span.slice?_between, Option.getD_some, String.ofList_toList]
  have places : before ++ ['('] ++ expression.toList ++ [')'] =
      before ++ '(' :: (expression.toList ++ [')']) := by
    simp
  rw [Reading.expression, bind_of_ok (closedGroup_found rfl group_read rfl), ← places]
  dsimp only
  rw [textBetween, look_eq, Cursor.slice]
  exact congrArg (fun text => EStateM.Result.ok (normalizeSpacing text) _) slice |>.trans
    (by rw [fixed.spaced])

namespace KeyPart

theorem readName_text {name : String} (fixed : PartName name)
    (stands : source = before ++ (name.toList ++ more)) (parting : ∀ c ∈ more.head?, Parting c) :
    readName ⟨source, Token.visible (.ofPrefix before) (name.toList ++ more), close⟩ =
      .ok name ⟨source, Token.visible (.ofPrefix (before ++ name.toList)) more, close⟩ := by
  cases fixed with
  | @column token named unquoted writable =>
      have markless := Token.mark?_of_isName named unquoted
      have lexeme := writable more parting
      rw [TokenKind.write, markless] at lexeme
      have seen : token.kind ≠ .directive := fun kind => by simp [Token.isName, kind] at named
      rw [Token.visible_lexeme lexeme seen]
      have kind : (Token.standing before token.text.toList token.kind token.text.toList).kind =
          token.kind := rfl
      have text : (Token.standing before token.text.toList token.kind token.text.toList).text =
          token.text := String.ofList_toList
      generalize Token.standing before token.text.toList token.kind token.text.toList = placed
        at kind text
      have still_named : placed.isName = true := by rwa [Token.isName, kind]
      have no_group : placed.kind ≠ .leftParen := (Token.kind_ne_of_isName still_named).1
      rw [readName, bind_of_ok (look_eq _ _), ← text]
      simp only [Cursor.sees, Cursor.current, List.headD_cons, no_group, beq_iff_eq, ↓reduceIte]
      exact textOf_found still_named .columnName
  | @expression expression fixed =>
      have chars : ("(" ++ expression ++ ")").toList = '(' :: (expression.toList ++ [')']) := by
        simp
      have shape : ("(" ++ expression ++ ")").toList ++ more =
          '(' :: (expression.toList ++ ')' :: more) := by
        simp
      rw [shape] at stands ⊢
      have read := @PartExpression.read source before more close expression fixed stands
      rw [readName, bind_of_ok (look_eq _ _)]
      have sees : Cursor.sees ⟨source, Token.visible (.ofPrefix before)
          ('(' :: (expression.toList ++ ')' :: more)), close⟩ .leftParen = true := by
        rw [Token.visible_opening]
        rfl
      rw [if_pos sees, bind_of_ok read, chars]
      rfl

theorem visible_ends (ends : Ends more) (before : List Char) :
    ∃ token rest, Token.visible (.ofPrefix before) more = token :: rest ∧
      (token.kind = .comma ∨ token.kind = .rightParen) := by
  rcases ends with comma | closing
  · obtain ⟨others, rfl⟩ := List.head?_eq_some_iff.mp comma
    exact ⟨_, _, Token.visible_comma before others, .inl rfl⟩
  · obtain ⟨others, rfl⟩ := List.head?_eq_some_iff.mp closing
    exact ⟨_, _, Token.visible_closing before others, .inr rfl⟩

theorem parting_ends (ends : Ends more) : ∀ c ∈ more.head?, Parting c := by
  intro c first
  rcases ends with comma | closing
  · obtain rfl : ',' = c := by simpa [comma] using first
    exact parting_of_mark (by simp)
  · obtain rfl : ')' = c := by simpa [closing] using first
    exact parting_of_mark (by simp)

theorem visible_direction (direction : SortDirection) (ends : Ends more) (before : List Char) :
    ∃ token, token.kind = .keyword direction.word ∧
      Token.visible (.ofPrefix before) (directionChars (some direction) ++ more) = token ::
        Token.visible (.ofPrefix (before ++ directionChars (some direction))) more := by
  have lexeme : Lexeme (.keyword direction.word) direction.text.toList direction.text.toList more := by
    have written := direction.word.writable more (parting_ends ends)
    cases direction <;> exact written
  refine ⟨Token.standing (before ++ [' ']) direction.text.toList (.keyword direction.word)
    direction.text.toList, rfl, ?_⟩
  rw [directionChars, List.cons_append, Token.visible_blank (by decide),
    Token.visible_lexeme lexeme (by simp), List.append_assoc, List.singleton_append]

theorem readDirection_text (direction : Option SortDirection) (ends : Ends more) :
    readDirection ⟨source, Token.visible (.ofPrefix before) (directionChars direction ++ more), close⟩ =
      .ok direction
        ⟨source, Token.visible (.ofPrefix (before ++ directionChars direction)) more, close⟩ := by
  cases direction with
  | none =>
      obtain ⟨token, rest, front, kind⟩ := visible_ends ends before
      have other (word : Keyword) : token.kind ≠ .keyword word := by
        rcases kind with kind | kind <;> simp [kind]
      rw [directionChars, List.nil_append, List.append_nil, front, readDirection,
        ifWord_other (other _), bind_of_ok (eatWord_other (other _))]
      rfl
  | some direction =>
      obtain ⟨token, kind, front⟩ := visible_direction direction ends before
      rw [front, readDirection]
      cases direction with
      | ascending =>
          have ascends : token.kind = .keyword .ASC := kind
          rw [ifWord_found ascends]
          rfl
      | descending =>
          have descends : token.kind = .keyword .DESC := kind
          rw [ifWord_other (by simp [descends]), bind_of_ok (eatWord_found descends)]
          rfl

theorem decimal_length (length : UInt64) :
    (∀ behind, Lexeme .number (Nat.toDigits 10 length.toNat) (Nat.toDigits 10 length.toNat)
      (')' :: behind)) ∧
    ∀ token : Token, token.kind = .number → token.text.toList = Nat.toDigits 10 length.toNat →
      ∀ source rest close,
        unsignedInteger ⟨source, token :: rest, close⟩ = .ok length ⟨source, rest, close⟩ := by
  have digits := isDigit_toDigits length.toNat
  have some_digit : Nat.toDigits 10 length.toNat ≠ [] := Nat.toDigits_ne_nil
  constructor
  · intro behind
    have numeral := @Lexeme.numeral [] (Nat.toDigits 10 length.toNat) [] (')' :: behind) (.inl rfl)
      ⟨some_digit, digits⟩ (.inl rfl) (by simp)
    simpa using numeral
  · intro token number text source rest close
    have written : ValueForm.number.Written [token] length :=
      .number number (.inl rfl) text some_digit digits Nat.ofDigitChars_ten_toDigits
    exact written.read rest

theorem readLength_text (length : Option UInt64) (direction : Option SortDirection)
    (ends : Ends more) :
    readLength ⟨source, Token.visible (.ofPrefix before)
        (lengthChars length ++ (directionChars direction ++ more)), close⟩ =
      .ok length ⟨source, Token.visible (.ofPrefix (before ++ lengthChars length))
        (directionChars direction ++ more), close⟩ := by
  cases length with
  | none =>
      have missed : ((Token.visible (.ofPrefix before) (directionChars direction ++ more)).headD
          close).kind ≠ .leftParen := by
        cases direction with
        | none =>
            obtain ⟨token, rest, front, kind⟩ := visible_ends ends before
            rw [directionChars, List.nil_append, front]
            rcases kind with kind | kind <;> simp [kind]
        | some direction =>
            obtain ⟨token, kind, front⟩ := visible_direction direction ends before
            simp [front, kind]
      rw [lengthChars, List.nil_append, List.append_nil, readLength, ifEat_missed missed]
      rfl
  | some length =>
      obtain ⟨lexeme, counted⟩ := decimal_length length
      have opens : (Token.standing before ['('] .leftParen ['(']).kind = .leftParen := rfl
      have closes (front : List Char) :
          (Token.standing front [')'] .rightParen [')']).kind = .rightParen := rfl
      simp only [lengthChars, List.cons_append, List.append_assoc, List.nil_append]
      rw [Token.visible_opening, readLength, ifEat_found opens,
        Token.visible_lexeme (lexeme _) (by simp), bind_of_ok (counted _ rfl String.toList_ofList ..),
        Token.visible_closing, bind_of_ok (discard_of_ok (expect_found (closes _)))]
      simp only [List.append_assoc, List.singleton_append]
      rfl

theorem read_text {part : KeyPart} (fixed : PartName part.name) (ends : Ends more)
    (stands : source = before ++ (part.text.toList ++ more)) :
    read ⟨source, Token.visible (.ofPrefix before) (part.text.toList ++ more), close⟩ =
      .ok part ⟨source, Token.visible (.ofPrefix (before ++ part.text.toList)) more, close⟩ := by
  have parting : ∀ c ∈ (lengthChars part.length ++ (directionChars part.direction ++ more)).head?,
      Parting c := by
    cases part.length with
    | some length => simp [lengthChars, parting_of_mark]
    | none =>
        cases part.direction with
        | some direction => simp [lengthChars, directionChars, parting_of_mark]
        | none => simpa [lengthChars, directionChars] using parting_ends ends
  rw [text_toList, List.append_assoc, List.append_assoc] at stands ⊢
  rw [read, bind_of_ok (readName_text fixed stands parting),
    bind_of_ok (readLength_text part.length part.direction ends),
    bind_of_ok (readDirection_text part.direction ends)]
  simp only [List.append_assoc]
  rfl

theorem rounds_closing {parts : List KeyPart} (fixed : ∀ part ∈ parts, PartName part.name)
    (ended : close.kind = .endOfInput) (stands : source = before ++ closing parts) :
    ∃ last, last.kind = .rightParen ∧ Rounds (·.sees .comma) (do discard advance; read)
      ⟨source, Token.visible (.ofPrefix before) (closing parts), close⟩ parts ⟨source, [last], close⟩ := by
  induction parts generalizing before with
  | nil =>
      refine ⟨Token.standing before [')'] .rightParen [')'], rfl, ?_⟩
      have behind : Token.visible (.ofPrefix (before ++ [')'])) [] = [] := by
        rw [Token.visible, Token.scan_nil, List.filter_nil]
      rw [closing, Token.visible_closing, behind]
      exact .stop rfl
  | cons part rest ih =>
      obtain ⟨first, later⟩ := List.forall_mem_cons.mp fixed
      have stands_here : source = before ++ [','] ++ [' '] ++ (part.text.toList ++ closing rest) := by
        rw [stands, closing]
        simp
      have read := @read_text source _ _ close part first (ends_closing rest) stands_here
      obtain ⟨last, closes, rounds⟩ :=
        ih later (stands_here.trans (List.append_assoc _ part.text.toList (closing rest)).symm)
      have shorter := read_uniform.ahead_length_le ended read
      dsimp only at shorter
      refine ⟨last, closes, ?_⟩
      rw [closing, Token.visible_comma, Token.visible_blank (by decide)]
      refine .round rfl ?_ ?_ rounds
      · exact (bind_of_ok discard_advance _).trans read
      · simp only [List.length_cons]
        omega

theorem readList_text {parts : List KeyPart} (filled : parts ≠ [])
    (fixed : ∀ part ∈ parts, PartName part.name) :
    readList (.ofText (listText parts)) =
      .ok parts ⟨(listText parts).toList, [], .endOf (listText parts)⟩ := by
  obtain ⟨part, rest, rfl⟩ := List.exists_cons_of_ne_nil filled
  obtain ⟨first, later⟩ := List.forall_mem_cons.mp fixed
  have chars := listText_cons_toList part rest
  rw [show Cursor.ofText (listText (part :: rest)) = ⟨(listText (part :: rest)).toList,
    Token.visible (.ofPrefix []) (listText (part :: rest)).toList, .endOf (listText (part :: rest))⟩
    from rfl]
  generalize listText (part :: rest) = text at chars
  have ended : (Token.endOf text).kind = .endOfInput := rfl
  have read := @read_text text.toList ['('] _ (.endOf text) part first (ends_closing rest) chars
  obtain ⟨last, closes, rounds⟩ := @rounds_closing text.toList (['('] ++ part.text.toList) (.endOf text)
    rest later ended (by simp [chars])
  have opens : (Token.standing [] ['('] .leftParen ['(']).kind = .leftParen := rfl
  have items_read : separated KeyPart.read ⟨text.toList, Token.visible (.ofPrefix ['('])
      (part.text.toList ++ closing rest), .endOf text⟩ =
        .ok (part :: rest) ⟨text.toList, [last], .endOf text⟩ := by
    rw [separated, bind_of_ok read, bind_of_ok rounds.many]
    rfl
  rw [readList, listOf, chars, Token.visible_opening]
  rw [bind_of_ok (discard_of_ok (expect_found opens)), List.nil_append, ← chars,
    bind_of_ok items_read, bind_of_ok (discard_of_ok (expect_found closes))]
  rfl

end KeyPart

end

/-- A key that is accepted somewhere in a text without comments is read from its own text as it is, if
no column in it stands in quotes. -/
theorem KeyPart.readList_listText {text : String} {cursor : Cursor} {parts : List KeyPart}
    (uncommented : Uncommented text.toList) (source : cursor.source = text.toList)
    (ended : cursor.close.kind = .endOfInput)
    (tokens : cursor.ahead <:+: Token.visible .start text.toList)
    (unquoted : ∀ token ∈ Token.direct 0 cursor.ahead, token.kind ≠ .quotedIdentifier)
    (accepted : readList.result cursor = .ok parts) :
    readList.outcome (.ofText (listText parts)) =
      (.ok parts, ⟨(listText parts).toList, [], .endOf (listText parts)⟩) := by
  obtain ⟨after, done⟩ := ok_of_result_ok accepted
  obtain ⟨filled, fixed⟩ := readList_among uncommented source ended tokens unquoted done
  rw [Reading.outcome, readList_text filled fixed]

/-- A call with parentheses and blanks in a string, the longest length, and a name that is a keyword. -/
theorem KeyPart.readList_listText_nested :
    ∃ (text : String) (cursor : Cursor) (parts : List KeyPart),
      text = "CREATE TABLE t (KEY k ((lower(`a`,\n  'x  (y')), b (18446744073709551615)  DESC, date asc))"
        ∧
      cursor = ⟨text.toList, (Token.visible .start text.toList).drop 6, .endOf text⟩ ∧
      parts = [{ name := "(lower(`a`, 'x  (y'))" },
        { name := "b", length := some 18446744073709551615, direction := some .descending },
        { name := "date", direction := some .ascending }] ∧
      readList.result cursor = .ok parts ∧
      readList.outcome (.ofText (listText parts)) =
        (.ok parts, ⟨(listText parts).toList, [], .endOf (listText parts)⟩) := by
  obtain ⟨text, same⟩ : ∃ text, text =
      "CREATE TABLE t (KEY k ((lower(`a`,\n  'x  (y')), b (18446744073709551615)  DESC, date asc))" :=
    ⟨_, rfl⟩
  obtain ⟨parts, parts_same⟩ : ∃ parts : List KeyPart, parts = [{ name := "(lower(`a`, 'x  (y'))" },
      { name := "b", length := some 18446744073709551615, direction := some .descending },
      { name := "date", direction := some .ascending }] := ⟨_, rfl⟩
  have uncommented : Uncommented text.toList := by
    rw [same]
    exact uncommented_of_notMem (by decide) (by decide) (by decide)
  have unquoted : ∀ token ∈ Token.direct 0 ((Token.visible .start text.toList).drop 6),
      token.kind ≠ .quotedIdentifier := by
    rw [same]
    decide +kernel
  have accepted : readList.result
      ⟨text.toList, (Token.visible .start text.toList).drop 6, .endOf text⟩ = .ok parts := by
    rw [same, parts_same]
    decide +kernel
  have read_back := @readList_listText text
    ⟨text.toList, (Token.visible .start text.toList).drop 6, .endOf text⟩ parts uncommented rfl rfl
    (List.drop_suffix 6 _).isInfix unquoted accepted
  exact ⟨text, _, parts, same, rfl, parts_same, accepted, read_back⟩

end SchemaDrift
