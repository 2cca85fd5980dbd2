import SchemaDrift.Proofs.Excerpt
import SchemaDrift.Proofs.Uniform

/-!
A statement means the same wherever it stands. Reading it inside a dump and reading its own part of
the text alone keep in step, the tokens of the one being those of the other moved; so the table is
the same, and an error is the same one moved. A statement that does not start like a table's
definition is none.
-/

namespace SchemaDrift

open Reading

namespace Token

theorem scan_span_le {chars : List Char} {token : Token} (member : token ∈ scan .start chars) :
    token.span.start ≤ token.span.stop ∧ token.span.stop ≤ String.utf8Len chars := by
  obtain ⟨before, c, rest, stands⟩ := scan_mem_stands member
  obtain ⟨_, _, span⟩ := ofPiece_eq_some stands.piece
  have parts : chars = before ++ ((Piece.front c rest).written ++ (Piece.front c rest).rest) := by
    rw [Piece.front_append, stands.text]
  have whole := congrArg String.utf8Len parts
  simp only [String.utf8Len_append] at whole
  have start : (Position.start.advance before).offset = String.utf8Len before := by
    rw [Position.start_advance, Position.ofPrefix]
  rw [span, Position.advance_offset (Position.start.advance before), start]
  dsimp only
  omega

theorem visible_span_le {chars : List Char} {token : Token}
    (member : token ∈ visible .start chars) :
    token.span.start ≤ token.span.stop ∧ token.span.stop ≤ String.utf8Len chars :=
  scan_span_le (List.mem_of_mem_filter member)

/-- Moving tokens of a text to where they stand when `before` comes in front of it. -/
structure Moves (before : List Char) (move : Token → Token) : Prop where
  kind : ∀ token, (move token).kind = token.kind
  text : ∀ token, (move token).text = token.text
  span : ∀ token, (move token).span = token.span.shift (String.utf8Len before)

theorem relocate_moves (before : List Char) : Moves before (relocate (Position.ofPrefix before)) :=
  ⟨fun _ => rfl, fun _ => rfl, fun _ => rfl⟩

theorem id_moves : Moves [] id :=
  ⟨fun _ => rfl, fun _ => rfl, fun token => by simp [Span.shift]⟩

end Token

namespace Twins

def moved (move : Token → Token) (before inside behind : List Char) (tokens : List Token)
    (close : Token) : Twins where
  source := (before ++ inside ++ behind, inside)
  ahead := tokens.map fun token => (move token, token)
  close := (move close, close)

/-- A part of a text inside the text, and alone. -/
def ofPart (before inside behind : List Char) : Twins where
  source := (before ++ inside ++ behind, inside)
  ahead := (Token.visible .start inside).map fun token =>
    (token.relocate (Position.ofPrefix before), token)
  close :=
    ((Token.endOf (.ofList inside)).relocate (Position.ofPrefix before),
      Token.endOf (.ofList inside))

def Moved (before : List Char) (first second : Token) : Prop :=
  first = second.relocate (Position.ofPrefix before)

section Moved

variable {move : Token → Token} {before inside : List Char} {tokens : List Token} {close : Token}
  (moves : Token.Moves before move) (behind : List Char)
  (fits : ∀ token ∈ tokens,
    token.span.start ≤ token.span.stop ∧ token.span.stop ≤ String.utf8Len inside)
include moves fits

theorem moved_mem {pair : Token × Token}
    (member : pair ∈ (moved move before inside behind tokens close).ahead) :
    pair.1.span = pair.2.span.shift (String.utf8Len before) ∧
      pair.2.span.start ≤ pair.2.span.stop ∧ pair.2.span.stop ≤ String.utf8Len inside := by
  obtain ⟨token, present, rfl⟩ := List.mem_map.mp member
  exact ⟨moves.span token, fits token present⟩

omit moves fits in
theorem moved_slice {start stop : Nat} (inner : stop ≤ String.utf8Len inside) :
    (moved move before inside behind tokens close).left.slice (String.utf8Len before + start)
        (String.utf8Len before + stop) =
      (moved move before inside behind tokens close).right.slice start stop :=
  Span.text_shift before inside behind ⟨start, stop⟩ inner

theorem moved_alike (ended : close.kind = .endOfInput) :
    (moved move before inside behind tokens close).Alike fun first second =>
      first = move second where
  like pair member := by
    rcases List.mem_cons.mp member with rfl | later
    · exact ⟨moves.kind close, moves.text close, rfl⟩
    · obtain ⟨token, _, rfl⟩ := List.mem_map.mp later
      exact ⟨moves.kind token, moves.text token, rfl⟩
  ended := (moves.kind close).trans ended
  spaced := by
    refine List.pairwise_of_forall_mem_list fun first member second also => ?_
    obtain ⟨shifted, _⟩ := moved_mem moves behind fits member
    obtain ⟨shifted_too, forward, inner⟩ := moved_mem moves behind fits also
    rw [shifted, shifted_too]
    exact congrArg Text.normalizeSpacing (moved_slice behind (Nat.le_trans forward inner))
  touching := by
    refine (List.pairwise_of_forall_mem_list fun first member second also => ?_).isChain
    rw [(moved_mem moves behind fits member).1, (moved_mem moves behind fits also).1]
    exact Nat.add_right_inj
  joined first rest inner _ := by
    have last : rest.getLastD first ∈ first :: rest := List.getLastD_mem_cons
    obtain ⟨shifted, _⟩ := moved_mem moves behind fits (inner.subset List.mem_cons_self)
    obtain ⟨shifted_too, _, inside⟩ := moved_mem moves behind fits (inner.subset last)
    rw [shifted, shifted_too]
    exact moved_slice behind inside
  introduced := by
    refine (List.pairwise_of_forall_mem_list fun first member second also => ?_).isChain
    obtain ⟨shifted, _⟩ := moved_mem moves behind fits member
    obtain ⟨shifted_too, _, inner⟩ := moved_mem moves behind fits also
    intro _ _
    rw [shifted, shifted_too]
    exact moved_slice behind inner

end Moved

theorem ofPart_alike (before inside behind : List Char) :
    (ofPart before inside behind).Alike (Moved before) :=
  moved_alike (Token.relocate_moves before) behind (fun _ => Token.visible_span_le) rfl

end Twins

namespace Reading

variable {α : Type}

/-- A reading that keeps in step gives twins results that differ by the mark on the tokens they
complain about. -/
theorem Uniform.result {reading : Reading α} (uniform : Uniform reading)
    {mark : Token → Token → Prop} {twins : Twins} (alike : twins.Alike mark) (move : Token → Token)
    (moved : ∀ first second, mark first second → first = move second) :
    reading.result twins.left = (reading.result twins.right).mapError fun error =>
      { error with found := move error.found } := by
  have results := uniform mark twins alike
  simp only [Reading.result, Reading.outcome]
  generalize reading twins.left = left at results
  generalize reading twins.right = right at results
  cases results with
  | ok count values => exact congrArg Except.ok values
  | error count expected like =>
      rw [moved _ _ like.marked]
      rfl

end Reading

theorem Reading.sees_of_expectWord_ok {word : Keyword} {cursor after : Cursor} {value : Unit}
    (done : expectWord word cursor = .ok value after) :
    cursor.seesWord word = true ∧ after = cursor.next := by
  obtain ⟨token, middle, expected, discarded⟩ := ok_of_bind_ok done
  simp only [expect] at expected
  split at expected
  next sees =>
    obtain ⟨-, rfl⟩ := EStateM.Result.ok.inj expected
    exact ⟨sees, (EStateM.Result.ok.inj discarded).2.symm⟩
  next => simp at expected

theorem Reading.eatWord_eq (word : Keyword) (cursor : Cursor) :
    eatWord word cursor =
      if cursor.seesWord word then .ok true cursor.next else .ok false cursor := rfl

theorem TableHeading.read_ok {cursor after : Cursor} {heading : TableHeading}
    (done : read cursor = .ok heading after) :
    cursor.seesWord .CREATE = true ∧ (cursor.next.seesWord .TABLE = true ∨
      cursor.next.seesWord .TEMPORARY = true ∧ cursor.next.next.seesWord .TABLE = true) := by
  unfold read at done
  obtain ⟨_, first, create, done⟩ := ok_of_bind_ok done
  obtain ⟨sees_create, rfl⟩ := Reading.sees_of_expectWord_ok create
  obtain ⟨temporary, second, eaten, done⟩ := ok_of_bind_ok done
  obtain ⟨_, third, table, done⟩ := ok_of_bind_ok done
  obtain ⟨sees_table, _⟩ := Reading.sees_of_expectWord_ok table
  rw [Reading.eatWord_eq] at eaten
  split at eaten
  next sees_temporary =>
    obtain ⟨-, rfl⟩ := EStateM.Result.ok.inj eaten
    exact ⟨sees_create, .inr ⟨sees_temporary, sees_table⟩⟩
  next =>
    obtain ⟨-, rfl⟩ := EStateM.Result.ok.inj eaten
    exact ⟨sees_create, .inl sees_table⟩

namespace Statement

theorem seesWord_ahead (cursor : Cursor) {word : Keyword} (ended : cursor.close.kind = .endOfInput)
    (sees : cursor.seesWord word = true) :
    ∃ token rest, cursor.ahead = token :: rest ∧ token.keyword? = some word := by
  simp only [Cursor.seesWord, Cursor.sees, Cursor.current, beq_iff_eq] at sees
  cases ahead : cursor.ahead with
  | nil => simp [ahead, ended] at sees
  | cons token rest =>
      rw [ahead, List.headD_cons] at sees
      exact ⟨token, rest, rfl, by simp [Token.keyword?, sees]⟩

theorem isCreateTable_of_ok {statement : Statement} {table : Table}
    (ended : statement.close.kind = .endOfInput) (done : Table.ofStatement statement = .ok table) :
    statement.isCreateTable = true := by
  obtain ⟨heading, after, read⟩ : ∃ heading after,
      TableHeading.read (.ofStatement statement) = .ok heading after := by
    simp only [Table.ofStatement, Reading.result, Reading.outcome] at done
    split at done
    next value after read =>
      obtain ⟨heading, middle, start, _⟩ := ok_of_bind_ok read
      exact ⟨heading, middle, start⟩
    next => simp at done
  obtain ⟨create, table_word⟩ := TableHeading.read_ok read
  obtain ⟨first, others, tokens, is_create⟩ := seesWord_ahead (.ofStatement statement) ended create
  have own : statement.tokens = first :: others := tokens
  have behind : (Cursor.ofStatement statement).next.ahead = others := by
    rw [Cursor.next, tokens, List.tail_cons]
  rcases table_word with table_word | ⟨temporary, table_word⟩
  · obtain ⟨second, rest, tokens, is_table⟩ :=
      seesWord_ahead (Cursor.ofStatement statement).next ended table_word
    rw [behind] at tokens
    simp [isCreateTable, own, tokens, is_create, is_table]
  · obtain ⟨second, more, tokens, is_temporary⟩ :=
      seesWord_ahead (Cursor.ofStatement statement).next ended temporary
    obtain ⟨third, rest, later, is_table⟩ :=
      seesWord_ahead (Cursor.ofStatement statement).next.next ended table_word
    have second_behind : (Cursor.ofStatement statement).next.next.ahead = more := by
      rw [Cursor.next, tokens, List.tail_cons]
    rw [second_behind] at later
    rw [behind] at tokens
    simp [isCreateTable, own, tokens, later, is_create, is_temporary, is_table]

end Statement

/-- Every statement of a text is read as its own part of the text is alone: the same table, or the
same error moved to where the part starts. One that does not start with CREATE TABLE or CREATE
TEMPORARY TABLE gives an error. -/
theorem Table.ofStatement_eq_parse (text : String) (statement : Statement)
    (member : statement ∈ Statement.ofText text) :
    ∃ before inside behind, statement.Occupies text before inside behind ∧
      Table.ofStatement statement =
      (Table.parse (.ofList inside)).mapError (SyntaxError.relocate (Position.ofPrefix before)) ∧
      (statement.isCreateTable = false → ∃ error, Table.ofStatement statement = .error error) := by
  obtain ⟨before, inside, behind, occupies, source, tokens, close⟩ := Statement.ofText_part member
  refine ⟨before, inside, behind, occupies, ?_, ?_⟩
  · have on_left : (Twins.ofPart before inside behind).left = .ofStatement statement := by
      rw [Twins.left, Cursor.ofStatement, source, occupies.parts, tokens, close]
      simp [Twins.ofPart]
    have on_right : (Twins.ofPart before inside behind).right = .ofText (.ofList inside) := by
      simp [Twins.right, Twins.ofPart, Cursor.ofText, Token.visible, Token.scanText,
        Function.comp_def]
    have step := Table.read_uniform.result (Twins.ofPart_alike before inside behind)
      (Token.relocate (Position.ofPrefix before)) fun _ _ moved => moved
    rw [on_left, on_right] at step
    exact step
  · intro not_create
    have ended : statement.close.kind = .endOfInput := by rw [close]; rfl
    cases outcome : Table.ofStatement statement with
    | error error => exact ⟨error, rfl⟩
    | ok table =>
        have is_create := Statement.isCreateTable_of_ok ended outcome
        rw [not_create] at is_create
        exact absurd is_create (by simp)

theorem Table.ofStatement_eq_parse_second :
    ∃ statement, (Statement.ofText "DROP x;\nCREATE TABLE t (\n a);")[1]? = some statement ∧
      statement.isCreateTable = true ∧
      ∃ before inside behind,
        statement.Occupies "DROP x;\nCREATE TABLE t (\n a);" before inside behind ∧
        Table.ofStatement statement =
          (Table.parse (.ofList inside)).mapError
            (SyntaxError.relocate (Position.ofPrefix before)) ∧
        (statement.isCreateTable = false →
          ∃ error, Table.ofStatement statement = .error error) := by
  have found :
      (Statement.ofText "DROP x;\nCREATE TABLE t (\n a);")[1]?.map Statement.isCreateTable =
        some true := by
    decide +kernel
  obtain ⟨statement, second, is_create⟩ := Option.map_eq_some_iff.mp found
  have member := List.mem_of_getElem? second
  exact ⟨statement, second, is_create, Table.ofStatement_eq_parse _ statement member⟩

end SchemaDrift
