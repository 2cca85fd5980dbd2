import SchemaDrift.Dump
import SchemaDrift.Proofs.Independence

/-! What a syntax error points at. A reader complains about a token that it was given or about the end behind them,
never about a token of its own making; and of these it is known where they stand in the text, whether the text is read
as a whole or cut into statements first. -/

namespace SchemaDrift

/-! Complaints name given tokens. -/

theorem Twins.Alike.remark {mark other : Token → Token → Prop} {twins : Twins} (alike : twins.Alike mark)
    (marked : ∀ pair ∈ twins.close :: twins.ahead, other pair.1 pair.2) : twins.Alike other :=
  { alike with like := fun pair member =>
      ⟨(alike.like pair member).kind, (alike.like pair member).text, marked pair member⟩ }

/-- A reader that cannot tell twins apart has no token of its own, so the one that it complains about was given to it.
-/
theorem Reading.Uniform.found_mem {α : Type} {reading : Reading α} (uniform : Uniform reading) {cursor : Cursor}
    (ended : cursor.close.kind = .endOfInput) {error : SyntaxError} (failed : reading.result cursor = .error error) :
    error.found ∈ cursor.close :: cursor.ahead := by
  -- The cursor is put beside itself; what its tokens are marked with is only that they were given.
  have given : cursor.twins.Alike fun first _ => first ∈ cursor.close :: cursor.ahead := by
    apply (cursor.twins_alike ended).remark
    intro pair member
    have left := List.mem_map_of_mem (f := Prod.fst) member
    rw [List.map_cons] at left
    have same : cursor.twins.ahead.map Prod.fst = cursor.ahead := congrArg Cursor.ahead cursor.twins_left
    rwa [same] at left
  have results := uniform _ cursor.twins given
  rw [cursor.twins_left] at results
  generalize reading cursor.twins.right = beside at results
  cases outcome : reading cursor with
  | ok value after => simp [Reading.result, Reading.outcome, outcome] at failed
  | error other after =>
      have same : other = error := by simpa [Reading.result, Reading.outcome, outcome] using failed
      rw [outcome] at results
      cases results with
      | error count expected like => exact same ▸ like.marked

/-! Where the tokens of a text stand. -/

/-- The position of the token is the start of its span, and its line and column are told by the characters of the
text before it. -/
structure Token.Located (text : String) (token : Token) : Prop where
  offset : token.position.offset = token.span.start
  place : ∃ before behind, text.toList = before ++ behind ∧ String.utf8Len before = token.span.start ∧
    token.position = Position.ofPrefix before

theorem Token.located_of_mem {text : String} {token : Token} (member : token ∈ scanText text) :
    token.Located text := by
  obtain ⟨before, c, rest, stands⟩ := scan_mem_stands member
  obtain ⟨_, position, _⟩ := ofPiece_eq_some stands.piece
  rw [Position.start_advance] at position
  constructor
  · rw [position, stands.span]
    rfl
  · exact ⟨before, c :: rest, stands.text, by rw [stands.span], position⟩

theorem Token.EndsAt.located {text : String} {offset : Nat} {close : Token} (ends : EndsAt text offset close) :
    close.Located text := by
  obtain ⟨before, behind, parts, length, rfl⟩ := ends
  constructor
  · exact length
  · exact ⟨before, behind, parts, length, rfl⟩

namespace Statement

variable {text : String} {statement : Statement}

theorem span_within (member : statement ∈ ofText text) {token : Token}
    (given : token ∈ statement.close :: statement.tokens) :
    statement.first.span.start ≤ token.span.start ∧ token.span.stop ≤ statement.close.span.start := by
  obtain ⟨before, inside, behind, occupies, _, tokens, close⟩ := ofText_part member
  rw [occupies.starts, occupies.stops]
  rcases List.mem_cons.mp given with rfl | own
  · have empty : statement.close.span.stop = statement.close.span.start := by
      rw [close]
      rfl
    rw [empty, occupies.stops]
    omega
  · rw [tokens] at own
    obtain ⟨alone, present, rfl⟩ := List.mem_map.mp own
    have bounds := Token.visible_span_le present
    simp only [Token.relocate, Span.shift, Position.ofPrefix]
    omega

end Statement

/-- The error is about a token of the statement, or about the end that closes it; the token stands where it says, from
the start of the first token of the statement to the end of the statement on. -/
structure SyntaxError.PointsInto (text : String) (statement : Statement) (stop : Nat) (error : SyntaxError) :
    Prop where
  found : error.found ∈ statement.tokens ∧ error.found ∈ Token.ofText text ∧ error.found.isDirective = false ∨
    error.found = statement.close
  located : error.found.Located text
  starts : statement.first.span.start ≤ error.found.span.start
  stops : error.found.span.stop ≤ stop

theorem Table.parse_error {text : String} {error : SyntaxError} (failed : Table.parse text = .error error) :
    error.found ∈ Token.ofText text ∧ error.found.isDirective = false ∧ error.found.Located text := by
  have given : error.found ∈ (Cursor.ofText text).close :: (Cursor.ofText text).ahead :=
    Table.read_uniform.found_mem rfl failed
  rcases List.mem_cons.mp given with close | ahead
  · rw [close]
    refine ⟨?_, rfl, (Token.endOf_endsAt text).located⟩
    exact List.mem_append_right _ (List.mem_singleton.mpr rfl)
  · obtain ⟨scanned, seen⟩ := List.mem_filter.mp ahead
    exact ⟨List.mem_append_left _ scanned, by simpa using seen, Token.located_of_mem scanned⟩

theorem Table.ofStatement_error {text : String} {index : Nat} {statement : Statement}
    (here : (Statement.ofText text)[index]? = some statement) {error : SyntaxError}
    (failed : Table.ofStatement statement = .error error) :
    error.PointsInto text statement (statement.stop text (Statement.ofText text)[index + 1]?) := by
  have member := List.mem_of_getElem? here
  obtain ⟨before, behind, tokens, _, cut, next⟩ := (Splitter.ofText_cuts text).getElem? here
  have wellCut := cut.wellCut tokens next
  have ended : statement.close.kind = .endOfInput := by simpa [Token.isEnd] using wellCut.last_end
  have given : error.found ∈ statement.close :: statement.tokens := Table.read_uniform.found_mem ended failed
  obtain ⟨starts, stops⟩ := Statement.span_within member given
  have stop : statement.close.span.start = statement.stop text (Statement.ofText text)[index + 1]? := by
    obtain ⟨_, _, _, _, same⟩ := wellCut.closed
    rw [same]
    rfl
  rcases List.mem_cons.mp given with close | own
  · exact ⟨.inr close, close ▸ wellCut.closed.located, starts, stop ▸ stops⟩
  · obtain ⟨scanned, seen⟩ := List.mem_filter.mp (Statement.mem_visible member own)
    exact ⟨.inl ⟨own, List.mem_append_left _ scanned, by simpa using seen⟩, Token.located_of_mem scanned, starts,
      stop ▸ stops⟩

/-- Every syntax error points at a real place: at a token of the text that is no directive, or at the end that closes
what is read, where it stands in the text; and in a dump at a place inside the statement that fails. -/
theorem SyntaxError.points_at_source (text : String) :
    (∀ error, Table.parse text = .error error →
      error.found ∈ Token.ofText text ∧ error.found.isDirective = false ∧ error.found.Located text) ∧
    ∀ error, .error error ∈ Dump.results text →
      ∃ (index : Nat) (statement : Statement), (Statement.ofText text)[index]? = some statement ∧
        statement.isCreateTable = true ∧ Table.ofStatement statement = .error error ∧
        error.PointsInto text statement (statement.stop text (Statement.ofText text)[index + 1]?) := by
  constructor
  · intro error failed
    exact Table.parse_error failed
  · intro error yielded
    obtain ⟨statement, kept, failed⟩ := List.mem_map.mp yielded
    obtain ⟨member, is_create⟩ := List.mem_filter.mp kept
    obtain ⟨index, here⟩ := List.getElem?_of_mem member
    exact ⟨index, statement, here, is_create, failed, Table.ofStatement_error here failed⟩

/-- In `a)` a type is missing, and in the second statement of a dump there is no list at all. -/
theorem SyntaxError.points_at_source_missing_type :
    (∃ error, Table.parse "CREATE TABLE t (\n a);" = .error error ∧
      error.found ∈ Token.ofText "CREATE TABLE t (\n a);" ∧ error.found.isDirective = false ∧
      error.found.Located "CREATE TABLE t (\n a);") ∧
    ∃ error, .error error ∈ Dump.results "DROP x;\nCREATE TABLE t" ∧
      ∃ (index : Nat) (statement : Statement),
        (Statement.ofText "DROP x;\nCREATE TABLE t")[index]? = some statement ∧
        statement.isCreateTable = true ∧ Table.ofStatement statement = .error error ∧
        error.PointsInto "DROP x;\nCREATE TABLE t" statement
          (statement.stop "DROP x;\nCREATE TABLE t" (Statement.ofText "DROP x;\nCREATE TABLE t")[index + 1]?) := by
  have failed : Table.parse "CREATE TABLE t (\n a);" =
      .error ⟨.dataType, ⟨.rightParen, ")", ⟨19, 20⟩, ⟨19, 2, 3⟩⟩⟩ := by
    decide +kernel
  have yielded : Dump.results "DROP x;\nCREATE TABLE t" =
      [.error ⟨.token .leftParen, ⟨.endOfInput, "", ⟨22, 22⟩, ⟨22, 2, 15⟩⟩⟩] := by
    decide +kernel
  constructor
  · exact ⟨_, failed, (points_at_source _).1 _ failed⟩
  · exact ⟨_, by rw [yielded]; exact List.mem_singleton.mpr rfl,
      (points_at_source _).2 _ (by rw [yielded]; exact List.mem_singleton.mpr rfl)⟩

end SchemaDrift
