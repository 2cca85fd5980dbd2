import SchemaDrift.Dump
import SchemaDrift.Proofs.Independence
import SchemaDrift.Proofs.Seam

/-!
Dumps put one behind the other. A text that ends in a semicolon leaves no statement begun, so the
statements of the joined text are those of the first and then those of the second, moved behind it.
Each is read as it is read in its own text; so the results join, and what a policy makes of them.
-/

namespace SchemaDrift

namespace Statement

/-- Tokens at which a statement that has begun stops, or no tokens at all. -/
def Stops : List Token → Prop
  | [] => True
  | token :: _ => token.kind = .semicolon ∨ token.kind = .keyword .CREATE

theorem Plain.not_stops {token : Token} {inner rest : List Token} (plain : Plain (token :: inner)) :
    ¬Stops (token :: rest) := by
  obtain ⟨no_mark, no_create⟩ := plain token List.mem_cons_self
  rintro (is_mark | is_create)
  · exact no_mark is_mark
  · exact no_create is_create

theorem Plain.split_unique {inner other rest others : List Token} (plain : Plain inner)
    (plain_too : Plain other) (stops : Stops rest) (stops_too : Stops others)
    (same : inner ++ rest = other ++ others) : inner = other ∧ rest = others := by
  induction inner generalizing other with
  | nil =>
      cases other with
      | nil => exact ⟨rfl, same⟩
      | cons token other =>
          rw [List.nil_append, List.cons_append] at same
          exact absurd (same ▸ stops) plain_too.not_stops
  | cons token inner ih =>
      cases other with
      | nil =>
          rw [List.nil_append, List.cons_append] at same
          exact absurd (same ▸ stops_too) plain.not_stops
      | cons first other =>
          obtain ⟨rfl, tails⟩ := List.cons.inj same
          have later := ih (fun other member => plain other (List.mem_cons_of_mem _ member))
            (fun other member => plain_too other (List.mem_cons_of_mem _ member)) tails
          exact ⟨by rw [later.1], later.2⟩

def endAt (finish : Token) (inner : List Token) : List Token → List Token × Token × List Token
  | [] => (inner, finish, [])
  | token :: behind =>
      if token.kind = .semicolon then (inner ++ [token], endAfter token, behind)
      else (inner, endBefore token, token :: behind)

variable {finish close : Token} {tokens behind : List Token}

theorem Ends.endAt (ends : Ends finish tokens close behind) :
    ∃ inner rest, Plain inner ∧ Stops rest ∧ tokens ++ behind = inner ++ rest ∧
      (tokens, close, behind) = Statement.endAt finish inner rest := by
  cases ends with
  | @semicolon inner mark plain is_mark =>
      exact ⟨inner, mark :: behind, plain, .inl is_mark, by simp, by simp [Statement.endAt, is_mark]⟩
  | @create inner next plain is_create behind =>
      exact ⟨tokens, next :: behind, plain, .inr is_create, rfl,
        by simp [Statement.endAt, is_create]⟩
  | finish plain => exact ⟨tokens, [], plain, trivial, rfl, rfl⟩

theorem Cut.unique {end_too : Token} {others behind_too : List Token}
    (cut : Cut finish tokens close behind) (cut_too : Cut finish others end_too behind_too)
    (same : tokens ++ behind = others ++ behind_too) :
    (tokens, close, behind) = (others, end_too, behind_too) := by
  cases cut with
  | alone is_mark =>
      cases cut_too with
      | alone =>
          obtain ⟨rfl, rfl⟩ := List.cons.inj same
          rfl
      | started no_mark =>
          obtain ⟨rfl, -⟩ := List.cons.inj same
          exact absurd is_mark no_mark
  | started no_mark ends =>
      cases cut_too with
      | alone is_mark =>
          obtain ⟨rfl, -⟩ := List.cons.inj same
          exact absurd is_mark no_mark
      | started _ ends_too =>
          simp only [List.cons_append, List.cons.injEq] at same
          obtain ⟨rfl, tails⟩ := same
          obtain ⟨inner, rest, plain, stops, parts, result⟩ := ends.endAt
          obtain ⟨other, others, plain_too, stops_too, parts_too, result_too⟩ := ends_too.endAt
          rw [parts, parts_too] at tails
          obtain ⟨rfl, rfl⟩ := plain.split_unique plain_too stops stops_too tails
          have equal := result.trans result_too.symm
          simp only [Prod.mk.injEq] at equal ⊢
          exact ⟨by rw [equal.1], equal.2⟩

theorem Cuts.unique {source : List Char} {ahead : List Token} {statements others : List Statement}
    (cuts : Cuts source finish ahead statements) (cuts_too : Cuts source finish ahead others) :
    statements = others := by
  induction cuts generalizing others with
  | none =>
      generalize nothing : ([] : List Token) = ahead at cuts_too
      cases cuts_too with
      | none => rfl
      | more cut => exact absurd (List.append_eq_nil_iff.mp nothing.symm).1 cut.nonempty
  | @more tokens behind close statements cut rest ih =>
      generalize whole : tokens ++ behind = ahead at cuts_too
      cases cuts_too with
      | none => exact absurd (List.append_eq_nil_iff.mp whole).1 cut.nonempty
      | more cut_too rest_too =>
          have equal := cut.unique cut_too whole
          simp only [Prod.mk.injEq] at equal
          obtain ⟨rfl, rfl, rfl⟩ := equal
          rw [ih rest_too]

/-- A cut that a semicolon or a CREATE makes stays when more tokens are put behind. -/
theorem Cut.append {finish : Token} (cut : Cut finish tokens close behind) (later : Token)
    (others : List Token)
    (closed : ∃ mark ∈ (tokens ++ behind).getLast?, mark.kind = .semicolon) :
    Cut later tokens close (behind ++ others) := by
  cases cut with
  | alone is_mark => exact .alone is_mark (behind ++ others)
  | @started first _ inner _ no_mark ends =>
      apply Cut.started no_mark
      cases ends with
      | semicolon plain is_mark => exact .semicolon plain is_mark (behind ++ others)
      | create plain is_create behind => exact .create plain is_create (behind ++ others)
      | finish plain =>
          obtain ⟨mark, last, is_mark⟩ := closed
          rw [List.append_nil] at last
          exact absurd is_mark (plain.no_semicolon no_mark mark (List.mem_of_getLast? last))

theorem Cuts.append {source : List Char} {later : Token} {ahead others : List Token}
    {statements following : List Statement} (cuts : Cuts source finish ahead statements)
    (rest : Cuts source later others following)
    (closed : ∀ last ∈ ahead.getLast?, last.kind = .semicolon) :
    Cuts source later (ahead ++ others) (statements ++ following) := by
  induction cuts with
  | none => exact rest
  | @more tokens behind close statements cut tail ih =>
      have whole : tokens ++ behind ≠ [] := by simp [cut.nonempty]
      obtain ⟨mark, last⟩ := Option.ne_none_iff_exists'.mp (mt List.getLast?_eq_none_iff.mp whole)
      have tail_closed : ∀ last ∈ behind.getLast?, last.kind = .semicolon := by
        intro last found
        apply closed last
        simp [List.getLast?_append, Option.mem_def.mp found]
      rw [List.append_assoc]
      exact .more (cut.append later others ⟨mark, last, closed mark last⟩) (ih tail_closed)

/-- Moving tokens moves the ends of statements that are put behind or before them. -/
structure Carries (move : Token → Token) (tokens : List Token) : Prop where
  kind : ∀ token, (move token).kind = token.kind
  before : ∀ token, endBefore (move token) = move (endBefore token)
  after : ∀ token ∈ tokens, endAfter (move token) = move (endAfter token)

theorem id_carries (tokens : List Token) : Carries id tokens :=
  ⟨fun _ => rfl, fun _ => rfl, fun _ _ => rfl⟩

theorem endAfter_relocate (origin : Position) {mark : Token} (counted : mark.position.Counted) :
    endAfter (mark.relocate origin) = (endAfter mark).relocate origin := by
  obtain ⟨_, column⟩ := counted
  have next : (if mark.position.line = 1 then origin.column + (mark.position.column - 1)
        else mark.position.column) + 1 =
      if mark.position.line = 1 then origin.column + (mark.position.column + 1 - 1)
        else mark.position.column + 1 := by
    split <;> omega
  simp [endAfter, Token.relocate, Token.endOfInput, Position.relocate, Span.shift, next]

theorem relocate_carries (origin : Position) {tokens : List Token}
    (counted : ∀ token ∈ tokens, token.position.Counted) :
    Carries (Token.relocate origin) tokens :=
  ⟨fun _ => rfl, fun _ => rfl, fun token member => endAfter_relocate origin (counted token member)⟩

variable {move : Token → Token}

theorem Plain.moved {inner : List Token} (plain : Plain inner)
    (kinds : ∀ token, (move token).kind = token.kind) : Plain (inner.map move) := by
  intro token member
  obtain ⟨other, present, rfl⟩ := List.mem_map.mp member
  rw [kinds other]
  exact plain other present

theorem Ends.moved (ends : Ends finish tokens close behind)
    (carries : Carries move (tokens ++ behind)) :
    Ends (move finish) (tokens.map move) (move close) (behind.map move) := by
  have kinds := carries.kind
  cases ends with
  | @semicolon inner mark plain is_mark =>
      rw [← carries.after mark (by simp), List.map_append]
      exact .semicolon (plain.moved kinds) ((kinds mark).trans is_mark) _
  | @create inner next plain is_create behind =>
      rw [← carries.before]
      exact .create (plain.moved kinds) ((kinds next).trans is_create) _
  | finish plain => exact .finish (plain.moved kinds)

theorem Cut.moved (cut : Cut finish tokens close behind)
    (carries : Carries move (tokens ++ behind)) :
    Cut (move finish) (tokens.map move) (move close) (behind.map move) := by
  have kinds := carries.kind
  cases cut with
  | @alone mark is_mark =>
      rw [← carries.after mark (by simp)]
      exact .alone ((kinds mark).trans is_mark) _
  | @started first _ tokens _ no_mark ends =>
      rw [List.map_cons]
      apply Cut.started (by rwa [kinds])
      apply ends.moved
      exact ⟨kinds, carries.before, fun token member => carries.after token (List.mem_cons_of_mem _ member)⟩

def moved (source : List Char) (move : Token → Token) (statement : Statement) : Statement :=
  ⟨source, statement.tokens.map move, move statement.close⟩

theorem Cuts.moved {source : List Char} {ahead : List Token} {statements : List Statement}
    (cuts : Cuts source finish ahead statements) (carries : Carries move ahead) (other : List Char) :
    Cuts other (move finish) (ahead.map move) (statements.map (Statement.moved other move)) := by
  induction cuts with
  | none => exact .none
  | more cut rest ih =>
      rw [List.map_append]
      apply Cuts.more (cut.moved carries)
      apply ih
      exact ⟨carries.kind, carries.before,
        fun token member => carries.after token (List.mem_append_right _ member)⟩

/-- The statements of a text that ends in a semicolon, and those of a text behind it, are the
statements of the joined text. -/
theorem ofText_append {first : String} (ends : Token.EndsInSemicolon first) (second : String) :
    ofText (first ++ second) =
      (ofText first).map (moved (first ++ second).toList id) ++
        (ofText second).map
          (moved (first ++ second).toList (Token.relocate (Position.ofPrefix first.toList))) := by
  let origin := Position.ofPrefix first.toList
  let source := (first ++ second).toList
  have joined := Splitter.ofText_cuts (first ++ second)
  have front : Cuts source (Token.endOf first) (Token.visible .start first.toList)
      ((ofText first).map (moved source id)) := by
    have same := (Splitter.ofText_cuts first).moved (id_carries _) source
    rwa [List.map_id] at same
  have back : Cuts source ((Token.endOf second).relocate origin)
      ((Token.visible .start second.toList).map (Token.relocate origin))
      ((ofText second).map (moved source (Token.relocate origin))) := by
    apply (Splitter.ofText_cuts second).moved
    apply relocate_carries origin
    intro token member
    exact Token.scan_counted Position.start_counted (List.mem_of_mem_filter member)
  have tokens : Token.visible .start source =
      Token.visible .start first.toList ++
        (Token.visible .start second.toList).map (Token.relocate origin) := by
    rw [← ends.visible_append, ← String.toList_append]
  apply joined.unique
  have whole := front.append back ends.visible_last
  rw [← tokens, ← endOf_append] at whole
  exact whole

theorem ofText_fits {text : String} {statement : Statement} (member : statement ∈ ofText text) :
    ∀ token ∈ statement.tokens,
      token.span.start ≤ token.span.stop ∧ token.span.stop ≤ String.utf8Len text.toList := by
  intro token own
  exact Token.visible_span_le (mem_visible member own)

end Statement

namespace Table

/-- A statement whose tokens lie in a part of a text is read from the text as from the part. -/
theorem ofStatement_moved {move : Token → Token} {before inside : List Char} (behind : List Char)
    (moves : Token.Moves before move) {statement : Statement} (source : statement.source = inside)
    (fits : ∀ token ∈ statement.tokens,
      token.span.start ≤ token.span.stop ∧ token.span.stop ≤ String.utf8Len inside)
    (ended : statement.close.kind = .endOfInput) :
    ofStatement (statement.moved (before ++ inside ++ behind) move) =
      (ofStatement statement).mapError fun error => { error with found := move error.found } := by
  have alike := Twins.moved_alike moves behind fits ended
  have step := Table.read_uniform.result alike move fun _ _ moved => moved
  have on_left : (Twins.moved move before inside behind statement.tokens statement.close).left =
      .ofStatement (statement.moved (before ++ inside ++ behind) move) := by
    simp [Twins.left, Twins.moved, Cursor.ofStatement, Statement.moved]
  have on_right : (Twins.moved move before inside behind statement.tokens statement.close).right =
      .ofStatement statement := by
    simp [Twins.right, Twins.moved, Cursor.ofStatement, source, Function.comp_def]
  rwa [on_left, on_right] at step

end Table

namespace Dump

theorem isCreateTable_moved {move : Token → Token}
    (kinds : ∀ token, (move token).kind = token.kind) (source : List Char) (statement : Statement) :
    (statement.moved source move).isCreateTable = statement.isCreateTable := by
  have keywords : (statement.tokens.map move).map Token.keyword? =
      statement.tokens.map Token.keyword? := by
    rw [List.map_map]
    apply List.map_congr_left
    intro token _
    simp only [Function.comp_apply, Token.keyword?, kinds token]
  simp only [Statement.isCreateTable, Statement.moved, keywords]

theorem results_moved {move : Token → Token} {before : List Char} (moves : Token.Moves before move)
    (text : String) (behind : List Char) :
    (((Statement.ofText text).map (Statement.moved (before ++ text.toList ++ behind) move)).filter
          Statement.isCreateTable).map Table.ofStatement =
      (results text).map
        (Except.mapError fun error => { error with found := move error.found }) := by
  have tests : Statement.isCreateTable ∘ Statement.moved (before ++ text.toList ++ behind) move =
      Statement.isCreateTable :=
    funext (isCreateTable_moved moves.kind _)
  rw [results, List.filter_map, tests, List.map_map, List.map_map]
  apply List.map_congr_left
  intro statement chosen
  have member := List.mem_of_mem_filter chosen
  obtain ⟨_, _, _, _, source, _, close⟩ := Statement.ofText_part member
  exact Table.ofStatement_moved behind moves source (Statement.ofText_fits member) (by rw [close]; rfl)

theorem results_append {first : String} (ends : Token.EndsInSemicolon first) (second : String) :
    results (first ++ second) =
      results first ++
        (results second).map
          (Except.mapError (SyntaxError.relocate (Position.ofPrefix first.toList))) := by
  have front := results_moved Token.id_moves first second.toList
  have back := results_moved (Token.relocate_moves first.toList) second []
  have unmoved : (Except.mapError fun error : SyntaxError =>
      { error with found := id error.found }) = (id : Except SyntaxError Table → _) := by
    funext result
    cases result <;> rfl
  rw [unmoved, List.map_id, List.nil_append, ← String.toList_append] at front
  rw [List.append_nil, ← String.toList_append] at back
  rw [results, Statement.ofText_append ends, List.filter_append, List.map_append, front, back]
  rfl

theorem collect_skip (results : List (Except SyntaxError Table)) :
    collect .skip results = .ok (results.filterMap Except.toOption) := by
  induction results with
  | nil => rfl
  | cons result rest ih =>
      cases result with
      | ok table => simp [collect, ih, Except.map, Except.toOption]
      | error error => simp only [collect, ih, List.filterMap_cons, Except.toOption]

theorem collect_abort_append (results others : List (Except SyntaxError Table)) :
    collect .abort (results ++ others) = do
      let tables ← collect .abort results
      let more ← collect .abort others
      return tables ++ more := by
  induction results with
  | nil =>
      rw [List.nil_append]
      cases collect .abort others <;> rfl
  | cons result rest ih =>
      cases result with
      | error error => rfl
      | ok table =>
          rw [List.cons_append, collect, ih, collect]
          cases collect .abort rest with
          | error error => rfl
          | ok tables => cases collect .abort others <;> rfl

theorem collect_abort_mapError (move : SyntaxError → SyntaxError)
    (results : List (Except SyntaxError Table)) :
    collect .abort (results.map (Except.mapError move)) =
      (collect .abort results).mapError move := by
  induction results with
  | nil => rfl
  | cons result rest ih =>
      cases result with
      | error error => rfl
      | ok table =>
          rw [List.map_cons, Except.mapError, collect, ih, collect]
          cases collect .abort rest <;> rfl

/-- Reading two dumps put one behind the other, the first of which ends in a semicolon, is reading
one and then the other. Tables are the same, and errors of the second are moved behind the first. -/
theorem reads_append (first second : String) (ends : Token.EndsInSemicolon first) :
    results (first ++ second) =
        results first ++
          (results second).map
            (Except.mapError (SyntaxError.relocate (Position.ofPrefix first.toList))) ∧
      (∃ some_tables more, tables .skip first = .ok some_tables ∧ tables .skip second = .ok more ∧
        tables .skip (first ++ second) = .ok (some_tables ++ more)) ∧
      tables .abort (first ++ second) = do
        let some_tables ← tables .abort first
        let more ← (tables .abort second).mapError
          (SyntaxError.relocate (Position.ofPrefix first.toList))
        return some_tables ++ more := by
  have joined := results_append ends second
  refine ⟨joined, ⟨_, _, collect_skip _, collect_skip _, ?_⟩, ?_⟩
  · rw [tables, joined, collect_skip, List.filterMap_append, List.filterMap_map]
    congr 3
    funext result
    cases result <;> rfl
  · rw [tables, joined, collect_abort_append, collect_abort_mapError]
    rfl

theorem reads_append_second_fails :
    Token.EndsInSemicolon "CREATE TABLE t (a INT);" ∧
      tables .abort ("CREATE TABLE t (a INT);" ++ "\nCREATE TABLE u (a)") =
        .error ⟨.dataType, ⟨.rightParen, ")", ⟨41, 42⟩, ⟨41, 2, 18⟩⟩⟩ := by
  have ends : Token.EndsInSemicolon "CREATE TABLE t (a INT);" := by
    rw [Token.EndsInSemicolon]
    decide +kernel
  have first_read : (tables .abort "CREATE TABLE t (a INT);").toBool = true := by decide +kernel
  have second_fails : tables .abort "\nCREATE TABLE u (a)" =
      .error ⟨.dataType, ⟨.rightParen, ")", ⟨18, 19⟩, ⟨18, 2, 18⟩⟩⟩ := by
    decide +kernel
  have moved : SyntaxError.relocate (Position.ofPrefix "CREATE TABLE t (a INT);".toList)
        ⟨.dataType, ⟨.rightParen, ")", ⟨18, 19⟩, ⟨18, 2, 18⟩⟩⟩ =
      ⟨.dataType, ⟨.rightParen, ")", ⟨41, 42⟩, ⟨41, 2, 18⟩⟩⟩ := by
    decide +kernel
  have joined := (reads_append _ "\nCREATE TABLE u (a)" ends).2.2
  rw [second_fails] at joined
  refine ⟨ends, joined.trans ?_⟩
  cases outcome : tables .abort "CREATE TABLE t (a INT);" with
  | error error => simp [outcome, Except.toBool] at first_read
  | ok some_tables => exact congrArg Except.error moved

end Dump

end SchemaDrift
