import SchemaDrift.Proofs.Calls

/-!
The statements of a text. Together they hold the text's tokens, each once and in order; every one is
closed where its semicolon, the next statement or the text itself says, at the true place; and the
splitter hands them out one a call.
-/

namespace SchemaDrift

namespace Token

/-- Is `close` the end of input that belongs at the offset of `text`, a character boundary? -/
def EndsAt (text : String) (offset : Nat) (close : Token) : Prop :=
  ∃ before behind, text.toList = before ++ behind ∧ String.utf8Len before = offset ∧
    close = endOfInput offset (Position.ofPrefix before)

variable {text : String} {token : Token}

theorem endBefore_endsAt (member : token ∈ scanText text) :
    EndsAt text token.span.start (Statement.endBefore token) := by
  obtain ⟨before, c, rest, stands⟩ := scan_mem_stands member
  obtain ⟨_, position, span⟩ := ofPiece_eq_some stands.piece
  rw [Position.start_advance] at position span
  refine ⟨before, c :: rest, stands.text, by rw [span]; rfl, ?_⟩
  rw [Statement.endBefore, position]

theorem endAfter_endsAt (member : token ∈ scanText text) (is_mark : token.kind = .semicolon) :
    EndsAt text token.span.stop (Statement.endAfter token) := by
  obtain ⟨before, c, rest, stands⟩ := scan_mem_stands member
  obtain ⟨kind, position, span⟩ := ofPiece_eq_some stands.piece
  obtain ⟨rfl, piece⟩ := Piece.front_of_semicolon (kind.trans (congrArg some is_mark))
  rw [piece, Position.start_advance] at span
  rw [Position.start_advance] at position
  have place : Position.ofPrefix (before ++ [';']) = (Position.ofPrefix before).after ';' :=
    Position.ofPrefix_concat before ';'
  have stop : token.span.stop = String.utf8Len (before ++ [';']) := by
    rw [span]
    exact congrArg Position.offset place.symm
  refine ⟨before ++ [';'], rest, by simp [stands.text], stop.symm, ?_⟩
  -- a semicolon is no newline, so its line goes on
  rw [Statement.endAfter, place, position, span]
  rfl

theorem endOf_endsAt (text : String) : EndsAt text text.utf8ByteSize (endOf text) := by
  refine ⟨text.toList, [], by simp, utf8Len_toList text, ?_⟩
  rw [endOf, Position.start_advance, ← utf8Len_toList]
  rfl

end Token

namespace Statement

/-- Where a statement stops: just behind its semicolon, or else where the next statement starts or
the text ends. -/
def stop (text : String) (statement : Statement) (following : Option Statement) : Nat :=
  match statement.tokens.getLast?.filter (·.kind = .semicolon), following with
  | some mark, _ => mark.span.stop
  | none, some next => next.first.span.start
  | none, none => text.utf8ByteSize

/-- What holds of each statement of a text, given the statement that follows it, if any. -/
structure WellCut (text : String) (statement : Statement) (following : Option Statement) :
    Prop where
  nonempty : statement.tokens ≠ []
  only_end : ∀ token ∈ statement.tokens, token.isEnd = false
  last_end : statement.close.isEnd = true
  create_first : ∀ token ∈ statement.tokens.tail, token.kind ≠ .keyword .CREATE
  semicolon_last : ∀ token ∈ statement.tokens.dropLast, token.kind ≠ .semicolon
  handed_on : following.isSome → (∃ mark ∈ statement.tokens.getLast?, mark.kind = .semicolon) ∨
    ∃ next ∈ following, next.first.kind = .keyword .CREATE
  closed : Token.EndsAt text (statement.stop text following) statement.close

/-- The statements are all there is in the text, and a splitter hands out these, one a call, and
then no more. -/
structure Split (text : String) (statements : List Statement) : Prop where
  complete :
    statements.flatMap (·.toList.dropLast) = (Token.ofText text).dropLast.filter (!·.isDirective)
  well_cut : ∀ index (inside : index < statements.length),
    statements[index].WellCut text statements[index + 1]?
  handed_out : ∀ calls, ((Splitter.ofText text).afterCalls calls).next.1 = statements[calls]?
  ended : ∀ calls later, calls ≤ later → ((Splitter.ofText text).afterCalls calls).next.1 = none →
    ((Splitter.ofText text).afterCalls later).next.1 = none

theorem Cut.wellCut {text : String} {statement : Statement} {before behind : List Token}
    {following : Option Statement}
    (cut : Cut (Token.endOf text) statement.tokens statement.close behind)
    (tokens : (Token.scanText text).filter (!·.isDirective) = before ++ statement.tokens ++ behind)
    (next : behind.head? = following.map first) : WellCut text statement following := by
  have scanned : ∀ token ∈ before ++ statement.tokens ++ behind, token ∈ Token.scanText text := by
    intro token member
    rw [← tokens] at member
    exact List.mem_of_mem_filter member
  have own (token : Token) (member : token ∈ statement.tokens) : token ∈ Token.scanText text :=
    scanned token (List.mem_append_left _ (List.mem_append_right _ member))
  have closing := cut.closing
  refine ⟨cut.nonempty, ?_, ?_, cut.create_first, cut.semicolon_last, ?_, ?_⟩
  · intro token member
    simpa [Token.isEnd] using Token.scan_not_end (own token member)
  · rcases closing with ⟨mark, _, _, close⟩ | ⟨_, ⟨token, _, _, _, close⟩ | ⟨_, close⟩⟩ <;>
      rw [close] <;> rfl
  · intro followed
    rcases closing with ⟨mark, last, is_mark, _⟩ | ⟨_, ⟨token, _, rfl, is_create, _⟩ | ⟨rfl, _⟩⟩
    · exact .inl ⟨mark, last, is_mark⟩
    · obtain ⟨following, rfl⟩ := Option.isSome_iff_exists.mp followed
      obtain rfl : token = following.first := by simpa using next
      exact .inr ⟨following, rfl, is_create⟩
    · obtain ⟨following, rfl⟩ := Option.isSome_iff_exists.mp followed
      simp at next
  · rcases closing with ⟨mark, last, is_mark, close⟩ | ⟨no_mark, close⟩
    · have found : statement.tokens.getLast?.filter (·.kind = .semicolon) = some mark := by
        simp [last, is_mark, Option.filter]
      have stops : statement.stop text following = mark.span.stop := by simp [stop, found]
      rw [stops, close]
      exact Token.endAfter_endsAt (own mark (List.mem_of_getLast? last)) is_mark
    · have no_stop : statement.tokens.getLast?.filter (·.kind = .semicolon) = none := by
        simpa [Option.filter_eq_none_iff] using no_mark
      rcases close with ⟨token, rest, rfl, _, close⟩ | ⟨rfl, close⟩
      · obtain ⟨following, rfl, rfl⟩ :
            ∃ statement, following = some statement ∧ statement.first = token := by
          simpa [eq_comm] using next
        have stops : statement.stop text (some following) = following.first.span.start := by
          simp [stop, no_stop]
        rw [stops, close]
        exact Token.endBefore_endsAt (scanned following.first (by simp))
      · obtain rfl : following = none := by simpa using next.symm
        have stops : statement.stop text none = text.utf8ByteSize := by simp [stop, no_stop]
        rw [stops, close]
        exact Token.endOf_endsAt text

/-- The splitter loses and duplicates no token, and cuts in the right places. -/
theorem ofText_split (text : String) : Split text (ofText text) := by
  have cuts := Splitter.ofText_cuts text
  constructor
  · have joined : (ofText text).flatMap tokens = (Token.scanText text).filter (!·.isDirective) :=
      cuts.joined
    simpa [toList, Token.ofText] using joined
  · intro index inside
    obtain ⟨before, behind, tokens, _, cut, next⟩ := cuts.getElem? (List.getElem?_eq_getElem inside)
    exact cut.wellCut tokens next
  · exact Splitter.next_afterCalls (Splitter.ofText_wellFormed text)
  · intro calls later order
    exact Splitter.next_stays_none (Splitter.ofText_wellFormed text) order

end Statement

end SchemaDrift
