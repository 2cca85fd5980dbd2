import SchemaDrift.Proofs.Contents
import SchemaDrift.Proofs.Inside
import SchemaDrift.Proofs.Yields

/-!
What is captured between parentheses. An expression is what the source has between a parenthesis and
the one that closes it, in normal spacing; scanned by itself it says what the tokens say that stand
there.
-/

namespace SchemaDrift

/-- The tokens close each parenthesis that they open, and `depth` more. -/
inductive Balanced : Nat → List Token → Prop where
  | finish : Balanced 0 []
  | opening {depth : Nat} {token : Token} {rest : List Token} (kind : token.kind = .leftParen)
      (later : Balanced (depth + 1) rest) : Balanced depth (token :: rest)
  | closing {depth : Nat} {token : Token} {rest : List Token} (kind : token.kind = .rightParen)
      (later : Balanced depth rest) : Balanced (depth + 1) (token :: rest)
  | other {depth : Nat} {token : Token} {rest : List Token} (not_opening : token.kind ≠ .leftParen)
      (not_closing : token.kind ≠ .rightParen) (later : Balanced depth rest) :
      Balanced depth (token :: rest)

def Token.IsParenthesis (token : Token) : Prop :=
  token.kind = .leftParen ∨ token.kind = .rightParen

instance (token : Token) : Decidable token.IsParenthesis :=
  inferInstanceAs (Decidable (_ ∨ _))

theorem Balanced.of_plain {tokens : List Token} (plain : ∀ token ∈ tokens, ¬token.IsParenthesis) :
    Balanced 0 tokens := by
  induction tokens with
  | nil => exact .finish
  | cons token rest ih =>
      obtain ⟨first, later⟩ := List.forall_mem_cons.mp plain
      exact .other (fun opens => first (.inl opens)) (fun closes => first (.inr closes)) (ih later)

theorem Group.read_closed {close : Token} (ended : close.kind = .endOfInput) {depth : Nat}
    {ahead : List Token} (closed : (read close depth ahead).last.kind = .rightParen) :
    ∃ inner, ahead = inner ++ (read close depth ahead).last :: (read close depth ahead).behind ∧
      Balanced depth inner := by
  -- along the tokens, with the cases in the order in which the reader asks
  induction ahead generalizing depth with
  | nil => simp [read, ended] at closed
  | cons token rest ih =>
      rw [read_cons] at closed ⊢
      by_cases opens : token.kind = .leftParen
      · rw [if_pos opens] at closed ⊢
        obtain ⟨inner, same, balanced⟩ := ih closed
        exact ⟨token :: inner, congrArg (token :: ·) same, .opening opens balanced⟩
      rw [if_neg opens] at closed ⊢
      by_cases closes : token.kind = .rightParen
      · rw [if_pos closes] at closed ⊢
        by_cases innermost : depth = 0
        · rw [if_pos innermost]
          exact ⟨[], rfl, innermost ▸ .finish⟩
        · rw [if_neg innermost] at closed ⊢
          obtain ⟨outer, rfl⟩ := Nat.exists_eq_succ_of_ne_zero innermost
          obtain ⟨inner, same, balanced⟩ := ih closed
          exact ⟨token :: inner, congrArg (token :: ·) same, .closing closes balanced⟩
      rw [if_neg closes] at closed ⊢
      by_cases at_end : token.kind = .endOfInput
      · simp [at_end] at closed
      rw [if_neg at_end] at closed ⊢
      by_cases comma : token.kind = .comma ∧ depth = 0
      · obtain ⟨kind, rfl⟩ := comma
        rw [if_pos ⟨kind, rfl⟩] at closed ⊢
        obtain ⟨inner, same, balanced⟩ := ih closed
        exact ⟨token :: inner, congrArg (token :: ·) same, .other opens closes balanced⟩
      · rw [if_neg comma] at closed ⊢
        obtain ⟨inner, same, balanced⟩ := ih closed
        exact ⟨token :: inner, congrArg (token :: ·) same, .other opens closes balanced⟩

theorem Group.read_balanced {depth : Nat} {inner : List Token} (balanced : Balanced depth inner)
    (no_end : ∀ token ∈ inner, token.kind ≠ .endOfInput) {closing : Token}
    (closes : closing.kind = .rightParen) (close : Token) (rest : List Token) :
    ∃ commas, read close depth (inner ++ closing :: rest) = ⟨commas, closing, rest⟩ := by
  induction balanced with
  | finish => exact ⟨[], by simp [read_cons, closes]⟩
  | opening kind later ih =>
      simpa [read_cons, kind] using ih (List.forall_mem_cons.mp no_end).2
  | closing kind later ih =>
      simpa [read_cons, kind] using ih (List.forall_mem_cons.mp no_end).2
  | @other depth token rest not_opening not_closing later ih =>
      obtain ⟨not_end, inside⟩ := List.forall_mem_cons.mp no_end
      obtain ⟨commas, read⟩ := ih inside
      by_cases comma : token.kind = .comma ∧ depth = 0
      · obtain ⟨kind, rfl⟩ := comma
        exact ⟨token :: commas, by simp [read_cons, kind, read]⟩
      · exact ⟨commas, by simp [read_cons, not_opening, not_closing, not_end, comma, read]⟩

theorem Lexeme.mark_written {c : Char} {kind : TokenKind} {written text behind : List Char}
    (lexeme : Lexeme kind written text behind) (listed : (c, kind) ∈ marks) : written = [c] := by
  simp only [marks, List.mem_cons, Prod.mk.injEq, List.not_mem_nil, or_false] at listed
  rcases listed with ⟨rfl, rfl⟩ | ⟨rfl, rfl⟩ | ⟨rfl, rfl⟩ | ⟨rfl, rfl⟩ | ⟨rfl, rfl⟩ | ⟨rfl, rfl⟩ <;>
  · cases lexeme with
    | mark other => simpa [marks] using other
    | word _ _ _ spelled => simpa using spelled.name

namespace Token

theorem Stands.mark {position : Position} {chars before rest : List Char} {token : Token}
    {c mark : Char} (stands : Stands position chars token before c rest)
    (listed : (mark, token.kind) ∈ marks) :
    c = mark ∧ Piece.front c rest = .plain token.kind [mark] rest := by
  have lawful := Piece.front_lawful c rest
  have whole := Piece.front_append c rest
  rw [Piece.Lawful, (ofPiece_eq_some stands.piece).1] at lawful
  rw [lawful.mark_written listed] at whole
  obtain rfl := (List.cons.inj whole).1
  exact ⟨rfl, Piece.front_mark listed rest⟩

theorem Stands.visible_behind {position : Position} {chars before rest : List Char} {token : Token}
    {c mark : Char} (stands : Stands position chars token before c rest)
    (listed : (mark, token.kind) ∈ marks) {later : List Token}
    (seen : visible (position.advance before) (c :: rest) = token :: later) :
    visible (position.advance (before ++ [mark])) rest = later := by
  obtain ⟨rfl, piece⟩ := stands.mark listed
  have no_directive : token.isDirective = false := by
    have no_mark : ∀ mark ∈ marks, mark.2 ≠ .directive := by decide
    simpa [isDirective] using no_mark _ listed
  rw [visible, scan_cons, stands.piece, piece] at seen
  rw [Position.advance_append]
  simpa [no_directive, visible, Piece.plain] using seen

theorem visible_between {chars : List Char} {earlier inner later : List Token}
    {opening closing : Token}
    (tokens : visible .start chars = earlier ++ opening :: (inner ++ closing :: later))
    (opens : opening.kind = .leftParen) (closes : closing.kind = .rightParen) :
    ∃ before inside behind, chars = before ++ inside ++ (')' :: behind) ∧
      opening.span.stop = String.utf8Len before ∧
      closing.span.start = String.utf8Len (before ++ inside) ∧
      Reaches chars (inside ++ (')' :: behind)) ∧
      Reaches (inside ++ (')' :: behind)) (')' :: behind) ∧
      contents inside = inner.map content := by
  obtain ⟨before, c, rest, stands, -, seen⟩ := visible_split tokens
  have listed : ('(', opening.kind) ∈ marks := by
    rw [opens]
    decide
  obtain ⟨rfl, piece⟩ := stands.mark listed
  have behind_opening := stands.visible_behind listed seen
  obtain ⟨inside, d, behind, stands_too, said, -⟩ := visible_split behind_opening
  have listed_too : (')', closing.kind) ∈ marks := by
    rw [closes]
    decide
  obtain ⟨rfl, -⟩ := stands_too.mark listed_too
  refine ⟨before ++ ['('], inside, behind, ?_, ?_, ?_, ?_, stands_too.text ▸ stands_too.reached, ?_⟩
  · rw [stands.text, stands_too.text]
    simp
  · rw [stands.span, piece]
    rfl
  · rw [(ofPiece_eq_some stands_too.piece).2.2, ← Position.advance_append, Position.start_advance]
    rfl
  · rw [← stands_too.text]
    exact stands.reached.trans (.past (by rw [piece]; exact .here rest))
  · rw [← said, visible_content]

end Token

/-- How an expression was captured: the tokens of the text with its parentheses among them, and what
stands between those. -/
structure Capture (text expression : String) (earlier : List Token) (opening : Token)
    (inner : List Token) (closing : Token) (later : List Token) : Prop where
  tokens : Token.visible .start text.toList = earlier ++ opening :: (inner ++ closing :: later)
  opens : opening.kind = .leftParen
  closes : closing.kind = .rightParen
  balanced : Balanced 0 inner
  spaced : expression = Text.normalizeSpacing
    (Span.text ⟨opening.span.stop, closing.span.start⟩ text.toList)
  kept : Tidy (Span.text ⟨opening.span.stop, closing.span.start⟩ text.toList).toList →
    (Token.visible .start expression.toList).map Token.content = inner.map Token.content

/-- Is the expression captured from between these parentheses of the text? -/
def Captured (text : String) (group : List Token) (expression : String) : Prop :=
  ∃ earlier opening inner closing later, group = opening :: (inner ++ [closing]) ∧
    Capture text expression earlier opening inner closing later

theorem Capture.of_tokens {text : String} {earlier inner later : List Token}
    {opening closing : Token}
    (tokens : Token.visible .start text.toList = earlier ++ opening :: (inner ++ closing :: later))
    (opens : opening.kind = .leftParen) (closes : closing.kind = .rightParen)
    (balanced : Balanced 0 inner) :
    Capture text
      (Text.normalizeSpacing (Span.text ⟨opening.span.stop, closing.span.start⟩ text.toList))
      earlier opening inner closing later where
  tokens := tokens
  opens := opens
  closes := closes
  balanced := balanced
  spaced := rfl
  kept tidy := by
    obtain ⟨before, inside, behind, parts, start, stop, -, reached, said⟩ :=
      Token.visible_between tokens opens closes
    have slice : Span.text ⟨opening.span.stop, closing.span.start⟩ text.toList =
        .ofList inside := by
      rw [Span.text, parts, start, stop, Span.slice?_between, Option.getD_some]
    rw [slice] at tidy ⊢
    rw [← said]
    have kept := contents_normalizeSpacing (show (')' :: behind).head? = some ')' from rfl)
      (by rwa [String.toList_ofList]) tidy
    rwa [String.toList_ofList] at kept

theorem Cursor.ahead_eq {cursor : Cursor} {kind : TokenKind} (ended : cursor.close.kind = .endOfInput)
    (seen : cursor.current.kind = kind) (no_end : kind ≠ .endOfInput) :
    cursor.ahead = cursor.current :: cursor.next.ahead := by
  cases ahead : cursor.ahead with
  | nil => simp [Cursor.current, ahead, ended, Ne.symm no_end] at seen
  | cons token rest => simp [Cursor.current, Cursor.next, ahead]

namespace Reading

theorem eat_ok {kind : TokenKind} {cursor after : Cursor} {found : Bool}
    (eaten : eat kind cursor = .ok found after) :
    found = true ∧ cursor.current.kind = kind ∧ after = cursor.next ∨
      found = false ∧ after = cursor := by
  rw [eat] at eaten
  split at eaten
  next sees =>
    obtain ⟨rfl, rfl⟩ := EStateM.Result.ok.inj eaten
    exact .inl ⟨rfl, beq_iff_eq.mp sees, rfl⟩
  next =>
    obtain ⟨rfl, rfl⟩ := EStateM.Result.ok.inj eaten
    exact .inr ⟨rfl, rfl⟩

theorem expression_ok {cursor after : Cursor} {value : String}
    (ended : cursor.close.kind = .endOfInput) (done : expression cursor = .ok value after) :
    ∃ opening inner closing, cursor.ahead = opening :: (inner ++ closing :: after.ahead) ∧
      opening.kind = .leftParen ∧ closing.kind = .rightParen ∧ Balanced 0 inner ∧
      value = Text.normalizeSpacing (cursor.slice opening.span.stop closing.span.start) ∧
      after = { cursor with ahead := after.ahead } := by
  rw [expression_eq] at done
  dsimp only at done
  split at done
  next opens =>
    split at done
    next closes =>
      obtain ⟨rfl, rfl⟩ := EStateM.Result.ok.inj done
      obtain ⟨opening, rest, ahead⟩ : ∃ opening rest, cursor.ahead = opening :: rest := by
        cases ahead : cursor.ahead with
        | nil => simp [Cursor.current, ahead, ended] at opens
        | cons opening rest => exact ⟨opening, rest, rfl⟩
      obtain ⟨inner, same, balanced⟩ := Group.read_closed ended closes
      have front : cursor.current = opening := by rw [Cursor.current, ahead]; rfl
      have behind : cursor.next.ahead = rest := by rw [Cursor.next, ahead]; rfl
      rw [front] at opens ⊢
      refine ⟨opening, inner, _, ?_, opens, closes, balanced, rfl, rfl⟩
      rw [ahead, ← same, behind]
    next => contradiction
  next => contradiction

end Reading

end SchemaDrift
