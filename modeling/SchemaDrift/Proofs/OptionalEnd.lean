import SchemaDrift.Proofs.Blame
import SchemaDrift.Proofs.RunsApart

/-!
Tokens with and without an end of input behind them. Where the end is missing, a cursor makes one up behind the last
token. A reader sees of an end only that it is one, so it reads the same either way; only an error that finds the end
tells the two apart, by its place.
-/

namespace SchemaDrift

def Token.withEnd (token finish : Token) : Token :=
  if token.isEnd then finish else token

theorem Token.isEnd_iff (token : Token) : token.isEnd = true ↔ token.kind = .endOfInput :=
  beq_iff_eq

theorem Token.withEnd_other {token : Token} (other : token.kind ≠ .endOfInput) (finish : Token) :
    token.withEnd finish = token :=
  if_neg (token.isEnd_iff.not.mpr other)

theorem Token.withEnd_end {token : Token} (ended : token.kind = .endOfInput) (finish : Token) :
    token.withEnd finish = finish :=
  if_pos (token.isEnd_iff.mpr ended)

namespace Cursor

variable {cursor : Cursor} {finish : Token}

def closedTwins (cursor : Cursor) (finish : Token) : Twins :=
  { cursor.twins with close := (finish, cursor.close) }

theorem closedTwins_left : (cursor.closedTwins finish).left = { cursor with close := finish } := by
  have same : (cursor.closedTwins finish).left = { cursor.twins.left with close := finish } := rfl
  rw [same, twins_left]

theorem closedTwins_right : (cursor.closedTwins finish).right = cursor :=
  cursor.twins_right

theorem closedTwins_alike (ended : cursor.close.kind = .endOfInput) (kind : finish.kind = .endOfInput)
    (text : finish.text = cursor.close.text) (no_end : ∀ token ∈ cursor.ahead, token.kind ≠ .endOfInput) :
    (cursor.closedTwins finish).Alike fun first second => first = second.withEnd finish where
  like pair member := by
    rcases List.mem_cons.mp member with rfl | later
    · exact ⟨kind.trans ended.symm, text, (Token.withEnd_end ended finish).symm⟩
    · obtain ⟨token, ahead, rfl⟩ := List.mem_map.mp later
      exact ⟨rfl, rfl, (Token.withEnd_other (no_end token ahead) finish).symm⟩
  ended := kind
  spaced := (cursor.twins_alike ended).spaced
  touching := (cursor.twins_alike ended).touching
  joined := (cursor.twins_alike ended).joined
  introduced := (cursor.twins_alike ended).introduced

end Cursor

/-- With another end of input a reader gives the same, but that an error that finds the end finds that one. -/
theorem Reading.Uniform.result_withEnd {α : Type} {reading : Reading α} (uniform : Uniform reading) (cursor : Cursor)
    {finish : Token} (ended : cursor.close.kind = .endOfInput) (kind : finish.kind = .endOfInput)
    (text : finish.text = cursor.close.text) (no_end : ∀ token ∈ cursor.ahead, token.kind ≠ .endOfInput) :
    reading.result { cursor with close := finish } = (reading.result cursor).mapError fun error =>
      { error with found := error.found.withEnd finish } := by
  have alike := Cursor.closedTwins_alike ended kind text no_end
  have same := uniform.result alike (Token.withEnd · finish) fun _ _ moved => moved
  rwa [Cursor.closedTwins_left, Cursor.closedTwins_right] at same

/-- What the tokens that two errors found have in common: `bare` is found where the end of the text is missing behind
its tokens, `whole` where it is there. A made-up end has the position of the last token. -/
structure Token.SameButEnd (source : String) (tokens : List Token) (bare whole : Token) : Prop where
  kind : bare.kind = whole.kind
  text : bare.text = whole.text
  token : whole.kind ≠ .endOfInput → bare = whole
  span : (∃ last ∈ tokens.getLast?, last.span.stop = source.utf8ByteSize) → bare.span = whole.span
  position : whole.kind = .endOfInput → bare.position = (tokens.getLast?.map Token.position).getD .start

/-- Two outcomes are the same table, or errors that expect the same and find tokens in a relation. -/
inductive SyntaxError.SameOutcome {α : Type} (related : Token → Token → Prop) :
    Except SyntaxError α → Except SyntaxError α → Prop where
  | ok (value : α) : SameOutcome related (.ok value) (.ok value)
  | error (expected : Expected) {first second : Token} (found : related first second) :
      SameOutcome related (.error ⟨expected, first⟩) (.error ⟨expected, second⟩)

namespace Cursor

variable (source : List Char) {tokens : List Token}

/-- The end that is made up behind some tokens. -/
def madeUpEnd (tokens : List Token) : Token :=
  match tokens.getLast? with
  | none => .endOfInput 0 .start
  | some last => .endOfInput last.span.stop last.position

theorem madeUpEnd_kind (tokens : List Token) : (madeUpEnd tokens).kind = .endOfInput := by
  unfold madeUpEnd
  cases tokens.getLast? <;> rfl

theorem madeUpEnd_text (tokens : List Token) : (madeUpEnd tokens).text = "" := by
  unfold madeUpEnd
  cases tokens.getLast? <;> rfl

theorem ofTokens_bare (no_end : ∀ token ∈ tokens, token.kind ≠ .endOfInput) :
    ofTokens source tokens = ⟨source, tokens, madeUpEnd tokens⟩ := by
  unfold ofTokens madeUpEnd
  cases found : tokens.getLast? with
  | none => rw [List.getLast?_eq_none_iff.mp found]
  | some last =>
      have other := no_end last (List.mem_of_getLast? found)
      exact if_neg (last.isEnd_iff.not.mpr other)

theorem ofTokens_closed {finish : Token} (ended : finish.kind = .endOfInput) (tokens : List Token) :
    ofTokens source (tokens ++ [finish]) = ⟨source, tokens, finish⟩ := by
  simp [ofTokens, finish.isEnd_iff.mpr ended]

end Cursor

theorem Token.sameButEnd_withEnd (text : String) (tokens : List Token) {whole : Token}
    (given : whole.kind = .endOfInput → whole = endOf text) :
    SameButEnd text tokens (whole.withEnd (Cursor.madeUpEnd tokens)) whole := by
  by_cases ended : whole.kind = .endOfInput
  · obtain rfl := given ended
    rw [withEnd_end ended]
    constructor
    case kind => exact (Cursor.madeUpEnd_kind tokens).trans ended.symm
    case text => exact Cursor.madeUpEnd_text tokens
    case token => exact fun other => absurd ended other
    case position =>
      intro _
      unfold Cursor.madeUpEnd
      cases tokens.getLast? <;> rfl
    case span =>
      rintro ⟨last, found, reaches⟩
      have found : tokens.getLast? = some last := found
      obtain ⟨before, _, _, length, same⟩ := endOf_endsAt text
      rw [Cursor.madeUpEnd, found, same]
      exact congrArg (fun stop => Span.mk stop stop) reaches
  · rw [withEnd_other ended]
    exact ⟨rfl, rfl, fun _ => rfl, fun _ => rfl, fun same => absurd same ended⟩

/-- The end of input behind the tokens of a text may be left out: the same table is read, or an error comes up that
expects the same. -/
theorem Table.read_without_end (text : String) :
    let tokens := (Token.scanText text).filter (!·.isDirective)
    SyntaxError.SameOutcome (Token.SameButEnd text tokens)
      (Table.read.result (.ofTokens text.toList tokens))
      (Table.read.result (.ofTokens text.toList (tokens ++ [Token.endOf text]))) := by
  intro tokens
  have no_end : ∀ token ∈ tokens, token.kind ≠ .endOfInput :=
    fun token member => Token.scan_not_end (List.mem_of_mem_filter member)
  rw [Cursor.ofTokens_bare _ no_end, Cursor.ofTokens_closed _ rfl]
  have same := Table.read_uniform.result_withEnd ⟨text.toList, tokens, Token.endOf text⟩ rfl
    (Cursor.madeUpEnd_kind tokens) (Cursor.madeUpEnd_text tokens) no_end
  rw [same]
  cases outcome : Table.read.result ⟨text.toList, tokens, Token.endOf text⟩ with
  | ok table => exact .ok table
  | error error =>
      refine .error error.expected (Token.sameButEnd_withEnd text tokens fun ended => ?_)
      have given := Table.read_uniform.found_mem rfl outcome
      exact (List.mem_cons.mp given).resolve_right fun ahead => no_end _ ahead ended

/-- What comes of a text that stops right behind its last token where an end is missing: the made-up end stands where
the last token starts, the end of the text stands behind it. -/
theorem Table.made_up_end_misplaced :
    let tokens := (Token.scanText "CREATE").filter (!·.isDirective)
    let bare := Table.read.result (.ofTokens "CREATE".toList tokens)
    let whole := Table.read.result (.ofTokens "CREATE".toList (tokens ++ [Token.endOf "CREATE"]))
    tokens.getLast?.map (·.span.stop) = some "CREATE".utf8ByteSize ∧
      bare.mapError (·.found.position) = .error ⟨0, 1, 1⟩ ∧
      whole.mapError (·.found.position) = .error ⟨6, 1, 7⟩ := by
  decide +kernel

end SchemaDrift
