import SchemaDrift.Proofs.Lexeme

/-!
The tokens of a text tile it. Read from the left, a text is a gap, a token, a gap, a token, and so on
to its end; nothing is left out and nothing is read twice, and each token has the place that the
characters before it tell.
-/

namespace SchemaDrift

namespace Token

def standing (before written : List Char) (kind : TokenKind) (text : List Char) : Token where
  kind := kind
  text := .ofList text
  span := ⟨String.utf8Len before, String.utf8Len (before ++ written)⟩
  position := Position.ofPrefix before

def endBehind (before : List Char) : Token :=
  endOfInput (String.utf8Len before) (Position.ofPrefix before)

theorem advance_ofPrefix (before chars : List Char) :
    (Position.ofPrefix before).advance chars = Position.ofPrefix (before ++ chars) := by
  rw [← Position.start_advance, ← Position.start_advance, Position.advance_append]

theorem ofPiece_ofPrefix (before : List Char) (piece : Piece) :
    ofPiece (Position.ofPrefix before) piece =
      piece.kind.map fun kind => standing before piece.written kind piece.text := by
  rw [ofPiece, advance_ofPrefix]
  rfl

end Token

open Token

/-- Do the tokens tile `chars`, which stand behind `before`? -/
inductive Tiles : (before chars : List Char) → List Token → Prop where
  | finish {before gap : List Char} (filler : Filler [] gap) :
      Tiles before gap [endBehind (before ++ gap)]
  | token {before gap written text behind : List Char} {kind : TokenKind} {tokens : List Token}
      (filler : Filler (written ++ behind) gap) (lexeme : Lexeme kind written text behind)
      (later : Tiles (before ++ gap ++ written) behind tokens) :
      Tiles before (gap ++ (written ++ behind)) (standing (before ++ gap) written kind text :: tokens)

namespace Tiles

theorem behind_gap {before chars written : List Char} {tokens : List Token}
    (grows : ∀ gap behind, chars = gap ++ behind → Filler behind gap →
      Filler behind (written ++ gap))
    (tiles : Tiles (before ++ written) chars tokens) : Tiles before (written ++ chars) tokens := by
  cases tiles with
  | finish filler =>
      have longer := grows chars [] (List.append_nil chars).symm filler
      rw [List.append_assoc]
      exact .finish longer
  | @token _ gap lexeme_written text behind kind tokens filler lexeme later =>
      have longer := grows gap (lexeme_written ++ behind) rfl filler
      rw [List.append_assoc before] at later ⊢
      rw [← List.append_assoc written]
      exact .token longer lexeme later

end Tiles

namespace Token

theorem scan_tiles (before chars : List Char) :
    Tiles before chars (scan (Position.ofPrefix before) chars ++ [endBehind (before ++ chars)]) := by
  induction chars using Piece.front_induction generalizing before with
  | nil =>
      rw [scan_nil]
      exact .finish .nil
  | cons c rest ih =>
      have whole := Piece.front_append c rest
      have lawful := Piece.front_lawful c rest
      have later := ih (before ++ (Piece.front c rest).written)
      rw [List.append_assoc, whole] at later
      rw [scan_cons, ofPiece_ofPrefix, advance_ofPrefix]
      rw [Piece.Lawful] at lawful
      cases kind : (Piece.front c rest).kind with
      | none =>
          -- the piece goes to the gap that the tiling of the rest begins with
          rw [kind] at lawful
          have tiles := later.behind_gap lawful
          rwa [whole] at tiles
      | some found =>
          rw [kind] at lawful
          rw [← List.append_nil before] at later
          have tiles := Tiles.token .nil lawful later
          rwa [List.nil_append, whole, List.append_nil] at tiles

theorem ofText_tiles (text : String) : Tiles [] text.toList (ofText text) := by
  have tiles := scan_tiles [] text.toList
  have finish : endOf text = endBehind text.toList := by
    rw [endOf, endBehind, Position.start_advance]
    rfl
  rw [ofText, finish]
  exact tiles

end Token

namespace Token

/-- A token that stands in a text: its span has exactly the characters that it is written with, which
say what it is, and its position is told by those before them. -/
structure WrittenAt (token : Token) (before written behind : List Char) : Prop where
  nonempty : written ≠ []
  span : token.span = ⟨String.utf8Len before, String.utf8Len (before ++ written)⟩
  slice : token.span.slice? (before ++ written ++ behind) = some written
  position : token.position = Position.ofPrefix before
  not_end : token.kind ≠ .endOfInput
  lexeme : Lexeme token.kind written token.text.toList behind

theorem standing_writtenAt {kind : TokenKind} {written text behind : List Char}
    (lexeme : Lexeme kind written text behind) (before : List Char) :
    (standing before written kind text).WrittenAt before written behind where
  nonempty := lexeme.written_ne_nil
  span := rfl
  slice := Span.slice?_between before written behind
  position := rfl
  not_end := lexeme.kind_ne_end
  lexeme := by simpa [standing] using lexeme

end Token

namespace Tiles

variable {before chars : List Char} {tokens : List Token}

theorem start_le (tiles : Tiles before chars tokens) :
    ∀ token ∈ tokens, String.utf8Len before ≤ token.span.start := by
  induction tiles with
  | finish filler => simp [endBehind, endOfInput]
  | token filler lexeme later ih =>
      intro token member
      rcases List.mem_cons.mp member with rfl | member
      · simp [standing]
      · have further := ih token member
        simp only [String.utf8Len_append] at further
        omega

theorem ordered (tiles : Tiles before chars tokens) :
    tokens.Pairwise fun first second => first.span.stop ≤ second.span.start := by
  induction tiles with
  | finish filler => simp
  | token filler lexeme later ih => exact .cons later.start_le ih

theorem ended (tiles : Tiles before chars tokens) :
    ∃ scanned, tokens = scanned ++ [endBehind (before ++ chars)] ∧
      ∀ token ∈ scanned, ∃ left written behind,
        before ++ chars = left ++ written ++ behind ∧ token.WrittenAt left written behind := by
  induction tiles with
  | finish filler => exact ⟨[], rfl, by simp⟩
  | @token before gap written text behind kind tokens filler lexeme later ih =>
      obtain ⟨scanned, same, stands⟩ := ih
      have whole : before ++ gap ++ written ++ behind = before ++ (gap ++ (written ++ behind)) := by
        simp only [List.append_assoc]
      rw [whole] at same stands
      refine ⟨standing (before ++ gap) written kind text :: scanned, by rw [same]; rfl, ?_⟩
      intro token member
      rcases List.mem_cons.mp member with rfl | member
      · exact ⟨before ++ gap, written, behind, whole.symm, standing_writtenAt lexeme _⟩
      · exact stands token member

end Tiles

/-- The tokens of a text, from its start to its end. -/
structure Tiled (text : String) (tokens : List Token) : Prop where
  tiles : Tiles [] text.toList tokens
  ordered : tokens.Pairwise fun first second => first.span.stop ≤ second.span.start
  ended : ∃ scanned,
    tokens = scanned ++ [endOfInput text.utf8ByteSize (Position.ofPrefix text.toList)] ∧
      ∀ token ∈ scanned, ∃ before written behind,
        text.toList = before ++ written ++ behind ∧ token.WrittenAt before written behind

/-- The scanner tiles every text with its tokens. -/
theorem Token.ofText_tiled (text : String) : Tiled text (ofText text) where
  tiles := ofText_tiles text
  ordered := (ofText_tiles text).ordered
  ended := by
    have ended := (ofText_tiles text).ended
    rwa [endBehind, List.nil_append, utf8Len_toList] at ended

end SchemaDrift
