import SchemaDrift.Proofs.Printed
import SchemaDrift.Proofs.Reformatting

/-!
The parts of a text in their place. A part that has no comment and closes its quotes gives its own
tokens in front of a blank, a comma or a closing parenthesis, each at the place that the characters
before it tell, and what stands behind it is scanned from there.
-/

namespace SchemaDrift

open Text

/-- Every string and quoted identifier that a scan of the characters comes to is closed. -/
def Sealed (chars : List Char) : Prop :=
  ∀ c rest, Reaches chars (c :: rest) → ∀ kind, (Piece.front c rest).kind = some kind →
    ∀ mark ∈ kind.mark?,
      (Piece.front c rest).written = mark :: (Piece.front c rest).text ++ [mark]

theorem Sealed.further {chars behind : List Char} (closed : Sealed chars)
    (reached : Reaches chars behind) : Sealed behind :=
  fun c rest later => closed c rest (reached.trans later)

theorem sealed_of_closed {text : String}
    (closed : ∀ token ∈ Token.scanText text, token.Closed text.toList) : Sealed text.toList := by
  intro c rest reached kind found mark marked
  obtain ⟨before, parts⟩ := reached.suffix
  have position := Position.start_advance before
  have scanned := Token.scan_append .start before (c :: rest) (parts ▸ reached)
  rw [parts, position, Token.scan_cons, Token.ofPiece_ofPrefix, found] at scanned
  have token := closed (Token.standing before (Piece.front c rest).written kind (Piece.front c rest).text)
    (by rw [Token.scanText, scanned]; simp)
  have slice : (Span.mk (String.utf8Len before)
      (String.utf8Len (before ++ (Piece.front c rest).written))).slice? text.toList =
      some (Piece.front c rest).written := by
    rw [← parts, ← Piece.front_append c rest, ← List.append_assoc]
    exact Span.slice?_between _ _ _
  have closes := token mark marked
  simp only [Token.standing, String.toList_ofList] at closes
  rw [slice] at closes
  exact Option.some.inj closes

theorem Lexeme.before {kind : TokenKind} {written text rest behind : List Char}
    (lexeme : Lexeme kind written text rest) (no_directive : kind ≠ .directive)
    (closed : ∀ mark ∈ kind.mark?, written = mark :: text ++ [mark])
    (severs : ∀ c ∈ behind.head?, Severs c) : Lexeme kind written text (rest ++ behind) := by
  by_cases last : rest = []
  · have same := lexeme.written_eq no_directive closed
    rw [last, List.nil_append, same]
    exact lexeme.writable no_directive closed behind fun c next => (severs c next).parting
  · have indistinct : Indistinct rest (rest ++ behind) := by
      have longer := @Indistinct.append [] behind severs rest
      rwa [List.append_nil] at longer
    exact lexeme.transfer last indistinct

theorem Lexeme.numeral {sign whole fraction behind : List Char} (signed : sign = [] ∨ sign = ['-'])
    (digits : Digits whole)
    (point : fraction = [] ∨ ∃ decimals, fraction = '.' :: decimals ∧ Digits decimals)
    (stops : ∀ d ∈ behind.head?, d ≠ '.' ∧ d.isDigit = false) :
    Lexeme .number (sign ++ whole ++ fraction) (sign ++ whole ++ fraction) behind := by
  have no_fraction : ¬Piece.Fraction behind := fun fraction => (stops '.' fraction.1).1 rfl
  exact .number signed digits (point.imp_left (⟨·, no_fraction⟩)) fun d next => (stops d next).2

theorem not_starts_before {c : Char} {rest behind : List Char} (no_comment : ¬OpensComment c rest)
    (no_token : ¬StartsToken c rest) (severs : ∀ c ∈ behind.head?, Severs c) :
    ¬OpensComment c (rest ++ behind) ∧ ¬StartsToken c (rest ++ behind) := by
  have indistinct := @Indistinct.append [] behind severs rest
  rw [List.append_nil] at indistinct
  exact no_comment_transfer indistinct no_comment no_token

theorem Piece.front_before {c : Char} {rest behind : List Char} (uncommented : Uncommented (c :: rest))
    (closed : Sealed (c :: rest)) (severs : ∀ c ∈ behind.head?, Severs c) :
    front c (rest ++ behind) = (front c rest).followedBy behind := by
  obtain ⟨no_comment, no_directive⟩ := uncommented c rest (.here _)
  rcases front_cases c rest with ⟨kind, found, lexeme⟩ | comment | ⟨alone, skipped⟩
  · rw [found] at no_directive
    have longer := lexeme.before (by simpa using no_directive) (closed c rest (.here _) kind found) severs
    have whole := front_append c rest
    obtain ⟨d, others, written, again⟩ := front_of_lexeme longer
    rw [written, List.cons_append] at whole
    obtain ⟨rfl, same⟩ := List.cons.inj whole
    rw [← List.append_assoc, same] at again
    rw [again, followedBy, ← found]
  · exact absurd comment no_comment
  · rw [alone]
    rcases skipped with blank | ⟨no_comment, no_token⟩
    · exact front_blank blank (rest ++ behind)
    · obtain ⟨still_no_comment, still_no_token⟩ := not_starts_before no_comment no_token severs
      exact front_stray still_no_comment still_no_token

theorem Reaches.of_sealed {chars behind : List Char} (uncommented : Uncommented chars)
    (closed : Sealed chars) (severs : ∀ c ∈ behind.head?, Severs c) :
    Reaches (chars ++ behind) behind := by
  induction chars using Piece.front_induction with
  | nil => exact .here behind
  | cons c rest ih =>
      have further : Reaches (c :: rest) (Piece.front c rest).rest := .past (.here _)
      refine .past ?_
      rw [List.append_eq, Piece.front_before uncommented closed severs]
      exact ih (uncommented.further further) (closed.further further)

namespace Token

variable {before written text chars behind : List Char} {kind : TokenKind}

theorem visible_lexeme (lexeme : Lexeme kind written text behind) (seen : kind ≠ .directive) :
    visible (.ofPrefix before) (written ++ behind) =
      standing before written kind text :: visible (.ofPrefix (before ++ written)) behind := by
  obtain ⟨c, others, rfl, piece⟩ := Piece.front_of_lexeme lexeme
  rw [List.cons_append, visible, scan_cons, piece, ofPiece_ofPrefix, advance_ofPrefix]
  simp [visible, standing, isDirective, seen]

theorem visible_mark {c : Char} (listed : (c, kind) ∈ marks) (before behind : List Char) :
    visible (.ofPrefix before) (c :: behind) =
      standing before [c] kind [c] :: visible (.ofPrefix (before ++ [c])) behind := by
  have seen : kind ≠ .directive := by
    have no_mark : ∀ mark ∈ marks, mark.2 ≠ .directive := by decide
    exact no_mark _ listed
  exact visible_lexeme (Lexeme.mark listed) seen

theorem visible_opening (before behind : List Char) :
    visible (.ofPrefix before) ('(' :: behind) =
      standing before ['('] .leftParen ['('] :: visible (.ofPrefix (before ++ ['('])) behind :=
  visible_mark (by decide) before behind

theorem visible_closing (before behind : List Char) :
    visible (.ofPrefix before) (')' :: behind) =
      standing before [')'] .rightParen [')'] :: visible (.ofPrefix (before ++ [')'])) behind :=
  visible_mark (by decide) before behind

theorem visible_comma (before behind : List Char) :
    visible (.ofPrefix before) (',' :: behind) =
      standing before [','] .comma [','] :: visible (.ofPrefix (before ++ [','])) behind :=
  visible_mark (by decide) before behind

theorem visible_blank {c : Char} (blank : isBlank c = true) :
    visible (.ofPrefix before) (c :: behind) = visible (.ofPrefix (before ++ [c])) behind := by
  rw [visible, scan_blank blank, advance_ofPrefix]
  rfl

theorem visible_part (reached : Reaches (chars ++ behind) behind) :
    visible (.ofPrefix before) (chars ++ behind) =
      visible (.ofPrefix before) chars ++ visible (.ofPrefix (before ++ chars)) behind := by
  rw [visible_append _ _ _ reached, advance_ofPrefix]

end Token

end SchemaDrift
