import SchemaDrift.Proofs.Contents
import SchemaDrift.Proofs.Tiling

/-!
Tokens written out as SQL writes them. What a closed token is written with is read as that token
again wherever no word, number or quote goes on behind it, so the tokens of a text, written out with
spaces between them, are scanned again as they were.
-/

namespace SchemaDrift

def TokenKind.mark? : TokenKind → Option Char
  | .string quote => some quote.char
  | .quotedIdentifier => some '\x60'
  | _ => none

def TokenKind.write (kind : TokenKind) (text : List Char) : List Char :=
  match kind.mark? with
  | some mark => mark :: text ++ [mark]
  | none => text

theorem Token.sql_toList (token : Token) : token.sql.toList = token.kind.write token.text.toList := by
  obtain ⟨kind, text, span, position⟩ := token
  cases kind <;> simp [sql, TokenKind.write, TokenKind.mark?]

/-- A token between quotes is closed if it ends with the mark that it starts with. -/
def Token.Closed (source : List Char) (token : Token) : Prop :=
  ∀ mark ∈ token.kind.mark?,
    token.span.slice? source = some (mark :: token.text.toList ++ [mark])

instance (source : List Char) (token : Token) : Decidable (token.Closed source) :=
  match marked : token.kind.mark? with
  | none => .isTrue (by simp [Token.Closed, marked])
  | some mark =>
      decidable_of_iff (token.span.slice? source = some (mark :: token.text.toList ++ [mark]))
        (by simp [Token.Closed, marked])

/-- A character that goes on with no word, number or string in front of it. -/
structure Parting (c : Char) : Prop where
  word : Text.continuesWord c = false
  digit : c.isDigit = false
  point : c ≠ '.'
  quote : c ∉ quotes.map Quote.char

theorem Severs.parting {c : Char} (severs : Severs c) : Parting c where
  word := severs.outside.1
  digit := severs.outside.2.1
  point := severs.outside.2.2 '.' (by simp)
  quote quotation := by
    obtain ⟨quote, known, rfl⟩ := List.mem_map.mp quotation
    have listed : ∀ quote ∈ quotes, quote.char ∈ ['.', '-', '*', '\x27', '\x22'] := by decide
    exact severs.outside.2.2 quote.char (listed quote known) rfl

theorem parting_of_isBlank {c : Char} (blank : Text.isBlank c = true) : Parting c :=
  Severs.parting (.inl blank)

theorem mark?_of_listed {c : Char} {kind : TokenKind} (listed : (c, kind) ∈ marks) :
    kind.mark? = none := by
  have markless : ∀ mark ∈ marks, mark.2.mark? = none := by decide
  exact markless _ listed

theorem Spelled.mark?_eq_none {text : String} {kind : TokenKind} (spelled : Spelled text kind) :
    kind.mark? = none := by
  by_cases keyword : ∃ word, kind = .keyword word
  · obtain ⟨word, rfl⟩ := keyword
    rfl
  · rw [spelled.name fun word same => keyword ⟨word, same⟩]
    rfl

theorem Lexeme.closed {kind : TokenKind} {written text behind : List Char}
    (lexeme : Lexeme kind written text behind) (further : behind ≠ []) :
    ∀ mark ∈ kind.mark?, written = mark :: text ++ [mark] := by
  intro mark marked
  cases lexeme with
  | mark listed => simp [mark?_of_listed listed] at marked
  | word _ _ _ spelled => simp [spelled.mark?_eq_none] at marked
  | number => contradiction
  | string known ending =>
      obtain rfl := Option.some.inj marked
      cases ending with
      | closed => rfl
      | unclosed => contradiction
      | escaping => contradiction
  | quotedIdentifier inside closes =>
      obtain rfl := Option.some.inj marked
      rcases closes with rfl | ⟨-, rfl⟩
      · rfl
      · contradiction
  | directive => contradiction

theorem Lexeme.written_eq {kind : TokenKind} {written text behind : List Char}
    (lexeme : Lexeme kind written text behind) (no_directive : kind ≠ .directive)
    (closed : ∀ mark ∈ kind.mark?, written = mark :: text ++ [mark]) :
    written = kind.write text := by
  cases lexeme with
  | mark listed => simp [TokenKind.write, mark?_of_listed listed]
  | word starts continues stops spelled => simp [TokenKind.write, spelled.mark?_eq_none]
  | number signed digits point stops => rfl
  | string known ending => exact closed _ rfl
  | quotedIdentifier inside closes => exact closed _ rfl
  | directive inside closes => contradiction

/-- A kind and a text whose writing is read as such a token, whatever it is parted from. -/
def Writable (kind : TokenKind) (text : List Char) : Prop :=
  ∀ behind, (∀ c ∈ behind.head?, Parting c) → Lexeme kind (kind.write text) text behind

theorem Lexeme.writable {kind : TokenKind} {written text behind : List Char}
    (lexeme : Lexeme kind written text behind) (no_directive : kind ≠ .directive)
    (closed : ∀ mark ∈ kind.mark?, written = mark :: text ++ [mark]) : Writable kind text := by
  intro other parting
  have same := lexeme.written_eq no_directive closed
  rw [← same]
  cases lexeme with
  | mark listed => exact .mark listed
  | word starts continues stops spelled =>
      exact .word starts continues (fun d next => (parting d next).word) spelled
  | number signed digits point stops =>
      refine .number signed digits (point.imp_left fun whole => ⟨whole.1, ?_⟩)
        fun d next => (parting d next).digit
      exact fun fraction => (parting '.' fraction.1).point rfl
  | string known ending =>
      cases ending with
      | closed inside single =>
          exact .string known (.closed inside fun next =>
            (parting _ next).quote (List.mem_map_of_mem known))
      | unclosed inside => simp [TokenKind.write, TokenKind.mark?] at same
      | escaping inside => simp [TokenKind.write, TokenKind.mark?] at same
  | quotedIdentifier inside closes =>
      obtain rfl : _ = ['\x60'] := by simpa [TokenKind.write, TokenKind.mark?] using same
      exact .quotedIdentifier inside (.inl rfl)
  | directive inside closes => contradiction

namespace Token

theorem scan_lexeme {kind : TokenKind} {written text behind : List Char}
    (lexeme : Lexeme kind written text behind) (position : Position) :
    (scan position (written ++ behind)).map content =
      (kind, .ofList text) :: (scan (position.advance written) behind).map content := by
  obtain ⟨c, rest, rfl, piece⟩ := Piece.front_of_lexeme lexeme
  rw [List.cons_append, scan_cons, piece]
  rfl

theorem scan_blank {c : Char} (blank : Text.isBlank c = true) (position : Position)
    (behind : List Char) :
    scan position (c :: behind) = scan (position.advance [c]) behind := by
  rw [scan_cons, Piece.front_blank blank]
  rfl

theorem scan_spaced {tokens : List Token}
    (writable : ∀ token ∈ tokens, Writable token.kind token.text.toList) (position : Position) :
    (scan position (" ".intercalate (tokens.map sql)).toList).map content =
      tokens.map content := by
  induction tokens generalizing position with
  | nil => simp
  | cons token rest ih =>
      obtain ⟨first, later⟩ := List.forall_mem_cons.mp writable
      have said (behind : List Char) (parting : ∀ c ∈ behind.head?, Parting c) :
          (scan position (token.sql.toList ++ behind)).map content =
            token.content ::
              (scan (position.advance token.sql.toList) behind).map content := by
        have taken := scan_lexeme (first behind parting) position
        rwa [← sql_toList, String.ofList_toList] at taken
      -- behind a token the text ends or a space stands, and neither goes on with it
      cases rest with
      | nil => simpa using said [] (by simp)
      | cons next rest =>
          have space : Text.isBlank ' ' = true := by decide
          have parted := said (' ' :: (" ".intercalate ((next :: rest).map sql)).toList)
            (by simpa using parting_of_isBlank space)
          rw [scan_blank space, ih later] at parted
          simpa [String.intercalate_cons_cons] using parted

theorem writable_of_mem {text : String} {token : Token} (member : token ∈ scanText text)
    (no_directive : token.isDirective = false) (closed : token.Closed text.toList) :
    Writable token.kind token.text.toList := by
  obtain ⟨scanned, whole, stands⟩ := (ofText_tiles text).ended
  obtain ⟨rfl, -⟩ := List.append_inj' whole rfl
  obtain ⟨before, written, behind, parts, writtenAt⟩ := stands token member
  refine writtenAt.lexeme.writable (by simpa [isDirective] using no_directive) ?_
  intro mark marked
  have slice := closed mark marked
  rw [List.nil_append] at parts
  rw [parts, writtenAt.slice] at slice
  exact Option.some.inj slice

theorem writable_of_followed {text : String} {token next : Token} {rest : List Token}
    (among : token :: next :: rest <:+: visible .start text.toList) :
    Writable token.kind token.text.toList := by
  obtain ⟨earlier, later, tokens⟩ := among
  simp only [List.append_assoc, List.cons_append] at tokens
  obtain ⟨before, c, behind, stands, _, from_token⟩ := visible_split tokens.symm
  have lawful := Piece.front_lawful c behind
  obtain ⟨kind, found, made⟩ := Option.map_eq_some_iff.mp stands.piece
  rw [Piece.Lawful, found] at lawful
  have no_directive : token.isDirective = false := by
    have seen : token ∈ visible .start text.toList := by simp [← tokens]
    simpa using (List.mem_filter.mp seen).2
  -- the other token is scanned from the characters behind the first one
  have further : (Piece.front c behind).rest ≠ [] := by
    intro nothing
    rw [visible, scan_cons, stands.piece, nothing] at from_token
    simp [no_directive] at from_token
  subst made
  have writable := lawful.writable (by simpa [isDirective] using no_directive)
    (lawful.closed further)
  simpa using writable

/-- The tokens of a text but its directives, each as SQL writes it, with spaces between them. -/
def printed (text : String) : String :=
  " ".intercalate ((visible .start text.toList).map sql)

/-- A text whose strings and quoted identifiers are all closed says the same when its tokens are
printed: they are scanned again with the kinds and texts that they had, and then comes the end of
input. -/
theorem ofText_printed {text : String}
    (closed : ∀ token ∈ scanText text, token.Closed text.toList) :
    (ofText (printed text)).map content = contents text.toList ++ [(.endOfInput, "")] := by
  have writable : ∀ token ∈ visible .start text.toList,
      Writable token.kind token.text.toList := by
    intro token member
    obtain ⟨scanned, seen⟩ := List.mem_filter.mp member
    exact writable_of_mem scanned (by simpa using seen) (closed token scanned)
  rw [ofText, List.map_append, scanText, printed, scan_spaced writable]
  rfl

/-- Escapes, quotes written twice, a sign and a point, a word right behind a number, a directive and
a comment. -/
theorem ofText_printed_tangled :
    (∀ token ∈ scanText "N'it''s \\'' = -1.5e3.`b -- c` /*! x */ -- d",
      token.Closed "N'it''s \\'' = -1.5e3.`b -- c` /*! x */ -- d".toList) ∧
    (ofText (printed "N'it''s \\'' = -1.5e3.`b -- c` /*! x */ -- d")).map content =
      contents "N'it''s \\'' = -1.5e3.`b -- c` /*! x */ -- d".toList ++ [(.endOfInput, "")] := by
  have closed : ∀ token ∈ scanText "N'it''s \\'' = -1.5e3.`b -- c` /*! x */ -- d",
      token.Closed "N'it''s \\'' = -1.5e3.`b -- c` /*! x */ -- d".toList := by
    decide +kernel
  exact ⟨closed, ofText_printed closed⟩

end Token

end SchemaDrift
