import SchemaDrift.Proofs.Excerpt
import SchemaDrift.Proofs.Spacing

/-!
What a text says, whatever its layout: the kinds and texts of its tokens, those of directives left
out. Normal spacing keeps that, unless a comment goes on to the end of its line or upsets the
quotes.
-/

namespace SchemaDrift

open Text

/-- What a token says wherever it stands. -/
def Token.content (token : Token) : TokenKind × String :=
  (token.kind, token.text)

def contents (chars : List Char) : List (TokenKind × String) :=
  (Token.visible .start chars).map Token.content

theorem Token.visible_content (position : Position) (chars : List Char) :
    (visible position chars).map content = contents chars := by
  have moved := visible_relocate position Position.start_counted chars
  rw [Position.relocate_start] at moved
  rw [moved, List.map_map]
  rfl

def Piece.content? (piece : Piece) : Option (TokenKind × String) :=
  (piece.kind.filter (· != .directive)).map fun kind => (kind, .ofList piece.text)

theorem contents_cons (c : Char) (rest : List Char) :
    contents (c :: rest) =
      (Piece.front c rest).content?.toList ++ contents (Piece.front c rest).rest := by
  rw [contents, Token.visible, Token.scan_cons, List.filter_append, List.map_append,
    ← Token.visible_content (Position.start.advance (Piece.front c rest).written), Token.visible]
  congr 1
  rw [Token.ofPiece, Piece.content?]
  cases found : (Piece.front c rest).kind with
  | none => rfl
  | some kind =>
      by_cases directive : kind = .directive
      · simp [directive, Token.isDirective]
      · simp [directive, Token.isDirective, Token.content, Option.filter]

theorem contents_blank {c : Char} (blank : isBlank c = true) (rest : List Char) :
    contents (c :: rest) = contents rest := by
  rw [contents_cons, Piece.front_blank blank]
  rfl

theorem contents_trimStart (chars : List Char) : contents (trimStart chars) = contents chars := by
  induction chars with
  | nil => rfl
  | cons c rest ih =>
      by_cases blank : isBlank c = true
      · rw [trimStart, List.dropWhile_cons_of_pos blank, contents_blank blank]
        exact ih
      · rw [trimStart, List.dropWhile_cons_of_neg blank]

namespace Text

/-- Where a reader stands behind the characters. -/
def Quoting.behind (quoting : Quoting) (chars : List Char) : Quoting :=
  chars.foldl Quoting.after quoting

theorem squeeze_append {rest : List Char} (starts : ∀ c ∈ rest.head?, isBlank c = false)
    (quoting : Quoting) (chars : List Char) :
    squeeze quoting (chars ++ rest) =
      squeeze quoting chars ++ squeeze (quoting.behind chars) rest := by
  induction chars generalizing quoting with
  | nil => rw [squeeze_nil]; rfl
  | cons c chars ih =>
      have further : quoting.behind (c :: chars) = (quoting.after c).behind chars := rfl
      by_cases even : quoting = .free ∧ isBlank c = true
      · obtain ⟨rfl, blank⟩ := even
        have same_head : (chars ++ rest).head?.any isBlank = chars.head?.any isBlank := by
          cases chars with
          | cons d chars => rfl
          | nil =>
              cases next : rest.head? with
              | none => simp [next]
              | some d => simp [next, starts d next]
        rw [List.cons_append, squeeze_blank blank, squeeze_blank blank, same_head, further,
          after_blank blank, ih]
        split <;> rfl
      · rw [List.cons_append, squeeze_kept even, squeeze_kept even, further, ih]
        rfl

theorem head?_squeeze {quoting : Quoting} {chars : List Char} {c : Char}
    (first : (squeeze quoting chars).head? = some c) (not_blank : isBlank c = false) :
    chars.head? = some c := by
  induction chars generalizing quoting with
  | nil => simp [squeeze_nil] at first
  | cons d chars ih =>
      by_cases even : quoting = .free ∧ isBlank d = true
      · obtain ⟨rfl, blank⟩ := even
        rw [squeeze_blank blank] at first
        split at first
        next more =>
          rw [ih first, Option.any_some, not_blank] at more
          contradiction
        next =>
          obtain rfl : ' ' = c := by simpa using first
          exact absurd not_blank (by decide)
      · rw [squeeze_kept even] at first
        simpa using first

theorem starSlash_squeeze {quoting : Quoting} {chars : List Char}
    (closes : ['*', '/'] <:+: squeeze quoting chars) : ['*', '/'] <:+: chars := by
  induction chars generalizing quoting with
  | nil => simp [squeeze_nil] at closes
  | cons c chars ih =>
      have deeper (quoting : Quoting) (later : ['*', '/'] <:+: squeeze quoting chars) :
          ['*', '/'] <:+: c :: chars := (ih later).trans (List.suffix_cons c chars).isInfix
      by_cases even : quoting = .free ∧ isBlank c = true
      · obtain ⟨rfl, blank⟩ := even
        rw [squeeze_blank blank] at closes
        split at closes
        · exact deeper _ closes
        · rcases List.infix_cons_iff.mp closes with ⟨more, front⟩ | later
          · exact absurd (List.cons.inj front).1 (by decide)
          · exact deeper _ later
      · rw [squeeze_kept even] at closes
        rcases List.infix_cons_iff.mp closes with ⟨more, front⟩ | later
        · obtain ⟨rfl, slash⟩ := List.cons.inj front
          have next : (squeeze (quoting.after '*') chars).head? = some '/' := by rw [← slash]; rfl
          obtain ⟨chars, rfl⟩ := List.head?_eq_some_iff.mp (head?_squeeze next (by decide))
          exact ⟨[], chars, rfl⟩
        · exact deeper _ later

theorem squeeze_comment {opening body : List Char}
    (opens : opening = ['/', '*'] ∨ opening = ['/', '*', '!'])
    (settled : Quoting.behind .free (opening ++ body ++ ['*', '/']) = .free) (rest : List Char) :
    squeeze .free (opening ++ body ++ ['*', '/'] ++ rest) =
      opening ++ squeeze .free body ++ ['*', '/'] ++ squeeze .free rest := by
  have unquoted : (∀ c ∈ opening, isBlank c = false ∧ isQuotationMark c = false) ∧
      Quoting.behind .free opening = .free := by
    rcases opens with rfl | rfl <;>
      simp only [List.forall_mem_cons, List.not_mem_nil, false_implies, implies_true] <;> decide
  have closed : ((Quoting.behind .free body).after '*').after '/' = .free := by
    have whole := settled
    simp only [Quoting.behind, List.foldl_append] at whole unquoted ⊢
    rwa [unquoted.2] at whole
  have star : isBlank '*' = false := by decide
  have slash : isBlank '/' = false := by decide
  simp only [List.append_assoc]
  rw [squeeze_unquoted unquoted.1, squeeze_append (by simp [star]), List.cons_append,
    List.cons_append, List.nil_append, squeeze_kept (by simp [star]),
    squeeze_kept (by simp [slash]),
    closed]
  rfl

theorem trimEnd_append {chars : List Char} (ends : ∀ c ∈ chars.getLast?, isBlank c = false)
    (nonempty : chars ≠ []) (rest : List Char) :
    trimEnd (chars ++ rest) = chars ++ trimEnd rest := by
  induction chars with
  | nil => exact absurd rfl nonempty
  | cons c chars ih =>
      cases chars with
      | nil =>
          have last : isBlank c = false := ends c rfl
          rw [List.singleton_append, trimEnd_cons, if_neg (by simp [last])]
          rfl
      | cons d chars =>
          have later := ih (fun e last => ends e (by simpa using last)) (List.cons_ne_nil d chars)
          rw [List.cons_append, trimEnd_cons, later, if_neg (by simp)]
          rfl

end Text

theorem Lexeme.last {kind : TokenKind} {written text behind : List Char}
    (lexeme : Lexeme kind written text behind) (closed : behind ≠ []) :
    ∀ c ∈ written.getLast?, isBlank c = false := by
  have closing_last (delimiter : List Char) {closing front : List Char} {mark : Char}
      (closes : Closes (delimiter ++ [mark]) closing behind) (visible : isBlank mark = false) :
      ∀ c ∈ (front ++ closing).getLast?, isBlank c = false := by
    obtain rfl := closes.resolve_right fun open_end => closed open_end.2
    simpa [← List.append_assoc] using visible
  cases lexeme with
  | mark listed =>
      have visible : ∀ mark ∈ marks, isBlank mark.1 = false := by decide
      simpa using visible _ listed
  | word starts continues stops spelled =>
      exact fun c last => (unquoted_of_word starts continues c (List.mem_of_getLast? last)).1
  | number signed digits point stops =>
      exact fun c last => (unquoted_of_number signed digits point c (List.mem_of_getLast? last)).1
  | @string quote body closing _ known ending =>
      cases ending with
      | closed inside single =>
          have visible : ∀ quote ∈ quotes, isBlank quote.char = false := by decide
          exact closing_last [] (.inl rfl) (visible quote known)
      | unclosed inside => exact absurd rfl closed
      | escaping inside => exact absurd rfl closed
  | quotedIdentifier inside closes => exact closing_last [] closes (by decide)
  | directive inside closes => exact closing_last ['*'] closes (by decide)

namespace Text

def even (chars : List Char) : List Char :=
  trimEnd (squeeze .free chars)

theorem normalizeSpacing_eq (text : String) :
    normalizeSpacing text = .ofList (even (trimStart text.toList)) := by
  rw [normalizeSpacing, trim, squeeze_trimEnd, even]

theorem even_head? {chars : List Char} {c : Char} (first : (even chars).head? = some c)
    (not_blank : isBlank c = false) : chars.head? = some c := by
  have nonempty : trimEnd (squeeze .free chars) ≠ [] := fun nothing => by
    rw [even, nothing] at first
    contradiction
  rw [even, trimEnd_head? nonempty] at first
  exact head?_squeeze first not_blank

theorem even_plain {c : Char} (blank : isBlank c = false) (mark : isQuotationMark c = false)
    (chars : List Char) : even (c :: chars) = c :: even chars := by
  rw [even, squeeze_plain blank mark, trimEnd_cons, if_neg (by simp [blank])]
  rfl

/-- What a token cannot tell apart: what stands behind it, and that in normal spacing. -/
theorem indistinct_even (chars behind : List Char) : Indistinct (chars ++ behind) (even chars) where
  head c first := by
    by_cases blank : isBlank c = true
    · exact .inl (.inl blank)
    · have same := even_head? first (Bool.eq_false_of_not_eq_true blank)
      exact .inr (by simp [List.head?_append, same])
  fraction fraction := by
    obtain ⟨point, digit⟩ := fraction
    obtain ⟨chars, rfl⟩ := List.head?_eq_some_iff.mp (even_head? point (by decide))
    rw [even_plain (by decide) (by decide), List.drop_succ_cons, List.drop_zero] at digit
    refine ⟨rfl, ?_⟩
    cases next : (even chars).head? with
    | none => simp [next] at digit
    | some d =>
        have is_digit : d.isDigit = true := by simpa [next] using digit
        have same := even_head? next (isBlank_of_isDigit is_digit)
        simp [List.head?_append, same, is_digit]

end Text

theorem contents_lexeme {kind : TokenKind} {written text behind : List Char}
    (lexeme : Lexeme kind written text behind) (seen : kind ≠ .directive) :
    contents (written ++ behind) = (kind, .ofList text) :: contents behind := by
  obtain ⟨c, others, rfl, piece⟩ := Piece.front_of_lexeme lexeme
  rw [List.cons_append, contents_cons, piece]
  simp [Piece.content?, Option.filter, seen]

section Steps

variable {rest behind : List Char}

/-! What normal spacing does to what stands in front. -/

theorem even_token {kind : TokenKind} {written text : List Char}
    (lexeme : Lexeme kind written text (rest ++ behind)) (closed : rest ++ behind ≠ [])
    (seen : kind ≠ .directive) : even (written ++ rest) = written ++ even rest := by
  rw [even, lexeme.squeeze closed seen, trimEnd_append (lexeme.last closed) lexeme.written_ne_nil]
  rfl

theorem even_stray {c : Char} (blank : isBlank c = false) (no_token : ¬StartsToken c (rest ++ behind)) :
    even (c :: rest) = c :: even rest := by
  rw [even, squeeze_stray blank no_token, trimEnd_cons, if_neg (by simp [blank])]
  rfl

theorem even_blank {c : Char} (blank : isBlank c = true) (rest : List Char) :
    even (c :: rest) = even rest ∨ even (c :: rest) = ' ' :: even rest := by
  rw [even, squeeze_blank blank]
  split
  · exact .inl rfl
  · rw [trimEnd_cons]
    split
    next nothing => exact .inl nothing.2.symm
    next => exact .inr rfl

theorem contents_token {kind : TokenKind} {written text : List Char}
    (lexeme : Lexeme kind written text (rest ++ behind)) (closed : rest ++ behind ≠ [])
    (seen : kind ≠ .directive) :
    contents (even (written ++ rest)) = (kind, .ofList text) :: contents (even rest) := by
  rw [even_token lexeme closed seen,
    contents_lexeme (lexeme.transfer closed (indistinct_even rest behind)) seen]

theorem contents_closed {opening body : List Char}
    (opens : opening = ['/', '*'] ∧ body.head? ≠ some '!' ∨ opening = ['/', '*', '!'])
    (inside : ¬['*', '/'] <:+: body)
    (settled : Quoting.behind .free (opening ++ body ++ ['*', '/']) = .free) :
    contents (even (opening ++ body ++ ['*', '/'] ++ rest)) = contents (even rest) := by
  have still_inside : ¬['*', '/'] <:+: squeeze .free body := fun closes =>
    inside (starSlash_squeeze closes)
  have kept : even (opening ++ body ++ ['*', '/'] ++ rest) =
      opening ++ squeeze .free body ++ ['*', '/'] ++ even rest := by
    have ends : isBlank '/' = false := by decide
    rw [even, squeeze_comment (opens.imp_left And.left) settled,
      trimEnd_append (by simp [ends]) (by simp)]
    rfl
  rw [kept]
  have closes : Closes ['*', '/'] ['*', '/'] (even rest) := .inl rfl
  rcases opens with ⟨rfl, no_bang⟩ | rfl
  · have still_no_bang : (squeeze .free body).head? ≠ some '!' := fun bang =>
      no_bang (head?_squeeze bang (by decide))
    have comment := Piece.front_block still_no_bang still_inside closes
    simp only [List.cons_append, List.nil_append] at comment ⊢
    rw [contents_cons, comment]
    rfl
  · have directive := Piece.front_directive still_inside closes
    simp only [List.cons_append, List.nil_append] at directive ⊢
    rw [contents_cons, directive]
    rfl

theorem contents_stray {c : Char} (blank : isBlank c = false)
    (no_comment : ¬OpensComment c (rest ++ behind)) (no_token : ¬StartsToken c (rest ++ behind)) :
    contents (even (c :: rest)) = contents (even rest) := by
  obtain ⟨still_no_comment, still_no_token⟩ :=
    no_comment_transfer (indistinct_even rest behind) no_comment no_token
  rw [even_stray blank no_token, contents_cons, Piece.front_stray still_no_comment still_no_token]
  rfl

theorem contents_spaced {c : Char} (blank : isBlank c = true) :
    contents (even (c :: rest)) = contents (even rest) := by
  rcases even_blank blank rest with same | spaced
  · rw [same]
  · rw [spaced, contents_blank (by decide)]

end Steps

/-- No comment goes on to the end of its line, and in the comments and the directives all quotes are
closed. -/
def Tidy (chars : List Char) : Prop :=
  ∀ c rest, Reaches chars (c :: rest) →
    ¬(c = '#' ∨ c = '-' ∧ rest.head? = some '-') ∧
      (c = '/' ∧ rest.head? = some '*' →
        Quoting.behind .free (Piece.front c rest).written = .free)

theorem Tidy.further {chars behind : List Char} (tidy : Tidy chars)
    (reached : Reaches chars behind) :
    Tidy behind :=
  fun c rest later => tidy c rest (reached.trans later)

theorem Tidy.contents_remark {c : Char} {rest opening body : List Char} (tidy : Tidy (c :: rest))
    (written : (Piece.front c rest).written = opening ++ body ++ ['*', '/'])
    (opens : opening = ['/', '*'] ∧ body.head? ≠ some '!' ∨ opening = ['/', '*', '!'])
    (inside : ¬['*', '/'] <:+: body) :
    contents (even (c :: rest)) = contents (even (Piece.front c rest).rest) := by
  have whole := Piece.front_append c rest
  have starts : c = '/' ∧ rest.head? = some '*' := by
    rw [written] at whole
    rcases opens with ⟨rfl, _⟩ | rfl <;>
    · obtain ⟨rfl, others⟩ := List.cons.inj whole
      exact ⟨rfl, by rw [← others]; rfl⟩
  have settled := (tidy c rest (.here _)).2 starts
  rw [written] at settled whole
  rw [← whole]
  exact contents_closed opens inside settled

/-- In normal spacing a tidy part of a text says what it says in its place. -/
theorem contents_even {chars behind : List Char} (closes : behind.head? = some ')')
    (reached : Reaches (chars ++ behind) behind) (tidy : Tidy chars) :
    contents (even chars) = contents chars := by
  induction chars using Piece.front_induction with
  | nil => rfl
  | cons c rest ih =>
      have closed : (Piece.front c rest).rest ++ behind ≠ [] :=
        List.append_ne_nil_of_right_ne_nil _ fun nothing => by simp [nothing] at closes
      have later := reached.of_cons_append
      have same := Piece.front_local c rest behind later.length_le
      have cases := Piece.front_cases c (rest ++ behind)
      have whole := Piece.front_append c rest
      rw [same] at later cases
      have tail := ih later (tidy.further (.past (.here _)))
      rw [contents_cons]
      rcases cases with ⟨kind, found, lexeme⟩ | comment | ⟨alone, skipped⟩
      · -- a token: all but a directive goes through as it is written
        have is_kind : (Piece.front c rest).kind = some kind := found
        by_cases directive : kind = .directive
        · obtain ⟨closing, written, inside, closing_off⟩ := lexeme.directive_parts directive
          obtain rfl := closing_off.resolve_right fun open_end => closed open_end.2
          rw [tidy.contents_remark written (.inr rfl) inside, tail]
          simp [Piece.content?, is_kind, directive]
        · have said := contents_token lexeme closed directive
          rw [Piece.followedBy_written, whole] at said
          rw [said, tail]
          simp [Piece.content?, is_kind, Option.filter, directive]
          rfl
      · rcases Piece.front_comment comment with line | ⟨-, body, closing, _, -, no_bang, inside,
          closing_off, remark⟩
        · -- nothing tidy has a comment to the end of its line
          refine absurd (line.imp_right fun ⟨dash, next⟩ => ⟨dash, ?_⟩) (tidy c rest (.here _)).1
          cases rest with
          | nil => simp [closes] at next
          | cons d rest => exact next
        · rw [same] at remark
          have written : (Piece.front c rest).written = ['/', '*'] ++ body ++ closing :=
            congrArg Piece.written remark
          have silent : (Piece.front c rest).kind = none := congrArg Piece.kind remark
          have left : (Piece.front c rest).rest ++ behind = _ := congrArg Piece.rest remark
          obtain rfl := closing_off.resolve_right fun open_end => closed (left.trans open_end.2)
          rw [tidy.contents_remark written (.inl ⟨rfl, no_bang⟩) inside, tail]
          simp [Piece.content?, silent]
      · -- a blank, or a character that no token starts with
        have written : (Piece.front c rest).written = [c] := congrArg Piece.written alone
        have silent : (Piece.front c rest).kind = none := congrArg Piece.kind alone
        have left : (Piece.front c rest).rest = rest := by
          rw [written] at whole
          exact (List.cons.inj whole).2
        rw [left] at tail ⊢
        have same_content : contents (even (c :: rest)) = contents (even rest) := by
          by_cases blank : isBlank c = true
          · exact contents_spaced blank
          · obtain ⟨no_comment, no_token⟩ := skipped.resolve_left blank
            exact contents_stray (Bool.eq_false_of_not_eq_true blank) no_comment no_token
        rw [same_content, tail]
        simp [Piece.content?, silent]

theorem Reaches.to_trimStart (chars : List Char) : Reaches chars (trimStart chars) := by
  have blank : ∀ c ∈ chars.takeWhile isBlank, isBlank c = true :=
    fun c member => List.mem_takeWhile_imp member
  have through := Reaches.through_blanks blank (trimStart chars)
  rwa [trimStart, List.takeWhile_append_dropWhile] at through

theorem contents_normalizeSpacing {text : String} {behind : List Char}
    (closes : behind.head? = some ')') (reached : Reaches (text.toList ++ behind) behind)
    (tidy : Tidy text.toList) : contents (normalizeSpacing text).toList = contents text.toList := by
  have trimmed := Reaches.to_trimStart text.toList
  rw [normalizeSpacing_eq, String.toList_ofList,
    contents_even closes (trimmed.within reached).2 (tidy.further trimmed), contents_trimStart]

end SchemaDrift
