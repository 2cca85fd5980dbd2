import SchemaDrift.Proofs.Excerpt

/-!
The seam between two texts. A piece that leaves a semicolon at the very end of a text is told by
then: no quote, comment, number or word goes on across it, whatever is put behind it. So a text that
ends in a semicolon gives its own tokens in front of any other text, and that text gives its own
behind it, moved there.
-/

namespace SchemaDrift

section Runs

variable {p : Char → Bool} {chars : List Char}

theorem dropWhile_stopped (stopped : chars.dropWhile p ≠ []) (behind : List Char) :
    (chars ++ behind).dropWhile p = chars.dropWhile p ++ behind := by
  simp [List.dropWhile_append, stopped]

theorem takeWhile_stopped (stopped : chars.dropWhile p ≠ []) (behind : List Char) :
    (chars ++ behind).takeWhile p = chars.takeWhile p := by
  apply takeWhile_local
  rw [dropWhile_stopped stopped, List.length_append]
  exact Nat.le_add_left _ _

end Runs

namespace Enclosed

variable {mark : Char} {chars : List Char}

theorem byMark_stopped (stopped : (byMark mark chars).rest ≠ []) (behind : List Char) :
    byMark mark (chars ++ behind) = (byMark mark chars).followedBy behind := by
  have inside : chars.dropWhile (· != mark) ≠ [] := by
    intro empty
    simp [byMark, empty] at stopped
  rw [byMark, takeWhile_stopped inside, dropWhile_stopped inside]
  obtain ⟨closing, rest, parts⟩ := List.exists_cons_of_ne_nil inside
  simp [byMark, followedBy, parts]

theorem byQuote_stopped (stopped : (byQuote mark chars).rest ≠ []) (behind : List Char) :
    byQuote mark (chars ++ behind) = (byQuote mark chars).followedBy behind := by
  fun_induction byQuote mark chars with
  | case1 => exact absurd rfl stopped
  | case2 => exact absurd rfl stopped
  | case3 d rest ih =>
      simp only [List.cons_append, byQuote, ↓reduceIte]
      rw [ih stopped, prepend_followedBy]
  | case4 => exact absurd rfl stopped
  | case5 rest not_escape ih =>
      simp only [List.cons_append, byQuote, not_escape, ↓reduceIte]
      rw [ih stopped, prepend_followedBy]
  | case6 d rest not_doubled not_escape => simp [byQuote, not_escape, not_doubled, followedBy]
  | case7 c rest not_escape not_mark ih =>
      rw [List.cons_append, byQuote.eq_def]
      simp only [not_escape, not_mark, ↓reduceIte]
      rw [ih stopped, prepend_followedBy]

theorem byStarSlash_stopped (stopped : (byStarSlash chars).rest ≠ []) (behind : List Char) :
    byStarSlash (chars ++ behind) = (byStarSlash chars).followedBy behind := by
  fun_induction byStarSlash chars with
  | case1 => exact absurd rfl stopped
  | case2 c rest closes =>
      obtain ⟨rfl, next⟩ := closes
      cases rest with
      | nil => simp at next
      | cons slash rest => simp_all [byStarSlash, followedBy]
  | case3 c rest still_open ih =>
      rcases rest with _ | ⟨d, rest⟩
      · exact absurd rfl stopped
      · have also_open : ¬(c = '*' ∧ (d :: rest ++ behind).head? = some '/') := still_open
        rw [List.cons_append, byStarSlash, if_neg also_open, ih stopped, prepend_followedBy]

end Enclosed

namespace Piece

variable {sign chars : List Char}

theorem number_stopped {left : List Char} (stopped : (number sign chars).rest = left ++ [';'])
    (behind : List Char) : number sign (chars ++ behind) = (number sign chars).followedBy behind := by
  have shorter := number_rest_length_le sign chars
  have whole : chars.dropWhile Char.isDigit ≠ [] := by
    intro empty
    simp [stopped, empty] at shorter
  rw [number_eq] at stopped
  rw [number_eq, number_eq, takeWhile_stopped whole, dropWhile_stopped whole]
  generalize chars.takeWhile Char.isDigit = digits at *
  generalize chars.dropWhile Char.isDigit = after at *
  rw [numberFrom] at stopped
  rw [numberFrom, numberFrom]
  by_cases fraction : Fraction after
  · have long := fraction_rest_length fraction
    rw [if_pos fraction] at stopped
    have fraction_stopped : (after.drop 1).dropWhile Char.isDigit ≠ [] := by
      intro empty
      rw [empty] at stopped
      simp [plain] at stopped
    rw [if_pos fraction, if_pos ((fraction_append (by omega) behind).mpr fraction),
      List.drop_append_of_le_length (by omega), takeWhile_stopped fraction_stopped,
      dropWhile_stopped fraction_stopped]
    rfl
  · rw [if_neg fraction] at stopped
    obtain rfl : after = left ++ [';'] := stopped
    have still_none : ¬Fraction (left ++ [';'] ++ behind) := by
      rcases left with _ | ⟨c, left⟩
      · simp [Fraction]
      · rwa [fraction_append (by simp)]
    rw [if_neg fraction, if_neg still_none]
    rfl

theorem word_stopped (stopped : (word chars).rest ≠ []) (behind : List Char) :
    word (chars ++ behind) = (word chars).followedBy behind := by
  have inside : chars.dropWhile Text.continuesWord ≠ [] := stopped
  simp only [word, takeWhile_stopped inside, dropWhile_stopped inside]
  rfl

theorem lineComment_stopped (stopped : (lineComment chars).rest ≠ []) (behind : List Char) :
    lineComment (chars ++ behind) = (lineComment chars).followedBy behind := by
  have inside : chars.dropWhile (· != '\n') ≠ [] := stopped
  rw [lineComment, takeWhile_stopped inside, dropWhile_stopped inside]
  rfl

theorem starComment_stopped (stopped : (starComment chars).rest ≠ []) (behind : List Char) :
    starComment (chars ++ behind) = (starComment chars).followedBy behind := by
  rw [starComment] at stopped ⊢
  rw [starComment]
  rcases chars with _ | ⟨c, chars⟩
  · exact absurd rfl stopped
  by_cases bang : c = '!'
  · simp only [bang, List.head?_cons, ↓reduceIte, List.cons_append, List.drop_succ_cons,
      List.drop_zero] at stopped ⊢
    rw [directive, Enclosed.byStarSlash_stopped stopped]
    rfl
  · simp only [List.cons_append, List.head?_cons, Option.some.injEq, bang, ↓reduceIte] at stopped ⊢
    rw [← List.cons_append, blockComment, Enclosed.byStarSlash_stopped stopped]
    rfl

theorem lexeme_stopped (c d : Char) (rest : List Char) {left : List Char}
    (stopped : (lexeme c (d :: rest)).rest = left ++ [';']) (behind : List Char) :
    lexeme c (d :: rest ++ behind) = (lexeme c (d :: rest)).followedBy behind := by
  have some_left : (lexeme c (d :: rest)).rest ≠ [] := by simp [stopped]
  unfold lexeme at *
  cases mark : mark? c with
  | some kind => rfl
  | none =>
      cases quote : quote? c with
      | some quote =>
          simp only [mark, quote] at some_left ⊢
          rw [Enclosed.byQuote_stopped some_left]
          rfl
      | none =>
          simp only [mark, quote] at stopped some_left ⊢
          by_cases back_quote : c = '\x60'
          · simp only [back_quote, ↓reduceIte] at some_left ⊢
            rw [Enclosed.byMark_stopped some_left]
            rfl
          rw [if_neg back_quote] at stopped some_left ⊢
          rw [if_neg back_quote]
          by_cases negative : c = '-' ∧ (d :: rest).head?.any Char.isDigit = true
          · have also_negative : c = '-' ∧ (d :: rest ++ behind).head?.any Char.isDigit = true :=
              negative
            rw [if_pos negative] at stopped ⊢
            rw [if_pos also_negative, number_stopped stopped]
          · have not_either : ¬(c = '-' ∧ (d :: rest ++ behind).head?.any Char.isDigit = true) :=
              negative
            rw [if_neg negative] at stopped some_left ⊢
            rw [if_neg not_either]
            by_cases digit : c.isDigit = true
            · simp only [digit, ↓reduceIte] at stopped ⊢
              exact number_stopped stopped behind
            rw [if_neg digit] at some_left ⊢
            rw [if_neg digit]
            by_cases starts : Text.startsWord c = true
            · simp only [starts, ↓reduceIte] at some_left ⊢
              exact word_stopped some_left behind
            · rw [if_neg starts, if_neg starts]
              rfl

/-- A piece that stops before a semicolon, the last character of the text, is the same with any text
behind that. -/
theorem front_stopped (c : Char) (rest : List Char) {left : List Char}
    (stopped : (front c rest).rest = left ++ [';']) (behind : List Char) :
    front c (rest ++ behind) = (front c rest).followedBy behind := by
  have some_left : (front c rest).rest ≠ [] := by simp [stopped]
  obtain ⟨d, rest, rfl⟩ : ∃ d later, rest = d :: later := by
    apply List.exists_cons_of_ne_nil
    rintro rfl
    have shorter := front_rest_length_le c []
    simp [stopped] at shorter
  rw [front_eq] at stopped some_left
  rw [front_eq, front_eq]
  simp only [List.cons_append, List.head?_cons, List.drop_succ_cons, List.drop_zero] at *
  split
  · rfl
  next no_blank =>
    rw [if_neg no_blank] at stopped some_left
    split
    next line =>
      rw [if_pos line] at some_left
      exact lineComment_stopped some_left behind
    next no_line =>
      rw [if_neg no_line] at stopped some_left
      split
      next comment =>
        rw [if_pos comment] at some_left
        exact starComment_stopped some_left behind
      next no_comment =>
        rw [if_neg no_comment] at stopped
        exact lexeme_stopped c d rest stopped behind

end Piece

namespace Reaches

theorem suffix {chars behind : List Char} (reached : Reaches chars behind) : behind <:+ chars := by
  induction reached with
  | here chars => exact List.suffix_refl chars
  | @past c rest behind later ih =>
      have taken : (Piece.front c rest).rest <:+ c :: rest := ⟨_, Piece.front_append c rest⟩
      exact ih.trans taken

theorem across {chars : List Char} (reached : Reaches chars [';']) (behind : List Char) :
    Reaches (chars ++ behind) (';' :: behind) := by
  generalize last : [';'] = final at reached
  induction reached with
  | here chars => exact last ▸ .here (';' :: behind)
  | @past c rest final later ih =>
      obtain ⟨left, parts⟩ := later.suffix
      have same := Piece.front_stopped c rest (parts.symm.trans (by rw [last])) behind
      have further := ih last
      rw [← Piece.followedBy_rest, ← same] at further
      exact .past further

end Reaches

namespace Token

/-- Is the last token of the text a semicolon, and does it end where the text ends? -/
def EndsInSemicolon (text : String) : Prop :=
  ∃ mark ∈ (scanText text).getLast?, mark.kind = .semicolon ∧ mark.span.stop = text.utf8ByteSize

theorem EndsInSemicolon.reached {text : String} (ends : EndsInSemicolon text) :
    Reaches text.toList [';'] := by
  obtain ⟨mark, last, is_mark, stop⟩ := ends
  obtain ⟨earlier, tokens⟩ := List.getLast?_eq_some_iff.mp last
  obtain ⟨before, c, rest, stands, _⟩ := scan_stands tokens
  obtain ⟨kind, _, span⟩ := ofPiece_eq_some stands.piece
  obtain ⟨rfl, piece⟩ := Piece.front_of_semicolon (kind.trans (congrArg some is_mark))
  -- nothing is left behind the mark
  have empty : String.utf8Len rest = 0 := by
    have whole := congrArg String.utf8Len stands.text
    rw [piece, ← Position.advance_append] at span
    simp only [span, Piece.plain, Position.start_advance, Position.ofPrefix, utf8Len_toList,
      String.utf8Len_append, String.utf8Len_cons, String.utf8Len_nil] at stop whole
    omega
  obtain rfl : rest = [] := by simpa using empty
  exact stands.reached

theorem EndsInSemicolon.visible_last {text : String} (ends : EndsInSemicolon text) :
    ∀ last ∈ (visible .start text.toList).getLast?, last.kind = .semicolon := by
  obtain ⟨mark, found, is_mark, _⟩ := ends
  obtain ⟨earlier, tokens⟩ := List.getLast?_eq_some_iff.mp found
  have no_directive : mark.isDirective = false := by rw [isDirective, is_mark]; rfl
  have seen : visible .start text.toList = earlier.filter (!·.isDirective) ++ [mark] := by
    have scanned : scan .start text.toList = earlier ++ [mark] := tokens
    rw [visible, scanned, List.filter_append]
    simp [no_directive]
  intro last found
  rw [seen, List.getLast?_concat] at found
  obtain rfl : mark = last := by simpa using found
  exact is_mark

theorem EndsInSemicolon.visible_append {text : String} (ends : EndsInSemicolon text)
    (behind : List Char) :
    visible .start (text.toList ++ behind) =
      visible .start text.toList ++
        (visible .start behind).map (relocate (Position.ofPrefix text.toList)) := by
  have beyond : Reaches (';' :: behind) behind := .past (.here behind)
  have moved := visible_relocate (Position.ofPrefix text.toList) Position.start_counted behind
  rw [Position.relocate_start] at moved
  rw [Token.visible_append _ _ _ ((ends.reached.across behind).trans beyond),
    Position.start_advance, moved]

end Token

end SchemaDrift
