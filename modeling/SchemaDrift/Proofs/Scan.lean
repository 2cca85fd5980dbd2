import Mathlib.Data.List.Basic
import SchemaDrift.Token.Scan

/-!
Scanning in parts. A piece that leaves some text untouched was told by the characters before that
text alone, however far the scanner looked ahead. So wherever a piece ends, the scan of the whole
text is the scan of what stands before that place followed by the scan of what stands behind it.
-/

namespace SchemaDrift

section Runs

variable {p : Char → Bool} {chars behind : List Char}

theorem dropWhile_eq_of_length_le (untouched : behind.length ≤ (behind.dropWhile p).length) :
    behind.dropWhile p = behind :=
  (List.dropWhile_suffix p).eq_of_length_le untouched

theorem dropWhile_local (untouched : behind.length ≤ ((chars ++ behind).dropWhile p).length) :
    (chars ++ behind).dropWhile p = chars.dropWhile p ++ behind := by
  induction chars with
  | nil => exact dropWhile_eq_of_length_le untouched
  | cons c rest ih =>
      by_cases holds : p c = true
      · simp only [List.cons_append, List.dropWhile_cons, holds, ↓reduceIte] at *
        exact ih untouched
      · simp [holds]

theorem takeWhile_local (untouched : behind.length ≤ ((chars ++ behind).dropWhile p).length) :
    (chars ++ behind).takeWhile p = chars.takeWhile p := by
  have whole : (chars ++ behind).takeWhile p ++ (chars ++ behind).dropWhile p = chars ++ behind :=
    List.takeWhile_append_dropWhile
  rw [dropWhile_local untouched, ← List.append_assoc] at whole
  have before := List.append_cancel_right whole
  have parts : chars.takeWhile p ++ chars.dropWhile p = chars := List.takeWhile_append_dropWhile
  exact List.append_cancel_right (before.trans parts.symm)

end Runs

namespace Enclosed

def followedBy (enclosed : Enclosed) (behind : List Char) : Enclosed :=
  { enclosed with rest := enclosed.rest ++ behind }

@[simp] theorem prepend_rest (chars : List Char) (enclosed : Enclosed) :
    (enclosed.prepend chars).rest = enclosed.rest := rfl

theorem prepend_followedBy (chars behind : List Char) (enclosed : Enclosed) :
    (enclosed.followedBy behind).prepend chars = (enclosed.prepend chars).followedBy behind := rfl

theorem rest_length_le {enclosed : Enclosed} {chars : List Char}
    (whole : enclosed.body ++ enclosed.closing ++ enclosed.rest = chars) :
    enclosed.rest.length ≤ chars.length := by
  rw [← whole, List.length_append]
  exact Nat.le_add_left _ _

theorem rest_length_lt {enclosed : Enclosed} {chars : List Char}
    (whole : enclosed.body ++ enclosed.closing ++ enclosed.rest = chars)
    (taken : enclosed.body ++ enclosed.closing ≠ []) : enclosed.rest.length < chars.length := by
  have positive := List.length_pos_iff.mpr taken
  rw [← whole, List.length_append]
  omega

theorem byMark_rest_length_lt (mark c : Char) (rest : List Char) :
    (byMark mark (c :: rest)).rest.length < (c :: rest).length := by
  apply rest_length_lt (byMark_append mark (c :: rest))
  by_cases closes : c = mark <;> simp [byMark, closes]

theorem byQuote_rest_length_lt (mark c : Char) (rest : List Char) :
    (byQuote mark (c :: rest)).rest.length < (c :: rest).length := by
  apply rest_length_lt (byQuote_append mark (c :: rest))
  rw [byQuote.eq_def]
  dsimp only
  split
  · split <;> simp [prepend]
  split
  · split
    · simp
    · split <;> simp [prepend]
  · simp [prepend]

theorem byStarSlash_rest_length_lt (c : Char) (rest : List Char) :
    (byStarSlash (c :: rest)).rest.length < (c :: rest).length := by
  apply rest_length_lt (byStarSlash_append (c :: rest))
  rw [byStarSlash]
  split <;> simp [prepend]

theorem byStarSlash_rest_length_le (chars : List Char) :
    (byStarSlash chars).rest.length ≤ chars.length :=
  rest_length_le (byStarSlash_append chars)

variable {mark : Char} (chars : List Char) {behind : List Char}

theorem byMark_local (untouched : behind.length ≤ (byMark mark (chars ++ behind)).rest.length) :
    byMark mark (chars ++ behind) = (byMark mark chars).followedBy behind := by
  induction chars with
  | nil =>
      cases behind with
      | nil => rfl
      | cons d rest => exact absurd (byMark_rest_length_lt mark d rest) (by simpa using untouched)
  | cons c rest ih =>
      by_cases closes : c = mark
      · simp [byMark, followedBy, closes]
      · have step (chars : List Char) :
            byMark mark (c :: chars) = (byMark mark chars).prepend [c] := by
          simp [byMark, prepend, closes]
        rw [List.cons_append, step] at *
        rw [ih untouched, step]
        rfl

theorem byQuote_local (untouched : behind.length ≤ (byQuote mark (chars ++ behind)).rest.length) :
    byQuote mark (chars ++ behind) = (byQuote mark chars).followedBy behind := by
  rcases behind with _ | ⟨b, behind⟩
  · simp [followedBy]
  have shorter := byQuote_rest_length_lt mark b behind
  have not_longer := rest_length_le (byQuote_append mark behind)
  fun_induction byQuote mark chars with
  | case1 => exact absurd untouched (Nat.not_le.mpr shorter)
  | case2 =>
      -- the escaped character would stand behind
      simp only [List.cons_append, List.nil_append, byQuote, ↓reduceIte, prepend_rest,
        List.length_cons] at untouched
      omega
  | case3 d rest ih =>
      simp only [List.cons_append, byQuote, ↓reduceIte, prepend_rest] at *
      rw [ih untouched, prepend_followedBy]
  | case4 not_escape =>
      by_cases doubled : b = mark
      · simp only [List.cons_append, List.nil_append, byQuote, not_escape, doubled, ↓reduceIte,
          prepend_rest, List.length_cons] at untouched
        omega
      · simp [byQuote, not_escape, doubled, followedBy]
  | case5 rest not_escape ih =>
      simp only [List.cons_append, byQuote, not_escape, ↓reduceIte, prepend_rest] at *
      rw [ih untouched, prepend_followedBy]
  | case6 d rest not_doubled not_escape => simp [byQuote, not_escape, not_doubled, followedBy]
  | case7 c rest not_escape not_mark ih =>
      have step (chars : List Char) :
          byQuote mark (c :: chars) = (byQuote mark chars).prepend [c] := by
        rw [byQuote.eq_def]
        simp [not_escape, not_mark]
      rw [List.cons_append, step] at *
      rw [ih untouched, prepend_followedBy]

theorem byStarSlash_local
    (untouched : behind.length ≤ (byStarSlash (chars ++ behind)).rest.length) :
    byStarSlash (chars ++ behind) = (byStarSlash chars).followedBy behind := by
  rcases behind with _ | ⟨b, behind⟩
  · simp [followedBy]
  have shorter := byStarSlash_rest_length_lt b behind
  fun_induction byStarSlash chars with
  | case1 => exact absurd untouched (Nat.not_le.mpr shorter)
  | case2 c rest closes =>
      obtain ⟨rfl, next⟩ := closes
      cases rest with
      | nil => simp at next
      | cons slash rest => simp_all [byStarSlash, followedBy]
  | case3 c rest still_open ih =>
      have also_open : ¬(c = '*' ∧ (rest ++ b :: behind).head? = some '/') := by
        rintro ⟨rfl, next⟩
        cases rest with
        | nil =>
            -- the slash would stand behind
            obtain rfl : b = '/' := by simpa using next
            have closed : byStarSlash ('*' :: '/' :: behind) = ⟨[], ['*', '/'], behind⟩ := by
              simp [byStarSlash]
            simp only [List.cons_append, List.nil_append, closed, List.length_cons] at untouched
            omega
        | cons d rest => exact still_open ⟨rfl, by simpa using next⟩
      simp only [List.cons_append, byStarSlash, also_open, ↓reduceIte, prepend_rest] at *
      rw [ih untouched, prepend_followedBy]

end Enclosed

namespace Piece

def followedBy (piece : Piece) (behind : List Char) : Piece :=
  { piece with rest := piece.rest ++ behind }

@[simp] theorem followedBy_written (piece : Piece) (behind : List Char) :
    (piece.followedBy behind).written = piece.written := rfl

@[simp] theorem followedBy_rest (piece : Piece) (behind : List Char) :
    (piece.followedBy behind).rest = piece.rest ++ behind := rfl

variable {sign : List Char} (chars : List Char) {behind : List Char}

theorem number_rest_length_le (sign chars : List Char) :
    (number sign chars).rest.length ≤ (chars.dropWhile Char.isDigit).length := by
  unfold number
  dsimp only
  split
  · have shorter :=
      (List.dropWhile_suffix (l := (chars.dropWhile Char.isDigit).drop 1) Char.isDigit).length_le
    simp only [plain, List.length_drop] at *
    omega
  · exact Nat.le_refl _

def Fraction (chars : List Char) : Prop :=
  chars.head? = some '.' ∧ (chars.drop 1).head?.any Char.isDigit

instance (chars : List Char) : Decidable (Fraction chars) :=
  inferInstanceAs (Decidable (_ ∧ _))

def numberFrom (sign whole after : List Char) : Piece :=
  if Fraction after then
    plain .number (sign ++ whole ++ '.' :: (after.drop 1).takeWhile Char.isDigit)
      ((after.drop 1).dropWhile Char.isDigit)
  else plain .number (sign ++ whole) after

theorem number_eq (sign chars : List Char) :
    number sign chars =
      numberFrom sign (chars.takeWhile Char.isDigit) (chars.dropWhile Char.isDigit) := rfl

theorem fraction_rest_length {chars : List Char} (fraction : Fraction chars) :
    ((chars.drop 1).dropWhile Char.isDigit).length + 2 ≤ chars.length := by
  obtain ⟨point, digit⟩ := fraction
  rcases chars with _ | ⟨c, _ | ⟨d, rest⟩⟩
  · simp at point
  · simp at digit
  · have is_digit : d.isDigit = true := by simpa using digit
    have shorter := (List.dropWhile_suffix (l := rest) Char.isDigit).length_le
    simpa [is_digit] using shorter

theorem fraction_append {chars : List Char} (long : 2 ≤ chars.length) (behind : List Char) :
    Fraction (chars ++ behind) ↔ Fraction chars := by
  rcases chars with _ | ⟨c, _ | ⟨d, rest⟩⟩
  · simp at long
  · simp at long
  · simp [Fraction]

theorem numberFrom_local {whole after : List Char}
    (untouched : behind.length ≤ (numberFrom sign whole (after ++ behind)).rest.length) :
    numberFrom sign whole (after ++ behind) = (numberFrom sign whole after).followedBy behind := by
  rw [numberFrom] at untouched ⊢
  rw [numberFrom]
  by_cases fraction : Fraction (after ++ behind)
  · rw [if_pos fraction] at untouched ⊢
    -- neither the point nor the digit can stand behind
    have past_digit := fraction_rest_length fraction
    have long : 2 ≤ after.length := by
      simp only [plain, List.length_append] at untouched past_digit
      omega
    rw [if_pos ((fraction_append long behind).mp fraction)]
    rw [List.drop_append_of_le_length (by omega)] at untouched ⊢
    rw [takeWhile_local untouched, dropWhile_local untouched]
    rfl
  · have no_fraction : ¬Fraction after := by
      intro fraction_before
      have long := fraction_rest_length fraction_before
      exact fraction ((fraction_append (by omega) behind).mpr fraction_before)
    rw [if_neg fraction, if_neg no_fraction]
    rfl

theorem number_local (untouched : behind.length ≤ (number sign (chars ++ behind)).rest.length) :
    number sign (chars ++ behind) = (number sign chars).followedBy behind := by
  have beyond_whole := Nat.le_trans untouched (number_rest_length_le sign (chars ++ behind))
  rw [number_eq, takeWhile_local beyond_whole, dropWhile_local beyond_whole] at untouched ⊢
  exact numberFrom_local untouched

theorem word_local (untouched : behind.length ≤ (word (chars ++ behind)).rest.length) :
    word (chars ++ behind) = (word chars).followedBy behind := by
  have beyond_word : behind.length ≤ ((chars ++ behind).dropWhile Text.continuesWord).length :=
    untouched
  simp only [word, takeWhile_local beyond_word, dropWhile_local beyond_word]
  rfl

theorem lineComment_local
    (untouched : behind.length ≤ (lineComment (chars ++ behind)).rest.length) :
    lineComment (chars ++ behind) = (lineComment chars).followedBy behind := by
  have beyond_line : behind.length ≤ ((chars ++ behind).dropWhile (· != '\n')).length := untouched
  rw [lineComment, takeWhile_local beyond_line, dropWhile_local beyond_line]
  rfl

theorem blockComment_local
    (untouched : behind.length ≤ (blockComment (chars ++ behind)).rest.length) :
    blockComment (chars ++ behind) = (blockComment chars).followedBy behind := by
  rw [blockComment, Enclosed.byStarSlash_local chars untouched]
  rfl

theorem directive_local (untouched : behind.length ≤ (directive (chars ++ behind)).rest.length) :
    directive (chars ++ behind) = (directive chars).followedBy behind := by
  rw [directive, Enclosed.byStarSlash_local chars untouched]
  rfl

theorem lineComment_rest_length_lt (c d : Char) (rest : List Char) (first : c ≠ '\n')
    (second : d ≠ '\n') : (lineComment (c :: d :: rest)).rest.length < (d :: rest).length := by
  have shorter := (List.dropWhile_suffix (l := rest) (· != '\n')).length_le
  simp only [lineComment, gap, List.dropWhile_cons, bne_iff_ne, ne_eq, first, second,
    not_false_eq_true, ↓reduceIte, List.length_cons] at *
  omega

theorem number_rest_length_lt (sign : List Char) (d : Char) (rest : List Char)
    (digit : d.isDigit = true) : (number sign (d :: rest)).rest.length < (d :: rest).length := by
  have not_longer := number_rest_length_le sign (d :: rest)
  have shorter := (List.dropWhile_suffix (l := rest) Char.isDigit).length_le
  simp only [List.dropWhile_cons, digit, ↓reduceIte, List.length_cons] at *
  omega

def starComment (chars : List Char) : Piece :=
  if chars.head? = some '!' then directive (chars.drop 1) else blockComment chars

theorem starComment_rest_length_le (chars : List Char) :
    (starComment chars).rest.length ≤ chars.length := by
  rw [starComment]
  split
  · exact Nat.le_trans (Enclosed.byStarSlash_rest_length_le _) (List.drop_suffix 1 chars).length_le
  · exact Enclosed.byStarSlash_rest_length_le chars

theorem starComment_local
    (untouched : behind.length ≤ (starComment (chars ++ behind)).rest.length) :
    starComment (chars ++ behind) = (starComment chars).followedBy behind := by
  rw [starComment] at untouched ⊢
  rw [starComment]
  by_cases bang : (chars ++ behind).head? = some '!'
  · rw [if_pos bang] at untouched ⊢
    rcases chars with _ | ⟨c, chars⟩
    · -- the directive would begin with a mark that stands behind
      rcases behind with _ | ⟨b, behind⟩
      · simp at bang
      · have shorter := Enclosed.byStarSlash_rest_length_le behind
        exact absurd untouched (Nat.not_le.mpr (Nat.lt_succ_of_le shorter))
    · rw [if_pos (by simpa using bang)]
      exact directive_local chars untouched
  · have no_bang : chars.head? ≠ some '!' := fun head => bang (by simp [List.head?_append, head])
    rw [if_neg bang] at untouched ⊢
    rw [if_neg no_bang]
    exact blockComment_local chars untouched

def lexeme (c : Char) (rest : List Char) : Piece :=
  match mark? c, quote? c with
  | some kind, _ => plain kind [c] rest
  | none, some quote => delimited (.string quote) [c] (Enclosed.byQuote c rest)
  | none, none =>
      if c = '\x60' then delimited .quotedIdentifier [c] (Enclosed.byMark c rest)
      else if c = '-' ∧ rest.head?.any Char.isDigit then number [c] rest
      else if c.isDigit then number [] (c :: rest)
      else if Text.startsWord c then word (c :: rest)
      else gap [c] rest

theorem front_eq (c : Char) (rest : List Char) :
    front c rest =
      if Text.isBlank c then gap [c] rest
      else if c = '#' ∨ c = '-' ∧ rest.head? = some '-' then lineComment (c :: rest)
      else if c = '/' ∧ rest.head? = some '*' then starComment (rest.drop 1)
      else lexeme c rest := by
  rw [starComment, List.drop_drop]
  rfl

theorem ahead_append {test : Char → Bool} {rest : List Char} (behind : List Char)
    (ahead : rest.head?.any test = true) : (rest ++ behind).head?.any test = true := by
  cases rest with
  | nil => simp at ahead
  | cons d rest => exact ahead

theorem lexeme_local (c : Char) (rest behind : List Char)
    (untouched : behind.length ≤ (lexeme c (rest ++ behind)).rest.length) :
    lexeme c (rest ++ behind) = (lexeme c rest).followedBy behind := by
  unfold lexeme at *
  cases mark : mark? c with
  | some kind => rfl
  | none =>
      cases quote : quote? c with
      | some quote =>
          simp only [mark, quote] at untouched ⊢
          rw [Enclosed.byQuote_local rest untouched]
          rfl
      | none =>
          simp only [mark, quote] at untouched ⊢
          by_cases back_quote : c = '\x60'
          · simp only [back_quote, ↓reduceIte] at untouched ⊢
            rw [Enclosed.byMark_local rest untouched]
            rfl
          rw [if_neg back_quote] at untouched ⊢
          rw [if_neg back_quote]
          by_cases negative : c = '-' ∧ (rest ++ behind).head?.any Char.isDigit = true
          · rw [if_pos negative] at untouched ⊢
            -- the number takes the digit, so the digit is not behind
            have nonempty : rest ≠ [] := by
              rintro rfl
              rcases behind with _ | ⟨d, behind⟩
              · simp at negative
              · have shorter := number_rest_length_lt [c] d behind (by simpa using negative.2)
                exact absurd untouched (Nat.not_le.mpr shorter)
            rw [List.head?_append_of_ne_nil rest nonempty] at negative
            rw [if_pos negative, number_local rest untouched]
          · have still_not : ¬(c = '-' ∧ rest.head?.any Char.isDigit = true) :=
              fun both => negative ⟨both.1, ahead_append behind both.2⟩
            rw [if_neg negative] at untouched ⊢
            rw [if_neg still_not]
            split at untouched
            next digit =>
              simp only [digit, ↓reduceIte]
              exact number_local (c :: rest) untouched
            split at untouched
            next not_digit starts =>
              simp only [not_digit, starts, ↓reduceIte]
              exact word_local (c :: rest) untouched
            next not_digit not_start =>
              simp only [not_digit, not_start]
              rfl

/-- The scanner never looks further ahead than it reads: a piece that leaves `behind` untouched is
the same whatever stands there. -/
theorem front_local (c : Char) (rest behind : List Char)
    (untouched : behind.length ≤ (front c (rest ++ behind)).rest.length) :
    front c (rest ++ behind) = (front c rest).followedBy behind := by
  rw [front_eq] at untouched ⊢
  rw [front_eq c rest]
  by_cases blank : Text.isBlank c = true
  · simp only [blank, ↓reduceIte]
    rfl
  rw [if_neg blank] at untouched ⊢
  rw [if_neg blank]
  by_cases line : c = '#' ∨ c = '-' ∧ (rest ++ behind).head? = some '-'
  · rw [if_pos line] at untouched ⊢
    have still : c = '#' ∨ c = '-' ∧ rest.head? = some '-' := by
      refine line.imp_right fun ⟨dash, next⟩ => ⟨dash, ?_⟩
      rcases rest with _ | ⟨d, rest⟩
      · -- the comment takes the second dash, so the dash is not behind
        rcases behind with _ | ⟨b, behind⟩
        · simp at next
        · obtain rfl : b = '-' := by simpa using next
          have shorter := lineComment_rest_length_lt c '-' behind (by simp [dash]) (by decide)
          exact absurd untouched (Nat.not_le.mpr shorter)
      · exact next
    rw [if_pos still]
    exact lineComment_local (c :: rest) untouched
  have no_line : ¬(c = '#' ∨ c = '-' ∧ rest.head? = some '-') :=
    fun either => line (either.imp_right fun both => ⟨both.1, by simp [List.head?_append, both.2]⟩)
  rw [if_neg line] at untouched ⊢
  rw [if_neg no_line]
  by_cases comment : c = '/' ∧ (rest ++ behind).head? = some '*'
  · rw [if_pos comment] at untouched ⊢
    rcases rest with _ | ⟨star, rest⟩
    · rcases behind with _ | ⟨b, behind⟩
      · simp at comment
      · have shorter := starComment_rest_length_le behind
        exact absurd untouched (Nat.not_le.mpr (Nat.lt_succ_of_le shorter))
    · rw [if_pos (by simpa using comment)]
      exact starComment_local rest untouched
  · have no_comment : ¬(c = '/' ∧ rest.head? = some '*') :=
      fun both => comment ⟨both.1, by simp [List.head?_append, both.2]⟩
    rw [if_neg comment] at untouched ⊢
    rw [if_neg no_comment]
    exact lexeme_local c rest behind untouched

/-- Induction along a scan: what holds of a text behind its first piece holds of the text. -/
@[elab_as_elim]
theorem front_induction {motive : List Char → Prop} (nil : motive [])
    (cons : ∀ c rest, motive (front c rest).rest → motive (c :: rest)) (chars : List Char) :
    motive chars := by
  induction count : chars.length using Nat.strongRecOn generalizing chars with
  | ind count ih =>
      rcases chars with _ | ⟨c, rest⟩
      · exact nil
      have shorter := Nat.lt_succ_of_le (front_rest_length_le c rest)
      exact cons c rest (ih _ (count ▸ shorter) _ rfl)

end Piece

/-- Does the scan of `chars` come to the place where exactly `behind` is left? -/
inductive Reaches : List Char → List Char → Prop where
  | here (chars : List Char) : Reaches chars chars
  | past {c : Char} {rest behind : List Char} (later : Reaches (Piece.front c rest).rest behind) :
      Reaches (c :: rest) behind

namespace Reaches

variable {chars middle behind : List Char}

theorem trans (first : Reaches chars middle) (second : Reaches middle behind) :
    Reaches chars behind := by
  induction first with
  | here chars => exact second
  | past later ih => exact .past (ih second)

theorem length_le (reached : Reaches chars behind) : behind.length ≤ chars.length := by
  induction reached with
  | here chars => exact Nat.le_refl _
  | @past c rest behind later ih =>
      have shorter := Nat.lt_succ_of_le (Piece.front_rest_length_le c rest)
      exact Nat.le_trans ih (Nat.le_of_lt shorter)

theorem of_cons_append {c : Char} {rest behind : List Char}
    (reached : Reaches (c :: rest ++ behind) behind) :
    Reaches (Piece.front c (rest ++ behind)).rest behind := by
  generalize text : c :: rest ++ behind = chars at reached
  cases reached with
  | here =>
      have lengths := congrArg List.length text
      simp only [List.cons_append, List.length_cons, List.length_append] at lengths
      omega
  | past later =>
      obtain ⟨rfl, rfl⟩ := List.cons.inj text
      exact later

end Reaches

namespace Token

def ofPiece (position : Position) (piece : Piece) : Option Token :=
  piece.kind.map fun kind =>
    ⟨kind, .ofList piece.text, ⟨position.offset, (position.advance piece.written).offset⟩, position⟩

theorem ofPiece_followedBy (position : Position) (piece : Piece) (behind : List Char) :
    ofPiece position (piece.followedBy behind) = ofPiece position piece := rfl

@[simp] theorem scan_nil (position : Position) : scan position [] = [] := by
  rw [scan]

theorem scan_cons (position : Position) (c : Char) (rest : List Char) :
    scan position (c :: rest) =
      (ofPiece position (Piece.front c rest)).toList ++
        scan (position.advance (Piece.front c rest).written) (Piece.front c rest).rest := by
  rw [scan]
  cases kind : (Piece.front c rest).kind <;> simp [ofPiece, kind]

/-- A text scanned up to a place that the scan comes to anyway, and on from there, gives the same
tokens. -/
theorem scan_append (position : Position) (chars behind : List Char)
    (reached : Reaches (chars ++ behind) behind) :
    scan position (chars ++ behind) =
      scan position chars ++ scan (position.advance chars) behind := by
  induction chars using Piece.front_induction generalizing position with
  | nil => simp
  | cons c rest ih =>
      have later := reached.of_cons_append
      have same := Piece.front_local c rest behind later.length_le
      rw [same] at later
      have tail := ih (position.advance (Piece.front c rest).written) later
      have text := Piece.front_append c rest
      rw [List.cons_append, scan_cons, same, scan_cons, List.append_assoc]
      rw [ofPiece_followedBy, Piece.followedBy_written, Piece.followedBy_rest, tail,
        ← Position.advance_append, text]

/-- In the scan of `chars`, the piece behind `before`, which starts with `c`, is the token. -/
structure Stands (position : Position) (chars : List Char) (token : Token) (before : List Char)
    (c : Char) (rest : List Char) : Prop where
  text : chars = before ++ c :: rest
  reached : Reaches chars (c :: rest)
  piece : ofPiece (position.advance before) (Piece.front c rest) = some token

theorem Stands.further {position : Position} {c : Char} {rest before : List Char} {d : Char}
    {behind : List Char} {token : Token}
    (stands : Stands (position.advance (Piece.front c rest).written) (Piece.front c rest).rest token
      before d behind) :
    Stands position (c :: rest) token ((Piece.front c rest).written ++ before) d behind where
  text := by rw [List.append_assoc, ← stands.text, Piece.front_append]
  reached := .past stands.reached
  piece := by rw [Position.advance_append, stands.piece]

theorem scan_stands {position : Position} {chars : List Char} {earlier later : List Token}
    {token : Token} (tokens : scan position chars = earlier ++ token :: later) :
    ∃ before c rest, Stands position chars token before c rest ∧
      scan ((position.advance before).advance (Piece.front c rest).written)
        (Piece.front c rest).rest = later := by
  induction chars using Piece.front_induction generalizing position earlier with
  | nil => simp at tokens
  | cons c rest ih =>
      rw [scan_cons] at tokens
      cases found : ofPiece position (Piece.front c rest) with
      | none =>
          -- a gap gives no token, so the token stands further on
          rw [found] at tokens
          obtain ⟨before, d, behind, stands, after⟩ := ih tokens
          exact ⟨_, d, behind, stands.further, by rw [Position.advance_append, after]⟩
      | some first =>
          rw [found] at tokens
          rcases earlier with _ | ⟨head, earlier⟩
          · obtain ⟨rfl, after⟩ := List.cons.inj tokens
            exact ⟨[], c, rest, ⟨rfl, .here _, found⟩, after⟩
          · obtain ⟨before, d, behind, stands, after⟩ := ih (List.cons.inj tokens).2
            exact ⟨_, d, behind, stands.further, by rw [Position.advance_append, after]⟩

theorem scan_split {position : Position} {chars : List Char} {earlier later : List Token}
    {token : Token} (tokens : scan position chars = earlier ++ token :: later) :
    ∃ before c rest, Stands position chars token before c rest ∧ scan position before = earlier ∧
      scan ((position.advance before).advance (Piece.front c rest).written)
        (Piece.front c rest).rest = later := by
  obtain ⟨before, c, rest, stands, after⟩ := scan_stands tokens
  refine ⟨before, c, rest, stands, ?_, after⟩
  have reached := stands.reached
  rw [stands.text] at tokens reached
  rw [scan_append position before (c :: rest) reached, scan_cons, stands.piece, after] at tokens
  exact List.append_cancel_right tokens

end Token

namespace Piece

theorem number_kind (sign chars : List Char) : (number sign chars).kind = some .number := by
  unfold number
  dsimp only
  split <;> rfl

theorem word_kind (chars : List Char) :
    (word chars).kind = some .identifier ∨
      ∃ keyword, (word chars).kind = some (.keyword keyword) := by
  simp only [word, plain]
  split
  next keyword _ => exact .inr ⟨keyword, rfl⟩
  · exact .inl rfl

theorem mark?_semicolon {c : Char} (mark : mark? c = some .semicolon) : c = ';' := by
  rw [mark?] at mark
  repeat' split at mark
  all_goals simp_all

theorem mark?_ne_end (c : Char) : mark? c ≠ some .endOfInput := by
  unfold mark?
  repeat' split
  all_goals simp

/-- Of all the pieces that are no marks, none is a semicolon or an end of input. -/
def Ordinary (piece : Piece) : Prop :=
  piece.kind ≠ some .semicolon ∧ piece.kind ≠ some .endOfInput

theorem lexeme_ordinary {c : Char} {rest : List Char} (no_mark : mark? c = none) :
    Ordinary (lexeme c rest) := by
  unfold lexeme
  rw [no_mark]
  split
  · contradiction
  · simp [Ordinary, delimited]
  split
  · simp [Ordinary, delimited]
  split
  · simp [Ordinary, number_kind]
  split
  · simp [Ordinary, number_kind]
  split
  · rcases word_kind (c :: rest) with kind | ⟨keyword, kind⟩ <;> simp [Ordinary, kind]
  · simp [Ordinary, gap]

theorem front_mark_or_ordinary (c : Char) (rest : List Char) :
    (∃ kind, mark? c = some kind ∧ front c rest = plain kind [c] rest) ∨
      Ordinary (front c rest) := by
  rw [front_eq]
  split
  · exact .inr (by simp [Ordinary, gap])
  split
  · exact .inr (by simp [Ordinary, lineComment, gap])
  split
  · unfold starComment
    split
    · exact .inr (by simp [Ordinary, directive, delimited])
    · exact .inr (by simp [Ordinary, blockComment, gap])
  cases mark : mark? c with
  | some kind => exact .inl ⟨kind, rfl, by simp [lexeme, mark]⟩
  | none => exact .inr (lexeme_ordinary mark)

theorem front_of_semicolon {c : Char} {rest : List Char}
    (semicolon : (front c rest).kind = some .semicolon) :
    c = ';' ∧ front c rest = plain .semicolon [';'] rest := by
  rcases front_mark_or_ordinary c rest with ⟨kind, mark, piece⟩ | ordinary
  · rw [piece] at semicolon
    obtain rfl : kind = .semicolon := by simpa [plain] using semicolon
    obtain rfl := mark?_semicolon mark
    exact ⟨rfl, piece⟩
  · exact absurd semicolon ordinary.1

theorem front_kind_ne_end (c : Char) (rest : List Char) :
    (front c rest).kind ≠ some .endOfInput := by
  rcases front_mark_or_ordinary c rest with ⟨kind, mark, piece⟩ | ordinary
  · rw [piece]
    intro same
    obtain rfl : kind = .endOfInput := by simpa [plain] using same
    exact mark?_ne_end c mark
  · exact ordinary.2

end Piece

namespace Token

theorem ofPiece_eq_some {position : Position} {piece : Piece} {token : Token}
    (made : ofPiece position piece = some token) :
    piece.kind = some token.kind ∧ token.position = position ∧
      token.span = ⟨position.offset, (position.advance piece.written).offset⟩ := by
  unfold ofPiece at made
  obtain ⟨kind, is_kind, rfl⟩ := Option.map_eq_some_iff.mp made
  exact ⟨is_kind, rfl, rfl⟩

theorem scan_mem_stands {position : Position} {chars : List Char} {token : Token}
    (member : token ∈ scan position chars) :
    ∃ before c rest, Stands position chars token before c rest := by
  obtain ⟨earlier, later, tokens⟩ := List.append_of_mem member
  obtain ⟨before, c, rest, stands, _⟩ := scan_stands tokens
  exact ⟨before, c, rest, stands⟩

theorem scan_not_end {position : Position} {chars : List Char} {token : Token}
    (member : token ∈ scan position chars) : token.kind ≠ .endOfInput := by
  obtain ⟨before, c, rest, stands⟩ := scan_mem_stands member
  have kind := (ofPiece_eq_some stands.piece).1
  intro same
  exact Piece.front_kind_ne_end c rest (by rw [kind, same])

end Token

end SchemaDrift
