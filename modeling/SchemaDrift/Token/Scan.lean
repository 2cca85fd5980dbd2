import SchemaDrift.Text.Class
import SchemaDrift.Token

/-! Scanning a text into tokens. Each step looks at no more than three characters to tell what stands in front,
and takes a piece off: a token, or something that lies between tokens (a blank, a comment, or a character that
starts nothing). Scanning never fails; an unclosed quote or comment runs to the end of the text. -/

namespace SchemaDrift

open Text

/-- The front of a text: what it is, if it is a token, the characters it is written with, the text it
stands for, and what follows. -/
structure Piece where
  kind : Option TokenKind
  written : List Char
  text : List Char
  rest : List Char

/-- What an opening delimiter encloses: the characters before the closing one, the closing one itself
(none at the end of the text), and what follows. -/
structure Enclosed where
  body : List Char
  closing : List Char
  rest : List Char

namespace Enclosed

def prepend (chars : List Char) (enclosed : Enclosed) : Enclosed :=
  { enclosed with body := chars ++ enclosed.body }

def byMark (mark : Char) (chars : List Char) : Enclosed :=
  let after := chars.dropWhile (· != mark)
  ⟨chars.takeWhile (· != mark), after.take 1, after.drop 1⟩

/-- Closed by the first `mark` that is neither written twice nor escaped by a backslash. -/
def byQuote (mark : Char) : List Char → Enclosed
  | [] => ⟨[], [], []⟩
  | c :: rest =>
      if c = '\\' then
        match rest with
        | [] => ⟨[c], [], []⟩
        | d :: rest => (byQuote mark rest).prepend [c, d]
      else if c = mark then
        match rest with
        | [] => ⟨[], [c], []⟩
        | d :: rest => if d = mark then (byQuote mark rest).prepend [c, d] else ⟨[], [c], d :: rest⟩
      else (byQuote mark rest).prepend [c]

def byStarSlash : List Char → Enclosed
  | [] => ⟨[], [], []⟩
  | c :: rest =>
      if c = '*' ∧ rest.head? = some '/' then ⟨[], ['*', '/'], rest.drop 1⟩
      else (byStarSlash rest).prepend [c]

theorem byMark_append (mark : Char) (chars : List Char) :
    (byMark mark chars).body ++ (byMark mark chars).closing ++ (byMark mark chars).rest = chars := by
  simp only [byMark, List.append_assoc, List.take_append_drop, List.takeWhile_append_dropWhile]

theorem byQuote_append (mark : Char) (chars : List Char) :
    (byQuote mark chars).body ++ (byQuote mark chars).closing ++ (byQuote mark chars).rest = chars := by
  fun_induction byQuote mark chars <;> simp_all [prepend]

theorem byStarSlash_append (chars : List Char) :
    (byStarSlash chars).body ++ (byStarSlash chars).closing ++ (byStarSlash chars).rest = chars := by
  fun_induction byStarSlash chars with
  | case1 => rfl
  | case2 c rest h =>
      obtain ⟨rfl, next⟩ := h
      cases rest <;> simp_all
  | case3 c rest h ih => simpa [prepend] using ih

end Enclosed

namespace Piece

def gap (written rest : List Char) : Piece :=
  ⟨none, written, [], rest⟩

def plain (kind : TokenKind) (written rest : List Char) : Piece :=
  ⟨some kind, written, written, rest⟩

def delimited (kind : TokenKind) (opening : List Char) (enclosed : Enclosed) : Piece :=
  ⟨some kind, opening ++ enclosed.body ++ enclosed.closing, enclosed.body, enclosed.rest⟩

def lineComment (chars : List Char) : Piece :=
  gap (chars.takeWhile (· != '\n')) (chars.dropWhile (· != '\n'))

def blockComment (chars : List Char) : Piece :=
  let enclosed := Enclosed.byStarSlash chars
  gap ('/' :: '*' :: enclosed.body ++ enclosed.closing) enclosed.rest

def directive (chars : List Char) : Piece :=
  delimited .directive ['/', '*', '!'] (Enclosed.byStarSlash chars)

def number (sign chars : List Char) : Piece :=
  let whole := chars.takeWhile Char.isDigit
  let after := chars.dropWhile Char.isDigit
  if after.head? = some '.' ∧ (after.drop 1).head?.any Char.isDigit then
    let fraction := after.drop 1
    plain .number (sign ++ whole ++ '.' :: fraction.takeWhile Char.isDigit) (fraction.dropWhile Char.isDigit)
  else plain .number (sign ++ whole) after

def word (chars : List Char) : Piece :=
  let written := chars.takeWhile continuesWord
  let kind := match Keyword.ofWord? (.ofList written) with
    | some keyword => .keyword keyword
    | none => .identifier
  plain kind written (chars.dropWhile continuesWord)

def mark? (c : Char) : Option TokenKind :=
  if c = '(' then some .leftParen
  else if c = ')' then some .rightParen
  else if c = ',' then some .comma
  else if c = ';' then some .semicolon
  else if c = '=' then some .equals
  else if c = '.' then some .dot
  else none

def quote? (c : Char) : Option Quote :=
  quotes.find? (·.char = c)

def front (c : Char) (rest : List Char) : Piece :=
  if isBlank c then gap [c] rest
  else if c = '#' ∨ c = '-' ∧ rest.head? = some '-' then lineComment (c :: rest)
  else if c = '/' ∧ rest.head? = some '*' then
    if (rest.drop 1).head? = some '!' then directive (rest.drop 2) else blockComment (rest.drop 1)
  else match mark? c, quote? c with
    | some kind, _ => plain kind [c] rest
    | none, some quote => delimited (.string quote) [c] (Enclosed.byQuote c rest)
    | none, none =>
        if c = '\x60' then delimited .quotedIdentifier [c] (Enclosed.byMark c rest)
        else if c = '-' ∧ rest.head?.any Char.isDigit then number [c] rest
        else if c.isDigit then number [] (c :: rest)
        else if startsWord c then word (c :: rest)
        else gap [c] rest

theorem number_append (sign chars : List Char) :
    (number sign chars).written ++ (number sign chars).rest = sign ++ chars := by
  unfold number
  have parts : chars.takeWhile Char.isDigit ++ chars.dropWhile Char.isDigit = chars :=
    List.takeWhile_append_dropWhile
  generalize chars.takeWhile Char.isDigit = whole at *
  generalize chars.dropWhile Char.isDigit = after at *
  dsimp only
  split
  next h =>
    cases after with
    | nil => simp at h
    | cons point fraction =>
        obtain rfl : point = '.' := by simpa using h.1
        simp [plain, ← parts]
  next => simp [plain, ← parts]

theorem front_append (c : Char) (rest : List Char) :
    (front c rest).written ++ (front c rest).rest = c :: rest := by
  unfold front
  split
  · rfl
  split
  · simp [lineComment, gap]
  split
  next h =>
    obtain ⟨rfl, next⟩ := h
    cases rest with
    | nil => simp at next
    | cons star rest =>
        obtain rfl : star = '*' := by simpa using next
        split
        next h =>
          cases rest with
          | nil => simp at h
          | cons bang rest =>
              obtain rfl : bang = '!' := by simpa using h
              simpa [directive, delimited] using Enclosed.byStarSlash_append rest
        next => simpa [blockComment, gap] using Enclosed.byStarSlash_append rest
  split
  · rfl
  · simpa [delimited] using Enclosed.byQuote_append c rest
  · split
    · simpa [delimited] using Enclosed.byMark_append c rest
    split
    · simp [number_append]
    split
    · simp [number_append]
    split
    · simp [word, plain]
    · rfl

theorem number_written_ne_nil {sign chars : List Char}
    (h : sign ≠ [] ∨ ∃ d rest, chars = d :: rest ∧ d.isDigit = true) : (number sign chars).written ≠ [] := by
  unfold number
  rcases h with h | ⟨d, rest, rfl, digit⟩ <;> dsimp only <;> split <;> simp_all [plain]

theorem front_written_ne_nil (c : Char) (rest : List Char) : (front c rest).written ≠ [] := by
  unfold front
  split
  · simp [gap]
  split
  next h =>
    have : c ≠ '\n' := by rintro rfl; simp at h
    simp [lineComment, gap, this]
  split
  · split <;> simp [directive, blockComment, delimited, gap]
  split
  · simp [plain]
  · simp [delimited]
  · split
    · simp [delimited]
    split
    · exact number_written_ne_nil (.inl (by simp))
    split
    next digit => exact number_written_ne_nil (.inr ⟨c, rest, rfl, digit⟩)
    split
    next h => simp [word, plain, continuesWord_of_startsWord h]
    · simp [gap]

theorem front_rest_length_le (c : Char) (rest : List Char) : (front c rest).rest.length ≤ rest.length := by
  have total := congrArg List.length (front_append c rest)
  have some_written := List.length_pos_iff.mpr (front_written_ne_nil c rest)
  simp only [List.length_append, List.length_cons] at total
  omega

end Piece

namespace Token

def scan (position : Position) : List Char → List Token
  | [] => []
  | c :: rest =>
      let piece := Piece.front c rest
      let after := position.advance piece.written
      match piece.kind with
      | none => scan after piece.rest
      | some kind =>
          ⟨kind, .ofList piece.text, ⟨position.offset, after.offset⟩, position⟩ :: scan after piece.rest
termination_by chars => chars.length
decreasing_by all_goals exact Nat.lt_succ_of_le (Piece.front_rest_length_le c rest)

def endOf (text : String) : Token :=
  let position := Position.start.advance text.toList
  endOfInput position.offset position

def scanText (text : String) : List Token :=
  scan .start text.toList

def ofText (text : String) : List Token :=
  scanText text ++ [endOf text]

end Token

end SchemaDrift
