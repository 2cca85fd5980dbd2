import Mathlib.Data.List.Nodup
import Mathlib.Data.List.TakeWhile
import SchemaDrift.Proofs.Place

/-!
What the pieces of a text are, told without the scanner: how each kind of token is written, what it
stands for and what may follow it, and what may lie between two tokens. Every piece that the scanner
takes off is one of these.
-/

namespace SchemaDrift

namespace Keyword

theorem words_nodup : (all.map word).Nodup := by decide +kernel

theorem word_injective {first second : Keyword} (same : first.word = second.word) :
    first = second :=
  List.inj_on_of_nodup_map words_nodup (mem_all first) (mem_all second) same

theorem ofWord?_eq_some_iff {text : String} {keyword : Keyword} :
    ofWord? text = some keyword ↔ text.map Char.toUpper = keyword.word := by
  rw [ofWord?]
  constructor
  · intro found
    have spells : keyword.word = text.map Char.toUpper := by simpa using List.find?_some found
    exact spells.symm
  · intro same
    have known : (all.find? (·.word == text.map Char.toUpper)).isSome :=
      List.find?_isSome.mpr ⟨keyword, mem_all keyword, beq_iff_eq.mpr same.symm⟩
    obtain ⟨other, found⟩ := Option.isSome_iff_exists.mp known
    have spells : other.word = text.map Char.toUpper := by simpa using List.find?_some found
    obtain rfl : other = keyword := word_injective (spells.trans same)
    exact found

end Keyword

def marks : List (Char × TokenKind) :=
  [('(', .leftParen), (')', .rightParen), (',', .comma), (';', .semicolon), ('=', .equals),
    ('.', .dot)]

def Closes (delimiter closing behind : List Char) : Prop :=
  closing = delimiter ∨ closing = [] ∧ behind = []

def Digits (chars : List Char) : Prop :=
  chars ≠ [] ∧ ∀ c ∈ chars, c.isDigit = true

/-- A word is a keyword just when it spells one, and a name otherwise. -/
structure Spelled (text : String) (kind : TokenKind) : Prop where
  keyword : ∀ keyword, kind = .keyword keyword ↔ text.map Char.toUpper = keyword.word
  name : (∀ keyword, kind ≠ .keyword keyword) → kind = .identifier

theorem Spelled.of_keyword {text : String} {keyword : Keyword}
    (found : Keyword.ofWord? text = some keyword) : Spelled text (.keyword keyword) where
  keyword other := by
    rw [← Keyword.ofWord?_eq_some_iff, found, TokenKind.keyword.injEq, Option.some.injEq]
  name no_keyword := absurd rfl (no_keyword keyword)

theorem Spelled.of_name {text : String} (missing : Keyword.ofWord? text = none) :
    Spelled text .identifier where
  keyword other := by
    rw [← Keyword.ofWord?_eq_some_iff, missing]
    simp
  name _ := rfl

/-- What stands inside a string: escapes, quotes written twice, and other characters. -/
inductive Quoted (mark : Char) : List Char → Prop where
  | nil : Quoted mark []
  | escaped (c : Char) {body : List Char} (later : Quoted mark body) :
      Quoted mark ('\\' :: c :: body)
  | doubled {body : List Char} (later : Quoted mark body) : Quoted mark (mark :: mark :: body)
  | other {c : Char} {body : List Char} (not_escape : c ≠ '\\') (not_mark : c ≠ mark)
      (later : Quoted mark body) : Quoted mark (c :: body)

/-- How a string ends: with a quote that is not written twice, or with the text, perhaps in the middle
of an escape. -/
inductive Ending (mark : Char) : (body closing behind : List Char) → Prop where
  | closed {body behind : List Char} (inside : Quoted mark body) (single : behind.head? ≠ some mark) :
      Ending mark body [mark] behind
  | unclosed {body : List Char} (inside : Quoted mark body) : Ending mark body [] []
  | escaping {body : List Char} (inside : Quoted mark body) : Ending mark (body ++ ['\\']) [] []

/-- How a token is written, the text it stands for, and what may come behind it. -/
inductive Lexeme : TokenKind → (written text behind : List Char) → Prop where
  | mark {c : Char} {kind : TokenKind} {behind : List Char} (listed : (c, kind) ∈ marks) :
      Lexeme kind [c] [c] behind
  | word {c : Char} {rest behind : List Char} {kind : TokenKind} (starts : Text.startsWord c = true)
      (continues : ∀ d ∈ rest, Text.continuesWord d = true)
      (stops : ∀ d ∈ behind.head?, Text.continuesWord d = false)
      (spelled : Spelled (.ofList (c :: rest)) kind) : Lexeme kind (c :: rest) (c :: rest) behind
  | number {sign whole fraction behind : List Char} (signed : sign = [] ∨ sign = ['-'])
      (digits : Digits whole)
      (point : fraction = [] ∧ ¬Piece.Fraction behind ∨
        ∃ decimals, fraction = '.' :: decimals ∧ Digits decimals)
      (stops : ∀ d ∈ behind.head?, d.isDigit = false) :
      Lexeme .number (sign ++ whole ++ fraction) (sign ++ whole ++ fraction) behind
  | string {quote : Quote} {body closing behind : List Char} (known : quote ∈ quotes)
      (ending : Ending quote.char body closing behind) :
      Lexeme (.string quote) ([quote.char] ++ body ++ closing) body behind
  | quotedIdentifier {body closing behind : List Char} (inside : '\x60' ∉ body)
      (closes : Closes ['\x60'] closing behind) :
      Lexeme .quotedIdentifier (['\x60'] ++ body ++ closing) body behind
  | directive {body closing behind : List Char} (inside : ¬['*', '/'] <:+: body)
      (closes : Closes ['*', '/'] closing behind) :
      Lexeme .directive (['/', '*', '!'] ++ body ++ closing) body behind

theorem Lexeme.written_ne_nil {kind : TokenKind} {written text behind : List Char}
    (lexeme : Lexeme kind written text behind) : written ≠ [] := by
  cases lexeme with
  | number _ digits _ _ => simp [digits.1]
  | _ => simp

theorem Lexeme.kind_ne_end {kind : TokenKind} {written text behind : List Char}
    (lexeme : Lexeme kind written text behind) : kind ≠ .endOfInput := by
  rintro rfl
  cases lexeme with
  | mark listed => simp [marks] at listed
  | word _ _ _ spelled => simpa using spelled.name

def OpensComment (c : Char) (rest : List Char) : Prop :=
  c = '#' ∨ c = '-' ∧ rest.head? = some '-' ∨
    c = '/' ∧ rest.head? = some '*' ∧ (rest.drop 1).head? ≠ some '!'

def StartsToken (c : Char) (rest : List Char) : Prop :=
  c ∈ marks.map Prod.fst ∨ c ∈ quotes.map Quote.char ∨ c = '\x60' ∨ c.isDigit = true ∨
    Text.startsWord c = true ∨ c = '-' ∧ rest.head?.any Char.isDigit = true ∨
    c = '/' ∧ rest.head? = some '*' ∧ (rest.drop 1).head? = some '!'

/-- What lies between two tokens, or before the first or behind the last one: blanks, comments that
are no directives, and characters where neither a comment nor a token starts. -/
inductive Filler (behind : List Char) : List Char → Prop where
  | nil : Filler behind []
  | blank {c : Char} {gap : List Char} (blank : Text.isBlank c = true) (later : Filler behind gap) :
      Filler behind (c :: gap)
  | line {opening body gap : List Char} (opens : opening = ['#'] ∨ opening = ['-', '-'])
      (inside : '\n' ∉ body) (stops : ∀ c ∈ (gap ++ behind).head?, c = '\n')
      (later : Filler behind gap) : Filler behind (opening ++ body ++ gap)
  | block {body closing gap : List Char} (not_directive : body.head? ≠ some '!')
      (inside : ¬['*', '/'] <:+: body) (closes : Closes ['*', '/'] closing (gap ++ behind))
      (later : Filler behind gap) : Filler behind (['/', '*'] ++ body ++ closing ++ gap)
  | stray {c : Char} {gap : List Char} (no_comment : ¬OpensComment c (gap ++ behind))
      (no_token : ¬StartsToken c (gap ++ behind)) (later : Filler behind gap) :
      Filler behind (c :: gap)

theorem dropWhile_head_fails {p : Char → Bool} (chars : List Char) :
    ∀ c ∈ (chars.dropWhile p).head?, p c = false := by
  intro c first
  have fails := List.head?_dropWhile_not p chars
  rw [Option.mem_def.mp first] at fails
  simpa using fails

namespace Enclosed

theorem byMark_encloses (mark : Char) (chars : List Char) :
    mark ∉ (byMark mark chars).body ∧
      Closes [mark] (byMark mark chars).closing (byMark mark chars).rest := by
  constructor
  · intro inside
    simpa using List.mem_takeWhile_imp inside
  · have closing := dropWhile_head_fails (p := (· != mark)) chars
    unfold byMark Closes
    generalize chars.dropWhile (· != mark) = after at closing ⊢
    cases after with
    | nil => simp
    | cons c rest => simpa using closing

theorem byStarSlash_encloses (chars : List Char) :
    ¬['*', '/'] <:+: (byStarSlash chars).body ∧
      Closes ['*', '/'] (byStarSlash chars).closing (byStarSlash chars).rest := by
  fun_induction byStarSlash chars with
  | case1 => simp [Closes]
  | case2 c rest closes => simp [Closes]
  | case3 c rest still_open ih =>
      obtain ⟨inside, closes⟩ := ih
      refine ⟨?_, closes⟩
      intro infix_body
      rcases List.infix_cons_iff.mp infix_body with ⟨later, front⟩ | deeper
      · -- the delimiter would stand in front of the whole text
        obtain ⟨star, body⟩ := List.cons.inj front
        have whole := byStarSlash_append rest
        rw [← show '/' :: later = (byStarSlash rest).body from body] at whole
        exact still_open ⟨star.symm, by rw [← whole]; rfl⟩
      · exact inside deeper

end Enclosed

namespace Ending

variable {mark : Char} {body closing behind : List Char}

theorem prepend {front : List Char} (ending : Ending mark body closing behind)
    (grows : ∀ {inner}, Quoted mark inner → Quoted mark (front ++ inner)) :
    Ending mark (front ++ body) closing behind := by
  cases ending with
  | closed inside single => exact .closed (grows inside) single
  | unclosed inside => exact .unclosed (grows inside)
  | escaping inside =>
      rw [← List.append_assoc]
      exact .escaping (grows inside)

theorem of_byQuote (mark : Char) (chars : List Char) :
    Ending mark (Enclosed.byQuote mark chars).body (Enclosed.byQuote mark chars).closing
      (Enclosed.byQuote mark chars).rest := by
  fun_induction Enclosed.byQuote mark chars with
  | case1 => exact .unclosed .nil
  | case2 => exact .escaping .nil
  | case3 d rest ih => exact ih.prepend (.escaped d)
  | case4 not_escape => exact .closed .nil (by simp)
  | case5 rest not_escape ih => exact ih.prepend .doubled
  | case6 d rest not_doubled not_escape => exact .closed .nil (by simpa using not_doubled)
  | case7 c rest not_escape not_mark ih => exact ih.prepend (.other not_escape not_mark)

end Ending

namespace Piece

/-- Is the piece a token by its writing, or something that may lie in front of what fills a gap? -/
def Lawful (piece : Piece) : Prop :=
  match piece.kind with
  | some kind => Lexeme kind piece.written piece.text piece.rest
  | none => ∀ gap behind, piece.rest = gap ++ behind → Filler behind gap →
      Filler behind (piece.written ++ gap)

theorem mark?_eq_some_iff {c : Char} {kind : TokenKind} :
    mark? c = some kind ↔ (c, kind) ∈ marks := by
  simp only [mark?, marks, List.mem_cons, Prod.mk.injEq, List.not_mem_nil, or_false]
  repeat' split
  all_goals simp_all [eq_comm]

theorem quote?_eq_some_iff {c : Char} {quote : Quote} :
    quote? c = some quote ↔ quote ∈ quotes ∧ quote.char = c := by
  constructor
  · intro found
    exact ⟨List.mem_of_find?_eq_some found, by simpa using List.find?_some found⟩
  · rintro ⟨known, rfl⟩
    have all_found : ∀ quote ∈ quotes, quote? quote.char = some quote := by decide
    exact all_found quote known

theorem blank_lawful {c : Char} (blank : Text.isBlank c = true) (rest : List Char) :
    (gap [c] rest).Lawful :=
  fun _ _ _ later => .blank blank later

theorem line_lawful {opening : List Char} (opens : opening = ['#'] ∨ opening = ['-', '-'])
    (rest : List Char) : (lineComment (opening ++ rest)).Lawful := by
  have one_line : ∀ c ∈ opening, (c != '\n') = true := by
    rcases opens with rfl | rfl <;> simp
  have stops := dropWhile_head_fails (p := (· != '\n')) rest
  intro gap behind parts later
  simp only [lineComment, Piece.gap, List.takeWhile_append_of_pos one_line,
    List.dropWhile_append_of_pos one_line] at parts ⊢
  refine .line opens ?_ ?_ later
  · intro inside
    simpa using List.mem_takeWhile_imp inside
  · intro c first
    simpa using stops c (parts ▸ first)

theorem starComment_lawful (rest : List Char) : (starComment rest).Lawful := by
  rw [starComment]
  split
  · obtain ⟨inside, closes⟩ := Enclosed.byStarSlash_encloses (rest.drop 1)
    exact .directive inside closes
  next no_bang =>
    obtain ⟨inside, closes⟩ := Enclosed.byStarSlash_encloses rest
    have whole := Enclosed.byStarSlash_append rest
    intro gap behind parts later
    refine .block ?_ inside (parts ▸ closes) later
    intro bang
    apply no_bang
    rw [← whole, List.append_assoc, List.head?_append, bang]
    rfl

theorem digits_taken {chars : List Char} (first : chars.head?.any Char.isDigit = true) :
    Digits (chars.takeWhile Char.isDigit) := by
  constructor
  · cases chars <;> simp_all
  · exact fun _ => List.mem_takeWhile_imp

theorem number_lawful {sign : List Char} (signed : sign = [] ∨ sign = ['-']) {chars : List Char}
    (first : chars.head?.any Char.isDigit = true) : (number sign chars).Lawful := by
  have digits := digits_taken first
  have stops := dropWhile_head_fails (p := Char.isDigit) chars
  rw [number_eq, numberFrom]
  generalize chars.dropWhile Char.isDigit = after at stops ⊢
  split
  next fraction =>
    have decimals := digits_taken fraction.2
    exact .number signed digits (.inr ⟨_, rfl, decimals⟩) (dropWhile_head_fails _)
  next no_fraction =>
    have written := Lexeme.number signed digits (.inl ⟨rfl, no_fraction⟩) stops
    rwa [List.append_nil] at written

theorem word_lawful {c : Char} (starts : Text.startsWord c = true) (rest : List Char) :
    (word (c :: rest)).Lawful := by
  have continues := Text.continuesWord_of_startsWord starts
  simp only [word, List.takeWhile_cons, List.dropWhile_cons, continues, ↓reduceIte]
  have written {kind : TokenKind}
      (spelled : Spelled (.ofList (c :: rest.takeWhile Text.continuesWord)) kind) :
      (plain kind (c :: rest.takeWhile Text.continuesWord)
        (rest.dropWhile Text.continuesWord)).Lawful :=
    .word starts (fun _ => List.mem_takeWhile_imp) (dropWhile_head_fails rest) spelled
  split
  next keyword found => exact written (.of_keyword found)
  next missing => exact written (.of_name missing)

theorem lexeme_lawful {c : Char} {rest : List Char} (no_comment : ¬OpensComment c rest)
    (no_directive : ¬(c = '/' ∧ rest.head? = some '*')) : (lexeme c rest).Lawful := by
  unfold lexeme
  cases mark : mark? c with
  | some kind => exact .mark (mark?_eq_some_iff.mp mark)
  | none =>
      cases quoted : quote? c with
      | some quote =>
          obtain ⟨known, rfl⟩ := quote?_eq_some_iff.mp quoted
          exact .string known (Ending.of_byQuote quote.char rest)
      | none =>
          simp only
          split
          next back_quote =>
            subst back_quote
            obtain ⟨inside, closes⟩ := Enclosed.byMark_encloses '\x60' rest
            exact .quotedIdentifier inside closes
          split
          next negative => exact number_lawful (.inr (by rw [negative.1])) negative.2
          split
          next digit => exact number_lawful (.inl rfl) digit
          split
          next starts => exact word_lawful starts rest
          next not_quoted not_negative not_digit not_word =>
            intro gap behind parts later
            obtain rfl : rest = gap ++ behind := parts
            refine .stray no_comment ?_ later
            rintro (listed | quotation | back_quote | digit | starts | negative | directive)
            · obtain ⟨⟨_, kind⟩, known, rfl⟩ := List.mem_map.mp listed
              rw [mark?_eq_some_iff.mpr known] at mark
              contradiction
            · obtain ⟨quote, known, rfl⟩ := List.mem_map.mp quotation
              rw [quote?_eq_some_iff.mpr ⟨known, rfl⟩] at quoted
              contradiction
            · exact not_quoted back_quote
            · exact not_digit digit
            · exact not_word starts
            · exact not_negative negative
            · exact no_directive ⟨directive.1, directive.2.1⟩

theorem front_lawful (c : Char) (rest : List Char) : (front c rest).Lawful := by
  rw [front_eq]
  by_cases blank : Text.isBlank c = true
  · rw [if_pos blank]
    exact blank_lawful blank rest
  rw [if_neg blank]
  by_cases line : c = '#' ∨ c = '-' ∧ rest.head? = some '-'
  · rw [if_pos line]
    rcases line with rfl | ⟨rfl, next⟩
    · exact line_lawful (.inl rfl) rest
    · obtain ⟨later, rfl⟩ := List.head?_eq_some_iff.mp next
      exact line_lawful (.inr rfl) later
  rw [if_neg line]
  by_cases comment : c = '/' ∧ rest.head? = some '*'
  · rw [if_pos comment]
    obtain ⟨later, rfl⟩ := List.head?_eq_some_iff.mp comment.2
    exact starComment_lawful later
  rw [if_neg comment]
  have no_comment : ¬OpensComment c rest := by
    rintro (hash | dashes | ⟨slash, star, _⟩)
    · exact line (.inl hash)
    · exact line (.inr dashes)
    · exact comment ⟨slash, star⟩
  exact lexeme_lawful no_comment comment

end Piece

end SchemaDrift
