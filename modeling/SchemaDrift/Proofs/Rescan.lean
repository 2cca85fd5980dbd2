import SchemaDrift.Proofs.Lexeme

/-!
The rules of writing are exact. Whatever is written as a token by the rules, with something behind
it that may stand there, is what the scanner takes off; so a token is scanned again as it is
wherever it is written, and so is what lies between tokens.
-/

namespace SchemaDrift

namespace Text

theorem forall_inRanges {P : Char → Prop} {ranges : List (Nat × Nat)}
    (each : ∀ range ∈ ranges, ∀ code ∈ List.range' range.1 (range.2 + 1 - range.1),
      P (Char.ofNat code)) {c : Char} (inside : inRanges ranges c.toNat = true) : P c := by
  obtain ⟨range, member, bounds⟩ := List.any_eq_true.mp inside
  simp only [Bool.and_eq_true, decide_eq_true_eq] at bounds
  have code : c.toNat ∈ List.range' range.1 (range.2 + 1 - range.1) :=
    List.mem_range'_1.mpr ⟨bounds.1, by omega⟩
  have holds := each range member c.toNat code
  rwa [Char.ofNat_toNat] at holds

theorem continuesWord_of_isBlank {c : Char} (blank : isBlank c = true) : continuesWord c = false :=
  forall_inRanges (P := fun c => continuesWord c = false) (by decide +kernel) blank

theorem isBlank_of_startsWord {c : Char} (starts : startsWord c = true) : isBlank c = false := by
  by_contra blank
  have ends := continuesWord_of_isBlank (Bool.not_eq_false _ ▸ blank)
  rw [continuesWord_of_startsWord starts] at ends
  contradiction

theorem forall_digit {P : Char → Prop} (each : ∀ code ∈ List.range' 48 10, P (Char.ofNat code))
    {c : Char} (digit : c.isDigit = true) : P c := by
  simp only [Char.isDigit, ge_iff_le, Bool.and_eq_true, decide_eq_true_eq,
    UInt32.le_iff_toNat_le] at digit
  have bounds : 48 ≤ c.toNat ∧ c.toNat ≤ 57 := digit
  have code := each c.toNat (List.mem_range'_1.mpr ⟨bounds.1, by omega⟩)
  rwa [Char.ofNat_toNat] at code

theorem isBlank_of_isDigit {c : Char} (digit : c.isDigit = true) : isBlank c = false :=
  forall_digit (P := fun c => isBlank c = false) (by decide) digit

theorem startsWord_of_isDigit {c : Char} (digit : c.isDigit = true) : startsWord c = false :=
  forall_digit (P := fun c => startsWord c = false) (by decide +kernel) digit

end Text

section Runs

variable {p : Char → Bool} {run behind : List Char}

theorem takeWhile_stops (passed : ∀ c ∈ run, p c = true) (stops : ∀ c ∈ behind.head?, p c = false) :
    (run ++ behind).takeWhile p = run := by
  rw [List.takeWhile_append_of_pos passed]
  cases behind with
  | nil => simp
  | cons c rest => simp [stops c rfl]

theorem dropWhile_stops (passed : ∀ c ∈ run, p c = true) (stops : ∀ c ∈ behind.head?, p c = false) :
    (run ++ behind).dropWhile p = behind := by
  rw [List.dropWhile_append_of_pos passed]
  cases behind with
  | nil => rfl
  | cons c rest => simp [stops c rfl]

end Runs

namespace Enclosed

variable {mark : Char} {body closing behind : List Char}

theorem byMark_eq (inside : mark ∉ body) (closes : Closes [mark] closing behind) :
    byMark mark (body ++ closing ++ behind) = ⟨body, closing, behind⟩ := by
  have passed : ∀ c ∈ body, (c != mark) = true := by
    intro c member
    simpa using fun same : c = mark => inside (same ▸ member)
  rw [byMark, List.append_assoc, List.takeWhile_append_of_pos passed,
    List.dropWhile_append_of_pos passed]
  rcases closes with rfl | ⟨rfl, rfl⟩ <;> simp

theorem byStarSlash_eq (inside : ¬['*', '/'] <:+: body)
    (closes : Closes ['*', '/'] closing behind) :
    byStarSlash (body ++ closing ++ behind) = ⟨body, closing, behind⟩ := by
  induction body with
  | nil => rcases closes with rfl | ⟨rfl, rfl⟩ <;> simp [byStarSlash]
  | cons c body ih =>
      have still_open : ¬(c = '*' ∧ (body ++ closing ++ behind).head? = some '/') := by
        rintro ⟨rfl, next⟩
        cases body with
        | nil => rcases closes with rfl | ⟨rfl, rfl⟩ <;> simp at next
        | cons d body =>
            obtain rfl : d = '/' := by simpa using next
            exact inside ⟨[], body, rfl⟩
      have later := ih fun deeper => inside (deeper.trans (List.suffix_cons c body).isInfix)
      rw [List.cons_append, List.cons_append, byStarSlash, if_neg still_open, later]
      rfl

theorem byQuote_quoted (no_escape : mark ≠ '\\') (inside : Quoted mark body) (rest : List Char) :
    byQuote mark (body ++ rest) = (byQuote mark rest).prepend body := by
  induction inside with
  | nil => rfl
  | escaped c later ih =>
      rw [List.cons_append, List.cons_append, byQuote.eq_def]
      simp only [↓reduceIte, ih]
      rfl
  | doubled later ih =>
      rw [List.cons_append, List.cons_append, byQuote.eq_def]
      simp only [no_escape, ↓reduceIte, ih]
      rfl
  | other not_escape not_mark later ih =>
      rw [List.cons_append, byQuote.eq_def]
      simp only [not_escape, not_mark, ↓reduceIte, ih]
      rfl

theorem byQuote_eq (no_escape : mark ≠ '\\') (ending : Ending mark body closing behind) :
    byQuote mark (body ++ closing ++ behind) = ⟨body, closing, behind⟩ := by
  cases ending with
  | closed inside single =>
      have closes : byQuote mark (mark :: behind) = ⟨[], [mark], behind⟩ := by
        rw [byQuote.eq_def]
        cases behind with
        | nil => simp [no_escape]
        | cons d rest =>
            have not_doubled : d ≠ mark := by simpa using single
            simp [no_escape, not_doubled]
      rw [List.append_assoc, byQuote_quoted no_escape inside, List.singleton_append, closes]
      simp [prepend]
  | unclosed inside =>
      rw [List.append_assoc, byQuote_quoted no_escape inside]
      simp [byQuote, prepend]
  | escaping inside =>
      simp only [List.append_nil]
      rw [byQuote_quoted no_escape inside]
      simp [byQuote, prepend]

end Enclosed

theorem Spelled.kind_eq {text : String} {kind : TokenKind} (spelled : Spelled text kind) :
    (match Keyword.ofWord? text with
      | some keyword => TokenKind.keyword keyword
      | none => .identifier) = kind := by
  cases found : Keyword.ofWord? text with
  | some keyword =>
      exact ((spelled.keyword keyword).mpr (Keyword.ofWord?_eq_some_iff.mp found)).symm
  | none =>
      refine (spelled.name fun keyword same => ?_).symm
      rw [Keyword.ofWord?_eq_some_iff.mpr ((spelled.keyword keyword).mp same)] at found
      contradiction

namespace Piece

variable {behind : List Char}

/-- A character that opens no comment, and is neither a mark nor a quotation mark. -/
structure Unmarked (c : Char) : Prop where
  blank : Text.isBlank c = false
  hash : c ≠ '#'
  slash : c ≠ '/'
  mark : mark? c = none
  quote : quote? c = none
  backQuote : c ≠ '\x60'

theorem unmarked_of_class {c : Char} {p : Char → Bool} (member : p c = true)
    (blank : Text.isBlank c = false)
    (outside : ['#', '/', '(', ')', ',', ';', '=', '.', '\x27', '\x22', '\x60'].any p = false) :
    Unmarked c := by
  have other {d : Char}
      (listed : d ∈ ['#', '/', '(', ')', ',', ';', '=', '.', '\x27', '\x22', '\x60']) : c ≠ d := by
    rintro rfl
    exact List.any_eq_false.mp outside c listed member
  refine ⟨blank, other (by simp), other (by simp), ?_, ?_, other (by simp)⟩
  · simp only [mark?, other (d := '(') (by simp), other (d := ')') (by simp),
      other (d := ',') (by simp), other (d := ';') (by simp), other (d := '=') (by simp),
      other (d := '.') (by simp), ↓reduceIte]
  · simp [quote?, quotes, Quote.single, Quote.double, (other (d := '\x27') (by simp)).symm,
      (other (d := '\x22') (by simp)).symm]

theorem unmarked_of_startsWord {c : Char} (starts : Text.startsWord c = true) : Unmarked c :=
  unmarked_of_class starts (Text.isBlank_of_startsWord starts) (by decide +kernel)

theorem unmarked_of_isDigit {c : Char} (digit : c.isDigit = true) : Unmarked c :=
  unmarked_of_class digit (Text.isBlank_of_isDigit digit) (by decide)

theorem unmarked_dash : Unmarked '-' :=
  unmarked_of_class (p := (· == '-')) rfl (by decide) (by decide)

theorem Unmarked.front {c : Char} (unmarked : Unmarked c) {rest : List Char}
    (no_line : ¬(c = '-' ∧ rest.head? = some '-')) :
    Piece.front c rest =
      if c = '-' ∧ rest.head?.any Char.isDigit then number [c] rest
      else if c.isDigit then number [] (c :: rest)
      else if Text.startsWord c then word (c :: rest)
      else gap [c] rest := by
  have no_comment : ¬(c = '#' ∨ c = '-' ∧ rest.head? = some '-') :=
    fun opens => opens.elim unmarked.hash no_line
  have no_star : ¬(c = '/' ∧ rest.head? = some '*') := fun opens => unmarked.slash opens.1
  simp only [front_eq, unmarked.blank, no_comment, no_star, lexeme, unmarked.mark, unmarked.quote,
    unmarked.backQuote, Bool.false_eq_true, ↓reduceIte]

theorem front_mark {c : Char} {kind : TokenKind} (listed : (c, kind) ∈ marks) (rest : List Char) :
    front c rest = plain kind [c] rest := by
  simp only [marks, List.mem_cons, Prod.mk.injEq, List.not_mem_nil, or_false] at listed
  rcases listed with ⟨rfl, rfl⟩ | ⟨rfl, rfl⟩ | ⟨rfl, rfl⟩ | ⟨rfl, rfl⟩ | ⟨rfl, rfl⟩ | ⟨rfl, rfl⟩ <;>
    rfl

theorem front_word {c : Char} {rest : List Char} {kind : TokenKind}
    (starts : Text.startsWord c = true) (continues : ∀ d ∈ rest, Text.continuesWord d = true)
    (stops : ∀ d ∈ behind.head?, Text.continuesWord d = false)
    (spelled : Spelled (.ofList (c :: rest)) kind) :
    front c (rest ++ behind) = plain kind (c :: rest) behind := by
  have not_dash : c ≠ '-' := by
    rintro rfl
    exact absurd starts (by decide)
  have not_digit : c.isDigit = false := by
    by_contra digit
    rw [Text.startsWord_of_isDigit (Bool.not_eq_false _ ▸ digit)] at starts
    contradiction
  have goes_on := Text.continuesWord_of_startsWord starts
  have all : ∀ d ∈ c :: rest, Text.continuesWord d = true := by simpa [goes_on] using continues
  rw [(unmarked_of_startsWord starts).front (by simp [not_dash])]
  simp only [not_dash, not_digit, starts, false_and, Bool.false_eq_true, ↓reduceIte]
  rw [← List.cons_append, word, takeWhile_stops all stops, dropWhile_stops all stops]
  exact congrArg (plain · (c :: rest) behind) spelled.kind_eq

theorem numberFrom_eq {sign whole fraction : List Char}
    (point : fraction = [] ∧ ¬Fraction behind ∨
      ∃ decimals, fraction = '.' :: decimals ∧ Digits decimals)
    (stops : ∀ d ∈ behind.head?, d.isDigit = false) :
    numberFrom sign whole (fraction ++ behind) =
      plain .number (sign ++ whole ++ fraction) behind := by
  rcases point with ⟨rfl, no_fraction⟩ | ⟨decimals, rfl, nonempty, digits⟩
  · rw [List.nil_append, numberFrom, if_neg no_fraction, List.append_nil]
  · obtain ⟨d, others, rfl⟩ := List.exists_cons_of_ne_nil nonempty
    have fraction : Fraction ('.' :: d :: others ++ behind) := by
      simp [Fraction, digits d List.mem_cons_self]
    rw [numberFrom, if_pos fraction]
    simp only [List.cons_append, List.drop_succ_cons, List.drop_zero]
    rw [← List.cons_append, takeWhile_stops digits stops, dropWhile_stops digits stops]

section Number

variable {sign whole fraction : List Char} (digits : Digits whole)
  (point : fraction = [] ∧ ¬Fraction behind ∨
    ∃ decimals, fraction = '.' :: decimals ∧ Digits decimals)
  (stops : ∀ d ∈ behind.head?, d.isDigit = false)
include digits point stops

theorem number_taken :
    number sign (whole ++ fraction ++ behind) =
      plain .number (sign ++ whole ++ fraction) behind := by
  have whole_stops : ∀ d ∈ (fraction ++ behind).head?, d.isDigit = false := by
    rcases point with ⟨rfl, _⟩ | ⟨decimals, rfl, _⟩
    · simpa using stops
    · simp
  rw [number_eq, List.append_assoc, takeWhile_stops digits.2 whole_stops,
    dropWhile_stops digits.2 whole_stops, numberFrom_eq point stops]

theorem front_number (signed : sign = [] ∨ sign = ['-']) :
    ∃ c rest, sign ++ whole ++ fraction = c :: rest ∧
      front c (rest ++ behind) = plain .number (sign ++ whole ++ fraction) behind := by
  have taken : number sign (whole ++ fraction ++ behind) =
      plain .number (sign ++ whole ++ fraction) behind := number_taken digits point stops
  obtain ⟨d, others, rfl⟩ := List.exists_cons_of_ne_nil digits.1
  have digit : d.isDigit = true := digits.2 d List.mem_cons_self
  rcases signed with rfl | rfl
  · have not_dash : d ≠ '-' := by
      rintro rfl
      exact absurd digit (by decide)
    refine ⟨d, others ++ fraction, rfl, ?_⟩
    rw [(unmarked_of_isDigit digit).front (by simp [not_dash]), if_neg (by simp [not_dash]),
      if_pos digit]
    exact taken
  · have one_dash : d ≠ '-' := by
      rintro rfl
      exact absurd digit (by decide)
    refine ⟨'-', d :: others ++ fraction, rfl, ?_⟩
    rw [unmarked_dash.front (by simpa using one_dash), if_pos (by simpa using digit)]
    exact taken

end Number

theorem front_star (rest : List Char) : front '/' ('*' :: rest) = starComment rest := by
  rw [front_eq]
  rfl

theorem front_quote {quote : Quote} (known : quote ∈ quotes) (rest : List Char) :
    front quote.char rest =
      delimited (.string quote) [quote.char] (Enclosed.byQuote quote.char rest) := by
  simp only [quotes, List.mem_cons, List.not_mem_nil, or_false] at known
  rcases known with rfl | rfl <;> rfl

theorem front_string {quote : Quote} {body closing : List Char} (known : quote ∈ quotes)
    (ending : Ending quote.char body closing behind) :
    front quote.char (body ++ closing ++ behind) =
      ⟨some (.string quote), [quote.char] ++ body ++ closing, body, behind⟩ := by
  have no_escape : ∀ quote ∈ quotes, quote.char ≠ '\\' := by decide
  rw [front_quote known, Enclosed.byQuote_eq (no_escape quote known) ending]
  rfl

theorem front_quotedIdentifier {body closing : List Char} (inside : '\x60' ∉ body)
    (closes : Closes ['\x60'] closing behind) :
    front '\x60' (body ++ closing ++ behind) =
      ⟨some .quotedIdentifier, ['\x60'] ++ body ++ closing, body, behind⟩ := by
  have delimits : front '\x60' (body ++ closing ++ behind) =
      delimited .quotedIdentifier ['\x60']
        (Enclosed.byMark '\x60' (body ++ closing ++ behind)) := rfl
  rw [delimits, Enclosed.byMark_eq inside closes]
  rfl

theorem front_directive {body closing : List Char} (inside : ¬['*', '/'] <:+: body)
    (closes : Closes ['*', '/'] closing behind) :
    front '/' ('*' :: '!' :: body ++ closing ++ behind) =
      ⟨some .directive, ['/', '*', '!'] ++ body ++ closing, body, behind⟩ := by
  have delimits : front '/' ('*' :: '!' :: body ++ closing ++ behind) =
      directive (body ++ closing ++ behind) := rfl
  rw [delimits, directive, Enclosed.byStarSlash_eq inside closes]
  rfl

theorem front_of_lexeme {kind : TokenKind} {written text : List Char}
    (lexeme : Lexeme kind written text behind) :
    ∃ c rest, written = c :: rest ∧
      front c (rest ++ behind) = ⟨some kind, written, text, behind⟩ := by
  cases lexeme with
  | mark listed => exact ⟨_, [], rfl, front_mark listed behind⟩
  | word starts continues stops spelled =>
      exact ⟨_, _, rfl, front_word starts continues stops spelled⟩
  | number signed digits point stops => exact front_number digits point stops signed
  | string known ending => exact ⟨_, _, rfl, front_string known ending⟩
  | quotedIdentifier inside closes => exact ⟨_, _, rfl, front_quotedIdentifier inside closes⟩
  | directive inside closes => exact ⟨_, _, rfl, front_directive inside closes⟩

theorem front_blank {c : Char} (blank : Text.isBlank c = true) (rest : List Char) :
    front c rest = gap [c] rest := by
  rw [front_eq, if_pos blank]

theorem front_stray {c : Char} {rest : List Char} (no_comment : ¬OpensComment c rest)
    (no_token : ¬StartsToken c rest) : front c rest = gap [c] rest := by
  simp only [OpensComment, StartsToken, not_or, not_and] at no_comment no_token
  obtain ⟨not_hash, not_dashes, not_star⟩ := no_comment
  obtain ⟨no_mark, no_quote, no_back_quote, no_digit, no_word, no_negative, no_directive⟩ :=
    no_token
  have line : ¬(c = '#' ∨ c = '-' ∧ rest.head? = some '-') := by
    rintro (hash | ⟨dash, next⟩)
    · exact not_hash hash
    · exact not_dashes dash next
  have comment : ¬(c = '/' ∧ rest.head? = some '*') := fun ⟨slash, star⟩ =>
    no_directive slash star (not_not.mp (not_star slash star))
  have unmarked : mark? c = none := by
    refine Option.eq_none_iff_forall_ne_some.mpr fun kind marked => no_mark ?_
    exact List.mem_map.mpr ⟨_, mark?_eq_some_iff.mp marked, rfl⟩
  have unquoted : quote? c = none :=
    Option.eq_none_iff_forall_ne_some.mpr fun quote quoted =>
      no_quote (List.mem_map.mpr ⟨quote, quote?_eq_some_iff.mp quoted⟩)
  have not_negative : ¬(c = '-' ∧ rest.head?.any Char.isDigit = true) := fun both =>
    no_negative both.1 both.2
  rw [front_eq, if_neg line, if_neg comment, ite_eq_left_iff]
  intro _
  simp only [lexeme, unmarked, unquoted, no_back_quote, not_negative, no_digit, no_word,
    Bool.false_eq_true, ↓reduceIte]

theorem front_block {body closing : List Char} (not_directive : body.head? ≠ some '!')
    (inside : ¬['*', '/'] <:+: body) (closes : Closes ['*', '/'] closing behind) :
    front '/' ('*' :: body ++ closing ++ behind) =
      gap (['/', '*'] ++ body ++ closing) behind := by
  have no_bang : (body ++ closing ++ behind).head? ≠ some '!' := by
    cases body with
    | nil => rcases closes with rfl | ⟨rfl, rfl⟩ <;> simp
    | cons c body => simpa using not_directive
  rw [List.cons_append, List.cons_append, front_star, starComment, if_neg no_bang, blockComment,
    Enclosed.byStarSlash_eq inside closes]
  rfl

theorem front_comment {c : Char} {rest : List Char} (opens : OpensComment c rest) :
    (c = '#' ∨ c = '-' ∧ rest.head? = some '-') ∨
      c = '/' ∧ ∃ body closing behind, rest = '*' :: body ++ closing ++ behind ∧
        body.head? ≠ some '!' ∧ ¬['*', '/'] <:+: body ∧ Closes ['*', '/'] closing behind ∧
        front c rest = gap (['/', '*'] ++ body ++ closing) behind := by
  rcases opens with hash | dashes | ⟨rfl, star, no_bang⟩
  · exact .inl (.inl hash)
  · exact .inl (.inr dashes)
  · obtain ⟨rest, rfl⟩ := List.head?_eq_some_iff.mp star
    obtain ⟨inside, closes⟩ := Enclosed.byStarSlash_encloses rest
    have whole := Enclosed.byStarSlash_append rest
    have not_directive : (Enclosed.byStarSlash rest).body.head? ≠ some '!' := by
      intro bang
      apply no_bang
      rw [List.drop_succ_cons, List.drop_zero, ← whole, List.append_assoc, List.head?_append, bang]
      rfl
    have parts : '*' :: rest = '*' :: (Enclosed.byStarSlash rest).body ++
        (Enclosed.byStarSlash rest).closing ++ (Enclosed.byStarSlash rest).rest :=
      congrArg ('*' :: ·) whole.symm
    refine .inr ⟨rfl, _, _, _, parts, not_directive, inside, closes, ?_⟩
    rw [parts]
    exact front_block not_directive inside closes

theorem front_kind_of_startsToken {c : Char} {rest : List Char} (starts : StartsToken c rest)
    (no_comment : ¬OpensComment c rest) : (front c rest).kind ≠ none := by
  have no_line : ¬(c = '-' ∧ rest.head? = some '-') := fun dashes =>
    no_comment (.inr (.inl dashes))
  rcases starts with listed | quotation | rfl | digit | starts | ⟨rfl, digit⟩ | directive
  · obtain ⟨⟨_, kind⟩, known, rfl⟩ := List.mem_map.mp listed
    simp [front_mark known, plain]
  · obtain ⟨quote, known, rfl⟩ := List.mem_map.mp quotation
    simp [front_quote known, delimited]
  · exact Option.some_ne_none TokenKind.quotedIdentifier
  · rw [(unmarked_of_isDigit digit).front no_line, if_pos digit]
    split <;> simp [number_kind]
  · rw [(unmarked_of_startsWord starts).front no_line, if_pos starts]
    split
    · simp [number_kind]
    split
    · simp [number_kind]
    · rcases word_kind (c :: rest) with kind | ⟨keyword, kind⟩ <;> simp [kind]
  · rw [unmarked_dash.front no_line, if_pos (by simpa using digit), number_kind]
    simp
  · obtain ⟨rfl, star, bang⟩ := directive
    obtain ⟨rest, rfl⟩ := List.head?_eq_some_iff.mp star
    rw [front_star, starComment, if_pos (by simpa using bang)]
    simp [Piece.directive, delimited]

theorem front_cases (c : Char) (rest : List Char) :
    (∃ kind, (front c rest).kind = some kind ∧
      Lexeme kind (front c rest).written (front c rest).text (front c rest).rest) ∨
    OpensComment c rest ∨
    front c rest = gap [c] rest ∧
      (Text.isBlank c = true ∨ ¬OpensComment c rest ∧ ¬StartsToken c rest) := by
  by_cases comment : OpensComment c rest
  · exact .inr (.inl comment)
  by_cases blank : Text.isBlank c = true
  · exact .inr (.inr ⟨front_blank blank rest, .inl blank⟩)
  by_cases starts : StartsToken c rest
  · obtain ⟨kind, found⟩ :=
      Option.ne_none_iff_exists'.mp (front_kind_of_startsToken starts comment)
    have lawful := front_lawful c rest
    rw [Lawful, found] at lawful
    exact .inl ⟨kind, found, lawful⟩
  · exact .inr (.inr ⟨front_stray comment starts, .inr ⟨comment, starts⟩⟩)

end Piece

/-- A character that ends every token in front of it, and starts none together with it. -/
def Severs (c : Char) : Prop :=
  Text.isBlank c = true ∨ c = ')' ∨ c = ','

theorem Severs.outside {c : Char} (severs : Severs c) :
    Text.continuesWord c = false ∧ c.isDigit = false ∧
      ∀ other ∈ ['.', '-', '*', '\x27', '\x22'], c ≠ other := by
  rcases severs with blank | rfl | rfl
  · refine ⟨Text.continuesWord_of_isBlank blank, ?_, ?_⟩
    · by_contra digit
      rw [Text.isBlank_of_isDigit (Bool.not_eq_false _ ▸ digit)] at blank
      contradiction
    · rintro other listed rfl
      have no_blank : ['.', '-', '*', '\x27', '\x22'].any Text.isBlank = false := by decide
      exact List.any_eq_false.mp no_blank c listed blank
  · exact ⟨by decide +kernel, by decide, by simp⟩
  · exact ⟨by decide +kernel, by decide, by simp⟩

/-- What stands in front of `first` cannot tell `second` from it: the next character is the same one
or ends a token anyway, and no fraction goes on that did not. -/
structure Indistinct (first second : List Char) : Prop where
  head : ∀ c ∈ second.head?, Severs c ∨ c ∈ first.head?
  fraction : Piece.Fraction second → Piece.Fraction first

namespace Indistinct

variable {first second : List Char}

theorem of_severs (severs : ∀ c ∈ second.head?, Severs c) : Indistinct first second where
  head c next := .inl (severs c next)
  fraction fraction := absurd rfl ((severs '.' fraction.1).outside.2.2 '.' (by simp))

theorem head_ne (indistinct : Indistinct first second) {c : Char}
    (listed : c ∈ ['.', '-', '*', '\x27', '\x22']) (other : first.head? ≠ some c) :
    second.head? ≠ some c := by
  intro next
  rcases indistinct.head c next with severs | same
  · exact severs.outside.2.2 c listed rfl
  · exact other same

theorem head_digit (indistinct : Indistinct first second)
    (stops : ∀ c ∈ first.head?, c.isDigit = false) : ∀ c ∈ second.head?, c.isDigit = false :=
  fun c next => (indistinct.head c next).elim (·.outside.2.1) (stops c)

end Indistinct

theorem Lexeme.directive_parts {kind : TokenKind} {written text behind : List Char}
    (lexeme : Lexeme kind written text behind) (directive : kind = .directive) :
    ∃ closing, written = ['/', '*', '!'] ++ text ++ closing ∧ ¬['*', '/'] <:+: text ∧
      Closes ['*', '/'] closing behind := by
  cases lexeme with
  | mark listed => simp [marks, directive] at listed
  | word _ _ _ spelled => simpa [directive] using spelled.name
  | directive inside closes => exact ⟨_, rfl, inside, closes⟩
  | _ => contradiction

theorem Lexeme.transfer {kind : TokenKind} {written text first second : List Char}
    (lexeme : Lexeme kind written text first) (nonempty : first ≠ [])
    (indistinct : Indistinct first second) : Lexeme kind written text second := by
  have closes {delimiter closing : List Char} (closes : Closes delimiter closing first) :
      Closes delimiter closing second :=
    .inl (closes.resolve_right fun open_end => nonempty open_end.2)
  cases lexeme with
  | mark listed => exact .mark listed
  | word starts continues stops spelled =>
      refine .word starts continues (fun d next => ?_) spelled
      exact (indistinct.head d next).elim (·.outside.1) (stops d)
  | number signed digits point stops =>
      refine .number signed digits (point.imp_left fun ⟨whole, no_fraction⟩ => ⟨whole, ?_⟩)
        (indistinct.head_digit stops)
      exact fun fraction => no_fraction (indistinct.fraction fraction)
  | @string quote _ _ _ known ending =>
      cases ending with
      | closed inside single =>
          have listed : ∀ quote ∈ quotes, quote.char ∈ ['.', '-', '*', '\x27', '\x22'] := by decide
          exact .string known (.closed inside (indistinct.head_ne (listed quote known) single))
      | unclosed inside => exact absurd rfl nonempty
      | escaping inside => exact absurd rfl nonempty
  | quotedIdentifier inside closed => exact .quotedIdentifier inside (closes closed)
  | directive inside closed => exact .directive inside (closes closed)

theorem no_comment_transfer {c : Char} {first second : List Char}
    (indistinct : Indistinct first second) (no_comment : ¬OpensComment c first)
    (no_token : ¬StartsToken c first) : ¬OpensComment c second ∧ ¬StartsToken c second := by
  simp only [OpensComment, StartsToken, not_or, not_and] at *
  obtain ⟨not_hash, not_dashes, not_star⟩ := no_comment
  obtain ⟨no_mark, no_quote, no_back_quote, no_digit, no_word, no_negative, no_directive⟩ :=
    no_token
  have no_star (slash : c = '/') : second.head? ≠ some '*' := by
    refine indistinct.head_ne (by simp) fun star => ?_
    exact no_directive slash star (not_not.mp (not_star slash star))
  have still_positive (dash : c = '-') : ¬second.head?.any Char.isDigit = true := by
    have stops := indistinct.head_digit fun d next => by
      have others := no_negative dash
      rw [Option.mem_def.mp next] at others
      simpa using others
    cases next : second.head? with
    | none => simp
    | some d => simp [stops d next]
  refine ⟨⟨not_hash, fun dash => indistinct.head_ne (by simp) (not_dashes dash),
    fun slash star => absurd star (no_star slash)⟩, no_mark, no_quote, no_back_quote, no_digit,
    no_word, still_positive, fun slash star => absurd star (no_star slash)⟩

/-- A piece that is closed and no comment is scanned again in front of what it cannot tell apart. -/
theorem Piece.front_transfer {c : Char} {rest second : List Char}
    (no_comment : ¬OpensComment c rest) (nonempty : (front c rest).rest ≠ [])
    (indistinct : Indistinct (front c rest).rest second) :
    ∃ others, (front c rest).written = c :: others ∧
      front c (others ++ second) = { front c rest with rest := second } := by
  rcases front_cases c rest with ⟨kind, found, lexeme⟩ | comment | ⟨alone, skipped⟩
  · have whole := front_append c rest
    obtain ⟨d, others, written, again⟩ := front_of_lexeme (lexeme.transfer nonempty indistinct)
    obtain rfl : d = c := by
      rw [written] at whole
      exact (List.cons.inj whole).1
    exact ⟨others, written, by rw [again, ← found]⟩
  · exact absurd comment no_comment
  · rw [alone] at indistinct ⊢
    refine ⟨[], rfl, ?_⟩
    rcases skipped with blank | ⟨_, no_token⟩
    · exact front_blank blank second
    · obtain ⟨still_no_comment, still_no_token⟩ :=
        no_comment_transfer indistinct no_comment no_token
      exact front_stray still_no_comment still_no_token

namespace Reaches

variable {chars middle behind : List Char}

theorem through_blanks {blanks : List Char} (blank : ∀ c ∈ blanks, Text.isBlank c = true)
    (behind : List Char) : Reaches (blanks ++ behind) behind := by
  induction blanks with
  | nil => exact .here behind
  | cons c blanks ih =>
      refine .past ?_
      rw [Piece.front_blank (blank c List.mem_cons_self)]
      exact ih fun d member => blank d (List.mem_cons_of_mem _ member)

theorem within (inner : Reaches chars middle) (reached : Reaches (chars ++ behind) behind) :
    Reaches (chars ++ behind) (middle ++ behind) ∧ Reaches (middle ++ behind) behind := by
  induction inner with
  | here chars => exact ⟨.here _, reached⟩
  | @past c rest middle later ih =>
      have first := reached.of_cons_append
      have same := Piece.front_local c rest behind first.length_le
      rw [same] at first
      obtain ⟨passed, left⟩ := ih first
      rw [List.cons_append]
      exact ⟨.past (by rw [same]; exact passed), left⟩

end Reaches

end SchemaDrift
