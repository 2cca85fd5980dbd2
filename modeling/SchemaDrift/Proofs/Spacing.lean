import Mathlib.Data.List.DropRight
import SchemaDrift.Proofs.Rescan
import SchemaDrift.Text.Spacing

/-!
Spacing in normal form. Blanks outside quotes count only as one run, so the ends may be trimmed
before or after, and how a run is written does not matter. The quotes of the normal form are those
of the scanner: a closed token goes through it as it is written, and the next one starts outside
quotes.
-/

namespace SchemaDrift

namespace Text

theorem isQuotationMark_of_isBlank {c : Char} (blank : isBlank c = true) :
    isQuotationMark c = false := by
  by_contra mark
  simp only [isQuotationMark, Bool.not_eq_false, Bool.or_eq_true, beq_iff_eq] at mark
  rcases mark with (rfl | rfl) | rfl <;> exact absurd blank (by decide)

theorem after_blank {c : Char} (blank : isBlank c = true) : Quoting.free.after c = .free := by
  rw [Quoting.after, isQuotationMark_of_isBlank blank, if_neg (by simp)]

theorem squeeze_nil (quoting : Quoting) : squeeze quoting [] = [] := by
  rw [squeeze]

theorem squeeze_blank {c : Char} (blank : isBlank c = true) (rest : List Char) :
    squeeze .free (c :: rest) =
      if rest.head?.any isBlank then squeeze .free rest else ' ' :: squeeze .free rest := by
  rw [squeeze, if_pos ⟨rfl, blank⟩]

theorem squeeze_kept {quoting : Quoting} {c : Char} (kept : ¬(quoting = .free ∧ isBlank c = true))
    (rest : List Char) : squeeze quoting (c :: rest) = c :: squeeze (quoting.after c) rest := by
  rw [squeeze, if_neg kept]

theorem squeeze_plain {c : Char} (blank : isBlank c = false) (mark : isQuotationMark c = false)
    (rest : List Char) : squeeze .free (c :: rest) = c :: squeeze .free rest := by
  rw [squeeze_kept (by simp [blank]), Quoting.after, mark, if_neg (by simp)]

theorem squeeze_opening {mark : Char} (opens : isQuotationMark mark = true) (rest : List Char) :
    squeeze .free (mark :: rest) = mark :: squeeze (.inside mark false) rest := by
  have not_blank : ¬(Quoting.free = .free ∧ isBlank mark = true) := by
    rintro ⟨-, blank⟩
    rw [isQuotationMark_of_isBlank blank] at opens
    contradiction
  rw [squeeze_kept not_blank, Quoting.after, if_pos opens]

theorem squeeze_inside (mark : Char) (escaped : Bool) (c : Char) (rest : List Char) :
    squeeze (.inside mark escaped) (c :: rest) =
      c :: squeeze ((Quoting.inside mark escaped).after c) rest :=
  squeeze_kept (by simp) rest

theorem squeeze_eq_nil {quoting : Quoting} {chars : List Char} :
    squeeze quoting chars = [] ↔ chars = [] := by
  induction chars generalizing quoting with
  | nil => simp [squeeze_nil]
  | cons c rest ih =>
      by_cases even : quoting = .free ∧ isBlank c = true
      · obtain ⟨rfl, blank⟩ := even
        rw [squeeze_blank blank]
        split
        next more =>
          have nonempty : rest ≠ [] := by
            rintro rfl
            simp at more
          simpa using ih.not.mpr nonempty
        next => simp
      · simp [squeeze_kept even]

section Trimming

theorem trimEnd_cons (c : Char) (rest : List Char) :
    trimEnd (c :: rest) =
      if isBlank c = true ∧ trimEnd rest = [] then [] else c :: trimEnd rest := by
  simp only [trimEnd, List.reverse_cons, List.dropWhile_append, List.isEmpty_iff,
    List.reverse_eq_nil_iff]
  by_cases nothing : rest.reverse.dropWhile isBlank = []
  · by_cases blank : isBlank c = true <;> simp [nothing, blank]
  · simp [nothing]

theorem trimEnd_head? {rest : List Char} (nonempty : trimEnd rest ≠ []) :
    (trimEnd rest).head? = rest.head? := by
  cases rest with
  | nil => exact absurd rfl nonempty
  | cons c rest =>
      rw [trimEnd_cons] at nonempty ⊢
      split
      next nothing => simp [nothing] at nonempty
      next => rfl

theorem squeeze_trimEnd (quoting : Quoting) (chars : List Char) :
    squeeze quoting (trimEnd chars) = trimEnd (squeeze quoting chars) := by
  induction chars generalizing quoting with
  | nil => simp [squeeze_nil, trimEnd]
  | cons c rest ih =>
      rw [trimEnd_cons]
      by_cases even : quoting = .free ∧ isBlank c = true
      · obtain ⟨rfl, blank⟩ := even
        rw [squeeze_blank blank]
        by_cases nothing : trimEnd rest = []
        · have nothing_left : trimEnd (squeeze .free rest) = [] := by
            rw [← ih, nothing, squeeze_nil]
          rw [if_pos ⟨blank, nothing⟩, squeeze_nil]
          split
          · exact nothing_left.symm
          · rw [trimEnd_cons, if_pos ⟨by decide, nothing_left⟩]
        · have something_left : trimEnd (squeeze .free rest) ≠ [] := by
            rw [← ih]
            exact squeeze_eq_nil.not.mpr nothing
          rw [if_neg (by simp [nothing]), squeeze_blank blank, trimEnd_head? nothing]
          split
          · exact ih .free
          · rw [trimEnd_cons, if_neg (by simp [something_left]), ih]
      · have same_end : trimEnd (squeeze (quoting.after c) rest) = [] ↔ trimEnd rest = [] := by
          rw [← ih, squeeze_eq_nil]
        rw [squeeze_kept even, trimEnd_cons]
        simp only [same_end]
        split
        next => rw [squeeze_nil]
        next => rw [squeeze_kept even, ih]

theorem squeeze_trimStart (chars : List Char) :
    squeeze .free (trimStart chars) = trimStart (squeeze .free chars) := by
  induction chars with
  | nil => simp [squeeze_nil, trimStart]
  | cons c rest ih =>
      by_cases blank : isBlank c = true
      · have skipped : trimStart (c :: rest) = trimStart rest := by simp [trimStart, blank]
        have space_skipped : trimStart (' ' :: squeeze .free rest) =
            trimStart (squeeze .free rest) := rfl
        rw [skipped, squeeze_blank blank, ih]
        split
        · rfl
        · exact space_skipped.symm
      · have kept : ¬(Quoting.free = .free ∧ isBlank c = true) := by simpa using blank
        rw [squeeze_kept kept, trimStart, trimStart, List.dropWhile_cons_of_neg blank,
          List.dropWhile_cons_of_neg blank, squeeze_kept kept]

theorem squeeze_trim (chars : List Char) :
    squeeze .free (trim chars) = trim (squeeze .free chars) := by
  rw [trim, squeeze_trimEnd, squeeze_trimStart, trim]

end Trimming

theorem squeeze_visible {chars : List Char} (visible : ¬chars.head?.any isBlank = true) :
    ¬(squeeze .free chars).head?.any isBlank = true := by
  cases chars with
  | nil => simp [squeeze_nil]
  | cons c rest =>
      have kept : ¬(Quoting.free = .free ∧ isBlank c = true) := by simpa using visible
      rw [squeeze_kept kept]
      exact visible

theorem squeeze_squeeze (quoting : Quoting) (chars : List Char) :
    squeeze quoting (squeeze quoting chars) = squeeze quoting chars := by
  induction chars generalizing quoting with
  | nil => simp [squeeze_nil]
  | cons c rest ih =>
      by_cases even : quoting = .free ∧ isBlank c = true
      · obtain ⟨rfl, blank⟩ := even
        rw [squeeze_blank blank]
        split
        next => exact ih .free
        next single => rw [squeeze_blank (by decide), if_neg (squeeze_visible single), ih]
      · rw [squeeze_kept even, squeeze_kept even, ih]

/-- A text with no blank at either end. -/
structure Trimmed (chars : List Char) : Prop where
  first : ∀ c ∈ chars.head?, isBlank c = false
  last : ∀ c ∈ chars.getLast?, isBlank c = false

theorem trimmed_trim (chars : List Char) : Trimmed (trim chars) := by
  constructor
  · intro c first
    have nonempty : trim chars ≠ [] := by
      rintro nothing
      simp [nothing] at first
    rw [trim, trimEnd_head? nonempty] at first
    exact dropWhile_head_fails chars c first
  · intro c last
    rw [trim, trimEnd, List.getLast?_reverse] at last
    exact dropWhile_head_fails (trimStart chars).reverse c last

theorem Trimmed.trim_eq {chars : List Char} (trimmed : Trimmed chars) : trim chars = chars := by
  have kept {chars : List Char} (first : ∀ c ∈ chars.head?, isBlank c = false) :
      chars.dropWhile isBlank = chars := by
    cases chars with
    | nil => rfl
    | cons c rest => exact List.dropWhile_cons_of_neg (by simpa using first c rfl)
  have last : ∀ c ∈ chars.reverse.head?, isBlank c = false := by
    simpa only [List.head?_reverse] using trimmed.last
  rw [trim, trimStart, kept trimmed.first, trimEnd, kept last, List.reverse_reverse]

theorem trim_trim (chars : List Char) : trim (trim chars) = trim chars :=
  (trimmed_trim chars).trim_eq

/-- Blanks at the ends, and nothing else, are what trimming takes off. -/
theorem trim_parts (chars : List Char) :
    ∃ before behind, chars = before ++ trim chars ++ behind ∧
      ∀ c ∈ before ++ behind, isBlank c = true := by
  refine ⟨chars.takeWhile isBlank, (trimStart chars).rtakeWhile isBlank, ?_, ?_⟩
  · have ends : trim chars ++ (trimStart chars).rtakeWhile isBlank = trimStart chars :=
      List.rdropWhile_append_rtakeWhile
    rw [List.append_assoc, ends]
    exact List.takeWhile_append_dropWhile.symm
  · exact List.forall_mem_append.mpr
      ⟨fun _ => List.mem_takeWhile_imp, fun _ => List.mem_rtakeWhile_imp⟩

theorem normalizeSpacing_normalizeSpacing (text : String) :
    normalizeSpacing (normalizeSpacing text) = normalizeSpacing text := by
  rw [normalizeSpacing, normalizeSpacing, String.toList_ofList, ← squeeze_trim, trim_trim,
    squeeze_squeeze]

section Blanks

variable {blanks others : List Char} (nonempty : blanks ≠ [])
  (blank : ∀ c ∈ blanks, isBlank c = true)
include nonempty blank

theorem squeeze_blanks (rest : List Char) :
    squeeze .free (blanks ++ rest) = squeeze .free (' ' :: rest) := by
  induction blanks with
  | nil => exact absurd rfl nonempty
  | cons c blanks ih =>
      have first : isBlank c = true := blank c List.mem_cons_self
      cases blanks with
      | nil =>
          rw [List.singleton_append, squeeze_blank first, squeeze_blank (by decide)]
      | cons d blanks =>
          have second : isBlank d = true := blank d (by simp)
          have later := ih (List.cons_ne_nil _ _) fun e member =>
            blank e (List.mem_cons_of_mem _ member)
          rw [List.cons_append, squeeze_blank first, ← later, List.cons_append, List.head?_cons,
            Option.any_some, if_pos second]

theorem head_blank (rest : List Char) : (blanks ++ rest).head?.any isBlank = true := by
  obtain ⟨c, blanks, rfl⟩ := List.exists_cons_of_ne_nil nonempty
  simpa using blank c List.mem_cons_self

end Blanks

section Quotes

variable {mark : Char} {body : List Char}

theorem squeeze_quoted (opens : isQuotationMark mark = true) (escapes : mark ≠ '\x60')
    (no_escape : mark ≠ '\\') (inside : Quoted mark body) (rest : List Char) :
    squeeze (.inside mark false) (body ++ rest) =
      body ++ squeeze (.inside mark false) rest := by
  induction inside with
  | nil => rfl
  | escaped c later ih =>
      rw [List.cons_append, List.cons_append, squeeze_inside, Quoting.after,
        if_pos ⟨rfl, escapes⟩, squeeze_inside, Quoting.after, ih]
      rfl
  | doubled later ih =>
      rw [List.cons_append, List.cons_append, squeeze_inside, Quoting.after,
        if_neg (by simp [no_escape]), if_pos rfl, squeeze_opening opens, ih]
      rfl
  | other not_escape not_mark later ih =>
      rw [List.cons_append, squeeze_inside, Quoting.after, if_neg (by simp [not_escape]),
        if_neg not_mark, ih]
      rfl

theorem squeeze_closing (no_escape : mark ≠ '\\') (rest : List Char) :
    squeeze (.inside mark false) (mark :: rest) = mark :: squeeze .free rest := by
  rw [squeeze_inside, Quoting.after, if_neg (by simp [no_escape]), if_pos rfl]

theorem squeeze_backQuoted (inside : '\x60' ∉ body) (rest : List Char) :
    squeeze (.inside '\x60' false) (body ++ rest) =
      body ++ squeeze (.inside '\x60' false) rest := by
  induction body with
  | nil => rfl
  | cons c body ih =>
      simp only [List.mem_cons, not_or] at inside
      rw [List.cons_append, squeeze_inside, Quoting.after, if_neg (by simp),
        if_neg (Ne.symm inside.1), ih inside.2]
      rfl

theorem squeeze_unquoted {run : List Char}
    (unquoted : ∀ c ∈ run, isBlank c = false ∧ isQuotationMark c = false) (rest : List Char) :
    squeeze .free (run ++ rest) = run ++ squeeze .free rest := by
  induction run with
  | nil => rfl
  | cons c run ih =>
      obtain ⟨no_blank, no_mark⟩ := unquoted c List.mem_cons_self
      have later := ih fun d member => unquoted d (List.mem_cons_of_mem _ member)
      rw [List.cons_append, squeeze_plain no_blank no_mark, later]
      rfl

end Quotes

theorem unquoted_of_class {p : Char → Bool} (no_blank : ∀ c, isBlank c = true → p c = false)
    (no_mark : ['\x27', '\x22', '\x60'].any p = false) {c : Char} (member : p c = true) :
    isBlank c = false ∧ isQuotationMark c = false := by
  constructor
  · by_contra blank
    rw [no_blank c (Bool.not_eq_false _ ▸ blank)] at member
    contradiction
  · by_contra mark
    simp only [isQuotationMark, Bool.not_eq_false, Bool.or_eq_true, beq_iff_eq, or_assoc] at mark
    exact List.any_eq_false.mp no_mark c (by simpa using mark) member

theorem unquoted_of_continuesWord {c : Char} (continues : continuesWord c = true) :
    isBlank c = false ∧ isQuotationMark c = false :=
  unquoted_of_class (fun _ => continuesWord_of_isBlank) (by decide +kernel) continues

theorem unquoted_of_isDigit {c : Char} (digit : c.isDigit = true) :
    isBlank c = false ∧ isQuotationMark c = false :=
  forall_digit (P := fun c => isBlank c = false ∧ isQuotationMark c = false) (by decide) digit

theorem unquoted_of_word {c : Char} {rest : List Char} (starts : startsWord c = true)
    (continues : ∀ d ∈ rest, continuesWord d = true) :
    ∀ d ∈ c :: rest, isBlank d = false ∧ isQuotationMark d = false := by
  intro d member
  apply unquoted_of_continuesWord
  rcases List.mem_cons.mp member with rfl | later
  · exact continuesWord_of_startsWord starts
  · exact continues d later

theorem unquoted_of_number {sign whole fraction behind : List Char}
    (signed : sign = [] ∨ sign = ['-']) (digits : Digits whole)
    (point : fraction = [] ∧ ¬Piece.Fraction behind ∨
      ∃ decimals, fraction = '.' :: decimals ∧ Digits decimals) :
    ∀ c ∈ sign ++ whole ++ fraction, isBlank c = false ∧ isQuotationMark c = false := by
  intro c member
  rcases List.mem_append.mp member with front | decimal
  · rcases List.mem_append.mp front with minus | digit
    · rcases signed with rfl | rfl
      · simp at minus
      · obtain rfl : c = '-' := by simpa using minus
        decide
    · exact unquoted_of_isDigit (digits.2 c digit)
  · rcases point with ⟨rfl, _⟩ | ⟨decimals, rfl, digits⟩
    · simp at decimal
    · rcases List.mem_cons.mp decimal with rfl | digit
      · decide
      · exact unquoted_of_isDigit (digits.2 c digit)

end Text

open Text

theorem Lexeme.squeeze {kind : TokenKind} {written text behind : List Char}
    (lexeme : Lexeme kind written text behind) (closed : behind ≠ [])
    (seen : kind ≠ .directive) (rest : List Char) :
    Text.squeeze .free (written ++ rest) = written ++ Text.squeeze .free rest := by
  cases lexeme with
  | @mark c kind _ listed =>
      have unquoted : ∀ mark ∈ marks, isBlank mark.1 = false ∧ isQuotationMark mark.1 = false := by
        decide
      exact squeeze_unquoted (by simpa using unquoted _ listed) rest
  | word starts continues stops spelled =>
      exact squeeze_unquoted (unquoted_of_word starts continues) rest
  | number signed digits point stops =>
      exact squeeze_unquoted (unquoted_of_number signed digits point) rest
  | @string quote body closing _ known ending =>
      cases ending with
      | closed inside single =>
          have quotes_open : ∀ quote ∈ quotes,
              isQuotationMark quote.char = true ∧ quote.char ≠ '\x60' ∧ quote.char ≠ '\\' := by
            decide
          obtain ⟨opens, escapes, no_escape⟩ := quotes_open quote known
          simp only [List.append_assoc, List.cons_append, List.nil_append]
          rw [squeeze_opening opens, squeeze_quoted opens escapes no_escape inside,
            squeeze_closing no_escape]
      | unclosed inside => exact absurd rfl closed
      | escaping inside => exact absurd rfl closed
  | quotedIdentifier inside closes =>
      obtain rfl := closes.resolve_right fun open_end => closed open_end.2
      simp only [List.append_assoc, List.cons_append, List.nil_append]
      rw [squeeze_opening (by decide), squeeze_backQuoted inside, squeeze_closing (by decide)]
  | directive inside closes => exact absurd rfl seen

theorem squeeze_stray {c : Char} {behind : List Char} (blank : isBlank c = false)
    (no_token : ¬StartsToken c behind) (rest : List Char) :
    Text.squeeze .free (c :: rest) = c :: Text.squeeze .free rest := by
  simp only [StartsToken, not_or] at no_token
  obtain ⟨_, no_quote, no_back_quote, _⟩ := no_token
  refine squeeze_plain blank ?_ rest
  have unquoted : c ≠ '\x27' ∧ c ≠ '\x22' := by
    simpa [quotes, Quote.single, Quote.double] using no_quote
  simp [isQuotationMark, unquoted, no_back_quote]

end SchemaDrift
