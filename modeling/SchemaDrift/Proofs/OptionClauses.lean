import SchemaDrift.Proofs.Forward
import SchemaDrift.Reading.Options

/-!
Table options, clause by clause. An option clause is the words of an option, an equals sign or none,
and a value of the option's form. Options are read from any run of clauses, and each has the value of
its last clause.
-/

namespace SchemaDrift

open Reading

def TableOption.spellings : TableOption → List (List Keyword)
  | .engine => [[.ENGINE]]
  | .autoIncrement => [[.AUTO_INCREMENT]]
  | .characterSet => [[.CHARACTER, .SET], [.CHARSET]]
  | .collation => [[.COLLATE]]
  | .comment => [[.COMMENT]]
  | .rowFormat => [[.ROW_FORMAT]]
  | .keyBlockSize => [[.KEY_BLOCK_SIZE]]
  | .maxRows => [[.MAX_ROWS]]
  | .minRows => [[.MIN_ROWS]]
  | .tablespace => [[.TABLESPACE]]
  | .dataDirectory => [[.DATA, .DIRECTORY]]
  | .indexDirectory => [[.INDEX, .DIRECTORY]]
  | .encryption => [[.ENCRYPTION]]
  | .compression => [[.COMPRESSION]]
  | .statsPersistent => [[.STATS_PERSISTENT]]
  | .statsAutoRecalc => [[.STATS_AUTO_RECALC]]
  | .statsSamplePages => [[.STATS_SAMPLE_PAGES]]
  | .packKeys => [[.PACK_KEYS]]
  | .checksum => [[.CHECKSUM]]
  | .delayKeyWrite => [[.DELAY_KEY_WRITE]]
  | .union => [[.UNION]]
  | .insertMethod => [[.INSERT_METHOD]]

/-- The tokens that write a value. A whole number may have a plus sign in front. -/
inductive ValueForm.Written : (form : ValueForm) → List Token → form.Value → Prop where
  | word {token : Token} (word : token.isWord = true) : Written .word [token] token.text
  | string {token : Token} (string : token.isString = true) : Written .string [token] token.text
  | number {token : Token} {sign digits : List Char} {value : UInt64}
      (number : token.kind = .number) (signed : sign = [] ∨ sign = ['+'])
      (text : token.text.toList = sign ++ digits)
      (some_digit : digits ≠ []) (all_digits : ∀ c ∈ digits, c.isDigit = true)
      (decimal : Nat.ofDigitChars 10 digits 0 = value.toNat) :
      Written .number [token] value
  | names {tokens : List Token} {names : List String} (list : NameList tokens names) :
      Written .names tokens names

/-- The tokens that write a clause: the words of an option, an equals sign or none, a value. -/
inductive TableOptionClause.Written : List Token → TableOptionClause → Prop where
  | set {option : TableOption} {word : Keyword} {words : List Keyword} {first : Token}
      {others sign tokens : List Token} {value : option.Value}
      (spelled : word :: words ∈ option.spellings) (starts : first.kind = .keyword word)
      (further : Spell others words)
      (signed : sign.map Token.kind ∈ [[], [.equals]])
      (written : option.form.Written tokens value) :
      Written (first :: (others ++ (sign ++ tokens))) (.set option value)

/-- A token that may stand between clauses: a plain word, a comma or DEFAULT. -/
def Token.SeparatesOptions (token : Token) : Prop :=
  token.kind = .identifier ∨ token.kind = .comma ∨ token.kind = .keyword .DEFAULT

/-- Clauses in a row, with separating tokens around them. -/
inductive TableOptions.Written : List Token → List TableOptionClause → Prop where
  | finish : Written [] []
  | separator {token : Token} {tokens : List Token} {clauses : List TableOptionClause}
      (separates : token.SeparatesOptions) (later : Written tokens clauses) :
      Written (token :: tokens) clauses
  | clause {front tokens : List Token} {clause : TableOptionClause}
      {clauses : List TableOptionClause} (first : clause.Written front)
      (later : Written tokens clauses) : Written (front ++ tokens) (clause :: clauses)

def TableOptionClause.value? (option : TableOption) : TableOptionClause → Option option.Value
  | .set other value => if same : other = option then some (same ▸ value) else none
  | .skipped => none

section

variable {source : List Char} {close : Token}

theorem ValueForm.Written.front {form : ValueForm} {tokens : List Token} {value : form.Value}
    (written : form.Written tokens value) :
    ∃ token rest, tokens = token :: rest ∧ token.kind ≠ .equals := by
  cases written with
  | @word token word => exact ⟨token, [], rfl, fun kind => by simp [Token.isWord, kind] at word⟩
  | @string token string =>
      exact ⟨token, [], rfl, fun kind => by simp [Token.isString, kind] at string⟩
  | @number token _ _ _ number => exact ⟨token, [], rfl, by simp [number]⟩
  | names list =>
      cases list with
      | @none opening closing opens => exact ⟨opening, [closing], rfl, by simp [opens]⟩
      | some group =>
          obtain ⟨opens, _, _, _⟩ := group
          exact ⟨_, _, rfl, by simp [opens]⟩

theorem Token.unsigned_of_digits {digits : List Char} (all_digits : ∀ c ∈ digits, c.isDigit = true) :
    Token.unsigned digits = digits := by
  rw [unsigned.eq_def]
  split
  next => exact absurd (all_digits '+' List.mem_cons_self) (by decide)
  next => rfl

theorem Token.unsigned_signed {sign digits : List Char} (signed : sign = [] ∨ sign = ['+'])
    (all_digits : ∀ c ∈ digits, c.isDigit = true) : Token.unsigned (sign ++ digits) = digits := by
  rcases signed with rfl | rfl
  · exact unsigned_of_digits all_digits
  · rfl

theorem ValueForm.Written.read {form : ValueForm} {tokens : List Token} {value : form.Value}
    (written : form.Written tokens value) (rest : List Token) :
    form.read ⟨source, tokens ++ rest, close⟩ = .ok value ⟨source, rest, close⟩ := by
  cases written with
  | word word => exact textOf_found word .optionValue
  | string string => exact textOf_found string .string
  | @number token sign digits value number signed text some_digit all_digits decimal =>
      have read : token.unsignedInteger? = some value := by
        have small := value.toNat_lt_size
        have unsigned : Token.unsigned token.text.toList = digits := by
          rw [text, Token.unsigned_signed signed all_digits]
        have all_digits := List.all_eq_true.mpr all_digits
        simp [Token.unsignedInteger?, number, unsigned, some_digit, all_digits, decimal, small]
      simp [ValueForm.read, unsignedInteger, Cursor.current, Cursor.next, read]
  | names list => exact list.read rest

theorem ValueForm.Written.past_sign {form : ValueForm} {sign tokens : List Token}
    {value : form.Value} (written : form.Written tokens value)
    (signed : sign.map Token.kind ∈ [[], [.equals]]) (rest : List Token) :
    discard (eat .equals) ⟨source, sign ++ (tokens ++ rest), close⟩ =
      .ok () ⟨source, tokens ++ rest, close⟩ := by
  obtain ⟨token, others, rfl, no_sign⟩ := written.front
  exact discard_eat_optional signed no_sign

theorem TableOption.ofKeyword?_spelled {option : TableOption} {word : Keyword}
    {words : List Keyword} (spelled : word :: words ∈ option.spellings) :
    ofKeyword? word = some option := by
  have heads : ∀ words ∈ option.spellings, words.head?.bind ofKeyword? = some option := by
    cases option <;> decide
  exact heads _ spelled

namespace TableOptionClause

theorem readFrom_spelled {option : TableOption} {word : Keyword} {words : List Keyword}
    {tokens : List Token} (spelled : word :: words ∈ option.spellings)
    (further : Spell tokens words) (rest : List Token) :
    readFrom word ⟨source, tokens ++ rest, close⟩ = readValue word ⟨source, rest, close⟩ := by
  -- DIRECTORY or SET behind the word is taken off with it
  have directory {first : Keyword} (two_words : first = .DATA ∨ first = .INDEX)
      {second : Token} (kind : second.kind = .keyword .DIRECTORY) :
      readFrom first ⟨source, second :: rest, close⟩ = readValue first ⟨source, rest, close⟩ := by
    rcases two_words with rfl | rfl <;>
    · rw [readFrom, bind_of_ok (eatWord_found kind)]
      rfl
  have set {second : Token} (kind : second.kind = .keyword .SET) :
      readFrom .CHARACTER ⟨source, second :: rest, close⟩ =
        readValue .CHARACTER ⟨source, rest, close⟩ := by
    rw [readFrom, bind_of_ok (expectWord_found kind)]
  cases option with
  | characterSet =>
      simp only [TableOption.spellings, List.mem_cons, List.cons.injEq, List.not_mem_nil,
        or_false] at spelled
      rcases spelled with ⟨rfl, rfl⟩ | ⟨rfl, rfl⟩
      · obtain ⟨second, rfl, kind⟩ := further.single
        exact set kind
      · obtain rfl := further.nil
        rfl
  | dataDirectory =>
      obtain ⟨rfl, rfl⟩ := List.cons.inj (List.mem_singleton.mp spelled)
      obtain ⟨second, rfl, kind⟩ := further.single
      exact directory (.inl rfl) kind
  | indexDirectory =>
      obtain ⟨rfl, rfl⟩ := List.cons.inj (List.mem_singleton.mp spelled)
      obtain ⟨second, rfl, kind⟩ := further.single
      exact directory (.inr rfl) kind
  | _ =>
      obtain ⟨rfl, rfl⟩ := List.cons.inj (List.mem_singleton.mp spelled)
      obtain rfl := further.nil
      rfl

theorem readValue_written {option : TableOption} {word : Keyword} {sign tokens : List Token}
    {value : option.Value} (known : TableOption.ofKeyword? word = some option)
    (signed : sign.map Token.kind ∈ [[], [.equals]]) (written : option.form.Written tokens value)
    (rest : List Token) :
    readValue word ⟨source, sign ++ (tokens ++ rest), close⟩ =
      .ok (.set option value) ⟨source, rest, close⟩ := by
  rw [readValue, bind_of_ok (written.past_sign signed rest), known]
  dsimp only
  rw [bind_of_ok (written.read rest)]
  rfl

theorem Written.front {tokens : List Token} {clause : TableOptionClause}
    (written : clause.Written tokens) :
    ∃ first rest word, tokens = first :: rest ∧ first.kind = .keyword word ∧
      TableOption.ofKeyword? word ≠ none := by
  obtain ⟨spelled, starts, _, _, _⟩ := written
  exact ⟨_, _, _, rfl, starts, by simp [TableOption.ofKeyword?_spelled spelled]⟩

theorem Written.read {front : List Token} {clause : TableOptionClause}
    (written : clause.Written front) (rest : List Token) :
    read ⟨source, front ++ rest, close⟩ = .ok clause ⟨source, rest, close⟩ := by
  obtain @⟨option, word, words, first, others, sign, tokens, value, spelled, starts, further, signed,
    written⟩ := written
  have known := TableOption.ofKeyword?_spelled spelled
  have not_default : word ≠ .DEFAULT := by
    rintro rfl
    contradiction
  simp only [List.cons_append, List.append_assoc]
  rw [TableOptionClause.read, bind_of_ok advance_found, Token.keyword?_eq_some_iff.mpr starts]
  dsimp only
  rw [if_neg not_default, readFrom_spelled spelled further, readValue_written known signed written]

theorem read_separator {token : Token} (separates : token.SeparatesOptions) (rest : List Token) :
    read ⟨source, token :: rest, close⟩ = .ok .skipped ⟨source, rest, close⟩ := by
  rw [TableOptionClause.read, bind_of_ok advance_found]
  rcases separates with kind | kind | kind <;>
  · rw [Token.keyword?, kind]
    rfl

end TableOptionClause

theorem TableOptions.atEnd_iff (cursor : Cursor) :
    atEnd cursor = true ↔
      cursor.current.kind ∈ [.keyword .PARTITION, .semicolon, .endOfInput] := by
  rw [atEnd, Cursor.atStatementEnd, Cursor.seesWord, Cursor.sees]
  generalize cursor.current.kind = kind
  cases kind <;> simp

theorem TableOptions.Written.rounds {tokens rest : List Token} {clauses : List TableOptionClause}
    (written : Written tokens clauses) (ends : atEnd ⟨source, rest, close⟩ = true) :
    ∃ read, Rounds (!atEnd ·) TableOptionClause.read ⟨source, tokens ++ rest, close⟩ read
        ⟨source, rest, close⟩ ∧
      ∀ option, read.filterMap (·.value? option) = clauses.filterMap (·.value? option) := by
  induction written with
  | finish => exact ⟨[], .stop (by simp [ends]), fun _ => rfl⟩
  | @separator token tokens clauses separates later ih =>
      obtain ⟨read, rounds, same⟩ := ih
      have goes : atEnd ⟨source, token :: (tokens ++ rest), close⟩ = false := by
        rw [Bool.eq_false_iff, Ne, atEnd_iff]
        rcases separates with kind | kind | kind <;> simp [Cursor.current, kind]
      have skipped : TableOptionClause.read ⟨source, token :: (tokens ++ rest), close⟩ =
          .ok .skipped ⟨source, tokens ++ rest, close⟩ :=
        TableOptionClause.read_separator separates _
      exact ⟨.skipped :: read, .round (by simp [goes]) skipped (by simp) rounds, same⟩
  | @clause front tokens clause clauses first later ih =>
      obtain ⟨read, rounds, same⟩ := ih
      obtain ⟨token, others, word, rfl, kind, known⟩ := first.front
      have goes : atEnd ⟨source, token :: (others ++ (tokens ++ rest)), close⟩ = false := by
        have not_partition : word ≠ .PARTITION := by
          rintro rfl
          exact known rfl
        rw [Bool.eq_false_iff, Ne, atEnd_iff]
        simp [Cursor.current, kind, not_partition]
      refine ⟨clause :: read, ?_, fun option => ?_⟩
      · rw [List.append_assoc]
        have shorter : (tokens ++ rest).length < (token :: others ++ (tokens ++ rest)).length := by
          simp only [List.length_append, List.length_cons]
          omega
        exact .round (by simpa using goes) (first.read _) shorter rounds
      · simp only [List.filterMap_cons, same]

end

/-- Where every step sets what is read or leaves it, the last one that sets it decides. -/
theorem foldl_last {α β σ : Type} {step : σ → α → σ} {read : σ → Option β} {given : α → Option β}
    (steps : ∀ state item, read (step state item) = (given item).or (read state)) (items : List α)
    (state : σ) :
    read (items.foldl step state) = (items.filterMap given).getLast?.or (read state) := by
  induction items generalizing state with
  | nil => rfl
  | cons item rest ih =>
      rw [List.foldl_cons, ih, steps]
      cases some_value : given item with
      | none => simp [some_value]
      | some value =>
          rw [List.filterMap_cons_some some_value, List.getLast?_cons]
          cases (rest.filterMap given).getLast? <;> rfl

theorem TableOptions.foldl_apply_value (options : TableOptions) (clauses : List TableOptionClause)
    (option : TableOption) :
    (clauses.foldl apply options).value option =
      (clauses.filterMap (·.value? option)).getLast?.or (options.value option) := by
  refine @foldl_last _ _ _ apply (·.value option) (·.value? option) ?_ clauses options
  intro options clause
  cases clause with
  | skipped => rfl
  | set other value =>
      by_cases same : other = option
      · subst same
        simp [apply, TableOptionClause.value?]
      · simp [apply, TableOptionClause.value?, same, value_set_other options value same]

theorem TableOptions.Written.eq_nil_iff {tokens : List Token} {clauses : List TableOptionClause}
    (written : Written tokens clauses) :
    clauses = [] ↔ ∀ option, clauses.filterMap (·.value? option) = [] := by
  constructor
  · rintro rfl option
    rfl
  intro unset
  induction written with
  | finish => rfl
  | separator _ _ ih => exact ih unset
  | clause first later =>
      obtain @⟨option, _, _, _, _, _, _, value, _, _, _, _, _⟩ := first
      have none_set := unset option
      simp [TableOptionClause.value?] at none_set

theorem TableOptions.isEmpty_iff_unset (options : TableOptions) :
    options.isEmpty = true ↔ ∀ option, options.value option = none := by
  rw [isEmpty_iff]
  constructor
  · rintro rfl option
    rfl
  · exact fun unset => ext_value unset

/-- Options are read from any clauses in a row, up to the partitioning or the end of the statement:
each option has the value of its last clause, one without a clause has none, and where there is no
clause at all there are no options. -/
theorem TableOptions.read_clauses {tokens rest : List Token} {clauses : List TableOptionClause}
    (written : Written tokens clauses) (source : List Char) {close : Token}
    (ends : (rest.headD close).kind ∈ [.keyword .PARTITION, .semicolon, .endOfInput]) :
    ∃ options, TableOptions.read? ⟨source, tokens ++ rest, close⟩ =
        .ok options ⟨source, rest, close⟩ ∧
      (options = none ↔ clauses = []) ∧
      ∀ option, options.bind (·.value option) = (clauses.filterMap (·.value? option)).getLast? := by
  have at_end : atEnd ⟨source, rest, close⟩ = true := (atEnd_iff _).mpr ends
  -- besides the clauses only skipped tokens are read, which set nothing
  obtain ⟨read, rounds, same⟩ := written.rounds at_end
  have values (option : TableOption) : (read.foldl apply empty).value option =
      (clauses.filterMap (·.value? option)).getLast? := by
    rw [foldl_apply_value, same]
    exact Option.or_none
  refine ⟨if (read.foldl apply empty).isEmpty then none else some (read.foldl apply empty), ?_, ?_,
    fun option => ?_⟩
  · rw [TableOptions.read?, bind_of_ok rounds.many]
    rfl
  · rw [written.eq_nil_iff, ite_eq_left_iff]
    have unset : (read.foldl apply empty).isEmpty = true ↔
        ∀ option, clauses.filterMap (·.value? option) = [] := by
      rw [isEmpty_iff_unset]
      simp only [values, List.getLast?_eq_none_iff]
    simp [unset]
  · rw [← values]
    split
    next unset =>
      rw [(isEmpty_iff _).mp unset]
      rfl
    next => rfl

/-- The engine is set twice, once without an equals sign, and a comma and DEFAULT stand in between. -/
theorem TableOptions.read_clauses_repeated :
    ∃ tokens clauses options,
      tokens = Token.scanText "ENGINE=a, COMMENT 'x' DEFAULT engine b" ∧
      clauses = [.set .engine "a", .set .comment "x", .set .engine "b"] ∧
      Written tokens clauses ∧
      TableOptions.read? ⟨[], tokens, .endOfInput 0 .start⟩ =
        .ok options ⟨[], [], .endOfInput 0 .start⟩ ∧
      (options = none ↔ clauses = []) ∧
      ∀ option, options.bind (·.value option) =
        (clauses.filterMap (·.value? option)).getLast? := by
  have scanned : Token.scanText "ENGINE=a, COMMENT 'x' DEFAULT engine b" =
      [⟨.keyword .ENGINE, "ENGINE", ⟨0, 6⟩, ⟨0, 1, 1⟩⟩, ⟨.equals, "=", ⟨6, 7⟩, ⟨6, 1, 7⟩⟩,
        ⟨.identifier, "a", ⟨7, 8⟩, ⟨7, 1, 8⟩⟩, ⟨.comma, ",", ⟨8, 9⟩, ⟨8, 1, 9⟩⟩,
        ⟨.keyword .COMMENT, "COMMENT", ⟨10, 17⟩, ⟨10, 1, 11⟩⟩,
        ⟨.string .single, "x", ⟨18, 21⟩, ⟨18, 1, 19⟩⟩,
        ⟨.keyword .DEFAULT, "DEFAULT", ⟨22, 29⟩, ⟨22, 1, 23⟩⟩,
        ⟨.keyword .ENGINE, "engine", ⟨30, 36⟩, ⟨30, 1, 31⟩⟩,
        ⟨.identifier, "b", ⟨37, 38⟩, ⟨37, 1, 38⟩⟩] := by
    decide +kernel
  have engine (first : Token) (sign : List Token) (value : Token)
      (starts : first.kind = .keyword .ENGINE) (signed : sign.map Token.kind ∈ [[], [.equals]])
      (word : value.isWord = true) :
      TableOptionClause.Written (first :: (sign ++ [value])) (.set .engine value.text) :=
    @TableOptionClause.Written.set .engine .ENGINE [] first [] sign [value] value.text (by decide)
      starts rfl signed (.word word)
  have comment (first value : Token) (starts : first.kind = .keyword .COMMENT)
      (string : value.isString = true) :
      TableOptionClause.Written [first, value] (.set .comment value.text) :=
    @TableOptionClause.Written.set .comment .COMMENT [] first [] [] [value] value.text (by decide)
      starts rfl (by decide) (.string string)
  have written : Written (Token.scanText "ENGINE=a, COMMENT 'x' DEFAULT engine b")
      [.set .engine "a", .set .comment "x", .set .engine "b"] := by
    rw [scanned]
    refine .clause (engine _ [_] _ (by rfl) (by decide) (by rfl)) ?_
    refine .separator (.inr (.inl rfl)) ?_
    refine .clause (comment _ _ (by rfl) (by rfl)) ?_
    refine .separator (.inr (.inr rfl)) ?_
    exact .clause (engine _ [] _ (by rfl) (by decide) (by rfl)) .finish
  obtain ⟨options, result⟩ :=
    read_clauses written [] (show (([] : List Token).headD (.endOfInput 0 .start)).kind ∈ _ by decide)
  rw [List.append_nil] at result
  exact ⟨_, _, options, rfl, rfl, written, result⟩

end SchemaDrift
