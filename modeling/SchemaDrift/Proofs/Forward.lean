import SchemaDrift.Proofs.Inside

/-!
Reading forwards: what the readers give in front of tokens that are known. Each step takes off the
tokens it is there for and leaves the cursor at the token behind them.
-/

namespace SchemaDrift

def Spell (tokens : List Token) (words : List Keyword) : Prop :=
  tokens.map Token.kind = words.map TokenKind.keyword

theorem Spell.nil {tokens : List Token} (spelled : Spell tokens []) : tokens = [] :=
  List.map_eq_nil_iff.mp spelled

theorem Spell.cons {tokens : List Token} {word : Keyword} {words : List Keyword}
    (spelled : Spell tokens (word :: words)) :
    ∃ token others, tokens = token :: others ∧ token.kind = .keyword word ∧ Spell others words :=
  List.map_eq_cons_iff.mp spelled

theorem Spell.single {tokens : List Token} {word : Keyword} (spelled : Spell tokens [word]) :
    ∃ token, tokens = [token] ∧ token.kind = .keyword word :=
  List.map_eq_singleton_iff.mp spelled

namespace Reading

variable {α β : Type} {source : List Char} {token close : Token} {rest : List Token}

theorem advance_found : advance ⟨source, token :: rest, close⟩ = .ok token ⟨source, rest, close⟩ :=
  rfl

theorem discard_advance :
    discard advance ⟨source, token :: rest, close⟩ = .ok () ⟨source, rest, close⟩ :=
  rfl

theorem look_eq (view : Cursor → α) (cursor : Cursor) : look view cursor = .ok (view cursor) cursor :=
  rfl

theorem current_bind (next : Token → Reading α) (cursor : Cursor) :
    (current >>= next) cursor = next cursor.current cursor :=
  rfl

theorem eat_found {kind : TokenKind} (found : token.kind = kind) :
    eat kind ⟨source, token :: rest, close⟩ = .ok true ⟨source, rest, close⟩ := by
  simp [eat, Cursor.sees, Cursor.current, Cursor.next, found]

theorem eat_missed {kind : TokenKind} (missed : (rest.headD close).kind ≠ kind) :
    eat kind ⟨source, rest, close⟩ = .ok false ⟨source, rest, close⟩ := by
  have unseen : Cursor.sees ⟨source, rest, close⟩ kind = false := beq_eq_false_iff_ne.mpr missed
  simp [eat, unseen]

theorem eat_other {kind : TokenKind} (other : token.kind ≠ kind) :
    eat kind ⟨source, token :: rest, close⟩ = .ok false ⟨source, token :: rest, close⟩ :=
  eat_missed other

theorem eatWord_found {word : Keyword} (found : token.kind = .keyword word) :
    eatWord word ⟨source, token :: rest, close⟩ = .ok true ⟨source, rest, close⟩ :=
  eat_found found

theorem eatWord_other {word : Keyword} (other : token.kind ≠ .keyword word) :
    eatWord word ⟨source, token :: rest, close⟩ = .ok false ⟨source, token :: rest, close⟩ :=
  eat_missed other

theorem eatWord_missed {word : Keyword} (missed : (rest.headD close).kind ≠ .keyword word) :
    eatWord word ⟨source, rest, close⟩ = .ok false ⟨source, rest, close⟩ :=
  eat_missed missed

/-! One thing is read behind a token that is there, another where it is missing. -/

theorem ifEat_found {kind : TokenKind} (found : token.kind = kind) (yes no : Reading α) :
    (eat kind >>= fun found => if found = true then yes else no) ⟨source, token :: rest, close⟩ =
      yes ⟨source, rest, close⟩ :=
  bind_of_ok (eat_found found) _

theorem ifEat_missed {kind : TokenKind} (missed : (rest.headD close).kind ≠ kind)
    (yes no : Reading α) :
    (eat kind >>= fun found => if found = true then yes else no) ⟨source, rest, close⟩ =
      no ⟨source, rest, close⟩ :=
  bind_of_ok (eat_missed missed) _

theorem ifEat_other {kind : TokenKind} (other : token.kind ≠ kind) (yes no : Reading α) :
    (eat kind >>= fun found => if found = true then yes else no) ⟨source, token :: rest, close⟩ =
      no ⟨source, token :: rest, close⟩ :=
  bind_of_ok (eat_other other) _

theorem ifWord_found {word : Keyword} (found : token.kind = .keyword word) (yes no : Reading α) :
    (eatWord word >>= fun found => if found = true then yes else no) ⟨source, token :: rest, close⟩ =
      yes ⟨source, rest, close⟩ :=
  ifEat_found found yes no

theorem ifWord_missed {word : Keyword} (missed : (rest.headD close).kind ≠ .keyword word)
    (yes no : Reading α) :
    (eatWord word >>= fun found => if found = true then yes else no) ⟨source, rest, close⟩ =
      no ⟨source, rest, close⟩ :=
  ifEat_missed missed yes no

theorem ifWord_other {word : Keyword} (other : token.kind ≠ .keyword word) (yes no : Reading α) :
    (eatWord word >>= fun found => if found = true then yes else no) ⟨source, token :: rest, close⟩ =
      no ⟨source, token :: rest, close⟩ :=
  ifEat_other other yes no

theorem discard_of_ok {reading : Reading α} {cursor after : Cursor} {value : α}
    (done : reading cursor = .ok value after) : discard reading cursor = .ok () after :=
  bind_of_ok done _

theorem expect_found {kind : TokenKind} (found : token.kind = kind) :
    expect kind ⟨source, token :: rest, close⟩ = .ok token ⟨source, rest, close⟩ := by
  simp [expect, Cursor.sees, Cursor.current, Cursor.next, found]

theorem expectWord_found {word : Keyword} (found : token.kind = .keyword word) :
    expectWord word ⟨source, token :: rest, close⟩ = .ok () ⟨source, rest, close⟩ :=
  discard_of_ok (expect_found found)

theorem textOf_found {test : Token → Bool} (passes : test token = true) (expected : Expected) :
    textOf test expected ⟨source, token :: rest, close⟩ = .ok token.text ⟨source, rest, close⟩ := by
  simp [textOf, Cursor.current, Cursor.next, passes]

/-- One of two things is read, as a first step says, and then the same goes on behind both. -/
theorem choice_bind {choice : Reading Bool} {yes no : Reading α} {cursor after : Cursor} {value : α}
    (done : (choice >>= fun found => if found = true then yes else no) cursor = .ok value after)
    (next : α → Reading β) :
    (choice >>= fun found => if found = true then yes >>= next else no >>= next) cursor =
      next value after := by
  obtain ⟨found, middle, chosen, read⟩ := ok_of_bind_ok done
  rw [bind_of_ok chosen]
  cases found with
  | true => exact bind_of_ok read next
  | false => exact bind_of_ok read next

theorem optional_cases {kind : TokenKind} {mark : List Token}
    (optional : mark.map Token.kind ∈ [[], [kind]]) :
    mark = [] ∨ ∃ token, mark = [token] ∧ token.kind = kind := by
  simpa only [List.mem_cons, List.map_eq_nil_iff, List.map_eq_singleton_iff, List.not_mem_nil,
    or_false] using optional

theorem discard_eat_optional {kind : TokenKind} {mark : List Token}
    (optional : mark.map Token.kind ∈ [[], [kind]]) (behind : (rest.headD close).kind ≠ kind) :
    discard (eat kind) ⟨source, mark ++ rest, close⟩ = .ok () ⟨source, rest, close⟩ := by
  rcases optional_cases optional with rfl | ⟨token, rfl, found⟩
  · exact discard_of_ok (eat_missed behind)
  · exact discard_of_ok (eat_found found)

/-- The rounds of a repetition, each of which reads something. -/
inductive Rounds (more : Cursor → Bool) (item : Reading α) : Cursor → List α → Cursor → Prop where
  | stop {cursor : Cursor} (ends : more cursor = false) : Rounds more item cursor [] cursor
  | round {cursor middle after : Cursor} {value : α} {values : List α} (goes : more cursor = true)
      (read : item cursor = .ok value middle)
      (shorter : middle.ahead.length < cursor.ahead.length)
      (later : Rounds more item middle values after) :
      Rounds more item cursor (value :: values) after

theorem Rounds.many {more : Cursor → Bool} {item : Reading α} {cursor after : Cursor}
    {values : List α} (rounds : Rounds more item cursor values after) :
    many more item cursor = .ok values after := by
  -- the rounds put their values in front of those that were seen before
  have gather (seen : List α) :
      foldWhile more (fun seen => return (← item) :: seen) seen cursor =
        .ok (values.reverse ++ seen) after := by
    induction rounds generalizing seen with
    | stop ends =>
        rw [foldWhile, if_neg (by simp [ends])]
        rfl
    | @round cursor middle after value values goes read shorter later ih =>
        have step : (do return (← item) :: seen) cursor = .ok (value :: seen) middle :=
          bind_of_ok read _
        rw [foldWhile, if_pos goes, step]
        dsimp only
        rw [dif_pos shorter, ih]
        simp
  rw [Reading.many, bind_of_ok (gather [])]
  simp [pure, EStateM.pure]

end Reading

open Reading

inductive MoreItems (fits : Token → Bool) : List Token → List Token → Prop where
  | finish : MoreItems fits [] []
  | item {comma token : Token} {tokens items : List Token} (parted : comma.kind = .comma)
      (fit : fits token = true) (later : MoreItems fits tokens items) :
      MoreItems fits (comma :: token :: tokens) (token :: items)

inductive ItemGroup (fits : Token → Bool) : List Token → List Token → Prop where
  | mk {opening first closing : Token} {tokens items : List Token}
      (opens : opening.kind = .leftParen) (fit : fits first = true)
      (more : MoreItems fits tokens items) (closes : closing.kind = .rightParen) :
      ItemGroup fits (opening :: first :: (tokens ++ [closing])) (first :: items)

inductive NameList : List Token → List String → Prop where
  | none {opening closing : Token} (opens : opening.kind = .leftParen)
      (closes : closing.kind = .rightParen) : NameList [opening, closing] []
  | some {tokens items : List Token} (group : ItemGroup Token.isName tokens items) :
      NameList tokens (items.map Token.text)

def BehindItem (rest : List Token) : Prop :=
  ∃ next ∈ rest.head?, next.kind = .comma ∨ next.kind = .rightParen

theorem behindItem_closing {closing : Token} (closes : closing.kind = .rightParen)
    (rest : List Token) : BehindItem (closing :: rest) :=
  ⟨closing, rfl, .inr closes⟩

section

variable {α : Type} {fits : Token → Bool} {item : Reading α} {value : Token → α}
  {source : List Char} {close : Token}

/-- A reader that takes one token off as an item of a list. -/
def TakesItem (source : List Char) (close : Token) (fits : Token → Bool) (item : Reading α)
    (value : Token → α) : Prop :=
  ∀ token rest, fits token = true → BehindItem rest →
    item ⟨source, token :: rest, close⟩ = .ok (value token) ⟨source, rest, close⟩

namespace MoreItems

variable {tokens items rest : List Token}

theorem behindItem (more : MoreItems fits tokens items) (behind : BehindItem rest) :
    BehindItem (tokens ++ rest) := by
  cases more with
  | finish => exact behind
  | item parted => exact ⟨_, rfl, .inl parted⟩

theorem rounds (takes : TakesItem source close fits item value) {goes : Cursor → Bool}
    (again : ∀ comma token rest, comma.kind = .comma → fits token = true →
      goes ⟨source, comma :: token :: rest, close⟩ = true)
    (more : MoreItems fits tokens items) (behind : BehindItem rest)
    (stops : goes ⟨source, rest, close⟩ = false) :
    Rounds goes (do discard advance; item) ⟨source, tokens ++ rest, close⟩ (items.map value)
      ⟨source, rest, close⟩ := by
  induction more with
  | finish => exact .stop stops
  | @item comma token tokens items parted fit later ih =>
      have read := takes token (tokens ++ rest) fit (later.behindItem behind)
      refine .round (again comma token _ parted fit) ?_ ?_ ih
      · exact (bind_of_ok discard_advance _).trans read
      · simp only [List.cons_append, List.length_cons]
        omega

theorem separated (takes : TakesItem source close fits item value) {first closing : Token}
    (fit : fits first = true) (more : MoreItems fits tokens items)
    (closes : closing.kind = .rightParen) (rest : List Token) :
    separated item ⟨source, first :: (tokens ++ closing :: rest), close⟩ =
      .ok ((first :: items).map value) ⟨source, closing :: rest, close⟩ := by
  have behind := behindItem_closing closes rest
  have read := takes first _ fit (more.behindItem behind)
  have others : Rounds (·.sees .comma) (do discard advance; item)
      ⟨source, tokens ++ closing :: rest, close⟩ (items.map value)
      ⟨source, closing :: rest, close⟩ := by
    refine more.rounds takes (fun comma _ _ parted _ => ?_) behind ?_
    · simp [Cursor.sees, Cursor.current, parted]
    · simp [Cursor.sees, Cursor.current, closes]
  rw [Reading.separated, bind_of_ok read, bind_of_ok others.many]
  rfl

end MoreItems

theorem ItemGroup.listOf (takes : TakesItem source close fits item value) {tokens items : List Token}
    (group : ItemGroup fits tokens items) (rest : List Token) :
    listOf item ⟨source, tokens ++ rest, close⟩ = .ok (items.map value) ⟨source, rest, close⟩ := by
  obtain ⟨opens, fit, more, closes⟩ := group
  simp only [List.cons_append, List.append_assoc, List.nil_append]
  rw [Reading.listOf, bind_of_ok (discard_of_ok (expect_found opens)),
    bind_of_ok (more.separated takes fit closes rest),
    bind_of_ok (discard_of_ok (expect_found closes))]
  rfl

end

theorem Token.kind_ne_of_isName {token : Token} (named : token.isName = true) :
    token.kind ≠ .leftParen ∧ token.kind ≠ .rightParen := by
  constructor <;> intro kind <;> simp [isName, kind] at named

theorem NameList.read {source : List Char} {close : Token} {tokens : List Token}
    {names : List String} (list : NameList tokens names) (rest : List Token) :
    nameList ⟨source, tokens ++ rest, close⟩ = .ok names ⟨source, rest, close⟩ := by
  cases list with
  | none opens closes =>
      simp only [List.cons_append, List.nil_append]
      rw [nameList, bind_of_ok (discard_of_ok (expect_found opens)), bind_of_ok (eat_found closes)]
      rfl
  | some group =>
      obtain ⟨opens, fit, more, closes⟩ := group
      have takes : TakesItem source close Token.isName (name .columnName) Token.text :=
        fun _ _ named _ => textOf_found named .columnName
      simp only [List.cons_append, List.append_assoc, List.nil_append]
      rw [nameList, bind_of_ok (discard_of_ok (expect_found opens)),
        ifEat_other (Token.kind_ne_of_isName fit).2,
        bind_of_ok (more.separated takes fit closes rest),
        bind_of_ok (discard_of_ok (expect_found closes))]
      rfl

end SchemaDrift
