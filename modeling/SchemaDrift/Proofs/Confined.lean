import SchemaDrift.Proofs.Captured

/-!
Readers that stay inside a run of tokens. A run is what a list holds between two commas of its own,
or between a comma and its parenthesis. A reader that starts inside a run takes tokens of the run
only, and it would read the same if nothing but a closing parenthesis stood behind the run: so what
it gives depends on the run alone.
-/

namespace SchemaDrift

/-- The tokens that part runs from each other or nest them, and the end of input. -/
def Token.IsBorder (token : Token) : Prop :=
  token.kind = .comma ∨ token.kind = .leftParen ∨ token.kind = .rightParen ∨
    token.kind = .endOfInput

theorem Token.IsBorder.keyword? {token : Token} (border : token.IsBorder) :
    token.keyword? = none := by
  rcases border with kind | kind | kind | kind <;> rw [Token.keyword?, kind]

theorem Token.not_isBorder_of_keyword {token : Token} {word : Keyword}
    (found : token.keyword? = some word) : ¬token.IsBorder := by
  intro border
  rw [border.keyword?] at found
  contradiction

theorem Token.not_isBorder_iff {token : Token} :
    ¬token.IsBorder ↔ token.kind ≠ .comma ∧ token.kind ≠ .leftParen ∧ token.kind ≠ .rightParen ∧
      token.kind ≠ .endOfInput := by
  simp only [Token.IsBorder, not_or, ne_eq]

theorem Token.keyword?_eq_some_iff {token : Token} {word : Keyword} :
    token.keyword? = some word ↔ token.kind = .keyword word := by
  rw [Token.keyword?]
  split
  next found => simp [found]
  next other =>
    constructor
    · simp
    · exact fun same => absurd same (other word)

/-- What stands behind a run: the rest of the statement, a border in front of it, and the end of
input. -/
structure Behind where
  source : List Char
  tokens : List Token
  close : Token
  ended : close.kind = .endOfInput
  bordered : ∀ token ∈ tokens.head?, token.IsBorder

namespace Behind

def cursor (behind : Behind) (run : List Token) : Cursor :=
  ⟨behind.source, run ++ behind.tokens, behind.close⟩

def parenthesis : Token :=
  ⟨.rightParen, ")", ⟨0, 0⟩, .start⟩

/-- The least that can stand behind a run: the parenthesis that closes a list, and no more. Where
the run goes on to the end of input there is nothing at all. -/
def alone (behind : Behind) : Behind where
  source := behind.source
  tokens := if behind.tokens = [] then [] else [parenthesis]
  close := .endOfInput 0 .start
  ended := rfl
  bordered := by
    split
    · simp
    · simp [Token.IsBorder, parenthesis]

def border (behind : Behind) : Token :=
  behind.tokens.headD behind.close

variable (behind : Behind)

theorem border_isBorder : behind.border.IsBorder := by
  rw [border]
  cases tokens : behind.tokens with
  | nil => exact .inr (.inr (.inr behind.ended))
  | cons token rest => exact behind.bordered token (by simp [tokens])

@[simp] theorem current_nil : (behind.cursor []).current = behind.border := rfl

@[simp] theorem current_cons (token : Token) (run : List Token) :
    (behind.cursor (token :: run)).current = token := rfl

theorem alone_open (nothing : behind.tokens = []) : behind.alone.tokens = [] := by
  simp [alone, nothing]

theorem border_of_open (nothing : behind.tokens = []) : behind.border.kind = .endOfInput := by
  simp [border, nothing, behind.ended]

theorem alone_border_kind :
    behind.alone.border.kind = .rightParen ∨ behind.alone.border.kind = .endOfInput := by
  by_cases nothing : behind.tokens = []
  · exact .inr (behind.alone.border_of_open (behind.alone_open nothing))
  · simp [border, alone, nothing, parenthesis]

end Behind

namespace Reading

variable {α β σ : Type} {behind : Behind} {P : List Token → Prop}

/-- Started where `before` holds of the rest of the run, a reading that gives a value stops where
`after` holds of what it leaves of the run, and gives the same value when the run stands alone. -/
def Confined (behind : Behind) (before : List Token → Prop) (reading : Reading α)
    (after : α → List Token → Prop) : Prop :=
  ∀ run, before run → ∀ value cursor, reading (behind.cursor run) = .ok value cursor →
    ∃ left, after value left ∧ cursor = behind.cursor left ∧
      reading (behind.alone.cursor run) = .ok value (behind.alone.cursor left)

namespace Confined

variable {before : List Token → Prop} {reading : Reading α} {after : α → List Token → Prop}

theorem bind {next : α → Reading β} {final : β → List Token → Prop}
    (start : Confined behind before reading after)
    (later : ∀ value, Confined behind (after value) (next value) final) :
    Confined behind before (reading >>= next) final := by
  intro run holds value cursor done
  obtain ⟨first, middle, one, two⟩ := ok_of_bind_ok done
  obtain ⟨left, reached, rfl, alone⟩ := start run holds first middle one
  obtain ⟨last, finished, same, further⟩ := later first left reached value cursor two
  exact ⟨last, finished, same, by rw [bind_of_ok alone, further]⟩

theorem pure {value : α} (holds : ∀ run, before run → after value run) :
    Confined behind before (Pure.pure value) after := by
  intro run given result cursor done
  obtain ⟨rfl, rfl⟩ := EStateM.Result.ok.inj done
  exact ⟨run, holds run given, rfl, rfl⟩

theorem weaken {weaker : α → List Token → Prop} (start : Confined behind before reading after)
    (implied : ∀ value run, after value run → weaker value run) :
    Confined behind before reading weaker := by
  intro run holds value cursor done
  obtain ⟨left, reached, same, alone⟩ := start run holds value cursor done
  exact ⟨left, implied value left reached, same, alone⟩

theorem strengthen {stronger : List Token → Prop} (start : Confined behind before reading after)
    (implied : ∀ run, stronger run → before run) : Confined behind stronger reading after :=
  fun run holds => start run (implied run holds)

theorem ite {condition : Prop} [Decidable condition] {yes no : Reading α}
    (first : condition → Confined behind before yes after)
    (second : ¬condition → Confined behind before no after) :
    Confined behind before (if condition then yes else no) after := by
  split
  next holds => exact first holds
  next fails => exact second fails

theorem of_error (fails : ∀ run, before run → ∀ value cursor,
    reading (behind.cursor run) ≠ .ok value cursor) : Confined behind before reading after :=
  fun run holds value cursor done => absurd done (fails run holds value cursor)

theorem fail (expected : Expected) : Confined behind before (fail expected : Reading α) after :=
  of_error fun _ _ _ _ => by simp [Reading.fail]

theorem failAt (token : Token) (expected : Expected) :
    Confined behind before (failAt token expected : Reading α) after :=
  of_error fun _ _ _ _ => by simp [Reading.failAt]

theorem clause {final : List Token → Prop} (make : α → β)
    (start : Confined behind before reading fun _ => final) :
    Confined behind before (do return make (← reading)) fun _ => final :=
  start.bind fun _ => pure fun _ holds => holds

theorem discard {final : List Token → Prop}
    (start : Confined behind before reading fun _ => final) :
    Confined behind before (discard reading) fun _ => final :=
  start.bind fun _ => pure fun _ holds => holds

end Confined

theorem demand_confined {reading : Reading α} (accept : Token → Option α)
    (taken : ∀ cursor value after, reading cursor = .ok value after →
      accept cursor.current = some value ∧ after = cursor.next)
    (given : ∀ cursor value, accept cursor.current = some value →
      reading cursor = .ok value cursor.next)
    (at_border : P [] → accept behind.border = none) :
    Confined behind P reading fun value run =>
      ∃ token, P (token :: run) ∧ accept token = some value := by
  intro run holds value cursor done
  obtain ⟨accepted, rfl⟩ := taken _ value cursor done
  cases run with
  | nil => simp [at_border holds] at accepted
  | cons token rest => exact ⟨rest, ⟨token, holds, accepted⟩, rfl, given _ value accepted⟩

/-- Reading a token if it is there. At the border of the run it is not, alone or otherwise. -/
theorem offer_confined (test : Token → Bool) (yes : Token → α) (no : α)
    (at_border : P [] → test behind.border = false ∧ test behind.alone.border = false) :
    Confined behind P
      (fun cursor => if test cursor.current then .ok (yes cursor.current) cursor.next
        else .ok no cursor)
      fun value run => (∃ token, P (token :: run) ∧ test token = true ∧ value = yes token) ∨
        P run ∧ (∀ token ∈ run.head?, test token = false) ∧ value = no := by
  intro run holds value cursor done
  cases run with
  | nil =>
      obtain ⟨here, there⟩ := at_border holds
      simp only [Behind.current_nil, here, there, Bool.false_eq_true, ↓reduceIte,
        EStateM.Result.ok.injEq] at done ⊢
      obtain ⟨rfl, rfl⟩ := done
      exact ⟨[], .inr ⟨holds, by simp, rfl⟩, rfl, rfl, rfl⟩
  | cons token rest =>
      dsimp only at done
      split at done
      next passed =>
        obtain ⟨rfl, rfl⟩ := EStateM.Result.ok.inj done
        exact ⟨rest, .inl ⟨token, holds, passed, rfl⟩, rfl, if_pos passed⟩
      next failed =>
        obtain ⟨rfl, rfl⟩ := EStateM.Result.ok.inj done
        exact ⟨token :: rest, .inr ⟨holds, by simpa using failed, rfl⟩, rfl, if_neg failed⟩

/-- A property of what is left of a run that stays when a token other than a border is taken. -/
class Keeps (P : List Token → Prop) : Prop where
  keep : ∀ {token : Token} {rest : List Token}, P (token :: rest) → ¬token.IsBorder → P rest

section Kept

variable [Keeps P]

theorem textOf_confined {test : Token → Bool} (expected : Expected)
    (no_border : ∀ token, token.IsBorder → test token = false) :
    Confined behind P (textOf test expected) fun _ => P := by
  have demand : Confined behind P (textOf test expected) _ := demand_confined
    (fun token => if test token then some token.text else none)
    (fun cursor value after done => by
      simp only [textOf] at done
      split at done <;> simp_all)
    (fun cursor value accepted => by
      simp only [textOf]
      split at accepted <;> simp_all)
    (fun _ => by simp [no_border _ behind.border_isBorder])
  refine demand.weaken ?_
  rintro value run ⟨token, holds, accepted⟩
  refine Keeps.keep holds fun border => ?_
  simp [no_border token border] at accepted

theorem name_confined (expected : Expected) :
    Confined behind P (name expected) fun _ => P := by
  refine textOf_confined expected ?_
  rintro token (kind | kind | kind | kind) <;> simp [Token.isName, kind]

theorem string_confined : Confined behind P string fun _ => P := by
  refine textOf_confined .string ?_
  rintro token (kind | kind | kind | kind) <;> simp [Token.isString, kind]

theorem word_confined : Confined behind P word fun _ => P := by
  refine textOf_confined .optionValue ?_
  rintro token (kind | kind | kind | kind) <;> simp [Token.isWord, kind]

theorem unsignedInteger_confined : Confined behind P unsignedInteger fun _ => P := by
  have no_border (token : Token) (border : token.IsBorder) : token.unsignedInteger? = none := by
    rcases border with kind | kind | kind | kind <;> simp [Token.unsignedInteger?, kind]
  have demand : Confined behind P unsignedInteger _ := demand_confined
    Token.unsignedInteger?
    (fun cursor value after done => by
      simp only [unsignedInteger] at done
      split at done <;> simp_all)
    (fun cursor value accepted => by simp only [unsignedInteger, accepted])
    (fun _ => no_border _ behind.border_isBorder)
  refine demand.weaken ?_
  rintro value run ⟨token, holds, accepted⟩
  refine Keeps.keep holds fun border => ?_
  simp [no_border token border] at accepted

end Kept

theorem expect_confined (kind : TokenKind) (at_border : P [] → behind.border.kind ≠ kind) :
    Confined behind P (expect kind) fun token run => P (token :: run) ∧ token.kind = kind := by
  have demand : Confined behind P (expect kind) _ := demand_confined
    (fun token => if token.kind = kind then some token else none)
    (fun cursor value after done => by
      obtain ⟨same, rfl, rfl⟩ := expect_ok done
      exact ⟨if_pos same, rfl⟩)
    (fun cursor value accepted => by
      simp only [expect, Cursor.sees, beq_iff_eq]
      split at accepted <;> simp_all)
    (fun holds => by simp [at_border holds])
  refine demand.weaken ?_
  rintro value run ⟨token, holds, accepted⟩
  split at accepted
  next same =>
    obtain rfl := Option.some.inj accepted
    exact ⟨holds, same⟩
  next => contradiction

def Eaten (P : List Token → Prop) (kind : TokenKind) (found : Bool) (run : List Token) : Prop :=
  if found then ∃ token, P (token :: run) ∧ token.kind = kind
  else P run ∧ ∀ token ∈ run.head?, token.kind ≠ kind

theorem eat_confined (kind : TokenKind)
    (at_border : P [] → behind.border.kind ≠ kind ∧ behind.alone.border.kind ≠ kind) :
    Confined behind P (eat kind) (Eaten P kind) := by
  have offer : Confined behind P (eat kind) _ :=
    offer_confined (·.kind == kind) (fun _ => true) false
      (fun holds => by simpa using at_border holds)
  refine offer.weaken ?_
  rintro value run (⟨token, holds, same, rfl⟩ | ⟨holds, other, rfl⟩)
  · exact ⟨token, holds, by simpa using same⟩
  · exact ⟨holds, by simpa using other⟩

section Words

variable [Keeps P]

theorem eat_kept {kind : TokenKind} (plain : ∀ token : Token, token.IsBorder → token.kind ≠ kind) :
    Confined behind P (eat kind) fun _ => P := by
  refine (eat_confined kind fun _ =>
    ⟨plain _ behind.border_isBorder, plain _ behind.alone.border_isBorder⟩).weaken ?_
  rintro (_ | _) run eaten
  · exact eaten.1
  · obtain ⟨token, holds, same⟩ := eaten
    exact Keeps.keep holds fun border => plain token border same

theorem border_ne_keyword {token : Token} (word : Keyword) (border : token.IsBorder) :
    token.kind ≠ .keyword word := by
  rcases border with kind | kind | kind | kind <;> simp [kind]

theorem eatWord_confined (word : Keyword) : Confined behind P (eatWord word) fun _ => P :=
  eat_kept fun _ border => border_ne_keyword word border

theorem eat_equals_confined : Confined behind P (eat .equals) fun _ => P := by
  refine eat_kept ?_
  rintro token (kind | kind | kind | kind) <;> simp [kind]

theorem eat_dot_confined : Confined behind P (eat .dot) fun _ => P := by
  refine eat_kept ?_
  rintro token (kind | kind | kind | kind) <;> simp [kind]

theorem expectWord_confined (word : Keyword) : Confined behind P (expectWord word) fun _ => P := by
  refine (expect_confined (.keyword word) fun _ =>
    border_ne_keyword word behind.border_isBorder).bind fun token => .pure ?_
  rintro run ⟨holds, same⟩
  exact Keeps.keep holds fun border => border_ne_keyword word border same

theorem name?_confined : Confined behind P name? fun _ => P := by
  have no_border (token : Token) (border : token.IsBorder) : token.isName = false := by
    rcases border with kind | kind | kind | kind <;> simp [Token.isName, kind]
  have offer : Confined behind P name? _ := offer_confined Token.isName (some ·.text) none
    fun _ => ⟨no_border _ behind.border_isBorder, no_border _ behind.alone.border_isBorder⟩
  refine offer.weaken ?_
  rintro value run (⟨token, holds, named, rfl⟩ | ⟨holds, _, rfl⟩)
  · refine Keeps.keep holds fun border => ?_
    simp [no_border token border] at named
  · exact holds

theorem qualifiedName_confined : Confined behind P qualifiedName fun _ => P := by
  rw [qualifiedName]
  refine (name_confined .tableName).bind fun first => ?_
  refine eat_dot_confined.bind fun qualified =>
    .ite (fun _ => ?_) fun _ => .pure fun _ holds => holds
  exact (name_confined .tableName).bind fun second => .pure fun _ holds => holds

end Words

theorem look_confined {view : Cursor → α}
    (same : ∀ run, P run → view (behind.alone.cursor run) = view (behind.cursor run)) :
    Confined behind P (look view) fun value run => P run ∧ value = view (behind.cursor run) := by
  intro run holds value cursor done
  obtain ⟨rfl, rfl⟩ := EStateM.Result.ok.inj done
  exact ⟨run, ⟨holds, rfl⟩, rfl, by rw [look, same run holds]⟩

theorem discard_advance_confined :
    Confined behind (fun run => ∃ token rest, run = token :: rest ∧ P rest) (discard advance)
      fun _ => P := by
  rintro run ⟨token, rest, rfl, holds⟩ value cursor done
  obtain ⟨-, rfl⟩ := EStateM.Result.ok.inj done
  exact ⟨rest, holds, rfl, rfl⟩

/-- A repetition is confined if its step is, and if it goes on alone where it goes on with the rest
of the statement behind, and the other way round unless the step fails there. -/
theorem foldWhile_confined {more : Cursor → Bool} {step : σ → Reading σ}
    (alone_more : ∀ run, P run → more (behind.alone.cursor run) = true →
      more (behind.cursor run) = true)
    (more_alone : ∀ state run value cursor, P run → more (behind.cursor run) = true →
      step state (behind.cursor run) = .ok value cursor → more (behind.alone.cursor run) = true)
    (steps : ∀ state, Confined behind (fun run => P run ∧ more (behind.cursor run) = true)
      (step state) fun _ => P)
    (state : σ) : Confined behind P (foldWhile more step state) fun _ => P := by
  intro run holds value cursor done
  induction count : run.length using Nat.strongRecOn generalizing run state with
  | ind count ih =>
      rw [foldWhile] at done
      rw [foldWhile]
      cases goes_on : more (behind.cursor run) with
      | false =>
          have stops : more (behind.alone.cursor run) = false := by
            by_contra on
            rw [alone_more run holds (by simpa using on)] at goes_on
            contradiction
          simp only [goes_on, stops, Bool.false_eq_true, ↓reduceIte] at done ⊢
          obtain ⟨rfl, rfl⟩ := EStateM.Result.ok.inj done
          exact ⟨run, holds, rfl, rfl⟩
      | true =>
          simp only [goes_on, ↓reduceIte] at done
          cases first : step state (behind.cursor run) with
          | error error after => simp [first] at done
          | ok next after =>
              obtain ⟨left, kept, rfl, alone⟩ := steps state run ⟨holds, goes_on⟩ next after first
              simp only [more_alone state run next _ holds goes_on first, ↓reduceIte, alone]
              -- a round that takes nothing ends the repetition, alone and otherwise
              have here : (behind.cursor left).ahead.length < (behind.cursor run).ahead.length ↔
                  left.length < run.length := by simp [Behind.cursor]
              have there : (behind.alone.cursor left).ahead.length <
                  (behind.alone.cursor run).ahead.length ↔ left.length < run.length := by
                simp [Behind.cursor]
              simp only [first, here] at done
              simp only [there]
              split at done
              next shorter =>
                rw [dif_pos shorter]
                exact ih left.length (count ▸ shorter) next left kept done rfl
              next not_shorter =>
                rw [dif_neg not_shorter]
                obtain ⟨rfl, rfl⟩ := EStateM.Result.ok.inj done
                exact ⟨left, kept, rfl, rfl⟩

theorem many_confined {more : Cursor → Bool} {item : Reading α}
    (same : ∀ run, P run → more (behind.alone.cursor run) = more (behind.cursor run))
    (items : Confined behind (fun run => P run ∧ more (behind.cursor run) = true) item
      fun _ => P) : Confined behind P (many more item) fun _ => P := by
  rw [many]
  refine (foldWhile_confined ?_ ?_ ?_ []).bind fun _ => .pure fun _ holds => holds
  · exact fun run holds => (same run holds ▸ ·)
  · exact fun _ run _ _ holds on _ => (same run holds).trans on
  · exact fun seen => items.bind fun value => .pure fun _ holds => holds

end Reading

end SchemaDrift
