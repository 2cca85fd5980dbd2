import SchemaDrift.Proofs.Inside
import SchemaDrift.Reading.Table

/-!
The readers of the elements of a table stay in their runs. Clauses that start no known keyword are
passed over one token or one group at a time, and a word is passed over behind MATCH: none of that
takes a comma or a parenthesis that belongs to the list.
-/

namespace SchemaDrift

namespace Reading

variable {α β : Type}

/-- A reading that stays in every run, and closes what it opens. -/
def Stays (reading : Reading α) : Prop :=
  ∀ behind depth, Confined behind (Within behind depth) reading fun _ => Within behind depth

def Fronted (behind : Behind) (depth : Nat) (run : List Token) : Prop :=
  Within behind depth run ∧ ∃ token ∈ run.head?, ¬token.IsBorder

/-- A reading that stays in a run where it starts from a token that is no border. -/
def StaysFrom (reading : Reading α) : Prop :=
  ∀ behind depth, Confined behind (Fronted behind depth) reading fun _ => Within behind depth

namespace Stays

theorem pure (value : α) : Stays (Pure.pure value : Reading α) :=
  fun _ _ => .pure fun _ within => within

theorem bind {reading : Reading α} {next : α → Reading β} (start : Stays reading)
    (later : ∀ value, Stays (next value)) : Stays (reading >>= next) :=
  fun behind depth => (start behind depth).bind fun value => later value behind depth

theorem ite {condition : Prop} [Decidable condition] {yes no : Reading α} (first : Stays yes)
    (second : Stays no) : Stays (if condition then yes else no) :=
  fun behind depth => .ite (fun _ => first behind depth) fun _ => second behind depth

theorem fail (expected : Expected) : Stays (Reading.fail expected : Reading α) :=
  fun _ _ => .fail expected

theorem failAt (token : Token) (expected : Expected) :
    Stays (Reading.failAt token expected : Reading α) :=
  fun _ _ => .failAt token expected

theorem clause {reading : Reading α} (start : Stays reading) (make : α → β) :
    Stays (do return make (← reading)) :=
  start.bind fun value => .pure (make value)

theorem discard {reading : Reading α} (start : Stays reading) :
    Stays (Functor.discard reading) :=
  start.bind fun _ => .pure _

theorem fronted {reading : Reading α} (stays : Stays reading) : StaysFrom reading :=
  fun behind depth => (stays behind depth).strengthen fun _ fronted => fronted.1

theorem passing {reading : Reading α} (later : Stays reading) :
    StaysFrom (Functor.discard advance >>= fun _ => reading) :=
  fun behind depth => pass_confined.bind fun _ => later behind depth

end Stays

theorem name_stays (expected : Expected) : Stays (name expected) :=
  fun _ _ => name_confined expected

theorem string_stays : Stays string :=
  fun _ _ => string_confined

theorem word_stays : Stays word :=
  fun _ _ => word_confined

theorem unsignedInteger_stays : Stays unsignedInteger :=
  fun _ _ => unsignedInteger_confined

theorem eatWord_stays (word : Keyword) : Stays (eatWord word) :=
  fun _ _ => eatWord_confined word

theorem eat_equals_stays : Stays (eat .equals) :=
  fun _ _ => eat_equals_confined

theorem expectWord_stays (word : Keyword) : Stays (expectWord word) :=
  fun _ _ => expectWord_confined word

theorem name?_stays : Stays name? :=
  fun _ _ => name?_confined

theorem qualifiedName_stays : Stays qualifiedName :=
  fun _ _ => qualifiedName_confined

theorem expression_stays : Stays expression :=
  fun _ _ => expression_confined

theorem Stays.valued {reading : Reading α} (later : Stays reading) :
    Stays (Functor.discard (eat .equals) >>= fun _ => reading) :=
  eat_equals_stays.discard.bind fun _ => later

/-- What a reader does by the current token: at any border that can stand behind a run it does the
same, and it takes a token that is none. -/
theorem current_stays {next : Token → Reading α} {stop : Reading α}
    (at_border : ∀ token : Token, token.IsBorder → token.kind ≠ .leftParen → next token = stop)
    (stops : Stays stop) (opens : ∀ token : Token, token.kind = .leftParen → Stays (next token))
    (later : ∀ token : Token, ¬token.IsBorder → StaysFrom (next token)) :
    Stays (current >>= next) := by
  intro behind depth
  refine current_confined at_border ?_ fun token => ?_
  · exact (stops behind depth).strengthen fun run fronted => fronted.1
  by_cases border : token.IsBorder
  · by_cases opening : token.kind = .leftParen
    · exact (opens token opening behind depth).strengthen fun run fronted => fronted.1
    · rw [at_border token border opening]
      exact (stops behind depth).strengthen fun run fronted => fronted.1
  · refine (later token border behind depth).strengthen ?_
    rintro run ⟨within, front⟩
    exact ⟨within, token, front, border⟩

theorem advance_stays {next : Token → Reading α}
    (at_border : ∀ token : Token, token.IsBorder → ∃ expected, next token = failAt token expected)
    (later : ∀ token, Stays (next token)) : Stays (advance >>= next) := by
  intro behind depth run within value cursor done
  have taken (cursor : Cursor) : (advance >>= next) cursor = next cursor.current cursor.next := rfl
  rw [taken] at done ⊢
  by_cases border : (behind.cursor run).current.IsBorder
  · obtain ⟨expected, complains⟩ := at_border _ border
    rw [complains] at done
    contradiction
  cases run with
  | nil => exact absurd behind.border_isBorder border
  | cons token rest =>
      exact later token behind depth rest (Keeps.keep within border) value cursor done

theorem front_confined {behind : Behind} {depth : Nat} {next : Token → Reading α}
    {test : Token → Prop} {after : α → List Token → Prop}
    (later : ∀ token, test token →
      Confined behind (fun run => Within behind depth run ∧ run.head? = some token) (next token)
        after) :
    Confined behind (fun run => Within behind depth run ∧ ∃ token ∈ run.head?, test token)
      (current >>= next) after := by
  rintro run ⟨within, token, front, passed⟩ value cursor done
  obtain ⟨rest, rfl⟩ := List.head?_eq_some_iff.mp front
  exact later token passed (token :: rest) ⟨within, rfl⟩ value cursor done

theorem not_atElementEnd {behind : Behind} {depth : Nat} {run : List Token}
    (within : Within behind depth run) (goes_on : (!(behind.cursor run).atElementEnd) = true) :
    ∃ token ∈ run.head?, token.kind = .leftParen ∨ ¬token.IsBorder := by
  cases run with
  | nil =>
      rcases behind.border_isBorder with kind | kind | kind | kind
      · simp [Cursor.atElementEnd, kind] at goes_on
      · exact absurd kind within.border_ne_leftParen
      · simp [Cursor.atElementEnd, kind] at goes_on
      · simp [Cursor.atElementEnd, kind] at goes_on
  | cons token rest =>
      refine ⟨token, rfl, ?_⟩
      by_contra other
      obtain ⟨not_opening, border⟩ := not_or.mp other
      rcases not_not.mp border with kind | kind | kind | kind
      · simp [Cursor.atElementEnd, kind] at goes_on
      · exact not_opening kind
      · simp [Cursor.atElementEnd, kind] at goes_on
      · simp [Cursor.atElementEnd, kind] at goes_on

theorem clauses_stays {item : Reading α}
    (items : ∀ behind depth, Confined behind
      (fun run => Within behind depth run ∧
        ∃ token ∈ run.head?, token.kind = .leftParen ∨ ¬token.IsBorder)
      item fun _ => Within behind depth) : Stays (many (!·.atElementEnd) item) := by
  intro behind depth
  refine many_confined ?_ ((items behind depth).strengthen ?_)
  · intro run within
    cases run with
    | nil =>
        have ends (behind : Behind) (no_opening : behind.border.kind ≠ .leftParen) :
            (behind.cursor []).atElementEnd = true := by
          rcases behind.border_isBorder with kind | kind | kind | kind
          · simp [Cursor.atElementEnd, kind]
          · exact absurd kind no_opening
          · simp [Cursor.atElementEnd, kind]
          · simp [Cursor.atElementEnd, kind]
        rw [ends behind within.border_ne_leftParen,
          ends behind.alone (Within.alone_border_ne_leftParen behind)]
    | cons token rest => rfl
  · rintro run ⟨within, goes_on⟩
    exact ⟨within, not_atElementEnd within goes_on⟩

theorem skipAny_confined {behind : Behind} {depth : Nat} :
    Confined behind
      (fun run => Within behind depth run ∧
        ∃ token ∈ run.head?, token.kind = .leftParen ∨ ¬token.IsBorder)
      skipAny fun _ => Within behind depth := by
  rintro run ⟨within, token, front, passed⟩ value cursor done
  obtain ⟨rest, rfl⟩ := List.head?_eq_some_iff.mp front
  have here (behind : Behind) : skipAny (behind.cursor (token :: rest)) =
      (if token.kind = .leftParen then skipGroup else discard advance)
        (behind.cursor (token :: rest)) := by
    simp only [skipAny, look, bind, EStateM.bind, Cursor.sees, Behind.current_cons, beq_iff_eq]
  rw [here] at done ⊢
  by_cases opens : token.kind = .leftParen
  · rw [if_pos opens] at done ⊢
    exact skipGroup_confined _ ⟨within, token, rfl, opens⟩ value cursor done
  · rw [if_neg opens] at done ⊢
    exact pass_confined _ ⟨within, token, rfl, passed.resolve_left opens⟩ value cursor done

theorem listOf_stays {item : Reading α} (items : Stays item) : Stays (listOf item) := by
  intro behind depth
  rw [listOf]
  refine expect_leftParen_confined.discard.bind fun _ => ?_
  have others : Confined behind (Within behind (depth + 1))
      (many (·.sees .comma) (do discard advance; item)) fun _ => Within behind (depth + 1) := by
    refine many_confined ?_ ((discard_advance_confined.strengthen ?_).bind fun _ =>
      items behind (depth + 1))
    · intro run within
      cases run with
      | nil => simp [Cursor.sees, within.border_of_deep]
      | cons token rest => rfl
    · rintro run ⟨within, sees⟩
      cases run with
      | nil => simp [Cursor.sees, within.border_of_deep] at sees
      | cons token rest =>
          exact ⟨token, rest, rfl, within.behind_comma (by simpa [Cursor.sees] using sees)⟩
  have separated : Confined behind (Within behind (depth + 1)) (separated item)
      fun _ => Within behind (depth + 1) :=
    (items behind (depth + 1)).bind fun _ => others.bind fun _ => .pure fun _ within => within
  exact separated.bind fun _ => expect_rightParen_confined.discard.bind fun _ =>
    .pure fun _ within => within

end Reading

open Reading

namespace Behind

variable {behind : Behind} {run : List Token}

theorem peeksWord_iff {distance : Nat} (reach : distance ≤ run.length) (word : Keyword) :
    (behind.cursor run).peeksWord distance word = true ↔
      ∃ token, run[distance]? = some token ∧ token.kind = .keyword word := by
  rcases Nat.lt_or_eq_of_le reach with inner | rfl
  · simp [Cursor.peeksWord, Cursor.peek, cursor, List.getElem?_append_left inner, inner]
  · have border : (behind.cursor run).peek run.length = behind.border := by
      simp [Cursor.peek, cursor, Behind.border, List.headD_eq_head?_getD, List.head?_eq_getElem?,
        List.getElem?_append_right]
    simp [Cursor.peeksWord, border, border_ne_keyword word behind.border_isBorder]

theorem seesWord_iff (word : Keyword) :
    (behind.cursor run).seesWord word = true ↔ ∃ token ∈ run.head?, token.kind = .keyword word := by
  cases run with
  | nil => simp [Cursor.seesWord, Cursor.sees, border_ne_keyword word behind.border_isBorder]
  | cons token rest => simp [Cursor.seesWord, Cursor.sees]

theorem peeksWord_alone {distance : Nat} (reach : distance ≤ run.length) (word : Keyword) :
    (behind.alone.cursor run).peeksWord distance word =
      (behind.cursor run).peeksWord distance word := by
  rw [Bool.eq_iff_iff, peeksWord_iff reach, peeksWord_iff reach]

theorem seesWord_alone (word : Keyword) :
    (behind.alone.cursor run).seesWord word = (behind.cursor run).seesWord word := by
  rw [Bool.eq_iff_iff, seesWord_iff, seesWord_iff]

end Behind

theorem Check.read_stays (name : Option String) : Stays (Check.read name) := by
  rw [Check.read]
  refine (expectWord_stays .CHECK).bind fun _ => expression_stays.bind fun condition => ?_
  intro behind depth
  refine (look_confined fun run _ => ?_).bind fun found => .ite (fun holds => ?_) fun _ => ?_
  · cases run with
    | nil =>
        have no_word (behind : Behind) : (behind.cursor []).seesWord .NOT = false := by
          simp [Bool.eq_false_iff, Behind.seesWord_iff]
        simp only [no_word, Bool.false_and]
    | cons token rest => rw [Behind.seesWord_alone, Behind.peeksWord_alone (by simp)]
  · subst holds
    refine (discard_advance_confined.strengthen ?_).bind fun _ =>
      (Stays.pure _).passing behind depth
    rintro run ⟨within, sees⟩
    obtain ⟨first, second⟩ := Bool.and_eq_true_iff.mp sees.symm
    obtain ⟨token, front, kind⟩ := (Behind.seesWord_iff .NOT).mp first
    obtain ⟨rest, rfl⟩ := List.head?_eq_some_iff.mp front
    obtain ⟨next, behind_it, word⟩ := (Behind.peeksWord_iff (by simp) .ENFORCED).mp second
    refine ⟨token, rest, rfl, Keeps.keep within ?_, next, ?_, ?_⟩
    · exact Token.not_isBorder_of_keyword (Token.keyword?_eq_some_iff.mpr kind)
    · simpa [List.head?_eq_getElem?] using behind_it
    · exact Token.not_isBorder_of_keyword (Token.keyword?_eq_some_iff.mpr word)
  · refine Confined.strengthen ?_ fun run given => given.1
    exact ((eatWord_stays .ENFORCED).bind fun _ => .ite (.pure _) (.pure _)) behind depth

namespace KeyPart

theorem readName_stays : Stays readName := by
  intro behind depth
  rw [readName]
  refine look_leftParen_confined.bind fun found => ?_
  have either : Stays (if found = true then do return "(" ++ (← expression) ++ ")"
      else Reading.name .columnName) :=
    .ite (expression_stays.bind fun _ => .pure _) (name_stays .columnName)
  exact (either behind depth).strengthen fun run given => given.1

theorem readLength_stays : Stays readLength := by
  intro behind depth
  rw [readLength]
  refine eat_leftParen_confined.bind fun found => .ite (fun holds => ?_) fun none_opened => ?_
  · subst holds
    refine (unsignedInteger_stays behind (depth + 1)).bind fun _ => ?_
    exact expect_rightParen_confined.discard.bind fun _ => .pure fun _ within => within
  · rw [Bool.not_eq_true] at none_opened
    subst none_opened
    exact .pure fun _ within => within

theorem readDirection_stays : Stays readDirection := by
  rw [readDirection]
  refine (eatWord_stays .ASC).bind fun _ => .ite (.pure _) ?_
  exact (eatWord_stays .DESC).bind fun _ => .ite (.pure _) (.pure none)

theorem read_stays : Stays read := by
  rw [read]
  apply readName_stays.bind
  intro name
  apply readLength_stays.bind
  intro length
  exact readDirection_stays.bind fun direction => .pure _

theorem readList_stays : Stays readList :=
  listOf_stays read_stays

end KeyPart

theorem ReferentialAction.read_stays : Stays ReferentialAction.read := by
  rw [ReferentialAction.read]
  refine advance_stays (fun token border => ⟨.referentialAction, by rw [border.keyword?]⟩) ?_
  intro token
  have unknown : Stays (failAt token .referentialAction : Reading ReferentialAction) :=
    .failAt token .referentialAction
  split
  · exact .pure _
  · exact .pure _
  · refine (eatWord_stays .NULL).bind fun _ => .ite (.pure _) ?_
    exact (eatWord_stays .DEFAULT).bind fun _ => .ite (.pure _) unknown
  · exact (eatWord_stays .ACTION).bind fun _ => .ite (.pure _) unknown
  · exact unknown

namespace ReferenceClause

theorem discard_advance_passable {behind : Behind} {depth : Nat} :
    Confined behind
      (fun run => Within behind depth run ∧ Passable (behind.tokens ≠ []) run)
      (discard advance) fun _ => Within behind depth := by
  rintro run ⟨within, passable⟩ value cursor done
  cases run with
  | nil =>
      have nothing : behind.tokens = [] := not_not.mp (passable.1 rfl)
      obtain ⟨-, rfl⟩ := EStateM.Result.ok.inj done
      refine ⟨[], within, ?_, ?_⟩
      · simp [Behind.cursor, Cursor.next, nothing]
      · have stands : (behind.alone.cursor []).next = behind.alone.cursor [] := by
          simp [Behind.cursor, Cursor.next, behind.alone_open nothing]
        exact congrArg (EStateM.Result.ok ()) stands
  | cons token rest =>
      exact pass_confined _ ⟨within, token, rfl, passable.2 token rfl⟩ value cursor done

theorem starts_front {behind : Behind} {run : List Token}
    (starts : starts (behind.cursor run) = true) :
    ∃ token ∈ run.head?, token.kind = .keyword .MATCH ∨ token.kind = .keyword .ON := by
  simp only [ReferenceClause.starts, Bool.or_eq_true, Bool.and_eq_true,
    Behind.seesWord_iff] at starts
  rcases starts with ⟨token, front, kind⟩ | ⟨⟨token, front, kind⟩, _⟩
  · exact ⟨token, front, .inl kind⟩
  · exact ⟨token, front, .inr kind⟩

theorem read_confined {behind : Behind} {depth : Nat} :
    Confined behind
      (fun run => Within behind depth run ∧ starts (behind.cursor run) = true)
      read fun _ => Within behind depth := by
  rw [read]
  have no_border (behind : Behind) : behind.border.kind ≠ .keyword .MATCH :=
    border_ne_keyword .MATCH behind.border_isBorder
  refine (eat_confined (.keyword .MATCH) fun _ => ⟨no_border _, no_border _⟩).bind fun found =>
    .ite (fun matched => ?_) fun not_matched => ?_
  · subst matched
    refine (discard_advance_passable.strengthen ?_).bind fun _ => .pure fun _ within => within
    rintro run ⟨token, ⟨within, _⟩, kind⟩
    have plain := Token.not_isBorder_of_keyword (Token.keyword?_eq_some_iff.mpr kind)
    obtain ⟨passable, later⟩ := within.inside.behind_plain plain
    exact ⟨⟨within.shut, later⟩, passable kind⟩
  · rw [Bool.not_eq_true] at not_matched
    subst not_matched
    have action : StaysFrom (do
        discard advance
        if ← eatWord .DELETE then return ReferenceClause.onDelete (← ReferentialAction.read)
        expectWord .UPDATE
        return ReferenceClause.onUpdate (← ReferentialAction.read)) := by
      refine ((eatWord_stays .DELETE).bind fun _ => .ite ?_ ?_).passing
      · exact ReferentialAction.read_stays.clause _
      · exact (expectWord_stays .UPDATE).bind fun _ => ReferentialAction.read_stays.clause _
    refine (action behind depth).strengthen ?_
    rintro run ⟨⟨within, on⟩, other⟩
    obtain ⟨token, front, kind⟩ := starts_front on
    refine ⟨within, token, front, ?_⟩
    exact Token.not_isBorder_of_keyword
      (Token.keyword?_eq_some_iff.mpr (kind.resolve_left (other token front)))

theorem read_on_fails {behind : Behind} {token : Token} (kind : token.kind = .keyword .ON)
    (value : ReferenceClause) (cursor : Cursor) :
    read (behind.cursor [token]) ≠ .ok value cursor := by
  have no_word (word : Keyword) : (behind.cursor []).seesWord word = false := by
    simp [Bool.eq_false_iff, Behind.seesWord_iff]
  intro done
  have not_match : eatWord .MATCH (behind.cursor [token]) = .ok false (behind.cursor [token]) := by
    simp [eatWord, eat, Cursor.sees, kind]
  have passed : discard advance (behind.cursor [token]) = .ok () (behind.cursor []) := rfl
  have not_delete : eatWord .DELETE (behind.cursor []) = .ok false (behind.cursor []) := by
    have absent := no_word .DELETE
    simp only [Cursor.seesWord] at absent
    simp [eatWord, eat, absent]
  rw [read, bind_of_ok not_match, if_neg (by decide), bind_of_ok passed, bind_of_ok not_delete,
    if_neg (by decide)] at done
  obtain ⟨_, middle, expected, _⟩ := ok_of_bind_ok done
  obtain ⟨_, found⟩ := ok_of_discard_ok expected
  have sees : (behind.cursor []).seesWord .UPDATE = true := by
    simpa [Cursor.seesWord, Cursor.sees] using (expect_ok found).1
  exact absurd sees (by simp [no_word])

/-- ON may be followed by the border only where no clause can be read. -/
theorem starts_alone {behind : Behind} {run : List Token} {value : ReferenceClause}
    {cursor : Cursor} (starts : starts (behind.cursor run) = true)
    (done : read (behind.cursor run) = .ok value cursor) :
    ReferenceClause.starts (behind.alone.cursor run) = true := by
  match run with
  | [] =>
      obtain ⟨token, front, _⟩ := starts_front starts
      simp at front
  | [token] =>
      obtain ⟨first, front, kinds⟩ := starts_front starts
      obtain rfl : token = first := by simpa using front
      rcases kinds with kind | kind
      · simp [ReferenceClause.starts, Cursor.seesWord, Cursor.sees, kind]
      · exact absurd done (read_on_fails kind value cursor)
  | token :: next :: rest =>
      have same := @Behind.peeksWord_alone behind (token :: next :: rest) 2 (by simp)
      simpa only [ReferenceClause.starts, Behind.seesWord_alone, same] using starts

theorem starts_of_alone {behind : Behind} {run : List Token}
    (starts : ReferenceClause.starts (behind.alone.cursor run) = true) :
    ReferenceClause.starts (behind.cursor run) = true := by
  match run with
  | [] =>
      obtain ⟨token, front, _⟩ := starts_front starts
      simp at front
  | [token] =>
      simp only [ReferenceClause.starts, Behind.seesWord_alone] at starts ⊢
      have nothing (word : Keyword) : (behind.alone.cursor [token]).peeksWord 2 word = false := by
        have close : (behind.alone.cursor [token]).peek 2 = behind.alone.close := by
          simp only [Cursor.peek, Behind.cursor, Behind.alone]
          split <;> rfl
        simp [Cursor.peeksWord, close, behind.alone.ended]
      simp only [nothing, Bool.or_self, Bool.and_false, Bool.or_false] at starts
      simp only [starts, Bool.true_or]
  | token :: next :: rest =>
      have same := @Behind.peeksWord_alone behind (token :: next :: rest) 2 (by simp)
      simpa only [ReferenceClause.starts, Behind.seesWord_alone, same] using starts

theorem readList_stays : Stays (many starts read) := by
  intro behind depth
  rw [many]
  refine (foldWhile_confined ?_ ?_ ?_ []).bind fun _ => .pure fun _ within => within
  · exact fun run _ => starts_of_alone
  · intro seen run value cursor _ on done
    obtain ⟨clause, middle, first, _⟩ := ok_of_bind_ok done
    exact starts_alone on first
  · exact fun seen => read_confined.bind fun clause => .pure fun _ within => within

end ReferenceClause

theorem Reference.read_stays : Stays Reference.read := by
  rw [Reference.read]
  apply (expectWord_stays .REFERENCES).bind
  intro _
  apply qualifiedName_stays.bind
  intro _
  apply KeyPart.readList_stays.bind
  intro columns
  exact ReferenceClause.readList_stays.bind fun _ => .pure _

end SchemaDrift
