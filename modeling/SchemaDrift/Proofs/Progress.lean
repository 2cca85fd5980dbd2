import Mathlib.Logic.Function.Iterate
import Mathlib.Order.Monotone.Defs
import SchemaDrift.Proofs.Forward
import SchemaDrift.Proofs.Parts

/-!
Reading tables goes forwards and ends. Behind the last token the cursor stands still, so a loop that
goes on while a test holds might go on forever. `Repeats` is such a loop, with nothing else to end
it, and `Grammar.Loop` lists those of the grammar with the reading that stands for each. They end as
computed: their tests fail at an end of input, and a pass that does not fail takes a token.
-/

namespace SchemaDrift

open Reading

def Cursor.Ended (cursor : Cursor) : Prop :=
  cursor.close.kind = .endOfInput

/-- The second cursor stands at the place of the first or behind it. -/
structure Cursor.Onto (before after : Cursor) : Prop where
  source : after.source = before.source
  close : after.close = before.close
  ahead : after.ahead <:+ before.ahead

namespace Cursor

variable {before middle after cursor : Cursor}

theorem Onto.refl (cursor : Cursor) : cursor.Onto cursor :=
  ⟨rfl, rfl, List.suffix_rfl⟩

theorem Onto.trans (first : before.Onto middle) (second : middle.Onto after) : before.Onto after :=
  ⟨second.source.trans first.source, second.close.trans first.close, second.ahead.trans first.ahead⟩

theorem Onto.ended (onto : before.Onto after) (ended : before.Ended) : after.Ended := by
  rw [Ended, onto.close]
  exact ended

theorem next_shorter (ended : cursor.Ended) (inside : cursor.current.kind ≠ .endOfInput) :
    cursor.next.ahead.length < cursor.ahead.length := by
  obtain ⟨source, ahead, close⟩ := cursor
  cases ahead with
  | nil => exact absurd ended inside
  | cons token rest => exact Nat.lt_succ_self rest.length

theorem inside_of_sees {kind : TokenKind} (sees : cursor.sees kind = true)
    (real : kind ≠ .endOfInput) : cursor.current.kind ≠ .endOfInput := by
  rwa [eq_of_beq sees]

theorem inside_of_seesWord {word : Keyword} (sees : cursor.seesWord word = true) :
    cursor.current.kind ≠ .endOfInput :=
  inside_of_sees sees (by simp)

theorem atStatementEnd_iff : cursor.atStatementEnd = true ↔
    cursor.current.kind = .semicolon ∨ cursor.current.kind = .endOfInput := by
  rw [atStatementEnd]
  cases cursor.current.kind <;> simp

end Cursor

namespace Reading

/-- A loop: while the test holds, one pass more. Nothing is asked of a pass. -/
inductive Repeats {σ : Type} (more : σ → Cursor → Bool) (step : σ → Reading σ) :
    σ → Cursor → EStateM.Result SyntaxError Cursor σ → Prop where
  | ended {state : σ} {cursor : Cursor} (stop : more state cursor = false) :
      Repeats more step state cursor (.ok state cursor)
  | fails {state : σ} {cursor after : Cursor} {error : SyntaxError}
      (goes : more state cursor = true) (fails : step state cursor = .error error after) :
      Repeats more step state cursor (.error error after)
  | again {state next : σ} {cursor after : Cursor} {result : EStateM.Result SyntaxError Cursor σ}
      (goes : more state cursor = true) (pass : step state cursor = .ok next after)
      (later : Repeats more step next after result) : Repeats more step state cursor result

theorem Repeats.stopped {σ : Type} {more : σ → Cursor → Bool} {step : σ → Reading σ}
    {state last : σ} {cursor after : Cursor}
    (loop : Repeats more step state cursor (.ok last after)) : more last after = false := by
  generalize ended : EStateM.Result.ok last after = result at loop
  induction loop with
  | ended stop =>
      obtain ⟨rfl, rfl⟩ := EStateM.Result.ok.inj ended
      exact stop
  | fails => contradiction
  | again _ _ _ ih => exact ih ended

theorem Uniform.onto {α : Type} {reading : Reading α} (uniform : Uniform reading) {cursor : Cursor}
    (ended : cursor.Ended) : cursor.Onto (reading.outcome cursor).2 := by
  have dropped (count : Nat) : cursor.Onto (cursor.twins.drop count).left := by
    rw [cursor.twins_drop]
    exact ⟨rfl, rfl, List.drop_suffix count cursor.ahead⟩
  have results := uniform _ cursor.twins (cursor.twins_alike ended)
  rw [cursor.twins_left] at results
  rw [outcome]
  generalize reading cursor = result at results
  generalize reading cursor.twins.right = beside at results
  cases results with
  | ok count _ => exact dropped count
  | error count _ _ => exact dropped count

theorem Uniform.onto_of_ok {α : Type} {reading : Reading α} (uniform : Uniform reading)
    {cursor after : Cursor} {value : α} (ended : cursor.Ended)
    (done : reading cursor = .ok value after) : cursor.Onto after := by
  have onto := uniform.onto ended
  rwa [outcome, done] at onto

/-- In front of a token, the reading fails or takes at least that one. -/
def Consumes {α : Type} (reading : Reading α) : Prop :=
  ∀ cursor : Cursor, cursor.Ended → cursor.current.kind ≠ .endOfInput →
    ∀ value after, reading cursor = .ok value after →
      cursor.Onto after ∧ after.ahead.length < cursor.ahead.length

namespace Consumes

variable {α β : Type} {reading : Reading α} {next : α → Reading β}

theorem bind (consumes : Consumes reading) (later : ∀ value, Uniform (next value)) :
    Consumes (reading >>= next) := by
  intro cursor ended inside value after done
  obtain ⟨first, middle, read, rest⟩ := ok_of_bind_ok done
  obtain ⟨onto, less⟩ := consumes cursor ended inside first middle read
  have further := (later first).onto_of_ok (onto.ended ended) rest
  exact ⟨onto.trans further, further.ahead.length_le.trans_lt less⟩

theorem taken {cursor : Cursor} (ended : cursor.Ended) (inside : cursor.current.kind ≠ .endOfInput) :
    cursor.Onto cursor.next ∧ cursor.next.ahead.length < cursor.ahead.length :=
  ⟨⟨rfl, rfl, List.tail_suffix cursor.ahead⟩, Cursor.next_shorter ended inside⟩

theorem advance : Consumes advance := by
  intro cursor ended inside value after done
  obtain ⟨-, rfl⟩ := EStateM.Result.ok.inj done
  exact taken ended inside

theorem discard (consumes : Consumes reading) : Consumes (Functor.discard reading) :=
  consumes.bind fun _ => .pure _

theorem expect (kind : TokenKind) : Consumes (expect kind) := by
  intro cursor ended inside value after done
  obtain ⟨-, -, rfl⟩ := expect_ok done
  exact taken ended inside

theorem expectWord (word : Keyword) : Consumes (expectWord word) :=
  (expect (.keyword word)).discard

theorem look {view : Cursor → α} (later : ∀ value, Consumes (next value)) :
    Consumes (Reading.look view >>= next) :=
  fun cursor => later _ cursor

theorem current {next : Token → Reading β} (later : ∀ token, Consumes (next token)) :
    Consumes (Reading.current >>= next) :=
  fun cursor => later _ cursor

theorem ite {condition : Prop} [Decidable condition] {yes no : Reading α} (one : Consumes yes)
    (other : Consumes no) : Consumes (if condition then yes else no) := by
  split
  · exact one
  · exact other

theorem ifEat {kind : TokenKind} {yes no : Reading α} (found : Uniform yes) (missed : Consumes no) :
    Consumes (eat kind >>= fun seen => if seen = true then yes else no) := by
  intro cursor ended inside value after done
  by_cases sees : cursor.sees kind = true
  · have eaten : eat kind cursor = .ok true cursor.next := if_pos sees
    rw [bind_of_ok eaten] at done
    obtain ⟨onto, less⟩ := taken ended inside
    have further := found.onto_of_ok (onto.ended ended) done
    exact ⟨onto.trans further, further.ahead.length_le.trans_lt less⟩
  · have left : eat kind cursor = .ok false cursor := if_neg sees
    rw [bind_of_ok left] at done
    exact missed cursor ended inside value after done

theorem another (later : Uniform reading) :
    Consumes (Functor.discard Reading.advance >>= fun _ => reading) :=
  advance.discard.bind fun _ => later

theorem skipAny : Consumes skipAny :=
  .look fun _ => .ite (.another group_uniform) advance.discard

end Consumes

/-- Each pass of a loop fails or takes a token, so the loop is as computed: by induction on the tokens
that are left. -/
theorem foldWhile_repeats {σ : Type} {more : Cursor → Bool} {step : σ → Reading σ}
    (consumes : ∀ state (cursor : Cursor), cursor.Ended → more cursor = true →
      ∀ next after, step state cursor = .ok next after →
        cursor.Onto after ∧ after.ahead.length < cursor.ahead.length)
    (state : σ) (cursor : Cursor) (ended : cursor.Ended) :
    Repeats (fun _ => more) step state cursor (foldWhile more step state cursor) := by
  generalize bound : cursor.ahead.length = length
  induction length using Nat.strongRecOn generalizing state cursor with
  | ind length ih =>
      subst bound
      rw [foldWhile]
      split
      next goes =>
        split
        next next after pass =>
          obtain ⟨onto, less⟩ := consumes state cursor ended goes next after pass
          rw [dif_pos less]
          exact .again goes pass (ih _ less next after (onto.ended ended) rfl)
        next error after fails => exact .fails goes fails
      next stop => exact .ended (by simpa using stop)

theorem items_repeat {α : Type} {more : Cursor → Bool} {item : Reading α} (consumes : Consumes item)
    (inside : ∀ cursor, more cursor = true → cursor.current.kind ≠ .endOfInput)
    (seen : List α) (cursor : Cursor) (ended : cursor.Ended) :
    Repeats (fun _ => more) (fun seen => do return (← item) :: seen) seen cursor
      (foldWhile more (fun seen => do return (← item) :: seen) seen cursor) :=
  foldWhile_repeats
    (fun _ cursor ended goes => (consumes.bind fun _ => .pure _) cursor ended (inside cursor goes))
    seen cursor ended

theorem many_stopped {α : Type} {more : Cursor → Bool} {item : Reading α} (consumes : Consumes item)
    (inside : ∀ cursor, more cursor = true → cursor.current.kind ≠ .endOfInput)
    {cursor after : Cursor} {items : List α} (ended : cursor.Ended)
    (done : many more item cursor = .ok items after) : more after = false := by
  obtain ⟨seen, middle, read, rest⟩ := ok_of_bind_ok done
  obtain ⟨-, rfl⟩ := EStateM.Result.ok.inj rest
  have loop := items_repeat consumes inside [] cursor ended
  rw [read] at loop
  exact loop.stopped

theorem skipTo_repeats {stop : TokenKind → Bool} (covers : stop .endOfInput = true) (cursor : Cursor)
    (ended : cursor.Ended) :
    Repeats (fun _ cursor => !stop cursor.current.kind) (fun _ => discard advance) () cursor
      (skipTo stop cursor) := by
  obtain ⟨source, tokens, close⟩ := cursor
  induction tokens with
  | nil => exact .ended (by simpa [Cursor.current, show close.kind = .endOfInput from ended])
  | cons token rest ih =>
      by_cases stops : stop token.kind = true
      · have here : Repeats (fun _ cursor => !stop cursor.current.kind) (fun _ => discard advance) ()
            ⟨source, token :: rest, close⟩ (.ok () ⟨source, token :: rest, close⟩) :=
          .ended (by simpa [Cursor.current] using stops)
        simpa [skipTo, List.dropWhile_cons, stops] using here
      · have passed := ih ended
        refine .again (by simpa [Cursor.current] using stops) discard_advance ?_
        simpa [skipTo, List.dropWhile_cons, stops] using passed

/-- What one token makes of a group: how many parentheses are open beyond the first, the commas
directly inside it, the latest first, and the token that has ended it. -/
def groupToken (depth : Nat) (commas : List Token) (token : Token) :
    Nat × List Token × Option Token :=
  match token.kind, depth with
  | .leftParen, depth => (depth + 1, commas, none)
  | .rightParen, 0 => (0, commas, some token)
  | .rightParen, depth + 1 => (depth, commas, none)
  | .endOfInput, _ => (0, commas, some token)
  | .comma, 0 => (0, token :: commas, none)
  | _, depth => (depth, commas, none)

theorem group_repeats (source : List Char) {close : Token} (ended : close.kind = .endOfInput)
    (tokens : List Token) (depth : Nat) (commas : List Token) :
    let found := Group.read close depth tokens
    Repeats (fun state _ => state.2.2.isNone)
      (fun state => do return groupToken state.1 state.2.1 (← advance)) (depth, commas, none)
      ⟨source, tokens, close⟩
      (.ok (0, found.commas.reverse ++ commas, some found.last) ⟨source, found.behind, close⟩) := by
  induction tokens generalizing depth commas with
  | nil =>
      refine .again rfl ?_ (.ended rfl)
      have token : groupToken depth commas close = (0, commas, some close) := by
        simp [groupToken, ended]
      exact congrArg (EStateM.Result.ok · _) token
  | cons token rest ih =>
      have pass {next : Nat × List Token × Option Token} (made : groupToken depth commas token = next) :
          (do return groupToken depth commas (← advance) : Reading _) ⟨source, token :: rest, close⟩ =
            .ok next ⟨source, rest, close⟩ :=
        congrArg (EStateM.Result.ok · _) made
      rw [Group.read_cons]
      split
      next kind => exact .again rfl (pass (by simp [groupToken, kind])) (ih (depth + 1) commas)
      split
      next kind =>
        cases depth with
        | zero => exact .again rfl (pass (by simp [groupToken, kind])) (.ended rfl)
        | succ depth => exact .again rfl (pass (by simp [groupToken, kind])) (ih depth commas)
      split
      next kind => exact .again rfl (pass (by simp [groupToken, kind])) (.ended rfl)
      split
      next comma =>
        obtain ⟨kind, rfl⟩ := comma
        have made : groupToken 0 commas token = (0, token :: commas, none) := by
          simp [groupToken, kind]
        refine .again rfl (pass made) ?_
        simpa using ih 0 (token :: commas)
      next not_opening not_closing not_end not_comma =>
        refine .again rfl (pass ?_) (ih depth commas)
        unfold groupToken
        split <;> simp_all

def followsOn (stop : Nat) (cursor : Cursor) : Bool :=
  (cursor.sees .identifier || cursor.sees .number) && cursor.current.span.start == stop

theorem follow_repeats (cursor : Cursor) (ended : cursor.Ended) (stop : Nat) :
    let found := Token.follow stop cursor.ahead
    Repeats followsOn (fun _ => do return (← advance).span.stop) stop cursor
      (.ok found.1 { cursor with ahead := found.2 }) := by
  obtain ⟨source, tokens, close⟩ := cursor
  have kind : close.kind = .endOfInput := ended
  clear ended
  induction tokens generalizing stop with
  | nil => exact .ended (by simp [followsOn, Cursor.sees, Cursor.current, kind])
  | cons token rest ih =>
      rw [Token.follow]
      split
      next follows =>
        refine .again ?_ rfl (ih token.span.stop)
        simpa [followsOn, Cursor.sees, Cursor.current] using follows
      next apart =>
        refine .ended ?_
        simpa [followsOn, Cursor.sees, Cursor.current] using apart

end Reading

theorem ReferenceClause.read_consumes : Consumes ReferenceClause.read := by
  refine .ifEat (discard_advance_uniform.bind fun _ => .pure _) (.another ?_)
  refine (eatWord_uniform _).bind fun _ => .ite (ReferentialAction.read_uniform.clause _) ?_
  exact (expectWord_uniform _).bind fun _ => ReferentialAction.read_uniform.clause _

theorem ReferenceClause.inside_of_starts {cursor : Cursor} (starts : starts cursor = true) :
    cursor.current.kind ≠ .endOfInput := by
  simp only [ReferenceClause.starts, Bool.or_eq_true, Bool.and_eq_true] at starts
  rcases starts with sees | ⟨sees, _⟩
  · exact Cursor.inside_of_seesWord sees
  · exact Cursor.inside_of_seesWord sees

theorem GeneratedColumn.read_consumes : Consumes GeneratedColumn.read := by
  obtain ⟨later, uniform, same⟩ := GeneratedColumn.readBody_later
  rw [GeneratedColumn.read_eq, same]
  have body : Uniform (expectWord .AS >>= fun _ => later) :=
    (expectWord_uniform _).bind fun _ => uniform
  exact .ifEat ((expectWord_uniform _).bind fun _ => body)
    ((Consumes.expectWord _).bind fun _ => uniform)

theorem ColumnClause.read_consumes : Consumes ColumnClause.read := by
  refine .current fun token => ?_
  split
  next word _ =>
    rcases ColumnClause.readFrom_later word with ⟨later, uniform, same⟩ | same | same | same
    · rw [same]
      exact .another uniform
    · rw [same]
      exact GeneratedColumn.read_consumes.bind fun _ => .pure _
    · rw [same]
      obtain ⟨later, uniform, same⟩ := Reference.read_later
      rw [same]
      exact ((Consumes.expectWord _).bind fun _ => uniform).bind fun _ => .pure _
    · rw [same]
      obtain ⟨later, uniform, same⟩ := Check.read_later none
      rw [same]
      exact ((Consumes.expectWord _).bind fun _ => uniform).bind fun _ => .pure _
  next => exact Consumes.skipAny.bind fun _ => .pure _

theorem IndexClause.read_consumes : Consumes IndexClause.read := by
  refine .current fun token => ?_
  split
  · exact .another (IndexClause.readFrom_uniform _)
  · exact Consumes.skipAny.bind fun _ => .pure _

theorem PartitionClause.read_consumes : Consumes PartitionClause.read := by
  refine .current fun token => ?_
  split
  · exact .another (PartitionClause.readFrom_uniform _)
  · exact Consumes.skipAny.bind fun _ => .pure _

theorem TableOptionClause.read_consumes : Consumes TableOptionClause.read := by
  refine Consumes.advance.bind fun token => ?_
  split
  · exact .ite (.pure _) (TableOptionClause.readFrom_uniform _)
  · exact .pure _

theorem TableOptions.inside_of_not_atEnd {cursor : Cursor} (goes : (!atEnd cursor) = true) :
    cursor.current.kind ≠ .endOfInput := by
  intro ended
  simp [atEnd, Cursor.atStatementEnd, ended] at goes

theorem DataType.readModifier_consumes (type : DataType) (cursor : Cursor) (ended : cursor.Ended)
    (goes : (cursor.seesWord .UNSIGNED || cursor.seesWord .ZEROFILL) = true) (next : DataType)
    (after : Cursor) (done : readModifier type cursor = .ok next after) :
    cursor.Onto after ∧ after.ahead.length < cursor.ahead.length := by
  rw [readModifier] at done
  by_cases unsigned : cursor.seesWord .UNSIGNED = true
  · have eaten : eatWord .UNSIGNED cursor = .ok true cursor.next := if_pos unsigned
    rw [bind_of_ok eaten] at done
    obtain ⟨-, rfl⟩ := EStateM.Result.ok.inj done
    exact Consumes.taken ended (Cursor.inside_of_seesWord unsigned)
  · have zerofill : cursor.seesWord .ZEROFILL = true := by simpa [unsigned] using goes
    have left : eatWord .UNSIGNED cursor = .ok false cursor := if_neg unsigned
    have eaten : eatWord .ZEROFILL cursor = .ok true cursor.next := if_pos zerofill
    have discarded : Functor.discard (eatWord .ZEROFILL) cursor = .ok () cursor.next :=
      bind_of_ok eaten fun _ => pure ()
    rw [bind_of_ok left] at done
    have only : (Functor.discard (eatWord .ZEROFILL) >>= fun _ =>
      pure { type with zerofill := true }) cursor = .ok next after := done
    rw [bind_of_ok discarded] at only
    obtain ⟨-, rfl⟩ := EStateM.Result.ok.inj only
    exact Consumes.taken ended (Cursor.inside_of_seesWord zerofill)

namespace Grammar

inductive Item : {α : Type} → (Cursor → Bool) → Reading α → Prop where
  | name : Item (·.sees .comma) (do discard advance; name .columnName)
  | keyPart : Item (·.sees .comma) (do discard advance; KeyPart.read)
  | partition : Item (·.sees .comma) (do discard advance; Partition.read)
  | parameter : Item (fun cursor => cursor.sees .comma && (cursor.peek 1).kind != .rightParen)
      (do discard advance; DataType.readParameter)
  | columnClause : Item (!·.atElementEnd) ColumnClause.read
  | indexClause : Item (!·.atElementEnd) IndexClause.read
  | partitionClause : Item (!·.atElementEnd) PartitionClause.read
  | referenceClause : Item ReferenceClause.starts ReferenceClause.read
  | tableOption : Item (!TableOptions.atEnd ·) TableOptionClause.read

/-- The loops over elements, over the words behind a type, and over items: the test, one pass, and what
they start with. -/
inductive Round : {σ : Type} → (Cursor → Bool) → (σ → Reading σ) → σ → Prop where
  | elements (first : List Element) :
      Round (·.sees .comma) (fun seen => do discard advance; Element.readMore seen) first
  | modifiers (type : DataType) :
      Round (fun cursor => cursor.seesWord .UNSIGNED || cursor.seesWord .ZEROFILL)
        DataType.readModifier type
  | items {α : Type} {more : Cursor → Bool} {item : Reading α} (listed : Item more item) :
      Round more (fun seen => do return (← item) :: seen) []

/-- Where skipping stops: in front of subpartitions, and behind partitions. -/
inductive Stop : (TokenKind → Bool) → Prop where
  | subpartitions : Stop fun kind => kind == .endOfInput || kind == .semicolon || kind == .leftParen
  | statement : Stop fun kind => kind == .endOfInput || kind == .semicolon

/-- All loops of the grammar, each with the reading that stands for it; any other recursion of a reader
goes along a list. -/
inductive Loop : {σ : Type} → (σ → Cursor → Bool) → (σ → Reading σ) → σ → Reading σ → Prop where
  | rounds {σ : Type} {more : Cursor → Bool} {step : σ → Reading σ} {first : σ}
      (round : Round more step first) : Loop (fun _ => more) step first (foldWhile more step first)
  | skipping {stop : TokenKind → Bool} (stops : Stop stop) :
      Loop (fun _ cursor => !stop cursor.current.kind) (fun _ => discard advance) () (skipTo stop)
  | group :
      Loop (fun state _ => state.2.2.isNone)
        (fun state => do return groupToken state.1 state.2.1 (← advance)) (0, [], none)
        (do let group ← group; return (0, group.commas.reverse, some group.last))
  | number (stop : Nat) :
      Loop followsOn (fun _ => do return (← advance).span.stop) stop fun cursor =>
        .ok (Token.follow stop cursor.ahead).1
          { cursor with ahead := (Token.follow stop cursor.ahead).2 }

theorem Item.consumes {α : Type} {more : Cursor → Bool} {item : Reading α} (listed : Item more item) :
    Consumes item := by
  cases listed with
  | name => exact .another (name_uniform _)
  | keyPart => exact .another KeyPart.read_uniform
  | partition => exact .another Partition.read_uniform
  | parameter => exact .another DataType.readParameter_uniform
  | columnClause => exact ColumnClause.read_consumes
  | indexClause => exact IndexClause.read_consumes
  | partitionClause => exact PartitionClause.read_consumes
  | referenceClause => exact ReferenceClause.read_consumes
  | tableOption => exact TableOptionClause.read_consumes

theorem Item.inside {α : Type} {more : Cursor → Bool} {item : Reading α} (listed : Item more item)
    (cursor : Cursor) (goes : more cursor = true) : cursor.current.kind ≠ .endOfInput := by
  have in_element (goes : (!cursor.atElementEnd) = true) : cursor.current.kind ≠ .endOfInput := by
    intro ended
    simp [Cursor.atElementEnd, ended] at goes
  cases listed with
  | name | keyPart | partition => exact Cursor.inside_of_sees goes (by simp)
  | parameter =>
      rw [Bool.and_eq_true] at goes
      exact Cursor.inside_of_sees goes.1 (by simp)
  | columnClause | indexClause | partitionClause => exact in_element goes
  | referenceClause => exact ReferenceClause.inside_of_starts goes
  | tableOption => exact TableOptions.inside_of_not_atEnd goes

theorem Round.repeats {σ : Type} {more : Cursor → Bool} {step : σ → Reading σ} {first : σ}
    (round : Round more step first) (cursor : Cursor) (ended : cursor.Ended) :
    Repeats (fun _ => more) step first cursor (foldWhile more step first cursor) := by
  cases round with
  | elements =>
      refine foldWhile_repeats (fun seen cursor ended sees => ?_) _ _ ended
      exact Consumes.another (Element.readMore_uniform seen) cursor ended
        (Cursor.inside_of_sees sees (by simp))
  | modifiers => exact foldWhile_repeats DataType.readModifier_consumes _ _ ended
  | items listed => exact items_repeat listed.consumes listed.inside [] cursor ended

/-- Every loop of the grammar ends, and as computed. -/
theorem Loop.repeats {σ : Type} {more : σ → Cursor → Bool} {step : σ → Reading σ} {first : σ}
    {reading : Reading σ} (loop : Loop more step first reading) (cursor : Cursor)
    (ended : cursor.Ended) : Repeats more step first cursor (reading cursor) := by
  cases loop with
  | rounds round => exact round.repeats cursor ended
  | skipping stops => exact skipTo_repeats (by cases stops <;> rfl) cursor ended
  | group =>
      have passed := group_repeats cursor.source ended cursor.ahead 0 []
      simp only [List.append_nil] at passed
      exact passed
  | number stop => exact follow_repeats cursor ended stop

end Grammar

theorem TableOptions.read?_stops {cursor after : Cursor} {options : Option TableOptions}
    (ended : cursor.Ended) (done : TableOptions.read? cursor = .ok options after) :
    atEnd after = true := by
  obtain ⟨clauses, _, listed, made⟩ := ok_of_bind_ok done
  obtain ⟨-, rfl⟩ := EStateM.Result.ok.inj made
  have stops := many_stopped TableOptionClause.read_consumes (fun _ => inside_of_not_atEnd) ended
    listed
  simpa using stops

namespace Reading

def ReadsOut {α : Type} (reading : Reading α) : Prop :=
  ∀ cursor : Cursor, cursor.Ended → ∀ value after, reading cursor = .ok value after →
    after.atStatementEnd = true

namespace ReadsOut

variable {α β : Type} {reading : Reading α} {next : α → Reading β}

theorem behind (start : Uniform reading) (later : ∀ value, ReadsOut (next value)) :
    ReadsOut (reading >>= next) := by
  intro cursor ended value after done
  obtain ⟨first, middle, read, rest⟩ := ok_of_bind_ok done
  exact later first middle ((start.onto_of_ok ended read).ended ended) value after rest

theorem clause (out : ReadsOut reading) (make : α → β) : ReadsOut (do return make (← reading)) := by
  intro cursor ended value after done
  obtain ⟨first, middle, read, rest⟩ := ok_of_bind_ok done
  obtain ⟨-, rfl⟩ := EStateM.Result.ok.inj rest
  exact out cursor ended first _ read

theorem ite {condition : Prop} [Decidable condition] {first second : Reading α}
    (one : ReadsOut first) (other : ReadsOut second) :
    ReadsOut (if condition then first else second) := by
  split
  · exact one
  · exact other

end ReadsOut

theorem skipTo_readsOut : ReadsOut (skipTo fun kind => kind == .endOfInput || kind == .semicolon) := by
  rintro ⟨source, ahead, close⟩ ended value after done
  obtain ⟨-, rfl⟩ := EStateM.Result.ok.inj done
  clear done
  have kind : close.kind = .endOfInput := ended
  induction ahead with
  | nil => simp [Cursor.atStatementEnd, Cursor.current, kind]
  | cons token rest ih =>
      rw [List.dropWhile_cons]
      split
      next => exact ih ended
      next stops =>
        rw [Bool.not_eq_true, Bool.not_eq_false', Bool.or_eq_true, beq_iff_eq, beq_iff_eq] at stops
        rcases stops with kind | kind <;> simp [Cursor.atStatementEnd, Cursor.current, kind]

end Reading

theorem Partitioning.read_readsOut : ReadsOut Partitioning.read := by
  have sees : Uniform (look (·.sees .leftParen)) := look_uniform (Cursor.sees_shared .leftParen)
  have definitions (define : List Partition → Partitioning) : ReadsOut (readDefinitions define) := by
    refine .behind sees fun _ => .ite (.behind Partition.readList_uniform fun _ => ?_)
      (.behind (.pure _) fun _ => ?_)
    · exact skipTo_readsOut.clause _
    · exact skipTo_readsOut.clause _
  refine .behind (expectWord_uniform _) fun _ => .behind (expectWord_uniform _) fun _ => ?_
  refine .behind (eatWord_uniform _) fun linear => .behind readMethod_uniform fun method => ?_
  refine .behind (readTarget_uniform method) fun target => .behind (eatWord_uniform _) fun _ => ?_
  refine .ite (.behind (unsignedInteger_uniform.map some) fun count => ?_)
    (.behind (.pure none) fun count => ?_)
  all_goals
    refine .behind (eatWord_uniform _) fun _ => .ite (.behind skipSubpartitions_uniform fun _ => ?_) ?_
    all_goals exact definitions fun partitions =>
      { method, linear, expression := target.1, columns := target.2, count, partitions }

namespace Table

theorem readSettings_readsOut : ReadsOut readSettings := by
  intro cursor ended value after done
  obtain ⟨options, middle, first, rest⟩ := ok_of_bind_ok done
  have onto := TableOptions.read?_uniform.onto_of_ok ended first
  by_cases partitioned : middle.seesWord .PARTITION = true
  · have out : ReadsOut (do return (options, ← some <$> Partitioning.read)) :=
      (Partitioning.read_readsOut.clause some).clause _
    refine out middle (onto.ended ended) value after ?_
    rw [← rest]
    exact (congrFun (if_pos partitioned) middle).symm
  · have none : (pure (options, none) : Reading Settings) middle = .ok value after := by
      rw [← rest]
      exact (congrFun (if_neg partitioned) middle).symm
    obtain ⟨-, rfl⟩ := EStateM.Result.ok.inj none
    have stops := TableOptions.read?_stops ended first
    simpa [TableOptions.atEnd, partitioned] using stops

theorem read_readsOut : ReadsOut Table.read := by
  rw [read_eq]
  refine .behind TableHeading.read_uniform fun _ => .behind (discard_expect_uniform _) fun _ => ?_
  refine .behind Element.readList_uniform fun _ => .behind (discard_expect_uniform _) fun _ => ?_
  exact readSettings_readsOut.clause _

theorem read_at_end {cursor : Cursor} (ends : cursor.atStatementEnd = true) :
    Table.read cursor = .error ⟨.token (.keyword .CREATE), cursor.current⟩ cursor := by
  have missed : expect (.keyword .CREATE) cursor =
      .error ⟨.token (.keyword .CREATE), cursor.current⟩ cursor := by
    refine if_neg fun sees => ?_
    simp [Cursor.atStatementEnd, eq_of_beq sees] at ends
  exact bind_of_error (bind_of_error (bind_of_error missed _) _) _

/-- The cursor behind a number of calls, each of which goes on where the one before it stopped. -/
def cursorAfter (calls : Nat) (start : Cursor) : Cursor :=
  (fun cursor => (Table.read.outcome cursor).2)^[calls] start

theorem readTimes_eq (calls : Nat) (start : Cursor) :
    readTimes calls start =
      (List.range calls).map fun call => Table.read.result (cursorAfter call start) := by
  induction calls generalizing start with
  | zero => rfl
  | succ calls ih =>
      have first : readTimes (calls + 1) start =
          Table.read.result start :: readTimes calls (Table.read.outcome start).2 := rfl
      rw [first, ih, List.range_succ_eq_map, List.map_cons, List.map_map]
      rfl

theorem cursorAfter_succ (calls : Nat) (start : Cursor) :
    cursorAfter (calls + 1) start = (Table.read.outcome (cursorAfter calls start)).2 :=
  Function.iterate_succ_apply' _ calls start

theorem cursorAfter_onto {start : Cursor} (ended : start.Ended) (calls more : Nat) :
    (cursorAfter calls start).Onto (cursorAfter (calls + more) start) := by
  have onto : ∀ calls, start.Onto (cursorAfter calls start) := by
    intro calls
    induction calls with
    | zero => exact .refl start
    | succ calls ih =>
        rw [cursorAfter_succ]
        exact ih.trans (read_uniform.onto (ih.ended ended))
  induction more with
  | zero => exact .refl _
  | succ more ih =>
      rw [← Nat.add_assoc, cursorAfter_succ]
      exact ih.trans (read_uniform.onto ((onto _).ended ended))

theorem cursorAfter_at_end {start : Cursor} {calls : Nat}
    (ends : (cursorAfter calls start).atStatementEnd = true) (more : Nat) :
    cursorAfter (calls + more) start = cursorAfter calls start := by
  induction more with
  | zero => rfl
  | succ more ih =>
      rw [← Nat.add_assoc, cursorAfter_succ, ih]
      simp only [Reading.outcome, read_at_end ends]

/-- Reading tables from any tokens ends, call after call. Every loop on the way ends of itself; the
cursor stays among the tokens and never goes back; and behind a table the statement has ended, where
no further call finds a table or moves. -/
theorem readTimes_forward (source : List Char) (tokens : List Token) :
    let start := Cursor.ofTokens source tokens
    (∀ {σ : Type} {more : σ → Cursor → Bool} {step : σ → Reading σ} {first : σ} {loop : Reading σ},
        Grammar.Loop more step first loop → ∀ cursor : Cursor, cursor.Ended →
          Repeats more step first cursor (loop cursor)) ∧
      (∀ calls, readTimes calls start =
        (List.range calls).map fun call => Table.read.result (cursorAfter call start)) ∧
      (∃ place : Nat → Nat, Monotone place ∧ place 0 = 0 ∧ ∀ calls,
        place calls ≤ start.ahead.length ∧
          cursorAfter calls start = { start with ahead := start.ahead.drop (place calls) }) ∧
      ∀ call table, Table.read.result (cursorAfter call start) = .ok table →
        let stop := cursorAfter (call + 1) start
        (stop.current.kind = .semicolon ∨ stop.current.kind = .endOfInput) ∧
          ∀ later, call < later → cursorAfter later start = stop ∧
            Table.read.outcome (cursorAfter later start) =
              (.error ⟨.token (.keyword .CREATE), stop.current⟩, stop) := by
  intro start
  have ended : start.Ended := Cursor.ofTokens_ended source tokens
  refine ⟨fun loop => loop.repeats, fun calls => readTimes_eq calls start, ?_, ?_⟩
  · have onto (calls : Nat) : start.Onto (cursorAfter calls start) := by
      simpa [cursorAfter] using cursorAfter_onto ended 0 calls
    refine ⟨fun calls => start.ahead.length - (cursorAfter calls start).ahead.length, ?_, ?_, ?_⟩
    · intro calls more fewer
      obtain ⟨further, rfl⟩ := Nat.exists_eq_add_of_le fewer
      exact Nat.sub_le_sub_left (cursorAfter_onto ended calls further).ahead.length_le _
    · exact Nat.sub_self _
    · intro calls
      refine ⟨Nat.sub_le _ _, ?_⟩
      obtain ⟨source, close, ahead⟩ := onto calls
      rw [← List.suffix_iff_eq_drop.mp ahead, ← source, ← close]
  · intro call table done stop
    obtain ⟨after, read⟩ := ok_of_result_ok done
    have onto : start.Onto (cursorAfter call start) := by
      simpa [cursorAfter] using cursorAfter_onto ended 0 call
    have ends : stop.atStatementEnd = true := by
      have stands : stop = after := by simp only [stop, cursorAfter_succ, Reading.outcome, read]
      rw [stands]
      exact read_readsOut _ (onto.ended ended) table after read
    refine ⟨Cursor.atStatementEnd_iff.mp ends, fun later behind => ?_⟩
    obtain ⟨more, rfl⟩ := Nat.exists_eq_add_of_le (Nat.succ_le_of_lt behind)
    rw [cursorAfter_at_end ends]
    have fails : Table.read stop = _ := read_at_end ends
    exact ⟨rfl, by simp only [Reading.outcome, stop, fails]⟩

example : (cursorAfter 3 (.ofText "CREATE TABLE t (a INT); CREATE TABLE u (b INT)")).current.kind =
    .semicolon := by
  decide +kernel

end Table

end SchemaDrift
