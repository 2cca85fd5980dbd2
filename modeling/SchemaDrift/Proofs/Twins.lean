import Mathlib.Data.List.Chain
import Mathlib.Data.List.GetD
import SchemaDrift.Reading.Column

/-!
Reading two statements in step. A reader sees of a token its kind and its text, and of the source
only what stands between some of its tokens. From two cursors that are alike in this it gives the
same value, or the same complaint about the token at the same place, and it stops at the same place.
-/

namespace SchemaDrift

/-- Tokens that differ in their places at most; `mark` is what else is to be known of two such
tokens. -/
structure Token.Like (mark : Token → Token → Prop) (first second : Token) : Prop where
  kind : first.kind = second.kind
  text : first.text = second.text
  marked : mark first second

/-- Two cursors in step: their sources, their tokens pair by pair, and their ends. -/
structure Twins where
  source : List Char × List Char
  ahead : List (Token × Token)
  close : Token × Token

namespace Twins

def left (twins : Twins) : Cursor :=
  ⟨twins.source.1, twins.ahead.map Prod.fst, twins.close.1⟩

def right (twins : Twins) : Cursor :=
  ⟨twins.source.2, twins.ahead.map Prod.snd, twins.close.2⟩

def drop (count : Nat) (twins : Twins) : Twins :=
  { twins with ahead := twins.ahead.drop count }

def current (twins : Twins) : Token × Token :=
  twins.ahead.headD twins.close

def peek (twins : Twins) (distance : Nat) : Token × Token :=
  twins.ahead.getD distance twins.close

/-- Does the second pair stand directly behind the first? -/
def Touching (before after : Token × Token) : Prop :=
  after.1.span.start = before.1.span.stop

/-- Two cursors whose tokens are like each other and whose sources agree between them, as far as
readers look. -/
structure Alike (mark : Token → Token → Prop) (twins : Twins) : Prop where
  like : ∀ pair ∈ twins.close :: twins.ahead, Token.Like mark pair.1 pair.2
  ended : twins.close.1.kind = .endOfInput
  -- an expression is what stands between two tokens, its spacing evened out
  spaced : twins.ahead.Pairwise fun before after =>
    Text.normalizeSpacing (twins.left.slice before.1.span.stop after.1.span.start) =
      Text.normalizeSpacing (twins.right.slice before.2.span.stop after.2.span.start)
  -- a number with words right behind it is one default value, kept as it is written
  touching : twins.ahead.IsChain fun before after =>
    after.1.span.start = before.1.span.stop ↔ after.2.span.start = before.2.span.stop
  joined : ∀ first rest, first :: rest <:+: twins.ahead → (first :: rest).IsChain Touching →
    twins.left.slice first.1.span.start (rest.getLastD first).1.span.stop =
      twins.right.slice first.2.span.start (rest.getLastD first).2.span.stop
  -- an introducer belongs to its string, whatever space is between them
  introduced : twins.ahead.IsChain fun before after =>
    before.1.isIntroducer = true → after.1.isString = true →
      twins.left.slice before.1.span.start after.1.span.stop =
        twins.right.slice before.2.span.start after.2.span.stop

variable {mark : Token → Token → Prop} {twins : Twins}

theorem Alike.drop (alike : twins.Alike mark) (count : Nat) : (twins.drop count).Alike mark where
  like pair member := by
    refine alike.like pair ?_
    rcases List.mem_cons.mp member with rfl | later
    · exact List.mem_cons_self
    · exact List.mem_cons_of_mem _ (List.mem_of_mem_drop later)
  ended := alike.ended
  spaced := alike.spaced.drop
  touching := alike.touching.drop count
  joined first rest inside := alike.joined first rest (inside.trans (List.drop_suffix _ _).isInfix)
  introduced := alike.introduced.drop count

theorem left_current (twins : Twins) : twins.left.current = twins.current.1 := by
  unfold current left Cursor.current
  cases twins.ahead <;> rfl

theorem right_current (twins : Twins) : twins.right.current = twins.current.2 := by
  unfold current right Cursor.current
  cases twins.ahead <;> rfl

theorem left_peek (twins : Twins) (distance : Nat) :
    twins.left.peek distance = (twins.peek distance).1 :=
  List.getD_map ..

theorem right_peek (twins : Twins) (distance : Nat) :
    twins.right.peek distance = (twins.peek distance).2 :=
  List.getD_map ..

theorem left_next (twins : Twins) : twins.left.next = (twins.drop 1).left := by
  simp [left, drop, Cursor.next, List.map_tail]

theorem right_next (twins : Twins) : twins.right.next = (twins.drop 1).right := by
  simp [right, drop, Cursor.next, List.map_tail]

theorem drop_drop (twins : Twins) (first second : Nat) :
    (twins.drop first).drop second = twins.drop (first + second) := by
  simp [drop]

theorem left_length (twins : Twins) : twins.left.ahead.length = twins.ahead.length :=
  List.length_map Prod.fst

theorem right_length (twins : Twins) : twins.right.ahead.length = twins.ahead.length :=
  List.length_map Prod.snd

theorem Alike.peek (alike : twins.Alike mark) (distance : Nat) :
    Token.Like mark (twins.peek distance).1 (twins.peek distance).2 := by
  refine alike.like (twins.peek distance) ?_
  unfold Twins.peek
  by_cases inside : distance < twins.ahead.length
  · rw [List.getD_eq_getElem _ _ inside]
    exact List.mem_cons_of_mem _ (List.getElem_mem inside)
  · rw [List.getD_eq_default _ _ (Nat.le_of_not_lt inside)]
    exact List.mem_cons_self

theorem Alike.current (alike : twins.Alike mark) :
    Token.Like mark twins.current.1 twins.current.2 := by
  have front := alike.peek 0
  rw [Twins.peek] at front
  rwa [Twins.current, List.headD_eq_head?_getD, List.head?_eq_getElem?,
    ← List.getD_eq_getElem?_getD]

/-- The results of two readings in step: related values or complaints about like tokens, at the same
place. -/
inductive Results {α : Type} (mark : Token → Token → Prop) (related : α → α → Prop)
    (twins : Twins) :
    EStateM.Result SyntaxError Cursor α → EStateM.Result SyntaxError Cursor α → Prop where
  | ok (count : Nat) {first second : α} (values : related first second) :
      Results mark related twins (.ok first (twins.drop count).left)
        (.ok second (twins.drop count).right)
  | error (count : Nat) (expected : Expected) {first second : Token}
      (like : Token.Like mark first second) :
      Results mark related twins (.error ⟨expected, first⟩ (twins.drop count).left)
        (.error ⟨expected, second⟩ (twins.drop count).right)

theorem Results.of_drop {α : Type} {related : α → α → Prop} {count : Nat}
    {first second : EStateM.Result SyntaxError Cursor α}
    (results : Results mark related (twins.drop count) first second) :
    Results mark related twins first second := by
  cases results with
  | ok more values =>
      rw [drop_drop]
      exact .ok (count + more) values
  | error more expected like =>
      rw [drop_drop]
      exact .error (count + more) expected like

end Twins

namespace Token.Like

variable {mark : Token → Token → Prop} {first second : Token}

theorem keyword? (like : Token.Like mark first second) : first.keyword? = second.keyword? := by
  rw [Token.keyword?, Token.keyword?, like.kind]

theorem isString (like : Token.Like mark first second) : first.isString = second.isString := by
  rw [Token.isString, Token.isString, like.kind]

theorem isName (like : Token.Like mark first second) : first.isName = second.isName := by
  rw [Token.isName, Token.isName, like.kind]

theorem isWord (like : Token.Like mark first second) : first.isWord = second.isWord := by
  rw [Token.isWord, Token.isWord, like.kind]

theorem isIntroducer (like : Token.Like mark first second) :
    first.isIntroducer = second.isIntroducer := by
  rw [Token.isIntroducer, Token.isIntroducer, like.kind, like.text]

theorem unsignedInteger? (like : Token.Like mark first second) :
    first.unsignedInteger? = second.unsignedInteger? := by
  rw [Token.unsignedInteger?, Token.unsignedInteger?, like.kind, like.text]

theorem sql (like : Token.Like mark first second) : first.sql = second.sql := by
  rw [Token.sql, Token.sql, like.kind, like.text]

end Token.Like

namespace Cursor

/-- A view of cursors that cannot tell twins apart. -/
def Shared {α : Type} (view : Cursor → α) : Prop :=
  ∀ mark twins, Twins.Alike mark twins → view twins.left = view twins.right

theorem peek_shared (distance : Nat) : Shared fun cursor => (cursor.peek distance).kind := by
  intro mark twins alike
  simp only [Twins.left_peek, Twins.right_peek]
  exact (alike.peek distance).kind

theorem current_shared : Shared fun cursor => cursor.current.kind := by
  intro mark twins alike
  simp only [Twins.left_current, Twins.right_current]
  exact alike.current.kind

theorem Shared.comp {α β : Type} {view : Cursor → α} (shared : Shared view) (f : α → β) :
    Shared fun cursor => f (view cursor) :=
  fun mark twins alike => congrArg f (shared mark twins alike)

theorem Shared.map₂ {α β γ : Type} {first : Cursor → α} {second : Cursor → β} (one : Shared first)
    (two : Shared second) (f : α → β → γ) : Shared fun cursor => f (first cursor) (second cursor) :=
  fun mark twins alike => congrArg₂ f (one mark twins alike) (two mark twins alike)

theorem sees_shared (kind : TokenKind) : Shared (·.sees kind) :=
  current_shared.comp (· == kind)

theorem seesWord_shared (word : Keyword) : Shared (·.seesWord word) :=
  sees_shared (.keyword word)

theorem peeksWord_shared (distance : Nat) (word : Keyword) : Shared (·.peeksWord distance word) :=
  (peek_shared distance).comp (· == .keyword word)

theorem atElementEnd_shared : Shared atElementEnd := by
  intro mark twins alike
  have same : twins.left.current.kind = twins.right.current.kind := current_shared mark twins alike
  simp only [atElementEnd, same]

theorem atStatementEnd_shared : Shared atStatementEnd := by
  intro mark twins alike
  have same : twins.left.current.kind = twins.right.current.kind := current_shared mark twins alike
  simp only [atStatementEnd, same]

end Cursor

namespace Reading

variable {α β σ : Type} {mark : Token → Token → Prop}

/-- Two readings that stay in step on twins, up to a relation of their values. -/
def Parallel (mark : Token → Token → Prop) (related : α → α → Prop) (first second : Reading α) :
    Prop :=
  ∀ twins, Twins.Alike mark twins →
    Twins.Results mark related twins (first twins.left) (second twins.right)

/-- A reading that gives twins the same value. -/
def Uniform (reading : Reading α) : Prop :=
  ∀ mark, Parallel mark Eq reading reading

theorem bind_of_ok {reading : Reading α} {cursor after : Cursor} {value : α}
    (done : reading cursor = .ok value after) (next : α → Reading β) :
    (reading >>= next) cursor = next value after := by
  simp only [bind, EStateM.bind, done]

theorem bind_of_error {reading : Reading α} {cursor after : Cursor} {error : SyntaxError}
    (failed : reading cursor = .error error after) (next : α → Reading β) :
    (reading >>= next) cursor = .error error after := by
  simp only [bind, EStateM.bind, failed]

theorem ok_of_bind_ok {reading : Reading α} {next : α → Reading β} {cursor after : Cursor}
    {value : β} (done : (reading >>= next) cursor = .ok value after) :
    ∃ first middle, reading cursor = .ok first middle ∧ next first middle = .ok value after := by
  cases start : reading cursor with
  | ok first middle =>
      rw [bind_of_ok start] at done
      exact ⟨first, middle, rfl, done⟩
  | error error middle =>
      rw [bind_of_error start] at done
      cases done

theorem ok_of_discard_ok {reading : Reading α} {cursor after : Cursor}
    (done : Functor.discard reading cursor = .ok () after) :
    ∃ value, reading cursor = .ok value after := by
  obtain ⟨value, middle, found, rest⟩ :=
    ok_of_bind_ok (show (reading >>= fun _ => pure ()) cursor = .ok () after from done)
  obtain ⟨-, rfl⟩ := EStateM.Result.ok.inj rest
  exact ⟨value, found⟩

theorem expect_ok {kind : TokenKind} {token : Token} {cursor after : Cursor}
    (found : expect kind cursor = .ok token after) :
    cursor.current.kind = kind ∧ token = cursor.current ∧ after = cursor.next := by
  simp only [expect, Cursor.sees, beq_iff_eq] at found
  split at found
  next same =>
    obtain ⟨rfl, rfl⟩ := EStateM.Result.ok.inj found
    exact ⟨same, rfl, rfl⟩
  next => contradiction

theorem listOf_ok {item : Reading α} {items : List α} {cursor after : Cursor}
    (done : listOf item cursor = .ok items after) :
    cursor.current.kind = .leftParen ∧ ∃ middle, separated item cursor.next = .ok items middle ∧
      middle.current.kind = .rightParen ∧ after = middle.next := by
  obtain ⟨_, inner, opened, done⟩ := ok_of_bind_ok done
  obtain ⟨values, middle, read, done⟩ := ok_of_bind_ok done
  obtain ⟨_, last, closed, done⟩ := ok_of_bind_ok done
  obtain ⟨rfl, rfl⟩ := EStateM.Result.ok.inj done
  obtain ⟨_, found⟩ := ok_of_discard_ok opened
  obtain ⟨opens, -, rfl⟩ := expect_ok found
  obtain ⟨_, found⟩ := ok_of_discard_ok closed
  obtain ⟨closes, -, rfl⟩ := expect_ok found
  exact ⟨opens, middle, read, closes, rfl⟩

theorem results_bind {twins : Twins} {related : α → α → Prop} {relatedNext : β → β → Prop}
    {first second : Reading α} {firstNext secondNext : α → Reading β}
    (start : Twins.Results mark related twins (first twins.left) (second twins.right))
    (next : ∀ a b count, related a b → Twins.Results mark relatedNext (twins.drop count)
      (firstNext a (twins.drop count).left) (secondNext b (twins.drop count).right)) :
    Twins.Results mark relatedNext twins ((first >>= firstNext) twins.left)
      ((second >>= secondNext) twins.right) := by
  generalize on_left : first twins.left = left at start
  generalize on_right : second twins.right = right at start
  cases start with
  | ok count values =>
      rw [bind_of_ok on_left, bind_of_ok on_right]
      exact (next _ _ count values).of_drop
  | error count expected like =>
      rw [bind_of_error on_left, bind_of_error on_right]
      exact .error count expected like

theorem Parallel.bind {related : α → α → Prop} {relatedNext : β → β → Prop}
    {first second : Reading α} {firstNext secondNext : α → Reading β}
    (start : Parallel mark related first second)
    (next : ∀ a b, related a b → Parallel mark relatedNext (firstNext a) (secondNext b)) :
    Parallel mark relatedNext (first >>= firstNext) (second >>= secondNext) := by
  intro twins alike
  refine results_bind (start twins alike) ?_
  intro a b count values
  exact next a b values _ (alike.drop count)

theorem Parallel.pure {related : α → α → Prop} {first second : α} (values : related first second) :
    Parallel mark related (Pure.pure first) (Pure.pure second) :=
  fun _ _ => .ok 0 values

namespace Uniform

theorem pure (value : α) : Uniform (Pure.pure value : Reading α) :=
  fun _ => Parallel.pure rfl

theorem bind {reading : Reading α} {next : α → Reading β} (start : Uniform reading)
    (later : ∀ value, Uniform (next value)) : Uniform (reading >>= next) := by
  intro mark
  refine (start mark).bind ?_
  rintro value _ rfl
  exact later value mark

theorem map {reading : Reading α} (f : α → β) (start : Uniform reading) : Uniform (f <$> reading) :=
  start.bind fun value => pure (f value)

theorem discard {reading : Reading α} (start : Uniform reading) :
    Uniform (Functor.discard reading) :=
  start.map fun _ => PUnit.unit

theorem ite {condition : Prop} [Decidable condition] {yes no : Reading α} (first : Uniform yes)
    (second : Uniform no) : Uniform (if condition then yes else no) := by
  split
  · exact first
  · exact second

end Uniform

theorem current_parallel (mark : Token → Token → Prop) :
    Parallel mark (Token.Like mark) current current := by
  intro twins alike
  simp only [current, Twins.left_current, Twins.right_current]
  exact .ok 0 alike.current

theorem advance_parallel (mark : Token → Token → Prop) :
    Parallel mark (Token.Like mark) advance advance := by
  intro twins alike
  simp only [advance, Twins.left_current, Twins.right_current, Twins.left_next, Twins.right_next]
  exact .ok 1 alike.current

/-- What a reader does by a token, if it looks only at what can be seen of it. -/
theorem Uniform.of_parallel {reading : Reading Token}
    (parallel : ∀ mark, Parallel mark (Token.Like mark) reading reading) {next : Token → Reading α}
    (seen : ∀ {mark first second}, Token.Like mark first second → next first = next second)
    (later : ∀ token, Uniform (next token)) : Uniform (reading >>= next) := by
  intro mark
  refine (parallel mark).bind ?_
  intro first second like
  rw [seen like]
  exact later second mark

theorem current_uniform {next : Token → Reading α}
    (seen : ∀ {mark first second}, Token.Like mark first second → next first = next second)
    (later : ∀ token, Uniform (next token)) : Uniform (current >>= next) :=
  .of_parallel current_parallel seen later

theorem advance_uniform {next : Token → Reading α}
    (seen : ∀ {mark first second}, Token.Like mark first second → next first = next second)
    (later : ∀ token, Uniform (next token)) : Uniform (advance >>= next) :=
  .of_parallel advance_parallel seen later

theorem failAt_parallel {first second : Token} (like : Token.Like mark first second)
    (expected : Expected) (related : α → α → Prop) :
    Parallel mark related (failAt first expected) (failAt second expected) :=
  fun _ _ => .error 0 expected like

theorem fail_uniform (expected : Expected) : Uniform (fail expected : Reading α) := by
  intro mark twins alike
  rw [fail, fail, Twins.left_current, Twins.right_current]
  exact .error 0 expected alike.current

theorem look_uniform {view : Cursor → α} (shared : Cursor.Shared view) : Uniform (look view) := by
  intro mark twins alike
  exact .ok 0 (shared mark twins alike)

theorem take_uniform (test : Token → Bool) (value : Token → α) (expected : Expected)
    (tested : ∀ {mark first second}, Token.Like mark first second → test first = test second)
    (valued : ∀ {mark first second}, Token.Like mark first second → value first = value second) :
    Uniform fun cursor =>
      if test cursor.current then .ok (value cursor.current) cursor.next
      else .error ⟨expected, cursor.current⟩ cursor := by
  intro mark twins alike
  have like := alike.current
  simp only [Twins.left_current, Twins.right_current, Twins.left_next, Twins.right_next,
    tested like, valued like]
  split
  · exact .ok 1 rfl
  · exact .error 0 expected like

theorem textOf_uniform {test : Token → Bool} (expected : Expected)
    (tested : ∀ {mark first second}, Token.Like mark first second → test first = test second) :
    Uniform (textOf test expected) :=
  take_uniform test Token.text expected tested Token.Like.text

theorem name_uniform (expected : Expected) : Uniform (name expected) :=
  textOf_uniform expected Token.Like.isName

theorem string_uniform : Uniform string :=
  textOf_uniform .string Token.Like.isString

theorem word_uniform : Uniform word :=
  textOf_uniform .optionValue Token.Like.isWord

theorem unsignedInteger_uniform : Uniform unsignedInteger := by
  intro mark twins alike
  have like := alike.current
  simp only [unsignedInteger, Twins.left_current, Twins.right_current, Twins.left_next,
    Twins.right_next, like.unsignedInteger?]
  split
  · exact .ok 1 rfl
  · exact .error 0 _ like

theorem expect_parallel (mark : Token → Token → Prop) (kind : TokenKind) :
    Parallel mark (Token.Like mark) (expect kind) (expect kind) := by
  intro twins alike
  have like := alike.current
  have same : twins.left.sees kind = twins.right.sees kind :=
    Cursor.sees_shared kind mark twins alike
  simp only [expect, same, Twins.left_current, Twins.right_current, Twins.left_next,
    Twins.right_next]
  split
  · exact .ok 1 like
  · exact .error 0 _ like

theorem discard_expect_uniform (kind : TokenKind) : Uniform (Functor.discard (expect kind)) :=
  .of_parallel (expect_parallel · kind) (fun _ => rfl) fun _ => .pure _

theorem discard_advance_uniform : Uniform (Functor.discard advance) :=
  .of_parallel advance_parallel (fun _ => rfl) fun _ => .pure _

theorem expectWord_uniform (word : Keyword) : Uniform (expectWord word) :=
  discard_expect_uniform (.keyword word)

theorem eat_uniform (kind : TokenKind) : Uniform (eat kind) := by
  intro mark twins alike
  have same : twins.left.sees kind = twins.right.sees kind :=
    Cursor.sees_shared kind mark twins alike
  simp only [eat, same, Twins.left_next, Twins.right_next]
  split
  · exact .ok 1 rfl
  · exact .ok 0 rfl

theorem eatWord_uniform (word : Keyword) : Uniform (eatWord word) :=
  eat_uniform (.keyword word)

theorem name?_uniform : Uniform name? := by
  intro mark twins alike
  have like := alike.current
  simp only [name?, Twins.left_current, Twins.right_current, Twins.left_next, Twins.right_next,
    like.isName, like.text]
  split
  · exact .ok 1 rfl
  · exact .ok 0 rfl

theorem dropWhile_twins (test : TokenKind → Bool) (ahead : List (Token × Token))
    (kinds : ∀ pair ∈ ahead, pair.1.kind = pair.2.kind) :
    ∃ count, (ahead.map Prod.fst).dropWhile (!test ·.kind) = (ahead.drop count).map Prod.fst ∧
      (ahead.map Prod.snd).dropWhile (!test ·.kind) = (ahead.drop count).map Prod.snd := by
  induction ahead with
  | nil => exact ⟨0, rfl, rfl⟩
  | cons pair rest ih =>
      have same := kinds pair List.mem_cons_self
      by_cases stops : test pair.2.kind = true
      · exact ⟨0, by simp [same, stops], by simp [stops]⟩
      · obtain ⟨count, left, right⟩ :=
          ih fun other member => kinds other (List.mem_cons_of_mem _ member)
        exact ⟨count + 1, by simpa [same, stops] using left, by simpa [stops] using right⟩

theorem skipTo_uniform (test : TokenKind → Bool) : Uniform (skipTo test) := by
  intro mark twins alike
  obtain ⟨count, left, right⟩ := dropWhile_twins test twins.ahead fun pair member =>
    (alike.like pair (List.mem_cons_of_mem _ member)).kind
  simp only [skipTo, Twins.left, Twins.right, left, right]
  exact .ok count rfl

theorem foldWhile_uniform {more : Cursor → Bool} {step : σ → Reading σ}
    (shared : Cursor.Shared more) (steps : ∀ state, Uniform (step state)) (state : σ) :
    Uniform (foldWhile more step state) := by
  intro mark twins alike
  -- A round of the loop shortens what is ahead or ends the loop, so the induction is on the length
  -- of that.
  induction count : twins.ahead.length using Nat.strongRecOn generalizing twins state with
  | ind count ih =>
      rw [foldWhile, foldWhile, shared mark twins alike]
      split
      · have results := steps state mark twins alike
        generalize step state twins.left = left at results
        generalize step state twins.right = right at results
        cases results with
        | error count expected like => exact .error count expected like
        | ok count values =>
            obtain rfl := values
            simp only [Twins.left_length, Twins.right_length]
            split
            next shorter => exact (ih _ (by omega) _ _ (alike.drop count) rfl).of_drop
            next => exact .ok count rfl
      · exact .ok 0 rfl

theorem many_uniform {more : Cursor → Bool} {item : Reading α} (shared : Cursor.Shared more)
    (items : Uniform item) : Uniform (many more item) := by
  rw [many]
  refine (foldWhile_uniform shared ?_ []).bind fun latestFirst => .pure _
  intro seen
  exact items.bind fun value => .pure _

theorem separated_uniform {item : Reading α} (items : Uniform item) : Uniform (separated item) := by
  rw [separated]
  apply items.bind
  intro first
  refine (many_uniform (Cursor.sees_shared .comma) ?_).bind fun others => .pure _
  exact discard_advance_uniform.bind fun _ => items

theorem listOf_uniform {item : Reading α} (items : Uniform item) : Uniform (listOf item) := by
  rw [listOf]
  apply (discard_expect_uniform .leftParen).bind
  intro _
  apply (separated_uniform items).bind
  intro values
  exact (discard_expect_uniform .rightParen).bind fun _ => .pure values

theorem nameList_uniform : Uniform nameList := by
  rw [nameList]
  apply (discard_expect_uniform .leftParen).bind
  intro _
  apply (eat_uniform .rightParen).bind
  intro empty
  refine .ite (.pure []) ?_
  apply (separated_uniform (name_uniform .columnName)).bind
  intro names
  exact (discard_expect_uniform .rightParen).bind fun _ => .pure names

theorem qualifiedName_uniform : Uniform qualifiedName := by
  rw [qualifiedName]
  apply (name_uniform .tableName).bind
  intro first
  apply (eat_uniform .dot).bind
  intro qualified
  refine .ite ?_ (.pure (none, first))
  exact (name_uniform .tableName).bind fun second => .pure (some first, second)

end Reading

def Cursor.twins (cursor : Cursor) : Twins :=
  ⟨(cursor.source, cursor.source), cursor.ahead.map fun token => (token, token),
    (cursor.close, cursor.close)⟩

namespace Cursor

variable (cursor : Cursor)

theorem twins_left : cursor.twins.left = cursor := by
  simp [twins, Twins.left, Function.comp_def]

theorem twins_right : cursor.twins.right = cursor := by
  simp [twins, Twins.right, Function.comp_def]

theorem twins_drop (count : Nat) :
    (cursor.twins.drop count).left = { cursor with ahead := cursor.ahead.drop count } := by
  simp [twins, Twins.left, Twins.drop, Function.comp_def, ← List.map_drop]

theorem twins_same {pair : Token × Token} (member : pair ∈ cursor.twins.ahead) :
    pair.1 = pair.2 := by
  obtain ⟨token, _, rfl⟩ := List.mem_map.mp member
  rfl

theorem twins_alike (ended : cursor.close.kind = .endOfInput) :
    cursor.twins.Alike fun _ _ => True where
  like pair member := by
    have same : pair.1 = pair.2 := by
      rcases List.mem_cons.mp member with rfl | later
      · rfl
      · exact cursor.twins_same later
    exact ⟨congrArg Token.kind same, congrArg Token.text same, trivial⟩
  ended := ended
  spaced := by
    refine List.pairwise_of_forall_mem_list fun before one after other => ?_
    rw [twins_left, twins_right, cursor.twins_same one, cursor.twins_same other]
  touching := by
    refine (List.pairwise_of_forall_mem_list fun before one after other => ?_).isChain
    rw [cursor.twins_same one, cursor.twins_same other]
  joined first rest inside _ := by
    have member {pair : Token × Token} (inner : pair ∈ first :: rest) : pair.1 = pair.2 :=
      cursor.twins_same (inside.subset inner)
    have last : rest.getLastD first ∈ first :: rest := by
      rw [← List.getLast_eq_getLastD (List.cons_ne_nil first rest)]
      exact List.getLast_mem _
    rw [twins_left, twins_right, member List.mem_cons_self, member last]
  introduced := by
    refine (List.pairwise_of_forall_mem_list fun before one after other _ _ => ?_).isChain
    rw [twins_left, twins_right, cursor.twins_same one, cursor.twins_same other]

end Cursor

/-- A reading that gives twins the same moves its cursor over its tokens and no further. -/
theorem Reading.Uniform.drops {α : Type} {reading : Reading α} (uniform : Uniform reading)
    {cursor after : Cursor} {value : α} (ended : cursor.close.kind = .endOfInput)
    (done : reading cursor = .ok value after) :
    ∃ count, after = { cursor with ahead := cursor.ahead.drop count } := by
  have results := uniform _ cursor.twins (cursor.twins_alike ended)
  rw [cursor.twins_left, done] at results
  generalize reading cursor.twins.right = beside at results
  cases results with
  | ok count _ => exact ⟨count, cursor.twins_drop count⟩

theorem Reading.Uniform.ahead_length_le {α : Type} {reading : Reading α} (uniform : Uniform reading)
    {cursor after : Cursor} {value : α} (ended : cursor.close.kind = .endOfInput)
    (done : reading cursor = .ok value after) : after.ahead.length ≤ cursor.ahead.length := by
  obtain ⟨count, rfl⟩ := uniform.drops ended done
  simp

end SchemaDrift
