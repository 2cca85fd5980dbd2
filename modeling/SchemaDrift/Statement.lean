import SchemaDrift.Token.Feed

/-! Cutting the tokens of a text into statements. A semicolon ends its statement, and so does the end of the text;
the word CREATE starts a new one wherever it stands. -/

namespace SchemaDrift

/-- The tokens of one statement and the end of input that closes it. Spans point into `source`. -/
structure Statement where
  source : List Char
  tokens : List Token
  close : Token
  deriving DecidableEq, Repr

/-- A text on its way into statements: the tokens still to come, and those of the statement that has begun. -/
structure Splitter where
  source : List Char
  feed : Feed
  pending : Array Token
  deriving DecidableEq, Repr

namespace Statement

def endAfter (semicolon : Token) : Token :=
  let stop := semicolon.span.stop
  .endOfInput stop ⟨stop, semicolon.position.line, semicolon.position.column + 1⟩

def endBefore (token : Token) : Token :=
  .endOfInput token.span.start token.position

/-- Does the statement start with CREATE TABLE or CREATE TEMPORARY TABLE? -/
def isCreateTable (statement : Statement) : Bool :=
  match statement.tokens.map Token.keyword? with
  | some .CREATE :: some .TABLE :: _ => true
  | some .CREATE :: some .TEMPORARY :: some .TABLE :: _ => true
  | _ => false

def toList (statement : Statement) : List Token :=
  statement.tokens ++ [statement.close]

def first (statement : Statement) : Token :=
  statement.tokens.headD statement.close

end Statement

namespace Splitter

def ofText (text : String) : Splitter :=
  ⟨text.toList, .ofText text, #[]⟩

/-- Reads tokens until a statement is complete, and begins the next one with a CREATE that completes it. At the end
of input there is a statement only if one has begun. -/
def next (splitter : Splitter) : Option Statement × Splitter :=
  match _given : splitter.feed.next? with
  | none => (none, splitter)
  | some (token, feed) =>
      let ⟨source, _, pending⟩ := splitter
      if token.kind = .directive then next ⟨source, feed, pending⟩
      else if token.kind = .keyword .CREATE ∧ ¬pending.isEmpty then
        (some ⟨source, pending.toList, Statement.endBefore token⟩, ⟨source, feed, #[token]⟩)
      else if token.kind = .semicolon then
        (some ⟨source, (pending.push token).toList, Statement.endAfter token⟩, ⟨source, feed, #[]⟩)
      else if token.kind = .endOfInput then
        if pending.isEmpty then (none, ⟨source, feed, pending⟩)
        else (some ⟨source, pending.toList, token⟩, ⟨source, feed, #[]⟩)
      else next ⟨source, feed, pending.push token⟩
termination_by splitter.feed.remaining.length
decreasing_by all_goals exact Feed.next?_remaining_length_lt _given

theorem next_remaining_length_lt {splitter : Splitter} {statement : Statement}
    (handed : splitter.next.1 = some statement) :
    splitter.next.2.feed.remaining.length < splitter.feed.remaining.length := by
  fun_induction next splitter with
  | case1 => simp at handed
  | case2 token feed source _ pending given _ ih =>
      exact Nat.lt_trans (ih handed) (Feed.next?_remaining_length_lt given)
  | case3 token feed source _ pending given => exact Feed.next?_remaining_length_lt given
  | case4 token feed source _ pending given => exact Feed.next?_remaining_length_lt given
  | case5 => simp at handed
  | case6 token feed source _ pending given => exact Feed.next?_remaining_length_lt given
  | case7 token feed source _ pending given _ _ _ _ ih =>
      exact Nat.lt_trans (ih handed) (Feed.next?_remaining_length_lt given)

def next? (splitter : Splitter) : Option (Statement × Splitter) :=
  match splitter.next with
  | (some statement, after) => some (statement, after)
  | (none, _) => none

theorem next?_eq_some_iff {splitter after : Splitter} {statement : Statement} :
    splitter.next? = some (statement, after) ↔ splitter.next = (some statement, after) := by
  rw [next?]
  split
  next handed state call => simp [call]
  next state call => simp [call]

theorem next?_eq_none_iff {splitter : Splitter} : splitter.next? = none ↔ splitter.next.1 = none := by
  rw [next?]
  split
  next handed state call => simp [call]
  next state call => simp [call]

theorem next?_remaining_length_lt {splitter after : Splitter} {statement : Statement}
    (taken : splitter.next? = some (statement, after)) :
    after.feed.remaining.length < splitter.feed.remaining.length := by
  have call := next?_eq_some_iff.mp taken
  have handed : splitter.next.1 = some statement := by rw [call]
  have shorter := next_remaining_length_lt handed
  rwa [call] at shorter

def toList (splitter : Splitter) : List Statement :=
  match _taken : splitter.next? with
  | none => []
  | some (statement, after) => statement :: after.toList
termination_by splitter.feed.remaining.length
decreasing_by exact next?_remaining_length_lt _taken

end Splitter

def Statement.ofText (text : String) : List Statement :=
  (Splitter.ofText text).toList

end SchemaDrift
