import SchemaDrift.Token.Scan

/-! Handing out the tokens of a text one by one. -/

namespace SchemaDrift

/-- A place in the tokens of a text: those still to come, the end of input behind them, and whether `next?` has
handed out that end. -/
structure Feed where
  ahead : List Token
  close : Token
  ended : Bool
  closed : close.kind = .endOfInput
  deriving DecidableEq, Repr

namespace Feed

def ofText (text : String) : Feed :=
  ⟨Token.scanText text, Token.endOf text, false, rfl⟩

/-- The next token. Past the last one this is the end of input, over and over. -/
def take (feed : Feed) : Token × Feed :=
  match feed.ahead with
  | [] => (feed.close, feed)
  | token :: ahead => (token, { feed with ahead })

/-- The next token, the end of input being handed out once. -/
def next? (feed : Feed) : Option (Token × Feed) :=
  if feed.ended then none
  else
    let (token, feed) := feed.take
    some (token, { feed with ended := token.isEnd })

def toList (feed : Feed) : List Token :=
  feed.ahead ++ [feed.close]

def remaining (feed : Feed) : List Token :=
  if feed.ended then [] else feed.toList

theorem next?_eq_some {feed after : Feed} {token : Token} (given : feed.next? = some (token, after)) :
    feed.ended = false ∧
      (feed.ahead = [] ∧ token = feed.close ∧ after = { feed with ended := true } ∨
        ∃ rest, feed.ahead = token :: rest ∧
          after = { feed with ahead := rest, ended := token.isEnd }) := by
  cases ended : feed.ended with
  | true => simp [next?, ended] at given
  | false =>
      cases ahead : feed.ahead with
      | nil =>
          have is_end : feed.close.isEnd = true := by simp [Token.isEnd, feed.closed]
          simp only [next?, take, ended, ahead, is_end, Bool.false_eq_true, ↓reduceIte,
            Option.some.injEq, Prod.mk.injEq] at given
          exact ⟨rfl, .inl ⟨rfl, given.1.symm, by rw [← given.2]⟩⟩
      | cons first rest =>
          simp only [next?, take, ended, ahead, Bool.false_eq_true, ↓reduceIte,
            Option.some.injEq, Prod.mk.injEq] at given
          obtain ⟨rfl, rfl⟩ := given
          exact ⟨rfl, .inr ⟨rest, rfl, rfl⟩⟩

theorem next?_remaining_length_lt {feed after : Feed} {token : Token}
    (given : feed.next? = some (token, after)) :
    after.remaining.length < feed.remaining.length := by
  obtain ⟨ended, ⟨ahead, rfl, rfl⟩ | ⟨rest, ahead, rfl⟩⟩ := next?_eq_some given
  · simp [remaining, toList, ended, ahead]
  · simp only [remaining, toList, ended, ahead]
    split <;> simp

end Feed

end SchemaDrift
