import SchemaDrift.Reading.Cursor
import SchemaDrift.Text.Spacing

/-! Groups of tokens between parentheses. Their text is captured from the source, with its spacing in normal form. -/

namespace SchemaDrift

/-- What follows an opening parenthesis: the commas directly inside it, the token that ends it — the closing
parenthesis, or an end of input that comes first — and the tokens behind. -/
structure Group where
  commas : List Token
  last : Token
  behind : List Token
  deriving DecidableEq, Repr

namespace Group

/-- Reads on inside `depth` parentheses beyond the first; `close` is the end of input behind all tokens. -/
def read (close : Token) : Nat → List Token → Group
  | _, [] => ⟨[], close, []⟩
  | depth, token :: rest =>
      match token.kind, depth with
      | .leftParen, depth => read close (depth + 1) rest
      | .rightParen, 0 => ⟨[], token, rest⟩
      | .rightParen, depth + 1 => read close depth rest
      | .endOfInput, _ => ⟨[], token, rest⟩
      | .comma, 0 =>
          let group := read close 0 rest
          { group with commas := token :: group.commas }
      | _, depth => read close depth rest

def closed (group : Group) : Bool :=
  group.last.kind == .rightParen

end Group

namespace Reading

def group : Reading Group := fun cursor =>
  let group := Group.read cursor.close 0 cursor.ahead
  .ok group { cursor with ahead := group.behind }

def skipGroup : Reading Unit := do
  discard advance
  discard group

def skipAny : Reading Unit := do
  if ← look (·.sees .leftParen) then skipGroup else discard advance

def closedGroup : Reading (Token × Group) := do
  let opening ← expect .leftParen
  let group ← group
  if group.closed then return (opening, group) else failAt group.last (.token .rightParen)

/-- The source text from the end of one token to the start of another, in normal form. -/
def textBetween (before after : Token) : Reading String :=
  look fun cursor => Text.normalizeSpacing (cursor.slice before.span.stop after.span.start)

def expression : Reading String := do
  let (opening, group) ← closedGroup
  textBetween opening group.last

/-- The texts between marks that follow each other; blank ones are left out. -/
def textsBetween (before : Token) : List Token → Reading (List String)
  | [] => return []
  | mark :: marks => do
      let text ← textBetween before mark
      let texts ← textsBetween mark marks
      return if text.isEmpty then texts else text :: texts

def valueList : Reading (List String) := do
  let (opening, group) ← closedGroup
  textsBetween opening (group.commas ++ [group.last])

end Reading

end SchemaDrift
