/-! Places in a text. Offsets count the bytes of its UTF-8 form, lines and columns count from one, and columns
count characters. -/

namespace SchemaDrift

structure Position where
  offset : Nat
  line : Nat
  column : Nat
  deriving DecidableEq, Repr

namespace Position

def start : Position :=
  ⟨0, 1, 1⟩

def after (position : Position) (c : Char) : Position :=
  if c = '\n' then ⟨position.offset + c.utf8Size, position.line + 1, 1⟩
  else ⟨position.offset + c.utf8Size, position.line, position.column + 1⟩

def advance (position : Position) (chars : List Char) : Position :=
  chars.foldl after position

@[simp] theorem advance_nil (position : Position) : position.advance [] = position := rfl

@[simp] theorem advance_cons (position : Position) (c : Char) (chars : List Char) :
    position.advance (c :: chars) = (position.after c).advance chars := rfl

theorem advance_append (position : Position) (first second : List Char) :
    position.advance (first ++ second) = (position.advance first).advance second := by
  simp [advance, List.foldl_append]

end Position

/-- Drops exactly `count` bytes, or fails where that would split a character or pass the end. -/
def dropBytes : Nat → List Char → Option (List Char)
  | 0, chars => some chars
  | _ + 1, [] => none
  | count + 1, c :: rest =>
      if c.utf8Size ≤ count + 1 then dropBytes (count + 1 - c.utf8Size) rest else none

def takeBytes : Nat → List Char → Option (List Char)
  | 0, _ => some []
  | _ + 1, [] => none
  | count + 1, c :: rest =>
      if c.utf8Size ≤ count + 1 then (takeBytes (count + 1 - c.utf8Size) rest).map (c :: ·) else none

structure Span where
  start : Nat
  stop : Nat
  deriving DecidableEq, Repr

namespace Span

def length? (span : Span) : Option Nat :=
  if span.start ≤ span.stop then some (span.stop - span.start) else none

def isEmpty (span : Span) : Bool :=
  span.start == span.stop

/-- The characters of `source` in the range, if both ends fall on character boundaries. -/
def slice? (span : Span) (source : List Char) : Option (List Char) := do
  takeBytes (← span.length?) (← dropBytes span.start source)

/-- The text of the range, empty when the range does not fit the source. -/
def text (span : Span) (source : List Char) : String :=
  .ofList ((span.slice? source).getD [])

end Span

end SchemaDrift
