/-! JSON values whose objects keep the order of their fields, and their text. -/

namespace SchemaDrift

inductive Json where
  | null
  | bool (value : Bool)
  | number (value : Nat)
  | string (text : String)
  | array (items : List Json)
  | object (fields : List (String × Json))

namespace Json

def hexDigit (value : Nat) : Char :=
  if value < 10 then .ofNat (48 + value) else .ofNat (87 + value)

/-- A character inside a string. Quotes, backslashes and control characters are escaped, all others stand for
themselves. -/
def escape (c : Char) : List Char :=
  if c = '\x22' then ['\\', '\x22']
  else if c = '\\' then ['\\', '\\']
  else if c = '\n' then ['\\', 'n']
  else if c = '\r' then ['\\', 'r']
  else if c = '\t' then ['\\', 't']
  else if c = '\x08' then ['\\', 'b']
  else if c = '\x0c' then ['\\', 'f']
  else if c.toNat < 32 then ['\\', 'u', '0', '0', hexDigit (c.toNat / 16), hexDigit (c.toNat % 16)]
  else [c]

def quoted (text : String) : String :=
  .ofList ('\x22' :: text.toList.flatMap escape ++ ['\x22'])

mutual

def compact : Json → String
  | .null => "null"
  | .bool value => if value then "true" else "false"
  | .number value => toString value
  | .string text => quoted text
  | .array items => "[" ++ ",".intercalate (compactItems items) ++ "]"
  | .object fields => "\x7b" ++ ",".intercalate (compactFields fields) ++ "\x7d"

def compactItems : List Json → List String
  | [] => []
  | item :: rest => item.compact :: compactItems rest

def compactFields : List (String × Json) → List String
  | [] => []
  | (label, value) :: rest => (quoted label ++ ":" ++ value.compact) :: compactFields rest

end

def block (indent : Nat) (opening closing : String) (lines : List String) : String :=
  let margin := "\n" ++ .ofList (List.replicate indent ' ')
  opening ++ margin ++ "  " ++ ("," ++ margin ++ "  ").intercalate lines ++ margin ++ closing

mutual

/-- The text of a value over several lines, two spaces for each step of indentation. Empty lists and objects stay
on one line. -/
def indented (indent : Nat) : Json → String
  | .null => "null"
  | .bool value => if value then "true" else "false"
  | .number value => toString value
  | .string text => quoted text
  | .array [] => "[]"
  | .array (item :: rest) => block indent "[" "]" (item.indented (indent + 2) :: indentedItems (indent + 2) rest)
  | .object [] => "\x7b\x7d"
  | .object ((label, value) :: rest) =>
      block indent "\x7b" "\x7d"
        ((quoted label ++ ": " ++ value.indented (indent + 2)) :: indentedFields (indent + 2) rest)

def indentedItems (indent : Nat) : List Json → List String
  | [] => []
  | item :: rest => item.indented indent :: indentedItems indent rest

def indentedFields (indent : Nat) : List (String × Json) → List String
  | [] => []
  | (label, value) :: rest => (quoted label ++ ": " ++ value.indented indent) :: indentedFields indent rest

end

end Json

class ToJson (α : Type) where
  toJson : α → Json

export ToJson (toJson)

instance : ToJson String := ⟨.string⟩

instance : ToJson Bool := ⟨.bool⟩

instance : ToJson Nat := ⟨.number⟩

instance : ToJson UInt64 := ⟨fun value => .number value.toNat⟩

instance {α : Type} [ToJson α] : ToJson (Option α) where
  toJson
    | none => .null
    | some value => toJson value

instance {α : Type} [ToJson α] : ToJson (List α) := ⟨fun items => .array (items.map toJson)⟩

end SchemaDrift
