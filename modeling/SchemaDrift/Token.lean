import SchemaDrift.Keyword
import SchemaDrift.Location

/-! The tokens of a text: words, names, literals, directives and marks, each with its place. -/

namespace SchemaDrift

/-- The character around a string literal. A text has literals in two kinds of quotes only, a token
that was made by hand may have any. -/
structure Quote where
  char : Char
  deriving DecidableEq, Repr

namespace Quote

def single : Quote := ⟨'\x27'⟩

def double : Quote := ⟨'\x22'⟩

end Quote

def quotes : List Quote :=
  [.single, .double]

inductive TokenKind where
  | keyword (word : Keyword)
  | identifier
  | quotedIdentifier
  | string (quote : Quote)
  | number
  | directive
  | leftParen
  | rightParen
  | comma
  | semicolon
  | equals
  | dot
  | endOfInput
  deriving DecidableEq, Repr

def TokenKind.text : TokenKind → String
  | .keyword word => "keyword " ++ word.word
  | .identifier => "identifier"
  | .quotedIdentifier => "quoted identifier"
  | .string _ => "string"
  | .number => "number"
  | .directive => "directive"
  | .leftParen => "'('"
  | .rightParen => "')'"
  | .comma => "','"
  | .semicolon => "';'"
  | .equals => "'='"
  | .dot => "'.'"
  | .endOfInput => "end of input"

/-- A token. Its text leaves out the quotes of a string or a quoted identifier and the delimiters of a directive;
its span holds them. -/
structure Token where
  kind : TokenKind
  text : String
  span : Span
  position : Position
  deriving DecidableEq, Repr

namespace Token

def endOfInput (offset : Nat) (position : Position) : Token :=
  ⟨.endOfInput, "", ⟨offset, offset⟩, position⟩

def isEnd (token : Token) : Bool :=
  token.kind == .endOfInput

def isDirective (token : Token) : Bool :=
  token.kind == .directive

def isString (token : Token) : Bool :=
  match token.kind with
  | .string _ => true
  | _ => false

def keyword? (token : Token) : Option Keyword :=
  match token.kind with
  | .keyword keyword => some keyword
  | _ => none

def quote? (token : Token) : Option Quote :=
  match token.kind with
  | .string quote => some quote
  | _ => none

/-- Can the token stand for a table, column or index name? -/
def isName (token : Token) : Bool :=
  match token.kind with
  | .identifier | .quotedIdentifier => true
  | .keyword keyword => keyword.isNonReserved
  | _ => false

def isWord (token : Token) : Bool :=
  match token.kind with
  | .keyword _ | .identifier | .quotedIdentifier | .string _ | .number => true
  | _ => false

def unsigned : List Char → List Char
  | '+' :: rest => rest
  | text => text

/-- The whole number below 2 ^ 64 that a number token writes in digits, a plus sign in front or none. -/
def unsignedInteger? (token : Token) : Option UInt64 :=
  let digits := unsigned token.text.toList
  let value := Nat.ofDigitChars 10 digits 0
  if token.kind = .number ∧ digits ≠ [] ∧ digits.all Char.isDigit ∧ value < UInt64.size then
    some (.ofNat value)
  else none

/-- The token as SQL writes it: strings and quoted identifiers get their quotes back. -/
def sql (token : Token) : String :=
  match token.kind with
  | .string quote => .ofList (quote.char :: token.text.toList ++ [quote.char])
  | .quotedIdentifier => .ofList ('\x60' :: token.text.toList ++ ['\x60'])
  | _ => token.text

end Token

end SchemaDrift
