import SchemaDrift.Text.Class

/-! The normal form of the spacing of an expression. Outside quotes every run of blanks becomes one space, and
the ends are trimmed; inside quotes nothing changes. -/

namespace SchemaDrift.Text

/-- Where a reader of an expression stands: outside all quotes, or inside a quote that `mark` closes. -/
inductive Quoting where
  | free
  | inside (mark : Char) (escaped : Bool)
  deriving DecidableEq, Repr

def isQuotationMark (c : Char) : Bool :=
  c == '\x27' || c == '\x22' || c == '\x60'

/-- Reads one character. A backslash escapes the next character, except between back quotes. -/
def Quoting.after : Quoting → Char → Quoting
  | .free, c => if isQuotationMark c then .inside c false else .free
  | .inside mark true, _ => .inside mark false
  | .inside mark false, c =>
      if c = '\\' ∧ mark ≠ '\x60' then .inside mark true
      else if c = mark then .free
      else .inside mark false

def trimStart (chars : List Char) : List Char :=
  chars.dropWhile isBlank

def trimEnd (chars : List Char) : List Char :=
  (chars.reverse.dropWhile isBlank).reverse

def trim (chars : List Char) : List Char :=
  trimEnd (trimStart chars)

/-- Outside quotes, keeps of each run of blanks only the last one, written as a space. -/
def squeeze : Quoting → List Char → List Char
  | _, [] => []
  | quoting, c :: rest =>
      if quoting = .free ∧ isBlank c then
        if rest.head?.any isBlank then squeeze .free rest else ' ' :: squeeze .free rest
      else c :: squeeze (quoting.after c) rest

def normalizeSpacing (text : String) : String :=
  .ofList (squeeze .free (trim text.toList))

end SchemaDrift.Text
