/-! The arguments of the command line: two dumps, and options in their long and short spellings. -/

namespace SchemaDrift

inductive ReportFormat where
  | json
  | summary
  deriving DecidableEq, Repr

def ReportFormat.ofName? (name : String) : Option ReportFormat :=
  if name = "json" then some .json
  else if name = "summary" then some .summary
  else none

inductive UsageError where
  | unexpected (argument : String)
  | repeated (option : String)
  | missingValue (option : String)
  | unknownFormat (name : String)
  | missingDumps
  deriving DecidableEq, Repr

def UsageError.message : UsageError → String
  | .unexpected argument => "unexpected argument '" ++ argument ++ "'"
  | .repeated option => "option '" ++ option ++ "' is given more than once"
  | .missingValue option => "option '" ++ option ++ "' needs a value"
  | .unknownFormat name => "unknown format '" ++ name ++ "', expected json or summary"
  | .missingDumps => "two dumps are needed"

structure Arguments where
  files : List String := []
  table : Option String := none
  format : Option String := none
  strict : Bool := false
  noRenameDetection : Bool := false
  all : Bool := false
  verbose : Bool := false
  deriving DecidableEq, Repr

inductive ValueOption where
  | table
  | format
  deriving DecidableEq, Repr

def ValueOption.name : ValueOption → String
  | .table => "--table"
  | .format => "--format"

namespace Arguments

def addFile (arguments : Arguments) (file : String) : Except UsageError Arguments :=
  if arguments.files.length < 2 then .ok { arguments with files := arguments.files ++ [file] }
  else .error (.unexpected file)

def setValue (arguments : Arguments) (option : ValueOption) (value : String) : Except UsageError Arguments :=
  match option with
  | .table =>
      if arguments.table.isSome then .error (.repeated option.name)
      else .ok { arguments with table := some value }
  | .format =>
      if arguments.format.isSome then .error (.repeated option.name)
      else .ok { arguments with format := some value }

def setFlag? (arguments : Arguments) (name : String) : Option (Except UsageError Arguments) :=
  let once (given : Bool) (set : Arguments) : Option (Except UsageError Arguments) :=
    some (if given then .error (.repeated name) else .ok set)
  if name = "--all" ∨ name = "-a" then once arguments.all { arguments with all := true }
  else if name = "--strict" then once arguments.strict { arguments with strict := true }
  else if name = "--no-rename-detection" then
    once arguments.noRenameDetection { arguments with noRenameDetection := true }
  else if name = "--verbose" ∨ name = "-v" then once arguments.verbose { arguments with verbose := true }
  else none

def valueOption? (name : String) : Option ValueOption :=
  if name = "--table" ∨ name = "-t" then some .table
  else if name = "--format" ∨ name = "-f" then some .format
  else none

/-- Reads short options behind one dash. The last may take a value: what stands behind it, perhaps after an equals
sign, or else the next argument. -/
def readShort (arguments : Arguments) : List Char → Except UsageError (Arguments × Option ValueOption)
  | [] => .ok (arguments, none)
  | c :: rest =>
      let name := String.ofList ['-', c]
      match valueOption? name with
      | some option =>
          if rest.isEmpty then .ok (arguments, some option)
          else
            let value := if rest.head? = some '=' then rest.tail else rest
            (arguments.setValue option (.ofList value)).map (·, none)
      | none =>
          match arguments.setFlag? name with
          | some set => set.bind (readShort · rest)
          | none => .error (.unexpected name)

def readLong (arguments : Arguments) (argument : String) : Except UsageError (Arguments × Option ValueOption) :=
  let chars := argument.toList
  let name := String.ofList (chars.takeWhile (· != '='))
  let value := chars.dropWhile (· != '=')
  match valueOption? name, value with
  | some option, [] => .ok (arguments, some option)
  | some option, _ :: value => (arguments.setValue option (.ofList value)).map (·, none)
  | none, [] =>
      match arguments.setFlag? name with
      | some set => set.map (·, none)
      | none => .error (.unexpected argument)
  | none, _ => .error (.unexpected argument)

def readOne (arguments : Arguments) (argument : String) : Except UsageError (Arguments × Option ValueOption) :=
  match argument.toList with
  | '-' :: '-' :: _ => arguments.readLong argument
  | '-' :: c :: rest => arguments.readShort (c :: rest)
  | _ => (arguments.addFile argument).map (·, none)

def isValue (argument : String) : Bool :=
  argument.toList.head? != some '-' || argument == "-"

def read (arguments : Arguments) : List String → Except UsageError Arguments
  | [] => .ok arguments
  | argument :: rest =>
      if argument = "--" then rest.foldlM addFile arguments
      else
        match arguments.readOne argument with
        | .error error => .error error
        | .ok (arguments, none) => read arguments rest
        | .ok (arguments, some option) =>
            match rest with
            | [] => .error (.missingValue option.name)
            | value :: rest =>
                if isValue value then
                  match arguments.setValue option value with
                  | .error error => .error error
                  | .ok arguments => read arguments rest
                else .error (.missingValue option.name)

end Arguments

structure Settings where
  oldPath : String
  newPath : String
  table : Option String
  format : ReportFormat
  strict : Bool
  renames : Bool
  all : Bool
  verbose : Bool
  deriving DecidableEq, Repr

namespace Settings

/-- The format named by the option, or else by the environment, or else the summary. -/
def chooseFormat (option environment : Option String) : Except UsageError ReportFormat :=
  match option.or environment with
  | none => .ok .summary
  | some name =>
      match ReportFormat.ofName? name with
      | some format => .ok format
      | none => .error (.unknownFormat name)

def ofArguments (arguments : List String) (environment : Option String) : Except UsageError Settings := do
  let given ← Arguments.read {} arguments
  let format ← chooseFormat given.format environment
  match given.files with
  | [oldPath, newPath] =>
      return {
        oldPath, newPath, format
        table := given.table
        strict := given.strict
        renames := !given.noRenameDetection
        all := given.all
        verbose := given.verbose }
  | _ => throw .missingDumps

end Settings

end SchemaDrift
