/-! Table options, a sparse set of settings. -/

namespace SchemaDrift

/-- The shape of an option's value: any word, a string, a whole number below 2 ^ 64, or a list of names. -/
inductive ValueForm where
  | word
  | string
  | number
  | names
  deriving DecidableEq, Repr

@[reducible] def ValueForm.Value : ValueForm → Type
  | .word => String
  | .string => String
  | .number => UInt64
  | .names => List String

inductive TableOption where
  | engine | autoIncrement | characterSet | collation | comment | rowFormat | keyBlockSize | maxRows | minRows
  | tablespace | dataDirectory | indexDirectory | encryption | compression | statsPersistent | statsAutoRecalc
  | statsSamplePages | packKeys | checksum | delayKeyWrite | union | insertMethod
  deriving DecidableEq, Repr

namespace TableOption

def all : List TableOption :=
  [.engine, .autoIncrement, .characterSet, .collation, .comment, .rowFormat, .keyBlockSize, .maxRows, .minRows,
   .tablespace, .dataDirectory, .indexDirectory, .encryption, .compression, .statsPersistent, .statsAutoRecalc,
   .statsSamplePages, .packKeys, .checksum, .delayKeyWrite, .union, .insertMethod]

theorem mem_all (option : TableOption) : option ∈ all := by
  cases option <;> decide

def form : TableOption → ValueForm
  | .autoIncrement | .keyBlockSize | .maxRows | .minRows => .number
  | .comment | .dataDirectory | .indexDirectory => .string
  | .union => .names
  | _ => .word

abbrev Value (option : TableOption) : Type :=
  option.form.Value

instance (form : ValueForm) : DecidableEq form.Value :=
  match form with
  | .word => inferInstanceAs (DecidableEq String)
  | .string => inferInstanceAs (DecidableEq String)
  | .number => inferInstanceAs (DecidableEq UInt64)
  | .names => inferInstanceAs (DecidableEq (List String))

end TableOption

/-- The options of one table: the value of each option that is set. -/
structure TableOptions where
  value : (option : TableOption) → Option option.Value

namespace TableOptions

def empty : TableOptions :=
  ⟨fun _ => none⟩

def set (options : TableOptions) (option : TableOption) (value : option.Value) : TableOptions :=
  ⟨fun other => if same : option = other then some (same ▸ value) else options.value other⟩

def isEmpty (options : TableOptions) : Bool :=
  TableOption.all.all fun option => (options.value option).isNone

theorem ext_value {first second : TableOptions}
    (same : ∀ option, first.value option = second.value option) : first = second := by
  cases first
  cases second
  exact congrArg TableOptions.mk (funext same)

instance : DecidableEq TableOptions := fun first second =>
  if same : ∀ option ∈ TableOption.all, first.value option = second.value option then
    isTrue (ext_value fun option => same option option.mem_all)
  else isFalse fun equal => same fun _ _ => equal ▸ rfl

theorem isEmpty_iff (options : TableOptions) : options.isEmpty = true ↔ options = empty := by
  constructor
  · intro unset
    refine ext_value fun option => ?_
    simpa [empty] using List.all_eq_true.mp unset option option.mem_all
  · rintro rfl
    rfl

@[simp] theorem value_set_same (options : TableOptions) (option : TableOption) (value : option.Value) :
    (options.set option value).value option = some value := by
  simp [set]

theorem value_set_other (options : TableOptions) {option other : TableOption} (value : option.Value)
    (different : option ≠ other) : (options.set option value).value other = options.value other := by
  simp [set, different]

end TableOptions

end SchemaDrift
