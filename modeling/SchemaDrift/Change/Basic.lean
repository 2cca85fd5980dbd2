import SchemaDrift.Change.Pairing

/-! Changes of definitions. A kind of definition is compared aspect by aspect; a record holds the old and the
new value of each aspect that differs. -/

namespace SchemaDrift

/-- A kind of definition whose aspects are compared. What is compared is the content of an aspect; what a
record shows is its value. -/
class Compared (α : Type) where
  Aspect : Type
  aspects : List Aspect
  mem_aspects : ∀ aspect, aspect ∈ aspects
  Content : Aspect → Type
  contentEq : ∀ aspect, DecidableEq (Content aspect)
  content : (aspect : Aspect) → α → Content aspect
  Value : Aspect → Type
  value : (aspect : Aspect) → Content aspect → Value aspect

instance {α : Type} [Compared α] (aspect : Compared.Aspect α) : DecidableEq (Compared.Content aspect) :=
  Compared.contentEq aspect

structure FieldChange (ν : Type) where
  old : ν
  new : ν
  deriving DecidableEq, Repr

abbrev ChangeRecord (α : Type) [Compared α] : Type :=
  (aspect : Compared.Aspect α) → Option (FieldChange (Compared.Value aspect))

namespace ChangeRecord

variable {α : Type} [Compared α]

def between (old new : α) : ChangeRecord α := fun aspect =>
  let before := Compared.content aspect old
  let after := Compared.content aspect new
  if before = after then none else some ⟨Compared.value aspect before, Compared.value aspect after⟩

def isEmpty (record : ChangeRecord α) : Bool :=
  (Compared.aspects : List (Compared.Aspect α)).all fun aspect => (record aspect).isNone

theorem isEmpty_iff (record : ChangeRecord α) :
    record.isEmpty = true ↔ ∀ aspect, record aspect = none := by
  simp [isEmpty, Compared.mem_aspects]

theorem between_eq_none_iff (old new : α) (aspect : Compared.Aspect α) :
    between old new aspect = none ↔ Compared.content aspect old = Compared.content aspect new := by
  simp [between]

theorem isEmpty_between_iff (old new : α) :
    (between old new).isEmpty = true ↔
      ∀ aspect : Compared.Aspect α, Compared.content aspect old = Compared.content aspect new := by
  simp [isEmpty_iff, between_eq_none_iff]

end ChangeRecord

inductive Change (α : Type) [Compared α] where
  | added (new : α)
  | removed (old : α)
  | modified (old new : α) (record : ChangeRecord α)

inductive ChangeKind where
  | added
  | removed
  | modified
  deriving DecidableEq, Repr

def ChangeKind.text : ChangeKind → String
  | .added => "added"
  | .removed => "removed"
  | .modified => "modified"

namespace Change

variable {α : Type} [Compared α]

def kind : Change α → ChangeKind
  | .added _ => .added
  | .removed _ => .removed
  | .modified _ _ _ => .modified

@[simp] theorem kind_added (new : α) : (added new).kind = .added := rfl

@[simp] theorem kind_removed (old : α) : (removed old).kind = .removed := rfl

@[simp] theorem kind_modified (old new : α) (record : ChangeRecord α) :
    (modified old new record).kind = .modified := rfl

def before? : Change α → Option α
  | .added _ => none
  | .removed old | .modified old _ _ => some old

def after? : Change α → Option α
  | .added new | .modified _ new _ => some new
  | .removed _ => none

def current : Change α → α
  | .added new | .modified _ new _ => new
  | .removed old => old

def record? : Change α → Option (ChangeRecord α)
  | .modified _ _ record => some record
  | _ => none

def between? (old new : α) : Option (Change α) :=
  let record := ChangeRecord.between old new
  if record.isEmpty then none else some (.modified old new record)

def ofOptions : Option α → Option α → Option (Change α)
  | none, none => none
  | none, some new => some (.added new)
  | some old, none => some (.removed old)
  | some old, some new => between? old new

end Change

/-- The changes of paired lists: those of the new list in its order, then the old entries that are gone. -/
def Pairing.changes {α : Type} [Compared α] (pairing : Pairing α) : List (Change α) :=
  (pairing.rows.filterMap fun row => Change.ofOptions (row.old.map (·.1)) (some row.new.1))
    ++ pairing.unpaired.map fun entry => .removed entry.1

/-- A kind of definition that stands in lists. Entries with the same identity belong together. Where entries can be
renamed, entries of the same shape belong together too. -/
class Listed (α : Type) extends Compared α where
  Identity : Type
  identityEq : DecidableEq Identity
  identity : α → Identity
  Shape : Type
  shapeEq : DecidableEq Shape
  shape : α → Shape
  renamable : Bool

namespace Listed

variable {α : Type} [Listed α]

instance : DecidableEq (Listed.Identity α) := Listed.identityEq
instance : DecidableEq (Listed.Shape α) := Listed.shapeEq

/-- Pairs entries by identity, and if renames are looked for, what is left by shape. -/
def pairing (renames : Bool) (old new : List α) : Pairing α :=
  let paired := (Pairing.start old new).pairBy Listed.identity
  if renames && Listed.renamable α then paired.pairBy Listed.shape else paired

def changes (renames : Bool) (old new : List α) : List (Change α) :=
  (pairing renames old new).changes

end Listed

structure ChangeCounts where
  added : Nat
  removed : Nat
  modified : Nat
  deriving DecidableEq, Repr

namespace ChangeCounts

def ofChanges {α : Type} [Compared α] (changes : List (Change α)) : ChangeCounts where
  added := changes.countP (·.kind == .added)
  removed := changes.countP (·.kind == .removed)
  modified := changes.countP (·.kind == .modified)

def total (counts : ChangeCounts) : Nat :=
  counts.added + counts.removed + counts.modified

theorem total_ofChanges {α : Type} [Compared α] (changes : List (Change α)) :
    (ofChanges changes).total = changes.length := by
  induction changes with
  | nil => rfl
  | cons change rest ih =>
      simp only [total, ofChanges] at ih
      cases change <;> simp [total, ofChanges] <;> omega

end ChangeCounts

end SchemaDrift
