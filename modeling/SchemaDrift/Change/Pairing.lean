/-! Pairing the entries of an old list with those of a new one, by keys. A pass gives each new entry that has no
partner yet the first old entry without one that has its key; so entries that share a key are paired in the
order in which they stand. Further passes, by other keys, pair what is left. -/

namespace SchemaDrift

variable {α κ : Type}

/-- An entry of the new list and the old entry it is paired with, both with their places in their lists. -/
structure PairingRow (α : Type) where
  new : α × Nat
  old : Option (α × Nat)
  deriving DecidableEq, Repr

/-- The rows of the new list in order, and the old entries without a partner in order. -/
structure Pairing (α : Type) where
  rows : List (PairingRow α)
  unpaired : List (α × Nat)
  deriving DecidableEq, Repr

namespace Pairing

def start (old new : List α) : Pairing α :=
  ⟨new.zipIdx.map fun entry => ⟨entry, none⟩, old.zipIdx⟩

variable [DecidableEq κ]

/-- One row of a pass: the row, and the old entries that are left for the rows behind it. -/
def pairRow (key : α → κ) (unpaired : List (α × Nat)) (row : PairingRow α) : PairingRow α × List (α × Nat) :=
  match row.old with
  | some _ => (row, unpaired)
  | none =>
      let fits := fun entry : α × Nat => decide (key entry.1 = key row.new.1)
      ({ row with old := unpaired.find? fits }, unpaired.eraseP fits)

def pairRows (key : α → κ) (unpaired : List (α × Nat)) : List (PairingRow α) → List (PairingRow α) × List (α × Nat)
  | [] => ([], unpaired)
  | row :: rows =>
      let (row, unpaired) := pairRow key unpaired row
      let (rows, unpaired) := pairRows key unpaired rows
      (row :: rows, unpaired)

def pairBy (key : α → κ) (pairing : Pairing α) : Pairing α :=
  let (rows, unpaired) := pairRows key pairing.unpaired pairing.rows
  ⟨rows, unpaired⟩

end Pairing

end SchemaDrift
