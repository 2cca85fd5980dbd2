import SchemaDrift.Change.Table
import SchemaDrift.Proofs.Pairing

/-!
Lists whose entries keep their identities in their places. Such lists are compared entry by entry, so
an edit of one entry is the one change that is reported.
-/

namespace SchemaDrift

namespace Pairing

variable {α κ : Type} [DecidableEq κ]

def abreast (old new : List α) (start : Nat) : List (PairingRow α) :=
  List.zipWith (fun old new => ⟨new, some old⟩) (old.zipIdx start) (new.zipIdx start)

theorem abreast_cons (before after : α) (old new : List α) (start : Nat) :
    abreast (before :: old) (after :: new) start =
      ⟨(after, start), some (before, start)⟩ :: abreast old new (start + 1) := rfl

theorem pairRows_abreast (key : α → κ) (old new : List α) (start : Nat)
    (same : old.map key = new.map key) :
    pairRows key (old.zipIdx start) ((new.zipIdx start).map fun entry => ⟨entry, none⟩) =
      (abreast old new start, []) := by
  induction old generalizing new start with
  | nil =>
      obtain rfl : new = [] := by simpa using same
      rfl
  | cons before old ih =>
      obtain ⟨after, new, rfl, agree, same⟩ := List.map_eq_cons_iff.mp same.symm
      have tail := ih new (start + 1) same.symm
      simp [pairRows, pairRow, abreast_cons, agree, tail]

theorem pairRows_nil (key : α → κ) (rows : List (PairingRow α)) :
    pairRows key [] rows = (rows, []) := by
  induction rows with
  | nil => rfl
  | cons row rest ih =>
      obtain ⟨new, old⟩ := row
      cases old <;> simp [pairRows, pairRow, ih]

end Pairing

namespace Listed

variable {α : Type} [Listed α] {old new : List α}

theorem pairing_abreast (renames : Bool) (same : old.map identity = new.map identity) :
    pairing renames old new = ⟨Pairing.abreast old new 0, []⟩ := by
  have first : (Pairing.start old new).pairBy identity = ⟨Pairing.abreast old new 0, []⟩ := by
    simp [Pairing.pairBy, Pairing.start, Pairing.pairRows_abreast identity old new 0 same]
  have second : Pairing.pairBy shape ⟨Pairing.abreast old new 0, []⟩ =
      ⟨Pairing.abreast old new 0, []⟩ := by
    simp [Pairing.pairBy, Pairing.pairRows_nil]
  simp only [pairing, first, second, ite_self]

theorem changes_abreast (renames : Bool) (same : old.map identity = new.map identity) :
    changes renames old new = (old.zip new).filterMap fun pair => Change.between? pair.1 pair.2 := by
  have each (start : Nat) : (Pairing.abreast old new start).filterMap
      (fun row => Change.ofOptions (row.old.map (·.1)) (some row.new.1)) =
        (old.zip new).filterMap fun pair => Change.between? pair.1 pair.2 := by
    clear same
    induction old generalizing new start with
    | nil => rfl
    | cons before old ih =>
        cases new with
        | nil => rfl
        | cons after new =>
            have first : Change.ofOptions (some before) (some after) = Change.between? before after := rfl
            rw [Pairing.abreast_cons, List.filterMap_cons, ih, List.zip_cons_cons, List.filterMap_cons]
            simp only [Option.map_some, first]
  rw [changes, pairing_abreast renames same, Pairing.changes, List.map_nil, List.append_nil, each]

theorem between?_self (entry : α) : Change.between? entry entry = none := by
  simp [Change.between?, ChangeRecord.isEmpty_between_iff]

theorem filterMap_zip_self (entries : List α) :
    ((entries.zip entries).filterMap fun pair => Change.between? pair.1 pair.2) = [] := by
  induction entries with
  | nil => rfl
  | cons entry rest ih => simp [between?_self, ih]

theorem changes_edited (renames : Bool) {before after : α} (same : identity before = identity after)
    (earlier later : List α) :
    changes renames (earlier ++ before :: later) (earlier ++ after :: later) =
      (Change.between? before after).toList := by
  rw [changes_abreast renames (by simp [same]), List.zip_append rfl, List.zip_cons_cons,
    List.filterMap_append, List.filterMap_cons, filterMap_zip_self, filterMap_zip_self]
  cases Change.between? before after <;> rfl

end Listed

end SchemaDrift
