import SchemaDrift.Change.Table
import SchemaDrift.Proofs.KeyText
import SchemaDrift.Proofs.Pairing

/-!
Entries that a pass may pair are compared in full: where no aspect of them differs they are the same
entry. Names of columns and the key parts of indexes are the two things that no aspect, or only a
text, compares; the keys of the passes settle them.
-/

namespace SchemaDrift

attribute [ext] Column Index ForeignKey Reference Check

namespace Listed

/-- Do the entries share the identity, or the shape where renames are looked for? -/
def Alike {α : Type} [Listed α] (renames : Bool) (old new : α) : Prop :=
  Listed.identity old = Listed.identity new ∨
    (renames && Listed.renamable α) = true ∧ Listed.shape old = Listed.shape new

class Complete (α : Type) [Listed α] : Prop where
  eq_of_contents : ∀ old new : α,
    Listed.identity old = Listed.identity new ∨ Listed.shape old = Listed.shape new →
      (∀ aspect : Compared.Aspect α, Compared.content aspect old = Compared.content aspect new) →
        old = new

instance : Complete Column where
  eq_of_contents old new keys contents := by
    have name : old.name = new.name := by
      rcases keys with identities | shapes
      · exact identities
      · exact shapes
    exact Column.ext name (contents .dataType) (contents .nullability) (contents .defaultValue)
      (contents .autoIncrement) (contents .unique) (contents .primaryKey) (contents .comment)
      (contents .collation) (contents .characterSet) (contents .visible) (contents .generated)
      (contents .columnFormat) (contents .storage) (contents .onUpdate) (contents .reference)

instance : Complete Index where
  eq_of_contents old new keys contents := by
    have names : KeyPart.names old.columns = KeyPart.names new.columns := by
      rcases keys with identities | shapes
      · exact congrArg (·.2.1) identities
      · exact congrArg (·.1) shapes
    have columns := KeyPart.listText_injective old.columns new.columns names (contents .columns)
    exact Index.ext (contents .name) (contents .kind) columns (contents .keyBlockSize)
      (contents .indexType) (contents .comment) (contents .visible) (contents .parser)
      (contents .algorithm) (contents .lock) (contents .engineAttribute)

instance : Complete ForeignKey where
  eq_of_contents _ _ _ contents :=
    ForeignKey.ext (contents .name) (contents .columns)
      (Reference.ext (contents .referenceTable) (contents .referenceColumns) (contents .onDelete)
        (contents .onUpdate))

instance : Complete Check where
  eq_of_contents _ _ _ contents :=
    Check.ext (contents .name) (contents .expression) (contents .enforced)

variable {α : Type} [Listed α]

theorem keys_of_alike (renames : Bool) (old new : α) (alike : Alike renames old new) :
    Listed.identity old = Listed.identity new ∨ Listed.shape old = Listed.shape new := by
  rcases alike with identities | ⟨_, shapes⟩
  · exact Or.inl identities
  · exact Or.inr shapes

theorem pairing_sound (renames : Bool) (old new : List α) :
    Pairing.Sound old new (pairing renames old new) := by
  have first := Pairing.pairBy_sound identity old new _ (Pairing.start_sound old new)
  unfold pairing
  dsimp only
  split
  · exact Pairing.pairBy_sound shape old new _ first
  · exact first

theorem pairing_within (renames : Bool) (old new : List α) :
    Pairing.Within (Alike renames) (pairing renames old new) := by
  have first := Pairing.pairBy_within identity (Alike renames) (Pairing.start old new)
    (fun _ _ same => Or.inl same) (Pairing.start_within _ old new)
  unfold pairing
  dsimp only
  split
  case isTrue wanted =>
      exact Pairing.pairBy_within shape (Alike renames) _
        (fun _ _ same => Or.inr ⟨wanted, same⟩) first
  case isFalse => exact first

variable [Complete α]

theorem isEmpty_record_iff (renames : Bool) (old new : α) (alike : Alike renames old new) :
    (ChangeRecord.between old new).isEmpty = true ↔ old = new := by
  rw [ChangeRecord.isEmpty_between_iff]
  constructor
  · intro contents
    exact Complete.eq_of_contents old new (keys_of_alike renames old new alike) contents
  · rintro rfl _
    rfl

theorem between?_of_alike [DecidableEq α] (renames : Bool) (old new : α)
    (alike : Alike renames old new) :
    Change.between? old new =
      if old = new then none else some (.modified old new (ChangeRecord.between old new)) := by
  simp only [Change.between?, isEmpty_record_iff renames old new alike]

end Listed

end SchemaDrift
