import SchemaDrift.Change.Table
import SchemaDrift.Proofs.Leftovers

/-!
Comparing the other way round. The pairing of the new list with the old one is the pairing of the
old list with the new one with its sides exchanged, so every change comes out as its mirror image.
-/

namespace SchemaDrift

open scoped List

namespace Pairing

variable {α κ : Type} [DecidableEq κ]

theorem eq_of_sublists (key : α → κ) {whole first second : List (α × Nat)} (distinct : whole.Nodup)
    (firstOrdered : first.Sublist whole) (secondOrdered : second.Sublist whole)
    (same : ∀ chosen, entriesWith key chosen first = entriesWith key chosen second) :
    first = second := by
  classical
  have members := perm_of_filter_eq (fun entry : α × Nat => key entry.1) first second same
  rw [sublist_eq_filter first whole distinct firstOrdered,
    sublist_eq_filter second whole distinct secondOrdered]
  apply List.filter_congr
  intro entry _
  exact decide_eq_decide.mpr members.mem_iff

theorem Meets.mirrored {key : α → κ} {waiting standing stillWaiting stillStanding : List (α × Nat)}
    {made others : List ((α × Nat) × (α × Nat))} {otherWaiting otherStanding : List (α × Nat)}
    (one : Meets key waiting standing made stillWaiting stillStanding)
    (other : Meets key standing waiting others otherWaiting otherStanding)
    (waitingDistinct : waiting.Nodup) (standingDistinct : standing.Nodup) :
    others ~ made.map Prod.swap ∧ otherWaiting = stillStanding ∧ otherStanding = stillWaiting := by
  have joined (chosen : κ) : others.filter (fun pair => key pair.2.1 = chosen) =
      (made.map Prod.swap).filter (fun pair => key pair.2.1 = chosen) := by
    rw [other.joined, List.filter_map]
    simp only [Function.comp_def, Prod.snd_swap]
    rw [one.joined_old, List.zip_swap]
  refine ⟨perm_of_filter_eq (fun pair => key pair.2.1) _ _ joined, ?_, ?_⟩
  · apply eq_of_sublists key standingDistinct other.leftOrdered one.rightOrdered
    intro chosen
    rw [other.left, one.right]
  · apply eq_of_sublists key waitingDistinct other.rightOrdered one.leftOrdered
    intro chosen
    rw [other.right, one.left]

/-- Two pairings that are the same but for their sides. No entry occurs twice among those without a
partner. -/
structure Mirrored (first second : Pairing α) : Prop where
  pairs : second.pairs ~ first.pairs.map Prod.swap
  unmet : second.unmet = first.unpaired
  unpaired : second.unpaired = first.unmet
  unpairedDistinct : first.unpaired.Nodup
  unmetDistinct : first.unmet.Nodup

theorem start_mirrored (old new : List α) : Mirrored (start old new) (start new old) where
  pairs := .of_eq (by rw [pairs, pairs, start, start, ← openRows, ← openRows]; simp)
  unmet := openOf_openRows old.zipIdx
  unpaired := (openOf_openRows new.zipIdx).symm
  unpairedDistinct := zipIdx_nodup old
  unmetDistinct := by
    have same : (start old new).unmet = new.zipIdx := openOf_openRows new.zipIdx
    rw [same]
    exact zipIdx_nodup new

/-- A pass keeps pairings mirrored. -/
theorem pairBy_mirrored (key : α → κ) {first second : Pairing α} (mirrored : Mirrored first second) :
    Mirrored (first.pairBy key) (second.pairBy key) := by
  obtain ⟨made, pairs, meets⟩ := pairBy_meets key first
  obtain ⟨others, otherPairs, otherMeets⟩ := pairBy_meets key second
  rw [mirrored.unmet, mirrored.unpaired] at otherMeets
  obtain ⟨joined, left, right⟩ :=
    meets.mirrored otherMeets mirrored.unpairedDistinct mirrored.unmetDistinct
  constructor
  case pairs =>
    calc
      (second.pairBy key).pairs ~ second.pairs ++ others := otherPairs
      _ ~ first.pairs.map Prod.swap ++ made.map Prod.swap := mirrored.pairs.append joined
      _ = (first.pairs ++ made).map Prod.swap := List.map_append.symm
      _ ~ (first.pairBy key).pairs.map Prod.swap := (pairs.map _).symm
  case unmet => exact right
  case unpaired => exact left
  case unpairedDistinct => exact mirrored.unpairedDistinct.sublist meets.leftOrdered
  case unmetDistinct => exact mirrored.unmetDistinct.sublist meets.rightOrdered

end Pairing

theorem Listed.pairing_mirrored {α : Type} [Listed α] (renames : Bool) (old new : List α) :
    Pairing.Mirrored (pairing renames old new) (pairing renames new old) := by
  have first := Pairing.pairBy_mirrored identity (Pairing.start_mirrored old new)
  unfold pairing
  dsimp only
  split
  · exact Pairing.pairBy_mirrored shape first
  · exact first

/-! The mirror image of a change, a count and a summary. -/

def FieldChange.mirror {ν : Type} (change : FieldChange ν) : FieldChange ν :=
  ⟨change.new, change.old⟩

def ChangeRecord.mirror {α : Type} [Compared α] (record : ChangeRecord α) : ChangeRecord α :=
  fun aspect => (record aspect).map FieldChange.mirror

def ChangeCounts.mirror (counts : ChangeCounts) : ChangeCounts :=
  ⟨counts.removed, counts.added, counts.modified⟩

def TableSummary.mirror (summary : TableSummary) : TableSummary :=
  { summary with
    columns := summary.columns.mirror
    indexes := summary.indexes.mirror
    foreignKeys := summary.foreignKeys.mirror
    checks := summary.checks.mirror }

theorem ChangeRecord.between_mirror {α : Type} [Compared α] (old new : α) :
    (between old new).mirror = between new old := by
  funext aspect
  by_cases same : Compared.content aspect old = Compared.content aspect new
  · simp [mirror, between, same]
  · simp [mirror, between, same, Ne.symm same, FieldChange.mirror]

theorem ChangeRecord.isEmpty_mirror {α : Type} [Compared α] (record : ChangeRecord α) :
    record.mirror.isEmpty = record.isEmpty := by
  simp [isEmpty, mirror]

namespace Change

variable {α : Type} [Compared α]

def mirror : Change α → Change α
  | .added new => .removed new
  | .removed old => .added old
  | .modified old new record => .modified new old record.mirror

theorem between?_mirror (old new : α) : (between? old new).map mirror = between? new old := by
  rw [between?, between?, ← ChangeRecord.between_mirror old new, ChangeRecord.isEmpty_mirror]
  cases (ChangeRecord.between old new).isEmpty <;> rfl

theorem ofOptions_mirror (old new : Option α) :
    (ofOptions old new).map mirror = ofOptions new old := by
  cases old with
  | none => cases new <;> rfl
  | some before =>
      cases new with
      | none => rfl
      | some after => exact between?_mirror before after

end Change

theorem ChangeCounts.ofChanges_mirror {α : Type} [Compared α] {changes others : List (Change α)}
    (mirrored : others ~ changes.map Change.mirror) : ofChanges others = (ofChanges changes).mirror := by
  have kinds (wanted : ChangeKind) : others.countP (·.kind == wanted) =
      changes.countP (·.mirror.kind == wanted) := by
    rw [mirrored.countP_eq, List.countP_map]
    rfl
  simp only [ofChanges, mirror, kinds, mk.injEq]
  refine ⟨?_, ?_, ?_⟩
  all_goals
    apply List.countP_congr
    intro change _
    cases change <;> simp [Change.mirror]

namespace Pairing

variable {α : Type} [Compared α]

theorem modifiedOf_swap (pairs : List ((α × Nat) × (α × Nat))) :
    modifiedOf (pairs.map Prod.swap) = (modifiedOf pairs).map Change.mirror := by
  rw [modifiedOf, modifiedOf, List.filterMap_map, List.map_filterMap]
  apply List.filterMap_congr
  intro pair _
  exact (Change.between?_mirror pair.1.1 pair.2.1).symm

theorem Mirrored.changes {first second : Pairing α} (mirrored : Mirrored first second) :
    second.changes ~ first.changes.map Change.mirror := by
  have pairs : modifiedOf second.pairs ~ (modifiedOf first.pairs).map Change.mirror := by
    rw [← modifiedOf_swap]
    exact mirrored.pairs.filterMap _
  have parts := (changes_perm first).map Change.mirror
  simp only [List.map_append, List.map_map] at parts
  calc
    second.changes ~
        modifiedOf second.pairs ++
          (second.unmet.map (fun entry => .added entry.1) ++
            second.unpaired.map fun entry => .removed entry.1) := changes_perm second
    _ ~ (modifiedOf first.pairs).map Change.mirror ++
          (first.unmet.map (fun entry => .removed entry.1) ++
            first.unpaired.map fun entry => .added entry.1) := by
      rw [mirrored.unmet, mirrored.unpaired]
      exact pairs.append List.perm_append_comm
    _ ~ first.changes.map Change.mirror := parts.symm

end Pairing

theorem Listed.changes_mirrored {α : Type} [Listed α] (renames : Bool) (old new : List α) :
    changes renames new old ~ (changes renames old new).map Change.mirror :=
  (pairing_mirrored renames old new).changes

namespace TableDiff

/-- The second comparison is the first one seen in a mirror, part by part. -/
structure Mirrored (diff other : TableDiff) : Prop where
  nameChanged : other.nameChanged = diff.nameChanged
  columns : other.columns ~ diff.columns.map Change.mirror
  primaryKey : other.primaryKey = diff.primaryKey.map Change.mirror
  indexes : other.indexes ~ diff.indexes.map Change.mirror
  foreignKeys : other.foreignKeys ~ diff.foreignKeys.map Change.mirror
  checks : other.checks ~ diff.checks.map Change.mirror
  options : other.options = diff.options.map Change.mirror
  partitioning : other.partitioning = diff.partitioning.map Change.mirror

theorem between_mirrored (renames : Bool) (old new : Option Table) :
    Mirrored (between renames old new) (between renames new old) where
  nameChanged := by
    cases old with
    | none => cases new <;> rfl
    | some before =>
        cases new with
        | none => rfl
        | some after => exact bne_comm
  columns := Listed.changes_mirrored renames _ _
  primaryKey := (Change.ofOptions_mirror _ _).symm
  indexes := Listed.changes_mirrored renames _ _
  foreignKeys := Listed.changes_mirrored renames _ _
  checks := Listed.changes_mirrored renames _ _
  options := (Change.ofOptions_mirror _ _).symm
  partitioning := (Change.ofOptions_mirror _ _).symm

theorem Mirrored.summary {diff other : TableDiff} (mirrored : Mirrored diff other) :
    other.summary = diff.summary.mirror := by
  simp only [TableDiff.summary, TableSummary.mirror, mirrored.nameChanged, mirrored.primaryKey,
    mirrored.options, mirrored.partitioning, Option.isSome_map,
    ChangeCounts.ofChanges_mirror mirrored.columns, ChangeCounts.ofChanges_mirror mirrored.indexes,
    ChangeCounts.ofChanges_mirror mirrored.foreignKeys,
    ChangeCounts.ofChanges_mirror mirrored.checks]

theorem Mirrored.hasChanges {diff other : TableDiff} (mirrored : Mirrored diff other) :
    other.hasChanges = diff.hasChanges := by
  simp only [TableDiff.hasChanges, mirrored.nameChanged, mirrored.primaryKey, mirrored.options,
    mirrored.partitioning, Option.isSome_map, mirrored.columns.isEmpty_eq,
    mirrored.indexes.isEmpty_eq, mirrored.foreignKeys.isEmpty_eq, mirrored.checks.isEmpty_eq,
    List.isEmpty_map]

/-- Diffs reverse: comparing the other way round gives the mirror image, in every list up to the order
of its entries, with the counts of added and removed entries exchanged. -/
theorem between_reversed (renames : Bool) (old new : Option Table) :
    Mirrored (between renames old new) (between renames new old) ∧
      (between renames new old).summary = (between renames old new).summary.mirror ∧
      (between renames new old).hasChanges = (between renames old new).hasChanges := by
  have mirrored := between_mirrored renames old new
  exact ⟨mirrored, mirrored.summary, mirrored.hasChanges⟩

end TableDiff

end SchemaDrift
