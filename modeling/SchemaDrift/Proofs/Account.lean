import SchemaDrift.Proofs.Matching

/-!
Change lists account for both sides. A list of changes says, for some matching of places, which new
entries have no partner, which pairs differ and which old entries are left over; so the old list and
what the changes show as new hold the same entries as the new list and what the changes show as old.
-/

namespace SchemaDrift

open scoped List

/-- The changes are those of a matching of like entries, and they balance the two lists. -/
structure Accounted {α : Type} [Listed α] [DecidableEq α] (renames : Bool) (old new : List α)
    (changes : List (Change α)) : Prop where
  matched : ∃ matching : Matching old new,
    matching.Within (Listed.Alike renames) ∧ changes = matching.changes
  balanced : (old ++ changes.filterMap Change.after?) ~ (new ++ changes.filterMap Change.before?)

namespace Pairing

variable {α : Type} {old new : List α} {pairing : Pairing α}

theorem matching_within (related : α → α → Prop) (sound : Sound old new pairing)
    (within : Within related pairing) : (matching sound).Within related := by
  intro place origin partner
  have found := List.mem_of_getElem? (row_at sound place.val place.isLt)
  have has : partnerAt old pairing place.val = some origin := partner
  exact within _ found (old[origin], origin.val) (by simp [has])

variable [Listed α] [Listed.Complete α] [DecidableEq α]

theorem change?_matching (renames : Bool) (sound : Sound old new pairing)
    (within : Within (Listed.Alike renames) pairing) (place : Fin new.length) :
    Change.ofOptions ((partnerAt old pairing place.val).map old.get) (some (new.get place)) =
      (matching sound).change? place := by
  have related := matching_within _ sound within place
  cases partner : partnerAt old pairing place.val with
  | none => simp [Change.ofOptions, Matching.change?, matching, partner]
  | some origin =>
      have alike := related origin partner
      simp only [Option.map_some, Change.ofOptions, Matching.change?, matching, partner]
      exact Listed.between?_of_alike renames (old.get origin) (new.get place) alike

theorem changes_eq (renames : Bool) (sound : Sound old new pairing)
    (within : Within (Listed.Alike renames) pairing) :
    pairing.changes = (matching sound).changes := by
  unfold changes Matching.changes
  congr 1
  · rw [rows_eq sound, List.filterMap_map]
    apply List.filterMap_congr
    intro place _
    have change := change?_matching renames sound within place
    simp only [Function.comp_apply, Option.map_map]
    exact change
  · rw [unpaired_eq sound, List.map_map]
    rfl

theorem rows_balance (renames : Bool) (rows : List (PairingRow α))
    (within : ∀ row ∈ rows, ∀ entry, row.old = some entry →
      Listed.Alike renames entry.1 row.new.1) :
    let reported := rows.filterMap fun row => Change.ofOptions (row.old.map (·.1)) (some row.new.1)
    ((taken rows).map (·.1) ++ reported.filterMap Change.after?) ~
      (rows.map (·.new.1) ++ reported.filterMap Change.before?) := by
  induction rows with
  | nil => exact List.Perm.refl _
  | cons row rest ih =>
      have tail := ih fun other member => within other (List.mem_cons_of_mem row member)
      cases held : row.old with
      | none =>
          simp only [taken_cons, held, List.filterMap_cons, Option.map_none, Change.ofOptions,
            Change.after?, Change.before?, List.map_cons, Option.toList_none, List.nil_append,
            List.cons_append]
          exact List.perm_middle.trans (tail.cons _)
      | some entry =>
          have alike := within row List.mem_cons_self entry held
          simp only [taken_cons, held, List.filterMap_cons, Option.map_some, Change.ofOptions,
            Listed.between?_of_alike renames entry.1 row.new.1 alike, List.map_cons,
            Option.toList_some, List.cons_append, List.nil_append]
          by_cases same : entry.1 = row.new.1
          · simp only [same, ↓reduceIte]
            exact tail.cons _
          · simp only [same, ↓reduceIte, List.filterMap_cons, Change.after?, Change.before?]
            calc
              _ ~ entry.1 :: row.new.1 :: _ := List.perm_middle.cons _
              _ ~ row.new.1 :: entry.1 :: _ := List.Perm.swap _ _ _
              _ ~ row.new.1 :: entry.1 :: _ := (tail.cons _).cons _
              _ ~ _ := (List.perm_middle.symm).cons _

theorem changes_balance (renames : Bool) (sound : Sound old new pairing)
    (within : Within (Listed.Alike renames) pairing) :
    (old ++ pairing.changes.filterMap Change.after?) ~
      (new ++ pairing.changes.filterMap Change.before?) := by
  let reported :=
    pairing.rows.filterMap fun row => Change.ofOptions (row.old.map (·.1)) (some row.new.1)
  let waiting := pairing.unpaired.map (·.1)
  have rows := rows_balance renames pairing.rows within
  have split : ((taken pairing.rows).map (·.1) ++ waiting) ~ old := by
    simpa [waiting] using sound.split.map Prod.fst
  have listed : pairing.rows.map (·.new.1) = new := by
    simpa [Function.comp_def] using congrArg (List.map Prod.fst) sound.rows
  have after : pairing.changes.filterMap Change.after? = reported.filterMap Change.after? := by
    simp [changes, reported, List.filterMap_append, List.filterMap_map, Function.comp_def,
      Change.after?]
  have before : pairing.changes.filterMap Change.before? =
      reported.filterMap Change.before? ++ waiting := by
    simp [changes, reported, waiting, List.filterMap_append, List.filterMap_map, Function.comp_def,
      Change.before?]
  rw [after, before]
  rw [listed] at rows
  calc
    old ++ reported.filterMap Change.after?
      ~ (taken pairing.rows).map (·.1) ++ waiting ++ reported.filterMap Change.after? :=
        split.symm.append_right _
    _ = (taken pairing.rows).map (·.1) ++ (waiting ++ reported.filterMap Change.after?) :=
        List.append_assoc _ _ _
    _ ~ (taken pairing.rows).map (·.1) ++ (reported.filterMap Change.after? ++ waiting) :=
        List.perm_append_comm.append_left _
    _ = (taken pairing.rows).map (·.1) ++ reported.filterMap Change.after? ++ waiting :=
        (List.append_assoc _ _ _).symm
    _ ~ new ++ reported.filterMap Change.before? ++ waiting := rows.append_right waiting
    _ = new ++ (reported.filterMap Change.before? ++ waiting) := List.append_assoc _ _ _

end Pairing

theorem Listed.changes_accounted {α : Type} [Listed α] [Listed.Complete α] [DecidableEq α]
    (renames : Bool) (old new : List α) :
    Accounted renames old new (Listed.changes renames old new) := by
  have sound := Listed.pairing_sound renames old new
  have within := Listed.pairing_within renames old new
  exact ⟨⟨Pairing.matching sound, Pairing.matching_within _ sound within,
    Pairing.changes_eq renames sound within⟩, Pairing.changes_balance renames sound within⟩

/-- No definition of either table is lost, doubled or altered in silence. -/
theorem between_accounted (renames : Bool) (old new : Table) :
    let diff := TableDiff.between renames (some old) (some new)
    Accounted renames old.columns new.columns diff.columns ∧
      Accounted renames old.indexes new.indexes diff.indexes ∧
      Accounted renames old.foreignKeys new.foreignKeys diff.foreignKeys ∧
      Accounted renames old.checks new.checks diff.checks :=
  ⟨Listed.changes_accounted renames old.columns new.columns,
    Listed.changes_accounted renames old.indexes new.indexes,
    Listed.changes_accounted renames old.foreignKeys new.foreignKeys,
    Listed.changes_accounted renames old.checks new.checks⟩

end SchemaDrift
