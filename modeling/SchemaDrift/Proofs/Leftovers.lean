import Mathlib.Algebra.BigOperators.Group.Finset.Basic
import Mathlib.Data.List.Zip
import SchemaDrift.Proofs.Matching

/-!
What a pass makes of the two sides, without telling one from the other. For each key it joins the
waiting entries and the open rows with that key in order, as far as both go, and leaves what is left
on one side. The loop goes along the new list and searches the old one; seen like this, it might as
well go the other way.
-/

namespace SchemaDrift

open scoped List

theorem perm_of_filter_eq {β κ : Type} [DecidableEq κ] (key : β → κ) (xs ys : List β)
    (same : ∀ chosen, xs.filter (key · = chosen) = ys.filter (key · = chosen)) : xs ~ ys := by
  classical
  apply List.perm_iff_count.mpr
  intro entry
  have own (zs : List β) : zs.count entry = (zs.filter (key · = key entry)).count entry :=
    (List.count_filter (by simp)).symm
  rw [own xs, same, ← own ys]

theorem zip_fst_append_drop {β γ : Type} (xs : List β) (ys : List γ) :
    (xs.zip ys).map Prod.fst ++ xs.drop ys.length = xs := by
  induction xs generalizing ys with
  | nil => simp
  | cons x xs ih =>
      cases ys with
      | nil => rfl
      | cons y ys => exact congrArg (x :: ·) (ih ys)

theorem zip_snd_append_drop {β γ : Type} (xs : List β) (ys : List γ) :
    (xs.zip ys).map Prod.snd ++ ys.drop xs.length = ys := by
  rw [← List.zip_swap, List.map_map]
  exact zip_fst_append_drop ys xs

namespace Pairing

variable {α κ : Type}

def pairsOf (rows : List (PairingRow α)) : List ((α × Nat) × (α × Nat)) :=
  rows.filterMap fun row => row.old.map (·, row.new)

def openOf (rows : List (PairingRow α)) : List (α × Nat) :=
  (rows.filter (·.old.isNone)).map (·.new)

def openRows (entries : List (α × Nat)) : List (PairingRow α) :=
  entries.map (⟨·, none⟩)

def pairs (pairing : Pairing α) : List ((α × Nat) × (α × Nat)) :=
  pairsOf pairing.rows

def unmet (pairing : Pairing α) : List (α × Nat) :=
  openOf pairing.rows

theorem pairsOf_cons (row : PairingRow α) (rows : List (PairingRow α)) :
    pairsOf (row :: rows) = pairsOf [row] ++ pairsOf rows :=
  List.filterMap_append (l := [row])

theorem openOf_cons (row : PairingRow α) (rows : List (PairingRow α)) :
    openOf (row :: rows) = openOf [row] ++ openOf rows := by
  rw [openOf, ← List.singleton_append, List.filter_append, List.map_append]
  rfl

theorem openRows_cons (entry : α × Nat) (entries : List (α × Nat)) :
    openRows (entry :: entries) = ⟨entry, none⟩ :: openRows entries := rfl

@[simp] theorem openRows_length (entries : List (α × Nat)) :
    (openRows entries).length = entries.length :=
  List.length_map _

@[simp] theorem pairsOf_openRows (entries : List (α × Nat)) : pairsOf (openRows entries) = [] := by
  simp [pairsOf, openRows]

@[simp] theorem openOf_openRows (entries : List (α × Nat)) : openOf (openRows entries) = entries := by
  induction entries with
  | nil => rfl
  | cons entry rest ih =>
      rw [openRows_cons, openOf_cons, ih]
      rfl

/-- What a pass may make of the entries that wait and those that stand in open rows. -/
structure Meets [DecidableEq κ] (key : α → κ) (waiting standing : List (α × Nat))
    (made : List ((α × Nat) × (α × Nat))) (stillWaiting stillStanding : List (α × Nat)) : Prop where
  joined : ∀ chosen, made.filter (fun pair => key pair.2.1 = chosen) =
    (entriesWith key chosen waiting).zip (entriesWith key chosen standing)
  left : ∀ chosen, entriesWith key chosen stillWaiting =
    (entriesWith key chosen waiting).drop (entriesWith key chosen standing).length
  right : ∀ chosen, entriesWith key chosen stillStanding =
    (entriesWith key chosen standing).drop (entriesWith key chosen waiting).length
  leftOrdered : stillWaiting.Sublist waiting
  rightOrdered : stillStanding.Sublist standing

theorem count_keys [DecidableEq κ] (key : α → κ) (chosen : κ) (entries : List (α × Nat)) :
    (entries.map (key ·.1)).count chosen = (entriesWith key chosen entries).length := by
  rw [entriesWith, ← List.countP_eq_length_filter, List.count, List.countP_map]
  rfl

namespace Meets

variable [DecidableEq κ] {key : α → κ} {waiting standing : List (α × Nat)}
  {made : List ((α × Nat) × (α × Nat))} {stillWaiting stillStanding : List (α × Nat)}
  (meets : Meets key waiting standing made stillWaiting stillStanding)
include meets

theorem of_made {old new : α × Nat} (member : (old, new) ∈ made) :
    old ∈ waiting ∧ new ∈ standing ∧ key old.1 = key new.1 := by
  have own : (old, new) ∈ made.filter (fun pair => key pair.2.1 = key new.1) :=
    List.mem_filter.mpr ⟨member, by simp⟩
  rw [meets.joined] at own
  obtain ⟨left, right⟩ := List.of_mem_zip own
  obtain ⟨waits, agree⟩ := List.mem_filter.mp left
  exact ⟨waits, (List.mem_filter.mp right).1, by simpa using agree⟩

theorem joined_old (chosen : κ) : made.filter (fun pair => key pair.1.1 = chosen) =
    (entriesWith key chosen waiting).zip (entriesWith key chosen standing) := by
  rw [← meets.joined]
  apply List.filter_congr
  rintro ⟨old, new⟩ member
  simp only [(meets.of_made member).2.2]

theorem left_perm : made.map Prod.fst ++ stillWaiting ~ waiting := by
  apply perm_of_filter_eq fun entry : α × Nat => key entry.1
  intro chosen
  have joined := congrArg (List.map Prod.fst) (meets.joined_old chosen)
  rw [List.filter_append, List.filter_map]
  exact (congrArg₂ (· ++ ·) joined (meets.left chosen)).trans (zip_fst_append_drop _ _)

theorem right_perm : made.map Prod.snd ++ stillStanding ~ standing := by
  apply perm_of_filter_eq fun entry : α × Nat => key entry.1
  intro chosen
  have joined := congrArg (List.map Prod.snd) (meets.joined chosen)
  rw [List.filter_append, List.filter_map]
  exact (congrArg₂ (· ++ ·) joined (meets.right chosen)).trans (zip_snd_append_drop _ _)

theorem apart {old new : α × Nat} (waits : old ∈ stillWaiting) (stands : new ∈ stillStanding) :
    key old.1 ≠ key new.1 := by
  intro same
  have left : old ∈ entriesWith key (key new.1) stillWaiting :=
    List.mem_filter.mpr ⟨waits, by simp [same]⟩
  have right : new ∈ entriesWith key (key new.1) stillStanding :=
    List.mem_filter.mpr ⟨stands, by simp⟩
  rw [meets.left] at left
  rw [meets.right] at right
  have more := List.length_pos_of_mem left
  have less := List.length_pos_of_mem right
  simp only [List.length_drop] at more less
  omega

theorem length_made : made.length = ∑ chosen ∈ (waiting.map (key ·.1)).toFinset,
    min ((waiting.map (key ·.1)).count chosen) ((standing.map (key ·.1)).count chosen) := by
  let keys : Multiset κ := made.map (key ·.2.1)
  have covered : ∀ chosen ∈ keys, chosen ∈ (waiting.map (key ·.1)).toFinset := by
    intro chosen member
    obtain ⟨⟨old, new⟩, present, rfl⟩ := List.mem_map.mp (Multiset.mem_coe.mp member)
    obtain ⟨waits, _, same⟩ := meets.of_made present
    exact List.mem_toFinset.mpr (List.mem_map.mpr ⟨old, waits, same⟩)
  have each (chosen : κ) : keys.count chosen =
      min ((waiting.map (key ·.1)).count chosen) ((standing.map (key ·.1)).count chosen) := by
    rw [count_keys, count_keys, ← List.length_zip, ← meets.joined, ← List.countP_eq_length_filter,
      Multiset.coe_count, List.count, List.countP_map]
    rfl
  have total := Multiset.sum_count_eq_card covered
  simp only [each] at total
  rw [total, Multiset.coe_card, List.length_map]

end Meets

section Pass

variable [DecidableEq κ] (key : α → κ)

theorem pairRows_openRows (unpaired : List (α × Nat)) (rows : List (PairingRow α)) :
    pairsOf (pairRows key unpaired rows).1 ~
        pairsOf rows ++ pairsOf (pairRows key unpaired (openRows (openOf rows))).1 ∧
      openOf (pairRows key unpaired rows).1 =
        openOf (pairRows key unpaired (openRows (openOf rows))).1 ∧
      (pairRows key unpaired rows).2 = (pairRows key unpaired (openRows (openOf rows))).2 := by
  induction rows generalizing unpaired with
  | nil => exact ⟨.refl _, rfl, rfl⟩
  | cons row rest ih =>
      obtain ⟨new, old⟩ := row
      cases old with
      | some entry =>
          obtain ⟨pairs, standing, waiting⟩ := ih unpaired
          exact ⟨pairs.cons (entry, new), standing, waiting⟩
      | none =>
          obtain ⟨pairs, standing, waiting⟩ := ih (pairRow key unpaired ⟨new, none⟩).2
          have opens : openOf (⟨new, none⟩ :: rest) = new :: openOf rest := rfl
          rw [opens, openRows_cons]
          refine ⟨?_, ?_, waiting⟩
          · simp only [pairRows]
            rw [pairsOf_cons, pairsOf_cons _ (pairRows _ _ (openRows _)).1]
            exact (pairs.append_left _).trans (List.perm_append_comm_assoc _ _ _)
          · simp only [pairRows]
            rw [openOf_cons, standing, ← openOf_cons]

/-- Where all share one key, the two sides are joined in order as far as both go. -/
theorem pairRows_zip (chosen : κ) (waiting standing : List (α × Nat))
    (waitingShare : ∀ entry ∈ waiting, key entry.1 = chosen)
    (standingShare : ∀ entry ∈ standing, key entry.1 = chosen) :
    pairsOf (pairRows key waiting (openRows standing)).1 = waiting.zip standing ∧
      openOf (pairRows key waiting (openRows standing)).1 = standing.drop waiting.length := by
  induction standing generalizing waiting with
  | nil => simp [openRows, pairRows, pairsOf, openOf]
  | cons entry rest ih =>
      have headShare := standingShare entry List.mem_cons_self
      have restShare := fun other member => standingShare other (List.mem_cons_of_mem entry member)
      cases waiting with
      | nil =>
          obtain ⟨pairs, standing⟩ := ih [] waitingShare restShare
          rw [openRows_cons]
          simp only [pairRows, pairRow]
          rw [pairsOf_cons, openOf_cons]
          exact ⟨pairs, congrArg (entry :: ·) standing⟩
      | cons first others =>
          have fits : key first.1 = key entry.1 :=
            (waitingShare first List.mem_cons_self).trans headShare.symm
          obtain ⟨pairs, standing⟩ :=
            ih others (fun other member => waitingShare other (List.mem_cons_of_mem first member))
              restShare
          rw [openRows_cons]
          simp only [pairRows, pairRow, List.find?_cons, List.eraseP_cons, fits, decide_true,
            cond_true]
          rw [pairsOf_cons, openOf_cons]
          exact ⟨congrArg ((first, entry) :: ·) pairs, standing⟩

theorem openRows_with (chosen : κ) (entries : List (α × Nat)) :
    rowsWith key chosen (openRows entries) = openRows (entriesWith key chosen entries) := by
  rw [rowsWith, openRows, List.filter_map]
  rfl

theorem pairsOf_with (chosen : κ) (rows : List (PairingRow α)) :
    pairsOf (rowsWith key chosen rows) =
      (pairsOf rows).filter fun pair => key pair.2.1 = chosen := by
  induction rows with
  | nil => rfl
  | cons row rest ih =>
      rw [rowsWith_cons, pairsOf_cons row rest, List.filter_append, ← ih]
      obtain ⟨new, old⟩ := row
      by_cases same : key new.1 = chosen
      · rw [if_pos same, pairsOf_cons]
        cases old <;> simp [pairsOf, same]
      · rw [if_neg same]
        cases old <;> simp [pairsOf, same]

theorem openOf_with (chosen : κ) (rows : List (PairingRow α)) :
    openOf (rowsWith key chosen rows) = entriesWith key chosen (openOf rows) := by
  rw [openOf, rowsWith, openOf, entriesWith, List.filter_map, List.filter_filter,
    List.filter_filter]
  congr 1
  apply List.filter_congr
  intro row _
  exact Bool.and_comm _ _

theorem openOf_sublist (unpaired : List (α × Nat)) (rows : List (PairingRow α)) :
    (openOf (pairRows key unpaired rows).1).Sublist (openOf rows) := by
  induction rows generalizing unpaired with
  | nil => exact .refl _
  | cons row rest ih =>
      simp only [pairRows]
      rw [openOf_cons, openOf_cons row rest]
      apply List.Sublist.append _ (ih _)
      rcases pairRow_fills key unpaired row with same | ⟨_, entry, _, _, filled⟩
      · rw [same]
      · rw [filled]
        exact List.nil_sublist _

/-- One pass, for the entries that wait and those that stand in open rows. -/
theorem pairRows_meets (waiting standing : List (α × Nat)) :
    Meets key waiting standing (pairsOf (pairRows key waiting (openRows standing)).1)
      (pairRows key waiting (openRows standing)).2
      (openOf (pairRows key waiting (openRows standing)).1) := by
  have share (chosen : κ) (entries : List (α × Nat)) :
      ∀ entry ∈ entriesWith key chosen entries, key entry.1 = chosen :=
    fun entry member => by simpa using (List.mem_filter.mp member).2
  have own (chosen : κ) := pairRows_with key chosen waiting (openRows standing)
  simp only [openRows_with] at own
  constructor
  case joined =>
    intro chosen
    have zip := pairRows_zip key chosen _ _ (share chosen waiting) (share chosen standing)
    rw [own] at zip
    rw [← pairsOf_with, zip.1]
  case left =>
    intro chosen
    have order := pairRows_in_order key chosen _ (openRows (entriesWith key chosen standing))
      (share chosen waiting) (List.forall_mem_map.mpr (share chosen standing))
      (List.forall_mem_map.mpr fun _ _ => rfl)
    rw [own, openRows_length] at order
    exact order.2
  case right =>
    intro chosen
    have zip := pairRows_zip key chosen _ _ (share chosen waiting) (share chosen standing)
    rw [own] at zip
    rw [← openOf_with, zip.2]
  case leftOrdered => exact pairRows_sublist key waiting (openRows standing)
  case rightOrdered =>
    have kept := openOf_sublist key waiting (openRows standing)
    rwa [openOf_openRows] at kept

theorem pairBy_meets (pairing : Pairing α) :
    ∃ made, (pairing.pairBy key).pairs ~ pairing.pairs ++ made ∧
      Meets key pairing.unpaired pairing.unmet made (pairing.pairBy key).unpaired
        (pairing.pairBy key).unmet := by
  obtain ⟨pairs, standing, waiting⟩ := pairRows_openRows key pairing.unpaired pairing.rows
  have meets := pairRows_meets key pairing.unpaired pairing.unmet
  rw [unmet, ← standing, ← waiting] at meets
  exact ⟨_, pairs, meets⟩

end Pass

variable [Compared α]

def modifiedOf (pairs : List ((α × Nat) × (α × Nat))) : List (Change α) :=
  pairs.filterMap fun pair => Change.between? pair.1.1 pair.2.1

theorem modifiedOf_append (first second : List ((α × Nat) × (α × Nat))) :
    modifiedOf (first ++ second) = modifiedOf first ++ modifiedOf second :=
  List.filterMap_append

theorem modifiedOf_singleton (new old : α × Nat) :
    modifiedOf (pairsOf [⟨new, some old⟩]) = (Change.between? old.1 new.1).toList := by
  cases change : Change.between? old.1 new.1 <;> simp [modifiedOf, pairsOf, change]

theorem changes_perm (pairing : Pairing α) :
    pairing.changes ~
      modifiedOf pairing.pairs ++
        (pairing.unmet.map (fun entry => .added entry.1) ++
          pairing.unpaired.map fun entry => .removed entry.1) := by
  rw [changes, ← List.append_assoc]
  apply List.Perm.append_right
  rw [pairs, unmet]
  induction pairing.rows with
  | nil => exact .refl _
  | cons row rest ih =>
      obtain ⟨new, old⟩ := row
      rw [List.filterMap_cons, pairsOf_cons, openOf_cons]
      cases old with
      | none => exact (ih.cons _).trans List.perm_middle.symm
      | some entry =>
          have made : Change.ofOptions (some entry.1) (some new.1) =
              Change.between? entry.1 new.1 := rfl
          rw [Option.map_some, made, modifiedOf_append, modifiedOf_singleton]
          cases Change.between? entry.1 new.1 with
          | none => exact ih
          | some modified => exact ih.cons modified

end Pairing

end SchemaDrift
