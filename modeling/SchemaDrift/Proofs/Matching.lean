import SchemaDrift.Proofs.Comparison
import SchemaDrift.Proofs.Pairing
import Mathlib.Data.List.FinRange

/-!
What the change list of a table accounts for. Behind every change list stands a one-to-one matching
of places: the list says exactly which new entries have no partner, which pairs differ and which old
entries are left, so together with one side of the comparison it gives the other side back.
-/

namespace SchemaDrift

/-- A partial matching between the places of two lists. A new place has one old partner at most, and
no old place is the partner of two. -/
structure Matching {α : Type} (old new : List α) where
  partner : Fin new.length → Option (Fin old.length)
  injective : ∀ first second origin,
    partner first = some origin → partner second = some origin → first = second

namespace Matching

variable {α : Type} {old new : List α}

/-- Matched entries stand in the relation. -/
def Within (related : α → α → Prop) (matching : Matching old new) : Prop :=
  ∀ place origin, matching.partner place = some origin → related old[origin] new[place]

/-- The old places that are nobody's partner, in order. -/
def left (matching : Matching old new) : List (Fin old.length) :=
  (List.finRange old.length).filter fun origin => ∀ place, matching.partner place ≠ some origin

variable [Compared α] [DecidableEq α]

/-- What a new place has to report: an addition, a difference, or nothing where it equals its
partner. -/
def change? (matching : Matching old new) (place : Fin new.length) : Option (Change α) :=
  match matching.partner place with
  | none => some (.added new[place])
  | some origin =>
      if old[origin] = new[place] then none
      else some (.modified old[origin] new[place] (.between old[origin] new[place]))

def changes (matching : Matching old new) : List (Change α) :=
  (List.finRange new.length).filterMap matching.change?
    ++ matching.left.map fun origin => .removed old[origin]

end Matching

namespace Pairing

variable {α : Type} {old new : List α} {pairing : Pairing α}

def partnerAt (old : List α) (pairing : Pairing α) (place : Nat) : Option (Fin old.length) := do
  let row ← pairing.rows[place]?
  let entry ← row.old
  if inside : entry.2 < old.length then some ⟨entry.2, inside⟩ else none

theorem rows_length (sound : Sound old new pairing) : pairing.rows.length = new.length := by
  simpa using congrArg List.length sound.rows

theorem taken_at (sound : Sound old new pairing) (entry : α × Nat)
    (member : entry ∈ taken pairing.rows) : old[entry.2]? = some entry.1 := by
  have present := sound.split.subset (List.mem_append_left pairing.unpaired member)
  exact List.mem_zipIdx_iff_getElem?.mp present

theorem zipIdx_nodup (entries : List α) : entries.zipIdx.Nodup := by
  have places : (entries.zipIdx.map Prod.snd).Nodup := by
    rw [List.zipIdx_map_snd]
    exact List.nodup_range'
  exact List.Nodup.of_map Prod.snd places

theorem split_nodup (sound : Sound old new pairing) :
    (taken pairing.rows ++ pairing.unpaired).Nodup :=
  sound.split.nodup_iff.mpr (zipIdx_nodup old)

theorem row_at (sound : Sound old new pairing) (place : Nat) (inside : place < new.length) :
    pairing.rows[place]? =
      some ⟨(new[place], place),
        (partnerAt old pairing place).map fun origin => (old[origin], origin.val)⟩ := by
  have bound : place < pairing.rows.length := by rw [rows_length sound]; exact inside
  have named : pairing.rows[place].new = (new[place], place) := by
    have same := congrArg (·[place]?) sound.rows
    simpa [bound, inside] using same
  have found : pairing.rows[place]? = some pairing.rows[place] := List.getElem?_eq_getElem bound
  rw [found]
  cases held : pairing.rows[place].old with
  | none =>
      have free : partnerAt old pairing place = none := by simp [partnerAt, found, held]
      rw [free, ← named, Option.map_none, ← held]
  | some entry =>
      have member : entry ∈ taken pairing.rows :=
        List.mem_filterMap.mpr ⟨_, List.getElem_mem bound, held⟩
      obtain ⟨within, same⟩ := List.getElem?_eq_some_iff.mp (taken_at sound entry member)
      have partner : partnerAt old pairing place = some ⟨entry.2, within⟩ := by
        simp [partnerAt, found, held, within]
      rw [partner, ← named, Option.map_some]
      simp only [Fin.getElem_fin, same, ← held]

theorem rows_eq (sound : Sound old new pairing) :
    pairing.rows = (List.finRange new.length).map fun place =>
      ⟨(new[place], place.val),
        (partnerAt old pairing place).map fun origin => (old[origin], origin.val)⟩ := by
  apply List.ext_getElem?
  intro place
  by_cases inside : place < new.length
  · rw [row_at sound place inside]
    simp [inside]
  · have beyond : pairing.rows.length ≤ place := by rw [rows_length sound]; omega
    simp [List.getElem?_eq_none beyond, inside]

theorem mem_taken_iff (sound : Sound old new pairing) (origin : Fin old.length) :
    (old[origin], origin.val) ∈ taken pairing.rows ↔
      ∃ place : Fin new.length, partnerAt old pairing place = some origin := by
  constructor
  · intro member
    obtain ⟨row, present, held⟩ := List.mem_filterMap.mp member
    rw [rows_eq sound] at present
    obtain ⟨place, _, same⟩ := List.mem_map.mp present
    subst row
    obtain ⟨other, partner, entry⟩ := Option.map_eq_some_iff.mp held
    have places : other = origin := Fin.ext (congrArg Prod.snd entry)
    exact ⟨place, places ▸ partner⟩
  · rintro ⟨place, partner⟩
    have found := row_at sound place.val place.isLt
    exact List.mem_filterMap.mpr ⟨_, List.mem_of_getElem? found, by simp [partner]⟩

theorem partnerAt_injective (sound : Sound old new pairing) (first second : Fin new.length)
    (origin : Fin old.length) (firstHas : partnerAt old pairing first = some origin)
    (secondHas : partnerAt old pairing second = some origin) : first = second := by
  have apart := (List.nodup_append.mp (split_nodup sound)).1
  rw [taken, List.Nodup, List.pairwise_filterMap, List.pairwise_iff_getElem] at apart
  have held : ∀ place : Fin new.length, partnerAt old pairing place = some origin →
      ∃ bound : place.val < pairing.rows.length,
        pairing.rows[place.val].old = some (old[origin], origin.val) := by
    intro place has
    obtain ⟨bound, same⟩ := List.getElem?_eq_some_iff.mp (row_at sound place.val place.isLt)
    exact ⟨bound, by simp [same, has]⟩
  obtain ⟨firstBound, firstHeld⟩ := held first firstHas
  obtain ⟨secondBound, secondHeld⟩ := held second secondHas
  rcases Nat.lt_trichotomy first.val second.val with before | same | behind
  · exact absurd rfl (apart _ _ firstBound secondBound before _ firstHeld _ secondHeld)
  · exact Fin.ext same
  · exact absurd rfl (apart _ _ secondBound firstBound behind _ secondHeld _ firstHeld)

/-- The matching that the rows write down. -/
def matching (sound : Sound old new pairing) : Matching old new where
  partner place := partnerAt old pairing place
  injective := partnerAt_injective sound

theorem sublist_eq_filter {β : Type} [DecidableEq β] (part whole : List β) (distinct : whole.Nodup)
    (ordered : part.Sublist whole) : part = whole.filter (· ∈ part) := by
  have inside : part.Sublist (whole.filter (· ∈ part)) := by
    have kept := ordered.filter (· ∈ part)
    rwa [List.filter_eq_self.mpr (by simp)] at kept
  have members : whole.filter (· ∈ part) ⊆ part :=
    fun entry member => by simpa using (List.mem_filter.mp member).2
  exact inside.eq_of_length_le ((distinct.filter _).length_le_of_subset members)

theorem zipIdx_eq_finRange (entries : List α) :
    entries.zipIdx =
      (List.finRange entries.length).map fun place => (entries[place], place.val) := by
  apply List.ext_getElem?
  intro place
  by_cases inside : place < entries.length <;> simp [inside]

theorem unpaired_eq [DecidableEq α] (sound : Sound old new pairing) :
    pairing.unpaired = (matching sound).left.map fun origin => (old[origin], origin.val) := by
  have disjoint := (List.nodup_append.mp (split_nodup sound)).2.2
  rw [sublist_eq_filter _ _ (zipIdx_nodup old) sound.ordered, zipIdx_eq_finRange, List.filter_map,
    Matching.left]
  congr 1
  apply List.filter_congr
  intro origin _
  have split : (old[origin], origin.val) ∈ taken pairing.rows ++ pairing.unpaired := by
    apply sound.split.symm.subset
    rw [zipIdx_eq_finRange]
    exact List.mem_map_of_mem (List.mem_finRange origin)
  have waiting : (old[origin], origin.val) ∈ pairing.unpaired ↔
      ¬ (old[origin], origin.val) ∈ taken pairing.rows := by
    constructor
    · intro member other
      exact disjoint _ other _ member rfl
    · intro free
      exact (List.mem_append.mp split).resolve_left free
  simp only [Function.comp_apply, decide_eq_decide, waiting, mem_taken_iff sound, not_exists]
  rfl

end Pairing

end SchemaDrift
