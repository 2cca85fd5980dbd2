import SchemaDrift.Change.Pairing
import Mathlib.Data.List.Forall2
import Mathlib.Data.List.Perm.Basic

/-!
What the passes of a pairing keep and what they reach. One row of a pass moves at most one old entry
out of the waiting list; everything about a pass and about any number of passes follows from that
step.
-/

namespace SchemaDrift.Pairing

open scoped List

variable {α κ : Type}

def taken (rows : List (PairingRow α)) : List (α × Nat) :=
  rows.filterMap (·.old)

/-- What a pass may do to a row: leave it, or give an open one a waiting old entry with its key. -/
def Fills (key : α → κ) (waiting : List (α × Nat)) (before after : PairingRow α) : Prop :=
  after = before ∨
    before.old = none ∧
      ∃ entry ∈ waiting, key entry.1 = key before.new.1 ∧ after = { before with old := some entry }

/-- Every row of the new list in its place, and every old entry either in one row or waiting, in
order. -/
structure Sound (old new : List α) (pairing : Pairing α) : Prop where
  rows : pairing.rows.map (·.new) = new.zipIdx
  split : (taken pairing.rows ++ pairing.unpaired).Perm old.zipIdx
  ordered : pairing.unpaired.Sublist old.zipIdx

def Within (related : α → α → Prop) (pairing : Pairing α) : Prop :=
  ∀ row ∈ pairing.rows, ∀ entry, row.old = some entry → related entry.1 row.new.1

theorem taken_cons (row : PairingRow α) (rows : List (PairingRow α)) :
    taken (row :: rows) = row.old.toList ++ taken rows := by
  cases row with
  | mk new old => cases old <;> simp [taken]

theorem fills_new (key : α → κ) (waiting : List (α × Nat)) (before after : PairingRow α)
    (step : Fills key waiting before after) : after.new = before.new := by
  rcases step with same | ⟨_, _, _, _, filled⟩
  · rw [same]
  · rw [filled]

theorem fills_mono (key : α → κ) (few many : List (α × Nat)) (before after : PairingRow α)
    (covered : few ⊆ many) (step : Fills key few before after) : Fills key many before after := by
  rcases step with same | ⟨opened, entry, member, agree, filled⟩
  · exact Or.inl same
  · exact Or.inr ⟨opened, entry, covered member, agree, filled⟩

section Pass

variable [DecidableEq κ]

theorem pairRow_fills (key : α → κ) (unpaired : List (α × Nat)) (row : PairingRow α) :
    Fills key unpaired row (pairRow key unpaired row).1 := by
  unfold pairRow
  cases held : row.old with
  | some entry => exact Or.inl rfl
  | none =>
      dsimp only
      cases found : unpaired.find? fun entry => decide (key entry.1 = key row.new.1) with
      | none => exact Or.inl (by rw [← held])
      | some entry =>
          have agree := List.find?_some found
          exact Or.inr ⟨held, entry, List.mem_of_find?_eq_some found, by simpa using agree, rfl⟩

theorem pairRow_sublist (key : α → κ) (unpaired : List (α × Nat)) (row : PairingRow α) :
    (pairRow key unpaired row).2.Sublist unpaired := by
  unfold pairRow
  cases row.old with
  | some entry => exact List.Sublist.refl unpaired
  | none => exact List.eraseP_sublist

theorem find?_eraseP_perm {β : Type} (test : β → Bool) (entries : List β) :
    ((entries.find? test).toList ++ entries.eraseP test).Perm entries := by
  induction entries with
  | nil => simp
  | cons entry rest ih =>
      by_cases hit : test entry = true
      · simp [hit]
      · simp only [Bool.not_eq_true] at hit
        simp only [List.find?_cons, hit, List.eraseP_cons, cond_false]
        exact List.perm_middle.trans (ih.cons entry)

theorem pairRow_perm (key : α → κ) (unpaired : List (α × Nat)) (row : PairingRow α) :
    ((pairRow key unpaired row).1.old.toList ++ (pairRow key unpaired row).2).Perm
      (row.old.toList ++ unpaired) := by
  unfold pairRow
  cases held : row.old with
  | some entry => simp [held]
  | none => simpa [held] using find?_eraseP_perm _ unpaired

theorem pairRow_open (key : α → κ) (unpaired : List (α × Nat)) (row : PairingRow α)
    (still : (pairRow key unpaired row).1.old = none) (entry : α × Nat)
    (member : entry ∈ unpaired) : key entry.1 ≠ key row.new.1 := by
  unfold pairRow at still
  cases held : row.old with
  | some other => simp [held] at still
  | none =>
      simp only [held, List.find?_eq_none, decide_eq_true_eq] at still
      exact still entry member

theorem pairRows_sublist (key : α → κ) (unpaired : List (α × Nat)) (rows : List (PairingRow α)) :
    (pairRows key unpaired rows).2.Sublist unpaired := by
  induction rows generalizing unpaired with
  | nil => exact List.Sublist.refl unpaired
  | cons row rest ih => exact (ih _).trans (pairRow_sublist key unpaired row)

theorem pairRows_fills (key : α → κ) (unpaired : List (α × Nat)) (rows : List (PairingRow α)) :
    List.Forall₂ (Fills key unpaired) rows (pairRows key unpaired rows).1 := by
  induction rows generalizing unpaired with
  | nil => exact List.Forall₂.nil
  | cons row rest ih =>
      have later := ih (pairRow key unpaired row).2
      have covered := (pairRow_sublist key unpaired row).subset
      exact List.Forall₂.cons (pairRow_fills key unpaired row)
        (later.imp fun before after step => fills_mono key _ unpaired before after covered step)

theorem pairRows_perm (key : α → κ) (unpaired : List (α × Nat)) (rows : List (PairingRow α)) :
    (taken (pairRows key unpaired rows).1 ++ (pairRows key unpaired rows).2).Perm
      (taken rows ++ unpaired) := by
  induction rows generalizing unpaired with
  | nil => exact List.Perm.refl _
  | cons row rest ih =>
      have head := pairRow_perm key unpaired row
      have tail := ih (pairRow key unpaired row).2
      simp only [pairRows, taken_cons, List.append_assoc]
      calc
        _ ~ (pairRow key unpaired row).1.old.toList ++
              (taken rest ++ (pairRow key unpaired row).2) :=
          tail.append_left _
        _ ~ taken rest ++
              ((pairRow key unpaired row).1.old.toList ++ (pairRow key unpaired row).2) :=
          List.perm_append_comm_assoc _ _ _
        _ ~ taken rest ++ (row.old.toList ++ unpaired) := head.append_left _
        _ ~ row.old.toList ++ (taken rest ++ unpaired) := List.perm_append_comm_assoc _ _ _

/-- Behind a pass no key has both an open row and a waiting entry. -/
theorem pairRows_exhausted (key : α → κ) (unpaired : List (α × Nat)) (rows : List (PairingRow α))
    (row : PairingRow α) (present : row ∈ (pairRows key unpaired rows).1) (still : row.old = none)
    (entry : α × Nat) (waiting : entry ∈ (pairRows key unpaired rows).2) :
    key entry.1 ≠ key row.new.1 := by
  induction rows generalizing unpaired with
  | nil => simp [pairRows] at present
  | cons first rest ih =>
      simp only [pairRows, List.mem_cons] at present waiting
      rcases present with head | later
      · subst row
        have before := (pairRow_sublist key unpaired first).subset
          ((pairRows_sublist key _ rest).subset waiting)
        rw [fills_new key unpaired first _ (pairRow_fills key unpaired first)]
        exact pairRow_open key unpaired first still entry before
      · exact ih _ later waiting

theorem pairRows_new (key : α → κ) (unpaired : List (α × Nat)) (rows : List (PairingRow α)) :
    (pairRows key unpaired rows).1.map (·.new) = rows.map (·.new) := by
  induction rows generalizing unpaired with
  | nil => rfl
  | cons row rest ih =>
      have head := fills_new key unpaired row _ (pairRow_fills key unpaired row)
      simp only [pairRows, List.map_cons, head, ih]

theorem pairRows_paired (key : α → κ) (unpaired : List (α × Nat)) (rows : List (PairingRow α))
    (paired : ∀ row ∈ rows, row.old ≠ none) : pairRows key unpaired rows = (rows, unpaired) := by
  induction rows with
  | nil => rfl
  | cons row rest ih =>
      obtain ⟨entry, held⟩ := Option.ne_none_iff_exists'.mp (paired row List.mem_cons_self)
      have tail := ih fun other member => paired other (List.mem_cons_of_mem row member)
      simp [pairRows, pairRow, held, tail]

/-! A pass deals with each key by itself. Its rows and its waiting entries with one key meet in
order, whatever stands between them. -/

def entriesWith (key : α → κ) (chosen : κ) (entries : List (α × Nat)) : List (α × Nat) :=
  entries.filter fun entry => key entry.1 = chosen

def rowsWith (key : α → κ) (chosen : κ) (rows : List (PairingRow α)) : List (PairingRow α) :=
  rows.filter fun row => key row.new.1 = chosen

theorem rowsWith_cons (key : α → κ) (chosen : κ) (row : PairingRow α) (rows : List (PairingRow α)) :
    rowsWith key chosen (row :: rows) =
      if key row.new.1 = chosen then row :: rowsWith key chosen rows
      else rowsWith key chosen rows := by
  simp [rowsWith, List.filter_cons]

theorem entriesWith_fst (key : α → κ) (chosen : κ) (entries : List (α × Nat)) :
    (entriesWith key chosen entries).map (·.1) = (entries.map (·.1)).filter (key · = chosen) := by
  rw [List.filter_map]
  rfl

theorem rowsWith_new (key : α → κ) (chosen : κ) (rows : List (PairingRow α)) :
    (rowsWith key chosen rows).map (·.new.1) = (rows.map (·.new.1)).filter (key · = chosen) := by
  rw [List.filter_map]
  rfl

theorem pairRow_same_key (key : α → κ) (unpaired : List (α × Nat)) (row : PairingRow α) :
    pairRow key (entriesWith key (key row.new.1) unpaired) row =
      ((pairRow key unpaired row).1,
        entriesWith key (key row.new.1) (pairRow key unpaired row).2) := by
  unfold pairRow
  cases row.old with
  | some entry => rfl
  | none => simp [entriesWith, List.find?_filter, List.eraseP_filter]

theorem filter_eraseP_other {β : Type} (wanted test : β → Bool) (entries : List β)
    (apart : ∀ entry, test entry = true → wanted entry = false) :
    (entries.eraseP test).filter wanted = entries.filter wanted := by
  induction entries with
  | nil => rfl
  | cons entry rest ih =>
      by_cases hit : test entry = true
      · simp [hit, apart entry hit]
      · simp only [Bool.not_eq_true] at hit
        simp [hit, List.filter_cons, ih]

theorem pairRow_other_key (key : α → κ) (chosen : κ) (unpaired : List (α × Nat))
    (row : PairingRow α) (different : key row.new.1 ≠ chosen) :
    entriesWith key chosen (pairRow key unpaired row).2 = entriesWith key chosen unpaired := by
  unfold pairRow
  cases row.old with
  | some entry => rfl
  | none =>
      apply filter_eraseP_other
      intro entry fits
      simp only [decide_eq_true_eq] at fits
      simp [fits, different]

theorem pairRows_with (key : α → κ) (chosen : κ) (unpaired : List (α × Nat))
    (rows : List (PairingRow α)) :
    pairRows key (entriesWith key chosen unpaired) (rowsWith key chosen rows) =
      (rowsWith key chosen (pairRows key unpaired rows).1,
        entriesWith key chosen (pairRows key unpaired rows).2) := by
  induction rows generalizing unpaired with
  | nil => rfl
  | cons row rest ih =>
      have kept := fills_new key unpaired row _ (pairRow_fills key unpaired row)
      by_cases same : key row.new.1 = chosen
      · subst chosen
        simp only [rowsWith_cons, pairRows, kept, ↓reduceIte, pairRow_same_key, ih]
      · simp only [rowsWith_cons, pairRows, kept, same, ↓reduceIte]
        rw [← ih, pairRow_other_key key chosen unpaired row same]

/-- Where all rows are open and all share one key with all waiting entries, the k-th row gets the
k-th entry. -/
theorem pairRows_in_order (key : α → κ) (chosen : κ) (unpaired : List (α × Nat))
    (rows : List (PairingRow α)) (entriesShare : ∀ entry ∈ unpaired, key entry.1 = chosen)
    (rowsShare : ∀ row ∈ rows, key row.new.1 = chosen) (opened : ∀ row ∈ rows, row.old = none) :
    (pairRows key unpaired rows).1.map (·.old) = (List.range rows.length).map (unpaired[·]?) ∧
      (pairRows key unpaired rows).2 = unpaired.drop rows.length := by
  induction rows generalizing unpaired with
  | nil => exact ⟨rfl, rfl⟩
  | cons row rest ih =>
      have headShare := rowsShare row List.mem_cons_self
      have headOpen := opened row List.mem_cons_self
      have restShare : ∀ other ∈ rest, key other.new.1 = chosen :=
        fun other member => rowsShare other (List.mem_cons_of_mem row member)
      have restOpen : ∀ other ∈ rest, other.old = none :=
        fun other member => opened other (List.mem_cons_of_mem row member)
      cases unpaired with
      | nil =>
          have tail := ih [] (by simp) restShare restOpen
          constructor
          · simpa [pairRows, pairRow, headOpen, List.range_succ_eq_map,
              Function.comp_def] using tail.1
          · simpa [pairRows, pairRow, headOpen] using tail.2
      | cons entry others =>
          have fits : key entry.1 = key row.new.1 :=
            (entriesShare entry List.mem_cons_self).trans headShare.symm
          have tail :=
            ih others (fun other member => entriesShare other (List.mem_cons_of_mem entry member))
            restShare restOpen
          constructor
          · simpa [pairRows, pairRow, headOpen, fits, List.range_succ_eq_map,
              Function.comp_def] using tail.1
          · simpa [pairRows, pairRow, headOpen, fits] using tail.2

end Pass

theorem mem_of_forall₂ {β γ : Type} {related : β → γ → Prop} {xs : List β} {ys : List γ}
    (aligned : List.Forall₂ related xs ys) (y : γ) (member : y ∈ ys) : ∃ x ∈ xs, related x y := by
  induction aligned with
  | nil => simp at member
  | cons head _ ih =>
      rcases List.mem_cons.mp member with same | later
      · subst y
        exact ⟨_, List.mem_cons_self, head⟩
      · obtain ⟨x, present, agree⟩ := ih later
        exact ⟨x, List.mem_cons_of_mem _ present, agree⟩

theorem start_sound (old new : List α) : Sound old new (start old new) where
  rows := by simp [start, Function.comp_def]
  split := by simp [start, taken, List.filterMap_map]
  ordered := List.Sublist.refl _

theorem start_within (related : α → α → Prop) (old new : List α) :
    Within related (start old new) := by
  intro row member entry held
  obtain ⟨_, _, same⟩ := List.mem_map.mp member
  subst row
  cases held

section Passes

variable [DecidableEq κ]

theorem pairBy_sound (key : α → κ) (old new : List α) (pairing : Pairing α)
    (sound : Sound old new pairing) : Sound old new (pairing.pairBy key) where
  rows := (pairRows_new key pairing.unpaired pairing.rows).trans sound.rows
  split := (pairRows_perm key pairing.unpaired pairing.rows).trans sound.split
  ordered := (pairRows_sublist key pairing.unpaired pairing.rows).trans sound.ordered

theorem pairBy_within (key : α → κ) (related : α → α → Prop) (pairing : Pairing α)
    (shared : ∀ old new, key old = key new → related old new) (within : Within related pairing) :
    Within related (pairing.pairBy key) := by
  intro row member entry held
  obtain ⟨before, present, step⟩ :=
    mem_of_forall₂ (pairRows_fills key pairing.unpaired pairing.rows) row member
  rcases step with same | ⟨_, other, _, agree, filled⟩
  · subst row
    exact within before present entry held
  · subst row
    cases held
    exact shared entry.1 before.new.1 agree

end Passes

end SchemaDrift.Pairing
