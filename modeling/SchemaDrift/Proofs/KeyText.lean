import SchemaDrift.Table.Key

/-!
The text of a key tells its parts apart once their names are known. Names may hold any characters,
parentheses and commas included, so a text alone does not: read from the left, each known name fixes
where the next length, direction or end begins.
-/

namespace SchemaDrift.KeyPart

def lengthChars : Option UInt64 → List Char
  | none => []
  | some length => '(' :: (Nat.toDigits 10 length.toNat ++ [')'])

def directionChars : Option SortDirection → List Char
  | none => []
  | some direction => ' ' :: direction.text.toList

def closing : List KeyPart → List Char
  | [] => [')']
  | part :: rest => ',' :: ' ' :: (part.text.toList ++ closing rest)

/-- What may stand behind a part. -/
def Ends (chars : List Char) : Prop :=
  chars.head? = some ',' ∨ chars.head? = some ')'

theorem ends_closing (parts : List KeyPart) : Ends (closing parts) := by
  cases parts with
  | nil => exact Or.inr rfl
  | cons part rest => exact Or.inl rfl

theorem text_toList (part : KeyPart) :
    part.text.toList =
      part.name.toList ++ (lengthChars part.length ++ directionChars part.direction) := by
  cases part with
  | mk name length direction =>
      cases length <;> cases direction <;> simp [text, lengthChars, directionChars]

theorem listText_cons_toList (part : KeyPart) (rest : List KeyPart) :
    (listText (part :: rest)).toList = '(' :: (part.text.toList ++ closing rest) := by
  induction rest generalizing part with
  | nil => simp [listText, closing]
  | cons next rest ih =>
      have tail := ih next
      simp only [listText, List.map_cons, String.intercalate_cons_cons] at tail ⊢
      simpa [closing] using tail

theorem append_cons_cancel {α : Type} (mark : α) (first second rest others : List α)
    (firstFree : mark ∉ first) (secondFree : mark ∉ second)
    (same : first ++ mark :: rest = second ++ mark :: others) : first = second ∧ rest = others := by
  induction first generalizing second with
  | nil =>
      cases second with
      | nil => exact ⟨rfl, List.tail_eq_of_cons_eq same⟩
      | cons head tail =>
          have marked : mark = head := List.head_eq_of_cons_eq same
          exact absurd (marked ▸ List.mem_cons_self) secondFree
  | cons char front ih =>
      cases second with
      | nil =>
          have marked : char = mark := List.head_eq_of_cons_eq same
          exact absurd (marked ▸ List.mem_cons_self) firstFree
      | cons head tail =>
          have heads : char = head := List.head_eq_of_cons_eq same
          have tails := ih tail (fun member => firstFree (List.mem_cons_of_mem char member))
            (fun member => secondFree (List.mem_cons_of_mem head member))
            (List.tail_eq_of_cons_eq same)
          exact ⟨by rw [heads, tails.1], tails.2⟩

theorem isDigit_toDigits (n : Nat) : ∀ c ∈ Nat.toDigits 10 n, c.isDigit = true :=
  fun _ member => Nat.isDigit_of_mem_toDigits (by decide) (by decide) member

theorem notMem_toDigits {mark : Char} (plain : mark.isDigit = false) (n : Nat) : mark ∉ Nat.toDigits 10 n :=
  fun member => absurd (isDigit_toDigits n mark member) (by simp [plain])

theorem toDigits_injective (first second : Nat)
    (same : Nat.toDigits 10 first = Nat.toDigits 10 second) : first = second := by
  rw [← Nat.ofDigitChars_ten_toDigits (n := first), same, Nat.ofDigitChars_ten_toDigits]

theorem lengthChars_cancel (first second : Option UInt64) (rest others : List Char)
    (restFree : rest.head? ≠ some '(') (othersFree : others.head? ≠ some '(')
    (same : lengthChars first ++ rest = lengthChars second ++ others) :
    first = second ∧ rest = others := by
  cases first with
  | none =>
      cases second with
      | none => exact ⟨rfl, same⟩
      | some length =>
          simp only [lengthChars, List.nil_append, List.cons_append] at same
          simp [same] at restFree
  | some length =>
      cases second with
      | none =>
          simp only [lengthChars, List.nil_append, List.cons_append] at same
          simp [← same] at othersFree
      | some other =>
          simp only [lengthChars, List.cons_append, List.append_assoc, List.nil_append,
            List.cons.injEq, true_and] at same
          obtain ⟨digits, behind⟩ := append_cons_cancel ')' _ _ rest others
            (notMem_toDigits (by decide) length.toNat) (notMem_toDigits (by decide) other.toNat) same
          have lengths := UInt64.toNat_inj.mp (toDigits_injective _ _ digits)
          exact ⟨by rw [lengths], behind⟩

theorem directionChars_cancel (first second : Option SortDirection) (rest others : List Char)
    (restEnds : Ends rest) (othersEnds : Ends others)
    (same : directionChars first ++ rest = directionChars second ++ others) :
    first = second ∧ rest = others := by
  have noBlank : ∀ chars : List Char, chars.head? = some ' ' → ¬ Ends chars := by
    intro chars blank ends
    rcases ends with comma | close <;> simp_all
  cases first with
  | none =>
      cases second with
      | none => exact ⟨rfl, same⟩
      | some direction =>
          simp only [directionChars, List.nil_append, List.cons_append] at same
          exact absurd restEnds (noBlank rest (by simp [same]))
  | some direction =>
      cases second with
      | none =>
          simp only [directionChars, List.nil_append, List.cons_append] at same
          exact absurd othersEnds (noBlank others (by simp [← same]))
      | some other =>
          cases direction <;> cases other <;> simp_all [directionChars, SortDirection.text]

theorem directionChars_head (direction : Option SortDirection) (rest : List Char)
    (ends : Ends rest) : (directionChars direction ++ rest).head? ≠ some '(' := by
  cases direction with
  | none => rcases ends with comma | close <;> simp [directionChars, *]
  | some direction => simp [directionChars]

theorem text_cancel (first second : KeyPart) (rest others : List Char)
    (sameName : first.name = second.name) (restEnds : Ends rest) (othersEnds : Ends others)
    (same : first.text.toList ++ rest = second.text.toList ++ others) :
    first = second ∧ rest = others := by
  rw [text_toList, text_toList, sameName] at same
  simp only [List.append_assoc, List.append_cancel_left_eq] at same
  obtain ⟨lengths, behind⟩ := lengthChars_cancel first.length second.length _ _
    (directionChars_head first.direction rest restEnds)
    (directionChars_head second.direction others othersEnds) same
  obtain ⟨directions, tails⟩ := directionChars_cancel first.direction second.direction rest others
    restEnds othersEnds behind
  cases first
  cases second
  simp_all

theorem closing_injective (first second : List KeyPart) (sameNames : names first = names second)
    (same : closing first = closing second) : first = second := by
  induction first generalizing second with
  | nil =>
      cases second with
      | nil => rfl
      | cons part rest => simp [names] at sameNames
  | cons part rest ih =>
      cases second with
      | nil => simp [names] at sameNames
      | cons other others =>
          simp only [names, List.map_cons, List.cons.injEq] at sameNames
          simp only [closing, List.cons.injEq, true_and] at same
          obtain ⟨heads, tails⟩ := text_cancel part other _ _ sameNames.1
            (ends_closing rest) (ends_closing others) same
          rw [heads, ih others sameNames.2 tails]

/-- Keys over the same names whose texts agree are the same key. -/
theorem listText_injective (first second : List KeyPart) (sameNames : names first = names second)
    (same : listText first = listText second) : first = second := by
  have chars := congrArg String.toList same
  cases first with
  | nil =>
      cases second with
      | nil => rfl
      | cons part rest => simp [names] at sameNames
  | cons part rest =>
      cases second with
      | nil => simp [names] at sameNames
      | cons other others =>
          apply closing_injective _ _ sameNames
          rw [listText_cons_toList, listText_cons_toList, List.cons.injEq] at chars
          simp only [closing, chars.2]

end SchemaDrift.KeyPart
