import SchemaDrift.Json.Table
import SchemaDrift.Proofs.JsonValue

/-! Definitions are told from their JSON form. Every field of a definition is written, under a label of its own, and a
field that may be unset holds nothing that is written as null. -/

namespace SchemaDrift

open Json (field)

/-! Words for choices. -/

instance : Faithful ReferentialAction :=
  .ofText (fun _ => rfl) fun first second => by
    cases first <;> cases second <;> simp [ReferentialAction.text]

instance : Faithful GeneratedStorage :=
  .ofText (fun _ => rfl) fun first second => by
    cases first <;> cases second <;> simp [GeneratedStorage.text]

instance : Faithful SortDirection :=
  .ofText (fun _ => rfl) fun first second => by
    cases first <;> cases second <;> simp [SortDirection.text]

instance : Faithful IndexKind :=
  .ofText (fun _ => rfl) fun first second => by
    cases first <;> cases second <;> simp [IndexKind.text]

instance : Faithful IndexType :=
  .ofText (fun _ => rfl) fun first second => by
    cases first <;> cases second <;> simp [IndexType.text]

instance : Faithful PartitionMethod :=
  .ofText (fun _ => rfl) fun first second => by
    cases first <;> cases second <;> simp [PartitionMethod.text]

instance : NeverNull ReferentialAction := ⟨nofun⟩

instance : NeverNull SortDirection := ⟨nofun⟩

instance : NeverNull IndexType := ⟨nofun⟩

instance : Faithful Nullability where
  eq_of_same first second same := by
    have equal : first.nullable? = second.nullable? := Faithful.eq_of_same _ _ same
    cases first <;> cases second <;> simp [Nullability.nullable?] at equal ⊢

/-! Records: each field is what its label has. -/

instance : Faithful Reference :=
  .ofFields (fun _ => rfl) (fun _ _ => rfl) (by simp [field]) (by rintro ⟨⟩ ⟨⟩; simp [field])

instance : Faithful DataType :=
  .ofFields (fun _ => rfl) (fun _ _ => rfl) (by simp [field]) (by rintro ⟨⟩ ⟨⟩; simp [field])

instance : Faithful GeneratedColumn :=
  .ofFields (fun _ => rfl) (fun _ _ => rfl) (by simp [field]) (by rintro ⟨⟩ ⟨⟩; simp [field])

instance : NeverNull Reference := ⟨nofun⟩

instance : NeverNull GeneratedColumn := ⟨nofun⟩

instance : Faithful Column :=
  .ofFields (fun _ => rfl) (fun _ _ => rfl) (by simp [field]) (by rintro ⟨⟩ ⟨⟩; simp [field])

instance : Faithful KeyPart :=
  .ofFields (fun _ => rfl) (fun _ _ => rfl) (by simp [field]) (by rintro ⟨⟩ ⟨⟩; simp [field])

instance : Faithful Index :=
  .ofFields (fun _ => rfl) (fun _ _ => rfl) (by simp [field]) (by rintro ⟨⟩ ⟨⟩; simp [field])

instance : Faithful PrimaryKey :=
  .ofFields (fun _ => rfl) (fun _ _ => rfl) (by simp [field]) (by rintro ⟨⟩ ⟨⟩; simp [field])

instance : Faithful ForeignKey :=
  .ofFields (fun _ => rfl) (fun _ _ => rfl) (by simp [field]) (by rintro ⟨⟩ ⟨⟩; simp [field])

instance : Faithful Check :=
  .ofFields (fun _ => rfl) (fun _ _ => rfl) (by simp [field]) (by rintro ⟨⟩ ⟨⟩; simp [field])

instance : NeverNull PrimaryKey := ⟨nofun⟩

/-! Table options. -/

instance (form : ValueForm) : Faithful form.Value := by
  cases form with
  | word => exact inferInstanceAs (Faithful String)
  | string => exact inferInstanceAs (Faithful String)
  | number => exact inferInstanceAs (Faithful UInt64)
  | names => exact inferInstanceAs (Faithful (List String))

instance (form : ValueForm) : NeverNull form.Value := by
  cases form with
  | word => exact inferInstanceAs (NeverNull String)
  | string => exact inferInstanceAs (NeverNull String)
  | number => exact inferInstanceAs (NeverNull UInt64)
  | names => exact inferInstanceAs (NeverNull (List String))

theorem TableOption.labels_nodup : (all.map label).Nodup := by
  decide

instance : Faithful TableOptions := by
  -- The labels are the same for all options, set or not.
  have labels (options : TableOptions) :
      (TableOption.all.map fun option => field option.label (options.value option)).map Prod.fst =
        TableOption.all.map TableOption.label := by
    simp [field, Function.comp_def]
  refine .ofFields (fun _ => rfl) (fun first second => by rw [labels, labels])
    (fun options => by rw [labels]; exact TableOption.labels_nodup) fun first second each => ?_
  rw [List.forall₂_map_left_iff, List.forall₂_map_right_iff, List.forall₂_same] at each
  apply TableOptions.ext_value
  intro option
  exact Faithful.eq_of_same _ _ (each option option.mem_all)

instance : NeverNull TableOptions := ⟨nofun⟩

/-! Partitions. -/

instance : Faithful PartitionBound where
  eq_of_same first second same := by
    cases first with
    | lessThan values =>
        cases second with
        | lessThan others => simpa [field] using same.fields rfl (by simp [field])
        | among others =>
            have missing := same.lookup "in"
            simp [field, List.lookup_cons] at missing
    | among values =>
        cases second with
        | lessThan others =>
            have missing := same.lookup "in"
            simp [field, List.lookup_cons] at missing
        | among others => simpa [field] using same.fields rfl (by simp [field])

instance : NeverNull PartitionBound where
  ne_null bound := by
    cases bound <;> nofun

instance : Faithful Partition :=
  .ofFields (fun _ => rfl) (fun _ _ => rfl) (by simp [field]) (by rintro ⟨⟩ ⟨⟩; simp [field])

instance : Faithful Partitioning :=
  .ofFields (fun _ => rfl) (fun _ _ => rfl) (by simp [field]) (by rintro ⟨⟩ ⟨⟩; simp [field])

instance : NeverNull Partitioning := ⟨nofun⟩

/-! Tables. -/

instance : Faithful Table :=
  .ofFields (fun _ => rfl) (fun _ _ => rfl) (by simp [field]) (by rintro ⟨⟩ ⟨⟩; simp [field])

end SchemaDrift
