import SchemaDrift.Json.Change
import SchemaDrift.Proofs.JsonTable

/-! Changes are told from their JSON form. An aspect that has not changed is left out, while one that has changed is
written with both of its values, so a change from or to nothing is told from no change; and what a change has on its
two sides tells of which kind it is. -/

namespace SchemaDrift

open Json (field)

instance {ν : Type} [ToJson ν] [Faithful ν] : Faithful (FieldChange ν) :=
  .ofFields (fun _ => rfl) (fun _ _ => rfl) (by simp [field]) (by rintro ⟨⟩ ⟨⟩; simp [field])

/-- A kind of definition whose aspects have labels of their own and values that are told from their form. -/
class FaithfullyReported (α : Type) [Compared α] [Reported α] : Prop where
  distinct : ((Compared.aspects : List (Compared.Aspect α)).map Reported.label).Nodup
  values : ∀ aspect : Compared.Aspect α, Faithful (Compared.Value aspect)

section

variable {α : Type} [Compared α] [Reported α]

namespace ChangeRecord

def slots (record : ChangeRecord α) : List (String × Option Json) :=
  Compared.aspects.map fun aspect : Compared.Aspect α => (Reported.label aspect, (record aspect).map SchemaDrift.toJson)

theorem toJson_eq (record : ChangeRecord α) : record.toJson = .object (Json.written record.slots) := by
  simp only [ChangeRecord.toJson, Json.written, slots, List.filterMap_map, Function.comp_def, Option.map_map, field]

theorem slots_labels (record : ChangeRecord α) :
    record.slots.map Prod.fst = (Compared.aspects : List (Compared.Aspect α)).map Reported.label := by
  simp only [slots, List.map_map, Function.comp_def]

theorem eq_of_same [FaithfullyReported α] (first second : ChangeRecord α) (same : first.toJson.Same second.toJson) :
    first = second := by
  rw [toJson_eq, toJson_eq] at same
  have each := same.slots (by rw [slots_labels, slots_labels])
    (by rw [slots_labels]; exact FaithfullyReported.distinct)
  rw [slots, slots, List.forall₂_map_left_iff, List.forall₂_map_right_iff, List.forall₂_same] at each
  funext aspect
  have values := FaithfullyReported.values aspect
  exact eq_of_rel_map Faithful.eq_of_same (each aspect (Compared.mem_aspects aspect))

/-- The records of a kind are told from their form: what has not changed, and what each aspect was and is. -/
def Told (α : Type) [Compared α] [Reported α] : Prop :=
  ∀ first second : ChangeRecord α, first.toJson.Same second.toJson ↔ first = second

theorem told [FaithfullyReported α] : Told α := by
  intro first second
  constructor
  · exact eq_of_same first second
  · rintro rfl
    exact .refl _

end ChangeRecord

namespace Change

omit [Reported α] in
theorem eq_of_parts {first second : Change α} (before : first.before? = second.before?)
    (after : first.after? = second.after?) (record : first.record? = second.record?) : first = second := by
  cases first <;> cases second <;> simp_all [before?, after?, record?]

variable [ToJson α]

def slots (change : Change α) : List (String × Option Json) :=
  [("change_type", some (.string change.kind.text)),
   ("old", change.before?.map toJson),
   ("new", change.after?.map toJson),
   ("changes", change.record?.map ChangeRecord.toJson)]

theorem toJson_eq (change : Change α) : toJson change = .object (Json.written change.slots) := by
  cases change <;> rfl

end Change

instance [ToJson α] [Faithful α] [FaithfullyReported α] : Faithful (Change α) where
  eq_of_same first second same := by
    rw [Change.toJson_eq, Change.toJson_eq] at same
    -- The kind need not be looked at: which sides a change has tells it too.
    have each := same.slots rfl (by simp [Change.slots])
    simp only [Change.slots, List.forall₂_cons, List.forall₂_nil_left_iff, and_true] at each
    obtain ⟨_, before, after, record⟩ := each
    exact Change.eq_of_parts (eq_of_rel_map Faithful.eq_of_same before) (eq_of_rel_map Faithful.eq_of_same after)
      (eq_of_rel_map ChangeRecord.eq_of_same record)

end

/-! The kinds of definitions. -/

instance : FaithfullyReported Column where
  distinct := by decide
  values aspect := by
    cases aspect
    case dataType => exact inferInstanceAs (Faithful String)
    case nullability => exact inferInstanceAs (Faithful Nullability)
    case autoIncrement | unique | primaryKey => exact inferInstanceAs (Faithful Bool)
    case visible => exact inferInstanceAs (Faithful (Option Bool))
    case generated => exact inferInstanceAs (Faithful (Option GeneratedColumn))
    case reference => exact inferInstanceAs (Faithful (Option Reference))
    all_goals exact inferInstanceAs (Faithful (Option String))

instance : FaithfullyReported Index where
  distinct := by decide
  values aspect := by
    cases aspect
    case kind => exact inferInstanceAs (Faithful IndexKind)
    case columns => exact inferInstanceAs (Faithful String)
    case keyBlockSize => exact inferInstanceAs (Faithful (Option UInt64))
    case indexType => exact inferInstanceAs (Faithful (Option IndexType))
    case visible => exact inferInstanceAs (Faithful (Option Bool))
    all_goals exact inferInstanceAs (Faithful (Option String))

instance : FaithfullyReported PrimaryKey where
  distinct := by decide
  values aspect := by
    cases aspect
    case columns => exact inferInstanceAs (Faithful (List String))
    case indexType => exact inferInstanceAs (Faithful (Option IndexType))
    all_goals exact inferInstanceAs (Faithful (Option String))

instance : FaithfullyReported ForeignKey where
  distinct := by decide
  values aspect := by
    cases aspect
    case name => exact inferInstanceAs (Faithful (Option String))
    case referenceTable => exact inferInstanceAs (Faithful String)
    case columns | referenceColumns => exact inferInstanceAs (Faithful (List String))
    case onDelete | onUpdate => exact inferInstanceAs (Faithful (Option ReferentialAction))

instance : FaithfullyReported Check where
  distinct := by decide
  values aspect := by
    cases aspect
    case name => exact inferInstanceAs (Faithful (Option String))
    case expression => exact inferInstanceAs (Faithful String)
    case enforced => exact inferInstanceAs (Faithful (Option Bool))

instance : FaithfullyReported TableOptions where
  distinct := TableOption.labels_nodup
  values option := inferInstanceAs (Faithful (Option option.Value))

instance : FaithfullyReported Partitioning where
  distinct := by decide
  values aspect := by
    cases aspect
    case method => exact inferInstanceAs (Faithful PartitionMethod)
    case linear => exact inferInstanceAs (Faithful Bool)
    case expression => exact inferInstanceAs (Faithful (Option String))
    case columns => exact inferInstanceAs (Faithful (List String))
    case count => exact inferInstanceAs (Faithful (Option UInt64))
    case definitions => exact inferInstanceAs (Faithful Nat)

/-! Reports. -/

instance : Faithful ChangeCounts :=
  .ofFields (fun _ => rfl) (fun _ _ => rfl) (by simp [field]) (by rintro ⟨⟩ ⟨⟩; simp [field])

instance : Faithful DiffCounts :=
  .ofFields (fun _ => rfl) (fun _ _ => rfl) (by simp [field]) (by rintro ⟨⟩ ⟨⟩; simp [field])

namespace TableReport

def slots (report : TableReport) : List (String × Option Json) :=
  [("name", some (toJson report.diff.name)),
   ("table_name_changed", some (toJson report.diff.nameChanged)),
   ("table_options_changed", some (toJson report.optionsChanged)),
   ("columns", some (toJson report.diff.columns)),
   ("primary_key", report.diff.primaryKey.map toJson),
   ("indexes", some (toJson report.diff.indexes)),
   ("foreign_keys", some (toJson report.diff.foreignKeys)),
   ("check_constraints", some (toJson report.diff.checks)),
   ("table_options", report.diff.options.map toJson),
   ("partitioning", report.diff.partitioning.map toJson),
   ("counts", some (toJson report.counts))]

theorem toJson_eq (report : TableReport) : toJson report = .object (Json.written report.slots) := by
  cases report with
  | mk diff optionsChanged counts =>
      cases diff with
      | mk name nameChanged columns primaryKey indexes foreignKeys checks options partitioning =>
          cases primaryKey <;> cases options <;> cases partitioning <;> rfl

end TableReport

instance : Faithful TableReport where
  eq_of_same first second same := by
    rw [TableReport.toJson_eq, TableReport.toJson_eq] at same
    have each := same.slots rfl (by simp [TableReport.slots])
    cases first with
    | mk diff optionsChanged counts =>
        cases second with
        | mk other otherChanged others =>
            cases diff
            cases other
            simp [TableReport.slots] at each
            simp [each]

instance : Faithful TableDiff where
  eq_of_same first second same :=
    congrArg TableReport.diff (Faithful.eq_of_same first.report second.report same)

/-- The JSON form loses nothing: changes of tables, whatever flag and counts are kept beside them, and definitions of
tables have the same form just when they are equal. So have the records of changes, in which an aspect may be
unchanged or have changed from or to nothing, and the three nullabilities. -/
theorem toJson_loses_nothing :
    (∀ first second : TableReport, (toJson first).Same (toJson second) ↔ first = second) ∧
    (∀ first second : TableDiff, (toJson first).Same (toJson second) ↔ first = second) ∧
    (∀ first second : Table, (toJson first).Same (toJson second) ↔ first = second) ∧
    (ChangeRecord.Told Column ∧ ChangeRecord.Told Index ∧ ChangeRecord.Told PrimaryKey ∧
      ChangeRecord.Told ForeignKey ∧ ChangeRecord.Told Check ∧ ChangeRecord.Told TableOptions ∧
      ChangeRecord.Told Partitioning) ∧
    ∀ first second : Nullability, (toJson first).Same (toJson second) ↔ first = second := by
  refine ⟨same_toJson_iff, same_toJson_iff, same_toJson_iff, ?_, same_toJson_iff⟩
  exact ⟨ChangeRecord.told, ChangeRecord.told, ChangeRecord.told, ChangeRecord.told, ChangeRecord.told,
    ChangeRecord.told, ChangeRecord.told⟩

end SchemaDrift
