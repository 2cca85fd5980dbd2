import SchemaDrift.Proofs.Forward
import SchemaDrift.Reading.Column

/-!
How column types are written: the words of a name, parameters between parentheses, and modifiers.
What is written so is read as that type, in front of anything that no type goes on with.
-/

namespace SchemaDrift

open Reading

/-- The words that a type is named with, and the name that they stand for. National character types
are plain character types by other names. -/
inductive TypeName : List Keyword → Keyword → Prop where
  | plain {word : Keyword} (type : word.isTypeName = true)
      (no_national : word ∉ [.NATIONAL, .NCHAR, .NVARCHAR]) : TypeName [word] word
  | doublePrecision : TypeName [.DOUBLE, .PRECISION] .DOUBLE
  | nationalVarchar : TypeName [.NATIONAL, .VARCHAR] .VARCHAR
  | nationalChar : TypeName [.NATIONAL, .CHAR] .CHAR
  | nationalCharacter : TypeName [.NATIONAL, .CHARACTER] .CHAR
  | nchar : TypeName [.NCHAR] .CHAR
  | ncharVarchar : TypeName [.NCHAR, .VARCHAR] .VARCHAR
  | nvarchar : TypeName [.NVARCHAR] .VARCHAR

def Token.isTypeParameter (token : Token) : Bool :=
  match token.kind with
  | .string _ | .number | .identifier | .keyword _ => true
  | _ => false

/-- The parameters of a type: nothing, empty parentheses, or parameters between parentheses, behind
the last of which may stand a comma. -/
inductive TypeParameters : List Token → List String → Prop where
  | none : TypeParameters [] []
  | empty {opening closing : Token} (opens : opening.kind = .leftParen)
      (closes : closing.kind = .rightParen) : TypeParameters [opening, closing] []
  | some {opening first closing : Token} {tokens items extra : List Token}
      (opens : opening.kind = .leftParen) (fit : first.isTypeParameter = true)
      (more : MoreItems Token.isTypeParameter tokens items)
      (trailing : extra.map Token.kind ∈ [[], [.comma]]) (closes : closing.kind = .rightParen) :
      TypeParameters (opening :: first :: (tokens ++ (extra ++ [closing])))
        ((first :: items).map Token.sql)

def Token.IsTypeModifier (token : Token) : Prop :=
  token.kind = .keyword .UNSIGNED ∨ token.kind = .keyword .ZEROFILL

def DataType.modify (type : DataType) (modifiers : List Token) : DataType :=
  { type with
    unsigned := type.unsigned || modifiers.any (·.kind == .keyword .UNSIGNED)
    zerofill := type.zerofill || modifiers.any (·.kind == .keyword .ZEROFILL) }

/-- The tokens that write a type. -/
inductive DataType.Written : List Token → DataType → Prop where
  | mk {words : List Keyword} {word : Keyword} {named group modifiers : List Token}
      {parameters : List String} (name : TypeName words word)
      (spelled : Spell named words)
      (parameterized : TypeParameters group parameters)
      (modified : ∀ token ∈ modifiers, token.IsTypeModifier) :
      Written (named ++ (group ++ modifiers))
        (({ name := word.word, parameters } : DataType).modify modifiers)

def Token.EndsType (token : Token) : Prop :=
  token.kind ∉ [.leftParen, .keyword .UNSIGNED, .keyword .ZEROFILL, .keyword .PRECISION,
    .keyword .VARCHAR]

namespace DataType

def readFurther : Keyword → Reading Keyword
  | .DOUBLE => do
      discard (eatWord .PRECISION)
      return .DOUBLE
  | .NATIONAL => do
      if ← eatWord .VARCHAR then return .VARCHAR
      if ← eatWord .CHAR then return .CHAR
      if ← eatWord .CHARACTER then return .CHAR
      fail .characterType
  | .NCHAR => do if ← eatWord .VARCHAR then return .VARCHAR else return .CHAR
  | .NVARCHAR => return .VARCHAR
  | word => return word

variable {source : List Char} {close : Token} {rest : List Token}

theorem readName_front {first : Token} {word : Keyword} (kind : first.kind = .keyword word)
    (type : word.isTypeName = true) :
    readName ⟨source, first :: rest, close⟩ = readFurther word ⟨source, rest, close⟩ := by
  have found : first.keyword?.filter Keyword.isTypeName = some word := by
    simp [Token.keyword?, kind, type]
  have current : (⟨source, first :: rest, close⟩ : Cursor).current = first := rfl
  rw [readName, current_bind, current, found]
  rfl

theorem readName_spelled {words : List Keyword} {word : Keyword} (name : TypeName words word)
    {named : List Token} (spelled : Spell named words)
    (no_precision : (rest.headD close).kind ≠ .keyword .PRECISION)
    (no_varchar : (rest.headD close).kind ≠ .keyword .VARCHAR) :
    readName ⟨source, named ++ rest, close⟩ = .ok word ⟨source, rest, close⟩ := by
  have one {first : Keyword} (spelled : Spell named [first])
      (type : first.isTypeName = true) :
      readName ⟨source, named ++ rest, close⟩ = readFurther first ⟨source, rest, close⟩ := by
    obtain ⟨token, rfl, kind⟩ := spelled.single
    exact readName_front kind type
  have two {first second : Keyword}
      (spelled : Spell named [first, second])
      (type : first.isTypeName = true) :
      ∃ token, token.kind = .keyword second ∧ readName ⟨source, named ++ rest, close⟩ =
        readFurther first ⟨source, token :: rest, close⟩ := by
    obtain ⟨token, others, rfl, kind, further⟩ := spelled.cons
    obtain ⟨next, rfl, next_kind⟩ := further.single
    exact ⟨next, next_kind, readName_front kind type⟩
  cases name with
  | plain type no_national =>
      rw [one spelled type]
      simp only [List.mem_cons, List.not_mem_nil, or_false, not_or] at no_national
      rw [readFurther.eq_def]
      split
      · rw [bind_of_ok (discard_of_ok (eatWord_missed no_precision))]
        rfl
      · exact absurd rfl no_national.1
      · exact absurd rfl no_national.2.1
      · exact absurd rfl no_national.2.2
      · rfl
  | doublePrecision =>
      obtain ⟨token, kind, read⟩ := two spelled rfl
      rw [read, readFurther, bind_of_ok (discard_of_ok (eatWord_found kind))]
      rfl
  | nationalVarchar =>
      obtain ⟨token, kind, read⟩ := two spelled rfl
      rw [read, readFurther, bind_of_ok (eatWord_found kind)]
      rfl
  | nationalChar =>
      obtain ⟨token, kind, read⟩ := two spelled rfl
      rw [read, readFurther, ifWord_other (by simp [kind]),
        bind_of_ok (eatWord_found kind)]
      rfl
  | nationalCharacter =>
      obtain ⟨token, kind, read⟩ := two spelled rfl
      rw [read, readFurther, ifWord_other (by simp [kind]), ifWord_other (by simp [kind]),
        bind_of_ok (eatWord_found kind)]
      rfl
  | nchar =>
      rw [one spelled rfl, readFurther, bind_of_ok (eatWord_missed no_varchar)]
      rfl
  | ncharVarchar =>
      obtain ⟨token, kind, read⟩ := two spelled rfl
      rw [read, readFurther, bind_of_ok (eatWord_found kind)]
      rfl
  | nvarchar =>
      rw [one spelled rfl]
      rfl

theorem readParameter_eq (cursor : Cursor) :
    readParameter cursor =
      if cursor.current.isTypeParameter = true then .ok cursor.current.sql cursor.next
      else .error ⟨.typeParameter, cursor.current⟩ cursor := by
  rw [readParameter, current_bind]
  cases kind : cursor.current.kind <;> simp [Token.isTypeParameter, kind] <;> rfl

theorem readParameter_takes :
    TakesItem source close Token.isTypeParameter readParameter Token.sql := by
  intro token rest fit _
  rw [readParameter_eq]
  exact if_pos fit

theorem readGroup_written {group : List Token} {parameters : List String}
    (written : TypeParameters group parameters) (no_group : (rest.headD close).kind ≠ .leftParen) :
    (do if ← eat .leftParen then readParameters else pure []) ⟨source, group ++ rest, close⟩ =
      .ok parameters ⟨source, rest, close⟩ := by
  cases written with
  | none =>
      rw [List.nil_append, bind_of_ok (eat_missed no_group)]
      rfl
  | empty opens closes =>
      simp only [List.cons_append, List.nil_append]
      rw [ifEat_found opens, readParameters, bind_of_ok (eat_found closes)]
      rfl
  | @some opening first closing tokens items extra opens fit more trailing closes =>
      have no_mark (token : Token) (fit : token.isTypeParameter = true) :
          token.kind ≠ .rightParen := by
        intro kind
        simp [Token.isTypeParameter, kind] at fit
      have behind : BehindItem (extra ++ closing :: rest) := by
        rcases optional_cases trailing with rfl | ⟨comma, rfl, kind⟩
        · exact behindItem_closing closes rest
        · exact ⟨comma, rfl, .inl kind⟩
      have others : Rounds (fun cursor => cursor.sees .comma && (cursor.peek 1).kind != .rightParen)
          (do discard advance; readParameter) ⟨source, tokens ++ (extra ++ closing :: rest), close⟩
          (items.map Token.sql) ⟨source, extra ++ closing :: rest, close⟩ := by
        refine more.rounds readParameter_takes (fun comma token rest parted fit => ?_) behind ?_
        · simp [Cursor.sees, Cursor.current, Cursor.peek, parted, no_mark token fit]
        · rcases optional_cases trailing with rfl | ⟨comma, rfl, kind⟩
          · simp [Cursor.sees, Cursor.current, closes]
          · simp [Cursor.peek, closes]
      have past_comma : discard (eat .comma) ⟨source, extra ++ closing :: rest, close⟩ =
          .ok () ⟨source, closing :: rest, close⟩ :=
        discard_eat_optional trailing (by simp [closes])
      simp only [List.cons_append, List.append_assoc, List.nil_append]
      rw [ifEat_found opens, readParameters, ifEat_other (no_mark first fit),
        bind_of_ok (readParameter_takes first _ fit (more.behindItem behind)), bind_of_ok others.many,
        bind_of_ok past_comma, bind_of_ok (discard_of_ok (expect_found closes))]
      rfl

theorem modify_nil (type : DataType) : type.modify [] = type := by
  simp [modify]

theorem modify_cons (type : DataType) (token : Token) (modifiers : List Token) :
    (type.modify [token]).modify modifiers = type.modify (token :: modifiers) := by
  simp [modify, Bool.or_assoc]

theorem readModifier_eq (type : DataType) {token : Token} (modifier : token.IsTypeModifier) :
    readModifier type ⟨source, token :: rest, close⟩ =
      .ok (type.modify [token]) ⟨source, rest, close⟩ := by
  rcases modifier with kind | kind
  · rw [readModifier, bind_of_ok (eatWord_found kind)]
    simp [modify, kind, pure, EStateM.pure]
  · rw [readModifier, ifWord_other (by simp [kind]),
      bind_of_ok (discard_of_ok (eatWord_found kind))]
    simp [modify, kind, pure, EStateM.pure]

theorem foldWhile_readModifier (type : DataType) {modifiers : List Token}
    (modified : ∀ token ∈ modifiers, token.IsTypeModifier)
    (ends : ¬(rest.headD close).IsTypeModifier) :
    foldWhile (fun cursor => cursor.seesWord .UNSIGNED || cursor.seesWord .ZEROFILL) readModifier
        type ⟨source, modifiers ++ rest, close⟩ =
      .ok (type.modify modifiers) ⟨source, rest, close⟩ := by
  have sees (ahead : List Token) :
      (Cursor.seesWord ⟨source, ahead, close⟩ .UNSIGNED ||
        Cursor.seesWord ⟨source, ahead, close⟩ .ZEROFILL) = true ↔
        (ahead.headD close).IsTypeModifier := by
    rw [Bool.or_eq_true]
    exact or_congr beq_iff_eq beq_iff_eq
  induction modifiers generalizing type with
  | nil =>
      rw [List.nil_append, foldWhile, if_neg (mt (sees rest).mp ends), modify_nil]
  | cons token modifiers ih =>
      obtain ⟨first, later⟩ := List.forall_mem_cons.mp modified
      rw [List.cons_append, foldWhile, if_pos ((sees (token :: _)).mpr first), readModifier_eq type first]
      dsimp only
      rw [dif_pos (by simp), ih _ later, modify_cons]

theorem Written.read {tokens : List Token} {type : DataType} (written : Written tokens type)
    (ends : (rest.headD close).EndsType) :
    read ⟨source, tokens ++ rest, close⟩ = .ok type ⟨source, rest, close⟩ := by
  obtain @⟨words, word, named, group, modifiers, parameters, name, spelled, parameterized,
    modified⟩ := written
  simp only [Token.EndsType, List.mem_cons, List.not_mem_nil, or_false, not_or] at ends
  obtain ⟨no_group, no_unsigned, no_zerofill, no_precision, no_varchar⟩ := ends
  -- behind the name and the group there may be a modifier, which is neither's to go on with
  have behind_group {kind : TokenKind} (no_rest : (rest.headD close).kind ≠ kind)
      (unsigned : kind ≠ .keyword .UNSIGNED) (zerofill : kind ≠ .keyword .ZEROFILL) :
      ((modifiers ++ rest).headD close).kind ≠ kind := by
    cases modifiers with
    | nil => exact no_rest
    | cons token _ =>
        rcases modified token List.mem_cons_self with same | same
        · exact fun other => unsigned (other.symm.trans same)
        · exact fun other => zerofill (other.symm.trans same)
  have behind_name {word : Keyword} (no_rest : (rest.headD close).kind ≠ .keyword word)
      (unsigned : word ≠ .UNSIGNED) (zerofill : word ≠ .ZEROFILL) :
      ((group ++ (modifiers ++ rest)).headD close).kind ≠ .keyword word := by
    cases parameterized with
    | none => exact behind_group no_rest (by simpa using unsigned) (by simpa using zerofill)
    | empty opens => simp [opens]
    | some opens => simp [opens]
  simp only [List.append_assoc]
  have readName : readName ⟨source, named ++ (group ++ (modifiers ++ rest)), close⟩ =
      .ok word ⟨source, group ++ (modifiers ++ rest), close⟩ :=
    readName_spelled name spelled (behind_name no_precision (by decide) (by decide))
      (behind_name no_varchar (by decide) (by decide))
  have readGroup : (do if ← eat .leftParen then readParameters else pure [])
      ⟨source, group ++ (modifiers ++ rest), close⟩ =
        .ok parameters ⟨source, modifiers ++ rest, close⟩ :=
    readGroup_written parameterized (behind_group no_group (by simp) (by simp))
  rw [DataType.read, bind_of_ok readName]
  refine (choice_bind readGroup _).trans ?_
  exact foldWhile_readModifier _ modified fun modifier => modifier.elim no_unsigned no_zerofill

end DataType

end SchemaDrift
