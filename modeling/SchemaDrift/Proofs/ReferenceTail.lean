import SchemaDrift.Proofs.ColumnClauses
import SchemaDrift.Proofs.Uniform

/-!
The clauses behind the columns of a reference end where the clauses of the column go on. An ON that has
no action two places on is the column's own, also where the reference has ON UPDATE clauses.
-/

namespace SchemaDrift

open Reading

namespace Reading

variable {α : Type} {more : Cursor → Bool} {item : Reading α} {cursor middle after : Cursor}
  {value : α} {values : List α}

theorem foldWhile_seen {front latestFirst : List α} (seen : List α)
    (done : foldWhile more (fun seen => return (← item) :: seen) front cursor =
      .ok latestFirst after) :
    foldWhile more (fun seen => return (← item) :: seen) (front ++ seen) cursor =
      .ok (latestFirst ++ seen) after := by
  induction count : cursor.ahead.length using Nat.strongRecOn generalizing cursor front with
  | ind count ih =>
      rw [foldWhile] at done ⊢
      split at done
      next goes =>
        cases one : item cursor with
        | error error middle =>
            rw [bind_of_error one] at done
            contradiction
        | ok value middle =>
            rw [if_pos goes, bind_of_ok one]
            rw [bind_of_ok one] at done
            dsimp only [pure, EStateM.pure] at done ⊢
            split at done
            next shorter =>
              rw [dif_pos shorter]
              exact ih _ (by omega) done rfl
            next still =>
              obtain ⟨rfl, rfl⟩ := EStateM.Result.ok.inj done
              rw [dif_neg still]
              rfl
      next stops =>
        obtain ⟨rfl, rfl⟩ := EStateM.Result.ok.inj done
        rw [if_neg stops]

theorem many_round (goes : more cursor = true) (read : item cursor = .ok value middle)
    (shorter : middle.ahead.length < cursor.ahead.length)
    (later : many more item middle = .ok values after) :
    many more item cursor = .ok (value :: values) after := by
  rw [many] at later
  obtain ⟨latestFirst, last, gathered, done⟩ := ok_of_bind_ok later
  obtain ⟨rfl, rfl⟩ := EStateM.Result.ok.inj done
  have round : foldWhile more (fun seen => return (← item) :: seen) [] cursor =
      .ok (latestFirst ++ [value]) last := by
    rw [foldWhile, if_pos goes, bind_of_ok read]
    dsimp only [pure, EStateM.pure]
    rw [dif_pos shorter]
    exact foldWhile_seen [value] gathered
  rw [many, bind_of_ok round]
  simp [pure, EStateM.pure]

end Reading

variable {source : List Char} {first close : Token} {named columns items tail rest : List Token}
  {table : String} {clauses : List ReferenceClause}

/-- Neither MATCH nor an ON with an action two places on: what follows is no clause of a reference. -/
theorem ReferenceClause.not_starts (ends : close.kind = .endOfInput)
    (no_match : ∀ token ∈ rest[0]?, token.kind ≠ .keyword .MATCH)
    (no_action : ∀ on ∈ rest[0]?, on.kind = .keyword .ON →
      ∀ action ∈ rest[2]?, ∀ word ∈ ReferentialAction.firstWords, action.kind ≠ .keyword word) :
    starts ⟨source, rest, close⟩ = false := by
  match rest with
  | [] => simp [starts, Cursor.seesWord, Cursor.sees, Cursor.current, ends]
  | [on] | [on, event] =>
      simp [starts, Cursor.seesWord, Cursor.sees, Cursor.peeksWord, Cursor.peek, Cursor.current, ends,
        no_match on rfl]
  | on :: event :: action :: others =>
      have apart := no_action on rfl
      simp only [List.getElem?_cons_succ, List.getElem?_cons_zero, Option.mem_def, Option.some.injEq,
        forall_eq', ReferentialAction.firstWords, List.mem_cons, List.not_mem_nil, or_false] at apart
      simpa [starts, Cursor.seesWord, Cursor.sees, Cursor.peeksWord, Cursor.peek, Cursor.current,
        no_match on rfl, and_assoc] using apart

theorem ColumnClause.read_onUpdate {on update : Token} {value : List Token} {text : String}
    {after : Cursor} (starts : on.kind = .keyword .ON) (goes : update.kind = .keyword .UPDATE)
    (read : DefaultValue.read ⟨source, value, close⟩ = .ok text after) :
    ColumnClause.read ⟨source, on :: update :: value, close⟩ = .ok (.onUpdate text) after := by
  rw [read_word starts, readFrom, bind_of_ok discard_advance, bind_of_ok (eatWord_found goes)]
  exact bind_of_ok read _

/-- A reference takes all its clauses off, of which the last for each occasion counts, and stops in
front of what is none of them. An ON UPDATE behind it is then the column's. -/
theorem Reference.read_tail (starts : first.kind = .keyword .REFERENCES)
    (name : TableName named table) (listed : ItemGroup Token.isName columns items)
    (followed : ReferenceClauses tail clauses) (ends : close.kind = .endOfInput)
    (no_match : ∀ token ∈ rest[0]?, token.kind ≠ .keyword .MATCH)
    (no_action : ∀ on ∈ rest[0]?, on.kind = .keyword .ON →
      ∀ action ∈ rest[2]?, ∀ word ∈ ReferentialAction.firstWords, action.kind ≠ .keyword word) :
    Reference.read ⟨source, first :: (named ++ (columns ++ (tail ++ rest))), close⟩ =
        .ok (declared table (items.map Token.text) clauses) ⟨source, rest, close⟩ ∧
      ∀ (column on update : Token) (type value : List Token) (dataType : DataType) (text : String)
        (more : List ColumnClause) (after last : Cursor),
        rest = on :: update :: value → on.kind = .keyword .ON → update.kind = .keyword .UPDATE →
        DefaultValue.read ⟨source, value, close⟩ = .ok text after →
        many (!·.atElementEnd) ColumnClause.read after = .ok more last →
        column.isName = true → dataType.Written type →
        Column.read
            ⟨source, column :: (type ++ first :: (named ++ (columns ++ (tail ++ rest)))), close⟩ =
          .ok
            (.declared column.text dataType
              (.reference (declared table (items.map Token.text) clauses) :: .onUpdate text :: more),
              more.filterMap ColumnClause.check?) last := by
  have written : Written (first :: (named ++ (columns ++ tail)))
      (declared table (items.map Token.text) clauses) :=
    .mk starts name listed followed
  have read : Reference.read ⟨source, first :: (named ++ (columns ++ tail)) ++ rest, close⟩ = _ :=
    written.read (ReferenceClause.not_starts ends no_match no_action)
  simp only [List.cons_append, List.append_assoc] at read
  refine ⟨read, ?_⟩
  rintro column on update type value dataType text more after last rfl on_kind update_kind value_read
    later column_named typed
  have value_shorter : after.ahead.length ≤ value.length :=
    DefaultValue.read_uniform.ahead_length_le ends value_read
  have onUpdate_read : many (!·.atElementEnd) ColumnClause.read ⟨source, on :: update :: value, close⟩ =
      .ok (.onUpdate text :: more) last := by
    refine many_round ?_ (ColumnClause.read_onUpdate on_kind update_kind value_read) ?_ later
    · simp [Cursor.atElementEnd, Cursor.current, on_kind]
    · simp only [List.length_cons]
      omega
  have reference_read : ColumnClause.read
      ⟨source, first :: (named ++ (columns ++ (tail ++ on :: update :: value))), close⟩ =
      .ok (.reference (declared table (items.map Token.text) clauses))
        ⟨source, on :: update :: value, close⟩ :=
    (ColumnClause.read_word starts _).trans (bind_of_ok read _)
  refine Column.read_of_many column_named typed ?_ (many_round ?_ reference_read ?_ onUpdate_read)
  · simp [Token.EndsType, starts]
  · simp [Cursor.atElementEnd, Cursor.current, starts]
  · simp only [List.length_cons, List.length_append]
    omega

/-- The reference is given an action on update twice, of which the later one counts; the third ON UPDATE
has no action behind it and is the column's. -/
theorem Reference.read_tail_then_update :
    ∃ (text : String) (column type : Token) (reference value : List Token) (stop : Token),
      text = "a INT REFERENCES p (x) ON UPDATE SET NULL MATCH FULL ON UPDATE CASCADE ON UPDATE NOW NOT NULL)"
        ∧
      Token.visible .start text.toList = column :: type :: (reference ++ (value ++ [stop])) ∧
      Reference.read ⟨text.toList, reference ++ (value ++ [stop]), .endOf text⟩ =
        .ok { table := "p", columns := ["x"], onUpdate := some .cascade }
          ⟨text.toList, value ++ [stop], .endOf text⟩ ∧
      Column.read (.ofText text) =
        .ok
          ({ name := "a", dataType := { name := "INT" }, nullability := .notNull,
             onUpdate := some "NOW",
             reference := some { table := "p", columns := ["x"], onUpdate := some .cascade } }, [])
          ⟨text.toList, [stop], .endOf text⟩ := by
  obtain ⟨text, same⟩ : ∃ text, text =
    "a INT REFERENCES p (x) ON UPDATE SET NULL MATCH FULL ON UPDATE CASCADE ON UPDATE NOW NOT NULL)" :=
    ⟨_, rfl⟩
  obtain ⟨group, group_same⟩ : ∃ group : List Token, group =
      [⟨.leftParen, "(", ⟨19, 20⟩, ⟨19, 1, 20⟩⟩, ⟨.identifier, "x", ⟨20, 21⟩, ⟨20, 1, 21⟩⟩,
        ⟨.rightParen, ")", ⟨21, 22⟩, ⟨21, 1, 22⟩⟩] := ⟨_, rfl⟩
  obtain ⟨tail, tail_same⟩ : ∃ tail : List Token, tail =
      [⟨.keyword .ON, "ON", ⟨23, 25⟩, ⟨23, 1, 24⟩⟩, ⟨.keyword .UPDATE, "UPDATE", ⟨26, 32⟩, ⟨26, 1, 27⟩⟩,
        ⟨.keyword .SET, "SET", ⟨33, 36⟩, ⟨33, 1, 34⟩⟩, ⟨.keyword .NULL, "NULL", ⟨37, 41⟩, ⟨37, 1, 38⟩⟩,
        ⟨.keyword .MATCH, "MATCH", ⟨42, 47⟩, ⟨42, 1, 43⟩⟩,
        ⟨.keyword .FULL, "FULL", ⟨48, 52⟩, ⟨48, 1, 49⟩⟩, ⟨.keyword .ON, "ON", ⟨53, 55⟩, ⟨53, 1, 54⟩⟩,
        ⟨.keyword .UPDATE, "UPDATE", ⟨56, 62⟩, ⟨56, 1, 57⟩⟩,
        ⟨.keyword .CASCADE, "CASCADE", ⟨63, 70⟩, ⟨63, 1, 64⟩⟩] := ⟨_, rfl⟩
  obtain ⟨on, update, on_same, update_same⟩ : ∃ on update : Token,
      on = ⟨.keyword .ON, "ON", ⟨71, 73⟩, ⟨71, 1, 72⟩⟩ ∧
      update = ⟨.keyword .UPDATE, "UPDATE", ⟨74, 80⟩, ⟨74, 1, 75⟩⟩ := ⟨_, _, rfl, rfl⟩
  obtain ⟨value, stop, value_same, stop_same⟩ : ∃ (value : List Token) (stop : Token), value =
      [⟨.identifier, "NOW", ⟨81, 84⟩, ⟨81, 1, 82⟩⟩, ⟨.keyword .NOT, "NOT", ⟨85, 88⟩, ⟨85, 1, 86⟩⟩,
        ⟨.keyword .NULL, "NULL", ⟨89, 93⟩, ⟨89, 1, 90⟩⟩] ∧
      stop = ⟨.rightParen, ")", ⟨93, 94⟩, ⟨93, 1, 94⟩⟩ := ⟨_, _, rfl, rfl⟩
  have scanned : Token.visible .start text.toList =
      ⟨.identifier, "a", ⟨0, 1⟩, ⟨0, 1, 1⟩⟩ :: ⟨.keyword .INT, "INT", ⟨2, 5⟩, ⟨2, 1, 3⟩⟩ ::
        ((⟨.keyword .REFERENCES, "REFERENCES", ⟨6, 16⟩, ⟨6, 1, 7⟩⟩ ::
          ([⟨.identifier, "p", ⟨17, 18⟩, ⟨17, 1, 18⟩⟩] ++ (group ++ tail))) ++
          ((on :: update :: value) ++ [stop])) := by
    rw [same, group_same, tail_same, on_same, update_same, value_same, stop_same]
    decide +kernel
  have listed : ItemGroup Token.isName group [⟨.identifier, "x", ⟨20, 21⟩, ⟨20, 1, 21⟩⟩] := by
    rw [group_same]
    exact @ItemGroup.mk _ _ _ _ [] [] rfl rfl .finish rfl
  have followed : ReferenceClauses tail [.onUpdate .setNull, .matching, .onUpdate .cascade] := by
    rw [tail_same]
    refine @ReferenceClauses.clause [_, _, _, _] _ _ _
      (@ReferenceClause.Written.onUpdate _ .setNull rfl) ?_
    refine @ReferenceClauses.clause [_, _] _ _ _
      (@ReferenceClause.Written.matching _ .FULL (by decide) rfl) ?_
    exact @ReferenceClauses.clause [_, _, _] _ _ _ (@ReferenceClause.Written.onUpdate _ .cascade rfl)
      .finish
  have typed (first : Token) (int : first.kind = .keyword .INT) :
      DataType.Written [first] { name := "INT" } :=
    @DataType.Written.mk [.INT] .INT [first] [] [] [] (.plain rfl (by decide)) (by simp [Spell, int])
      .none (by simp)
  have value_read : DefaultValue.read ⟨text.toList, value ++ [stop], .endOf text⟩ =
      .ok "NOW" ⟨text.toList, value.tail ++ [stop], .endOf text⟩ := by
    rw [value_same]
    rfl
  have later : many (!·.atElementEnd) ColumnClause.read
      ⟨text.toList, value.tail ++ [stop], .endOf text⟩ =
      .ok [.nullability .notNull] ⟨text.toList, [stop], .endOf text⟩ := by
    rw [value_same, stop_same]
    exact Rounds.many (.round rfl rfl (by simp [Cursor.next]) (.stop rfl))
  have no_match : ∀ token ∈ (on :: update :: (value ++ [stop]))[0]?, token.kind ≠ .keyword .MATCH := by
    simp [on_same]
  have no_action : ∀ first ∈ (on :: update :: (value ++ [stop]))[0]?, first.kind = .keyword .ON →
      ∀ action ∈ (on :: update :: (value ++ [stop]))[2]?, ∀ word ∈ ReferentialAction.firstWords,
        action.kind ≠ .keyword word := by
    simp [value_same]
  have cursor : Cursor.ofText text = ⟨text.toList, Token.visible .start text.toList, .endOf text⟩ :=
    rfl
  refine ⟨text, _, _, _, on :: update :: value, stop, same, scanned, ?_⟩
  rw [cursor, scanned]
  simp only [List.cons_append, List.append_assoc]
  have whole := @read_tail text.toList ⟨.keyword .REFERENCES, "REFERENCES", ⟨6, 16⟩, ⟨6, 1, 7⟩⟩
    (.endOf text) [⟨.identifier, "p", ⟨17, 18⟩, ⟨17, 1, 18⟩⟩] group _ tail _ _ _ rfl (.plain rfl)
    listed followed rfl no_match no_action
  refine ⟨whole.1, ?_⟩
  exact whole.2 _ _ _ _ _ _ _ _ _ _ rfl (by rw [on_same]) (by rw [update_same]) value_read later
    rfl (typed _ rfl)

end SchemaDrift
