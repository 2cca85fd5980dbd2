import SchemaDrift.Proofs.Capture
import SchemaDrift.Proofs.Forward
import SchemaDrift.Proofs.InPlace

/-!
Lists of values between parentheses. A value is any text without comments that closes its quotes and
pairs up its parentheses, with no comma outside those; the commas of its calls, rows and strings are
part of it. Every value of a list is read as it was written, in normal spacing.
-/

namespace SchemaDrift

open Text Reading

/-- The kinds close each parenthesis that they open, and `depth` more, with no comma outside those. -/
inductive Undivided : Nat → List TokenKind → Prop where
  | finish : Undivided 0 []
  | opening {depth : Nat} {kinds : List TokenKind} (later : Undivided (depth + 1) kinds) :
      Undivided depth (.leftParen :: kinds)
  | closing {depth : Nat} {kinds : List TokenKind} (later : Undivided depth kinds) :
      Undivided (depth + 1) (.rightParen :: kinds)
  | comma {depth : Nat} {kinds : List TokenKind} (later : Undivided (depth + 1) kinds) :
      Undivided (depth + 1) (.comma :: kinds)
  | other {depth : Nat} {kind : TokenKind} {kinds : List TokenKind}
      (plain : kind ∉ [.leftParen, .rightParen, .comma]) (later : Undivided depth kinds) :
      Undivided depth (kind :: kinds)

theorem Group.read_undivided {depth : Nat} {tokens : List Token}
    (undivided : Undivided depth (tokens.map Token.kind))
    (no_end : ∀ token ∈ tokens, token.kind ≠ .endOfInput) (close : Token) (rest : List Token) :
    read close depth (tokens ++ rest) = read close 0 rest := by
  induction tokens generalizing depth with
  | nil =>
      cases undivided
      rfl
  | cons token tokens ih =>
      obtain ⟨not_end, inside⟩ := List.forall_mem_cons.mp no_end
      rw [List.cons_append, read_cons]
      rw [List.map_cons] at undivided
      generalize token.kind = kind at undivided not_end
      cases undivided with
      | opening later => simpa using ih later inside
      | closing later => simpa using ih later inside
      | comma later => simpa using ih later inside
      | other plain later =>
          simp only [List.mem_cons, List.not_mem_nil, or_false, not_or] at plain
          simpa [plain, not_end] using ih later inside

/-- A text that stands in a list of values. It holds no comment, and a directive, which a reader passes
over, counts as one. -/
structure ListValue (value : String) : Prop where
  uncommented : Uncommented value.toList
  closed : ∀ token ∈ Token.scanText value, token.Closed value.toList
  undivided : Undivided 0 ((contents value.toList).map Prod.fst)
  not_blank : trim value.toList ≠ []

namespace ListValue

variable {value : String} {before behind : List Char}

theorem visible (fits : ListValue value) (severs : ∀ c ∈ behind.head?, Severs c) :
    Token.visible (.ofPrefix before) (value.toList ++ behind) =
      Token.visible (.ofPrefix before) value.toList ++
        Token.visible (.ofPrefix (before ++ value.toList)) behind :=
  Token.visible_part (.of_sealed fits.uncommented (sealed_of_closed fits.closed) severs)

theorem read_group (fits : ListValue value) (close : Token) (rest : List Token) :
    Group.read close 0 (Token.visible (.ofPrefix before) value.toList ++ rest) =
      Group.read close 0 rest := by
  have kinds : (Token.visible (.ofPrefix before) value.toList).map Token.kind =
      (contents value.toList).map Prod.fst := by
    rw [← Token.visible_content (.ofPrefix before), List.map_map]
    rfl
  refine Group.read_undivided (kinds ▸ fits.undivided) ?_ close rest
  exact fun token member => Token.scan_not_end (List.mem_filter.mp member).1

theorem normalizeSpacing_not_empty (fits : ListValue value) :
    (normalizeSpacing value).isEmpty = false := by
  rw [String.isEmpty_eq_false_iff, normalizeSpacing, Ne, String.ofList_eq_empty_iff, squeeze_eq_nil]
  exact fits.not_blank

end ListValue

/-- Values with commas between them, and the parenthesis that closes their list. -/
def ListValue.closedList (value : String) : List String → List Char
  | [] => value.toList ++ [')']
  | next :: others => value.toList ++ ',' :: closedList next others

/-- Values between parentheses of the source, and the tokens that stand there. -/
inductive ValueGroup (source : List Char) : List Token → List String → Prop where
  | mk {before behind : List Char} {value : String} {others : List String}
      (stands : source = before ++ '(' :: ListValue.closedList value others ++ behind)
      (fits : ∀ text ∈ value :: others, ListValue text) :
      ValueGroup source (Token.visible (.ofPrefix before) ('(' :: ListValue.closedList value others))
        ((value :: others).map normalizeSpacing)

theorem textsBetween_value {source before behind : List Char} {value : String} {mark next : Token}
    {marks : List Token} {texts : List String} {cursor : Cursor} (fits : ListValue value)
    (from_source : cursor.source = source)
    (stands : source = before ++ value.toList ++ behind)
    (start : mark.span.stop = String.utf8Len before)
    (stop : next.span.start = String.utf8Len (before ++ value.toList))
    (later : textsBetween next marks cursor = .ok texts cursor) :
    textsBetween mark (next :: marks) cursor = .ok (normalizeSpacing value :: texts) cursor := by
  have slice : cursor.slice mark.span.stop next.span.start = value := by
    rw [Cursor.slice, Span.text, from_source, stands, start, stop, Span.slice?_between,
      Option.getD_some, String.ofList_toList]
  have text : textBetween mark next cursor = .ok (normalizeSpacing value) cursor := by
    rw [textBetween, look_eq, slice]
  rw [textsBetween, bind_of_ok text, bind_of_ok later, fits.normalizeSpacing_not_empty]
  rfl

/-- Behind a mark the values are read up to the parenthesis that closes their list. -/
theorem ListValue.read_closedList {source before behind : List Char} {value : String}
    {others : List String} (stands : source = before ++ closedList value others ++ behind)
    (fits : ∀ text ∈ value :: others, ListValue text) (mark : Token)
    (start : mark.span.stop = String.utf8Len before) (rest : List Token) (close : Token) :
    ∃ commas closing, closing.kind = .rightParen ∧
      Group.read close 0 (Token.visible (.ofPrefix before) (closedList value others) ++ rest) =
        ⟨commas, closing, rest⟩ ∧
      ∀ cursor : Cursor, cursor.source = source →
        textsBetween mark (commas ++ [closing]) cursor =
          .ok ((value :: others).map normalizeSpacing) cursor := by
  -- along the values, the mark behind each one being the mark in front of the next
  induction others generalizing before value mark with
  | nil =>
      obtain ⟨first, -⟩ := List.forall_mem_cons.mp fits
      rw [closedList] at stands ⊢
      refine ⟨[], Token.standing (before ++ value.toList) [')'] .rightParen [')'], rfl, ?_, ?_⟩
      · rw [first.visible (by simp [Severs]), Token.visible_closing, List.append_assoc,
          first.read_group]
        simp [Group.read_cons, Token.standing, Token.visible]
      · intro cursor from_source
        have stands_here : source = before ++ value.toList ++ (')' :: behind) := by
          rw [stands]
          simp
        exact textsBetween_value first from_source stands_here start rfl rfl
  | cons next others ih =>
      obtain ⟨first, later⟩ := List.forall_mem_cons.mp fits
      rw [closedList] at stands ⊢
      have stands_later :
          source = before ++ value.toList ++ [','] ++ closedList next others ++ behind := by
        rw [stands]
        simp
      obtain ⟨commas, closing, closes, read, texts⟩ :=
        ih stands_later later (Token.standing (before ++ value.toList) [','] .comma [',']) rfl
      refine ⟨Token.standing (before ++ value.toList) [','] .comma [','] :: commas, closing, closes,
        ?_, ?_⟩
      · rw [first.visible (by simp [Severs]), Token.visible_comma, List.append_assoc,
          first.read_group, List.cons_append, Group.read_cons, read]
        simp [Token.standing]
      · intro cursor from_source
        have stands_here : source =
            before ++ value.toList ++ (',' :: (closedList next others ++ behind)) := by
          rw [stands]
          simp
        exact textsBetween_value first from_source stands_here start rfl (texts cursor from_source)

theorem Reading.closedGroup_found {source : List Char} {opening closing close : Token}
    {ahead commas rest : List Token} (opens : opening.kind = .leftParen)
    (read : Group.read close 0 ahead = ⟨commas, closing, rest⟩)
    (closes : closing.kind = .rightParen) :
    closedGroup ⟨source, opening :: ahead, close⟩ =
      .ok (opening, ⟨commas, closing, rest⟩) ⟨source, rest, close⟩ := by
  have group_read :
      group ⟨source, ahead, close⟩ = .ok ⟨commas, closing, rest⟩ ⟨source, rest, close⟩ := by
    rw [group, read]
  rw [closedGroup, bind_of_ok (expect_found opens), bind_of_ok group_read]
  simp only [Group.closed, closes, BEq.rfl, ↓reduceIte]
  rfl

theorem ValueGroup.front {source : List Char} {tokens : List Token} {values : List String}
    (group : ValueGroup source tokens values) :
    ∃ opening others, tokens = opening :: others ∧ opening.kind = .leftParen := by
  obtain @⟨before, _, value, others, _, _⟩ := group
  exact ⟨_, _, Token.visible_opening before _, rfl⟩

/-- The values between parentheses are read one for one. -/
theorem ValueGroup.read {source : List Char} {tokens : List Token} {values : List String}
    (group : ValueGroup source tokens values) (rest : List Token) (close : Token) :
    valueList ⟨source, tokens ++ rest, close⟩ = .ok values ⟨source, rest, close⟩ := by
  obtain @⟨before, behind, value, others, stands, fits⟩ := group
  have stands_inside : source = before ++ ['('] ++ ListValue.closedList value others ++ behind := by
    rw [stands]
    simp
  obtain ⟨commas, closing, closes, read, texts⟩ := ListValue.read_closedList stands_inside fits
    (Token.standing before ['('] .leftParen ['(']) rfl rest close
  rw [Token.visible_opening, List.cons_append, valueList,
    bind_of_ok (closedGroup_found rfl read closes)]
  exact texts _ rfl

end SchemaDrift
