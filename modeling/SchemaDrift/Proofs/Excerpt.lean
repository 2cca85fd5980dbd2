import SchemaDrift.Proofs.Splitting

/-!
The text of a statement. The tokens of a statement are those that its own part of the text gives
when it is scanned alone, moved to where the part starts; and so is the end that closes it.
-/

namespace SchemaDrift

namespace Token

def visible (position : Position) (chars : List Char) : List Token :=
  (scan position chars).filter (!·.isDirective)

theorem visible_append (position : Position) (chars behind : List Char)
    (reached : Reaches (chars ++ behind) behind) :
    visible position (chars ++ behind) =
      visible position chars ++ visible (position.advance chars) behind := by
  rw [visible, scan_append position chars behind reached, List.filter_append]
  rfl

theorem visible_split {position : Position} {chars : List Char} {earlier later : List Token}
    {token : Token} (tokens : visible position chars = earlier ++ token :: later) :
    ∃ before c rest, Stands position chars token before c rest ∧ visible position before = earlier ∧
      visible (position.advance before) (c :: rest) = token :: later := by
  obtain ⟨first, second, scanned, front, tail⟩ := List.filter_eq_append_iff.mp tokens
  obtain ⟨hidden, others, rfl, unseen, seen, rest⟩ := List.filter_eq_cons_iff.mp tail
  rw [← List.append_assoc] at scanned
  obtain ⟨before, c, behind, stands, scanned_before, scanned_behind⟩ := scan_split scanned
  refine ⟨before, c, behind, stands, ?_, ?_⟩
  · rw [visible, scanned_before, List.filter_append, front, List.filter_eq_nil_iff.mpr unseen,
      List.append_nil]
  · rw [visible, scan_cons, stands.piece, scanned_behind]
    simpa [seen] using rest

theorem visible_relocate (origin : Position) {position : Position} (counted : position.Counted)
    (chars : List Char) :
    visible (origin.relocate position) chars = (visible position chars).map (relocate origin) := by
  rw [visible, scan_relocate origin counted, List.filter_map]
  rfl

end Token

namespace Statement

open Token

/-- The end of input of a text that starts at `position`. -/
def endOfPart (position : Position) (chars : List Char) : Token :=
  .endOfInput (position.advance chars).offset (position.advance chars)

theorem endOfPart_eq (origin : Position) (chars : List Char) :
    endOfPart origin chars = (endOf (.ofList chars)).relocate origin := by
  have place : origin.advance chars = origin.relocate (Position.start.advance chars) := by
    rw [← Position.relocate_advance origin Position.start_counted, Position.relocate_start]
  rw [endOfPart, place, endOf, String.toList_ofList]
  rfl

theorem endOf_append (first second : String) :
    endOf (first ++ second) = (endOf second).relocate (Position.ofPrefix first.toList) := by
  have part := endOfPart_eq (Position.ofPrefix first.toList) second.toList
  rw [String.ofList_toList] at part
  rw [← part, endOf, endOfPart, String.toList_append, Position.advance_append,
    Position.start_advance]

theorem visible_through_mark {position : Position} {chars : List Char} {inner behind : List Token}
    {mark : Token} (seen : visible position chars = inner ++ mark :: behind)
    (is_mark : mark.kind = .semicolon) :
    ∃ inside after, chars = inside ++ after ∧ visible position inside = inner ++ [mark] ∧
      endAfter mark = endOfPart position inside := by
  obtain ⟨middle, c, after, stands, _, from_mark⟩ := visible_split seen
  obtain ⟨kind, place, span⟩ := ofPiece_eq_some stands.piece
  obtain ⟨rfl, piece⟩ := Piece.front_of_semicolon (kind.trans (congrArg some is_mark))
  have text : chars = middle ++ [';'] ++ after := by
    rw [stands.text, List.append_assoc, List.singleton_append]
  have beyond_mark : Reaches (';' :: after) after := .past (by rw [piece]; exact .here after)
  have reached : Reaches (middle ++ [';'] ++ after) after := text ▸ stands.reached.trans beyond_mark
  have place_after : position.advance (middle ++ [';']) = (position.advance middle).after ';' :=
    Position.advance_append position middle [';']
  refine ⟨middle ++ [';'], after, text, ?_, ?_⟩
  · -- what the mark leaves behind is what the text behind it gives
    have behind_mark : visible (position.advance (middle ++ [';'])) after = behind := by
      have no_directive : mark.isDirective = false := by rw [isDirective, is_mark]; rfl
      rw [visible, scan_cons, stands.piece, piece] at from_mark
      rw [place_after]
      simpa [no_directive, visible, Piece.plain] using from_mark
    rw [text, visible_append _ _ _ reached, behind_mark, List.append_cons inner] at seen
    exact List.append_cancel_right seen
  · rw [piece] at span
    rw [endAfter, endOfPart, place_after, place, span]
    rfl

theorem visible_up_to {position : Position} {chars : List Char} {inner behind : List Token}
    {next : Token} (seen : visible position chars = inner ++ next :: behind) :
    ∃ inside after, chars = inside ++ after ∧ visible position inside = inner ∧
      endBefore next = endOfPart position inside := by
  obtain ⟨inside, c, after, stands, before_next, _⟩ := visible_split seen
  obtain ⟨_, place, span⟩ := ofPiece_eq_some stands.piece
  refine ⟨inside, c :: after, stands.text, before_next, ?_⟩
  rw [endBefore, place, span, endOfPart]

theorem Cut.part {position : Position} {chars : List Char} {tokens behind : List Token}
    {close : Token} (seen : visible position chars = tokens ++ behind)
    (cut : Cut (endOfPart position chars) tokens close behind) :
    ∃ inside after, chars = inside ++ after ∧ visible position inside = tokens ∧
      close = endOfPart position inside := by
  rcases cut.closing with ⟨mark, last, is_mark, rfl⟩ | ⟨_, ⟨next, rest, rfl, _, rfl⟩ | ⟨rfl, rfl⟩⟩
  · obtain ⟨inner, rfl⟩ := List.getLast?_eq_some_iff.mp last
    rw [List.append_assoc, List.singleton_append] at seen
    exact visible_through_mark seen is_mark
  · exact visible_up_to seen
  · exact ⟨chars, [], by simp, by simpa using seen, rfl⟩

theorem mem_visible {text : String} {statement : Statement} (member : statement ∈ ofText text) {token : Token}
    (own : token ∈ statement.tokens) : token ∈ visible .start text.toList := by
  have joined : (ofText text).flatMap tokens = visible .start text.toList := (Splitter.ofText_cuts text).joined
  rw [← joined]
  exact List.mem_flatMap.mpr ⟨statement, member, own⟩

/-- Does the statement take up exactly the middle part of the text, which parts in three? -/
structure Occupies (text : String) (statement : Statement) (before inside behind : List Char) :
    Prop where
  parts : text.toList = before ++ inside ++ behind
  starts : statement.first.span.start = String.utf8Len before
  stops : statement.close.span.start = String.utf8Len before + String.utf8Len inside

/-- A statement of a text is what its own part gives, moved to its place. -/
theorem ofText_part {text : String} {statement : Statement} (member : statement ∈ ofText text) :
    ∃ before inside behind, statement.Occupies text before inside behind ∧
      statement.source = text.toList ∧
      statement.tokens = (visible .start inside).map (relocate (Position.ofPrefix before)) ∧
      statement.close = (endOf (.ofList inside)).relocate (Position.ofPrefix before) := by
  obtain ⟨index, found⟩ := List.getElem?_of_mem member
  have cuts := Splitter.ofText_cuts text
  obtain ⟨earlier, later, tokens, source, cut, _⟩ := cuts.getElem? found
  obtain ⟨first, others, own⟩ := List.exists_cons_of_ne_nil cut.nonempty
  have seen : visible .start text.toList = earlier ++ first :: (others ++ later) := by
    rw [own, List.append_assoc, List.cons_append] at tokens
    exact tokens
  obtain ⟨before, c, rest, stands, _, from_first⟩ := visible_split seen
  rw [← List.cons_append, ← own] at from_first
  have origin := Position.start_advance before
  have finish : endOf text = endOfPart (Position.ofPrefix before) (c :: rest) := by
    rw [endOf, endOfPart, ← origin, ← Position.advance_append, ← stands.text]
  have cut : Cut (endOf text) statement.tokens statement.close later := cut
  rw [finish] at cut
  rw [origin] at from_first
  obtain ⟨inside, behind, parts, tokens_inside, close⟩ := Cut.part from_first cut
  have moved := visible_relocate (Position.ofPrefix before) Position.start_counted inside
  rw [Position.relocate_start, tokens_inside] at moved
  refine ⟨before, inside, behind, ⟨?_, ?_, ?_⟩, source, moved, ?_⟩
  · rw [stands.text, parts, List.append_assoc]
  · rw [Statement.first, own, List.headD_cons, (ofPiece_eq_some stands.piece).2.2, origin]
    rfl
  · rw [close]
    exact Position.advance_offset (Position.ofPrefix before) inside
  · rw [close, endOfPart_eq]

end Statement

end SchemaDrift
