import Mathlib.Data.List.Induction
import Mathlib.Data.String.Basic
import SchemaDrift.Proofs.Scan
import SchemaDrift.SyntaxError

/-!
True places, and moving a text. The place that the scanner counts up is the one that the characters
before it tell, and a text that starts at another place gives the same tokens, each moved there.
-/

namespace SchemaDrift

namespace Position

/-- The place behind `before`, told from it as a whole: its bytes, its newlines, and the characters
after the last newline. -/
def ofPrefix (before : List Char) : Position where
  offset := String.utf8Len before
  line := 1 + before.count '\n'
  column := 1 + (before.reverse.takeWhile (· != '\n')).length

theorem ofPrefix_concat (before : List Char) (c : Char) :
    ofPrefix (before ++ [c]) = (ofPrefix before).after c := by
  by_cases newline : c = '\n'
  · simp [ofPrefix, after, newline, Nat.add_assoc]
  · simp [ofPrefix, after, newline, Nat.add_assoc]

theorem start_advance (before : List Char) : start.advance before = ofPrefix before := by
  induction before using List.reverseRecOn with
  | nil => rfl
  | append_singleton before c ih =>
      rw [advance_append, ih, ofPrefix_concat, advance_cons, advance_nil]

theorem advance_offset (position : Position) (chars : List Char) :
    (position.advance chars).offset = position.offset + String.utf8Len chars := by
  induction chars generalizing position with
  | nil => simp
  | cons c rest ih =>
      have step : (position.after c).offset = position.offset + c.utf8Size := by
        unfold after
        split <;> rfl
      rw [advance_cons, ih, step, String.utf8Len_cons]
      omega

def Counted (position : Position) : Prop :=
  0 < position.line ∧ 0 < position.column

theorem Counted.after {position : Position} (counted : position.Counted) (c : Char) :
    (position.after c).Counted := by
  rw [Counted, Position.after]
  split
  · exact ⟨Nat.succ_pos _, Nat.one_pos⟩
  · exact ⟨counted.1, Nat.succ_pos _⟩

theorem Counted.advance {position : Position} (counted : position.Counted) (chars : List Char) :
    (position.advance chars).Counted := by
  induction chars generalizing position with
  | nil => exact counted
  | cons c rest ih => exact ih (counted.after c)

theorem start_counted : start.Counted :=
  ⟨Nat.one_pos, Nat.one_pos⟩

/-- The place in a text that starts at `origin`, of what has its own place in the text alone. -/
def relocate (origin position : Position) : Position where
  offset := origin.offset + position.offset
  line := origin.line + (position.line - 1)
  column := if position.line = 1 then origin.column + (position.column - 1) else position.column

theorem relocate_start (origin : Position) : origin.relocate start = origin := by
  simp [relocate, start]

theorem relocate_after (origin : Position) {position : Position} (counted : position.Counted)
    (c : Char) : (origin.relocate position).after c = origin.relocate (position.after c) := by
  obtain ⟨line, column⟩ := counted
  by_cases newline : c = '\n'
  · simp [after, relocate, newline, Nat.add_assoc]
    omega
  · simp only [after, relocate, newline, ↓reduceIte, Nat.add_assoc, mk.injEq, true_and]
    split <;> omega

theorem relocate_advance (origin : Position) {position : Position} (counted : position.Counted)
    (chars : List Char) :
    (origin.relocate position).advance chars = origin.relocate (position.advance chars) := by
  induction chars generalizing position with
  | nil => rfl
  | cons c rest ih =>
      rw [advance_cons, relocate_after origin counted, ih (counted.after c), advance_cons]

end Position

def Span.shift (bytes : Nat) (span : Span) : Span :=
  ⟨bytes + span.start, bytes + span.stop⟩

namespace Token

def relocate (origin : Position) (token : Token) : Token :=
  { token with span := token.span.shift origin.offset, position := origin.relocate token.position }

theorem ofPiece_relocate (origin : Position) {position : Position} (counted : position.Counted)
    (piece : Piece) :
    ofPiece (origin.relocate position) piece = (ofPiece position piece).map (relocate origin) := by
  rw [ofPiece, ofPiece, Position.relocate_advance origin counted, Option.map_map]
  rfl

theorem scan_relocate (origin : Position) {position : Position} (counted : position.Counted)
    (chars : List Char) :
    scan (origin.relocate position) chars = (scan position chars).map (relocate origin) := by
  induction chars using Piece.front_induction generalizing position with
  | nil => simp
  | cons c rest ih =>
      have tail := ih (counted.advance (Piece.front c rest).written)
      rw [scan_cons, scan_cons, ofPiece_relocate origin counted,
        Position.relocate_advance origin counted, tail]
      simp [Option.toList_map]

theorem Stands.span {chars : List Char} {token : Token} {before : List Char} {c : Char}
    {rest : List Char} (stands : Stands .start chars token before c rest) :
    token.span = ⟨String.utf8Len before,
      String.utf8Len (before ++ (Piece.front c rest).written)⟩ := by
  rw [(ofPiece_eq_some stands.piece).2.2, ← Position.advance_append, Position.start_advance,
    Position.start_advance]
  rfl

theorem scan_counted {position : Position} (counted : position.Counted) {chars : List Char}
    {token : Token} (member : token ∈ scan position chars) : token.position.Counted := by
  obtain ⟨before, c, rest, stands⟩ := scan_mem_stands member
  rw [(ofPiece_eq_some stands.piece).2.1]
  exact counted.advance before

end Token

def SyntaxError.relocate (origin : Position) (error : SyntaxError) : SyntaxError :=
  { error with found := error.found.relocate origin }

theorem utf8Len_toList (text : String) : String.utf8Len text.toList = text.utf8ByteSize := by
  rw [← String.utf8ByteSize_ofList, String.ofList_toList]

section Bytes

variable {count : Nat} (positive : 0 < count) (c : Char) (rest : List Char)
include positive

theorem dropBytes_cons :
    dropBytes count (c :: rest) =
      if c.utf8Size ≤ count then dropBytes (count - c.utf8Size) rest else none := by
  cases count with
  | zero => exact absurd positive (Nat.lt_irrefl 0)
  | succ count => rfl

theorem takeBytes_cons :
    takeBytes count (c :: rest) =
      if c.utf8Size ≤ count then (takeBytes (count - c.utf8Size) rest).map (c :: ·) else none := by
  cases count with
  | zero => exact absurd positive (Nat.lt_irrefl 0)
  | succ count => rfl

end Bytes

theorem dropBytes_past (before chars : List Char) (count : Nat) :
    dropBytes (String.utf8Len before + count) (before ++ chars) = dropBytes count chars := by
  induction before with
  | nil => simp
  | cons c rest ih =>
      have size := c.utf8Size_pos
      rw [String.utf8Len_cons, List.cons_append, dropBytes_cons (by omega), if_pos (by omega), ← ih]
      congr 1
      omega

theorem dropBytes_append {count : Nat} {chars : List Char} (fits : count ≤ String.utf8Len chars)
    (behind : List Char) :
    dropBytes count (chars ++ behind) = (dropBytes count chars).map (· ++ behind) := by
  induction chars generalizing count with
  | nil =>
      obtain rfl : count = 0 := by simpa using fits
      simp [dropBytes]
  | cons c rest ih =>
      rcases Nat.eq_zero_or_pos count with rfl | positive
      · simp [dropBytes]
      · rw [String.utf8Len_cons] at fits
        rw [List.cons_append, dropBytes_cons positive, dropBytes_cons positive, ih (by omega)]
        split <;> rfl

theorem takeBytes_append {count : Nat} {chars : List Char} (fits : count ≤ String.utf8Len chars)
    (behind : List Char) : takeBytes count (chars ++ behind) = takeBytes count chars := by
  induction chars generalizing count with
  | nil =>
      obtain rfl : count = 0 := by simpa using fits
      simp [takeBytes]
  | cons c rest ih =>
      rcases Nat.eq_zero_or_pos count with rfl | positive
      · simp [takeBytes]
      · rw [String.utf8Len_cons] at fits
        rw [List.cons_append, takeBytes_cons positive, takeBytes_cons positive, ih (by omega)]

theorem dropBytes_utf8Len {count : Nat} {chars rest : List Char}
    (dropped : dropBytes count chars = some rest) :
    count + String.utf8Len rest = String.utf8Len chars := by
  induction chars generalizing count with
  | nil =>
      cases count with
      | zero => simp_all [dropBytes]
      | succ count => simp [dropBytes] at dropped
  | cons c tail ih =>
      rcases Nat.eq_zero_or_pos count with rfl | positive
      · simp_all [dropBytes]
      · rw [dropBytes_cons positive] at dropped
        split at dropped
        next fits =>
          have shorter := ih dropped
          rw [String.utf8Len_cons]
          omega
        next => simp at dropped

theorem takeBytes_utf8Len (chars behind : List Char) :
    takeBytes (String.utf8Len chars) (chars ++ behind) = some chars := by
  rw [takeBytes_append (Nat.le_refl _)]
  induction chars with
  | nil => rfl
  | cons c rest ih =>
      have size := c.utf8Size_pos
      rw [String.utf8Len_cons, takeBytes_cons (by omega), if_pos (Nat.le_add_left _ _),
        Nat.add_sub_cancel, ih]
      rfl

theorem Span.slice?_between (before inside behind : List Char) :
    (⟨String.utf8Len before, String.utf8Len (before ++ inside)⟩ : Span).slice?
      (before ++ inside ++ behind) = some inside := by
  have length : (⟨String.utf8Len before, String.utf8Len (before ++ inside)⟩ : Span).length? =
      some (String.utf8Len inside) := by
    rw [length?, String.utf8Len_append, if_pos (Nat.le_add_right _ _), Nat.add_sub_cancel_left]
  have dropped := dropBytes_past before (inside ++ behind) 0
  rw [Nat.add_zero, dropBytes] at dropped
  rw [slice?, length, List.append_assoc]
  simp only [Option.bind_eq_bind, Option.bind_some, dropped]
  exact takeBytes_utf8Len inside behind

theorem Span.text_shift (before inside behind : List Char) (span : Span)
    (fits : span.stop ≤ String.utf8Len inside) :
    (span.shift (String.utf8Len before)).text (before ++ inside ++ behind) = span.text inside := by
  have same_length : (span.shift (String.utf8Len before)).length? = span.length? := by
    simp only [length?, shift, Nat.add_le_add_iff_left, Nat.add_sub_add_left]
  have same_slice :
      (span.shift (String.utf8Len before)).slice? (before ++ inside ++ behind) =
        span.slice? inside := by
    rw [slice?, slice?, same_length]
    by_cases order : span.start ≤ span.stop
    · have length : span.length? = some (span.stop - span.start) := if_pos order
      rw [length]
      simp only [Option.bind_eq_bind, Option.bind_some, shift]
      rw [List.append_assoc, dropBytes_past, dropBytes_append (Nat.le_trans order fits)]
      cases dropped : dropBytes span.start inside with
      | none => rfl
      | some rest =>
          have size := dropBytes_utf8Len dropped
          exact takeBytes_append (by omega) behind
    · have length : span.length? = none := if_neg order
      rw [length]
      rfl
  rw [text, text, same_slice]

end SchemaDrift
