import SchemaDrift.Proofs.Independence
import SchemaDrift.Proofs.Seam
import SchemaDrift.Proofs.Spacing

/-!
Reformatting a text. A run of blanks between tokens may be written otherwise: the scan comes to it
as before, finds the same tokens behind it in other places, and what is captured across it has the
same normal form. So the table that is read is the same, and so is what an error says but for its
place.
-/

namespace SchemaDrift

open Text

/-- Two texts that part in the same way, apart from a run of blanks in the middle. -/
structure Respacing (first second before old new behind : List Char) : Prop where
  first_parts : first = before ++ (old ++ behind)
  second_parts : second = before ++ (new ++ behind)
  old_nonempty : old ≠ []
  old_blank : ∀ c ∈ old, isBlank c = true
  new_nonempty : new ≠ []
  new_blank : ∀ c ∈ new, isBlank c = true

def Uncommented (chars : List Char) : Prop :=
  ∀ c rest, Reaches chars (c :: rest) →
    ¬OpensComment c rest ∧ (Piece.front c rest).kind ≠ some .directive

theorem Uncommented.further {chars behind : List Char} (uncommented : Uncommented chars)
    (reached : Reaches chars behind) : Uncommented behind :=
  fun c rest later => uncommented c rest (reached.trans later)

theorem uncommented_of_notMem {chars : List Char} (no_hash : '#' ∉ chars) (no_dash : '-' ∉ chars)
    (no_slash : '/' ∉ chars) : Uncommented chars := by
  intro c rest reached
  have present : c ∈ chars := reached.suffix.subset List.mem_cons_self
  have not_hash : c ≠ '#' := ne_of_mem_of_not_mem present no_hash
  have not_dash : c ≠ '-' := ne_of_mem_of_not_mem present no_dash
  have not_slash : c ≠ '/' := ne_of_mem_of_not_mem present no_slash
  refine ⟨by simp [OpensComment, not_hash, not_dash, not_slash], fun directive => ?_⟩
  have lawful := Piece.front_lawful c rest
  rw [Piece.Lawful, directive] at lawful
  obtain ⟨closing, written, -, -⟩ := lawful.directive_parts rfl
  have whole := Piece.front_append c rest
  rw [written] at whole
  exact not_slash (List.cons.inj whole).1.symm

theorem utf8Len_pos_of_ne_nil {chars : List Char} (nonempty : chars ≠ []) :
    0 < String.utf8Len chars := by
  obtain ⟨c, rest, rfl⟩ := List.exists_cons_of_ne_nil nonempty
  have positive := c.utf8Size_pos
  rw [String.utf8Len_cons]
  omega

theorem prefix_of_utf8Len_le {first others second more : List Char}
    (same : first ++ others = second ++ more)
    (shorter : String.utf8Len first ≤ String.utf8Len second) :
    ∃ between, second = first ++ between ∧ others = between ++ more := by
  rcases List.append_eq_append_iff.mp same with ⟨between, longer, rest⟩ | ⟨between, longer, rest⟩
  · exact ⟨between, longer, rest⟩
  · have size := congrArg String.utf8Len longer
    rw [String.utf8Len_append] at size
    cases between with
    | nil => exact ⟨[], by simpa using longer.symm, by simpa using rest.symm⟩
    | cons c between =>
        have positive := c.utf8Size_pos
        rw [String.utf8Len_cons] at size
        omega

theorem Reaches.of_clear {position : Position} {chars inside behind : List Char}
    (parts : chars = inside ++ behind) (uncommented : Uncommented chars)
    (clear : ∀ token ∈ Token.scan position chars,
      token.span.stop ≤ position.offset + String.utf8Len inside ∨
        position.offset + String.utf8Len inside ≤ token.span.start) : Reaches chars behind := by
  induction chars using Piece.front_induction generalizing position inside with
  | nil =>
      obtain ⟨-, rfl⟩ := List.append_eq_nil_iff.mp parts.symm
      exact .here []
  | cons c rest ih =>
      rcases inside with _ | ⟨d, inside⟩
      · rw [parts]
        exact .here behind
      obtain ⟨rfl, text⟩ := List.cons.inj parts
      rw [Token.scan_cons] at clear
      -- the piece ends where `inside` does, or before
      have short : String.utf8Len (Piece.front c rest).written ≤ String.utf8Len (c :: inside) := by
        rcases Piece.front_cases c rest with ⟨kind, found, _⟩ | comment | ⟨alone, _⟩
        · have token := clear _ (List.mem_append_left _ (by
            rw [Token.ofPiece, found]
            exact List.mem_singleton_self _))
          have positive := c.utf8Size_pos
          simp only [Position.advance_offset, String.utf8Len_cons] at token ⊢
          omega
        · exact absurd comment (uncommented c rest (.here _)).1
        · rw [alone, Piece.gap, String.utf8Len_cons, String.utf8Len_cons]
          simp
      obtain ⟨between, longer, left⟩ :=
        prefix_of_utf8Len_le ((Piece.front_append c rest).trans parts) short
      have later : ∀ token ∈ Token.scan (position.advance (Piece.front c rest).written)
          (Piece.front c rest).rest,
          token.span.stop ≤ (position.advance (Piece.front c rest).written).offset +
              String.utf8Len between ∨
            (position.advance (Piece.front c rest).written).offset + String.utf8Len between ≤
              token.span.start := by
        intro token member
        have whole := clear token (List.mem_append_right _ member)
        rw [longer, String.utf8Len_append] at whole
        rw [Position.advance_offset]
        omega
      exact .past (ih left (uncommented.further (.past (.here _))) later)

theorem Indistinct.append {first second : List Char} (severs : ∀ c ∈ second.head?, Severs c)
    (between : List Char) : Indistinct (between ++ first) (between ++ second) := by
  rcases between with _ | ⟨c, _ | ⟨d, between⟩⟩
  · exact .of_severs severs
  · refine ⟨by simp, fun fraction => ?_⟩
    obtain ⟨d, next, digit⟩ : ∃ d ∈ second.head?, d.isDigit = true := by
      have digit : second.head?.any Char.isDigit = true := fraction.2
      cases next : second.head? with
      | none => simp [next] at digit
      | some d => exact ⟨d, rfl, by simpa [next] using digit⟩
    rw [(severs d next).outside.2.1] at digit
    contradiction
  · exact ⟨by simp, id⟩

namespace Respacing

variable {first second before old new behind : List Char}
  (respacing : Respacing first second before old new behind)
include respacing

theorem new_severs : ∀ c ∈ (new ++ behind).head?, Severs c := by
  obtain ⟨d, new, rfl⟩ := List.exists_cons_of_ne_nil respacing.new_nonempty
  simpa [Severs] using .inl (respacing.new_blank d List.mem_cons_self)

theorem old_ne_nil : old ++ behind ≠ [] :=
  List.append_ne_nil_of_left_ne_nil respacing.old_nonempty behind

theorem reaches_new {inside : List Char}
    (reached : Reaches (inside ++ (old ++ behind)) (old ++ behind))
    (uncommented : Uncommented (inside ++ (old ++ behind))) :
    Reaches (inside ++ (new ++ behind)) (new ++ behind) := by
  induction inside using Piece.front_induction with
  | nil => exact .here _
  | cons c rest ih =>
      rw [List.cons_append] at uncommented
      have later := reached.of_cons_append
      have same := Piece.front_local c rest (old ++ behind) later.length_le
      have no_comment := (uncommented c (rest ++ (old ++ behind)) (.here _)).1
      have transfer := @Piece.front_transfer c (rest ++ (old ++ behind))
        ((Piece.front c rest).rest ++ (new ++ behind)) no_comment
      have further := uncommented.further (.past (.here _))
      rw [same] at later transfer further
      obtain ⟨others, written, again⟩ := transfer
        (List.append_ne_nil_of_right_ne_nil _ respacing.old_ne_nil)
        (.append respacing.new_severs _)
      have whole := Piece.front_append c rest
      rw [← whole, show (Piece.front c rest).written = c :: others from written, List.append_assoc,
        List.cons_append]
      refine .past ?_
      rw [again]
      exact ih later further

theorem head_same (inside more : List Char) :
    (inside ++ (old ++ more)).head?.any isBlank = (inside ++ (new ++ more)).head?.any isBlank := by
  cases inside with
  | nil =>
      exact (head_blank respacing.old_nonempty respacing.old_blank more).trans
        (head_blank respacing.new_nonempty respacing.new_blank more).symm
  | cons c inside => rfl

theorem squeeze_same {inside : List Char}
    (reached : Reaches (inside ++ (old ++ behind)) (old ++ behind))
    (uncommented : Uncommented (inside ++ (old ++ behind))) (more : List Char) :
    squeeze .free (inside ++ (old ++ more)) = squeeze .free (inside ++ (new ++ more)) := by
  induction inside using Piece.front_induction with
  | nil =>
      rw [List.nil_append, List.nil_append,
        squeeze_blanks respacing.old_nonempty respacing.old_blank,
        squeeze_blanks respacing.new_nonempty respacing.new_blank]
  | cons c rest ih =>
      rw [List.cons_append] at uncommented
      have later := reached.of_cons_append
      have same := Piece.front_local c rest (old ++ behind) later.length_le
      obtain ⟨no_comment, no_directive⟩ := uncommented c (rest ++ (old ++ behind)) (.here _)
      have further := uncommented.further (.past (.here _))
      have cases := Piece.front_cases c (rest ++ (old ++ behind))
      rw [same] at later no_directive further cases
      have behind_piece := ih later further
      have whole := Piece.front_append c rest
      rw [← whole, List.append_assoc, List.append_assoc]
      rcases cases with ⟨kind, found, lexeme⟩ | comment | ⟨alone, skipped⟩
      · have seen : kind ≠ .directive := by
          rintro rfl
          exact no_directive found
        have kept := lexeme.squeeze (List.append_ne_nil_of_right_ne_nil _ respacing.old_ne_nil) seen
        rw [Piece.followedBy_written] at kept
        rw [kept, kept, behind_piece]
      · exact absurd comment no_comment
      · have written : (Piece.front c rest).written = [c] := congrArg Piece.written alone
        rw [written, List.singleton_append, List.singleton_append]
        by_cases blank : isBlank c = true
        · rw [squeeze_blank blank, squeeze_blank blank, respacing.head_same, behind_piece]
        · obtain ⟨_, no_token⟩ := skipped.resolve_left blank
          have kept := squeeze_stray (Bool.eq_false_of_not_eq_true blank) no_token
          rw [kept, kept, behind_piece]

theorem normalizeSpacing_same {inside : List Char}
    (reached : Reaches (inside ++ (old ++ behind)) (old ++ behind))
    (uncommented : Uncommented (inside ++ (old ++ behind))) (more : List Char) :
    normalizeSpacing (.ofList (inside ++ (old ++ more))) =
      normalizeSpacing (.ofList (inside ++ (new ++ more))) := by
  rw [normalizeSpacing, normalizeSpacing, String.toList_ofList, String.toList_ofList, squeeze_trim,
    squeeze_trim, respacing.squeeze_same reached uncommented]

end Respacing

namespace Token

theorem scan_blanks {blanks : List Char} (blank : ∀ c ∈ blanks, isBlank c = true)
    (position : Position) (behind : List Char) :
    scan position (blanks ++ behind) = scan (position.advance blanks) behind := by
  induction blanks generalizing position with
  | nil => rfl
  | cons c blanks ih =>
      have alone := Piece.front_blank (blank c List.mem_cons_self) (blanks ++ behind)
      rw [List.cons_append, scan_cons, alone]
      exact ih (fun d member => blank d (List.mem_cons_of_mem _ member)) _

theorem visible_around {blanks : List Char} (blank : ∀ c ∈ blanks, isBlank c = true)
    {before behind : List Char}
    (reached : Reaches (before ++ (blanks ++ behind)) (blanks ++ behind)) :
    visible .start (before ++ (blanks ++ behind)) =
      visible .start before ++
        (visible .start behind).map (relocate (Position.ofPrefix (before ++ blanks))) := by
  have moved :=
    visible_relocate (Position.ofPrefix (before ++ blanks)) Position.start_counted behind
  rw [Position.relocate_start] at moved
  rw [visible_append _ _ _ reached, ← moved, visible, visible, visible, scan_blanks blank,
    ← Position.advance_append, Position.start_advance]

end Token

namespace Twins

def respaced (before old new behind : List Char) : Twins where
  source := (before ++ (old ++ behind), before ++ (new ++ behind))
  ahead :=
    (Token.visible .start before).map (fun token => (token, token)) ++
      (Token.visible .start behind).map fun token =>
        (token.relocate (Position.ofPrefix (before ++ old)),
          token.relocate (Position.ofPrefix (before ++ new)))
  close :=
    (Token.endOf (.ofList (before ++ (old ++ behind))),
      Token.endOf (.ofList (before ++ (new ++ behind))))

end Twins

section Slices

theorem slice_before (before more others : List Char) {start stop : Nat}
    (inner : stop ≤ String.utf8Len before) :
    Span.text ⟨start, stop⟩ (before ++ more) = Span.text ⟨start, stop⟩ (before ++ others) := by
  have alone (behind : List Char) :
      Span.text ⟨start, stop⟩ (before ++ behind) = Span.text ⟨start, stop⟩ before := by
    have shifted := Span.text_shift [] before behind ⟨start, stop⟩ inner
    simpa [Span.shift] using shifted
  rw [alone, alone]

theorem slice_behind (before run behind : List Char) {start stop : Nat}
    (inner : stop ≤ String.utf8Len behind) :
    Span.text ⟨String.utf8Len (before ++ run) + start, String.utf8Len (before ++ run) + stop⟩
      (before ++ (run ++ behind)) = Span.text ⟨start, stop⟩ behind := by
  have shifted := Span.text_shift (before ++ run) behind [] ⟨start, stop⟩ inner
  rwa [List.append_nil, List.append_assoc] at shifted

theorem slice_across (left inside run right behind : List Char) :
    Span.text ⟨String.utf8Len left, String.utf8Len (left ++ inside ++ run) + String.utf8Len right⟩
      (left ++ inside ++ (run ++ (right ++ behind))) = .ofList (inside ++ (run ++ right)) := by
  have between := Span.slice?_between left (inside ++ (run ++ right)) behind
  simp only [List.append_assoc, String.utf8Len_append, Nat.add_assoc] at between ⊢
  rw [Span.text, between, Option.getD_some]

end Slices

namespace Twins

variable {before old new behind : List Char} {pair other : Token × Token}

def FrontPair (before : List Char) (pair : Token × Token) : Prop :=
  ∃ token ∈ Token.visible .start before, pair = (token, token)

def BackPair (before old new behind : List Char) (pair : Token × Token) : Prop :=
  ∃ token ∈ Token.visible .start behind,
    pair = (token.relocate (Position.ofPrefix (before ++ old)),
      token.relocate (Position.ofPrefix (before ++ new)))

theorem frontPair_of_mem
    (member : pair ∈ (Token.visible .start before).map fun token => (token, token)) :
    FrontPair before pair := by
  obtain ⟨token, present, rfl⟩ := List.mem_map.mp member
  exact ⟨token, present, rfl⟩

theorem backPair_of_mem
    (member : pair ∈ (Token.visible .start behind).map fun token =>
      (token.relocate (Position.ofPrefix (before ++ old)),
        token.relocate (Position.ofPrefix (before ++ new)))) :
    BackPair before old new behind pair := by
  obtain ⟨token, present, rfl⟩ := List.mem_map.mp member
  exact ⟨token, present, rfl⟩

theorem FrontPair.stop_le (front : FrontPair before pair) :
    pair.1.span.stop ≤ String.utf8Len before ∧ pair.2.span.stop ≤ String.utf8Len before := by
  obtain ⟨token, present, rfl⟩ := front
  exact ⟨(Token.visible_span_le present).2, (Token.visible_span_le present).2⟩

theorem BackPair.start_le (back : BackPair before old new behind pair) :
    String.utf8Len (before ++ old) ≤ pair.1.span.start ∧
      String.utf8Len (before ++ new) ≤ pair.2.span.start := by
  obtain ⟨token, _, rfl⟩ := back
  exact ⟨Nat.le_add_right _ _, Nat.le_add_right _ _⟩

theorem front_slice {start stop : Nat} (inner : stop ≤ String.utf8Len before) :
    (respaced before old new behind).left.slice start stop =
      (respaced before old new behind).right.slice start stop :=
  slice_before before _ _ inner

theorem back_slice {start stop : Nat} (inner : stop ≤ String.utf8Len behind) :
    (respaced before old new behind).left.slice (String.utf8Len (before ++ old) + start)
        (String.utf8Len (before ++ old) + stop) =
      (respaced before old new behind).right.slice (String.utf8Len (before ++ new) + start)
        (String.utf8Len (before ++ new) + stop) :=
  (slice_behind before old behind inner).trans (slice_behind before new behind inner).symm

theorem slice_same (together : FrontPair before pair ∧ FrontPair before other ∨
      BackPair before old new behind pair ∧ BackPair before old new behind other) :
    (respaced before old new behind).left.slice pair.1.span.stop other.1.span.start =
        (respaced before old new behind).right.slice pair.2.span.stop other.2.span.start ∧
      (respaced before old new behind).left.slice pair.1.span.start other.1.span.stop =
        (respaced before old new behind).right.slice pair.2.span.start other.2.span.stop := by
  rcases together with
    ⟨⟨first, _, rfl⟩, second, present, rfl⟩ | ⟨⟨first, _, rfl⟩, second, present, rfl⟩
  · obtain ⟨forward, inner⟩ := Token.visible_span_le present
    exact ⟨front_slice (Nat.le_trans forward inner), front_slice inner⟩
  · obtain ⟨forward, inner⟩ := Token.visible_span_le present
    exact ⟨back_slice (Nat.le_trans forward inner), back_slice inner⟩

theorem pairwise_around {R : Token × Token → Token × Token → Prop}
    (front : ∀ first second, FrontPair before first → FrontPair before second → R first second)
    (back : ∀ first second, BackPair before old new behind first →
      BackPair before old new behind second → R first second)
    (across : ∀ first second, FrontPair before first → BackPair before old new behind second →
      R first second) :
    (respaced before old new behind).ahead.Pairwise R := by
  refine List.pairwise_append.mpr ⟨?_, ?_, fun first member second also => ?_⟩
  · exact List.pairwise_of_forall_mem_list fun first member second also =>
      front first second (frontPair_of_mem member) (frontPair_of_mem also)
  · exact List.pairwise_of_forall_mem_list fun first member second also =>
      back first second (backPair_of_mem member) (backPair_of_mem also)
  · exact across first second (frontPair_of_mem member) (backPair_of_mem also)

end Twins

namespace Respacing

open Twins

variable {first second before old new behind : List Char} {pair other : Token × Token}
  (respacing : Respacing first second before old new behind)
include respacing

theorem spaced_across (reached : Reaches (before ++ (old ++ behind)) (old ++ behind))
    (uncommented : Uncommented (before ++ (old ++ behind))) (front : FrontPair before pair)
    (back : BackPair before old new behind other) :
    normalizeSpacing ((respaced before old new behind).left.slice pair.1.span.stop
        other.1.span.start) =
      normalizeSpacing ((respaced before old new behind).right.slice pair.2.span.stop
        other.2.span.start) := by
  obtain ⟨token, present, rfl⟩ := front
  obtain ⟨next, present_too, rfl⟩ := back
  obtain ⟨left, c, rest, stands⟩ := Token.scan_mem_stands (List.mem_of_mem_filter present)
  obtain ⟨right, d, more, stands_too⟩ := Token.scan_mem_stands (List.mem_of_mem_filter present_too)
  have stop : token.span.stop = String.utf8Len (left ++ (Piece.front c rest).written) := by
    rw [stands.span]
  have start : next.span.start = String.utf8Len right := by rw [stands_too.span]
  have parts : left ++ (Piece.front c rest).written ++ (Piece.front c rest).rest = before := by
    rw [List.append_assoc, Piece.front_append, stands.text]
  have across (run : List Char) :
      Span.text ⟨token.span.stop, (next.relocate (Position.ofPrefix (before ++ run))).span.start⟩
        (before ++ (run ++ behind)) = .ofList ((Piece.front c rest).rest ++ (run ++ right)) := by
    have between := slice_across (left ++ (Piece.front c rest).written) (Piece.front c rest).rest
      run right (d :: more)
    rw [parts, ← stands_too.text, ← stop, ← start] at between
    exact between
  obtain ⟨passed, left_over⟩ := (stands.reached.trans (.past (.here _))).within reached
  have same := respacing.normalizeSpacing_same left_over (uncommented.further passed) right
  exact (congrArg normalizeSpacing (across old)).trans
    (same.trans (congrArg normalizeSpacing (across new)).symm)

theorem apart (front : FrontPair before pair) (back : BackPair before old new behind other) :
    other.1.span.start ≠ pair.1.span.stop ∧ other.2.span.start ≠ pair.2.span.stop := by
  have stops := front.stop_le
  have starts := back.start_le
  have old_positive := utf8Len_pos_of_ne_nil respacing.old_nonempty
  have new_positive := utf8Len_pos_of_ne_nil respacing.new_nonempty
  simp only [String.utf8Len_append] at starts
  omega

theorem one_side {run : List (Token × Token)}
    (inner : run <:+: (respaced before old new behind).ahead)
    (touching : run.IsChain Touching) :
    (∀ pair ∈ run, FrontPair before pair) ∨ ∀ pair ∈ run, BackPair before old new behind pair := by
  rcases List.infix_append_iff.mp inner with front | back | ⟨left, right, rfl, ends, starts⟩
  · exact .inl fun pair member => frontPair_of_mem (front.subset member)
  · exact .inr fun pair member => backPair_of_mem (back.subset member)
  · have fronts (pair) (member : pair ∈ left) : FrontPair before pair :=
      frontPair_of_mem (ends.subset member)
    have backs (pair) (member : pair ∈ right) : BackPair before old new behind pair :=
      backPair_of_mem (starts.subset member)
    rcases left.eq_nil_or_concat with rfl | ⟨left, last, rfl⟩
    · exact .inr backs
    rcases right with _ | ⟨next, right⟩
    · exact .inl fun pair member => fronts pair (by simpa using member)
    have touches : Touching last next :=
      (List.isChain_append.mp touching).2.2 last (by simp) next (by simp)
    exact absurd touches
      (respacing.apart (fronts last (by simp)) (backs next (by simp))).1

theorem not_introduced (reached : Reaches (before ++ (old ++ behind)) (old ++ behind))
    (unintroduced : (Token.visible .start (before ++ (old ++ behind))).IsChain
      fun introducer string => introducer.isIntroducer = true → string.isString = true →
        ¬(introducer.span.stop ≤ String.utf8Len before ∧
          String.utf8Len (before ++ old) ≤ string.span.start))
    (last : pair ∈ ((Token.visible .start before).map fun token => (token, token)).getLast?)
    (next : other ∈ ((Token.visible .start behind).map fun token =>
      (token.relocate (Position.ofPrefix (before ++ old)),
        token.relocate (Position.ofPrefix (before ++ new)))).head?)
    (introducer : pair.1.isIntroducer = true) : other.1.isString ≠ true := by
  have front := frontPair_of_mem (List.mem_of_getLast? last)
  have back := backPair_of_mem (List.mem_of_head? next)
  rw [Token.visible_around respacing.old_blank reached] at unintroduced
  have ends : pair.1 ∈ (Token.visible .start before).getLast? := by
    rw [List.getLast?_map] at last
    obtain ⟨token, found, rfl⟩ := Option.map_eq_some_iff.mp last
    exact found
  have starts : other.1 ∈ ((Token.visible .start behind).map
      (Token.relocate (Position.ofPrefix (before ++ old)))).head? := by
    rw [List.head?_map] at next ⊢
    obtain ⟨token, found, rfl⟩ := Option.map_eq_some_iff.mp next
    exact Option.map_eq_some_iff.mpr ⟨token, found, rfl⟩
  have boundary := (List.isChain_append.mp unintroduced).2.2 pair.1 ends other.1 starts
  exact fun string => boundary introducer string ⟨front.stop_le.1, back.start_le.1⟩

theorem respaced_alike (reached : Reaches (before ++ (old ++ behind)) (old ++ behind))
    (uncommented : Uncommented (before ++ (old ++ behind)))
    (unintroduced : (Token.visible .start (before ++ (old ++ behind))).IsChain
      fun introducer string => introducer.isIntroducer = true → string.isString = true →
        ¬(introducer.span.stop ≤ String.utf8Len before ∧
          String.utf8Len (before ++ old) ≤ string.span.start)) :
    (respaced before old new behind).Alike fun _ _ => True where
  like pair member := by
    rcases List.mem_cons.mp member with rfl | later
    · exact ⟨rfl, rfl, trivial⟩
    · rcases List.mem_append.mp later with front | back
      · obtain ⟨token, _, rfl⟩ := frontPair_of_mem front
        exact ⟨rfl, rfl, trivial⟩
      · obtain ⟨token, _, rfl⟩ := backPair_of_mem back
        exact ⟨rfl, rfl, trivial⟩
  ended := rfl
  spaced := by
    refine pairwise_around (fun first second front also => ?_) (fun first second back also => ?_)
      fun first second front back => ?_
    · exact congrArg normalizeSpacing (slice_same (.inl ⟨front, also⟩)).1
    · exact congrArg normalizeSpacing (slice_same (.inr ⟨back, also⟩)).1
    · exact respacing.spaced_across reached uncommented front back
  touching := by
    refine (pairwise_around ?_ ?_ fun first second front back => ?_).isChain
    · rintro _ _ ⟨token, _, rfl⟩ ⟨next, _, rfl⟩
      rfl
    · rintro _ _ ⟨token, _, rfl⟩ ⟨next, _, rfl⟩
      exact Nat.add_right_inj.trans Nat.add_right_inj.symm
    · -- the run itself keeps its two sides apart
      obtain ⟨left, right⟩ := respacing.apart front back
      exact iff_of_false left right
  joined first rest inner chain := by
    have last : rest.getLastD first ∈ first :: rest := List.getLastD_mem_cons
    refine (slice_same ?_).2
    exact (respacing.one_side inner chain).imp
      (fun side => ⟨side _ List.mem_cons_self, side _ last⟩)
      fun side => ⟨side _ List.mem_cons_self, side _ last⟩
  introduced := by
    refine List.isChain_append.mpr ⟨?_, ?_, ?_⟩
    · refine (List.pairwise_of_forall_mem_list fun first member second also _ _ => ?_).isChain
      exact (slice_same (.inl ⟨frontPair_of_mem member, frontPair_of_mem also⟩)).2
    · refine (List.pairwise_of_forall_mem_list fun first member second also _ _ => ?_).isChain
      exact (slice_same (.inr ⟨backPair_of_mem member, backPair_of_mem also⟩)).2
    · -- across the run no string has its introducer, by assumption
      intro pair last other first introducer string
      exact absurd string (respacing.not_introduced reached unintroduced last first introducer)

end Respacing

/-- The second text is the first with one run of blanks written otherwise, where the run lies
outside all tokens and not between an introducer and the string that it introduces. -/
structure Reformatted (first second : String) (before old new behind : List Char) : Prop
    extends Respacing first.toList second.toList before old new behind where
  uncommented : Uncommented first.toList
  outside : ∀ token ∈ Token.scanText first,
    token.span.stop ≤ String.utf8Len before ∨ String.utf8Len (before ++ old) ≤ token.span.start
  unintroduced : (Token.scanText first).IsChain fun introducer string =>
    introducer.isIntroducer = true → string.isString = true →
      ¬(introducer.span.stop ≤ String.utf8Len before ∧
        String.utf8Len (before ++ old) ≤ string.span.start)

namespace Reformatted

variable {first second : String} {before old new behind : List Char}
  (reformatted : Reformatted first second before old new behind)
include reformatted

theorem reached : Reaches (before ++ (old ++ behind)) (old ++ behind) := by
  have text := reformatted.first_parts
  have clear : ∀ token ∈ Token.scan .start first.toList,
      token.span.stop ≤ Position.start.offset + String.utf8Len before ∨
        Position.start.offset + String.utf8Len before ≤ token.span.start := by
    intro token member
    have outside := reformatted.outside token member
    rw [String.utf8Len_append] at outside
    have origin : Position.start.offset = 0 := rfl
    omega
  exact text ▸ Reaches.of_clear text reformatted.uncommented clear

theorem left : (Twins.respaced before old new behind).left = .ofText first := by
  have seen := Token.visible_around reformatted.old_blank reformatted.reached
  rw [← reformatted.first_parts] at seen
  have ahead : (Token.scanText first).filter (!·.isDirective) = _ := seen
  simp [Twins.left, Twins.respaced, Cursor.ofText, ahead, ← reformatted.first_parts,
    Function.comp_def]

theorem right : (Twins.respaced before old new behind).right = .ofText second := by
  have reached := reformatted.toRespacing.reaches_new reformatted.reached
    (reformatted.first_parts ▸ reformatted.uncommented)
  have seen := Token.visible_around reformatted.new_blank reached
  rw [← reformatted.second_parts] at seen
  have ahead : (Token.scanText second).filter (!·.isDirective) = _ := seen
  simp [Twins.right, Twins.respaced, Cursor.ofText, ahead, ← reformatted.second_parts,
    Function.comp_def]

theorem visible_eq : Token.visible .start first.toList = Token.scanText first := by
  refine List.filter_eq_self.mpr fun token member => ?_
  obtain ⟨before, c, rest, stands⟩ := Token.scan_mem_stands member
  have no_directive := (reformatted.uncommented c rest stands.reached).2
  rw [(Token.ofPiece_eq_some stands.piece).1] at no_directive
  simpa [Token.isDirective] using no_directive

theorem alike : (Twins.respaced before old new behind).Alike fun _ _ => True := by
  have text := reformatted.first_parts
  refine reformatted.toRespacing.respaced_alike reformatted.reached
    (text ▸ reformatted.uncommented) ?_
  rw [← text, reformatted.visible_eq]
  exact reformatted.unintroduced

end Reformatted

/-- Reformatting does not change what is read: the table is the same, or the error but for its
place. -/
theorem Table.parse_reformatted {first second : String} {before old new behind : List Char}
    (reformatted : Reformatted first second before old new behind) :
    (∃ table, Table.parse first = .ok table ∧ Table.parse second = .ok table) ∨
      ∃ error other, Table.parse first = .error error ∧ Table.parse second = .error other ∧
        error.expected = other.expected ∧ error.found.kind = other.found.kind ∧
        error.found.text = other.found.text := by
  have results := Table.read_uniform _ _ reformatted.alike
  rw [reformatted.left, reformatted.right] at results
  simp only [Table.parse, Reading.result, Reading.outcome]
  generalize Table.read (.ofText first) = left at results ⊢
  generalize Table.read (.ofText second) = right at results ⊢
  cases results with
  | ok count values => exact .inl ⟨_, rfl, congrArg Except.ok values.symm⟩
  | error count expected like => exact .inr ⟨_, _, rfl, rfl, rfl, like.kind, like.text⟩

theorem Table.parse_reformatted_default :
    Reformatted "CREATE TABLE t (a INT DEFAULT (1 +\n\t2))" "CREATE TABLE t (a INT DEFAULT (1 + 2))"
        "CREATE TABLE t (a INT DEFAULT (1 +".toList "\n\t".toList " ".toList "2))".toList ∧
      ∃ table, Table.parse "CREATE TABLE t (a INT DEFAULT (1 +\n\t2))" = .ok table ∧
        Table.parse "CREATE TABLE t (a INT DEFAULT (1 + 2))" = .ok table := by
  have reformatted : Reformatted "CREATE TABLE t (a INT DEFAULT (1 +\n\t2))"
      "CREATE TABLE t (a INT DEFAULT (1 + 2))" "CREATE TABLE t (a INT DEFAULT (1 +".toList
      "\n\t".toList " ".toList "2))".toList :=
    { first_parts := by decide
      second_parts := by decide
      old_nonempty := by decide
      old_blank := List.all_eq_true.mp (by decide)
      new_nonempty := by decide
      new_blank := List.all_eq_true.mp (by decide)
      uncommented := uncommented_of_notMem (by decide) (by decide) (by decide)
      outside := by decide +kernel
      unintroduced := by decide +kernel }
  refine ⟨reformatted, (Table.parse_reformatted reformatted).resolve_right ?_⟩
  rintro ⟨error, _, failed, _⟩
  have accepted : (Table.parse "CREATE TABLE t (a INT DEFAULT (1 +\n\t2))").toBool = true := by
    decide +kernel
  rw [failed] at accepted
  contradiction

end SchemaDrift
