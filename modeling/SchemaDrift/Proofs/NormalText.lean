import SchemaDrift.Proofs.InPlace

/-!
Text in normal spacing, scanned again. Where a text without comments stands in front of the parenthesis
that closes it, its normal form has the same tokens wherever it is written, and what stands behind it is
scanned from there.
-/

namespace SchemaDrift

open Text

theorem Indistinct.trans {first second third : List Char} (front : Indistinct first second)
    (back : Indistinct second third) : Indistinct first third where
  head c next := (back.head c next).elim .inl (front.head c)
  fraction fraction := front.fraction (back.fraction fraction)

theorem Reaches.of_lexeme {kind : TokenKind} {written text behind : List Char}
    (lexeme : Lexeme kind written text behind) : Reaches (written ++ behind) behind := by
  obtain ⟨c, others, rfl, piece⟩ := Piece.front_of_lexeme lexeme
  refine .past ?_
  rw [List.append_eq, piece]
  exact .here behind

namespace Uncommented

variable {chars behind : List Char}

theorem tidy (uncommented : Uncommented chars) : Tidy chars := by
  intro c rest reached
  obtain ⟨no_comment, no_directive⟩ := uncommented c rest reached
  refine ⟨fun line => no_comment (line.imp_right .inl), ?_⟩
  rintro ⟨rfl, star⟩
  by_cases bang : (rest.drop 1).head? = some '!'
  · obtain ⟨others, rfl⟩ := List.head?_eq_some_iff.mp star
    obtain ⟨others, rfl⟩ := List.head?_eq_some_iff.mp bang
    exact absurd rfl no_directive
  · exact absurd (.inr (.inr ⟨rfl, star, bang⟩)) no_comment

theorem inside (uncommented : Uncommented (chars ++ behind))
    (reached : Reaches (chars ++ behind) behind) (closes : behind.head? = some ')') :
    Uncommented chars := by
  intro c rest inner
  obtain ⟨passed, left⟩ := inner.within reached
  obtain ⟨no_comment, no_directive⟩ := uncommented c (rest ++ behind) passed
  rw [Piece.front_local c rest behind left.of_cons_append.length_le] at no_directive
  refine ⟨fun opens => no_comment ?_, no_directive⟩
  rcases opens with hash | ⟨dash, next⟩ | ⟨slash, star, no_bang⟩
  · exact .inl hash
  · exact .inr (.inl ⟨dash, by simp [next]⟩)
  · obtain ⟨others, rfl⟩ := List.head?_eq_some_iff.mp star
    refine .inr (.inr ⟨slash, rfl, ?_⟩)
    cases others with
    | nil => simp [closes]
    | cons d others => exact no_bang

end Uncommented

theorem Reaches.of_even {chars behind more : List Char} (closes : behind.head? = some ')')
    (reached : Reaches (chars ++ behind) behind) (uncommented : Uncommented (chars ++ behind))
    (severs : ∀ c ∈ more.head?, Severs c) : Reaches (even chars ++ more) more := by
  induction chars using Piece.front_induction with
  | nil => exact .here more
  | cons c rest ih =>
      have closed : (Piece.front c rest).rest ++ behind ≠ [] :=
        List.append_ne_nil_of_right_ne_nil _ fun nothing => by simp [nothing] at closes
      have later := reached.of_cons_append
      have same := Piece.front_local c rest behind later.length_le
      have cases := Piece.front_cases c (rest ++ behind)
      have whole := Piece.front_append c rest
      rw [same] at later cases
      obtain ⟨no_comment, no_directive⟩ := uncommented c (rest ++ behind) (.here _)
      have further : Reaches (c :: rest ++ behind) ((Piece.front c rest).rest ++ behind) := by
        refine .past ?_
        rw [List.append_eq, same]
        exact .here _
      have tail := ih later (uncommented.further further)
      -- neither a token nor another character can tell the old text behind it from the new one
      have indistinct (left : List Char) : Indistinct (left ++ behind) (even left ++ more) := by
        have longer := @Indistinct.append [] more severs (even left)
        rw [List.append_nil] at longer
        exact (indistinct_even left behind).trans longer
      rcases cases with ⟨kind, found, lexeme⟩ | comment | ⟨alone, skipped⟩
      · have seen : kind ≠ .directive := by
          rintro rfl
          exact no_directive (same ▸ found)
        have kept := even_token lexeme closed seen
        rw [Piece.followedBy_written, whole] at kept
        rw [kept, List.append_assoc]
        exact (of_lexeme (lexeme.transfer closed (indistinct _))).trans tail
      · exact absurd comment no_comment
      · have written : (Piece.front c rest).written = [c] := congrArg Piece.written alone
        have left : (Piece.front c rest).rest = rest := by
          rw [written] at whole
          exact (List.cons.inj whole).2
        rw [left] at tail
        by_cases blank : isBlank c = true
        · rcases even_blank blank rest with even_same | spaced
          · rwa [even_same]
          · rw [spaced]
            refine .past ?_
            rw [Piece.front_blank (by decide)]
            exact tail
        · obtain ⟨-, no_token⟩ := skipped.resolve_left blank
          obtain ⟨still_no_comment, still_no_token⟩ :=
            no_comment_transfer (indistinct rest) no_comment no_token
          rw [even_stray (Bool.eq_false_of_not_eq_true blank) no_token]
          refine .past ?_
          rw [List.append_eq, Piece.front_stray still_no_comment still_no_token]
          exact tail

theorem Reaches.of_normalizeSpacing {text : String} {behind more : List Char}
    (closes : behind.head? = some ')') (reached : Reaches (text.toList ++ behind) behind)
    (uncommented : Uncommented (text.toList ++ behind)) (severs : ∀ c ∈ more.head?, Severs c) :
    Reaches ((normalizeSpacing text).toList ++ more) more := by
  obtain ⟨passed, left⟩ := (Reaches.to_trimStart text.toList).within reached
  rw [normalizeSpacing_eq, String.toList_ofList]
  exact .of_even closes left (uncommented.further passed) severs

end SchemaDrift
