import SchemaDrift.Proofs.Twins

/-!
Captured texts in step. Expressions, value lists and default values are the only places where a
reader looks at the source and at the places of tokens; on twins they give the same text.
-/

namespace SchemaDrift

open scoped List

namespace Group

theorem read_cons (close : Token) (depth : Nat) (token : Token) (rest : List Token) :
    read close depth (token :: rest) =
      if token.kind = .leftParen then read close (depth + 1) rest
      else if token.kind = .rightParen then
        if depth = 0 then ⟨[], token, rest⟩ else read close (depth - 1) rest
      else if token.kind = .endOfInput then ⟨[], token, rest⟩
      else if token.kind = .comma ∧ depth = 0 then
        { read close 0 rest with commas := token :: (read close 0 rest).commas }
      else read close depth rest := by
  obtain ⟨kind, text, span, position⟩ := token
  rw [read.eq_def]
  cases kind <;> cases depth <;> simp

/-- Groups in step: pairs of commas, a pair of last tokens that is found among `ahead` unless it is
`close`, and what is left behind it. -/
structure Paired (close : Token × Token) (ahead : List (Token × Token)) (left right : Group)
    (commas : List (Token × Token)) (last : Token × Token) (count : Nat) : Prop where
  left : left = ⟨commas.map Prod.fst, last.1, (ahead.drop count).map Prod.fst⟩
  right : right = ⟨commas.map Prod.snd, last.2, (ahead.drop count).map Prod.snd⟩
  found : last = close ∨ commas ++ [last] <+ ahead

theorem Paired.cons {close : Token × Token} {ahead : List (Token × Token)} {left right : Group}
    {commas : List (Token × Token)} {last : Token × Token} {count : Nat}
    (paired : Paired close ahead left right commas last count) (pair : Token × Token) :
    Paired close (pair :: ahead) left right commas last (count + 1) where
  left := paired.left
  right := paired.right
  found := paired.found.imp_right fun found => found.cons pair

theorem read_paired (close : Token × Token) (depth : Nat) (ahead : List (Token × Token))
    (kinds : ∀ pair ∈ ahead, pair.1.kind = pair.2.kind) :
    ∃ commas last count, Paired close ahead (read close.1 depth (ahead.map Prod.fst))
      (read close.2 depth (ahead.map Prod.snd)) commas last count := by
  induction ahead generalizing depth with
  | nil => exact ⟨[], close, 0, rfl, rfl, .inl rfl⟩
  | cons pair rest ih =>
      have same := kinds pair List.mem_cons_self
      have later (depth : Nat) :=
        ih depth fun other member => kinds other (List.mem_cons_of_mem _ member)
      have ends : Paired close (pair :: rest) ⟨[], pair.1, rest.map Prod.fst⟩
          ⟨[], pair.2, rest.map Prod.snd⟩ [] pair 1 :=
        ⟨rfl, rfl, .inr (by simp)⟩
      rw [List.map_cons, List.map_cons, read_cons, read_cons, same]
      have goes_on (depth : Nat) : ∃ commas last count, Paired close (pair :: rest)
          (read close.1 depth (rest.map Prod.fst)) (read close.2 depth (rest.map Prod.snd))
          commas last count := by
        obtain ⟨commas, last, count, paired⟩ := later depth
        exact ⟨commas, last, count + 1, paired.cons pair⟩
      -- Of a pair only the kind decides, and that is one kind.
      by_cases opens : pair.2.kind = .leftParen
      · simpa only [opens, ↓reduceIte] using goes_on (depth + 1)
      by_cases closes : pair.2.kind = .rightParen
      · by_cases outside : depth = 0
        · simp only [closes, outside, ↓reduceIte, reduceCtorEq]
          exact ⟨[], pair, 1, ends⟩
        · simpa only [closes, outside, ↓reduceIte, reduceCtorEq] using goes_on (depth - 1)
      by_cases ended : pair.2.kind = .endOfInput
      · simp only [ended, ↓reduceIte, reduceCtorEq]
        exact ⟨[], pair, 1, ends⟩
      by_cases comma : pair.2.kind = .comma ∧ depth = 0
      · simp only [comma, and_self, ↓reduceIte, reduceCtorEq]
        obtain ⟨commas, last, count, paired⟩ := later 0
        refine ⟨pair :: commas, last, count + 1, ?_, ?_, ?_⟩
        · rw [paired.left]; rfl
        · rw [paired.right]; rfl
        · exact paired.found.imp_right fun found => found.cons_cons pair
      · simpa only [opens, closes, ended, comma, ↓reduceIte] using goes_on depth

end Group

namespace Reading

variable {mark : Token → Token → Prop} {twins : Twins}

/-- Groups in step whose parentheses and commas are tokens of the twins, in order. -/
def Delimits (twins : Twins) (left right : Token × Group) : Prop :=
  ∃ opening commas last, opening :: commas ++ [last] <+ twins.ahead ∧
    left.1 = opening.1 ∧ left.2.commas = commas.map Prod.fst ∧ left.2.last = last.1 ∧
    right.1 = opening.2 ∧ right.2.commas = commas.map Prod.snd ∧ right.2.last = last.2

theorem group_paired (alike : twins.Alike mark) :
    ∃ left right commas last count, group twins.left = .ok left (twins.drop count).left ∧
      group twins.right = .ok right (twins.drop count).right ∧
      Group.Paired twins.close twins.ahead left right commas last count := by
  obtain ⟨commas, last, count, paired⟩ :=
    Group.read_paired twins.close 0 twins.ahead fun pair member =>
    (alike.like pair (List.mem_cons_of_mem _ member)).kind
  refine ⟨_, _, commas, last, count, ?_, ?_, paired⟩
  · simp only [group, Twins.left, Twins.drop, paired.left]
  · simp only [group, Twins.right, Twins.drop, paired.right]

theorem discard_eq {α : Type} (reading : Reading α) :
    discard reading = reading >>= fun _ => pure PUnit.unit := rfl

theorem group_uniform : Uniform (discard group) := by
  intro mark twins alike
  obtain ⟨left, right, commas, last, count, on_left, on_right, _⟩ := group_paired alike
  rw [discard_eq, bind_of_ok on_left, bind_of_ok on_right]
  exact .ok count rfl

theorem expect_cases (alike : twins.Alike mark) {kind : TokenKind} (no_end : kind ≠ .endOfInput) :
    (∃ pair rest, twins.ahead = pair :: rest ∧
        expect kind twins.left = .ok pair.1 (twins.drop 1).left ∧
        expect kind twins.right = .ok pair.2 (twins.drop 1).right) ∨
      expect kind twins.left = .error ⟨.token kind, twins.current.1⟩ twins.left ∧
        expect kind twins.right = .error ⟨.token kind, twins.current.2⟩ twins.right := by
  have same : twins.left.sees kind = twins.right.sees kind :=
    Cursor.sees_shared kind mark twins alike
  simp only [expect, Twins.left_current, Twins.right_current, Twins.left_next, Twins.right_next,
    same]
  by_cases sees : twins.right.sees kind = true
  · simp only [sees, ↓reduceIte]
    cases ahead : twins.ahead with
    | nil =>
        simp only [Cursor.sees, Twins.right_current, Twins.current, ahead, List.headD_nil,
          beq_iff_eq] at sees
        have ended := (alike.like twins.close List.mem_cons_self).kind.symm.trans alike.ended
        exact absurd (sees.symm.trans ended) no_end
    | cons pair rest =>
        have front : twins.current = pair := by simp [Twins.current, ahead]
        exact .inl ⟨pair, rest, rfl, by rw [front], by rw [front]⟩
  · simp [sees]

theorem closedGroup_delimits (alike : twins.Alike mark) :
    Twins.Results mark (Delimits twins) twins (closedGroup twins.left)
      (closedGroup twins.right) := by
  rw [closedGroup]
  have no_end : TokenKind.leftParen ≠ .endOfInput := by simp
  rcases expect_cases alike no_end with
    ⟨opening, rest, ahead, on_left, on_right⟩ | ⟨on_left, on_right⟩
  · obtain ⟨left, right, commas, last, count, group_left, group_right, paired⟩ :=
      group_paired (alike.drop 1)
    rw [bind_of_ok on_left, bind_of_ok on_right, bind_of_ok group_left, bind_of_ok group_right]
    have like : Token.Like mark last.1 last.2 := by
      rcases paired.found with rfl | found
      · exact alike.like _ List.mem_cons_self
      · exact (alike.drop 1).like last (List.mem_cons_of_mem _ (found.subset (by simp)))
    apply @Twins.Results.of_drop mark twins _ _ 1
    -- A closed group ends in a token of the text; an open one ends in the end of input, and both
    -- sides complain.
    by_cases closed : last.2.kind = .rightParen
    · have inside : commas ++ [last] <+ rest := by
        rcases paired.found with rfl | found
        · exact absurd (closed.symm.trans (like.kind.symm.trans alike.ended)) (by simp)
        · simpa [Twins.drop, ahead] using found
      have delimits : Delimits twins (opening.1, left) (opening.2, right) := by
        refine ⟨opening, commas, last, ?_, rfl, ?_, ?_, rfl, ?_, ?_⟩
        · rw [ahead]
          exact inside.cons_cons opening
        all_goals simp [paired.left, paired.right]
      have both : left.closed = true ∧ right.closed = true := by
        simp [Group.closed, paired.left, paired.right, like.kind, closed]
      simp only [both, ↓reduceIte]
      exact .ok count delimits
    · have neither : left.closed = false ∧ right.closed = false := by
        simp [Group.closed, paired.left, paired.right, like.kind, closed]
      have left_last : left.last = last.1 := by rw [paired.left]
      have right_last : right.last = last.2 := by rw [paired.right]
      simp only [neither, Bool.false_eq_true, ↓reduceIte, left_last, right_last]
      exact .error count _ like
  · rw [bind_of_error on_left, bind_of_error on_right]
    exact .error 0 _ alike.current

theorem current_left (twins : Twins) : current twins.left = .ok twins.current.1 twins.left := by
  rw [current, Twins.left_current]

theorem current_right (twins : Twins) : current twins.right = .ok twins.current.2 twins.right := by
  rw [current, Twins.right_current]

theorem advance_results {α : Type} {related : α → α → Prop} {first second : Reading α}
    (later : Twins.Results mark related (twins.drop 1) (first (twins.drop 1).left)
      (second (twins.drop 1).right)) :
    Twins.Results mark related twins ((discard advance >>= fun _ => first) twins.left)
      ((discard advance >>= fun _ => second) twins.right) := by
  have on_left : discard advance twins.left = .ok () (twins.drop 1).left := by
    rw [← Twins.left_next]
    rfl
  have on_right : discard advance twins.right = .ok () (twins.drop 1).right := by
    rw [← Twins.right_next]
    rfl
  rw [bind_of_ok on_left, bind_of_ok on_right]
  exact later.of_drop

theorem textBetween_results (before after : Token × Token)
    (spaced : Text.normalizeSpacing (twins.left.slice before.1.span.stop after.1.span.start) =
      Text.normalizeSpacing (twins.right.slice before.2.span.stop after.2.span.start)) :
    Twins.Results mark Eq twins (textBetween before.1 after.1 twins.left)
      (textBetween before.2 after.2 twins.right) :=
  .ok 0 spaced

theorem expression_uniform : Uniform expression := by
  intro mark twins alike
  rw [expression]
  refine results_bind (closedGroup_delimits alike) ?_
  rintro left right count
    ⟨opening, commas, last, inside, left_opening, _, left_last, right_opening, _, right_last⟩
  -- The first and the last of these tokens are the parentheses, and the text is what stands between
  -- them.
  have spaced := alike.spaced.sublist inside
  rw [List.cons_append, List.pairwise_cons] at spaced
  simp only [left_opening, left_last, right_opening, right_last]
  exact textBetween_results opening last (spaced.1 last (by simp))

theorem textsBetween_results (mark : Token → Token → Prop) (before : Token × Token)
    (marks : List (Token × Token)) (twins : Twins)
    (spaced : (before :: marks).Pairwise fun before after =>
      Text.normalizeSpacing (twins.left.slice before.1.span.stop after.1.span.start) =
        Text.normalizeSpacing (twins.right.slice before.2.span.stop after.2.span.start)) :
    Twins.Results mark Eq twins (textsBetween before.1 (marks.map Prod.fst) twins.left)
      (textsBetween before.2 (marks.map Prod.snd) twins.right) := by
  induction marks generalizing before twins with
  | nil => exact .ok 0 rfl
  | cons after rest ih =>
      obtain ⟨first, later⟩ := List.pairwise_cons.mp spaced
      refine results_bind (textBetween_results before after (first after List.mem_cons_self)) ?_
      rintro text _ count rfl
      refine results_bind (ih after (twins.drop count) later) ?_
      rintro texts _ count rfl
      exact .ok 0 rfl

theorem valueList_uniform : Uniform valueList := by
  intro mark twins alike
  rw [valueList]
  refine results_bind (closedGroup_delimits alike) ?_
  rintro left right count
    ⟨opening, commas, last, inside, left_opening, left_commas, left_last, right_opening,
      right_commas, right_last⟩
  have texts := textsBetween_results mark opening (commas ++ [last]) (twins.drop count)
    (alike.spaced.sublist inside)
  simp only [left_opening, left_commas, left_last, right_opening, right_commas, right_last]
  simpa only [List.map_append, List.map_cons, List.map_nil] using texts

theorem skipGroup_uniform : Uniform skipGroup :=
  discard_advance_uniform.bind fun _ => group_uniform

theorem skipAny_uniform : Uniform skipAny := by
  apply (look_uniform (Cursor.sees_shared .leftParen)).bind
  intro opens
  exact .ite skipGroup_uniform discard_advance_uniform

end Reading

theorem Token.follow_twins (pair : Token × Token) (rest : List (Token × Token))
    (kinds : ∀ pair ∈ rest, pair.1.kind = pair.2.kind)
    (touching : (pair :: rest).IsChain fun before after =>
      after.1.span.start = before.1.span.stop ↔ after.2.span.start = before.2.span.stop) :
    ∃ run count, rest = run ++ rest.drop count ∧ (pair :: run).IsChain Twins.Touching ∧
      follow pair.1.span.stop (rest.map Prod.fst) =
        ((run.getLastD pair).1.span.stop, (rest.drop count).map Prod.fst) ∧
      follow pair.2.span.stop (rest.map Prod.snd) =
        ((run.getLastD pair).2.span.stop, (rest.drop count).map Prod.snd) := by
  induction rest generalizing pair with
  | nil => exact ⟨[], 0, rfl, .singleton _, rfl, rfl⟩
  | cons next rest ih =>
      obtain ⟨together, later⟩ := List.isChain_cons_cons.mp touching
      have same := kinds next List.mem_cons_self
      by_cases follows : (next.2.kind = .identifier ∨ next.2.kind = .number) ∧
          next.2.span.start = pair.2.span.stop
      · obtain ⟨run, count, parts, chain, left, right⟩ :=
          ih next (fun other member => kinds other (List.mem_cons_of_mem _ member)) later
        have touches : Twins.Touching pair next := together.mpr follows.2
        refine ⟨next :: run, count + 1, congrArg (next :: ·) parts, ?_, ?_, ?_⟩
        · exact .cons_cons touches chain
        · rw [List.map_cons, follow, same, if_pos ⟨follows.1, touches⟩, left, List.getLastD_cons]
          rfl
        · rw [List.map_cons, follow, if_pos follows, right, List.getLastD_cons]
          rfl
      · refine ⟨[], 0, rfl, .singleton _, ?_, ?_⟩
        · have not_left : ¬((next.2.kind = .identifier ∨ next.2.kind = .number) ∧
              next.1.span.start = pair.1.span.stop) :=
            fun both => follows ⟨both.1, together.mp both.2⟩
          rw [List.map_cons, follow, same, if_neg not_left]
          rfl
        · rw [List.map_cons, follow, if_neg follows]
          rfl

namespace DefaultValue

open Reading

variable {mark : Token → Token → Prop} {twins : Twins} {pair : Token × Token}
  {rest : List (Token × Token)}

theorem numberText_results (alike : twins.Alike mark) (ahead : twins.ahead = pair :: rest) :
    Twins.Results mark Eq (twins.drop 1) (numberText pair.1 (twins.drop 1).left)
      (numberText pair.2 (twins.drop 1).right) := by
  have touching := alike.touching
  rw [ahead] at touching
  obtain ⟨run, count, parts, chain, left, right⟩ := Token.follow_twins pair rest
    (fun other member => (alike.like other (by simp [ahead, member])).kind) touching
  have text : (twins.drop 1).left.slice pair.1.span.start (run.getLastD pair).1.span.stop =
      (twins.drop 1).right.slice pair.2.span.start (run.getLastD pair).2.span.stop :=
    alike.joined pair run (by rw [ahead, parts]; exact ⟨[], rest.drop count, by simp⟩) chain
  have behind : (twins.drop 1).ahead = rest := by simp [Twins.drop, ahead]
  have results : Twins.Results mark Eq (twins.drop 1) (.ok _ ((twins.drop 1).drop count).left)
      (.ok _ ((twins.drop 1).drop count).right) := .ok count text
  simpa only [numberText, Twins.left, Twins.right, behind, left, right, Twins.drop, ahead,
    List.drop_succ_cons, List.drop_zero] using results

theorem introduced_text (alike : twins.Alike mark) {next : Token × Token}
    (ahead : twins.ahead = pair :: next :: rest) (is_string : next.1.isString = true)
    (attached : next.1.span.start = pair.1.span.stop ∨ pair.1.isIntroducer = true) :
    twins.left.slice pair.1.span.start next.1.span.stop =
      twins.right.slice pair.2.span.start next.2.span.stop := by
  rcases attached with touches | introducer
  -- Either the string stands right behind the word, or the word introduces it and the space between
  -- them counts.
  · have chain : [pair, next].IsChain Twins.Touching := .cons_cons touches (.singleton next)
    exact alike.joined pair [next] (by rw [ahead]; exact ⟨[], rest, rfl⟩) chain
  · have introduced := alike.introduced
    rw [ahead] at introduced
    exact (List.isChain_cons_cons.mp introduced).1 introducer is_string

theorem wordText_results (alike : twins.Alike mark) (ahead : twins.ahead = pair :: rest) :
    Twins.Results mark Eq (twins.drop 1) (wordText pair.1 (twins.drop 1).left)
      (wordText pair.2 (twins.drop 1).right) := by
  have like_pair := alike.like pair (by simp [ahead])
  have like := (alike.drop 1).current
  have behind : (twins.drop 1).ahead = rest := by simp [Twins.drop, ahead]
  rw [wordText, wordText, bind_of_ok (current_left _), bind_of_ok (current_right _), like.isString,
    like.kind, like_pair.text, like_pair.isIntroducer]
  cases rest with
  | nil =>
      have ended : (twins.drop 1).current.2.kind = .endOfInput := by
        rw [← like.kind, Twins.current, behind]
        exact alike.ended
      have no_string : (twins.drop 1).current.2.isString = false := by rw [Token.isString, ended]
      simp only [no_string, ended, Bool.false_and, Bool.false_eq_true, ↓reduceIte, reduceCtorEq]
      exact .ok 0 rfl
  | cons next rest =>
      have front : (twins.drop 1).current = next := by rw [Twins.current, behind]; rfl
      rw [front] at like ⊢
      have touching := alike.touching
      rw [ahead] at touching
      have together := (List.isChain_cons_cons.mp touching).1
      have same_test :
          (next.1.span.start == pair.1.span.stop) = (next.2.span.start == pair.2.span.stop) := by
        rw [Bool.eq_iff_iff, beq_iff_eq, beq_iff_eq]
        exact together
      rw [same_test]
      by_cases attached : (next.2.isString &&
          (next.2.span.start == pair.2.span.stop || pair.2.isIntroducer)) = true
      · rw [if_pos attached, if_pos attached]
        simp only [Bool.and_eq_true, Bool.or_eq_true, beq_iff_eq] at attached
        refine advance_results ?_
        have text := introduced_text alike ahead (like.isString.trans attached.1)
          (attached.2.imp together.mpr like_pair.isIntroducer.trans)
        exact .ok 0 text
      · rw [if_neg attached, if_neg attached]
        by_cases opens : next.2.kind = .leftParen
        · rw [if_pos opens]
          exact (expression_uniform.bind fun text => .pure _) mark _ (alike.drop 1)
        · rw [if_neg opens]
          exact .ok 0 rfl

theorem read_uniform : Uniform read := by
  intro mark twins alike
  have like := alike.current
  rw [read, bind_of_ok (current_left _), bind_of_ok (current_right _), like.kind]
  have fails : Twins.Results mark Eq twins ((fail .defaultValue : Reading String) twins.left)
      ((fail .defaultValue : Reading String) twins.right) :=
    fail_uniform .defaultValue mark twins alike
  cases ahead : twins.ahead with
  | nil =>
      have ended : twins.current.2.kind = .endOfInput := by
        rw [← like.kind, Twins.current, ahead]
        exact alike.ended
      rw [ended]
      exact fails
  | cons pair rest =>
      have front : twins.current = pair := by rw [Twins.current, ahead]; rfl
      rw [front] at like ⊢
      cases kind : pair.2.kind with
      | leftParen => exact (expression_uniform.bind fun text => .pure _) mark twins alike
      | string quote =>
          rw [like.sql]
          exact advance_results (.ok 0 rfl)
      | number => exact advance_results (numberText_results alike ahead)
      | identifier => exact advance_results (wordText_results alike ahead)
      | keyword word => exact advance_results (wordText_results alike ahead)
      | _ => exact fails

end DefaultValue

end SchemaDrift
