import SchemaDrift.Proofs.Capture
import SchemaDrift.Proofs.Parts
import SchemaDrift.Proofs.Reformatting
import SchemaDrift.Proofs.ReferenceTail

/-!
Runs read apart from their text. A list that is cut in a part of a text is cut at the same commas in
the text, and a run that stands in the part is read in its place as it is read in the part alone.
-/

namespace SchemaDrift

open Reading

theorem Span.text_to_start (start : Nat) (source : List Char) : text ⟨start, 0⟩ source = "" := by
  cases start <;> simp [text, slice?, length?, dropBytes, takeBytes]

namespace Token

theorem visible_stop_pos {chars : List Char} {token : Token}
    (member : token ∈ visible .start chars) : 0 < token.span.stop := by
  obtain ⟨before, c, rest, stands⟩ := scan_mem_stands (List.mem_of_mem_filter member)
  have written := utf8Len_pos_of_ne_nil (Piece.front_written_ne_nil c rest)
  rw [stands.span, String.utf8Len_append]
  exact Nat.add_pos_right _ written

end Token

/-! What is cut from a list. -/

theorem cutRuns_parts {depth : Nat} {tokens behind : List Token} {runs : List (List Token)}
    (cut : cutRuns depth tokens = some (runs, behind)) :
    behind ≠ [] ∧ ∃ inner, tokens = inner ++ behind ∧ ∀ run ∈ runs, run ⊆ inner := by
  induction tokens generalizing depth runs behind with
  | nil => simp [cutRuns] at cut
  | cons token rest ih =>
      rw [cutRuns_cons] at cut
      split at cut
      next =>
        obtain ⟨rfl, rfl⟩ : [[]] = runs ∧ token :: rest = behind := by simpa using cut
        exact ⟨List.cons_ne_nil token rest, [], rfl, by simp⟩
      split at cut
      next =>
        obtain ⟨⟨others, left⟩, later, parts⟩ := Option.map_eq_some_iff.mp cut
        obtain ⟨rfl, rfl⟩ : [] :: others = runs ∧ left = behind := by simpa using parts
        obtain ⟨nonempty, inner, rfl, within⟩ := ih later
        refine ⟨nonempty, token :: inner, rfl, List.forall_mem_cons.mpr ⟨List.nil_subset _, ?_⟩⟩
        exact fun run member => List.subset_cons_of_subset token (within run member)
      next =>
        obtain ⟨⟨others, left⟩, later, parts⟩ := Option.map_eq_some_iff.mp cut
        obtain ⟨rfl, rfl⟩ : others.modifyHead (token :: ·) = runs ∧ left = behind := by
          simpa using parts
        obtain ⟨nonempty, inner, rfl, within⟩ := ih later
        refine ⟨nonempty, token :: inner, rfl, fun run member => ?_⟩
        cases others with
        | nil => simp at member
        | cons first others =>
            rcases List.mem_cons.mp member with rfl | member
            · exact List.cons_subset_cons token (within first List.mem_cons_self)
            · exact List.subset_cons_of_subset token (within run (List.mem_cons_of_mem _ member))

theorem cutRuns_map {move : Token → Token} (kind : ∀ token, (move token).kind = token.kind)
    (depth : Nat) (tokens : List Token) :
    cutRuns depth (tokens.map move) =
      (cutRuns depth tokens).map (Prod.map (List.map (List.map move)) (List.map move)) := by
  induction tokens generalizing depth with
  | nil => rfl
  | cons token rest ih =>
      rw [List.map_cons, cutRuns_cons, cutRuns_cons, kind]
      split
      · rfl
      split
      · rw [ih]
        cases cutRuns 0 rest <;> rfl
      · rw [ih]
        generalize cutRuns _ rest = cut
        rcases cut with _ | ⟨_ | ⟨run, runs⟩, behind⟩ <;> rfl

theorem cutRuns_open {depth : Nat} {tokens : List Token} {found : List (List Token)}
    {closing : Token} (cut : cutRuns depth (tokens ++ [closing]) = some (found, [closing])) :
    ∃ runs last before, found = runs ++ [last] ∧ tokens = before ++ last ∧
      (runs = [] → before = []) ∧ ∀ more, cutRuns depth (tokens ++ more) =
        (cutRuns 0 more).map (Prod.map (runs ++ List.modifyHead (last ++ ·) ·) id) := by
  induction tokens generalizing depth found with
  | nil =>
      rw [List.nil_append, cutRuns_cons] at cut
      split at cut
      next level =>
        obtain rfl : [[]] = found := by simpa using cut
        refine ⟨[], [], [], rfl, rfl, fun _ => rfl, fun more => ?_⟩
        rw [level.2, List.nil_append]
        generalize cutRuns 0 more = cut
        rcases cut with _ | ⟨_ | ⟨run, runs⟩, behind⟩ <;> rfl
      split at cut <;> simp [cutRuns] at cut
  | cons token rest ih =>
      rw [List.cons_append, cutRuns_cons] at cut
      simp only [List.cons_append, cutRuns_cons _ token]
      split at cut
      next => simp at cut
      next not_last =>
        simp only [not_last, ↓reduceIte]
        split at cut
        next comma =>
          obtain ⟨⟨others, left⟩, later, parts⟩ := Option.map_eq_some_iff.mp cut
          obtain ⟨rfl, rfl⟩ : [] :: others = found ∧ left = [closing] := by simpa using parts
          obtain ⟨runs, last, before, rfl, rfl, _, opened⟩ := ih later
          refine ⟨[] :: runs, last, token :: before, rfl, rfl, by simp, fun more => ?_⟩
          rw [if_pos comma, opened]
          cases cutRuns 0 more <;> rfl
        next not_comma =>
          obtain ⟨⟨others, left⟩, later, parts⟩ := Option.map_eq_some_iff.mp cut
          obtain ⟨rfl, rfl⟩ : others.modifyHead (token :: ·) = found ∧ left = [closing] := by
            simpa using parts
          obtain ⟨runs, last, before, rfl, rfl, whole, opened⟩ := ih later
          -- the token goes on the first run, which may be the one that goes on
          cases runs with
          | nil =>
              obtain rfl := whole rfl
              refine ⟨[], token :: last, [], rfl, rfl, fun _ => rfl, fun more => ?_⟩
              rw [if_neg not_comma, opened]
              generalize cutRuns 0 more = cut
              rcases cut with _ | ⟨_ | ⟨run, runs⟩, behind⟩ <;> rfl
          | cons run runs =>
              refine ⟨(token :: run) :: runs, last, token :: before, rfl, rfl, by simp,
                fun more => ?_⟩
              rw [if_neg not_comma, opened]
              cases cutRuns 0 more <;> rfl

theorem Balanced.cut {depth : Nat} {inner : List Token} (balanced : Balanced depth inner)
    {closing : Token} (closes : closing.kind = .rightParen) :
    ∃ runs, ∀ rest, cutRuns depth (inner ++ closing :: rest) = some (runs, closing :: rest) := by
  induction balanced with
  | finish => exact ⟨[[]], fun rest => by simp [cutRuns_cons, closes]⟩
  | @opening depth token rest kind later ih =>
      obtain ⟨runs, cut⟩ := ih
      exact ⟨runs.modifyHead (token :: ·), fun rest => by simp [cutRuns_cons, kind, cut]⟩
  | @closing depth token rest kind later ih =>
      obtain ⟨runs, cut⟩ := ih
      exact ⟨runs.modifyHead (token :: ·), fun rest => by simp [cutRuns_cons, kind, cut]⟩
  | @other depth token rest not_opening not_closing later ih =>
      obtain ⟨runs, cut⟩ := ih
      by_cases parts : token.kind = .comma ∧ depth = 0
      · obtain ⟨comma, rfl⟩ := parts
        exact ⟨[] :: runs, fun rest => by simp [cutRuns_cons, comma, cut]⟩
      · refine ⟨runs.modifyHead (token :: ·), fun rest => ?_⟩
        rw [List.cons_append, cutRuns_cons, if_neg fun last => not_closing last.1, if_neg parts,
          if_neg not_opening, if_neg not_closing, cut]
        rfl

theorem Inside.cut_none {closed : Prop} {depth : Nat} {run : List Token}
    (inside : Inside closed depth run) : cutRuns depth run = none := by
  induction inside with
  | finish => rfl
  | opening kind later ih => simp [cutRuns_cons, kind, ih]
  | closing kind later ih => simp [cutRuns_cons, kind, ih]
  | comma kind later ih => simp [cutRuns_cons, kind, ih]
  | plain no_border passable later ih =>
      obtain ⟨not_comma, not_opening, not_closing, -⟩ := Token.not_isBorder_iff.mp no_border
      simp [cutRuns_cons, not_comma, not_opening, not_closing, ih]

theorem Parted.cut_none {tokens : List Token} {runs : List (List Token)}
    (parted : Parted tokens runs []) : cutRuns 0 tokens = none := by
  generalize nothing : [] = behind at parted
  induction parted with
  | last inside closes =>
      subst nothing
      rw [List.append_nil, inside.cut_none]
  | more inside kind later ih => simp [inside.cut trivial, cutRuns_cons, kind, ih nothing]

theorem Parted.of_guarded {tokens behind : List Token} {runs : List (List Token)}
    (cut : cutRuns 0 tokens = some (runs, behind)) (guarded : MatchGuarded tokens)
    (no_end : ∀ token ∈ tokens, token.kind ≠ .endOfInput) : Parted tokens runs behind := by
  obtain ⟨others, left, parted⟩ := Parted.exists guarded no_end
  have closed : left ≠ [] := by
    rintro rfl
    rw [parted.cut_none] at cut
    contradiction
  rw [parted.cut closed] at cut
  obtain ⟨rfl, rfl⟩ : others = runs ∧ left = behind := by simpa using cut
  exact parted

namespace Reading

variable {α : Type} {reading item : Reading α} {source : List Char}

theorem separated_parted (uniform : Uniform item) (stays : Stays item) {close : Token}
    (ended : close.kind = .endOfInput) {tokens behind : List Token} {runs : List (List Token)}
    (parted : Parted tokens runs behind) {items : List α} {after : Cursor}
    (done : separated item ⟨source, tokens, close⟩ = .ok items after)
    (closes : after.current.kind = .rightParen) :
    after = ⟨source, behind, close⟩ ∧ behind ≠ [] ∧ List.Forall₂ (item.Takes source) runs items := by
  have itemwise : Itemwise (fun seen => do return (← item) :: seen) source (item.Takes source)
      fun _ => True := by
    rintro behind run seen all cursor rfl inside shut done stops
    obtain ⟨value, middle, read, made⟩ := ok_of_bind_ok done
    obtain ⟨rfl, rfl⟩ := EStateM.Result.ok.inj made
    obtain ⟨closed, same, takes⟩ := stays.takes inside shut read stops
    exact ⟨closed, same, value, rfl, takes, id⟩
  obtain ⟨first, middle, read, rest⟩ := ok_of_bind_ok done
  obtain ⟨others, last, more, made⟩ := ok_of_bind_ok rest
  obtain ⟨rfl, rfl⟩ := EStateM.Result.ok.inj made
  obtain ⟨latestFirst, _, gathered, made⟩ := ok_of_bind_ok more
  obtain ⟨rfl, rfl⟩ := EStateM.Result.ok.inj made
  have start : (do return (← item) :: []) ⟨source, tokens, close⟩ = .ok [first] middle :=
    bind_of_ok read _
  obtain ⟨values, same, moved, closed, takes, -⟩ :=
    itemwise.parted (fun seen => uniform.bind fun _ => .pure _) ended parted start
      (by simpa using foldWhile_seen [first] gathered) closes
  obtain rfl : values = first :: latestFirst.reverse := by
    have turned := congrArg List.reverse same
    simpa using turned.symm
  exact ⟨moved, closed, takes⟩

end Reading

theorem forall₂_around {α β : Type} {R : α → β → Prop} {earlier later : List α} {middle : α}
    {items : List β} (all : List.Forall₂ R (earlier ++ middle :: later) items) :
    ∃ before item after, items = before ++ item :: after ∧ List.Forall₂ R earlier before ∧
      R middle item ∧ List.Forall₂ R later after := by
  induction earlier generalizing items with
  | nil =>
      obtain ⟨item, after, fits, rest, rfl⟩ := List.forall₂_cons_left_iff.mp all
      exact ⟨[], item, after, rfl, .nil, fits, rest⟩
  | cons first earlier ih =>
      obtain ⟨one, others, fits, rest, rfl⟩ := List.forall₂_cons_left_iff.mp all
      obtain ⟨before, item, after, rfl, front, here, back⟩ := ih rest
      exact ⟨one :: before, item, after, rfl, .cons fits front, here, back⟩

theorem forall₂_of_mem {α β : Type} {R S : α → β → Prop} {runs : List α} {items : List β}
    (each : ∀ run ∈ runs, ∀ item, R run item → S run item) (all : List.Forall₂ R runs items) :
    List.Forall₂ S runs items := by
  induction all with
  | nil => exact .nil
  | cons one rest ih =>
      exact .cons (each _ List.mem_cons_self _ one)
        (ih fun run member => each run (List.mem_cons_of_mem _ member))

theorem Reading.Takes.all_unique {α : Type} {reading : Reading α} {source : List Char}
    {runs : List (List Token)} {first second : List α}
    (one : List.Forall₂ (reading.Takes source) runs first)
    (other : List.Forall₂ (reading.Takes source) runs second) : first = second :=
  List.right_unique_forall₂' (fun _ _ _ first second => first.unique second) one other

/-! From a text to a part of it. -/

namespace Twins

variable {move : Token → Token} {before inside : List Char} {run : List Token}

/-- A run of a part of a text, inside the text and alone, in front of a closing parenthesis. -/
def movedRun (move : Token → Token) (before inside behind : List Char) (run : List Token) : Twins where
  source := (before ++ inside ++ behind, inside)
  ahead := run.map (fun token => (move token, token)) ++ [(Behind.parenthesis, Behind.parenthesis)]
  close := (.endOfInput 0 .start, .endOfInput 0 .start)

theorem movedRun_alike (moves : Token.Moves before move) (behind : List Char)
    (standing : ∀ token ∈ run, token ∈ Token.visible .start inside) :
    (movedRun move before inside behind run).Alike fun _ _ => True := by
  have alone := @moved_alike move before inside run (.endOfInput 0 .start) moves behind
    (fun token member => Token.visible_span_le (standing token member)) rfl
  have stops : ∀ pair ∈ run.map (fun token => (move token, token)),
      0 < pair.1.span.stop ∧ 0 < pair.2.span.stop := by
    intro pair member
    obtain ⟨token, present, rfl⟩ := List.mem_map.mp member
    have stop := Token.visible_stop_pos (standing token present)
    rw [moves.span]
    exact ⟨Nat.add_pos_right _ stop, stop⟩
  exact {
    like := by
      intro pair member
      rcases List.mem_cons.mp member with rfl | member
      · exact ⟨rfl, rfl, trivial⟩
      rcases List.mem_append.mp member with inner | last
      · have same := alone.like pair (List.mem_cons_of_mem _ inner)
        exact ⟨same.kind, same.text, trivial⟩
      · obtain rfl := List.mem_singleton.mp last
        exact ⟨rfl, rfl, trivial⟩
    ended := rfl
    -- up to the parenthesis, which stands nowhere, there is no text
    spaced := by
      refine List.pairwise_append.mpr ⟨alone.spaced, List.pairwise_singleton _ _, ?_⟩
      intro pair _ last closes
      obtain rfl := List.mem_singleton.mp closes
      exact congrArg Text.normalizeSpacing
        ((Span.text_to_start _ _).trans (Span.text_to_start _ _).symm)
    touching := by
      refine List.isChain_append.mpr ⟨alone.touching, List.isChain_singleton _, ?_⟩
      intro pair before last closes
      obtain rfl := Option.mem_some_iff.mp closes
      have positive := stops pair (List.mem_of_mem_getLast? before)
      simp only [Behind.parenthesis]
      omega
    joined := by
      intro first rest inner touching
      rcases List.infix_concat_iff.mp inner with last | inner
      · obtain ⟨earlier, same, within⟩ := (List.suffix_concat_iff.mp last).resolve_left (by simp)
        cases earlier with
        | nil =>
            obtain ⟨rfl, rfl⟩ := List.cons.inj same
            exact (Span.text_to_start _ _).trans (Span.text_to_start _ _).symm
        | cons pair earlier =>
            -- nothing stands directly before the parenthesis
            rw [same] at touching
            obtain ⟨_, _, apart⟩ := List.isChain_append.mp touching
            have present := List.getLast_mem (List.cons_ne_nil pair earlier)
            have touch := apart _ (List.getLast?_eq_some_getLast (List.cons_ne_nil pair earlier)) _ rfl
            have positive := (stops _ (within.subset present)).1
            simp only [Touching, Behind.parenthesis] at touch
            omega
      · exact alone.joined first rest inner touching
    introduced := by
      refine List.isChain_append.mpr ⟨alone.introduced, List.isChain_singleton _, ?_⟩
      intro pair _ last closes _ string
      obtain rfl := Option.mem_some_iff.mp closes
      simp [Token.isString, Behind.parenthesis] at string }

end Twins

theorem Reading.Takes.of_moved {α : Type} {reading : Reading α} (uniform : Uniform reading)
    {move : Token → Token} {before inside behind : List Char} (moves : Token.Moves before move)
    {run : List Token} (standing : ∀ token ∈ run, token ∈ Token.visible .start inside) {value : α}
    (takes : reading.Takes (before ++ inside ++ behind) (run.map move) value) :
    reading.Takes inside run value := by
  let twins := Twins.movedRun move before inside behind run
  have results := uniform _ twins (Twins.movedRun_alike moves behind standing)
  have left : twins.left =
      ⟨before ++ inside ++ behind, run.map move ++ [Behind.parenthesis], .endOfInput 0 .start⟩ := by
    simp [twins, Twins.movedRun, Twins.left]
  have right : twins.right = ⟨inside, run ++ [Behind.parenthesis], .endOfInput 0 .start⟩ := by
    simp [twins, Twins.movedRun, Twins.right, Function.comp_def]
  rw [Takes] at takes ⊢
  rw [← left] at takes
  rw [← right]
  generalize reading twins.left = first at results takes
  generalize reading twins.right = second at results
  cases results with
  | error => contradiction
  | ok count same =>
      obtain ⟨rfl, stopped⟩ := EStateM.Result.ok.inj takes
      -- what is left of the one is the parenthesis, so that is what is left of the other
      have ahead := congrArg Cursor.ahead stopped
      obtain ⟨pair, last, -⟩ := List.map_eq_singleton_iff.mp ahead
      have within : [pair] <:+ run.map (fun token => (move token, token)) ++
          [(Behind.parenthesis, Behind.parenthesis)] := last ▸ List.drop_suffix count twins.ahead
      obtain ⟨earlier, parts, -⟩ := (List.suffix_concat_iff.mp within).resolve_left (by simp)
      obtain ⟨-, alone⟩ := List.append_inj' (show [] ++ [pair] = _ from parts) rfl
      rw [alone] at last
      rw [← same, show (twins.drop count).right = ⟨inside, [Behind.parenthesis], .endOfInput 0 .start⟩
        by rw [Twins.right, last]; rfl]

def Token.toEnd (chars : List Char) : List Token :=
  visible .start chars ++ [endOf (.ofList chars)]

theorem Cursor.ofText_eq (text : String) :
    ofText text = ofTokens text.toList (Token.toEnd text.toList) := by
  simp [ofTokens, Token.toEnd, Token.endOf, Token.endOfInput, Token.isEnd, ofText, Token.visible,
    Token.scanText]

theorem Token.toEnd_behind (before behind : List Char) :
    visible (.ofPrefix before) behind ++ [endOf (.ofList (before ++ behind))] =
      (toEnd behind).map (relocate (Position.ofPrefix before)) := by
  have moved := visible_relocate (Position.ofPrefix before) Position.start_counted behind
  have ends := Statement.endOf_append (.ofList before) (.ofList behind)
  rw [Position.relocate_start] at moved
  rw [String.toList_ofList, ← String.ofList_append] at ends
  rw [toEnd, List.map_append, moved, ends]
  rfl

/-- What a reader makes of the last tokens of a text, moved behind another text, it makes of them as they
stand. -/
theorem Reading.Uniform.result_of_moved {α : Type} {reading : Reading α} (uniform : Uniform reading)
    {before inside : List Char} {tokens : List Token} (nonempty : tokens ≠ [])
    (last : tokens <:+ Token.toEnd inside) {value : α}
    (done : reading.result (Cursor.ofTokens (before ++ inside)
      (tokens.map (Token.relocate (Position.ofPrefix before)))).next = .ok value) :
    reading.result (Cursor.ofTokens inside tokens).next = .ok value := by
  obtain ⟨earlier, rfl, within⟩ := (List.suffix_concat_iff.mp last).resolve_left nonempty
  let twins := Twins.moved (Token.relocate (Position.ofPrefix before)) before inside [] earlier.tail
    (Token.endOf (.ofList inside))
  have alike := @Twins.moved_alike _ before inside earlier.tail (Token.endOf (.ofList inside))
    (Token.relocate_moves before) []
    (fun token member => Token.visible_span_le
      (within.subset ((List.tail_suffix earlier).subset member))) rfl
  have left : (Cursor.ofTokens (before ++ inside)
      ((earlier ++ [Token.endOf (.ofList inside)]).map
        (Token.relocate (Position.ofPrefix before)))).next = twins.left := by
    have ends : ((Token.endOf (.ofList inside)).relocate (Position.ofPrefix before)).isEnd = true := rfl
    simp [Cursor.ofTokens, Cursor.next, twins, Twins.moved, Twins.left, ends, Function.comp_def,
      List.map_tail]
  have right : (Cursor.ofTokens inside (earlier ++ [Token.endOf (.ofList inside)])).next =
      twins.right := by
    simp [Cursor.ofTokens, Cursor.next, twins, Twins.moved, Twins.right, Token.isEnd, Token.endOf,
      Token.endOfInput, Function.comp_def]
  have same := uniform.result alike _ fun _ _ same => same
  rw [left] at done
  rw [right]
  generalize reading.result twins.right = result at same
  rw [done] at same
  cases result with
  | ok => exact same.symm
  | error => contradiction

end SchemaDrift
