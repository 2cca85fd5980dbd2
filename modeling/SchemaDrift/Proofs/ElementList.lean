import SchemaDrift.Proofs.Elements
import SchemaDrift.Proofs.Uniform

/-!
The element list of a statement, cut at its own commas. Reading a table comes to reading its
heading, each run of the list by itself, and what stands behind the list.
-/

namespace SchemaDrift

/-- Cuts what is inside an opening parenthesis, and inside `depth` more, at the commas that are
inside that one alone: the runs, and the tokens from the closing parenthesis on. -/
def cutRuns : Nat → List Token → Option (List (List Token) × List Token)
  | _, [] => none
  | depth, token :: rest =>
      let longer := Prod.map (List.modifyHead (token :: ·)) id
      match token.kind, depth with
      | .rightParen, 0 => some ([[]], token :: rest)
      | .comma, 0 => (cutRuns 0 rest).map (Prod.map ([] :: ·) id)
      | .leftParen, depth => (cutRuns (depth + 1) rest).map longer
      | .rightParen, depth + 1 => (cutRuns depth rest).map longer
      | _, depth => (cutRuns depth rest).map longer

/-- The tokens of a statement around its first opening parenthesis: those before it, the runs up to
its matching close, and those from the close on. -/
structure ElementList where
  heading : List Token
  runs : List (List Token)
  behind : List Token
  deriving DecidableEq, Repr

/-- There is no element list where no parenthesis is opened, or the first is not closed. -/
def ElementList.ofTokens? (tokens : List Token) : Option ElementList :=
  match tokens.dropWhile (·.kind != .leftParen) with
  | [] => none
  | _ :: inner => (cutRuns 0 inner).map fun (runs, behind) =>
      ⟨tokens.takeWhile (·.kind != .leftParen), runs, behind⟩

theorem cutRuns_cons (depth : Nat) (token : Token) (rest : List Token) :
    cutRuns depth (token :: rest) =
      if token.kind = .rightParen ∧ depth = 0 then some ([[]], token :: rest)
      else if token.kind = .comma ∧ depth = 0 then (cutRuns 0 rest).map (Prod.map ([] :: ·) id)
      else (cutRuns (if token.kind = .leftParen then depth + 1
          else if token.kind = .rightParen then depth - 1 else depth) rest).map
        (Prod.map (List.modifyHead (token :: ·)) id) := by
  obtain ⟨kind, text, span, position⟩ := token
  rw [cutRuns.eq_def]
  cases kind <;> cases depth <;> simp

/-- A list made of runs, between commas, up to the parenthesis that closes it or the end of input.
-/
inductive Parted : List Token → List (List Token) → List Token → Prop where
  | last {run behind : List Token} (inside : Inside (behind ≠ []) 0 run)
      (closes : ∀ token ∈ behind.head?, token.kind = .rightParen) :
      Parted (run ++ behind) [run] behind
  | more {run rest behind : List Token} {runs : List (List Token)} {comma : Token}
      (inside : Inside True 0 run) (kind : comma.kind = .comma) (later : Parted rest runs behind) :
      Parted (run ++ comma :: rest) (run :: runs) behind

theorem Inside.cut {closed : Prop} {depth : Nat} {run : List Token} (is_closed : closed)
    (inside : Inside closed depth run) (rest : List Token) :
    cutRuns depth (run ++ rest) =
      (cutRuns 0 rest).map (Prod.map (List.modifyHead (run ++ ·)) id) := by
  have push (token : Token) (run : List Token) (cut : Option (List (List Token) × List Token)) :
      (cut.map (Prod.map (List.modifyHead (run ++ ·)) id)).map
          (Prod.map (List.modifyHead (token :: ·)) id) =
        cut.map (Prod.map (List.modifyHead (token :: run ++ ·)) id) := by
    cases cut with
    | none => rfl
    | some parts =>
        obtain ⟨runs, behind⟩ := parts
        cases runs <;> rfl
  induction inside with
  | finish level =>
      obtain rfl := level is_closed
      cases cut : cutRuns 0 rest with
      | none => simp [cut]
      | some parts =>
          obtain ⟨runs, behind⟩ := parts
          cases runs <;> simp [cut]
  | opening kind later ih => simp [cutRuns_cons, kind, ih, push]
  | closing kind later ih => simp [cutRuns_cons, kind, ih, push]
  | comma kind later ih => simp [cutRuns_cons, kind, ih, push]
  | plain no_border passable later ih =>
      obtain ⟨not_comma, not_opening, not_closing, -⟩ := Token.not_isBorder_iff.mp no_border
      simp [cutRuns_cons, not_comma, not_opening, not_closing, ih, push]

theorem Parted.cut {tokens behind : List Token} {runs : List (List Token)}
    (parted : Parted tokens runs behind) (closed : behind ≠ []) :
    cutRuns 0 tokens = some (runs, behind) := by
  induction parted with
  | @last run behind inside closes =>
      obtain ⟨token, rest, rfl⟩ := List.exists_cons_of_ne_nil closed
      simp [inside.cut closed, cutRuns_cons, closes token rfl]
  | more inside kind later ih => simp [inside.cut trivial, cutRuns_cons, kind, ih closed]

/-- No comma and no parenthesis stands right behind a MATCH. -/
def MatchGuarded (tokens : List Token) : Prop :=
  tokens.IsChain fun first second => first.kind = .keyword .MATCH →
    second.kind ≠ .comma ∧ second.kind ≠ .leftParen ∧ second.kind ≠ .rightParen

theorem Inside.front (depth : Nat) {tokens : List Token} (guarded : MatchGuarded tokens)
    (no_end : ∀ token ∈ tokens, token.kind ≠ .endOfInput) :
    ∃ run rest, tokens = run ++ rest ∧ Inside (rest ≠ []) depth run ∧
      ∀ token ∈ rest.head?, token.kind = .comma ∨ token.kind = .rightParen := by
  -- a border that is inside a parenthesis belongs to the run, one outside ends it
  induction tokens generalizing depth with
  | nil => exact ⟨[], [], rfl, .finish fun closed => absurd rfl closed, by simp⟩
  | cons token rest ih =>
      have further (depth : Nat) := ih depth guarded.tail fun other member =>
        no_end other (List.mem_cons_of_mem token member)
      by_cases opening : token.kind = .leftParen
      · obtain ⟨run, behind, rfl, inside, borders⟩ := further (depth + 1)
        exact ⟨token :: run, behind, rfl, .opening opening inside, borders⟩
      by_cases closing : token.kind = .rightParen
      · cases depth with
        | zero => exact ⟨[], token :: rest, rfl, .finish fun _ => rfl, by simp [closing]⟩
        | succ depth =>
            obtain ⟨run, behind, rfl, inside, borders⟩ := further depth
            exact ⟨token :: run, behind, rfl, .closing closing inside, borders⟩
      by_cases comma : token.kind = .comma
      · cases depth with
        | zero => exact ⟨[], token :: rest, rfl, .finish fun _ => rfl, by simp [comma]⟩
        | succ depth =>
            obtain ⟨run, behind, rfl, inside, borders⟩ := further (depth + 1)
            exact ⟨token :: run, behind, rfl, .comma comma inside, borders⟩
      obtain ⟨run, behind, rfl, inside, borders⟩ := further depth
      have not_end := no_end token List.mem_cons_self
      have no_border := Token.not_isBorder_iff.mpr ⟨comma, opening, closing, not_end⟩
      refine ⟨token :: run, behind, rfl, .plain no_border (fun word => ⟨?_, ?_⟩) inside, borders⟩
      · -- a border behind the word would stand right behind it
        rintro rfl closed
        obtain ⟨next, later, rfl⟩ := List.exists_cons_of_ne_nil closed
        obtain ⟨not_comma, _, not_closing⟩ := (List.isChain_cons_cons.mp guarded).1 word
        rcases borders next rfl with kind | kind
        · exact not_comma kind
        · exact not_closing kind
      · intro next front
        obtain ⟨later, rfl⟩ := List.head?_eq_some_iff.mp front
        obtain ⟨not_comma, not_opening, not_closing⟩ := (List.isChain_cons_cons.mp guarded).1 word
        exact Token.not_isBorder_iff.mpr
          ⟨not_comma, not_opening, not_closing, no_end next (by simp)⟩

theorem Parted.exists {tokens : List Token} (guarded : MatchGuarded tokens)
    (no_end : ∀ token ∈ tokens, token.kind ≠ .endOfInput) :
    ∃ runs behind, Parted tokens runs behind := by
  induction total : tokens.length using Nat.strongRecOn generalizing tokens with
  | ind count ih =>
      obtain ⟨run, rest, rfl, inside, borders⟩ := Inside.front 0 guarded no_end
      cases rest with
      | nil => exact ⟨[run], [], .last inside (by simp)⟩
      | cons border rest =>
          rcases borders border rfl with kind | kind
          · have shorter : rest.length < count := by
              rw [← total, List.length_append, List.length_cons]
              omega
            have further := (List.isChain_append.mp guarded).2.1.tail
            obtain ⟨runs, behind, parted⟩ := ih rest.length shorter further
              (fun token (member : token ∈ rest) => no_end token (by simp [member])) rfl
            exact ⟨run :: runs, behind, .more (by simpa using inside) kind parted⟩
          · exact ⟨[run], border :: rest, .last inside (by simpa using kind)⟩

/-- Is every MATCH in these tokens followed by FULL, PARTIAL or SIMPLE? -/
def Matched : List Token → Prop
  | [] => True
  | token :: rest =>
      (token.kind = .keyword .MATCH → ∃ next ∈ rest.head?,
        next.kind = .keyword .FULL ∨ next.kind = .keyword .PARTIAL ∨ next.kind = .keyword .SIMPLE) ∧
      Matched rest

instance decidableMatched : (tokens : List Token) → Decidable (Matched tokens)
  | [] => .isTrue trivial
  | _ :: rest =>
      have := decidableMatched rest
      inferInstanceAs (Decidable (_ ∧ Matched rest))

theorem cutRuns_front {depth : Nat} {tokens behind : List Token} {runs : List (List Token)}
    (cut : cutRuns depth tokens = some (runs, behind)) :
    ∃ run others rest, runs = run :: others ∧ tokens = run ++ rest ∧
      (Matched run → (∀ token ∈ run, token.kind ≠ .endOfInput) → Inside True depth run) ∧
      (others = [] ∧ rest = behind ∧ (∃ token ∈ behind.head?, token.kind = .rightParen) ∨
        ∃ comma later, rest = comma :: later ∧ comma.kind = .comma ∧
          cutRuns 0 later = some (others, behind)) := by
  induction tokens generalizing depth runs behind with
  | nil => simp [cutRuns] at cut
  | cons token rest ih =>
      rw [cutRuns_cons] at cut
      split at cut
      next closing =>
        obtain ⟨kind, rfl⟩ := closing
        obtain ⟨rfl, rfl⟩ : [[]] = runs ∧ token :: rest = behind := by simpa using cut
        exact ⟨[], [], token :: rest, rfl, rfl, fun _ _ => .finish fun _ => rfl,
          .inl ⟨rfl, rfl, token, rfl, kind⟩⟩
      split at cut
      next not_closing comma =>
        obtain ⟨kind, rfl⟩ := comma
        obtain ⟨⟨others, left⟩, later, parts⟩ := Option.map_eq_some_iff.mp cut
        obtain ⟨rfl, rfl⟩ : [] :: others = runs ∧ left = behind := by simpa using parts
        exact ⟨[], others, token :: rest, rfl, rfl, fun _ _ => .finish fun _ => rfl,
          .inr ⟨token, rest, rfl, kind, later⟩⟩
      next not_closing not_comma =>
        obtain ⟨⟨parts, left⟩, later, glued⟩ := Option.map_eq_some_iff.mp cut
        obtain ⟨run, others, further, rfl, rfl, inside, ends⟩ := ih later
        obtain ⟨rfl, rfl⟩ : (token :: run) :: others = runs ∧ left = behind := by simpa using glued
        refine ⟨token :: run, others, further, rfl, rfl, fun matched no_end => ?_, ends⟩
        -- a token that does not cut goes on the run, at the depth that it stands at
        have deeper := inside matched.2 fun other member =>
          no_end other (List.mem_cons_of_mem token member)
        by_cases opening : token.kind = .leftParen
        · exact .opening opening (by simpa [opening] using deeper)
        by_cases closing : token.kind = .rightParen
        · cases depth with
          | zero => exact absurd ⟨closing, rfl⟩ not_closing
          | succ depth => exact .closing closing (by simpa [closing] using deeper)
        by_cases comma : token.kind = .comma
        · cases depth with
          | zero => exact absurd ⟨comma, rfl⟩ not_comma
          | succ depth => exact .comma comma (by simpa [comma] using deeper)
        have not_end := no_end token List.mem_cons_self
        refine .plain (Token.not_isBorder_iff.mpr ⟨comma, opening, closing, not_end⟩) ?_
          (by simpa [opening, closing] using deeper)
        intro word
        obtain ⟨next, front, kinds⟩ := matched.1 word
        refine ⟨fun none_left => by simp [none_left] at front, fun other same => ?_⟩
        obtain rfl : next = other := Option.mem_unique front same
        rcases kinds with kind | kind | kind <;> simp [Token.IsBorder, kind]

/-- A list that can be cut is made of the runs that it is cut into, whatever else stands behind the
parenthesis that closes it. -/
theorem Parted.of_cut {tokens behind : List Token} {runs : List (List Token)}
    (cut : cutRuns 0 tokens = some (runs, behind)) (matched : ∀ run ∈ runs, Matched run)
    (no_end : ∀ run ∈ runs, ∀ token ∈ run, token.kind ≠ .endOfInput) :
    (∃ close ∈ behind.head?, close.kind = .rightParen) ∧
      ∃ inner, tokens = inner ++ behind ∧
        ∀ other, (∃ close ∈ other.head?, close.kind = .rightParen) →
          Parted (inner ++ other) runs other := by
  induction total : tokens.length using Nat.strongRecOn generalizing tokens runs with
  | ind count ih =>
      obtain ⟨run, others, rest, rfl, rfl, inside, ends⟩ := cutRuns_front cut
      have first := inside (matched run List.mem_cons_self) (no_end run List.mem_cons_self)
      rcases ends with ⟨rfl, rfl, closes⟩ | ⟨comma, later, rfl, kind, further⟩
      · refine ⟨closes, run, rfl, ?_⟩
        rintro other ⟨close, front, is_closing⟩
        have closed : other ≠ [] := by
          rintro rfl
          simp at front
        refine .last (by simpa [closed] using first) fun token same => ?_
        obtain rfl : close = token := Option.mem_unique front same
        exact is_closing
      · have shorter : later.length < count := by
          rw [← total, List.length_append, List.length_cons]
          omega
        obtain ⟨closes, inner, rfl, parted⟩ := ih _ shorter further
          (fun run member => matched run (List.mem_cons_of_mem _ member))
          (fun run member => no_end run (List.mem_cons_of_mem _ member)) rfl
        refine ⟨closes, run ++ comma :: inner, by simp, fun other closing => ?_⟩
        rw [List.append_assoc, List.cons_append]
        exact .more first kind (parted other closing)

theorem Parted.behind_suffix {tokens behind : List Token} {runs : List (List Token)}
    (parted : Parted tokens runs behind) : behind <:+ tokens := by
  induction parted with
  | last inside closes => exact List.suffix_append _ _
  | @more run rest behind runs comma inside kind later ih =>
      exact ih.trans ((List.suffix_cons comma rest).trans (List.suffix_append _ _))

theorem Parted.append {tokens behind : List Token} {runs : List (List Token)}
    (parted : Parted tokens runs behind) (closed : behind ≠ []) (others : List Token) :
    Parted (tokens ++ others) runs (behind ++ others) := by
  induction parted with
  | @last run behind inside closes =>
      rw [List.append_assoc]
      refine .last (by simpa [closed] using inside) fun token front => closes token ?_
      obtain ⟨first, rest, rfl⟩ := List.exists_cons_of_ne_nil closed
      exact front
  | more inside kind later ih =>
      rw [List.append_assoc, List.cons_append]
      exact .more inside kind (ih closed)

end SchemaDrift
