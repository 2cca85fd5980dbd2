import SchemaDrift.Proofs.Confined

/-!
What a run of a list is made of: parentheses that pair up inside it, and no comma outside them. A
group that is opened inside a run is closed there, so skipping it or capturing it stays inside.
-/

namespace SchemaDrift

/-- May these tokens stand behind MATCH? The word behind it is passed over whatever it is, so that
must be a token of the run. -/
def Passable (closed : Prop) (rest : List Token) : Prop :=
  (rest = [] → ¬closed) ∧ ∀ next ∈ rest.head?, ¬next.IsBorder

/-- The rest of a run, which so many parentheses are open in. Where the run is closed it closes them
all; otherwise the statement ends before that. -/
inductive Inside (closed : Prop) : Nat → List Token → Prop where
  | finish {depth : Nat} (level : closed → depth = 0) : Inside closed depth []
  | opening {depth : Nat} {token : Token} {rest : List Token} (kind : token.kind = .leftParen)
      (later : Inside closed (depth + 1) rest) : Inside closed depth (token :: rest)
  | closing {depth : Nat} {token : Token} {rest : List Token} (kind : token.kind = .rightParen)
      (later : Inside closed depth rest) : Inside closed (depth + 1) (token :: rest)
  | comma {depth : Nat} {token : Token} {rest : List Token} (kind : token.kind = .comma)
      (later : Inside closed (depth + 1) rest) : Inside closed (depth + 1) (token :: rest)
  | plain {depth : Nat} {token : Token} {rest : List Token} (no_border : ¬token.IsBorder)
      (passable : token.kind = .keyword .MATCH → Passable closed rest)
      (later : Inside closed depth rest) : Inside closed depth (token :: rest)

namespace Inside

variable {closed : Prop} {depth : Nat} {token : Token} {rest : List Token}

theorem behind_opening (inside : Inside closed depth (token :: rest))
    (kind : token.kind = .leftParen) : Inside closed (depth + 1) rest := by
  cases inside with
  | opening _ later => exact later
  | closing other _ => simp [kind] at other
  | comma other _ => simp [kind] at other
  | plain no_border _ _ => exact absurd (.inr (.inl kind)) no_border

theorem behind_closing (inside : Inside closed depth (token :: rest))
    (kind : token.kind = .rightParen) : ∃ outer, depth = outer + 1 ∧ Inside closed outer rest := by
  cases inside with
  | opening other _ => simp [kind] at other
  | @closing outer _ _ _ later => exact ⟨outer, rfl, later⟩
  | comma other _ => simp [kind] at other
  | plain no_border _ _ => exact absurd (.inr (.inr (.inl kind))) no_border

theorem behind_comma (inside : Inside closed depth (token :: rest)) (kind : token.kind = .comma) :
    ∃ outer, depth = outer + 1 ∧ Inside closed depth rest := by
  cases inside with
  | opening other _ => simp [kind] at other
  | closing other _ => simp [kind] at other
  | @comma outer _ _ _ later => exact ⟨outer, rfl, later⟩
  | plain no_border _ _ => exact absurd (.inl kind) no_border

theorem behind_plain (inside : Inside closed depth (token :: rest)) (no_border : ¬token.IsBorder) :
    (token.kind = .keyword .MATCH → Passable closed rest) ∧ Inside closed depth rest := by
  cases inside with
  | opening kind _ => exact absurd (.inr (.inl kind)) no_border
  | closing kind _ => exact absurd (.inr (.inr (.inl kind))) no_border
  | comma kind _ => exact absurd (.inl kind) no_border
  | plain _ passable later => exact ⟨passable, later⟩

theorem group {run : List Token} (inner : Nat) (inside : Inside closed (depth + 1 + inner) run) :
    (∃ commas last left, last.kind = .rightParen ∧ Inside closed depth left ∧
        ∀ close behind, Group.read close inner (run ++ behind) = ⟨commas, last, left ++ behind⟩) ∨
      ¬closed ∧ ∀ close, ∃ commas, Group.read close inner run = ⟨commas, close, []⟩ := by
  generalize whole : depth + 1 + inner = level at inside
  induction inside generalizing inner with
  | finish at_end =>
      refine .inr ⟨fun is_closed => ?_, fun close => ⟨[], rfl⟩⟩
      have none_open := at_end is_closed
      omega
  | @opening level token rest kind later ih =>
      simpa [Group.read_cons, kind] using ih (inner + 1) (by omega)
  | @closing level token rest kind later ih =>
      by_cases innermost : inner = 0
      · obtain rfl : level = depth := by omega
        exact .inl ⟨[], token, rest, kind, later,
          fun _ _ => by simp [Group.read_cons, kind, innermost]⟩
      · simpa [Group.read_cons, kind, innermost] using ih (inner - 1) (by omega)
  | @comma level token rest kind later ih =>
      by_cases innermost : inner = 0
      · subst innermost
        rcases ih 0 whole with ⟨commas, last, left, is_closing, outside, read⟩ | ⟨is_open, read⟩
        · refine .inl ⟨token :: commas, last, left, is_closing, outside, fun close behind => ?_⟩
          simp [Group.read_cons, kind, read]
        · refine .inr ⟨is_open, fun close => ?_⟩
          obtain ⟨commas, to_end⟩ := read close
          exact ⟨token :: commas, by simp [Group.read_cons, kind, to_end]⟩
      · simpa [Group.read_cons, kind, innermost] using ih inner whole
  | @plain level token rest no_border passable later ih =>
      obtain ⟨not_comma, not_opening, not_closing, not_end⟩ := Token.not_isBorder_iff.mp no_border
      simpa [Group.read_cons, not_comma, not_opening, not_closing, not_end] using ih inner whole

end Inside

/-- The rest of a run of an element list: behind it stands no opening parenthesis. -/
structure Within (behind : Behind) (depth : Nat) (run : List Token) : Prop where
  shut : ∀ token ∈ behind.tokens.head?, token.kind ≠ .leftParen
  inside : Inside (behind.tokens ≠ []) depth run

namespace Within

variable {behind : Behind} {depth : Nat} {token : Token} {rest : List Token}

instance : Reading.Keeps (Within behind depth) :=
  ⟨fun within no_border => ⟨within.shut, (within.inside.behind_plain no_border).2⟩⟩

theorem behind_opening (within : Within behind depth (token :: rest))
    (kind : token.kind = .leftParen) : Within behind (depth + 1) rest :=
  ⟨within.shut, within.inside.behind_opening kind⟩

theorem behind_closing (within : Within behind (depth + 1) (token :: rest))
    (kind : token.kind = .rightParen) : Within behind depth rest := by
  obtain ⟨outer, same, inside⟩ := within.inside.behind_closing kind
  obtain rfl : depth = outer := by omega
  exact ⟨within.shut, inside⟩

theorem behind_comma (within : Within behind depth (token :: rest)) (kind : token.kind = .comma) :
    Within behind depth rest :=
  ⟨within.shut, (within.inside.behind_comma kind).choose_spec.2⟩

/-- At the border the parenthesis of a group is missing only because the statement ends. -/
theorem open_of_nil (within : Within behind (depth + 1) []) : behind.tokens = [] := by
  cases within.inside with
  | finish level =>
      by_contra closed
      exact absurd (level closed) (Nat.succ_ne_zero depth)

theorem border_ne_leftParen (within : Within behind depth rest) :
    behind.border.kind ≠ .leftParen := by
  rw [Behind.border]
  cases tokens : behind.tokens with
  | nil => simp [behind.ended]
  | cons token later => exact within.shut token (by simp [tokens])

theorem alone_border_ne_leftParen (behind : Behind) : behind.alone.border.kind ≠ .leftParen := by
  rcases behind.alone_border_kind with kind | kind <;> simp [kind]

theorem border_of_deep (within : Within behind (depth + 1) []) :
    behind.border.kind = .endOfInput ∧ behind.alone.border.kind = .endOfInput := by
  have nothing := within.open_of_nil
  exact ⟨behind.border_of_open nothing,
    behind.alone.border_of_open (behind.alone_open nothing)⟩

end Within

namespace Reading

variable {α : Type} {behind : Behind} {depth : Nat}

theorem expect_leftParen_confined :
    Confined behind (Within behind depth) (expect .leftParen)
      fun _ => Within behind (depth + 1) := by
  refine (expect_confined .leftParen fun within => within.border_ne_leftParen).weaken ?_
  rintro token run ⟨within, kind⟩
  exact within.behind_opening kind

theorem expect_rightParen_confined :
    Confined behind (Within behind (depth + 1)) (expect .rightParen)
      fun _ => Within behind depth := by
  refine (expect_confined .rightParen fun within => ?_).weaken ?_
  · simp [within.border_of_deep.1]
  · rintro token run ⟨within, kind⟩
    exact within.behind_closing kind

theorem eat_leftParen_confined :
    Confined behind (Within behind depth) (eat .leftParen)
      fun found => Within behind (if found then depth + 1 else depth) := by
  refine (eat_confined .leftParen fun within =>
    ⟨within.border_ne_leftParen, Within.alone_border_ne_leftParen behind⟩).weaken ?_
  rintro (_ | _) run eaten
  · exact eaten.1
  · obtain ⟨token, within, kind⟩ := eaten
    exact within.behind_opening kind

theorem eat_rightParen_confined :
    Confined behind (Within behind (depth + 1)) (eat .rightParen)
      fun found => Within behind (if found then depth else depth + 1) := by
  refine (eat_confined .rightParen fun within => ?_).weaken ?_
  · simp [within.border_of_deep]
  rintro (_ | _) run eaten
  · exact eaten.1
  · obtain ⟨token, within, kind⟩ := eaten
    exact within.behind_closing kind

theorem eat_comma_confined :
    Confined behind (Within behind (depth + 1)) (eat .comma)
      fun _ => Within behind (depth + 1) := by
  refine (eat_confined .comma fun within => ?_).weaken ?_
  · simp [within.border_of_deep]
  rintro (_ | _) run eaten
  · exact eaten.1
  · obtain ⟨token, within, kind⟩ := eaten
    exact within.behind_comma kind

theorem current_confined {next : Token → Reading α} {stop : Reading α}
    {after : α → List Token → Prop}
    (at_border : ∀ token : Token, token.IsBorder → token.kind ≠ .leftParen → next token = stop)
    (stops : Confined behind (fun run => Within behind depth run ∧ run = []) stop after)
    (later : ∀ token, Confined behind
      (fun run => Within behind depth run ∧ run.head? = some token) (next token) after) :
    Confined behind (Within behind depth) (current >>= next) after := by
  intro run within value cursor done
  have here : (current >>= next) (behind.cursor run) =
      next (behind.cursor run).current (behind.cursor run) := rfl
  have there : (current >>= next) (behind.alone.cursor run) =
      next (behind.alone.cursor run).current (behind.alone.cursor run) := rfl
  rw [here] at done
  rw [there]
  cases run with
  | nil =>
      rw [Behind.current_nil, at_border _ behind.border_isBorder within.border_ne_leftParen] at done
      rw [Behind.current_nil, at_border _ behind.alone.border_isBorder
        (Within.alone_border_ne_leftParen behind)]
      exact stops [] ⟨within, rfl⟩ value cursor done
  | cons token rest => exact later token (token :: rest) ⟨within, rfl⟩ value cursor done

theorem pass_confined :
    Confined behind
      (fun run => Within behind depth run ∧ ∃ token ∈ run.head?, ¬token.IsBorder)
      (discard advance) fun _ => Within behind depth := by
  refine discard_advance_confined.strengthen ?_
  rintro run ⟨within, token, front, no_border⟩
  obtain ⟨rest, rfl⟩ := List.head?_eq_some_iff.mp front
  exact ⟨token, rest, rfl, Keeps.keep within no_border⟩

theorem look_leftParen_confined :
    Confined behind (Within behind depth) (look (·.sees .leftParen)) fun found run =>
      Within behind depth run ∧ (found = true → ∃ token ∈ run.head?, token.kind = .leftParen) := by
  refine (look_confined fun run within => ?_).weaken ?_
  · cases run with
    | nil =>
        simp [Cursor.sees, within.border_ne_leftParen, Within.alone_border_ne_leftParen behind]
    | cons token rest => rfl
  · rintro found run ⟨within, rfl⟩
    refine ⟨within, fun sees => ?_⟩
    cases run with
    | nil => simp [Cursor.sees, within.border_ne_leftParen] at sees
    | cons token rest => exact ⟨token, rfl, by simpa [Cursor.sees] using sees⟩

theorem discard_group_confined :
    Confined behind (Within behind (depth + 1)) (discard group) fun _ => Within behind depth := by
  intro run within value cursor done
  obtain ⟨-, rfl⟩ := EStateM.Result.ok.inj done
  have alone : discard group (behind.alone.cursor run) = .ok () { behind.alone.cursor run with
      ahead := (Group.read behind.alone.close 0 (run ++ behind.alone.tokens)).behind } := rfl
  rcases within.inside.group 0 with ⟨commas, last, left, _, inside, read⟩ | ⟨is_open, read⟩
  · refine ⟨left, ⟨within.shut, inside⟩, ?_, ?_⟩
    · simp only [Behind.cursor, read]
    · rw [alone, read]
      rfl
  · have nothing : behind.tokens = [] := by simpa using is_open
    refine ⟨[], ⟨within.shut, .finish fun closed => absurd closed is_open⟩, ?_, ?_⟩
    · obtain ⟨commas, to_end⟩ := read behind.close
      simp only [Behind.cursor, nothing, List.append_nil, to_end]
    · obtain ⟨commas, to_end⟩ := read behind.alone.close
      rw [alone, behind.alone_open nothing, List.append_nil, to_end]
      simp only [Behind.cursor, behind.alone_open nothing, List.append_nil]

theorem skipGroup_confined :
    Confined behind
      (fun run => Within behind depth run ∧ ∃ token ∈ run.head?, token.kind = .leftParen)
      skipGroup fun _ => Within behind depth := by
  rw [skipGroup]
  refine (discard_advance_confined.strengthen ?_).bind fun _ => discard_group_confined
  rintro run ⟨within, token, front, kind⟩
  obtain ⟨rest, rfl⟩ := List.head?_eq_some_iff.mp front
  exact ⟨token, rest, rfl, within.behind_opening kind⟩

theorem expression_eq (cursor : Cursor) :
    expression cursor =
      let group := Group.read cursor.close 0 cursor.next.ahead
      if cursor.current.kind = .leftParen then
        if group.last.kind = .rightParen then
          .ok (Text.normalizeSpacing
              (cursor.slice cursor.current.span.stop group.last.span.start))
            { cursor with ahead := group.behind }
        else .error ⟨.token .rightParen, group.last⟩ { cursor with ahead := group.behind }
      else .error ⟨.token .leftParen, cursor.current⟩ cursor := by
  by_cases opens : cursor.current.kind = .leftParen
  · have opening : expect .leftParen cursor = .ok cursor.current cursor.next := by
      simp [expect, Cursor.sees, opens]
    have read : group cursor.next = .ok (Group.read cursor.close 0 cursor.next.ahead)
        { cursor with ahead := (Group.read cursor.close 0 cursor.next.ahead).behind } := rfl
    by_cases closes : (Group.read cursor.close 0 cursor.next.ahead).last.kind = .rightParen
    · have pair : closedGroup cursor =
          .ok (cursor.current, Group.read cursor.close 0 cursor.next.ahead)
            { cursor with ahead := (Group.read cursor.close 0 cursor.next.ahead).behind } := by
        rw [closedGroup, bind_of_ok opening, bind_of_ok read]
        simp [Group.closed, closes]
        rfl
      rw [expression, bind_of_ok pair]
      simp only [opens, closes, ↓reduceIte]
      rfl
    · have lacks : closedGroup cursor =
          .error ⟨.token .rightParen, (Group.read cursor.close 0 cursor.next.ahead).last⟩
            { cursor with ahead := (Group.read cursor.close 0 cursor.next.ahead).behind } := by
        rw [closedGroup, bind_of_ok opening, bind_of_ok read]
        simp [Group.closed, closes]
        rfl
      rw [expression, bind_of_error lacks]
      simp only [opens, closes, ↓reduceIte]
  · have missing : closedGroup cursor = .error ⟨.token .leftParen, cursor.current⟩ cursor := by
      rw [closedGroup]
      exact bind_of_error (by simp [expect, Cursor.sees, opens]) _
    rw [expression, bind_of_error missing]
    simp only [opens, ↓reduceIte]

theorem expression_confined :
    Confined behind (Within behind depth) expression fun _ => Within behind depth := by
  intro run within value cursor done
  rw [expression_eq] at done
  dsimp only at done
  split at done
  next opens =>
    cases run with
    | nil => exact absurd opens within.border_ne_leftParen
    | cons opening rest =>
        have deeper := within.behind_opening opens
        -- the group is closed inside the run, or it goes on to the end of input
        rcases deeper.inside.group 0 with
          ⟨commas, last, left, closes, inside, read⟩ | ⟨is_open, read⟩
        · have read_on (behind : Behind) : Group.read (behind.cursor (opening :: rest)).close 0
              (behind.cursor (opening :: rest)).next.ahead =
                ⟨commas, last, left ++ behind.tokens⟩ :=
            read _ _
          rw [read_on] at done
          dsimp only at done
          rw [if_pos closes] at done
          obtain ⟨rfl, rfl⟩ := EStateM.Result.ok.inj done
          refine ⟨left, ⟨within.shut, inside⟩, rfl, ?_⟩
          have also_opens : (behind.alone.cursor (opening :: rest)).current.kind = .leftParen :=
            opens
          rw [expression_eq, read_on]
          dsimp only
          rw [if_pos also_opens, if_pos closes]
          rfl
        · have nothing : behind.tokens = [] := by simpa using is_open
          obtain ⟨commas, to_end⟩ := read behind.close
          have here : Group.read (behind.cursor (opening :: rest)).close 0
              (behind.cursor (opening :: rest)).next.ahead = ⟨commas, behind.close, []⟩ := by
            simpa [Behind.cursor, Cursor.next, nothing] using to_end
          rw [here] at done
          simp [behind.ended] at done
  next => simp at done

end Reading

end SchemaDrift
