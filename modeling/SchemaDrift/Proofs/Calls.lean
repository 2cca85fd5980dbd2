import SchemaDrift.Proofs.Statements

/-!
The splitter keeps every token. A call reads on until it hands out a statement, or comes to the end
of input; what is pending and what is still to come are, all along, the tokens that statements are
still to be made of. So every call makes one cut, the calls make a run of cuts, and after the end
there is no statement any more.
-/

namespace SchemaDrift

namespace Feed

variable {feed after : Feed} {token : Token}

def visible (feed : Feed) : List Token :=
  if feed.ended then [] else feed.ahead.filter (!·.isDirective)

def WellFormed (feed : Feed) : Prop :=
  ∀ token ∈ feed.ahead, token.kind ≠ .endOfInput

theorem next?_close (given : feed.next? = some (token, after)) : after.close = feed.close := by
  obtain ⟨_, ⟨_, _, rfl⟩ | ⟨_, _, rfl⟩⟩ := next?_eq_some given <;> rfl

theorem next?_wellFormed (wellFormed : feed.WellFormed) (given : feed.next? = some (token, after)) :
    after.WellFormed := by
  obtain ⟨_, ⟨_, _, rfl⟩ | ⟨rest, ahead, rfl⟩⟩ := next?_eq_some given
  · exact wellFormed
  · intro other member
    exact wellFormed other (ahead ▸ List.mem_cons_of_mem token member)

theorem next?_ended (given : feed.next? = some (token, after)) (is_end : token.kind = .endOfInput) :
    after.ended = true := by
  obtain ⟨_, ⟨_, _, rfl⟩ | ⟨_, _, rfl⟩⟩ := next?_eq_some given
  · rfl
  · simp [Token.isEnd, is_end]

theorem next?_end (wellFormed : feed.WellFormed) (given : feed.next? = some (token, after))
    (is_end : token.kind = .endOfInput) : feed.visible = [] ∧ token = feed.close := by
  obtain ⟨_, ⟨ahead, rfl, _⟩ | ⟨rest, ahead, _⟩⟩ := next?_eq_some given
  · exact ⟨by simp [visible, ahead], rfl⟩
  · exact absurd is_end (wellFormed token (by simp [ahead]))

theorem next?_token (given : feed.next? = some (token, after)) (no_end : token.kind ≠ .endOfInput) :
    feed.visible = [token].filter (!·.isDirective) ++ after.visible ∧ after.ended = false := by
  obtain ⟨ended, ⟨_, rfl, _⟩ | ⟨rest, ahead, rfl⟩⟩ := next?_eq_some given
  · exact absurd feed.closed no_end
  · have goes_on : token.isEnd = false := by simp [Token.isEnd, no_end]
    refine ⟨?_, goes_on⟩
    simp only [visible, ended, ahead, goes_on, Bool.false_eq_true, ↓reduceIte]
    exact List.filter_append [token] rest

theorem ended_of_next?_none (none : feed.next? = none) : feed.ended = true := by
  by_contra open_still
  simp [next?, open_still] at none

end Feed

namespace Splitter

open Statement

def ahead (splitter : Splitter) : List Token :=
  splitter.pending.toList ++ splitter.feed.visible

/-- What holds between calls and all along a call. -/
structure WellFormed (splitter : Splitter) : Prop where
  feed : splitter.feed.WellFormed
  begun : Begun splitter.pending.toList
  idle : splitter.feed.ended = true → splitter.pending.toList = []

/-- The call cuts the statement off the front of the tokens ahead. -/
structure CutsOff (splitter : Splitter) (statement : Statement) (after : Splitter) : Prop where
  source : statement.source = splitter.source
  parts : splitter.ahead = statement.tokens ++ after.ahead
  cut : Cut splitter.feed.close statement.tokens statement.close after.ahead
  wellFormed : after.WellFormed
  same_source : after.source = splitter.source
  same_close : after.feed.close = splitter.feed.close

inductive Outcome (splitter : Splitter) : Option Statement × Splitter → Prop where
  | statement {statement : Statement} {after : Splitter} (cuts : CutsOff splitter statement after) :
      Outcome splitter (some statement, after)
  | finished {after : Splitter} (nothing : splitter.ahead = []) (ended : after.feed.ended = true)
      (wellFormed : after.WellFormed) : Outcome splitter (none, after)

/-- A token that is dropped or put among the pending ones leaves the outcome of the call as it is. -/
theorem Outcome.of_ahead {splitter later : Splitter} {result : Option Statement × Splitter}
    (outcome : Outcome later result) (source : later.source = splitter.source)
    (close : later.feed.close = splitter.feed.close) (ahead : splitter.ahead = later.ahead) :
    Outcome splitter result := by
  cases outcome with
  | statement cuts =>
      refine .statement ⟨cuts.source.trans source, ahead.trans cuts.parts, close ▸ cuts.cut,
        cuts.wellFormed, ?_, ?_⟩
      · exact cuts.same_source.trans source
      · exact cuts.same_close.trans close
  | finished nothing ended wellFormed => exact .finished (ahead.trans nothing) ended wellFormed

section Call

variable {source : List Char} {feed after : Feed} {pending : Array Token} {token : Token}

theorem dropped (wellFormed : WellFormed ⟨source, feed, pending⟩)
    (given : feed.next? = some (token, after)) (is_directive : token.kind = .directive) :
    WellFormed ⟨source, after, pending⟩ ∧
      ahead ⟨source, feed, pending⟩ = ahead ⟨source, after, pending⟩ := by
  obtain ⟨visible, goes_on⟩ := Feed.next?_token given (by simp [is_directive])
  constructor
  · exact ⟨Feed.next?_wellFormed wellFormed.feed given, wellFormed.begun, by simp [goes_on]⟩
  · simp [ahead, visible, Token.isDirective, is_directive]

theorem visible_of_seen (given : feed.next? = some (token, after)) (no_end : token.kind ≠ .endOfInput)
    (no_directive : token.kind ≠ .directive) : feed.visible = token :: after.visible := by
  obtain ⟨visible, _⟩ := Feed.next?_token given no_end
  simpa [Token.isDirective, no_directive] using visible

theorem pushed (wellFormed : WellFormed ⟨source, feed, pending⟩)
    (given : feed.next? = some (token, after)) (no_end : token.kind ≠ .endOfInput)
    (no_directive : token.kind ≠ .directive) (no_mark : token.kind ≠ .semicolon)
    (no_create : token.kind = .keyword .CREATE → pending.toList = []) :
    WellFormed ⟨source, after, pending.push token⟩ ∧
      ahead ⟨source, feed, pending⟩ = ahead ⟨source, after, pending.push token⟩ := by
  obtain ⟨_, goes_on⟩ := Feed.next?_token given no_end
  constructor
  · refine ⟨Feed.next?_wellFormed wellFormed.feed given, ?_, by simp [goes_on]⟩
    rw [Array.toList_push]
    exact wellFormed.begun.push no_mark no_create
  · simp [ahead, visible_of_seen given no_end no_directive]

end Call

theorem next_outcome {splitter : Splitter} (wellFormed : splitter.WellFormed) :
    Outcome splitter splitter.next := by
  -- The induction is on the tokens that the call reads; one that is only dropped or pushed hands the
  -- claim on to the rest of the call.
  fun_induction next splitter with
  | case1 splitter given =>
      have ended := Feed.ended_of_next?_none given
      have nothing : splitter.ahead = [] := by
        simp [ahead, Feed.visible, ended, wellFormed.idle ended]
      exact .finished nothing ended wellFormed
  | case2 token after source feed pending given is_directive ih =>
      obtain ⟨later, same⟩ := dropped wellFormed given is_directive
      exact (ih later).of_ahead rfl (Feed.next?_close given) same
  | case3 token after source feed pending given no_directive starts =>
      obtain ⟨is_create, begun⟩ := starts
      have nonempty : pending.toList ≠ [] := by simpa using begun
      have no_end : token.kind ≠ .endOfInput := by simp [is_create]
      have visible := visible_of_seen given no_end no_directive
      have goes_on := (Feed.next?_token given no_end).2
      refine .statement ⟨rfl, by simp [ahead, visible], ?_, ?_, rfl, Feed.next?_close given⟩
      · exact wellFormed.begun.cut_create nonempty is_create feed.close after.visible
      · have only_create : Begun [token] := .some (by simp [is_create]) (by simp [Plain])
        exact ⟨Feed.next?_wellFormed wellFormed.feed given, only_create, by simp [goes_on]⟩
  | case4 token after source feed pending given no_directive no_start is_mark =>
      have visible := visible_of_seen given (by simp [is_mark]) no_directive
      refine .statement ⟨rfl, by simp [ahead, visible], ?_, ?_, rfl, Feed.next?_close given⟩
      · rw [Array.toList_push]
        exact wellFormed.begun.cut_semicolon is_mark feed.close after.visible
      · exact ⟨Feed.next?_wellFormed wellFormed.feed given, .none, fun _ => rfl⟩
  | case5 token after source feed pending given no_directive no_start no_mark is_end empty =>
      have none_pending : pending.toList = [] := by simpa using empty
      have nothing : ahead ⟨source, feed, pending⟩ = [] := by
        simp [ahead, none_pending, (Feed.next?_end wellFormed.feed given is_end).1]
      have kept : Feed.WellFormed after := Feed.next?_wellFormed wellFormed.feed given
      exact .finished nothing (Feed.next?_ended given is_end)
        ⟨kept, wellFormed.begun, fun _ => none_pending⟩
  | case6 token after source feed pending given no_directive no_start no_mark is_end begun =>
      have nonempty : pending.toList ≠ [] := by simpa using begun
      obtain ⟨visible, rfl⟩ := Feed.next?_end wellFormed.feed given is_end
      have nothing : after.visible = [] := by simp [Feed.visible, Feed.next?_ended given is_end]
      refine .statement ⟨rfl, by simp [ahead, visible, nothing], ?_, ?_, rfl, Feed.next?_close given⟩
      · simpa [ahead, nothing] using wellFormed.begun.cut_finish nonempty feed.close
      · exact ⟨Feed.next?_wellFormed wellFormed.feed given, .none, fun _ => rfl⟩
  | case7 token after source feed pending given no_directive no_start no_mark no_end ih =>
      have no_create : token.kind = .keyword .CREATE → pending.toList = [] := by
        intro is_create
        simpa [is_create] using no_start
      obtain ⟨later, same⟩ := pushed wellFormed given no_end no_directive no_mark no_create
      exact (ih later).of_ahead rfl (Feed.next?_close given) same

theorem next_of_ended {splitter : Splitter} (ended : splitter.feed.ended = true) :
    splitter.next = (none, splitter) := by
  have given : splitter.feed.next? = none := by simp [Feed.next?, ended]
  rw [next]
  split
  · rfl
  next token feed other => simp [given] at other

theorem toList_of_none {splitter : Splitter} (none : splitter.next.1 = none) : splitter.toList = [] := by
  rw [toList]
  split
  · rfl
  next statement after taken => simp [next?_eq_some_iff.mp taken] at none

theorem toList_of_some {splitter after : Splitter} {statement : Statement}
    (call : splitter.next = (some statement, after)) :
    splitter.toList = statement :: after.toList := by
  have taken := next?_eq_some_iff.mpr call
  rw [toList]
  split
  next ended => simp [taken] at ended
  next other state given =>
    obtain ⟨rfl, rfl⟩ := Prod.mk.inj (Option.some.inj (taken.symm.trans given))
    rfl

theorem toList_cuts {splitter : Splitter} (wellFormed : splitter.WellFormed) :
    Cuts splitter.source splitter.feed.close splitter.ahead splitter.toList := by
  induction splitter using Splitter.toList.induct with
  | case1 splitter ended =>
      have none := next?_eq_none_iff.mp ended
      have outcome := next_outcome wellFormed
      generalize splitter.next = result at none outcome
      cases outcome with
      | statement cuts => simp at none
      | finished nothing _ _ =>
          rw [toList_of_none (next?_eq_none_iff.mp ended), nothing]
          exact .none
  | case2 splitter statement after taken ih =>
      have call := next?_eq_some_iff.mp taken
      have outcome := next_outcome wellFormed
      rw [call] at outcome
      cases outcome with
      | statement cuts =>
          have later := ih cuts.wellFormed
          rw [cuts.same_source, cuts.same_close] at later
          obtain ⟨source, tokens, close⟩ := statement
          obtain rfl : source = splitter.source := cuts.source
          rw [toList_of_some call, cuts.parts]
          exact .more cuts.cut later

theorem ofText_wellFormed (text : String) : (ofText text).WellFormed where
  feed _ member := Token.scan_not_end member
  begun := .none
  idle _ := rfl

theorem ofText_cuts (text : String) :
    Cuts text.toList (Token.endOf text) ((Token.scanText text).filter (!·.isDirective))
      (Statement.ofText text) :=
  toList_cuts (ofText_wellFormed text)

def afterCalls : Nat → Splitter → Splitter
  | 0, splitter => splitter
  | calls + 1, splitter => afterCalls calls splitter.next.2

/-- The calls give the statements one by one, and nothing from then on. -/
theorem next_afterCalls {splitter : Splitter} (wellFormed : splitter.WellFormed) (calls : Nat) :
    (afterCalls calls splitter).next.1 = splitter.toList[calls]? := by
  induction calls generalizing splitter with
  | zero =>
      rw [afterCalls]
      cases call : splitter.next with
      | mk handed after =>
          cases handed with
          | none => simp [toList_of_none (show splitter.next.1 = none by rw [call])]
          | some statement => simp [toList_of_some call]
  | succ calls ih =>
      rw [afterCalls]
      have outcome := next_outcome wellFormed
      generalize call : splitter.next = result at outcome
      cases outcome with
      | @statement statement after cuts =>
          rw [ih cuts.wellFormed, toList_of_some call]
          rfl
      | @finished after nothing ended wellFormed =>
          -- the end of input has been handed out, and the next call starts behind it
          have still_none : after.next.1 = none := by rw [next_of_ended ended]
          have none : splitter.next.1 = none := by rw [call]
          rw [ih wellFormed, toList_of_none still_none, toList_of_none none]
          simp

theorem next_stays_none {splitter : Splitter} (wellFormed : splitter.WellFormed) {calls later : Nat}
    (order : calls ≤ later) (ended : (afterCalls calls splitter).next.1 = none) :
    (afterCalls later splitter).next.1 = none := by
  rw [next_afterCalls wellFormed, List.getElem?_eq_none_iff] at ended
  rw [next_afterCalls wellFormed, List.getElem?_eq_none (Nat.le_trans ended order)]

end Splitter

end SchemaDrift
