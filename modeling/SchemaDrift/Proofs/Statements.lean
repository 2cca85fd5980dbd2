import SchemaDrift.Proofs.Place
import SchemaDrift.Statement

/-!
How a statement ends. It is cut off the front of the tokens to come in one of three ways: behind a
semicolon, before a CREATE, or at the end of the text. What holds of one cut holds, by induction on
the run, of every statement of a text.
-/

namespace SchemaDrift

namespace Statement

/-- Tokens that neither end a statement nor start one. -/
def Plain (tokens : List Token) : Prop :=
  ∀ token ∈ tokens, token.kind ≠ .semicolon ∧ token.kind ≠ .keyword .CREATE

theorem Plain.no_semicolon {first : Token} {inner : List Token} (plain : Plain inner)
    (no_mark : first.kind ≠ .semicolon) : ∀ token ∈ first :: inner, token.kind ≠ .semicolon := by
  intro token member
  rcases List.mem_cons.mp member with rfl | later
  · exact no_mark
  · exact (plain token later).1

/-- The ways a statement that goes on with some tokens ends: those tokens, the end put behind them,
and the tokens left. `finish` is the end of the text. -/
inductive Ends (finish : Token) : List Token → Token → List Token → Prop where
  | semicolon {inner : List Token} {mark : Token} (plain : Plain inner)
      (is_mark : mark.kind = .semicolon) (behind : List Token) :
      Ends finish (inner ++ [mark]) (endAfter mark) behind
  | create {inner : List Token} {next : Token} (plain : Plain inner)
      (is_create : next.kind = .keyword .CREATE) (behind : List Token) :
      Ends finish inner (endBefore next) (next :: behind)
  | finish {inner : List Token} (plain : Plain inner) : Ends finish inner finish []

/-- One statement cut off the front. Its first token may be anything, and a semicolon there is all
of it. -/
inductive Cut (finish : Token) : List Token → Token → List Token → Prop where
  | alone {mark : Token} (is_mark : mark.kind = .semicolon) (behind : List Token) :
      Cut finish [mark] (endAfter mark) behind
  | started {first close : Token} {tokens behind : List Token} (no_mark : first.kind ≠ .semicolon)
      (ends : Ends finish tokens close behind) : Cut finish (first :: tokens) close behind

/-- The tokens of a statement that has begun and not ended, or none. -/
inductive Begun : List Token → Prop where
  | none : Begun []
  | some {first : Token} {inner : List Token} (no_mark : first.kind ≠ .semicolon)
      (plain : Plain inner) : Begun (first :: inner)

namespace Begun

variable {pending : List Token} {token : Token}

theorem push (begun : Begun pending) (no_mark : token.kind ≠ .semicolon)
    (no_create : token.kind = .keyword .CREATE → pending = []) : Begun (pending ++ [token]) := by
  cases begun with
  | none => exact .some no_mark (by simp [Plain])
  | @some first inner first_no_mark plain =>
      refine .some first_no_mark ?_
      intro other member
      rcases List.mem_append.mp member with earlier | last
      · exact plain other earlier
      · obtain rfl := List.mem_singleton.mp last
        exact ⟨no_mark, fun is_create => by simpa using no_create is_create⟩

theorem cut_create (begun : Begun pending) (nonempty : pending ≠ [])
    (is_create : token.kind = .keyword .CREATE) (finish : Token) (behind : List Token) :
    Cut finish pending (endBefore token) (token :: behind) := by
  cases begun with
  | none => contradiction
  | some no_mark plain => exact .started no_mark (.create plain is_create behind)

theorem cut_semicolon (begun : Begun pending) (is_mark : token.kind = .semicolon) (finish : Token)
    (behind : List Token) : Cut finish (pending ++ [token]) (endAfter token) behind := by
  cases begun with
  | none => exact .alone is_mark behind
  | some no_mark plain => exact .started no_mark (.semicolon plain is_mark behind)

theorem cut_finish (begun : Begun pending) (nonempty : pending ≠ []) (finish : Token) :
    Cut finish pending finish [] := by
  cases begun with
  | none => contradiction
  | some no_mark plain => exact .started no_mark (.finish plain)

end Begun

namespace Cut

variable {finish close : Token} {tokens behind : List Token}

theorem nonempty (cut : Cut finish tokens close behind) : tokens ≠ [] := by
  cases cut <;> simp

theorem create_first (cut : Cut finish tokens close behind) :
    ∀ token ∈ tokens.tail, token.kind ≠ .keyword .CREATE := by
  cases cut with
  | alone is_mark => simp
  | started no_mark ends =>
      intro token member
      rw [List.tail_cons] at member
      cases ends with
      | semicolon plain is_mark =>
          rcases List.mem_append.mp member with inner | last
          · exact (plain token inner).2
          · obtain rfl := List.mem_singleton.mp last
            simp [is_mark]
      | create plain is_create => exact (plain token member).2
      | finish plain => exact (plain token member).2

theorem semicolon_last (cut : Cut finish tokens close behind) :
    ∀ token ∈ tokens.dropLast, token.kind ≠ .semicolon := by
  cases cut with
  | alone is_mark => simp
  | @started first _ tokens _ no_mark ends =>
      intro token member
      cases ends with
      | semicolon plain is_mark =>
          rw [← List.cons_append, List.dropLast_concat] at member
          exact plain.no_semicolon no_mark token member
      | create plain is_create =>
          exact plain.no_semicolon no_mark token ((List.dropLast_sublist _).subset member)
      | finish plain =>
          exact plain.no_semicolon no_mark token ((List.dropLast_sublist _).subset member)

theorem closing (cut : Cut finish tokens close behind) :
    (∃ mark, tokens.getLast? = some mark ∧ mark.kind = .semicolon ∧ close = endAfter mark) ∨
      (∀ last, tokens.getLast? = some last → last.kind ≠ .semicolon) ∧
        ((∃ next rest, behind = next :: rest ∧ next.kind = .keyword .CREATE ∧
            close = endBefore next) ∨
          behind = [] ∧ close = finish) := by
  cases cut with
  | alone is_mark => exact .inl ⟨_, rfl, is_mark, rfl⟩
  | @started first _ tokens _ no_mark ends =>
      have of_plain {inner : List Token} (plain : Plain inner) (last : Token)
          (found : (first :: inner).getLast? = some last) : last.kind ≠ .semicolon :=
        plain.no_semicolon no_mark last (List.mem_of_getLast? found)
      cases ends with
      | @semicolon inner mark plain is_mark =>
          refine .inl ⟨mark, ?_, is_mark, rfl⟩
          rw [← List.cons_append, List.getLast?_concat]
      | create plain is_create => exact .inr ⟨of_plain plain, .inl ⟨_, _, rfl, is_create, rfl⟩⟩
      | finish plain => exact .inr ⟨of_plain plain, .inr ⟨rfl, rfl⟩⟩

end Cut

/-- A run of cuts, from some tokens down to none. -/
inductive Cuts (source : List Char) (finish : Token) : List Token → List Statement → Prop where
  | none : Cuts source finish [] []
  | more {tokens behind : List Token} {close : Token} {statements : List Statement}
      (cut : Cut finish tokens close behind) (rest : Cuts source finish behind statements) :
      Cuts source finish (tokens ++ behind) (⟨source, tokens, close⟩ :: statements)

namespace Cuts

variable {source : List Char} {finish : Token} {ahead : List Token} {statements : List Statement}

theorem joined (cuts : Cuts source finish ahead statements) :
    statements.flatMap Statement.tokens = ahead := by
  induction cuts with
  | none => rfl
  | more cut rest ih => rw [List.flatMap_cons, ih]

theorem head? (cuts : Cuts source finish ahead statements) :
    ahead.head? = statements.head?.map Statement.first := by
  cases cuts with
  | none => rfl
  | @more tokens behind close statements cut rest =>
      obtain ⟨first, others, rfl⟩ := List.exists_cons_of_ne_nil cut.nonempty
      rfl

theorem getElem? (cuts : Cuts source finish ahead statements) {index : Nat} {statement : Statement}
    (found : statements[index]? = some statement) :
    ∃ before behind, ahead = before ++ statement.tokens ++ behind ∧ statement.source = source ∧
      Cut finish statement.tokens statement.close behind ∧
      behind.head? = statements[index + 1]?.map Statement.first := by
  induction cuts generalizing index with
  | none => simp at found
  | @more tokens behind close statements cut rest ih =>
      cases index with
      | zero =>
          obtain rfl : ⟨source, tokens, close⟩ = statement := by simpa using found
          refine ⟨[], behind, rfl, rfl, cut, ?_⟩
          rw [rest.head?, List.getElem?_cons_succ, ← List.head?_eq_getElem?]
      | succ index =>
          obtain ⟨before, after, parts, same_source, cut, next⟩ := ih found
          refine ⟨tokens ++ before, after, ?_, same_source, cut, next⟩
          rw [parts]
          simp only [List.append_assoc]

end Cuts

end Statement

end SchemaDrift
