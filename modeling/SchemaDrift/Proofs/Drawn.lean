import SchemaDrift.Proofs.Capture
import SchemaDrift.Proofs.Forward

/-!
What a reading makes of the tokens that it takes. In a text each reading takes a run of tokens off, and what it gives
is told of that run; the runs of readings that follow each other are put together. So an expression is told of the
very parentheses that it was read from.
-/

namespace SchemaDrift

structure Cursor.Over (text : String) (cursor : Cursor) : Prop where
  source : cursor.source = text.toList
  close : cursor.close = Token.endOf text
  tokens : ∃ earlier, Token.visible .start text.toList = earlier ++ cursor.ahead

namespace Cursor.Over

variable {text : String} {cursor : Cursor}

theorem start (text : String) : (Cursor.ofText text).Over text :=
  ⟨rfl, rfl, [], rfl⟩

theorem ended (within : cursor.Over text) : cursor.close.kind = .endOfInput := by
  rw [within.close]
  rfl

theorem past {run rest : List Token} (within : cursor.Over text) (parts : cursor.ahead = run ++ rest) :
    Cursor.Over text { cursor with ahead := rest } := by
  obtain ⟨source, close, earlier, tokens⟩ := within
  exact ⟨source, close, earlier ++ run, by rw [tokens, parts, List.append_assoc]⟩

theorem next (within : cursor.Over text) (no_end : cursor.current.kind ≠ .endOfInput) :
    cursor.ahead = [cursor.current] ++ cursor.next.ahead ∧ cursor.next.Over text := by
  have ahead : cursor.ahead = [cursor.current] ++ cursor.next.ahead := Cursor.ahead_eq within.ended rfl no_end
  exact ⟨ahead, within.past ahead⟩

end Cursor.Over

def Flat (run : List Token) : Prop :=
  ∀ token ∈ run, ¬token.IsParenthesis

theorem Flat.append {first second : List Token} (one : Flat first) (other : Flat second) : Flat (first ++ second) :=
  List.forall_mem_append.mpr ⟨one, other⟩

theorem flat_of_kinds {run : List Token} {kinds : List TokenKind} (same : run.map Token.kind = kinds)
    (others : ∀ kind ∈ kinds, kind ≠ .leftParen ∧ kind ≠ .rightParen) : Flat run := by
  subst same
  intro token member parenthesis
  obtain ⟨no_opening, no_closing⟩ := others token.kind (List.mem_map_of_mem member)
  exact parenthesis.elim no_opening no_closing

theorem flat_of_keyword {token : Token} {word : Keyword} (kind : token.kind = .keyword word) : Flat [token] :=
  flat_of_kinds rfl (by simp [kind])

/-- This holds of the first parentheses of a run, with what stands between them, and of the tokens behind. -/
def FirstGroup (holds : List Token → List Token → Prop) (run : List Token) : Prop :=
  ∃ front group rest, run = front ++ (group ++ rest) ∧ Flat front ∧ holds group rest

namespace FirstGroup

variable {holds : List Token → List Token → Prop} {run : List Token}

theorem whole (held : holds run []) : FirstGroup holds run :=
  ⟨[], run, [], by simp, List.forall_mem_nil _, held⟩

theorem vacuous (held : ∀ rest, holds [] rest) : FirstGroup holds run :=
  ⟨[], [], run, rfl, List.forall_mem_nil _, held run⟩

theorem behind {front : List Token} (flat : Flat front) (first : FirstGroup holds run) :
    FirstGroup holds (front ++ run) := by
  obtain ⟨between, group, rest, rfl, also_flat, held⟩ := first
  exact ⟨front ++ between, group, rest, by simp, flat.append also_flat, held⟩

end FirstGroup

/-- Items between commas, each made of its own run. -/
inductive Row {α : Type} (made : List Token → α → Prop) : List Token → List α → Prop where
  | first {run : List Token} {value : α} (one : made run value) : Row made run [value]
  | next {front run : List Token} {comma : Token} {values : List α} {value : α}
      (earlier : Row made front values) (kind : comma.kind = .comma) (one : made run value) :
      Row made (front ++ comma :: run) (values ++ [value])

/-- Such items between parentheses. -/
def Bracketed {α : Type} (made : List Token → α → Prop) (group : List Token) (values : List α) : Prop :=
  ∃ opening items closing, group = opening :: (items ++ [closing]) ∧ opening.kind = .leftParen ∧
    closing.kind = .rightParen ∧ Row made items values

/-- In its place in the text the run is what the reading takes, and the value what it gives. -/
def Reading.Reads {α : Type} (reading : Reading α) (text : String) (run : List Token) (value : α) : Prop :=
  ∃ earlier later, Token.visible .start text.toList = earlier ++ (run ++ later) ∧
    reading ⟨text.toList, run ++ later, Token.endOf text⟩ = .ok value ⟨text.toList, later, Token.endOf text⟩

namespace Reading

variable {α β σ : Type} {text : String} {token : Token}

/-- With the token in front, the reading takes a run off the tokens of the text, and makes the value of it. -/
def DrawsFrom (text : String) (token : Token) (reading : Reading α) (made : List Token → α → Prop) : Prop :=
  ∀ cursor, cursor.Over text → cursor.current = token → ∀ value after, reading cursor = .ok value after →
    after.Over text ∧ ∃ run, cursor.ahead = run ++ after.ahead ∧ made run value

def Draws (text : String) (reading : Reading α) (made : List Token → α → Prop) : Prop :=
  ∀ token, DrawsFrom text token reading made

namespace DrawsFrom

variable {reading : Reading α} {made : List Token → α → Prop}

theorem weaken {weaker : List Token → α → Prop} (draws : DrawsFrom text token reading made)
    (implied : ∀ run value, made run value → weaker run value) : DrawsFrom text token reading weaker := by
  intro cursor within front value after done
  obtain ⟨also, run, parts, one⟩ := draws cursor within front value after done
  exact ⟨also, run, parts, implied run value one⟩

theorem bind {next : α → Reading β} {final : List Token → β → Prop} (start : DrawsFrom text token reading made)
    (later : ∀ run value, made run value →
      Draws text (next value) fun further result => final (run ++ further) result) :
    DrawsFrom text token (reading >>= next) final := by
  intro cursor within front value after done
  obtain ⟨first, middle, one, two⟩ := ok_of_bind_ok done
  obtain ⟨between, run, parts, given⟩ := start cursor within front first middle one
  obtain ⟨behind, further, others, result⟩ := later run first given _ middle between rfl value after two
  exact ⟨behind, run ++ further, by rw [parts, others, List.append_assoc], result⟩

theorem clause {final : List Token → β → Prop} {make : α → β} (start : DrawsFrom text token reading made)
    (makes : ∀ run value, made run value → final run (make value)) :
    DrawsFrom text token (do return make (← reading)) final := by
  refine start.bind fun run value given _ cursor within _ result after done => ?_
  obtain ⟨rfl, rfl⟩ := EStateM.Result.ok.inj done
  exact ⟨within, [], rfl, by simpa using makes run value given⟩

theorem ite {condition : Prop} [Decidable condition] {other : Reading α}
    (first : DrawsFrom text token reading made) (second : DrawsFrom text token other made) :
    DrawsFrom text token (if condition then reading else other) made := by
  split
  · exact first
  · exact second

theorem passing (no_end : token.kind ≠ .endOfInput)
    (later : Draws text reading fun run value => made (token :: run) value) :
    DrawsFrom text token (discard advance >>= fun _ => reading) made := by
  rintro cursor within rfl value after done
  obtain ⟨ahead, behind⟩ := within.next no_end
  obtain ⟨further, run, parts, one⟩ := later _ cursor.next behind rfl value after done
  exact ⟨further, cursor.current :: run, by rw [ahead, parts]; rfl, one⟩

end DrawsFrom

namespace Draws

variable {reading : Reading α} {made : List Token → α → Prop}

theorem pure {value : α} (holds : made [] value) : Draws text (Pure.pure value) made := by
  intro token cursor within _ result after done
  obtain ⟨rfl, rfl⟩ := EStateM.Result.ok.inj done
  exact ⟨within, [], rfl, holds⟩

theorem fail (expected : Expected) : Draws text (Reading.fail expected) made := by
  intro token cursor _ _ value after done
  contradiction

theorem stopped {expected : Expected} {next : β → Reading α} :
    Draws text (Reading.fail expected >>= next) made := by
  intro token cursor _ _ value after done
  contradiction

theorem weaken {weaker : List Token → α → Prop} (draws : Draws text reading made)
    (implied : ∀ run value, made run value → weaker run value) : Draws text reading weaker :=
  fun token => (draws token).weaken implied

theorem bind {next : α → Reading β} {final : List Token → β → Prop} (start : Draws text reading made)
    (later : ∀ run value, made run value →
      Draws text (next value) fun further result => final (run ++ further) result) :
    Draws text (reading >>= next) final :=
  fun token => (start token).bind later

theorem clause {final : List Token → β → Prop} {make : α → β} (start : Draws text reading made)
    (makes : ∀ run value, made run value → final run (make value)) :
    Draws text (do return make (← reading)) final :=
  fun token => (start token).clause makes

theorem ite {condition : Prop} [Decidable condition] {other : Reading α} (first : Draws text reading made)
    (second : Draws text other made) : Draws text (if condition then reading else other) made :=
  fun token => (first token).ite (second token)

theorem map {final : List Token → β → Prop} {make : α → β} (start : Draws text reading made)
    (makes : ∀ run value, made run value → final run (make value)) : Draws text (make <$> reading) final := by
  rw [map_eq_pure_bind]
  exact start.clause makes

theorem at_current {next : Token → Reading α} (later : ∀ token, DrawsFrom text token (next token) made) :
    Draws text (current >>= next) made :=
  fun _ cursor within _ value after done => later cursor.current cursor within rfl value after done

theorem looking {view : Cursor → β} {next : β → Reading α} (later : ∀ value, Draws text (next value) made) :
    Draws text (look view >>= next) made :=
  fun token cursor within front value after done => later (view cursor) token cursor within front value after done

theorem reads (draws : Draws text reading made) :
    Draws text reading fun run value => reading.Reads text run value ∧ made run value := by
  intro token cursor within front value after done
  obtain ⟨also, run, parts, one⟩ := draws token cursor within front value after done
  refine ⟨also, run, parts, ?_, one⟩
  obtain ⟨source, ahead, close⟩ := cursor
  obtain ⟨source_too, ahead_too, close_too⟩ := after
  obtain ⟨rfl, rfl, earlier, tokens⟩ := within
  obtain ⟨rfl, rfl, -⟩ := also
  obtain rfl : ahead = run ++ ahead_too := parts
  exact ⟨earlier, ahead_too, tokens, done⟩

theorem foldWhile {more : Cursor → Bool} {step : σ → Reading σ} {kept : List Token → σ → Prop}
    (rounds : ∀ run state, kept run state → ∀ cursor, more cursor = true →
      DrawsFrom text cursor.current (step state) fun own next => kept (run ++ own) next)
    {state : σ} (start : kept [] state) : Draws text (foldWhile more step state) kept := by
  intro token cursor within _ final after done
  have round {state next : σ} {here middle : Cursor}
      (before : here.Over text ∧ ∃ run, cursor.ahead = run ++ here.ahead ∧ kept run state)
      (goes : more here = true) (one : step state here = .ok next middle) :
      middle.Over text ∧ ∃ run, cursor.ahead = run ++ middle.ahead ∧ kept run next := by
    obtain ⟨within, run, parts, so_far⟩ := before
    obtain ⟨further, own, others, next_kept⟩ := rounds run state so_far here goes here within rfl next middle one
    exact ⟨further, run ++ own, by rw [parts, others, List.append_assoc], next_kept⟩
  exact foldWhile_keeps round ⟨within, [], rfl, start⟩ done

theorem many {more : Cursor → Bool} (items : Draws text reading made) :
    Draws text (many more reading) fun run values =>
      ∃ runs, run = runs.flatten ∧ List.Forall₂ made runs values := by
  have gathered : Draws text (Reading.foldWhile more (fun seen => do return (← reading) :: seen) []) fun run seen =>
      ∃ runs, run = runs.flatten ∧ List.Forall₂ made runs seen.reverse := by
    refine foldWhile (fun run seen => ?_) ⟨[], rfl, .nil⟩
    rintro ⟨runs, rfl, each⟩ cursor -
    refine (items _).clause fun own value one => ⟨runs ++ [own], by simp, ?_⟩
    rw [List.reverse_cons]
    exact List.rel_append each (.cons one .nil)
  exact gathered.clause fun run seen each => each

theorem commaWise {step : List α → Reading (List α)} {front : List Token} {values seen : List α}
    (row : Row made front values)
    (items : ∀ seen, Draws text (step seen) fun run all => ∃ value, all = value :: seen ∧ made run value) :
    Draws text (Reading.foldWhile (·.sees .comma) (fun seen => do discard advance; step seen) seen)
      fun run all => ∃ others, all = others ++ seen ∧ Row made (front ++ run) (values ++ others.reverse) := by
  refine foldWhile ?_ ⟨[], rfl, by simpa using row⟩
  rintro run all ⟨others, rfl, so_far⟩ cursor sees
  have comma : cursor.current.kind = .comma := by simpa [Cursor.sees] using sees
  refine .passing (by simp [comma]) ((items _).weaken ?_)
  rintro own all ⟨value, rfl, one⟩
  refine ⟨value :: others, rfl, ?_⟩
  rw [← List.append_assoc, List.reverse_cons, ← List.append_assoc]
  exact .next so_far comma one

theorem separated (items : Draws text reading made) : Draws text (separated reading) (Row made) := by
  rw [Reading.separated]
  refine items.bind fun front first one => ?_
  have step (seen : List α) : Draws text (do return (← reading) :: seen) fun run all =>
      ∃ value, all = value :: seen ∧ made run value :=
    items.clause fun run value one => ⟨value, rfl, one⟩
  have others : Draws text (Reading.many (·.sees .comma) (do discard advance; reading)) fun run values =>
      Row made (front ++ run) (first :: values) := by
    simp only [Reading.many, bind_assoc]
    have rounds : Draws text (Reading.foldWhile (·.sees .comma) _ []) _ := commaWise (.first one) step
    refine rounds.clause ?_
    rintro run all ⟨others, rfl, row⟩
    simpa using row
  exact others.clause fun run values row => row

theorem listOf (items : Draws text reading made) : Draws text (listOf reading) (Bracketed made) := by
  intro token cursor within _ values after done
  obtain ⟨opens, middle, read, closes, rfl⟩ := listOf_ok done
  obtain ⟨ahead, inside⟩ := within.next (by simp [opens])
  obtain ⟨behind, row, parts, made⟩ := items.separated _ cursor.next inside rfl values middle read
  obtain ⟨rest, further⟩ := behind.next (by simp [closes])
  refine ⟨further, cursor.current :: (row ++ [middle.current]), ?_, _, _, _, rfl, opens, closes, made⟩
  rw [ahead, parts, rest]
  simp

end Draws

section

variable {reading : Reading α} {next : α → Reading β}

theorem Uniform.draws (uniform : Uniform reading) : Draws text reading fun _ _ => True := by
  intro token cursor within _ value after done
  obtain ⟨count, rfl⟩ := uniform.drops within.ended done
  have parts := (List.take_append_drop count cursor.ahead).symm
  exact ⟨within.past parts, _, parts, trivial⟩

theorem Uniform.aside {post : β → Prop} (uniform : Uniform reading)
    (later : ∀ value, Draws text (next value) fun _ result => post result) :
    Draws text (reading >>= next) fun _ result => post result :=
  uniform.draws.bind fun _ value _ => later value

theorem Draws.flat_pure {value : α} : Draws text (Pure.pure value) fun run _ => Flat run :=
  .pure (List.forall_mem_nil _)

theorem Draws.flat_bind (start : Draws text reading fun run _ => Flat run)
    (later : ∀ value, Draws text (next value) fun run _ => Flat run) :
    Draws text (reading >>= next) fun run _ => Flat run :=
  start.bind fun _ value flat => (later value).weaken fun _ _ also_flat => flat.append also_flat

theorem Draws.past {holds : β → List Token → List Token → Prop} (start : Draws text reading fun run _ => Flat run)
    (later : ∀ value, Draws text (next value) fun run result => FirstGroup (holds result) run) :
    Draws text (reading >>= next) fun run result => FirstGroup (holds result) run :=
  start.bind fun _ value flat => (later value).weaken fun _ _ first => first.behind flat

theorem Draws.followed {group : List Token → α → Prop} {holds : β → List Token → List Token → Prop}
    (start : Draws text reading group)
    (later : ∀ value, Draws text (next value) fun rest result => ∀ run, group run value → holds result run rest) :
    Draws text (reading >>= next) fun run result => FirstGroup (holds result) run :=
  start.bind fun run value given => (later value).weaken fun rest _ implied =>
    ⟨[], run, rest, rfl, List.forall_mem_nil _, implied run given⟩

/-- What is told of the first parentheses stays whatever is read behind them. -/
theorem Draws.carried {group : α → List Token → Prop} {holds : β → List Token → Prop}
    (start : Draws text reading fun run value => FirstGroup (fun first _ => group value first) run)
    (later : ∀ value, Draws text (next value) fun _ result => ∀ run, group value run → holds result run) :
    Draws text (reading >>= next) fun run result => FirstGroup (fun first _ => holds result first) run := by
  refine start.bind fun run value given => (later value).weaken fun further result implied => ?_
  obtain ⟨front, first, rest, rfl, flat, held⟩ := given
  exact ⟨front, first, rest ++ further, by simp, flat, implied first held⟩

end

theorem eat_draws {kind : TokenKind} (no_end : kind ≠ .endOfInput) :
    Draws text (eat kind) fun run found => run.map Token.kind = if found = true then [kind] else [] := by
  intro token cursor within _ found after done
  rcases eat_ok done with ⟨rfl, seen, rfl⟩ | ⟨rfl, rfl⟩
  · obtain ⟨ahead, behind⟩ := within.next (seen ▸ no_end)
    exact ⟨behind, _, ahead, by simp [seen]⟩
  · exact ⟨within, [], rfl, rfl⟩

theorem expect_draws {kind : TokenKind} (no_end : kind ≠ .endOfInput) :
    Draws text (discard (expect kind)) fun run _ => run.map Token.kind = [kind] := by
  intro token cursor within _ _ after done
  obtain ⟨_, found⟩ := ok_of_discard_ok done
  obtain ⟨seen, -, rfl⟩ := expect_ok found
  obtain ⟨ahead, behind⟩ := within.next (seen ▸ no_end)
  exact ⟨behind, _, ahead, by simp [seen]⟩

theorem eat_flat {kind : TokenKind} (no_end : kind ≠ .endOfInput) (no_opening : kind ≠ .leftParen)
    (no_closing : kind ≠ .rightParen) : Draws text (eat kind) fun run _ => Flat run := by
  refine (eat_draws no_end).weaken fun run found kinds => flat_of_kinds kinds ?_
  split <;> simp [no_opening, no_closing]

theorem eatWord_draws (word : Keyword) :
    Draws text (eatWord word) fun run found => Spell run (if found = true then [word] else []) :=
  (eat_draws (by simp)).weaken fun run found kinds => by
    cases found <;> exact kinds

theorem eatWord_flat (word : Keyword) : Draws text (eatWord word) fun run _ => Flat run :=
  eat_flat (by simp) (by simp) (by simp)

theorem expectWord_flat (word : Keyword) : Draws text (expectWord word) fun run _ => Flat run :=
  (expect_draws (by simp)).weaken fun _ _ kinds => flat_of_kinds kinds (by simp)

theorem flat_of_isName {token : Token} (named : token.isName = true) : Flat [token] :=
  flat_of_kinds rfl (by simpa using Token.kind_ne_of_isName named)

theorem name_draws (expected : Expected) :
    Draws text (name expected) fun run value =>
      ∃ token, run = [token] ∧ token.isName = true ∧ value = token.text := by
  intro token cursor within _ value after done
  simp only [name, textOf] at done
  split at done
  next named =>
    obtain ⟨rfl, rfl⟩ := EStateM.Result.ok.inj done
    obtain ⟨ahead, behind⟩ := within.next fun ended => by simp [Token.isName, ended] at named
    exact ⟨behind, _, ahead, _, rfl, named, rfl⟩
  next => contradiction

theorem name_flat (expected : Expected) : Draws text (name expected) fun run _ => Flat run :=
  (name_draws expected).weaken fun _ _ ⟨_, same, named, _⟩ => same ▸ flat_of_isName named

theorem name?_draws :
    Draws text name? fun run value =>
      run = [] ∧ value = none ∨ ∃ token, run = [token] ∧ token.isName = true ∧ value = some token.text := by
  intro token cursor within _ value after done
  rw [name?] at done
  split at done
  next named =>
    obtain ⟨rfl, rfl⟩ := EStateM.Result.ok.inj done
    obtain ⟨ahead, behind⟩ := within.next fun ended => by simp [Token.isName, ended] at named
    exact ⟨behind, _, ahead, .inr ⟨_, rfl, named, rfl⟩⟩
  next =>
    obtain ⟨rfl, rfl⟩ := EStateM.Result.ok.inj done
    exact ⟨within, [], rfl, .inl ⟨rfl, rfl⟩⟩

theorem name?_flat : Draws text name? fun run _ => Flat run := by
  refine name?_draws.weaken fun run value => ?_
  rintro (⟨rfl, -⟩ | ⟨token, rfl, named, -⟩)
  · exact List.forall_mem_nil _
  · exact flat_of_isName named

theorem qualifiedName_flat : Draws text qualifiedName fun run _ => Flat run := by
  rw [qualifiedName]
  refine (name_flat .tableName).flat_bind fun first => ?_
  refine (eat_flat (by simp) (by simp) (by simp)).flat_bind fun _ => .ite ?_ .flat_pure
  exact (name_flat .tableName).flat_bind fun _ => .flat_pure

theorem expression_draws : Draws text expression fun group value => Captured text group value := by
  intro token cursor within _ value after done
  obtain ⟨opening, inner, closing, ahead, opens, closes, balanced, rfl, moved⟩ :=
    expression_ok within.ended done
  have parts : cursor.ahead = opening :: (inner ++ [closing]) ++ after.ahead := by simp [ahead]
  obtain ⟨earlier, tokens⟩ := within.tokens
  rw [ahead] at tokens
  refine ⟨moved ▸ within.past parts, _, parts, earlier, opening, inner, closing, after.ahead, rfl, ?_⟩
  rw [Cursor.slice, within.source]
  exact .of_tokens tokens opens closes balanced

end Reading

end SchemaDrift
