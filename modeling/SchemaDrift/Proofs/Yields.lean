import SchemaDrift.Proofs.Uniform

/-!
What a reading gives, where it gives anything. A property of the value is carried from one step to
the next, beside a property of the cursor that every step keeps.
-/

namespace SchemaDrift

theorem exists_ok_of_toBool {ε α : Type} {result : Except ε α} (passes : result.toBool = true) :
    ∃ value, result = .ok value := by
  cases result with
  | error error => contradiction
  | ok value => exact ⟨value, rfl⟩

theorem exists_ok_of_map {ε α β : Type} {result : Except ε α} {f : α → β} {image : β}
    (mapped : result.map f = .ok image) : ∃ value, result = .ok value ∧ f value = image := by
  cases result with
  | error error => contradiction
  | ok value => exact ⟨value, rfl, Except.ok.inj mapped⟩

theorem foldl_untouched {α β σ : Type} {step : σ → α → σ} {part : σ → β}
    (untouched : ∀ state value, part (step state value) = part state) (state : σ)
    (values : List α) : part (values.foldl step state) = part state := by
  induction values generalizing state with
  | nil => rfl
  | cons value rest ih => rw [List.foldl_cons, ih, untouched]

/-- A property of a cursor that stays while the cursor moves on over its tokens. -/
class Cursor.Steady (held : Cursor → Prop) : Prop where
  ended : ∀ {cursor}, held cursor → cursor.close.kind = .endOfInput
  drop : ∀ {cursor}, held cursor → ∀ count, held { cursor with ahead := cursor.ahead.drop count }

namespace Reading

variable {α β σ : Type} {held : Cursor → Prop}

theorem ok_of_result_ok {reading : Reading α} {cursor : Cursor} {value : α}
    (done : reading.result cursor = .ok value) : ∃ after, reading cursor = .ok value after := by
  simp only [Reading.result, Reading.outcome] at done
  split at done
  next other after found =>
    obtain rfl := Except.ok.inj done
    exact ⟨after, found⟩
  next => contradiction

theorem foldWhile_keeps {more : Cursor → Bool} {step : σ → Reading σ}
    {kept : σ → Cursor → Prop}
    (round : ∀ {state next cursor middle}, kept state cursor → more cursor = true →
      step state cursor = .ok next middle → kept next middle)
    {state final : σ} {cursor after : Cursor} (start : kept state cursor)
    (done : foldWhile more step state cursor = .ok final after) : kept final after := by
  induction count : cursor.ahead.length using Nat.strongRecOn generalizing cursor state with
  | ind count ih =>
      rw [foldWhile] at done
      split at done
      next goes =>
        cases one : step state cursor with
        | error error middle =>
            rw [one] at done
            contradiction
        | ok next middle =>
            have further := round start goes one
            rw [one] at done
            dsimp only at done
            split at done
            next shorter => exact ih _ (by omega) further done rfl
            next =>
              obtain ⟨rfl, rfl⟩ := EStateM.Result.ok.inj done
              exact further
      next =>
        obtain ⟨rfl, rfl⟩ := EStateM.Result.ok.inj done
        exact start

/-- Started where `held` holds of the cursor, a reading that gives a value gives one that `post`
holds of, and leaves a cursor that `held` holds of. -/
def Yields (held : Cursor → Prop) (reading : Reading α) (post : α → Prop) : Prop :=
  ∀ cursor, held cursor → ∀ value after, reading cursor = .ok value after → post value ∧ held after

namespace Yields

theorem pure {value : α} {post : α → Prop} (holds : post value) :
    Yields held (Pure.pure value) post := by
  intro cursor start result after done
  obtain ⟨rfl, rfl⟩ := EStateM.Result.ok.inj done
  exact ⟨holds, start⟩

theorem fail (expected : Expected) {post : α → Prop} : Yields held (Reading.fail expected) post := by
  intro cursor _ value after done
  contradiction

theorem bind {reading : Reading α} {next : α → Reading β} {post : α → Prop} {final : β → Prop}
    (start : Yields held reading post)
    (later : ∀ value, post value → Yields held (next value) final) :
    Yields held (reading >>= next) final := by
  intro cursor holds value after done
  obtain ⟨first, middle, one, two⟩ := ok_of_bind_ok done
  obtain ⟨given, kept⟩ := start cursor holds first middle one
  exact later first given middle kept value after two

theorem clause {reading : Reading α} {post : α → Prop} {final : β → Prop} {make : α → β}
    (start : Yields held reading post) (made : ∀ value, post value → final (make value)) :
    Yields held (do return make (← reading)) final :=
  start.bind fun value given => .pure (made value given)

theorem ite {condition : Prop} [Decidable condition] {yes no : Reading α} {post : α → Prop}
    (first : Yields held yes post) (second : Yields held no post) :
    Yields held (if condition then yes else no) post := by
  split
  · exact first
  · exact second

theorem current {next : Token → Reading α} {post : Token → α → Prop} {cursor after : Cursor}
    {value : α} (later : ∀ token, Yields held (next token) (post token)) (holds : held cursor)
    (done : (Reading.current >>= next) cursor = .ok value after) :
    post cursor.current value ∧ held after :=
  later cursor.current cursor holds value after done

theorem at_current {next : Token → Reading α} {post : α → Prop}
    (later : ∀ token, Yields held (next token) post) :
    Yields held (Reading.current >>= next) post :=
  fun cursor holds value after done => later cursor.current cursor holds value after done

theorem foldWhile {more : Cursor → Bool} {step : σ → Reading σ} {post : σ → Prop}
    (rounds : ∀ state, post state → Yields held (step state) post) {state : σ}
    (start : post state) :
    Yields held (foldWhile more step state) post := by
  intro cursor holds value after done
  have kept {state next : σ} {cursor middle : Cursor} (before : post state ∧ held cursor)
      (_ : more cursor = true) (round : step state cursor = .ok next middle) :
      post next ∧ held middle :=
    rounds state before.1 cursor before.2 next middle round
  exact foldWhile_keeps kept ⟨start, holds⟩ done

theorem many_while {more : Cursor → Bool} {item : Reading α} {post : α → Prop}
    (items : ∀ cursor, held cursor → more cursor = true → ∀ value after,
      item cursor = .ok value after → post value ∧ held after) :
    Yields held (many more item) fun values => ∀ value ∈ values, post value := by
  have round {seen next : List α} {cursor middle : Cursor}
      (before : (∀ value ∈ seen, post value) ∧ held cursor) (goes : more cursor = true)
      (done : (do return (← item) :: seen) cursor = .ok next middle) :
      (∀ value ∈ next, post value) ∧ held middle := by
    obtain ⟨value, after, read, rest⟩ := ok_of_bind_ok done
    obtain ⟨rfl, rfl⟩ := EStateM.Result.ok.inj rest
    obtain ⟨given, kept⟩ := items cursor before.2 goes value after read
    exact ⟨List.forall_mem_cons.mpr ⟨given, before.1⟩, kept⟩
  intro cursor holds values after done
  obtain ⟨latestFirst, middle, folded, rest⟩ := ok_of_bind_ok done
  obtain ⟨rfl, rfl⟩ := EStateM.Result.ok.inj rest
  obtain ⟨each, kept⟩ := foldWhile_keeps round ⟨List.forall_mem_nil post, holds⟩ folded
  exact ⟨fun value member => each value (List.mem_reverse.mp member), kept⟩

end Yields

theorem Uniform.yields [Cursor.Steady held] {reading : Reading α} (uniform : Uniform reading) :
    Yields held reading fun _ => True := by
  intro cursor holds value after done
  obtain ⟨count, rfl⟩ := uniform.drops (Cursor.Steady.ended holds) done
  exact ⟨trivial, Cursor.Steady.drop holds count⟩

theorem Uniform.before [Cursor.Steady held] {reading : Reading α} {next : α → Reading β}
    {post : β → Prop} (uniform : Uniform reading)
    (later : ∀ value, Yields held (next value) post) : Yields held (reading >>= next) post :=
  uniform.yields.bind fun value _ => later value

theorem Yields.either [Cursor.Steady held] {condition : Prop} [Decidable condition]
    {first second : Reading α} {next : α → Reading β} {post : β → Prop} (one : Uniform first)
    (other : Uniform second) (later : ∀ value, Yields held (next value) post) :
    Yields held (if condition then first >>= next else second >>= next) post :=
  .ite (one.before later) (other.before later)

end Reading

end SchemaDrift
