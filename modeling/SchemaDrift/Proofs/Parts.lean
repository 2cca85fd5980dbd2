import Mathlib.Data.List.TakeWhile
import SchemaDrift.Proofs.ElementList
import SchemaDrift.Proofs.Yields

/-!
A table read part by part. What a statement gives is put together from its heading, from the runs of
its element list, each read by itself, and from what stands behind the list.
-/

namespace SchemaDrift

/-- By itself, with a closing parenthesis behind it, a run is read as a whole and gives a value. -/
def Reading.Takes {α : Type} (reading : Reading α) (source : List Char) (run : List Token)
    (value : α) : Prop :=
  reading ⟨source, run ++ [Behind.parenthesis], .endOfInput 0 .start⟩ =
    .ok value ⟨source, [Behind.parenthesis], .endOfInput 0 .start⟩

open Reading

theorem Reading.Takes.unique {α : Type} {reading : Reading α} {source : List Char}
    {run : List Token} {first second : α} (one : reading.Takes source run first)
    (other : reading.Takes source run second) : first = second := by
  rw [Takes] at one other
  exact (EStateM.Result.ok.inj (one.symm.trans other)).1

theorem Behind.alone_cursor (behind : Behind) (closed : behind.tokens ≠ []) (run : List Token) :
    behind.alone.cursor run =
      ⟨behind.source, run ++ [Behind.parenthesis], .endOfInput 0 .start⟩ := by
  simp [Behind.cursor, Behind.alone, closed]

/-- Outside all parentheses, a run that is not at its end shows neither a comma nor the parenthesis
that closes its list. -/
theorem Inside.finished {closed : Prop} {behind : Behind} {left : List Token}
    (inside : Inside closed 0 left)
    (stops : (behind.cursor left).current.kind = .comma ∨
      (behind.cursor left).current.kind = .rightParen) : left = [] := by
  cases left with
  | nil => rfl
  | cons token rest =>
      rcases stops with kind | kind
      · obtain ⟨outer, same, _⟩ := inside.behind_comma kind
        contradiction
      · obtain ⟨outer, same, _⟩ := inside.behind_closing kind
        contradiction

/-- A reader that stays in a run and stops at a comma or a closing parenthesis has taken all of it.
-/
theorem Reading.Stays.takes {α : Type} {reading : Reading α} (stays : Stays reading)
    {behind : Behind} {run : List Token} {value : α} {cursor : Cursor}
    (inside : Inside (behind.tokens ≠ []) 0 run)
    (shut : ∀ token ∈ behind.tokens.head?, token.kind ≠ .leftParen)
    (done : reading (behind.cursor run) = .ok value cursor)
    (stops : cursor.current.kind = .comma ∨ cursor.current.kind = .rightParen) :
    behind.tokens ≠ [] ∧ cursor = behind.cursor [] ∧ reading.Takes behind.source run value := by
  obtain ⟨left, within, rfl, alone⟩ := stays behind 0 run ⟨shut, inside⟩ value cursor done
  obtain rfl := within.inside.finished stops
  have closed : behind.tokens ≠ [] := by
    intro nothing
    rcases stops with kind | kind <;> simp [behind.border_of_open nothing] at kind
  refine ⟨closed, rfl, ?_⟩
  rwa [behind.alone_cursor closed, behind.alone_cursor closed] at alone

namespace Reading

variable {α : Type} {step : List α → Reading (List α)} {source : List Char}
  {fits : List Token → α → Prop} {kept : List α → Prop}

/-- Reading one item more, knowing those before it: the item is read from the whole of its run, fits that
run, and leaves what was known of the items before it. -/
def Itemwise (step : List α → Reading (List α)) (source : List Char) (fits : List Token → α → Prop)
    (kept : List α → Prop) : Prop :=
  ∀ (behind : Behind) (run : List Token) (seen all : List α) (cursor : Cursor),
    behind.source = source → Inside (behind.tokens ≠ []) 0 run →
    (∀ token ∈ behind.tokens.head?, token.kind ≠ .leftParen) →
    step seen (behind.cursor run) = .ok all cursor →
    (cursor.current.kind = .comma ∨ cursor.current.kind = .rightParen) →
    behind.tokens ≠ [] ∧ cursor = behind.cursor [] ∧
      ∃ item, all = item :: seen ∧ fits run item ∧ (kept seen → kept all)

theorem Itemwise.parted (itemwise : Itemwise step source fits kept)
    (uniform : ∀ seen, Uniform (step seen)) {close : Token} (ended : close.kind = .endOfInput)
    {tokens behind : List Token} {runs : List (List Token)} (parted : Parted tokens runs behind)
    {seen next all : List α} {middle after : Cursor}
    (first : step seen ⟨source, tokens, close⟩ = .ok next middle)
    (done : foldWhile (·.sees .comma) (fun seen => do discard advance; step seen) next middle =
      .ok all after)
    (closes : after.current.kind = .rightParen) :
    ∃ items, all = items.reverse ++ seen ∧ after = ⟨source, behind, close⟩ ∧ behind ≠ [] ∧
      List.Forall₂ fits runs items ∧ (kept seen → kept all) := by
  induction parted generalizing seen next middle with
  | @last run tokens inside ends =>
      let behind : Behind := ⟨source, tokens, close, ended, fun token front =>
        .inr (.inr (.inl (ends token front)))⟩
      have shut : ∀ token ∈ behind.tokens.head?, token.kind ≠ .leftParen :=
        fun token front => by simp [ends token front]
      have takes := itemwise behind run seen next middle rfl inside shut first
      -- a comma behind the last run would be the border, which closes the list
      have stops : middle.sees .comma = false := by
        by_contra sees
        have comma : middle.current.kind = .comma := by simpa [Cursor.sees] using sees
        obtain ⟨closed, rfl, _⟩ := takes (.inl comma)
        obtain ⟨token, rest, same⟩ := List.exists_cons_of_ne_nil closed
        have kind := ends token (by simp [show tokens = token :: rest from same])
        simp [Behind.border, same, kind] at comma
      rw [foldWhile, stops, if_neg Bool.false_ne_true] at done
      obtain ⟨rfl, rfl⟩ := EStateM.Result.ok.inj done
      obtain ⟨closed, rfl, item, rfl, fit, one⟩ := takes (.inr closes)
      exact ⟨[item], rfl, rfl, closed, .cons fit .nil, one⟩
  | @more run rest tokens runs comma inside kind later ih =>
      let behind : Behind := ⟨source, comma :: rest, close, ended, fun token front =>
        .inl (Option.mem_unique front rfl ▸ kind)⟩
      have shut : ∀ token ∈ behind.tokens.head?, token.kind ≠ .leftParen := by
        rintro token front
        obtain rfl : token = comma := Option.mem_unique front rfl
        simp [kind]
      have inside : Inside (behind.tokens ≠ []) 0 run := by simpa [behind] using inside
      have takes := itemwise behind run seen next middle rfl inside shut first
      cases sees : middle.sees .comma with
      | false =>
          rw [foldWhile, sees, if_neg Bool.false_ne_true] at done
          obtain ⟨rfl, rfl⟩ := EStateM.Result.ok.inj done
          obtain ⟨_, rfl, _⟩ := takes (.inr closes)
          simp [Behind.border, behind, kind] at closes
      | true =>
          have stops : middle.current.kind = .comma := by simpa [Cursor.sees] using sees
          obtain ⟨_, rfl, item, rfl, fit, one⟩ := takes (.inl stops)
          -- the next round of the loop starts behind the comma
          have round : (discard advance >>= fun _ => step (item :: seen)) (behind.cursor []) =
              step (item :: seen) ⟨source, rest, close⟩ := rfl
          rw [foldWhile, if_pos sees, round] at done
          cases second : step (item :: seen) ⟨source, rest, close⟩ with
          | error error middle => simp [second] at done
          | ok further middle =>
              obtain ⟨count, rfl⟩ := (uniform _).drops ended second
              have shorter : (rest.drop count).length < (behind.cursor []).ahead.length := by
                simp only [Behind.cursor, behind, List.nil_append, List.length_cons,
                  List.length_drop]
                omega
              simp only [second, shorter, ↓reduceDIte] at done
              obtain ⟨items, rfl, rfl, closed, others, later_one⟩ := ih second done
              exact ⟨item :: items, by simp, rfl, closed, .cons fit others,
                fun given => later_one (one given)⟩

end Reading

inductive Category where
  | column
  | primaryKey
  | index (kind : IndexKind)
  | foreignKey
  | check
  deriving DecidableEq, Repr

/-- What the first word of an element makes it; anything else starts a column. -/
def Category.ofWord? : Option Keyword → Category
  | some .PRIMARY => .primaryKey
  | some .UNIQUE => .index .unique
  | some .INDEX | some .KEY => .index .plain
  | some .FULLTEXT => .index .fulltext
  | some .SPATIAL => .index .spatial
  | some .FOREIGN => .foreignKey
  | some .CHECK => .check
  | _ => .column

/-- What is left of a run behind the word CONSTRAINT and a name, either of which may be missing. -/
def behindConstraint (run : List Token) : List Token :=
  if run.head?.any (·.kind == .keyword .CONSTRAINT) then
    if run.tail.head?.any Token.isName then run.tail.tail else run.tail
  else run

def Category.ofRun (run : List Token) : Category :=
  .ofWord? ((behindConstraint run).head?.bind Token.keyword?)

namespace Element

def category : Element → Category
  | .column _ _ => .column
  | .primaryKey _ => .primaryKey
  | .index value => .index value.kind
  | .foreignKey _ => .foreignKey
  | .check _ => .check

theorem primaryKey?_eq_none {element : Element} (other : element.category ≠ .primaryKey) :
    element.primaryKey? = none := by
  cases element with
  | primaryKey value => exact absurd rfl other
  | _ => rfl

end Element

theorem Index.apply_kind (index : Index) (clauses : List IndexClause) :
    (clauses.foldl Index.apply index).kind = index.kind :=
  foldl_untouched (fun _ clause => by cases clause <;> rfl) index clauses

abbrev Anywhere : Cursor → Prop := fun _ => True

theorem Reading.any_yields {α : Type} (reading : Reading α) :
    Yields Anywhere reading fun _ => True :=
  fun _ _ _ _ _ => ⟨trivial, trivial⟩

theorem Index.read_kind (kind : IndexKind) :
    Yields Anywhere (Index.read kind) fun index => index.kind = kind := by
  have named : Yields Anywhere (Index.readNamed kind) fun index => index.kind = kind := by
    rw [Index.readNamed]
    apply (any_yields _).bind
    intro name _
    apply (any_yields _).bind
    intro indexType _
    apply (any_yields _).bind
    intro columns _
    exact (any_yields _).clause fun clauses _ => Index.apply_kind _ clauses
  rw [Index.read_eq]
  refine (any_yields _).bind fun _ _ => .ite ?_ named
  refine (any_yields _).bind fun _ _ => .ite named ?_
  exact (any_yields _).bind fun _ _ => named

namespace Element

variable {keyTaken : Bool} {constraint : Option String} {cursor after : Cursor} {element : Element}

theorem readBody_category (done : readBody keyTaken constraint cursor = .ok element after) :
    element.category = .ofWord? cursor.current.keyword? := by
  have index {kind : IndexKind} {reading : Reading Index}
      (read : Yields Anywhere reading fun index => index.kind = kind) :
      Yields Anywhere (do return Element.index (← reading))
        fun element => element.category = .index kind :=
    read.clause fun value same => congrArg Category.index same
  have column : Yields Anywhere readColumn fun element => element.category = .column :=
    (any_yields _).clause fun _ _ => rfl
  refine (Yields.current (fun token => (?_ : Yields Anywhere _ fun element =>
    element.category = .ofWord? token.keyword?)) trivial done).1
  split
  next word =>
    rw [word]
    have key : Yields Anywhere (do return Element.primaryKey (← PrimaryKey.read constraint))
        fun element => element.category = .primaryKey := (any_yields _).clause fun _ _ => rfl
    exact .ite ((any_yields _).bind fun _ _ => key) key
  next word =>
    rw [word]
    exact index ((Index.read_kind .unique).clause fun _ same => same)
  next word => exact word ▸ index (Index.read_kind .plain)
  next word => exact word ▸ index (Index.read_kind .plain)
  next word => exact word ▸ index (Index.read_kind .fulltext)
  next word => exact word ▸ index (Index.read_kind .spatial)
  next word => exact word ▸ (any_yields _).clause fun _ _ => rfl
  next word => exact word ▸ (any_yields _).clause fun _ _ => rfl
  next =>
    have other : Category.ofWord? token.keyword? = .column := by
      unfold Category.ofWord?
      split <;> simp_all
    rw [other]
    exact .ite ((any_yields _).bind fun _ _ => column) column

/-- Whether a key was read before changes nothing but that a second one is refused. -/
theorem read_false (done : read keyTaken cursor = .ok element after) :
    read false cursor = .ok element after ∧ (keyTaken = true → element.primaryKey? = none) := by
  obtain ⟨constraint, middle, named, body⟩ := ok_of_bind_ok done
  cases keyTaken with
  | false => exact ⟨done, fun taken => absurd taken Bool.false_ne_true⟩
  | true =>
      have here {next : Token → Reading Element} :
          (current >>= next) middle = next middle.current middle := rfl
      have other : middle.current.keyword? ≠ some .PRIMARY := by
        intro word
        rw [readBody, here, word] at body
        obtain ⟨_, _, failed, _⟩ := ok_of_bind_ok body
        simp [fail] at failed
      have same : readBody true constraint middle = readBody false constraint middle := by
        rw [readBody, readBody, here, here]
        refine congrFun ?_ middle
        split
        · contradiction
        all_goals rfl
      refine ⟨by rw [read, bind_of_ok named, ← same, body], fun _ => primaryKey?_eq_none ?_⟩
      rw [readBody_category body]
      unfold Category.ofWord?
      split <;> simp_all

def OneKey (elements : List Element) : Prop :=
  (elements.filterMap primaryKey?).length ≤ 1

theorem readMore_takes (behind : Behind) {run : List Token} {seen all : List Element}
    {cursor : Cursor} (inside : Inside (behind.tokens ≠ []) 0 run)
    (shut : ∀ token ∈ behind.tokens.head?, token.kind ≠ .leftParen)
    (done : readMore seen (behind.cursor run) = .ok all cursor)
    (stops : cursor.current.kind = .comma ∨ cursor.current.kind = .rightParen) :
    behind.tokens ≠ [] ∧ cursor = behind.cursor [] ∧ ∃ element, all = element :: seen ∧
      (read false).Takes behind.source run element ∧ (OneKey seen → OneKey all) := by
  rw [readMore] at done
  obtain ⟨element, middle, first, done⟩ := ok_of_bind_ok done
  obtain ⟨rfl, rfl⟩ := EStateM.Result.ok.inj done
  obtain ⟨first, no_second⟩ := read_false first
  obtain ⟨closed, same, takes⟩ := (read_stays false).takes inside shut first stops
  refine ⟨closed, same, element, rfl, takes, fun one => ?_⟩
  cases is_key : element.primaryKey? with
  | none => simpa [OneKey, is_key] using one
  | some key =>
      have none_seen : seen.filterMap primaryKey? = [] := by
        simp only [List.filterMap_eq_nil_iff]
        intro other member
        by_contra another
        have taken : seen.any (·.primaryKey?.isSome) = true :=
          List.any_eq_true.mpr ⟨other, member, Option.isSome_iff_ne_none.mpr another⟩
        simp [no_second taken] at is_key
      simp [OneKey, is_key, none_seen]

theorem readMore_itemwise (source : List Char) :
    Itemwise readMore source ((read false).Takes source) OneKey := by
  rintro behind run seen all cursor rfl inside shut done stops
  exact readMore_takes behind inside shut done stops

theorem readList_parted {source : List Char} {close : Token} (ended : close.kind = .endOfInput)
    {tokens behind : List Token} {runs : List (List Token)} (parted : Parted tokens runs behind)
    {elements : List Element} {after : Cursor}
    (done : readList ⟨source, tokens, close⟩ = .ok elements after)
    (closes : after.current.kind = .rightParen) :
    after = ⟨source, behind, close⟩ ∧ behind ≠ [] ∧
      List.Forall₂ ((read false).Takes source) runs elements ∧ OneKey elements := by
  rw [readList] at done
  obtain ⟨first, middle, one, done⟩ := ok_of_bind_ok done
  obtain ⟨all, last, others, done⟩ := ok_of_bind_ok done
  obtain ⟨rfl, rfl⟩ := EStateM.Result.ok.inj done
  obtain ⟨elements, rfl, same, closed, takes, one_key⟩ :=
    (readMore_itemwise source).parted readMore_uniform ended parted one others closes
  refine ⟨same, closed, by simpa using takes, ?_⟩
  have at_most_one := one_key (by simp [OneKey])
  simpa [OneKey, List.filterMap_reverse] using at_most_one

end Element

/-- No border stands among these tokens. -/
def Bare (run : List Token) : Prop :=
  ∀ token ∈ run, ¬token.IsBorder

instance : Keeps Bare :=
  ⟨fun bare _ token member => bare token (List.mem_cons_of_mem _ member)⟩

instance : DecidablePred Token.IsBorder :=
  fun _ => inferInstanceAs (Decidable (_ ∨ _))

theorem TableHeading.read_confined {behind : Behind} {P : List Token → Prop} [Keeps P] :
    Confined behind P TableHeading.read fun _ => P := by
  rw [TableHeading.read_eq]
  have named (temporary ifNotExists : Bool) :
      Confined behind P (TableHeading.readNamed temporary ifNotExists) fun _ => P :=
    qualifiedName_confined.bind fun _ => .pure fun _ holds => holds
  apply (expectWord_confined .CREATE).bind
  intro _
  apply (eatWord_confined .TEMPORARY).bind
  intro temporary
  apply (expectWord_confined .TABLE).bind
  intro _
  refine (eatWord_confined .IF).bind fun ifNotExists => .ite (fun _ => ?_) fun _ => named _ _
  apply (expectWord_confined .NOT).bind
  intro _
  exact (expectWord_confined .EXISTS).bind fun _ => named _ _

theorem TableHeading.read_takes {cursor after : Cursor} {heading : TableHeading}
    (ended : cursor.close.kind = .endOfInput)
    (done : TableHeading.read cursor = .ok heading after)
    (opens : after.current.kind = .leftParen) :
    ∃ front opening inner, cursor.ahead = front ++ opening :: inner ∧ Bare front ∧
      opening.kind = .leftParen ∧ after = { cursor with ahead := opening :: inner } ∧
      TableHeading.read.Takes cursor.source front heading := by
  obtain ⟨source, ahead, close⟩ := cursor
  let front := ahead.takeWhile (¬·.IsBorder)
  let behind : Behind := ⟨source, ahead.dropWhile (¬·.IsBorder), close, ended, by
    intro token head
    have stopped := List.head?_dropWhile_not (fun token : Token => !decide token.IsBorder) ahead
    simp_all⟩
  have whole : ahead = front ++ behind.tokens := List.takeWhile_append_dropWhile.symm
  have bare : Bare front := by
    intro token member
    simpa using List.mem_takeWhile_imp member
  have start : TableHeading.read (behind.cursor front) = .ok heading after := by
    rw [Behind.cursor, ← whole]
    exact done
  obtain ⟨left, kept, rfl, alone⟩ := read_confined (P := Bare) front bare heading after start
  obtain rfl : left = [] := by
    cases left with
    | nil => rfl
    | cons token rest => exact absurd (.inr (.inl opens)) (kept token List.mem_cons_self)
  cases tokens : behind.tokens with
  | nil =>
      rw [Behind.current_nil, behind.border_of_open tokens] at opens
      contradiction
  | cons opening inner =>
      have closed : behind.tokens ≠ [] := by simp [tokens]
      rw [behind.alone_cursor closed, behind.alone_cursor closed] at alone
      refine ⟨front, opening, inner, by rw [whole, tokens], bare, ?_, ?_, alone⟩
      · simpa [Behind.border, tokens] using opens
      · rw [Behind.cursor, tokens]
        rfl

namespace Table

abbrev Settings : Type := Option TableOptions × Option Partitioning

def readSettings : Reading Settings := do
  let options ← TableOptions.read?
  let partitioning ←
    if ← look (·.seesWord .PARTITION) then some <$> Partitioning.read else pure none
  return (options, partitioning)

def assemble (heading : TableHeading) (elements : List Element) (settings : Settings) : Table :=
  { ofElements heading elements with options := settings.1, partitioning := settings.2 }

theorem read_eq :
    Table.read = (do
      let heading ← TableHeading.read
      discard (expect .leftParen)
      let elements ← Element.readList
      discard (expect .rightParen)
      let settings ← readSettings
      return assemble heading elements settings) := by
  simp only [Table.read, readSettings, bind_assoc]
  refine bind_congr fun heading => bind_congr fun _ => bind_congr fun elements =>
    bind_congr fun _ => bind_congr fun options => bind_congr fun partitioned => ?_
  cases partitioned <;> simp [assemble]

theorem read_parts {cursor after : Cursor} {table : Table} (ended : cursor.close.kind = .endOfInput)
    (done : Table.read cursor = .ok table after) :
    ∃ front opening inner heading elements closed settings,
      cursor.ahead = front ++ opening :: inner ∧ Bare front ∧ opening.kind = .leftParen ∧
        TableHeading.read.Takes cursor.source front heading ∧
        Element.readList { cursor with ahead := inner } = .ok elements closed ∧
        closed.current.kind = .rightParen ∧ readSettings.result closed.next = .ok settings ∧
        table = assemble heading elements settings := by
  rw [read_eq] at done
  obtain ⟨heading, named, first, done⟩ := ok_of_bind_ok done
  obtain ⟨_, opened, opens, done⟩ := ok_of_bind_ok done
  obtain ⟨elements, closed, list, done⟩ := ok_of_bind_ok done
  obtain ⟨_, next, closes, done⟩ := ok_of_bind_ok done
  obtain ⟨settings, last, rest, done⟩ := ok_of_bind_ok done
  obtain ⟨defined, -⟩ := EStateM.Result.ok.inj done
  obtain ⟨_, found⟩ := ok_of_discard_ok opens
  obtain ⟨is_opening, -, rfl⟩ := expect_ok found
  obtain ⟨_, found⟩ := ok_of_discard_ok closes
  obtain ⟨is_closing, -, rfl⟩ := expect_ok found
  obtain ⟨front, opening, inner, split, bare, kind, rfl, takes⟩ :=
    TableHeading.read_takes ended first is_opening
  refine ⟨front, opening, inner, heading, elements, closed, settings, split, bare, kind, takes,
    list, is_closing, ?_, defined.symm⟩
  simp [Reading.result, Reading.outcome, rest]

end Table

/-- A statement's element list and all else of it, each part read by itself. -/
structure ElementList.Gives (source : List Char) (list : ElementList) (heading : TableHeading)
    (elements : List Element) (settings : Table.Settings) : Prop where
  named : TableHeading.read.Takes source list.heading heading
  listed : List.Forall₂ ((Element.read false).Takes source) list.runs elements
  oneKey : Element.OneKey elements
  configured : Table.readSettings.result (Cursor.ofTokens source list.behind).next = .ok settings

namespace Cursor

theorem ofTokens_ended (source : List Char) (tokens : List Token) :
    (ofTokens source tokens).close.kind = .endOfInput := by
  unfold ofTokens
  split
  · rfl
  · split
    next ends => simpa [Token.isEnd] using ends
    next => rfl

theorem ofTokens_source (source : List Char) (tokens : List Token) :
    (ofTokens source tokens).source = source := by
  unfold ofTokens
  split
  · rfl
  · split <;> rfl

theorem ofTokens_ahead (source : List Char) (tokens : List Token) :
    ∃ ends, tokens = (ofTokens source tokens).ahead ++ ends ∧
      ∀ token ∈ ends, token.kind = .endOfInput := by
  unfold ofTokens
  cases last : tokens.getLast? with
  | none => exact ⟨[], by simpa using last, by simp⟩
  | some token =>
      dsimp only
      split
      next ends =>
        refine ⟨[token], ?_, by simpa [Token.isEnd] using ends⟩
        obtain ⟨front, rfl⟩ := List.getLast?_eq_some_iff.mp last
        simp
      next => exact ⟨[], by simp, by simp⟩

theorem ofTokens_no_end (source : List Char) {tokens : List Token}
    (no_end : ∀ token ∈ tokens.dropLast, token.kind ≠ .endOfInput) :
    ∀ token ∈ (ofTokens source tokens).ahead, token.kind ≠ .endOfInput := by
  unfold ofTokens
  cases found : tokens.getLast? with
  | none => simp
  | some last =>
      obtain ⟨front, rfl⟩ := List.getLast?_eq_some_iff.mp found
      dsimp only
      split
      next => exact no_end
      next not_end =>
        intro token member
        rcases List.mem_append.mp member with earlier | at_end
        · exact no_end token (by simpa using earlier)
        · obtain rfl := List.mem_singleton.mp at_end
          simpa [Token.isEnd] using not_end

theorem ofTokens_append (source : List Char) (front : List Token) {behind : List Token}
    (nonempty : behind ≠ []) :
    ofTokens source (front ++ behind) =
      { ofTokens source behind with ahead := front ++ (ofTokens source behind).ahead } := by
  have last : (front ++ behind).getLast? = behind.getLast? :=
    List.getLast?_append_of_ne_nil front nonempty
  have rest : (front ++ behind).dropLast = front ++ behind.dropLast :=
    List.dropLast_append_of_ne_nil nonempty
  cases found : behind.getLast? with
  | none => exact absurd (List.getLast?_eq_none_iff.mp found) nonempty
  | some token =>
      simp only [ofTokens, last, rest, found]
      split <;> rfl

theorem ofTokens_behind {source : List Char} {tokens front behind ends : List Token}
    (whole : tokens = front ++ (behind ++ ends)) (nonempty : behind ≠ [])
    (ahead : (ofTokens source tokens).ahead = front ++ behind) :
    ofTokens source (behind ++ ends) = { ofTokens source tokens with ahead := behind } := by
  have joined := ofTokens_append source front (show behind ++ ends ≠ [] by simp [nonempty])
  rw [← whole] at joined
  have same : (ofTokens source (behind ++ ends)).ahead = behind := by
    rwa [joined, List.append_cancel_left_eq] at ahead
  calc ofTokens source (behind ++ ends)
      = { ofTokens source (behind ++ ends) with
          ahead := (ofTokens source (behind ++ ends)).ahead } := rfl
    _ = { ofTokens source tokens with ahead := behind } := by rw [joined, same]

end Cursor

namespace ElementList

variable {source : List Char} {tokens : List Token} {table : Table}

section FirstOpening

variable {front inner : List Token} {opening : Token}

theorem takeWhile_split (no_opening : ∀ token ∈ front, token.kind ≠ .leftParen)
    (kind : opening.kind = .leftParen) :
    (front ++ opening :: inner).takeWhile (·.kind != .leftParen) = front := by
  have passed : ∀ token ∈ front, (token.kind != .leftParen) = true := by simpa using no_opening
  simp [List.takeWhile_append_of_pos passed, kind]

theorem dropWhile_split (no_opening : ∀ token ∈ front, token.kind ≠ .leftParen)
    (kind : opening.kind = .leftParen) :
    (front ++ opening :: inner).dropWhile (·.kind != .leftParen) = opening :: inner := by
  have passed : ∀ token ∈ front, (token.kind != .leftParen) = true := by simpa using no_opening
  simp [List.dropWhile_append_of_pos passed, kind]

theorem ofTokens?_split (no_opening : ∀ token ∈ front, token.kind ≠ .leftParen)
    (kind : opening.kind = .leftParen) :
    ofTokens? (front ++ opening :: inner) =
      (cutRuns 0 inner).map fun (runs, behind) => ⟨front, runs, behind⟩ := by
  rw [ofTokens?, takeWhile_split no_opening kind, dropWhile_split no_opening kind]

end FirstOpening

theorem ofTokens?_eq_some {list : ElementList} (cut : ofTokens? tokens = some list) :
    ∃ opening inner, tokens = list.heading ++ opening :: inner ∧
      (∀ token ∈ list.heading, token.kind ≠ .leftParen) ∧ opening.kind = .leftParen ∧
      cutRuns 0 inner = some (list.runs, list.behind) := by
  rw [ofTokens?] at cut
  split at cut
  · contradiction
  next opening inner rest =>
    obtain ⟨⟨runs, behind⟩, parts, rfl⟩ := Option.map_eq_some_iff.mp cut
    refine ⟨opening, inner, ?_, ?_, ?_, parts⟩
    · rw [← rest, List.takeWhile_append_dropWhile]
    · intro token member
      simpa using List.mem_takeWhile_imp member
    · have stopped :=
        List.head?_dropWhile_not (fun token : Token => token.kind != .leftParen) tokens
      simpa [rest] using stopped

/-- Where a statement is read up to its end, its element list is closed, and each run of the list
gives an element. -/
theorem gives_of_guarded (guarded : MatchGuarded tokens)
    (no_end : ∀ token ∈ tokens.dropLast, token.kind ≠ .endOfInput)
    (done : Table.read.result (.ofTokens source tokens) = .ok table) :
    ∃ list heading elements settings, ofTokens? tokens = some list ∧
      Gives source list heading elements settings ∧
      table = Table.assemble heading elements settings := by
  have ended := Cursor.ofTokens_ended source tokens
  obtain ⟨after, read⟩ := ok_of_result_ok done
  obtain ⟨front, opening, inner, heading, elements, closed, settings, split, bare, kind, named,
    list, closes, configured, defined⟩ := Table.read_parts ended read
  obtain ⟨ends, whole, -⟩ := Cursor.ofTokens_ahead source tokens
  rw [split] at whole
  have inner_guarded : MatchGuarded inner := by
    have all : MatchGuarded (front ++ opening :: inner ++ ends) := whole ▸ guarded
    exact (List.isChain_append.mp (List.isChain_append.mp all).1).2.1.tail
  have inner_no_end : ∀ token ∈ inner, token.kind ≠ .endOfInput := fun token member =>
    Cursor.ofTokens_no_end source no_end token (by simp [split, member])
  obtain ⟨runs, behind, parted⟩ := Parted.exists inner_guarded inner_no_end
  obtain ⟨rfl, nonempty, listed, one⟩ := Element.readList_parted ended parted list closes
  obtain ⟨body, rfl⟩ := parted.behind_suffix
  -- the rest of the statement is read as if it stood alone
  have at_close := Cursor.ofTokens_behind
    (show tokens = front ++ opening :: body ++ (behind ++ ends) by simpa using whole) nonempty
    (show (Cursor.ofTokens source tokens).ahead = front ++ opening :: body ++ behind by
      simpa using split)
  rw [Cursor.ofTokens_source] at named listed
  refine ⟨⟨front, runs, behind ++ ends⟩, heading, elements, settings, ?_,
    ⟨named, listed, one, ?_⟩, defined⟩
  · have cut := (parted.append nonempty ends).cut (by simp [nonempty])
    have no_opening : ∀ token ∈ front, token.kind ≠ .leftParen := fun token member =>
      (Token.not_isBorder_iff.mp (bare token member)).2.1
    rw [whole, List.append_assoc, List.cons_append, ofTokens?_split no_opening kind, cut]
    rfl
  · rw [at_close]
    exact configured

/-- Where the element list can be cut and every MATCH in it is followed as it should be, a statement
that is read gives an element for each run. -/
theorem gives_of_cut {list : ElementList} (cut : ofTokens? tokens = some list)
    (matched : ∀ run ∈ list.runs, Matched run)
    (no_end : ∀ run ∈ list.runs, ∀ token ∈ run, token.kind ≠ .endOfInput)
    (done : Table.read.result (.ofTokens source tokens) = .ok table) :
    ∃ heading elements settings, Gives source list heading elements settings ∧
      table = Table.assemble heading elements settings := by
  obtain ⟨opening, inner, rfl, no_opening, kind, parts⟩ := ofTokens?_eq_some cut
  obtain ⟨⟨close, at_close, is_closing⟩, body, rfl, parted⟩ := Parted.of_cut parts matched no_end
  have nonempty : list.behind ≠ [] := by
    intro nothing
    simp [nothing] at at_close
  have joined := Cursor.ofTokens_append source (list.heading ++ opening :: body) nonempty
  rw [List.append_assoc, List.cons_append] at joined
  obtain ⟨after, read⟩ := ok_of_result_ok done
  obtain ⟨front, other, rest, heading, elements, closed, settings, split, bare, is_opening, named,
    listing, closes, configured, defined⟩ :=
      Table.read_parts (Cursor.ofTokens_ended source _) read
  rw [joined] at split listing named
  dsimp only at split listing named
  have bare_front : ∀ token ∈ front, token.kind ≠ .leftParen := fun token member =>
    (Token.not_isBorder_iff.mp (bare token member)).2.1
  -- both ways to split the tokens open the list at the same parenthesis
  rw [List.append_assoc, List.cons_append] at split
  obtain rfl : list.heading = front := by
    have same := congrArg (List.takeWhile (·.kind != .leftParen)) split
    rwa [takeWhile_split no_opening kind, takeWhile_split bare_front is_opening] at same
  obtain ⟨rfl, rfl⟩ := List.cons_eq_cons.mp (List.append_cancel_left split)
  have closing : ∃ close ∈ (Cursor.ofTokens source list.behind).ahead.head?,
      close.kind = .rightParen := by
    obtain ⟨ends, whole, only_ends⟩ := Cursor.ofTokens_ahead source list.behind
    cases ahead : (Cursor.ofTokens source list.behind).ahead with
    | nil =>
        rw [ahead, List.nil_append] at whole
        have ended := only_ends close (whole ▸ List.mem_of_mem_head? at_close)
        simp [is_closing] at ended
    | cons first later =>
        rw [whole, ahead] at at_close
        exact ⟨first, rfl, Option.some.inj at_close ▸ is_closing⟩
  obtain ⟨rfl, _, listed, one⟩ := Element.readList_parted
    (Cursor.ofTokens_ended source list.behind) (parted _ closing) listing closes
  rw [Cursor.ofTokens_source] at named listed
  exact ⟨heading, elements, settings, ⟨named, listed, one, configured⟩, defined⟩

end ElementList

end SchemaDrift
