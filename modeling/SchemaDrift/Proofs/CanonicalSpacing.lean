import SchemaDrift.Proofs.Contents

/-!
The normal form of spacing is canonical. It keeps all but the blanks outside quotes, of which it leaves single spaces;
and two texts have the same normal form just when one comes from the other by writing the runs of such blanks in
another way. What is outside quotes is told by a grammar of quoted texts.
-/

namespace SchemaDrift.Text

/-- What may stand between two marks: the mark itself only behind a backslash, which escapes nothing between back
quotes. -/
inductive Between (mark : Char) : List Char → Prop where
  | nil : Between mark []
  | plain {c : Char} {body : List Char} (not_mark : c ≠ mark) (not_escape : c = '\\' → mark = '\x60')
      (later : Between mark body) : Between mark (c :: body)
  | escaped (c : Char) {body : List Char} (escapes : mark ≠ '\x60') (later : Between mark body) :
      Between mark ('\\' :: c :: body)

/-- A text in which every quote is closed, so that what stands behind it is outside quotes. -/
inductive Unquoted : List Char → Prop where
  | nil : Unquoted []
  | plain {c : Char} {rest : List Char} (no_mark : c ∉ ['\x27', '\x22', '\x60']) (later : Unquoted rest) :
      Unquoted (c :: rest)
  | quoted {mark : Char} {body rest : List Char} (opens : mark ∈ ['\x27', '\x22', '\x60'])
      (between : Between mark body) (later : Unquoted rest) : Unquoted (mark :: (body ++ mark :: rest))

theorem isQuotationMark_iff {c : Char} : isQuotationMark c = true ↔ c ∈ ['\x27', '\x22', '\x60'] := by
  simp [isQuotationMark, or_assoc]

theorem Between.behind {mark : Char} {body : List Char} (between : Between mark body) (not_escape : mark ≠ '\\')
    (rest : List Char) : (Quoting.inside mark false).behind (body ++ mark :: rest) = Quoting.free.behind rest := by
  induction between with
  | nil =>
      have closes : (Quoting.inside mark false).after mark = .free := by simp [Quoting.after, not_escape]
      rw [List.nil_append, Quoting.behind, List.foldl_cons, closes, Quoting.behind]
  | @plain c body not_mark no_escape later ih =>
      have stays : (Quoting.inside mark false).after c = .inside mark false := by
        rw [Quoting.after, if_neg fun escape => escape.2 (no_escape escape.1), if_neg not_mark]
      rwa [List.cons_append, Quoting.behind, List.foldl_cons, stays]
  | escaped c escapes later ih =>
      have opened : (Quoting.inside mark false).after '\\' = .inside mark true := if_pos ⟨rfl, escapes⟩
      rwa [List.cons_append, List.cons_append, Quoting.behind, List.foldl_cons, opened, List.foldl_cons,
        Quoting.after]

theorem Unquoted.behind {chars : List Char} (unquoted : Unquoted chars) : Quoting.free.behind chars = .free := by
  induction unquoted with
  | nil => rfl
  | plain no_mark later ih =>
      rwa [Quoting.behind, List.foldl_cons, Quoting.after, if_neg (isQuotationMark_iff.not.mpr no_mark)]
  | @quoted mark body rest opens between later ih =>
      have not_escape : ∀ mark ∈ ['\x27', '\x22', '\x60'], mark ≠ '\\' := by simp
      rw [Quoting.behind, List.foldl_cons, Quoting.after, if_pos (isQuotationMark_iff.mpr opens)]
      exact (between.behind (not_escape mark opens) rest).trans ih

/-- Where the quotes come to an end, the text is one without open quotes; from within a quote, what closes it comes
first, from behind a backslash after one more character. -/
theorem unquoted_of_behind (chars : List Char) :
    (Quoting.free.behind chars = .free → Unquoted chars) ∧
    (∀ mark, (Quoting.inside mark false).behind chars = .free →
      ∃ body rest, chars = body ++ mark :: rest ∧ Between mark body ∧ Unquoted rest) ∧
    ∀ mark, (Quoting.inside mark true).behind chars = .free →
      ∃ c body rest, chars = c :: (body ++ mark :: rest) ∧ Between mark body ∧ Unquoted rest := by
  induction chars with
  | nil =>
      refine ⟨fun _ => .nil, ?_, ?_⟩
      · intro mark open_end
        contradiction
      · intro mark open_end
        contradiction
  | cons c rest ih =>
      obtain ⟨outside, inside, escaped⟩ := ih
      refine ⟨?_, ?_, ?_⟩
      · intro free
        rw [Quoting.behind, List.foldl_cons, Quoting.after] at free
        split at free
        next mark =>
          obtain ⟨body, later, rfl, between, unquoted⟩ := inside c free
          exact .quoted (isQuotationMark_iff.mp mark) between unquoted
        next no_mark => exact .plain (isQuotationMark_iff.not.mp no_mark) (outside free)
      · intro mark free
        rw [Quoting.behind, List.foldl_cons, Quoting.after] at free
        split at free
        next escape =>
          obtain ⟨rfl, escapes⟩ := escape
          obtain ⟨d, body, later, rfl, between, unquoted⟩ := escaped mark free
          exact ⟨'\\' :: d :: body, later, rfl, .escaped d escapes between, unquoted⟩
        next no_escape =>
          split at free
          next closes =>
            subst closes
            exact ⟨[], rest, rfl, .nil, outside free⟩
          next not_mark =>
            obtain ⟨body, later, rfl, between, unquoted⟩ := inside mark free
            refine ⟨c :: body, later, rfl, .plain not_mark (fun escape => ?_) between, unquoted⟩
            exact not_not.mp fun escapes => no_escape ⟨escape, escapes⟩
      · intro mark free
        obtain ⟨body, later, rfl, between, unquoted⟩ := inside mark free
        exact ⟨c, body, later, rfl, between, unquoted⟩

theorem behind_eq_free_iff {chars : List Char} : Quoting.free.behind chars = .free ↔ Unquoted chars :=
  ⟨(unquoted_of_behind chars).1, Unquoted.behind⟩

/-- What stands in a text beside its blanks outside quotes. -/
def solid : Quoting → List Char → List Char
  | _, [] => []
  | quoting, c :: rest => (if quoting = .free ∧ isBlank c then [] else [c]) ++ solid (quoting.after c) rest

/-- Outside quotes all blanks are spaces, and no two stand together. -/
def SingleSpaced (chars : List Char) : Prop :=
  ∀ before c behind, chars = before ++ c :: behind → Unquoted before → isBlank c = true →
    c = ' ' ∧ ∀ next ∈ behind.head?, isBlank next = false

/-- Two texts that are the same but for their runs of blanks outside quotes. A run that stands in one stands in the
other too, whichever blanks it is made of; it goes as far as there are blanks. -/
inductive Respaced : Quoting → List Char → List Char → Prop where
  | nil (quoting : Quoting) : Respaced quoting [] []
  | kept {quoting : Quoting} {c : Char} {first second : List Char} (kept : ¬(quoting = .free ∧ isBlank c = true))
      (later : Respaced (quoting.after c) first second) : Respaced quoting (c :: first) (c :: second)
  | run {blanks others first second : List Char} (some_blank : blanks ≠ []) (some_other : others ≠ [])
      (blank : ∀ c ∈ blanks ++ others, isBlank c = true) (first_ends : ∀ c ∈ first.head?, isBlank c = false)
      (second_ends : ∀ c ∈ second.head?, isBlank c = false) (later : Respaced .free first second) :
      Respaced .free (blanks ++ first) (others ++ second)

theorem solid_blank {c : Char} (blank : isBlank c = true) (rest : List Char) :
    solid .free (c :: rest) = solid .free rest := by
  rw [solid, if_pos ⟨rfl, blank⟩, after_blank blank, List.nil_append]

theorem solid_squeeze (quoting : Quoting) (chars : List Char) :
    solid quoting (squeeze quoting chars) = solid quoting chars := by
  induction chars generalizing quoting with
  | nil => rw [squeeze_nil]
  | cons c rest ih =>
      by_cases even : quoting = .free ∧ isBlank c = true
      · obtain ⟨rfl, blank⟩ := even
        rw [squeeze_blank blank, solid_blank blank]
        split
        · exact ih .free
        · rw [solid_blank (by decide), ih]
      · rw [squeeze_kept even, solid, solid, ih]

theorem squeeze_spaced (quoting : Quoting) (chars before behind : List Char) (c : Char)
    (parts : squeeze quoting chars = before ++ c :: behind) (unquoted : quoting.behind before = .free)
    (blank : isBlank c = true) : c = ' ' ∧ ∀ next ∈ behind.head?, isBlank next = false := by
  induction chars generalizing quoting before with
  | nil => simp [squeeze_nil] at parts
  | cons d rest ih =>
      by_cases even : quoting = .free ∧ isBlank d = true
      · obtain ⟨rfl, d_blank⟩ := even
        rw [squeeze_blank d_blank] at parts
        split at parts
        case isTrue => exact ih .free before parts unquoted
        case isFalse single =>
          cases before with
          | nil =>
              obtain ⟨rfl, rfl⟩ := List.cons.inj parts
              exact ⟨rfl, by simpa [Option.any_eq_true] using squeeze_visible single⟩
          | cons e before =>
              obtain ⟨rfl, later⟩ := List.cons.inj parts
              exact ih .free before later unquoted
      · rw [squeeze_kept even] at parts
        cases before with
        | nil =>
            obtain ⟨rfl, -⟩ := List.cons.inj parts
            exact absurd ⟨unquoted, blank⟩ even
        | cons e before =>
            obtain ⟨rfl, later⟩ := List.cons.inj parts
            exact ih (quoting.after d) before later unquoted

theorem squeeze_run {blanks rest : List Char} (some_blank : blanks ≠ []) (blank : ∀ c ∈ blanks, isBlank c = true)
    (ends : ∀ c ∈ rest.head?, isBlank c = false) : squeeze .free (blanks ++ rest) = ' ' :: squeeze .free rest := by
  have no_more : ¬rest.head?.any isBlank = true := by simpa [Option.any_eq_true] using ends
  rw [squeeze_blanks some_blank blank, squeeze_blank (by decide), if_neg no_more]

theorem Respaced.squeeze {quoting : Quoting} {first second : List Char} (respaced : Respaced quoting first second) :
    Text.squeeze quoting first = Text.squeeze quoting second := by
  induction respaced with
  | nil => rfl
  | kept kept _ ih => rw [squeeze_kept kept, squeeze_kept kept, ih]
  | run some_blank some_other blank first_ends second_ends _ ih =>
      rw [List.forall_mem_append] at blank
      rw [squeeze_run some_blank blank.1 first_ends, squeeze_run some_other blank.2 second_ends, ih]

/-- What a text starts with: nothing, a run of blanks outside quotes, or a character that is kept. -/
inductive Front : Quoting → List Char → Prop where
  | nothing (quoting : Quoting) : Front quoting []
  | run {blanks rest : List Char} (some_blank : blanks ≠ []) (blank : ∀ c ∈ blanks, isBlank c = true)
      (ends : ∀ c ∈ rest.head?, isBlank c = false) : Front .free (blanks ++ rest)
  | kept {quoting : Quoting} {c : Char} {rest : List Char} (kept : ¬(quoting = .free ∧ isBlank c = true)) :
      Front quoting (c :: rest)

theorem front (quoting : Quoting) (chars : List Char) : Front quoting chars := by
  cases chars with
  | nil => exact .nothing quoting
  | cons c rest =>
      by_cases even : quoting = .free ∧ isBlank c = true
      · obtain ⟨rfl, blank⟩ := even
        have some_blank : (c :: rest).takeWhile isBlank ≠ [] := by
          rw [List.takeWhile_cons_of_pos blank]
          exact List.cons_ne_nil _ _
        rw [← List.takeWhile_append_dropWhile (p := isBlank) (l := c :: rest)]
        exact .run some_blank (fun _ => List.mem_takeWhile_imp) (dropWhile_head_fails (c :: rest))
      · exact .kept even

/-- The fronts of two texts with the same normal form are of one kind, and so it goes on behind them. -/
theorem respaced_of_squeeze {quoting : Quoting} {first second : List Char}
    (same : squeeze quoting first = squeeze quoting second) : Respaced quoting first second := by
  induction measured : first.length using Nat.strong_induction_on generalizing quoting first second with
  | _ length ih =>
    subst measured
    cases front quoting first with
    | nothing =>
        rw [squeeze_nil] at same
        rw [squeeze_eq_nil.mp same.symm]
        exact .nil quoting
    | @run blanks left some_blank blank ends =>
        rw [squeeze_run some_blank blank ends] at same
        cases front .free second with
        | nothing => simp [squeeze_nil] at same
        | run some_other other stops =>
            rw [squeeze_run some_other other stops] at same
            have shorter : left.length < (blanks ++ left).length := by
              simpa using List.length_pos_iff.mpr some_blank
            exact .run some_blank some_other (List.forall_mem_append.mpr ⟨blank, other⟩) ends stops
              (ih _ shorter (List.cons.inj same).2 rfl)
        | kept kept =>
            rw [squeeze_kept kept] at same
            obtain ⟨rfl, -⟩ := List.cons.inj same
            exact absurd ⟨rfl, by decide⟩ kept
    | kept kept =>
        rw [squeeze_kept kept] at same
        cases front quoting second with
        | nothing => simp [squeeze_nil] at same
        | run some_other other stops =>
            rw [squeeze_run some_other other stops] at same
            obtain ⟨rfl, -⟩ := List.cons.inj same
            exact absurd ⟨rfl, by decide⟩ kept
        | kept too =>
            rw [squeeze_kept too] at same
            obtain ⟨rfl, later⟩ := List.cons.inj same
            exact .kept kept (ih _ (Nat.lt_succ_self _) later rfl)

/-- The normal form is its own normal form; it has no blank at either end and single spaces outside quotes, and keeps
all else of the trimmed text; and it is the same for two texts just when they are the same, trimmed, but for their runs
of blanks outside quotes. A text is trimmed by leaving out the blanks at its ends, and quotes are followed by their
grammar. -/
theorem normalizeSpacing_canonical :
    (∀ text : String,
      let normal := normalizeSpacing text
      normalizeSpacing normal = normal ∧ trim normal.toList = normal.toList ∧ Trimmed normal.toList ∧
        SingleSpaced normal.toList ∧ solid .free normal.toList = solid .free (trim text.toList)) ∧
    (∀ first second : String,
      normalizeSpacing first = normalizeSpacing second ↔ Respaced .free (trim first.toList) (trim second.toList)) ∧
    (∀ chars, Trimmed (trim chars) ∧ ∃ before behind, chars = before ++ trim chars ++ behind ∧
      ∀ c ∈ before ++ behind, isBlank c = true) ∧
    ∀ chars, Quoting.free.behind chars = .free ↔ Unquoted chars := by
  refine ⟨?_, ?_, fun chars => ⟨trimmed_trim chars, trim_parts chars⟩, fun chars => behind_eq_free_iff⟩
  · intro text
    have chars : (normalizeSpacing text).toList = squeeze .free (trim text.toList) := String.toList_ofList
    have trimmed : trim (normalizeSpacing text).toList = (normalizeSpacing text).toList := by
      rw [chars, ← squeeze_trim, trim_trim]
    refine ⟨normalizeSpacing_normalizeSpacing text, trimmed, ?_, ?_, ?_⟩
    · rw [← trimmed]
      exact trimmed_trim _
    · rw [chars]
      exact fun before c behind parts unquoted => squeeze_spaced .free _ before behind c parts unquoted.behind
    · rw [chars, solid_squeeze]
  · intro first second
    rw [normalizeSpacing, normalizeSpacing, String.ofList_inj]
    exact ⟨respaced_of_squeeze, Respaced.squeeze⟩

end SchemaDrift.Text
