import SchemaDrift.Proofs.Gate
import SchemaDrift.Proofs.KeyText
import Mathlib.Algebra.GroupWithZero.Nat

/-!
The line that sums up the changes of a table tells all that was counted. Its phrases have no commas inside, so the line
falls apart into them; what a phrase counts is told by the words behind its number, and no two counts or flags have the
same words.
-/

namespace SchemaDrift

open KeyPart (append_cons_cancel isDigit_toDigits notMem_toDigits)

def phraseNumber (phrase : String) : Nat :=
  Nat.ofDigitChars 10 (phrase.toList.takeWhile Char.isDigit) 0

def phraseWords (phrase : String) : List Char :=
  phrase.toList.dropWhile Char.isDigit

def countWords (singular plural verb : String) : List (List Char) :=
  [singular, plural].map fun noun => ' ' :: (noun.toList ++ ' ' :: verb.toList)

theorem countPhrase_cases (singular plural verb : String) (count : Nat) :
    (count = 0 ∧ countPhrase singular plural verb count = []) ∨
      ∃ phrase, ∃ words ∈ countWords singular plural verb,
        countPhrase singular plural verb count = [phrase] ∧ phrase.toList = Nat.toDigits 10 count ++ words := by
  by_cases zero : count = 0
  · exact .inl ⟨zero, if_pos zero⟩
  · refine .inr ⟨_, ' ' :: ((if count = 1 then singular else plural).toList ++ ' ' :: verb.toList), ?_,
      if_neg zero, ?_⟩
    · unfold countWords
      split <;> simp
    · simp

theorem phrase_parts {singular plural verb phrase : String} {words : List Char} {count : Nat}
    (worded : words ∈ countWords singular plural verb) (said : phrase.toList = Nat.toDigits 10 count ++ words) :
    phraseNumber phrase = count ∧ phraseWords phrase = words := by
  obtain ⟨noun, _, rfl⟩ := List.mem_map.mp worded
  have blank : Char.isDigit ' ' = false := by decide
  constructor
  · rw [phraseNumber, said, List.takeWhile_append_of_pos (isDigit_toDigits count),
      List.takeWhile_cons_of_neg (by simp [blank]), List.append_nil, Nat.ofDigitChars_ten_toDigits]
  · rw [phraseWords, said, List.dropWhile_append_of_pos (isDigit_toDigits count),
      List.dropWhile_cons_of_neg (by simp [blank])]

def counted (singular plural verb : String) (phrases : List String) : Nat :=
  ((phrases.filter (phraseWords · ∈ countWords singular plural verb)).map phraseNumber).sum

section Counted

variable {singular plural verb : String}

theorem counted_append (first second : List String) :
    counted singular plural verb (first ++ second) =
      counted singular plural verb first + counted singular plural verb second := by
  simp [counted]

theorem counted_countPhrase (count : Nat) :
    counted singular plural verb (countPhrase singular plural verb count) = count := by
  rcases countPhrase_cases singular plural verb count with ⟨zero, silent⟩ | ⟨phrase, words, worded, one, said⟩
  · rw [silent, zero]
    rfl
  · obtain ⟨number, read⟩ := phrase_parts worded said
    simp [one, counted, read, worded, number]

theorem counted_otherPhrase {one several done : String}
    (apart : ∀ words ∈ countWords one several done, words ∉ countWords singular plural verb) (count : Nat) :
    counted singular plural verb (countPhrase one several done count) = 0 := by
  rcases countPhrase_cases one several done count with ⟨_, silent⟩ | ⟨phrase, words, worded, only, said⟩
  · rw [silent]
    rfl
  · obtain ⟨_, read⟩ := phrase_parts worded said
    simp [only, counted, read, apart words worded]

theorem counted_flagPhrase {phrase : String} (apart : phraseWords phrase ∉ countWords singular plural verb)
    (flag : Bool) : counted singular plural verb (flagPhrase flag phrase) = 0 := by
  cases flag <;> simp [flagPhrase, counted, apart]

end Counted

theorem mem_flagPhrase {flag : Bool} {phrase other : String} :
    phrase ∈ flagPhrase flag other ↔ flag = true ∧ phrase = other := by
  cases flag <;> simp [flagPhrase]

theorem notMem_countPhrase {phrase : String} (worded : phrase.toList.head?.any Char.isDigit = false)
    (singular plural verb : String) (count : Nat) : phrase ∉ countPhrase singular plural verb count := by
  intro member
  rcases countPhrase_cases singular plural verb count with ⟨_, silent⟩ | ⟨other, words, _, only, said⟩
  · simp [silent] at member
  · obtain rfl : phrase = other := by simpa [only] using member
    obtain ⟨digit, digits, number⟩ := List.exists_cons_of_ne_nil (Nat.toDigits_ne_nil (n := count) (b := 10))
    have numeral := isDigit_toDigits count digit (number ▸ List.mem_cons_self)
    simp [said, number, numeral] at worded

def ChangeCounts.ofPhrases (singular plural : String) (phrases : List String) : ChangeCounts where
  added := counted singular plural "added" phrases
  removed := counted singular plural "removed" phrases
  modified := counted singular plural "modified" phrases

namespace TableSummary

def ofPhrases (phrases : List String) : TableSummary where
  nameChanged := "name changed" ∈ phrases
  columns := .ofPhrases "column" "columns" phrases
  indexes := .ofPhrases "index" "indexes" phrases
  foreignKeys := .ofPhrases "foreign key" "foreign keys" phrases
  checks := .ofPhrases "check" "checks" phrases
  primaryKeyChanged := "primary key changed" ∈ phrases
  optionsChanged := "options changed" ∈ phrases
  partitioningChanged := "partitioning changed" ∈ phrases

theorem ofPhrases_phrases (summary : TableSummary) : ofPhrases summary.phrases = summary := by
  obtain ⟨name, columns, indexes, foreignKeys, checks, primaryKey, options, partitioning⟩ := summary
  simp only [ofPhrases, phrases, TableSummary.mk.injEq]
  refine ⟨?_, ?_, ?_, ?_, ?_, ?_, ?_, ?_⟩
  all_goals
    simp (disch := decide) [ChangeCounts.ofPhrases, ChangeCounts.phrases, mem_flagPhrase, notMem_countPhrase,
      counted_append, counted_countPhrase, counted_otherPhrase, counted_flagPhrase]

end TableSummary

/-! The line falls apart at its commas. -/

theorem intercalate_closed {first : String} {rest : List String} :
    (", ".intercalate (first :: rest)).toList ++ [',', ' '] =
      (first :: rest).flatMap fun phrase => phrase.toList ++ [',', ' '] := by
  induction rest generalizing first with
  | nil => simp
  | cons next rest ih =>
      rw [List.flatMap_cons, ← ih]
      simp [String.intercalate_cons_cons]

/-- Phrases that are closed by a comma each, and have none inside, are known from their text. -/
theorem closed_injective {first second : List String} (first_free : ∀ phrase ∈ first, ',' ∉ phrase.toList)
    (second_free : ∀ phrase ∈ second, ',' ∉ phrase.toList)
    (same : (first.flatMap fun phrase => phrase.toList ++ [',', ' ']) =
      second.flatMap fun phrase => phrase.toList ++ [',', ' ']) : first = second := by
  induction first generalizing second with
  | nil => cases second <;> simp_all
  | cons phrase first ih =>
      cases second with
      | nil => simp at same
      | cons other second =>
          simp only [List.flatMap_cons, List.append_assoc, List.cons_append, List.nil_append] at same
          rw [List.forall_mem_cons] at first_free second_free
          obtain ⟨heads, tails⟩ := append_cons_cancel ',' _ _ _ _ first_free.1 second_free.1 same
          rw [String.toList_inj.mp heads, ih first_free.2 second_free.2 (List.tail_eq_of_cons_eq tails)]

theorem comma_flagPhrase {phrase : String} (free : ',' ∉ phrase.toList) (flag : Bool) :
    ∀ other ∈ flagPhrase flag phrase, ',' ∉ other.toList := by
  intro other member
  rwa [(mem_flagPhrase.mp member).2]

theorem comma_countPhrase {singular plural verb : String}
    (free : ∀ words ∈ countWords singular plural verb, ',' ∉ words) (count : Nat) :
    ∀ phrase ∈ countPhrase singular plural verb count, ',' ∉ phrase.toList := by
  intro phrase member
  rcases countPhrase_cases singular plural verb count with ⟨_, silent⟩ | ⟨other, words, worded, only, said⟩
  · simp [silent] at member
  · obtain rfl : phrase = other := by simpa [only] using member
    have digits : ',' ∉ Nat.toDigits 10 count := notMem_toDigits (by decide) count
    simp [said, digits, free words worded]

namespace TableSummary

def spoken (summary : TableSummary) : List String :=
  if summary.phrases.isEmpty then ["no changes"] else summary.phrases

theorem text_eq (summary : TableSummary) : summary.text = ", ".intercalate summary.spoken := by
  unfold text spoken
  split <;> simp

theorem ofPhrases_spoken (summary : TableSummary) : ofPhrases summary.spoken = summary := by
  unfold spoken
  split
  case isTrue silent =>
    have nothing : ofPhrases ["no changes"] = ofPhrases [] := by decide
    rw [nothing, ← List.isEmpty_iff.mp silent, ofPhrases_phrases]
  case isFalse => exact ofPhrases_phrases summary

theorem comma_spoken (summary : TableSummary) : ∀ phrase ∈ summary.spoken, ',' ∉ phrase.toList := by
  unfold spoken
  split
  case isTrue => decide
  case isFalse =>
    simp only [phrases, ChangeCounts.phrases, List.forall_mem_append]
    and_intros
    all_goals first | exact comma_flagPhrase (by decide) _ | exact comma_countPhrase (by decide) _

theorem text_closed (summary : TableSummary) :
    summary.text.toList ++ [',', ' '] = summary.spoken.flatMap fun phrase => phrase.toList ++ [',', ' '] := by
  have some_phrase : summary.spoken ≠ [] := by
    unfold spoken
    split <;> simp_all
  obtain ⟨first, rest, spoken⟩ := List.exists_cons_of_ne_nil some_phrase
  rw [text_eq, spoken, intercalate_closed]

theorem eq_of_text {first second : TableSummary} (same : first.text = second.text) : first = second := by
  have closed := first.text_closed
  rw [same, second.text_closed] at closed
  have phrases := closed_injective second.comma_spoken first.comma_spoken closed
  rw [← ofPhrases_spoken first, ← ofPhrases_spoken second, phrases]

end TableSummary

theorem ChangeCounts.ofChanges_zero {α : Type} [Compared α] (changes : List (Change α)) :
    ofChanges changes = ⟨0, 0, 0⟩ ↔ changes = [] := by
  constructor
  · intro zero
    have total := total_ofChanges changes
    rw [zero] at total
    exact List.length_eq_zero_iff.mp total.symm
  · rintro rfl
    rfl

theorem TableDiff.summary_silent (diff : TableDiff) : diff.summary = .ofPhrases [] ↔ diff.hasChanges = false := by
  have silent : TableSummary.ofPhrases [] =
      ⟨false, ⟨0, 0, 0⟩, ⟨0, 0, 0⟩, ⟨0, 0, 0⟩, ⟨0, 0, 0⟩, false, false, false⟩ := by decide
  rw [silent_iff, silent, summary]
  simp only [TableSummary.mk.injEq, ChangeCounts.ofChanges_zero, Option.isSome_eq_false_iff, Option.isNone_iff_eq_none]
  tauto

/-- Summaries with the same line are the same, and the line says that there are no changes just when there are none. -/
theorem TableSummary.text_faithful :
    Function.Injective text ∧
    ∀ (renames : Bool) (old new : Option Table),
      (TableDiff.between renames old new).summary.text = "no changes" ↔
        (TableDiff.between renames old new).hasChanges = false := by
  refine ⟨fun _ _ => eq_of_text, fun renames old new => ?_⟩
  have nothing : (ofPhrases []).text = "no changes" := by decide
  rw [← TableDiff.summary_silent, ← nothing]
  exact ⟨eq_of_text, congrArg text⟩

end SchemaDrift
