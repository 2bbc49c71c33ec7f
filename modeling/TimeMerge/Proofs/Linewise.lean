import Mathlib.Data.List.Forall2
import TimeMerge.Proofs.Documents
import TimeMerge.Proofs.Phases

/-!
# Line by line

A text is read as its lines, each for itself: what a line gives depends on that line and its number
and on nothing before it or after it. -/
namespace TimeMerge

namespace Text

/-- The lines of a text, each of them ended by a line feed, but for the last. -/
def lines (s : String) : List String := (s.toList.splitOn '\n').map String.ofList

/-- A line without the carriage returns at its end. -/
def withoutReturns (line : String) : String :=
  String.ofList (line.toList.rdropWhile (· == '\r'))

end Text

namespace JsonLines

/-- The lines that hold a document, with their numbers: blank lines hold none, but count. -/
def documents (text : String) : List (String × Nat) :=
  ((Text.lines text).zipIdx 1).filter fun line => !Text.allBlank line.1

/-- What a line gives that is read for itself: its value, or why it is none. -/
inductive Answers (name : String) (line : String × Nat) : Reading Json → Prop where
  | value {j : Json} (parsed : Json.parse (Utf8.encode (Text.withoutReturns line.1)) = .ok j) :
      Answers name line (.ok (some j))
  | malformed {e : Json.SyntaxError} {defect : Defect}
      (refused : Json.parse (Utf8.encode (Text.withoutReturns line.1)) = .error e)
      (words : defect.message = s!"{name}:{line.2}: invalid JSON: {e.message}") :
      Answers name line (.error (.malformed defect))

theorem split_eq_splitOn (s : Bytes) : (split s).1 ++ [(split s).2] = s.splitOn Ascii.lineFeed := by
  induction s with
  | nil => rfl
  | cons b s ih =>
    rw [List.splitOn_cons_eq_if_modifyHead, ← ih]
    unfold split
    rw [List.foldr_cons]
    by_cases hb : b = Ascii.lineFeed
    · rw [if_pos hb, if_pos (beq_iff_eq.2 hb)]
      rfl
    · rw [if_neg hb, if_neg (by simpa using hb)]
      split <;> rename_i hlines <;> rw [hlines] <;> rfl

theorem splitOn_encode (text : String) :
    (Utf8.encode text).splitOn Ascii.lineFeed = (Text.lines text).map Utf8.encode := by
  have hend : String.utf8EncodeChar '\n' = [Ascii.lineFeed] := by decide
  have hother : ∀ c ≠ '\n', Ascii.lineFeed ∉ String.utf8EncodeChar c := by
    intro c hc hm
    have heq : (Ascii.lineFeed == Ascii.lineFeed) = (c == '\n') :=
      Utf8.beq_of_mem_encodeChar (by decide) hm
    exact hc (beq_iff_eq.1 (heq.symm.trans (beq_self_eq_true _)))
  rw [Utf8.encode, splitOn_flatMap hend hother, Text.lines, List.map_map]
  refine List.map_congr_left fun line _ => ?_
  rw [Function.comp_apply, Utf8.encode_ofList]

theorem dropReturns_encode (line : String) :
    dropReturns (Utf8.encode line) = Utf8.encode (Text.withoutReturns line) := by
  rw [Text.withoutReturns, Utf8.encode_ofList]
  exact rdropWhile_flatMap (fun _ => String.utf8EncodeChar_ne_nil)
    (fun _ _ hb => Utf8.beq_of_mem_encodeChar (by decide) hb) line.toList

/-- An empty line is blank, so nothing is read from it. -/
theorem readings_concat_nil (name : String) (count : Nat) (lines : List Bytes) :
    readings name count (lines ++ [[]]) = readings name count lines := by
  induction lines generalizing count with
  | nil => rfl
  | cons line lines ih =>
    rw [List.cons_append, readings, readings]
    simp only [ih]

theorem inlet_of_ends (name : String) {contents : Contents} (hends : contents.failure = none) :
    inlet name contents =
      { name, upcoming := readings name 0 (contents.bytes.splitOn Ascii.lineFeed) } := by
  rw [inlet, hends, ← split_eq_splitOn]
  dsimp only
  split
  · rename_i hlast
    rw [List.isEmpty_iff.1 hlast, readings_concat_nil]
  · rfl

variable {name : String}

theorem answers_readLine (name line : String) (number : Nat) :
    Answers name (line, number) (readLine name number (Utf8.encode line)) := by
  rw [readLine, dropReturns_encode]
  cases hread : Json.parse (Utf8.encode (Text.withoutReturns line)) with
  | ok j => exact .value hread
  | error e => exact .malformed hread rfl

theorem forall₂_readings (name : String) (count : Nat) (lines : List String) :
    List.Forall₂ (Answers name)
      ((lines.zipIdx (count + 1)).filter fun line => !Text.allBlank line.1)
      (readings name count (lines.map Utf8.encode)) := by
  induction lines generalizing count with
  | nil => exact .nil
  | cons line lines ih =>
    rw [List.zipIdx_cons, List.map_cons, readings, Utf8.decode_encode]
    dsimp only
    cases hblank : Text.allBlank line with
    | true =>
      rw [List.filter_cons_of_neg (by simp [hblank]), if_pos rfl]
      exact ih (count + 1)
    | false =>
      rw [List.filter_cons_of_pos (by simp [hblank]), if_neg Bool.false_ne_true]
      exact .cons (answers_readLine name line (count + 1)) (ih (count + 1))

/-- A text that ends without a failure gives one outcome for each line that is not blank, in their
order, and then the end of the data for ever. -/
theorem reads_documents {text : String} {contents : Contents}
    (hbytes : contents.bytes = Utf8.encode text) (hends : contents.failure = none) :
    ∃ outcomes, (inlet name contents).Reads outcomes ∧
      List.Forall₂ (Answers name) (documents text) outcomes := by
  have hinlet := inlet_of_ends name hends
  rw [hbytes, splitOn_encode] at hinlet
  refine ⟨_, Inlet.reads_of_upcoming (by rw [hinlet]) rfl, ?_⟩
  rw [hinlet]
  exact forall₂_readings name 0 (Text.lines text)

/-- Lines of each kind: with carriage returns after them and within, of blanks that are none of
ASCII, empty, of no value, and without a line feed. -/
def motley : String := "[1]\r\n\u2003\u00A0\r\n\x7b\"a\":\r1\x7d\r\r\n\n]\r\n \"é\" "

theorem reads_documents_motley :
    documents motley =
        [("[1]\r", 1), ("\x7b\"a\":\r1\x7d\r\r", 3), ("]\r", 5), (" \"é\" ", 6)] ∧
      ∃ outcomes, (inlet "in" { bytes := Utf8.encode motley }).Reads outcomes ∧
        List.Forall₂ (Answers "in") (documents motley) outcomes :=
  ⟨by decide +kernel, reads_documents rfl rfl⟩

end JsonLines

end TimeMerge
