import Mathlib.Data.List.Basic
import DecisionForest.Proofs.Text.Ascii

/-!
# Where the lines of a stream are cut

- `Text.lines_feed` cuts a stream at any of its line feeds, `Text.lines_header` at the first one,
- `Text.lines_append_feed` is a stream with one more line feed at its end,
- `Text.lines_append` is a stream in two parts, the first of which ends where a line does,
- `Text.streamInduction` goes through a stream line by line,
- `Text.withReturns` is a stream with a carriage return before each line feed, whose lines are those
  of the stream, each as it was or with a carriage return (`Text.lines_withReturns`).
-/

namespace DecisionForest
namespace Text

/-! ## Line feeds -/

/-- What stands before a line feed is cut by itself, the line that it ends being kept if empty. -/
theorem lines_feed (before after : List UInt8) :
    lines (before ++ 0x0A :: after) = before.splitOn 0x0A ++ lines after := by
  have hne : after.splitOn 0x0A ≠ [] := List.splitOn_ne_nil 0x0A after
  have hparts : (before ++ 0x0A :: after).splitOn 0x0A =
      before.splitOn 0x0A ++ after.splitOn 0x0A :=
    List.splitOn_append_cons_self before after
  unfold lines
  simp only [hparts, List.getLast?_append_of_ne_nil _ hne, List.dropLast_append_of_ne_nil hne]
  split <;> rfl

theorem lines_nil : lines [] = [] :=
  rfl

theorem lines_header {header : List UInt8} (h : 0x0A ∉ header) (rest : List UInt8) :
    lines (header ++ 0x0A :: rest) = header :: lines rest := by
  rw [lines_feed, List.splitOn_eq_singleton h, List.singleton_append]

/-- One more line feed makes no difference, or one more line that is empty. -/
theorem lines_append_feed (stream : List UInt8) :
    lines (stream ++ [0x0A]) = lines stream ∨ lines (stream ++ [0x0A]) = lines stream ++ [[]] := by
  have hfeed : lines (stream ++ [0x0A]) = stream.splitOn 0x0A := by
    rw [lines_feed, lines_nil, List.append_nil]
  rw [hfeed]
  unfold lines
  by_cases hlast : (stream.splitOn 0x0A).getLast? = some []
  · right
    rw [if_pos hlast]
    exact (List.dropLast_append_getLast? [] hlast).symm
  · left
    rw [if_neg hlast]

/-- A stream whose last line is not cut short. -/
def IsWhole (stream : List UInt8) : Prop :=
  stream = [] ∨ stream.getLast? = some 0x0A

theorem lines_append {before : List UInt8} (h : IsWhole before) (after : List UInt8) :
    lines (before ++ after) = lines before ++ lines after := by
  rcases h with rfl | hlast
  · rfl
  · obtain ⟨front, rfl⟩ := List.getLast?_eq_some_iff.1 hlast
    rw [List.append_assoc, List.singleton_append, lines_feed, lines_feed, lines_nil,
      List.append_nil]

theorem lines_last {line : List UInt8} (h : 0x0A ∉ line) (hne : line ≠ []) : lines line = [line] := by
  simp [lines, List.splitOn_eq_singleton h, hne]

/-! ## Line by line -/

/-- A stream is what stands in one line, or a line with its line feed and a further stream. -/
theorem streamInduction {motive : List UInt8 → Prop}
    (last : ∀ line, 0x0A ∉ line → motive line)
    (line : ∀ line rest, 0x0A ∉ line → motive rest → motive (line ++ 0x0A :: rest))
    (stream : List UInt8) : motive stream := by
  -- On the length of the stream, as a line may be of any length.
  induction hlength : stream.length using Nat.strongRecOn generalizing stream with
  | ind n ih =>
      by_cases hmem : 0x0A ∈ stream
      · obtain ⟨first, rest, hstream, hfirst⟩ := List.eq_append_cons_of_mem hmem
        have hshorter : rest.length < n := by
          rw [← hlength, hstream, List.length_append, List.length_cons]
          omega
        rw [hstream]
        exact line first rest hfirst (ih rest.length hshorter rest rfl)
      · exact last stream hmem

theorem not_mem_of_mem_lines {stream line : List UInt8} (h : line ∈ lines stream) :
    0x0A ∉ line := by
  induction stream using streamInduction with
  | last only honly =>
      by_cases hne : only = []
      · subst hne
        rw [lines_nil] at h
        cases h
      · rw [lines_last honly hne, List.mem_singleton] at h
        rwa [h]
  | line first rest hfirst ih =>
      rw [lines_header hfirst, List.mem_cons] at h
      rcases h with rfl | h
      · exact hfirst
      · exact ih h

/-! ## Carriage returns -/

/-- The stream with a carriage return before each line feed. -/
def withReturns (stream : List UInt8) : List UInt8 :=
  stream.flatMap fun b => if b = 0x0A then [0x0D, 0x0A] else [b]

theorem withReturns_of_not_mem {line : List UInt8} (h : 0x0A ∉ line) : withReturns line = line := by
  have hkeep : ∀ b ∈ line, (if b = 0x0A then [0x0D, 0x0A] else [b]) = [b] := by
    intro b hb
    have hne : b ≠ 0x0A := fun heq => h (heq ▸ hb)
    exact if_neg hne
  calc
    withReturns line = line.flatMap fun b => [b] := List.flatMap_congr hkeep
    _ = line := by simp

theorem withReturns_line {line : List UInt8} (h : 0x0A ∉ line) (rest : List UInt8) :
    withReturns (line ++ 0x0A :: rest) = (line ++ [0x0D]) ++ 0x0A :: withReturns rest := by
  have hline : line.flatMap (fun b => if b = 0x0A then [0x0D, 0x0A] else [b]) = line :=
    withReturns_of_not_mem h
  simp [withReturns, List.flatMap_append, hline]

/-- A line as it was, or with a carriage return at its end. -/
def SameButReturn (line line' : List UInt8) : Prop :=
  line' = line ∨ line' = line ++ [0x0D]

theorem lines_withReturns (stream : List UInt8) :
    List.Forall₂ SameButReturn (lines stream) (lines (withReturns stream)) := by
  induction stream using streamInduction with
  | last line h =>
      rw [withReturns_of_not_mem h]
      exact List.forall₂_same.2 fun _ _ => Or.inl rfl
  | line line rest h ih =>
      have hreturn : 0x0A ∉ line ++ [0x0D] := by
        simp [h]
      rw [withReturns_line h, lines_header h, lines_header hreturn]
      exact .cons (Or.inr rfl) ih

theorem dropReturns_append_return (cs : List Char) :
    dropReturns (cs ++ ['\r']) = dropReturns cs := by
  simp [dropReturns, isReturn]

end Text
end DecisionForest
