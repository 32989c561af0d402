import DecisionForest.Proofs.Row.Stream
import DecisionForest.Proofs.Text.Lines

/-!
# Rows one turn at a time

A reader of rows goes through its stream with one buffer for all lines. In each turn it empties the
buffer, reads a line onto its end, counts the line if it is text, and parses it. A line that is silent
makes it take another turn at once; a line with an error does not stop it.

- `Rows.Cursor` is a reader between two turns, `Rows.Cursor.turn` a turn,
- `Rows.Cursor.Yields` lists what the turns give up to the one that finds the end,
- `Rows.Cursor.yields_iff` says that this is always exactly the items of the lines left: no reader
  goes on for ever, and what the buffer held before does not matter.
-/

namespace DecisionForest
namespace Rows

/-- The line feed that ends a line says nothing about it. -/
theorem readLine_append_feed (offset : FeatureId) (number : Nat) (raw : List UInt8) :
    readLine offset number (raw ++ [0x0A]) = readLine offset number raw := by
  rw [readLine, readLine, Utf8.decode?_append_ascii (by decide)]
  cases Utf8.decode? raw with
  | error position =>
      rfl
  | ok cs =>
      have hsame : RowLine.read offset (cs ++ ['\n']) = RowLine.read offset cs :=
        RowLine.read_congr (RowLine.tokens_append_blank cs (by decide))
      exact congrArg (Except.mapError _) hsame

theorem isText_append_feed (raw : List UInt8) : isText (raw ++ [0x0A]) = isText raw := by
  rw [isText, isText, Utf8.decode?_append_ascii (by decide)]
  cases Utf8.decode? raw <;> rfl

structure Cursor where
  unread : List UInt8
  counted : Nat
  buffer : List Char

/-- What a turn comes to. -/
inductive Turn where
  | ended
  | silent
  | item (x : Except Error Row)

def Turn.ofLine : Except Error (Option Row) → Turn
  | .ok none => .silent
  | .ok (some row) => .item (.ok row)
  | .error e => .item (.error e)

namespace Cursor

variable {offset : FeatureId} {c c' : Cursor} {xs ys : List (Except Error Row)}
  {raw line : List UInt8}

/-! ## Turns -/

def start (stream : List UInt8) : Cursor :=
  { unread := stream, counted := 0, buffer := [] }

def clear (c : Cursor) : Cursor :=
  { c with buffer := [] }

def count (c : Cursor) : Cursor :=
  { c with counted := c.counted + 1 }

/-- The bytes up to the next line feed, which belongs to them. -/
def upToFeed : List UInt8 → List UInt8
  | [] => []
  | b :: rest => if b = 0x0A then [b] else b :: upToFeed rest

/-- Read a line onto the end of the buffer, and say how many bytes it has. The bytes of a line that is
not text are read too, but leave the buffer as it is. -/
def readLine (c : Cursor) : Cursor × Except StorageError Nat :=
  let raw := upToFeed c.unread
  let unread := c.unread.drop raw.length
  match Utf8.decode? raw with
  | .ok cs => ({ c with unread, buffer := c.buffer ++ cs }, .ok raw.length)
  | .error _ => ({ c with unread }, .error .notText)

def turn (offset : FeatureId) (c : Cursor) : Turn × Cursor :=
  match c.clear.readLine with
  | (c, .error e) => (.item (.error (.storage e)), c)
  | (c, .ok 0) => (.ended, c)
  | (c, .ok (_ + 1)) =>
    match RowLine.read offset c.buffer with
    | .ok none => (.silent, c.count)
    | .ok (some row) => (.item (.ok row), c.count)
    | .error fault => (.item (.error (.rows (.line c.count.counted fault))), c.count)

/-- The items of all turns up to the one that finds the end. -/
inductive Yields (offset : FeatureId) : Cursor → List (Except Error Row) → Prop where
  | ended {c c' : Cursor} : turn offset c = (.ended, c') → Yields offset c []
  | silent {c c' : Cursor} {xs : List (Except Error Row)} : turn offset c = (.silent, c') →
      Yields offset c' xs → Yields offset c xs
  | item {c c' : Cursor} {x : Except Error Row} {xs : List (Except Error Row)} :
      turn offset c = (.item x, c') → Yields offset c' xs → Yields offset c (x :: xs)

/-! ## One turn -/

theorem upToFeed_last (h : 0x0A ∉ line) : upToFeed line = line := by
  induction line with
  | nil =>
      rfl
  | cons b rest ih =>
      rw [List.mem_cons, not_or] at h
      rw [upToFeed, if_neg (Ne.symm h.1), ih h.2]

theorem upToFeed_line (h : 0x0A ∉ line) (rest : List UInt8) :
    upToFeed (line ++ 0x0A :: rest) = line ++ [0x0A] := by
  induction line with
  | nil =>
      rfl
  | cons b tail ih =>
      rw [List.mem_cons, not_or] at h
      rw [List.cons_append, upToFeed, if_neg (Ne.symm h.1), ih h.2, List.cons_append]

theorem readLine_of_text {cs : List Char} (hraw : upToFeed c.unread = raw)
    (hcs : Utf8.decode? raw = .ok cs) :
    c.clear.readLine =
      ({ unread := c.unread.drop raw.length, counted := c.counted, buffer := cs },
        .ok raw.length) := by
  simp [readLine, clear, hraw, hcs]

theorem readLine_of_broken {position : Nat} (hraw : upToFeed c.unread = raw)
    (hcs : Utf8.decode? raw = .error position) :
    c.clear.readLine =
      ({ unread := c.unread.drop raw.length, counted := c.counted, buffer := [] },
        .error .notText) := by
  simp [readLine, clear, hraw, hcs]

theorem turn_of_nil (h : c.unread = []) : turn offset c = (.ended, c.clear) := by
  simp [turn, clear, readLine, h, upToFeed, Utf8.decode?, Utf8.pieces_nil, Utf8.Piece.collect]

/-- A turn with a line left is about that line, whatever the buffer holds. -/
theorem exists_turn (hraw : upToFeed c.unread = raw) (hne : raw ≠ []) :
    ∃ buffer, turn offset c = (.ofLine (Rows.readLine offset (c.counted + 1) raw),
      { unread := c.unread.drop raw.length
        counted := c.counted + [raw].countP isText
        buffer }) := by
  obtain ⟨n, hlength⟩ := Nat.exists_eq_succ_of_ne_zero (mt List.length_eq_zero_iff.1 hne)
  rw [List.countP_singleton, isText]
  cases hcs : Utf8.decode? raw with
  | error position =>
      refine ⟨[], ?_⟩
      rw [turn, readLine_of_broken hraw hcs, Rows.readLine, hcs]
      rfl
  | ok cs =>
      refine ⟨cs, ?_⟩
      rw [turn, readLine_of_text hraw hcs, Rows.readLine, hcs, hlength]
      dsimp only
      cases RowLine.read offset cs with
      | error fault =>
          rfl
      | ok row? =>
          cases row? <;> rfl

/-! ## All turns -/

theorem Yields.of_turn {x : Except Error (Option Row)} (hturn : turn offset c = (.ofLine x, c'))
    (hrest : Yields offset c' xs) : Yields offset c ((item? x).toList ++ xs) := by
  rcases x with e | _ | row
  · exact .item hturn hrest
  · exact .silent hturn hrest
  · exact .item hturn hrest

theorem Yields.unique (h : Yields offset c xs) (h' : Yields offset c ys) : xs = ys := by
  -- Both lists are read off the same turn.
  induction h generalizing ys with
  | ended hturn =>
      cases h' with
      | ended _ =>
          rfl
      | silent hturn' _ | item hturn' _ =>
          cases hturn.symm.trans hturn'
  | silent hturn _ ih =>
      cases h' with
      | silent hturn' hrest =>
          cases hturn.symm.trans hturn'
          exact ih hrest
      | ended hturn' | item hturn' _ =>
          cases hturn.symm.trans hturn'
  | item hturn _ ih =>
      cases h' with
      | item hturn' hrest =>
          cases hturn.symm.trans hturn'
          rw [ih hrest]
      | ended hturn' | silent hturn' _ =>
          cases hturn.symm.trans hturn'

theorem yields_itemsFrom (offset : FeatureId) (c : Cursor) :
    Yields offset c (itemsFrom offset c.counted (Text.lines c.unread)) := by
  obtain ⟨unread, counted, buffer⟩ := c
  induction unread using Text.streamInduction generalizing counted buffer with
  | last line h =>
      by_cases hne : line = []
      · subst hne
        exact .ended (turn_of_nil rfl)
      · obtain ⟨buffer', hturn⟩ :=
          @exists_turn offset ⟨line, counted, buffer⟩ line (upToFeed_last h) hne
        rw [List.drop_length] at hturn
        rw [Text.lines_last h hne, itemsFrom_cons]
        exact .of_turn hturn (.ended (turn_of_nil rfl))
  | line line rest h ih =>
      obtain ⟨buffer', hturn⟩ :=
        @exists_turn offset ⟨line ++ 0x0A :: rest, counted, buffer⟩ _ (upToFeed_line h rest) (by simp)
      have hdrop : (line ++ 0x0A :: rest).drop (line ++ [0x0A]).length = rest := by
        have hsplit : line ++ 0x0A :: rest = (line ++ [0x0A]) ++ rest := List.append_cons line 0x0A rest
        rw [hsplit, List.drop_left]
      rw [readLine_append_feed, hdrop, List.countP_singleton, isText_append_feed,
        ← List.countP_singleton] at hturn
      rw [Text.lines_header h, itemsFrom_cons]
      exact .of_turn hturn (ih _ _)

theorem yields_iff :
    Yields offset c xs ↔ xs = itemsFrom offset c.counted (Text.lines c.unread) := by
  constructor
  · intro h
    exact h.unique (yields_itemsFrom offset c)
  · rintro rfl
    exact yields_itemsFrom offset c

end Cursor
end Rows
end DecisionForest
