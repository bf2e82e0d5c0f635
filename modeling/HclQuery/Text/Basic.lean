/-
  Text as a list of characters: counting lines, stripping blanks, cutting at a separator, and
  one form for line breaks.

  * `strip` removes the blanks at both ends and nothing inside.
  * `splitAt` cuts at every separator, so it gives at least one piece (`splitAt_ne_nil`), and
    joining the pieces gives the text back (`intercalate_splitAt`).
-/
import HclQuery.Unicode.Blank

namespace HclQuery

/-- Source text, names and labels: a list of characters, never normalised. -/
abbrev Text := List Char

namespace Text

/-- How many line feeds the text holds. -/
def newlines (t : Text) : Nat :=
  t.count '\n'

@[simp] theorem newlines_nil : newlines [] = 0 := rfl

@[simp] theorem newlines_append (s t : Text) : newlines (s ++ t) = newlines s + newlines t :=
  List.count_append

/-- The text without the longest run of `p` at its end. -/
def dropEndWhile (p : Char → Bool) (t : Text) : Text :=
  (t.reverse.dropWhile p).reverse

/-- The text without the blanks at its two ends. -/
def strip (t : Text) : Text :=
  dropEndWhile Unicode.isBlank (t.dropWhile Unicode.isBlank)

/-- Every line break becomes a line feed: a carriage return with the line feed after it, and a
    carriage return alone. -/
def unifyBreaks : Text → Text
  | [] => []
  | c :: cs =>
    if c = '\r' then
      match cs with
      | '\n' :: rest => '\n' :: unifyBreaks rest
      | rest => '\n' :: unifyBreaks rest
    else c :: unifyBreaks cs

/-- The pieces of the text between the separators, empty pieces included. -/
def splitAt (sep : Char) : Text → List Text
  | [] => [[]]
  | c :: cs => if c = sep then [] :: splitAt sep cs else (splitAt sep cs).modifyHead (c :: ·)

theorem splitAt_ne_nil (sep : Char) (t : Text) : splitAt sep t ≠ [] := by
  induction t with
  | nil => simp [splitAt]
  | cons c cs ih =>
    unfold splitAt
    split
    · simp
    · cases h : splitAt sep cs with
      | nil => exact absurd h ih
      | cons s ss => simp

theorem intercalate_splitAt (sep : Char) (t : Text) :
    [sep].intercalate (splitAt sep t) = t := by
  induction t with
  | nil => rfl
  | cons c cs ih =>
    unfold splitAt
    cases h : splitAt sep cs with
    | nil => exact absurd h (splitAt_ne_nil sep cs)
    | cons s ss =>
      rw [h] at ih
      split
      · rename_i hc
        subst hc
        simpa [List.intercalate, List.intersperse] using ih
      · cases ss <;> simpa [List.intercalate, List.intersperse] using ih

/-- What follows the last separator, or the whole text if it holds none. -/
def afterLast (sep : Char) (t : Text) : Text :=
  (splitAt sep t).getLast (splitAt_ne_nil sep t)

end Text

end HclQuery
