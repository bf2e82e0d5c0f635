/-
  Heredocs: `<<` or `<<-`, a marker and a line end, then lines up to the first one that is the
  marker between blanks. The text of a heredoc ends with that closing line, less its line end and
  the carriage returns before it.
-/
import HclQuery.Failure
import HclQuery.Unicode.Alphanumeric

namespace HclQuery.Heredoc

/-- A character that may stand inside a name, after its first one. -/
def continuesName (c : Char) : Bool :=
  c = '-' || Unicode.isWord c

/-- A character that may start a marker. -/
def startsMarker (c : Char) : Bool :=
  c = '_' || c.isAlpha

/-- The size of the line end at the front of the text, 0 if there is none. -/
def lineEndSize : Text → Nat
  | '\n' :: _ => 1
  | '\r' :: '\n' :: _ => 2
  | _ => 0

/-- The first line of a heredoc: its marker, and its size with the line end. -/
structure Header where
  marker : Text
  size : Nat

/-- The header at the front of the text, from its second `<` on. -/
def header? (t : Text) : Option Header :=
  match t with
  | '<' :: afterOpening =>
    let dash := if ['-'].isPrefixOf afterOpening then 1 else 0
    match afterOpening.drop dash with
    | [] => none
    | c :: cs =>
      let more := cs.takeWhile continuesName
      let lineEnd := lineEndSize (cs.drop more.length)
      if startsMarker c && lineEnd ≠ 0 then
        some ⟨c :: more, 1 + dash + (1 + more.length) + lineEnd⟩
      else none
  | _ => none

/-- The size of the lines up to the closing one, and of the closing one without its line end. -/
def bodySize? (marker body : Text) : Option Nat :=
  let line := body.takeWhile (· ≠ '\n')
  if Text.strip line = marker then
    some (Text.dropEndWhile (· = '\r') line).length
  else
    match _h : body.dropWhile (· ≠ '\n') with
    | [] => none
    | _ :: below => (bodySize? marker below).map (line.length + 1 + ·)
termination_by body.length
decreasing_by
  have := (List.dropWhile_sublist (· ≠ '\n') (l := body)).length_le
  rw [_h, List.length_cons] at this
  omega

/-- The size of the heredoc with this header, which starts before `t`; the first `<` is not
    counted. -/
def size (header : Header) (t : Text) : Except Problem Nat :=
  match bodySize? header.marker (t.drop header.size) with
  | some n => .ok (header.size + n)
  | none => .error (.unterminatedHeredoc header.marker)

end HclQuery.Heredoc
