/-
  How far the cutting of a text comes.

  Tokens are cut off a source one after the other; `Token.Reaches` says which are cut off already,
  what is left, and on which line. Nothing in what is left has been looked at for good: the tokens
  would be cut off a source that ends there as well (`Reaches.front`). A source that is not cut
  gets stuck at one of these places, where no lexeme can be read (`exists_stuck`).
-/
import HclQuery.Proofs.Token.Cutting

namespace HclQuery.Token

/-- The tokens `ts` are cut off the source, and `rest` is left, which starts on `line`. -/
inductive Reaches (source : Text) : List Token → Int → Text → Prop where
  | start : Reaches source [] 1 source
  | lexeme {ts : List Token} {line : Int} {leading cs : Text} {c : Char} {l : Lexeme}
      (h : Reaches source ts line (leading ++ c :: cs))
      (hleading : ∀ d ∈ leading, isLeading d = true) (hc : isLeading c = false)
      (hread : Lexeme.read c cs = .ok l) :
      Reaches source (ts ++ [⟨l.kind, l.text c cs, leading, line⟩])
        (line + Text.newlines (l.text c cs)) (l.rest cs)

namespace Reaches

variable {source rest : Text} {ts : List Token} {line : Int}

theorem source_eq (h : Reaches source ts line rest) : source = sourceOf ts ++ rest := by
  induction h with
  | start => rfl
  | @lexeme ts line leading cs c l h hleading hc hread ih =>
    rw [ih, sourceOf_append, sourceOf_cons, sourceOf_nil, List.append_nil, List.append_assoc,
      List.append_assoc, l.text_append_rest]

/-- The line is counted by the line feeds of what is cut off. -/
theorem line_eq (h : Reaches source ts line rest) : line = 1 + Text.newlines (sourceOf ts) := by
  induction h with
  | start => rfl
  | lexeme h hleading hc hread ih =>
    rw [sourceOf_append, sourceOf_cons, sourceOf_nil, List.append_nil, Text.newlines_append,
      Text.newlines_append, newlines_leading hleading, Nat.zero_add, Int.natCast_add,
      ← Int.add_assoc, ← ih]

/-- The source is cut into these tokens and those of the rest. -/
theorem ofText_eq (h : Reaches source ts line rest) :
    ofText source = (ofTextFrom line rest).map (ts ++ ·) := by
  induction h with
  | start =>
    rw [ofText]
    cases ofTextFrom 1 source <;> rfl
  | @lexeme ts line leading cs c l h hleading hc hread ih =>
    rw [ih, ofTextFrom_lexeme hleading hc hread]
    cases ofTextFrom (line + Text.newlines (l.text c cs)) (l.rest cs) with
    | error fault => rfl
    | ok us => exact congrArg Except.ok (by simp)

/-- The same tokens are cut off a source that ends anywhere behind them. -/
theorem front {x y : Text} (h : Reaches source ts line (x ++ y)) :
    Reaches (sourceOf ts ++ x) ts line x := by
  generalize hrest : x ++ y = rest at h
  induction h generalizing x with
  | start => exact .start
  | @lexeme ts line leading cs c l h hleading hc hread ih =>
    -- What the last lexeme takes lies in front of `x`, so it is read there as well.
    have hcs : cs = (cs.take l.more ++ x) ++ y := by
      rw [List.append_assoc, hrest, Lexeme.rest, List.take_append_drop]
    have hlen : (cs.take l.more).length = l.more := by
      rw [List.length_take, Nat.min_eq_left (Lexeme.more_le hread)]
    have hback := ih (x := leading ++ c :: (cs.take l.more ++ x))
      (by rw [List.append_assoc, List.cons_append, ← hcs])
    have hread' : Lexeme.read c (cs.take l.more ++ x) = .ok l := by
      rw [hcs] at hread
      exact Lexeme.read_front hread (by rw [List.length_append, hlen]; exact Nat.le_add_right _ _)
    have htext : l.text c (cs.take l.more ++ x) = l.text c cs := by
      rw [Lexeme.text, Lexeme.text, List.take_left' hlen]
    have hnext := hback.lexeme hleading hc hread'
    rw [htext, Lexeme.rest, List.drop_left' hlen] at hnext
    have hsource : sourceOf ts ++ (leading ++ c :: (cs.take l.more ++ x)) =
        sourceOf (ts ++ [⟨l.kind, l.text c cs, leading, line⟩]) ++ x := by
      simp [Lexeme.text]
    rw [hsource] at hnext
    exact hnext

end Reaches

/-! ## Where cutting gets stuck -/

/-- Behind the tokens `ts` and blanks stands `c`, at which no lexeme can be read. -/
structure Stuck (source : Text) (ts : List Token) (blanks : Text) (c : Char) (cs : Text)
    (fault : Fault) : Prop where
  reaches : Reaches source ts fault.line (blanks ++ c :: cs)
  leading : ∀ d ∈ blanks, isLeading d = true
  stops : isLeading c = false
  unread : Lexeme.read c cs = .error fault.problem

theorem exists_stuck_of_reaches {source rest : Text} {ts : List Token} {line : Int} {fault : Fault}
    (hreaches : Reaches source ts line rest) (h : ofTextFrom line rest = .error fault) :
    ∃ us blanks c cs, Stuck source us blanks c cs fault := by
  induction hlen : rest.length using Nat.strongRecOn generalizing ts line rest with
  | ind n ih =>
    subst hlen
    rcases exists_leading rest with hall | ⟨leading, c, cs, hleading, hc, rfl⟩
    · rw [ofTextFrom_blanks hall] at h
      cases h
    cases hread : Lexeme.read c cs with
    | error problem =>
      rw [ofTextFrom_problem hleading hc hread] at h
      cases h
      exact ⟨ts, leading, c, cs, hreaches, hleading, hc, hread⟩
    | ok l =>
      have hnext : ofTextFrom (line + Text.newlines (l.text c cs)) (l.rest cs) = .error fault := by
        rw [ofTextFrom_lexeme hleading hc hread] at h
        cases hrec : ofTextFrom (line + Text.newlines (l.text c cs)) (l.rest cs) with
        | error fault' =>
          rw [hrec] at h
          cases h
          rfl
        | ok us =>
          rw [hrec] at h
          cases h
      have hle := l.length_rest_le cs
      exact ih (l.rest cs).length (by simp; omega) (hreaches.lexeme hleading hc hread) hnext rfl

/-- A source that is not cut gets stuck. -/
theorem exists_stuck {source : Text} {fault : Fault} (h : ofText source = .error fault) :
    ∃ ts blanks c cs, Stuck source ts blanks c cs fault :=
  exists_stuck_of_reaches .start h

/-- The token that blanks at the end of a text make, if there are any. -/
def blanksAtEnd (line : Int) (blanks : Text) : List Token :=
  if blanks.isEmpty then [] else [⟨.newline, [], blanks, line⟩]

namespace Stuck

variable {source blanks cs : Text} {ts : List Token} {c : Char} {fault : Fault}

theorem source_eq (h : Stuck source ts blanks c cs fault) :
    source = sourceOf ts ++ blanks ++ c :: cs := by
  rw [List.append_assoc]
  exact h.reaches.source_eq

/-- What is in front of the place is cut into the tokens and the blanks. -/
theorem ofText_front (h : Stuck source ts blanks c cs fault) :
    ofText (sourceOf ts ++ blanks) = .ok (ts ++ blanksAtEnd fault.line blanks) := by
  rw [h.reaches.front.ofText_eq, ofTextFrom_blanks h.leading]
  rfl

theorem line_eq (h : Stuck source ts blanks c cs fault) :
    fault.line = 1 + Text.newlines (sourceOf ts ++ blanks) := by
  rw [Text.newlines_append, newlines_leading h.leading, Nat.add_zero]
  exact h.reaches.line_eq

end Stuck

/-! ## Lines of tokens -/

/-- Each token of a cut text is on the line that the line feeds before its text tell. -/
theorem Cuts.line_eq {line : Int} {t : Text} {before after : List Token} {u : Token}
    (h : Cuts line t (before ++ u :: after)) :
    u.line = line + Text.newlines (sourceOf before ++ u.leading) := by
  induction before generalizing line t with
  | nil =>
    obtain ⟨-, hline, hstands, -⟩ := cuts_cons_iff.mp h
    rw [sourceOf_nil, List.nil_append, newlines_leading hstands.leading, hline]
    exact (Int.add_zero line).symm
  | cons v before ih =>
    rw [List.cons_append] at h
    obtain ⟨-, -, hstands, hrest⟩ := cuts_cons_iff.mp h
    rw [ih hrest, sourceOf_cons, List.append_assoc, Text.newlines_append (v.leading ++ v.text),
      Text.newlines_append v.leading, newlines_leading hstands.leading, Nat.zero_add,
      Int.natCast_add, Int.add_assoc]

end HclQuery.Token
