/-
  The scan of a string, one character at a time.

  `Scan` is a place of the scan: what is still passed over unread, the frames that are open, and
  the text that is left. A scan goes from place to place (`Scan.next?`), and `extent` counts its
  steps (`extent_of_next?`). A string that does not close is at the end of a line or of the input
  when the scan comes to it inside quotes, or at the end of the input inside a template
  (`exists_stop_of_extent`). A word of the language takes the scan to the frame around it
  (`InString.reaches`).
-/
import Mathlib.Logic.Relation
import HclQuery.Proofs.Token.QuotedLanguage
import HclQuery.Proofs.Token.Shape

namespace HclQuery

namespace Quoted

/-- A place of the scan: `skip` characters are passed over unread, `frame` is open inside the frames
    `outer`, and `rest` is left. -/
structure Scan where
  skip : Nat
  frame : Frame
  outer : List Frame
  rest : Text

namespace Scan

/-- The scan of a string starts behind its opening quote. -/
def ofString (t : Text) : Scan :=
  ⟨0, .quote, [], t⟩

/-- How many characters it takes to close all frames. -/
def extent (s : Scan) : Except Problem Nat :=
  Quoted.extent s.skip s.frame s.outer s.rest

/-- The place behind the next character, unless the scan ends with it or before it. -/
def next? (s : Scan) : Option Scan :=
  match s.rest with
  | [] => none
  | c :: cs =>
    match s.skip with
    | skip + 1 => some ⟨skip, s.frame, s.outer, cs⟩
    | 0 =>
      match s.frame.step c cs with
      | none => none
      | some (.stay more) => some ⟨more, s.frame, s.outer, cs⟩
      | some (.enter more inner) => some ⟨more, inner, s.frame :: s.outer, cs⟩
      | some .leave =>
        match s.outer with
        | [] => none
        | next :: around => some ⟨0, next, around, cs⟩

/-- The scan that is at one place comes to the other. -/
def Reaches : Scan → Scan → Prop :=
  Relation.ReflTransGen fun s s' => s.next? = some s'

variable {s s' : Scan} {skip more : Nat} {frame inner next : Frame} {outer : List Frame} {c : Char}
  {cs : Text}

/-! ## One step -/

theorem next?_skip : next? ⟨skip + 1, frame, outer, c :: cs⟩ = some ⟨skip, frame, outer, cs⟩ := rfl

theorem next?_stay (h : frame.step c cs = some (.stay more)) :
    next? ⟨0, frame, outer, c :: cs⟩ = some ⟨more, frame, outer, cs⟩ := by
  simp only [next?, h]

theorem next?_enter (h : frame.step c cs = some (.enter more inner)) :
    next? ⟨0, frame, outer, c :: cs⟩ = some ⟨more, inner, frame :: outer, cs⟩ := by
  simp only [next?, h]

theorem next?_leave (h : frame.step c cs = some .leave) :
    next? ⟨0, frame, next :: outer, c :: cs⟩ = some ⟨0, next, outer, cs⟩ := by
  simp only [next?, h]

/-- The scan ends at the last closing character, at the end of the input, or in a string at the end
    of a line. -/
inductive Stops (s : Scan) : Prop where
  | close {c : Char} {cs : Text} (hrest : s.rest = c :: cs) (h : s.extent = .ok 1)
  | lineEnd {cs : Text} (hrest : s.rest = '\n' :: cs) (hskip : s.skip = 0)
      (hframe : s.frame = .quote) (h : s.extent = .error .unterminatedQuoted)
  | inputEnd (hrest : s.rest = []) (h : s.extent = .error s.frame.unterminated)

theorem eq_lineFeed_of_step {cs : Text} (h : frame.step c cs = none) :
    frame = .quote ∧ c = '\n' := by
  cases frame with
  | quote =>
    refine ⟨rfl, ?_⟩
    simp only [Frame.step, stepInString] at h
    grind
  | brace => cases h

/-- `extent` counts the steps. -/
theorem extent_of_next? (h : s.next? = some s') :
    (∃ c, s.rest = c :: s'.rest) ∧ s.extent = s'.extent.map (· + 1) := by
  obtain ⟨skip, frame, outer, rest⟩ := s
  cases rest with
  | nil => cases h
  | cons c cs =>
    cases skip with
    | succ skip =>
      obtain rfl := Option.some.inj h
      exact ⟨⟨c, rfl⟩, rfl⟩
    | zero =>
      unfold next? at h
      dsimp only at h
      split at h
      · cases h
      · rename_i hstep
        obtain rfl := Option.some.inj h
        exact ⟨⟨c, rfl⟩, extent_stay hstep⟩
      · rename_i hstep
        obtain rfl := Option.some.inj h
        exact ⟨⟨c, rfl⟩, extent_enter hstep⟩
      · rename_i hstep
        cases outer with
        | nil => cases h
        | cons next around =>
          obtain rfl := Option.some.inj h
          exact ⟨⟨c, rfl⟩, extent_leave hstep⟩

theorem stops_of_next? (h : s.next? = none) : s.Stops := by
  obtain ⟨skip, frame, outer, rest⟩ := s
  cases rest with
  | nil => exact .inputEnd rfl rfl
  | cons c cs =>
    cases skip with
    | succ skip => cases h
    | zero =>
      unfold next? at h
      dsimp only at h
      split at h
      · rename_i hstep
        obtain ⟨hframe, rfl⟩ := eq_lineFeed_of_step hstep
        exact .lineEnd rfl rfl hframe (extent_none hstep)
      · cases h
      · cases h
      · rename_i hstep
        cases outer with
        | nil => exact .close rfl (extent_close hstep)
        | cons next around => cases h

/-! ## Runs -/

/-- On its way the scan passes over the front of the text, and the extents differ by it. -/
theorem Reaches.extent_eq (h : s.Reaches s') :
    ∃ front, s.rest = front ++ s'.rest ∧ s.extent = s'.extent.map (· + front.length) := by
  induction h with
  | refl =>
    refine ⟨[], rfl, ?_⟩
    cases s.extent <;> rfl
  | tail _ hnext ih =>
    obtain ⟨front, hfront, hextent⟩ := ih
    obtain ⟨⟨c, hc⟩, hone⟩ := extent_of_next? hnext
    refine ⟨front ++ [c], by rw [hfront, hc]; simp, ?_⟩
    rw [hextent, hone]
    cases Scan.extent _ with
    | error problem => rfl
    | ok n =>
      have hcount : n + 1 + front.length = n + (front ++ [c]).length := by
        rw [List.length_append, List.length_singleton]
        omega
      exact congrArg Except.ok hcount

/-- A scan comes to where it is and to what it comes to from the next place. -/
theorem Reaches.forall_of_next? {p : Scan → Prop} (hs : p s) (hnext : s.next? = some s')
    (h : ∀ x, s'.Reaches x → p x) : ∀ x, s.Reaches x → p x := by
  intro x hx
  rcases Relation.ReflTransGen.cases_head hx with rfl | ⟨y, hy, hx⟩
  · exact hs
  · obtain rfl : s' = y := Option.some.inj (hnext.symm.trans hy)
    exact h x hx

/-- A scan that ends comes to no other place. -/
theorem Reaches.forall_of_end {p : Scan → Prop} (hs : p s) (hnext : s.next? = none) :
    ∀ x, s.Reaches x → p x := by
  intro x hx
  rcases Relation.ReflTransGen.cases_head hx with rfl | ⟨y, hy, -⟩
  · exact hs
  · rw [hnext] at hy
    cases hy

/-- Every scan comes to an end. -/
theorem exists_stop (s : Scan) : ∃ s', s.Reaches s' ∧ s'.Stops := by
  induction hlen : s.rest.length using Nat.strongRecOn generalizing s with
  | ind n ih =>
    subst hlen
    cases hnext : s.next? with
    | none => exact ⟨s, .refl, stops_of_next? hnext⟩
    | some s' =>
      obtain ⟨⟨c, hc⟩, -⟩ := extent_of_next? hnext
      obtain ⟨s'', hreaches, hstops⟩ := ih s'.rest.length (by rw [hc]; simp) s' rfl
      exact ⟨s'', .head hnext hreaches, hstops⟩

theorem reaches_skip (p : Text) (frame : Frame) (outer : List Frame) (t : Text) :
    Reaches ⟨p.length, frame, outer, p ++ t⟩ ⟨0, frame, outer, t⟩ := by
  induction p with
  | nil => exact .refl
  | cons c p ih => exact .head next?_skip ih

end Scan

/-! ## Words -/

open Scan

section Words

variable {frame inner : Frame} {outer : List Frame} {c : Char} {p s t : Text}

theorem reaches_stay (h : frame.step c (p ++ t) = some (.stay p.length)) :
    Reaches ⟨0, frame, outer, c :: (p ++ t)⟩ ⟨0, frame, outer, t⟩ :=
  .head (next?_stay h) (reaches_skip p frame outer t)

theorem reaches_enter (h : frame.step c (p ++ t) = some (.enter p.length inner)) :
    Reaches ⟨0, frame, outer, c :: (p ++ t)⟩ ⟨0, inner, frame :: outer, t⟩ :=
  .head (next?_enter h) (reaches_skip p inner (frame :: outer) t)

theorem reaches_escaped : Reaches ⟨0, .quote, outer, '\\' :: c :: t⟩ ⟨0, .quote, outer, t⟩ :=
  reaches_stay (p := [c]) rfl

theorem reaches_doubled (hc : c = '$' ∨ c = '%') :
    Reaches ⟨0, .quote, outer, c :: c :: '{' :: t⟩ ⟨0, .quote, outer, t⟩ :=
  reaches_stay (p := [c, '{']) (by rcases hc with rfl | rfl <;> rfl)

/-- A `$` or `%` before a brace opens a template. -/
theorem step_opener (hc : c = '$' ∨ c = '%') :
    stepInString c ('{' :: t) = some (.enter 1 .brace) := by
  rcases hc with rfl | rfl <;> rfl

theorem reaches_opener (hc : c = '$' ∨ c = '%') :
    Reaches ⟨0, .quote, outer, c :: '{' :: t⟩ ⟨0, .brace, .quote :: outer, t⟩ := by
  have hstep : Frame.step .quote c (['{'] ++ t) = some (.enter ['{'].length .brace) :=
    step_opener hc
  exact reaches_enter hstep

theorem reaches_plain {rest : Text} (hc : c ≠ '"' ∧ c ≠ '\\' ∧ c ≠ '\n')
    (hopener : ∀ o ∈ openers, ¬ o <+: c :: t) (ht : InString t) :
    Reaches ⟨0, .quote, outer, c :: (t ++ rest)⟩ ⟨0, .quote, outer, t ++ rest⟩ :=
  reaches_stay (p := []) (stepInString_plain hc (ht.forall_openers_append hopener rest))

/-- The word takes the scan to the frame around, whatever follows the word. -/
def Leads (frame : Frame) (w : Text) : Prop :=
  ∀ next outer rest,
    Reaches ⟨0, frame, next :: outer, w ++ rest⟩ ⟨0, next, outer, rest⟩

/-- A part of a word, and the rest of the word behind it. -/
theorem Leads.behind (hs : Leads inner s) (ht : Leads frame t) (next : Frame) (outer : List Frame)
    (rest : Text) :
    Reaches ⟨0, inner, frame :: next :: outer, s ++ t ++ rest⟩ ⟨0, next, outer, rest⟩ := by
  rw [List.append_assoc]
  exact (hs frame (next :: outer) (t ++ rest)).trans (ht next outer rest)

mutual

theorem InString.leads {w : Text} (h : InString w) : Leads .quote w := by
  intro next outer rest
  cases h with
  | close => exact .single (next?_leave rfl)
  | escaped h => exact reaches_escaped.trans (h.leads next outer rest)
  | doubled hc h => exact (reaches_doubled hc).trans (h.leads next outer rest)
  | template hc hs h =>
    exact (reaches_opener hc).trans (hs.leads.behind h.leads next outer rest)
  | plain hc hopener h => exact (reaches_plain hc hopener h).trans (h.leads next outer rest)
termination_by w.length

theorem InTemplate.leads {w : Text} (h : InTemplate w) : Leads .brace w := by
  intro next outer rest
  cases h with
  | close => exact .single (next?_leave rfl)
  | string hs h =>
    exact (reaches_enter (p := []) rfl).trans (hs.leads.behind h.leads next outer rest)
  | braces hs h =>
    exact (reaches_enter (p := []) rfl).trans (hs.leads.behind h.leads next outer rest)
  | @plain c t hc h =>
    have hstep : Frame.step .brace c (t ++ rest) = some (.stay 0) := by
      simp [Frame.step, stepInTemplate, hc]
    exact .head (next?_stay hstep) (h.leads next outer rest)
termination_by w.length

end

/-- A string goes on behind a template in it. -/
theorem InTemplate.reaches_behind (hc : c = '$' ∨ c = '%') (hs : InTemplate s) :
    Reaches ⟨0, .quote, outer, c :: '{' :: (s ++ t)⟩ ⟨0, .quote, outer, t⟩ :=
  (reaches_opener hc).trans (hs.leads .quote outer t)

/-- A string ends with its closing quote. -/
theorem InString.exists_eq_concat {w : Text} (h : InString w) : ∃ inside, w = inside ++ ['"'] := by
  have hlast := getLast?_extent (h.passes [] [])
  rw [List.append_nil, List.take_length] at hlast
  exact ⟨w.dropLast, (List.dropLast_append_getLast? _ hlast).symm⟩

end Words

end Quoted

/-! ## Tokens -/

/-- The text of a string token is a string. -/
theorem Token.Cuts.exists_inString {line : Int} {t : Text} {ts : List Token} {u : Token}
    (h : Cuts line t ts) (hu : u ∈ ts) (hkind : u.kind = .string) :
    ∃ w, u.text = '"' :: w ∧ Quoted.InString w := by
  obtain ⟨-, ⟨hblank, -⟩ | ⟨c, cs, l, hread, hlexeme, htext⟩⟩ := h.mem hu
  · rw [hkind] at hblank
    cases hblank
  · obtain ⟨rfl, hsize⟩ := Lexeme.size_of_string hread (hlexeme.symm.trans hkind)
    obtain ⟨p, w, rest, hp, rfl, hlength, hw⟩ := Quoted.closes_of_extent hsize
    obtain rfl := List.length_eq_zero_iff.mp hp
    rw [Lexeme.text, hlength, List.take_left, List.nil_append] at htext
    exact ⟨w, htext, hw⟩

end HclQuery
