/-
  Lines of a text, and cuts at their ends and at other characters.

  Runs and starts in which no stop occurs do not reach over a boundary (`PartedBy.prefix_left`), so
  they can be told from the text in front of it: `PartedBy.takeWhile_append` and
  `PartedBy.isPrefixOf_append`. At the end of a line (`LineEnds`) the stop is the line feed. The
  front alone decides about whatever lies in it: `takeWhile_front` and `isPrefixOf_take`. Texts
  that agree up to a stop cannot be told apart by scans that end there (`AgreeUpTo.scan_eq`).
-/
import Mathlib.Data.List.Basic
import Mathlib.Data.List.TakeWhile
import HclQuery.Text.Basic

namespace HclQuery.Text

/-! ## Lines -/

/-- A text is one line, or a line, a line feed, and what is below. -/
theorem exists_line (t : Text) :
    '\n' ∉ t ∨ ∃ line below, '\n' ∉ line ∧ t = line ++ '\n' :: below := by
  by_cases h : '\n' ∈ t
  · obtain ⟨line, below, ht, hline⟩ := List.eq_append_cons_of_mem h
    exact Or.inr ⟨line, below, hline, ht⟩
  · exact Or.inl h

theorem forall_ne_lineFeed {line : Text} (h : '\n' ∉ line) :
    ∀ c ∈ line, decide (c ≠ '\n') = true := by
  intro c hc
  have : c ≠ '\n' := fun heq => h (heq ▸ hc)
  simpa using this

theorem takeWhile_line {line : Text} (h : '\n' ∉ line) (below : Text) :
    (line ++ '\n' :: below).takeWhile (· ≠ '\n') = line := by
  rw [List.takeWhile_append_of_pos (forall_ne_lineFeed h)]
  simp

theorem takeWhile_lastLine {line : Text} (h : '\n' ∉ line) :
    line.takeWhile (· ≠ '\n') = line :=
  List.takeWhile_eq_self_iff.mpr (forall_ne_lineFeed h)

theorem dropWhile_line {line : Text} (h : '\n' ∉ line) (below : Text) :
    (line ++ '\n' :: below).dropWhile (· ≠ '\n') = '\n' :: below := by
  rw [List.dropWhile_append_of_pos (forall_ne_lineFeed h)]
  simp

theorem dropWhile_lastLine {line : Text} (h : '\n' ∉ line) :
    line.dropWhile (· ≠ '\n') = [] :=
  List.dropWhile_eq_nil_iff.mpr (forall_ne_lineFeed h)

/-! ### The pieces between separators -/

theorem splitAt_of_not_mem {sep : Char} {t : Text} (h : sep ∉ t) : splitAt sep t = [t] := by
  induction t with
  | nil => rfl
  | cons c cs ih =>
    rw [List.mem_cons, not_or] at h
    rw [splitAt, if_neg (Ne.symm h.1), ih h.2]
    rfl

/-- A separator between two texts parts their pieces. -/
theorem splitAt_append_sep (sep : Char) (s t : Text) :
    splitAt sep (s ++ sep :: t) = splitAt sep s ++ splitAt sep t := by
  induction s with
  | nil => simp [splitAt]
  | cons c cs ih =>
    rw [List.cons_append, splitAt, splitAt, ih]
    split
    · rfl
    · obtain ⟨piece, pieces, h⟩ := List.exists_cons_of_ne_nil (splitAt_ne_nil sep cs)
      rw [h]
      rfl

theorem splitAt_append {sep : Char} {piece : Text} (h : sep ∉ piece) (rest : Text) :
    splitAt sep (piece ++ sep :: rest) = piece :: splitAt sep rest := by
  rw [splitAt_append_sep, splitAt_of_not_mem h, List.singleton_append]

/-- Pieces without the separator are what their join is cut into. -/
theorem splitAt_intercalate {sep : Char} {pieces : List Text} (hne : pieces ≠ [])
    (h : ∀ piece ∈ pieces, sep ∉ piece) : splitAt sep ([sep].intercalate pieces) = pieces := by
  induction pieces with
  | nil => exact absurd rfl hne
  | cons piece pieces ih =>
    have hpiece := h piece List.mem_cons_self
    cases pieces with
    | nil => rw [List.intercalate_singleton, splitAt_of_not_mem hpiece]
    | cons next pieces =>
      rw [List.intercalate_cons_cons, List.append_assoc, List.singleton_append,
        splitAt_append hpiece,
        ih (List.cons_ne_nil next pieces) fun p hp => h p (List.mem_cons_of_mem piece hp)]

/-- What stands in a join, but for the separator, stands in a piece. -/
theorem mem_intercalate_iff {sep c : Char} (hc : c ≠ sep) {pieces : List Text} :
    c ∈ [sep].intercalate pieces ↔ ∃ piece ∈ pieces, c ∈ piece := by
  induction pieces with
  | nil => simp
  | cons piece pieces ih =>
    cases pieces with
    | nil => simp
    | cons next pieces =>
      rw [List.intercalate_cons_cons, List.mem_append, List.mem_append, ih, List.mem_singleton]
      simp [hc]

/-! ## Boundaries -/

/-- A stop stands between `w` and `y`: as the last character of `w` or the first one of `y`; or
    nothing follows. -/
def PartedBy (stops : List Char) (w y : Text) : Prop :=
  (∃ c ∈ w.getLast?, c ∈ stops) ∨ ∀ c ∈ y.head?, c ∈ stops

namespace PartedBy

variable {stops stops' : List Char} {v w y : Text}

theorem mono (h : PartedBy stops w y) (hsub : ∀ c ∈ stops, c ∈ stops') : PartedBy stops' w y := by
  rcases h with ⟨c, hc, hstop⟩ | h
  · exact Or.inl ⟨c, hc, hsub c hstop⟩
  · exact Or.inr fun c hc => hsub c (h c hc)

theorem suffix (h : PartedBy stops (v ++ w) y) (hw : w ≠ []) : PartedBy stops w y := by
  rcases h with ⟨c, hc, hstop⟩ | h
  · rw [List.getLast?_append, List.getLast?_eq_some_getLast hw, Option.some_or,
      ← List.getLast?_eq_some_getLast hw] at hc
    exact Or.inl ⟨c, hc, hstop⟩
  · exact Or.inr h

theorem tail {c : Char} (h : PartedBy stops (c :: w) y) (hc : c ∉ stops) : PartedBy stops w y := by
  cases w with
  | nil =>
    rcases h with ⟨d, hd, hstop⟩ | h
    · rw [← Option.some.inj hd] at hstop
      exact absurd hstop hc
    · exact Or.inr h
  | cons d w => exact suffix (v := [c]) h (List.cons_ne_nil d w)

theorem drop {n : Nat} (h : PartedBy stops w y) (hn : ∀ c ∈ w.take n, c ∉ stops) :
    PartedBy stops (w.drop n) y := by
  induction n generalizing w with
  | zero => exact h
  | succ n ih =>
    cases w with
    | nil => exact h
    | cons c w =>
      rw [List.take_succ_cons] at hn
      exact ih (h.tail (hn c List.mem_cons_self)) fun d hd => hn d (List.mem_cons_of_mem c hd)

/-- A start that holds no stop does not reach over a boundary. -/
theorem prefix_left {e : Text} (h : PartedBy stops w y) (he : ∀ c ∈ e, c ∉ stops)
    (hpre : e <+: w ++ y) : e <+: w := by
  rcases Nat.le_total e.length w.length with hle | hle
  · exact List.prefix_of_prefix_length_le hpre (List.prefix_append w y) hle
  · obtain ⟨more, rfl⟩ := List.prefix_of_prefix_length_le (List.prefix_append w y) hpre hle
    have hmore : more <+: y := (List.prefix_append_right_inj w).mp hpre
    have hnil : more = [] := by
      rcases h with ⟨c, hc, hstop⟩ | h
      · exact absurd hstop (he c (List.mem_append_left _ (List.mem_of_getLast? hc)))
      · cases more with
        | nil => rfl
        | cons d more =>
          obtain ⟨rest, rfl⟩ := hmore
          exact absurd (h d rfl) (he d (List.mem_append_right _ List.mem_cons_self))
    exact ⟨[], by rw [hnil, List.append_nil, List.append_nil]⟩

end PartedBy

/-- A line ends between `w` and `y`: with the last character of `w`, with the first one of `y`, or
    because nothing follows. -/
def LineEnds (w y : Text) : Prop :=
  w.getLast? = some '\n' ∨ y = [] ∨ y.head? = some '\n'

theorem lineEnds_iff {w y : Text} : LineEnds w y ↔ PartedBy ['\n'] w y := by
  have hlast : w.getLast? = some '\n' ↔ ∃ c ∈ w.getLast?, c ∈ ['\n'] := by simp
  have hhead : y = [] ∨ y.head? = some '\n' ↔ ∀ c ∈ y.head?, c ∈ ['\n'] := by
    cases y <;> simp
  rw [LineEnds, hlast, hhead, PartedBy]

namespace LineEnds

variable {v w y : Text}

theorem suffix (h : LineEnds (v ++ w) y) (hw : w ≠ []) : LineEnds w y :=
  lineEnds_iff.mpr ((lineEnds_iff.mp h).suffix hw)

theorem tail {c : Char} (h : LineEnds (c :: w) y) (hc : c ≠ '\n') : LineEnds w y :=
  lineEnds_iff.mpr ((lineEnds_iff.mp h).tail (by simpa using hc))

theorem prefix_left {e : Text} (h : LineEnds w y) (he : '\n' ∉ e) (hpre : e <+: w ++ y) :
    e <+: w := by
  refine (lineEnds_iff.mp h).prefix_left (fun c hc hstop => ?_) hpre
  rw [List.mem_singleton.mp hstop] at hc
  exact he hc

end LineEnds

/-! ### Runs and starts -/

theorem takeWhile_eq_nil_iff_head? {p : Char → Bool} {t : Text} :
    t.takeWhile p = [] ↔ ∀ c ∈ t.head?, p c = false := by
  cases t with
  | nil => simp
  | cons c cs => by_cases hc : p c <;> simp [hc]

theorem takeWhile_front {p : Char → Bool} {w x : Text}
    (h : ((w ++ x).takeWhile p).length ≤ w.length) :
    w.takeWhile p = (w ++ x).takeWhile p := by
  rw [List.takeWhile_append] at h ⊢
  split at h
  · rename_i hall
    rw [if_pos hall]
    rw [List.length_append] at h
    have hnil : x.takeWhile p = [] := List.length_eq_zero_iff.mp (by omega)
    rw [hnil, List.append_nil]
    exact (List.takeWhile_prefix p).eq_of_length hall
  · rename_i hall
    rw [if_neg hall]

/-- A run that ends at a cut. -/
theorem takeWhile_whole {p : Char → Bool} {w x : Text}
    (h : w.length = ((w ++ x).takeWhile p).length) :
    (∀ c ∈ w, p c = true) ∧ x.takeWhile p = [] := by
  have hrun : (w ++ x).takeWhile p = w :=
    (List.prefix_of_prefix_length_le (List.takeWhile_prefix p) (List.prefix_append w x)
      h.ge).eq_of_length h.symm
  have hall : ∀ c ∈ w, p c = true := by
    intro c hc
    rw [← hrun] at hc
    exact List.all_eq_true.mp List.all_takeWhile c hc
  rw [List.takeWhile_append_of_pos hall] at hrun
  exact ⟨hall, List.append_right_eq_self.mp hrun⟩

theorem PartedBy.takeWhile_append {stops : List Char} {p : Char → Bool} {w y : Text}
    (hp : ∀ c ∈ stops, p c = false) (h : PartedBy stops w y) :
    (w ++ y).takeWhile p = w.takeWhile p := by
  have hfree : ∀ c ∈ (w ++ y).takeWhile p, c ∉ stops := by
    intro c hc hstop
    have := List.all_eq_true.mp (List.all_takeWhile (p := p) (l := w ++ y)) c hc
    rw [hp c hstop] at this
    cases this
  have hfront := h.prefix_left hfree (List.takeWhile_prefix p)
  exact (takeWhile_front hfront.length_le).symm

theorem takeWhile_append {p : Char → Bool} {w y : Text} (hp : p '\n' = false)
    (h : LineEnds w y) : (w ++ y).takeWhile p = w.takeWhile p :=
  (lineEnds_iff.mp h).takeWhile_append (by simpa using hp)

/-- What the start of a text is can be told from the front alone, if the front is long enough. -/
theorem isPrefixOf_take {e t : Text} {n : Nat} (z : Text) (he : e.length ≤ n)
    (hn : n ≤ t.length) : e.isPrefixOf (t.take n ++ z) = e.isPrefixOf t := by
  rw [Bool.eq_iff_iff, List.isPrefixOf_iff_prefix, List.isPrefixOf_iff_prefix]
  have hlen : e.length ≤ (t.take n).length := by rw [List.length_take]; omega
  constructor
  · intro h
    exact (List.prefix_of_prefix_length_le h (List.prefix_append _ _) hlen).trans
      (List.take_prefix n t)
  · intro h
    exact (List.prefix_of_prefix_length_le h (List.take_prefix n t) hlen).trans
      (List.prefix_append _ _)

theorem isPrefixOf_front {e w : Text} (x : Text) (h : e.length ≤ w.length) :
    e.isPrefixOf w = e.isPrefixOf (w ++ x) := by
  have := isPrefixOf_take (t := w ++ x) [] h (by simp)
  simpa using this

theorem isPrefixOf_append_of_true {e w : Text} (y : Text) (h : e.isPrefixOf w = true) :
    e.isPrefixOf (w ++ y) = true := by
  rw [List.isPrefixOf_iff_prefix] at h ⊢
  exact h.trans (List.prefix_append w y)

theorem PartedBy.isPrefixOf_append {stops : List Char} {e w y : Text} (he : ∀ c ∈ e, c ∉ stops)
    (h : PartedBy stops w y) : e.isPrefixOf (w ++ y) = e.isPrefixOf w := by
  rw [Bool.eq_iff_iff, List.isPrefixOf_iff_prefix, List.isPrefixOf_iff_prefix]
  exact ⟨h.prefix_left he, fun hw => hw.trans (List.prefix_append w y)⟩

theorem isPrefixOf_append {e w y : Text} (he : '\n' ∉ e) (h : LineEnds w y) :
    e.isPrefixOf (w ++ y) = e.isPrefixOf w := by
  refine (lineEnds_iff.mp h).isPrefixOf_append fun c hc hstop => ?_
  rw [List.mem_singleton.mp hstop] at hc
  exact he hc

/-! ## Texts that agree up to a stop -/

/-- The texts are the same up to a place where a stop stands in both, or in one where the other
    ends, or are the same all over. -/
def AgreeUpTo (stops : List Char) (x y : Text) : Prop :=
  ∃ w x' y', x = w ++ x' ∧ y = w ++ y' ∧ (∀ c ∈ x'.head?, c ∈ stops) ∧ ∀ c ∈ y'.head?, c ∈ stops

namespace AgreeUpTo

variable {stops : List Char} {x y : Text}

theorem append_left (h : AgreeUpTo stops x y) (v : Text) : AgreeUpTo stops (v ++ x) (v ++ y) := by
  obtain ⟨w, x', y', rfl, rfl, hx, hy⟩ := h
  exact ⟨v ++ w, x', y', (List.append_assoc v w x').symm, (List.append_assoc v w y').symm, hx, hy⟩

theorem mono {stops' : List Char} (h : AgreeUpTo stops x y) (hsub : ∀ c ∈ stops, c ∈ stops') :
    AgreeUpTo stops' x y := by
  obtain ⟨w, x', y', hxw, hyw, hx, hy⟩ := h
  exact ⟨w, x', y', hxw, hyw, fun c hc => hsub c (hx c hc), fun c hc => hsub c (hy c hc)⟩

/-- A scan that does not look over a boundary gives the same on both texts. -/
theorem scan_eq {α : Type} {scan : Text → α}
    (hscan : ∀ w y, PartedBy stops w y → scan (w ++ y) = scan w) (h : AgreeUpTo stops x y) :
    scan x = scan y := by
  obtain ⟨w, x', y', rfl, rfl, hx, hy⟩ := h
  rw [hscan w x' (Or.inr hx), hscan w y' (Or.inr hy)]

theorem takeWhile_eq {p : Char → Bool} (hp : ∀ c ∈ stops, p c = false) (h : AgreeUpTo stops x y) :
    x.takeWhile p = y.takeWhile p :=
  scan_eq (fun _ _ => PartedBy.takeWhile_append hp) h

theorem isPrefixOf_eq {e : Text} (he : ∀ c ∈ e, c ∉ stops) (h : AgreeUpTo stops x y) :
    e.isPrefixOf x = e.isPrefixOf y :=
  scan_eq (fun _ _ => PartedBy.isPrefixOf_append he) h

end AgreeUpTo

end HclQuery.Text
