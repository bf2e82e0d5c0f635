/-
  The language of quoted strings.

  A string is a quote, parts, and a quote; a template in it is parts up to the brace that closes it,
  and its parts may be strings and braces again (`InString`, `InTemplate`). The scan walks over both
  with one stack of open frames, and it closes exactly the words of this language. Whatever word
  stands at the front is passed over whole, by induction on how the word is built (`Passes`,
  `InString.passes`); and whatever the scan passes over is one word for each open frame, by
  induction along the text (`Closes`, `closes_of_extent`). So a string ends where a word of the
  language does and nowhere else: `size_eq_ok_iff_isString`.
-/
import HclQuery.Proofs.Token.Quoted

namespace HclQuery.Quoted

/-! ## Strings and templates as words -/

/-- What opens a template, doubled or not. -/
def openers : List Text :=
  [['$', '$', '{'], ['%', '%', '{'], ['$', '{'], ['%', '{']]

mutual

/-- What stands behind the opening quote of a string: parts, and the closing quote. -/
inductive InString : Text → Prop where
  | close : InString ['"']
  | escaped {c : Char} {t : Text} (h : InString t) : InString ('\\' :: c :: t)
  | doubled {c : Char} {t : Text} (hc : c = '$' ∨ c = '%') (h : InString t) :
      InString (c :: c :: '{' :: t)
  | template {c : Char} {s t : Text} (hc : c = '$' ∨ c = '%') (hs : InTemplate s)
      (h : InString t) : InString (c :: '{' :: (s ++ t))
  | plain {c : Char} {t : Text} (hc : c ≠ '"' ∧ c ≠ '\\' ∧ c ≠ '\n')
      (hopener : ∀ o ∈ openers, ¬ o <+: c :: t) (h : InString t) : InString (c :: t)

/-- What stands behind the opening brace of a template: parts, and the closing brace. -/
inductive InTemplate : Text → Prop where
  | close : InTemplate ['}']
  | string {s t : Text} (hs : InString s) (h : InTemplate t) : InTemplate ('"' :: (s ++ t))
  | braces {s t : Text} (hs : InTemplate s) (h : InTemplate t) : InTemplate ('{' :: (s ++ t))
  | plain {c : Char} {t : Text} (hc : c ≠ '"' ∧ c ≠ '{' ∧ c ≠ '}') (h : InTemplate t) :
      InTemplate (c :: t)

end

/-- A quoted string, with both quotes. -/
def IsString (w : Text) : Prop :=
  ∃ t, InString t ∧ w = '"' :: t

/-- What closes a frame. -/
def Frame.Inside : Frame → Text → Prop
  | quote => InString
  | brace => InTemplate

/-- What is behind an opening quote holds the closing one. -/
theorem InString.quote_mem {t : Text} (h : InString t) : '"' ∈ t := by
  cases h with
  | close => exact List.mem_singleton_self _
  | escaped h => exact List.mem_cons_of_mem _ (List.mem_cons_of_mem _ h.quote_mem)
  | doubled hc h =>
    exact List.mem_cons_of_mem _ (List.mem_cons_of_mem _ (List.mem_cons_of_mem _ h.quote_mem))
  | template hc hs h =>
    exact List.mem_cons_of_mem _ (List.mem_cons_of_mem _ (List.mem_append_right _ h.quote_mem))
  | plain hc hopener h => exact List.mem_cons_of_mem _ h.quote_mem
termination_by t.length

/-! ## Where no template opens -/

/-- The tests of the scan, as the four openers say it. -/
theorem forall_openers_iff {c : Char} {cs : Text} :
    (∀ o ∈ openers, ¬ o <+: c :: cs) ↔
      escapesTemplate c cs = false ∧ opensTemplate c cs = false := by
  simp only [openers, List.mem_cons, List.not_mem_nil, or_false, forall_eq_or_imp, forall_eq,
    escapesTemplate, opensTemplate, ← List.isPrefixOf_iff_prefix, List.isPrefixOf]
  grind

/-- No opener holds a quote, so one that stands at the front of a word and what follows it stands
    in the word. -/
theorem InString.forall_openers_append {c : Char} {t : Text} (ht : InString t)
    (hopener : ∀ o ∈ openers, ¬ o <+: c :: t) (rest : Text) :
    ∀ o ∈ openers, ¬ o <+: c :: (t ++ rest) := by
  intro o ho hstarts
  rcases List.prefix_or_prefix_of_prefix hstarts (List.prefix_append (c :: t) rest) with h | h
  · exact hopener o ho h
  · have hquote : '"' ∈ o := h.subset (List.mem_cons_of_mem _ ht.quote_mem)
    exact absurd hquote ((by decide : ∀ o ∈ openers, '"' ∉ o) o ho)

theorem stepInString_plain {c : Char} {cs : Text} (hc : c ≠ '"' ∧ c ≠ '\\' ∧ c ≠ '\n')
    (hopener : ∀ o ∈ openers, ¬ o <+: c :: cs) : stepInString c cs = some (.stay 0) := by
  obtain ⟨hquote, hslash, hfeed⟩ := hc
  obtain ⟨hescapes, hopens⟩ := forall_openers_iff.mp hopener
  simp [stepInString, hquote, hslash, hfeed, hescapes, hopens]

/-! ## Words are passed over -/

/-- The rest of a scan once `n` characters have closed a frame. -/
def resume (n : Nat) (outer : List Frame) (rest : Text) : Except Problem Nat :=
  match outer with
  | [] => .ok n
  | next :: around => (extent 0 next around rest).map (· + n)

theorem resume_cons (n : Nat) (next : Frame) (around : List Frame) (rest : Text) :
    resume n (next :: around) rest = (extent 0 next around rest).map (· + n) := rfl

theorem map_add_resume (m n : Nat) (outer : List Frame) (rest : Text) :
    (resume n outer rest).map (· + m) = resume (n + m) outer rest := by
  cases outer with
  | nil => rfl
  | cons next around =>
    rw [resume_cons, resume_cons]
    cases extent 0 next around rest with
    | error problem => rfl
    | ok k => exact congrArg Except.ok (Nat.add_assoc k n m)

/-- The word closes the frame, whatever is around the frame and whatever follows the word. -/
def Passes (frame : Frame) (s : Text) : Prop :=
  ∀ outer rest, extent 0 frame outer (s ++ rest) = resume s.length outer rest

section Passes

variable {frame inner : Frame} {c : Char} {p s t : Text}

theorem extent_length (p : Text) (frame : Frame) (outer : List Frame) (t : Text) :
    extent p.length frame outer (p ++ t) = (extent 0 frame outer t).map (· + p.length) := by
  induction p with
  | nil => cases h : extent 0 frame outer t <;> simp [h, Except.map]
  | cons d p ih =>
    rw [List.length_cons, List.cons_append, extent.eq_def]
    simp only [ih]
    cases extent 0 frame outer t <;> rfl

theorem Passes.leave (hstep : ∀ rest, frame.step c rest = some .leave) : Passes frame [c] := by
  intro outer rest
  cases outer with
  | nil => exact extent_close (hstep _)
  | cons next around => exact extent_leave (hstep _)

theorem Passes.stay (hstep : ∀ rest, frame.step c (p ++ t ++ rest) = some (.stay p.length))
    (ht : Passes frame t) : Passes frame (c :: (p ++ t)) := by
  intro outer rest
  rw [List.cons_append, extent_stay (hstep rest), List.append_assoc, extent_length, ht,
    map_add_resume, map_add_resume, List.length_cons, List.length_append, Nat.add_comm t.length]

theorem Passes.enter
    (hstep : ∀ rest, frame.step c (p ++ (s ++ t) ++ rest) = some (.enter p.length inner))
    (hs : Passes inner s) (ht : Passes frame t) : Passes frame (c :: (p ++ (s ++ t))) := by
  intro outer rest
  rw [List.cons_append, extent_enter (hstep rest), List.append_assoc, extent_length,
    List.append_assoc, hs, resume_cons, ht, map_add_resume, map_add_resume, map_add_resume]
  congr 1
  simp only [List.length_cons, List.length_append]
  omega

end Passes

mutual

theorem InString.passes {s : Text} : InString s → Passes .quote s
  | .close => .leave fun _ => rfl
  | .escaped (c := c) h => .stay (p := [c]) (fun _ => rfl) h.passes
  | .doubled (c := c) hc h =>
    .stay (p := [c, '{']) (by rcases hc with rfl | rfl <;> exact fun _ => rfl) h.passes
  | .template hc hs h =>
    .enter (p := ['{']) (by rcases hc with rfl | rfl <;> exact fun _ => rfl) hs.passes h.passes
  | .plain hc hopener h =>
    .stay (p := []) (fun rest => stepInString_plain hc (h.forall_openers_append hopener rest))
      h.passes

theorem InTemplate.passes {s : Text} : InTemplate s → Passes .brace s
  | .close => .leave fun _ => rfl
  | .string hs h => .enter (p := []) (fun _ => rfl) hs.passes h.passes
  | .braces hs h => .enter (p := []) (fun _ => rfl) hs.passes h.passes
  | .plain hc h =>
    .stay (p := []) (fun _ => by simp [Frame.step, stepInTemplate, hc]) h.passes

end

/-! ## What is passed over is words -/

theorem eq_of_prefix_of_length {o p cs : Text} (ho : o <+: cs) (hp : p <+: cs)
    (hlength : o.length = p.length) : o = p :=
  (List.prefix_of_prefix_length_le ho hp hlength.le).eq_of_length hlength

section Inside

variable {frame inner : Frame} {c : Char} {p s t : Text}

theorem inside_leave {cs : Text} (hstep : frame.step c cs = some .leave) : frame.Inside [c] := by
  cases frame with
  | quote =>
    rw [eq_quote_of_stepInString_leave hstep]
    exact .close
  | brace =>
    have hc : c = '}' := by
      simp only [Frame.step, stepInTemplate] at hstep
      grind
    rw [hc]
    exact .close

theorem inside_stay {cs : Text} (hstep : frame.step c cs = some (.stay p.length))
    (hcs : p ++ s <+: cs) (hs : frame.Inside s) : frame.Inside (c :: (p ++ s)) := by
  cases frame with
  | quote =>
    obtain ⟨hfeed, ⟨-, h⟩ | ⟨rfl, h⟩ | ⟨⟨hquote, hslash, hplain⟩, h⟩ | ⟨hc, hstarts, h⟩ |
      ⟨-, -, h⟩⟩ := cases_of_stepInString hstep
    · cases h
    · obtain ⟨d, rfl⟩ := List.length_eq_one_iff.mp (Step.stay.inj h)
      exact .escaped hs
    · obtain rfl := List.length_eq_zero_iff.mp (Step.stay.inj h)
      refine .plain ⟨hquote, hslash, hfeed⟩ (fun o ho hstarts => ?_) hs
      have hword : c :: s <+: c :: cs := List.cons_prefix_cons.mpr ⟨rfl, hcs⟩
      exact forall_openers_iff.mpr hplain o ho (hstarts.trans hword)
    · have hp : [c, '{'] = p :=
        eq_of_prefix_of_length hstarts ((List.prefix_append p s).trans hcs) (Step.stay.inj h).symm
      rw [← hp]
      exact .doubled hc hs
    · cases h
  | brace =>
    have h : stepInTemplate c = .stay p.length := Option.some.inj hstep
    obtain ⟨hc, hp⟩ : (c ≠ '"' ∧ c ≠ '{' ∧ c ≠ '}') ∧ p.length = 0 := by
      unfold stepInTemplate at h
      grind
    obtain rfl := List.length_eq_zero_iff.mp hp
    exact .plain hc hs

theorem inside_enter {cs : Text} (hstep : frame.step c cs = some (.enter p.length inner))
    (hcs : p <+: cs) (hs : inner.Inside s) (ht : frame.Inside t) :
    frame.Inside (c :: (p ++ (s ++ t))) := by
  cases frame with
  | quote =>
    obtain ⟨-, ⟨-, h⟩ | ⟨-, h⟩ | ⟨-, h⟩ | ⟨-, -, h⟩ | ⟨hc, hstarts, h⟩⟩ :=
      cases_of_stepInString hstep
    · cases h
    · cases h
    · cases h
    · cases h
    · injection h with hlength hinner
      rw [hinner] at hs
      rw [← eq_of_prefix_of_length hstarts hcs hlength.symm]
      exact .template (s := s) hc hs ht
  | brace =>
    have h : stepInTemplate c = .enter p.length inner := Option.some.inj hstep
    obtain ⟨hp, hc⟩ : p.length = 0 ∧ (c = '"' ∧ inner = .quote ∨ c = '{' ∧ inner = .brace) := by
      unfold stepInTemplate at h
      grind
    obtain rfl := List.length_eq_zero_iff.mp hp
    obtain ⟨rfl, rfl⟩ | ⟨rfl, rfl⟩ := hc
    · exact .string (s := s) hs ht
    · exact .braces (s := s) hs ht

end Inside

/-- The text closes the frame and then each of the frames around it. -/
def Closes (frame : Frame) (outer : List Frame) (w : Text) : Prop :=
  match outer with
  | [] => frame.Inside w
  | next :: around => ∃ s t, w = s ++ t ∧ frame.Inside s ∧ Closes next around t

/-- More text in front of what closes the innermost frame. -/
theorem Closes.push {frame : Frame} {outer : List Frame} {p w : Text}
    (hp : ∀ s, s <+: w → frame.Inside s → frame.Inside (p ++ s)) (hw : Closes frame outer w) :
    Closes frame outer (p ++ w) := by
  cases outer with
  | nil => exact hp w (List.prefix_refl w) hw
  | cons next around =>
    obtain ⟨s, t, rfl, hs, ht⟩ := hw
    exact ⟨p ++ s, t, (List.append_assoc p s t).symm, hp s (List.prefix_append s t) hs, ht⟩

/-- What the scan passes over, behind what it skips, closes the frame and those around it. -/
theorem closes_of_extent {skip : Nat} {frame : Frame} {outer : List Frame} {t : Text} {n : Nat}
    (h : extent skip frame outer t = .ok n) :
    ∃ p w rest, p.length = skip ∧ t = p ++ w ++ rest ∧ n = (p ++ w).length ∧
      Closes frame outer w := by
  -- Along the text, for every stack of frames: a step may push one and another step take it off.
  induction t generalizing skip frame outer n with
  | nil => cases h
  | cons c cs ih =>
    have behind : ∀ {more : Nat} {f : Frame} {fs : List Frame},
        (extent more f fs cs).map (· + 1) = .ok n →
          ∃ p w rest, p.length = more ∧ cs = p ++ w ++ rest ∧ n = (c :: (p ++ w)).length ∧
            Closes f fs w := by
      intro more f fs h
      obtain ⟨m, hm, rfl⟩ := Except.map_eq_ok_iff.mp h
      obtain ⟨p, w, rest, hskip, ht, rfl, hw⟩ := ih hm
      exact ⟨p, w, rest, hskip, ht, rfl, hw⟩
    unfold extent at h
    cases skip with
    | succ skip =>
      obtain ⟨p, w, rest, rfl, rfl, rfl, hw⟩ := behind h
      exact ⟨c :: p, w, rest, rfl, rfl, rfl, hw⟩
    | zero =>
      dsimp only at h
      split at h
      · cases h
      · rename_i more hstep
        obtain ⟨p, w, rest, rfl, rfl, rfl, hw⟩ := behind h
        refine ⟨[], c :: (p ++ w), rest, rfl, rfl, rfl, hw.push (p := c :: p) fun s hs hin => ?_⟩
        have hstarts : p ++ s <+: p ++ w ++ rest :=
          ((List.prefix_append_right_inj p).mpr hs).trans (List.prefix_append _ rest)
        exact inside_stay hstep hstarts hin
      · rename_i more inner hstep
        -- The frame that opens is the innermost one, so its word comes first, and then the rest of
        -- the word of the frame around it.
        obtain ⟨p, w, rest, rfl, rfl, rfl, s, t, rfl, hs, ht⟩ := behind h
        refine ⟨[], c :: (p ++ (s ++ t)), rest, rfl, rfl, rfl, ?_⟩
        have hstarts : p <+: p ++ (s ++ t) ++ rest := by simp
        have hpush : Closes frame outer (c :: (p ++ s) ++ t) := ht.push fun v _ hv => by
          simpa using inside_enter hstep hstarts hs hv
        simpa using hpush
      · rename_i hstep
        split at h
        · cases h
          exact ⟨[], [c], cs, rfl, rfl, rfl, inside_leave hstep⟩
        · obtain ⟨p, w, rest, hp, rfl, rfl, hw⟩ := behind h
          obtain rfl := List.length_eq_zero_iff.mp hp
          exact ⟨[], c :: w, rest, rfl, rfl, rfl, [c], w, rfl, inside_leave hstep, hw⟩

/-- The string whose opening quote stands in front of `t` takes `n` characters of `t` exactly if it
    is a word of the language with them, no two words start at one quote, and the scan fails exactly
    if none starts there. -/
theorem size_eq_ok_iff_isString (t : Text) :
    (∀ n, size t = .ok n ↔ n ≤ t.length ∧ IsString ('"' :: t.take n)) ∧
      (∀ m n, m ≤ t.length → n ≤ t.length → IsString ('"' :: t.take m) →
        IsString ('"' :: t.take n) → m = n) ∧
      ((∃ problem, size t = .error problem) ↔
        ∀ n ≤ t.length, ¬ IsString ('"' :: t.take n)) := by
  have hsize : ∀ n, size t = .ok n ↔ n ≤ t.length ∧ IsString ('"' :: t.take n) := by
    intro n
    constructor
    · intro h
      obtain ⟨p, w, rest, hp, rfl, rfl, hw⟩ := closes_of_extent h
      obtain rfl := List.length_eq_zero_iff.mp hp
      refine ⟨by simp, w, hw, ?_⟩
      rw [List.take_left]
      rfl
    · rintro ⟨hle, w, hw, heq⟩
      have hpass : size (t.take n ++ t.drop n) = .ok (t.take n).length := by
        rw [(List.cons.inj heq).2]
        exact hw.passes [] _
      rwa [List.take_append_drop, List.length_take_of_le hle] at hpass
  refine ⟨hsize, fun m n hm hn hsm hsn => ?_, ?_, ?_⟩
  · have hsame := ((hsize m).mpr ⟨hm, hsm⟩).symm.trans ((hsize n).mpr ⟨hn, hsn⟩)
    exact Except.ok.inj hsame
  · rintro ⟨problem, hproblem⟩ n hle hstring
    rw [(hsize n).mpr ⟨hle, hstring⟩] at hproblem
    cases hproblem
  · intro hnone
    cases h : size t with
    | error problem => exact ⟨problem, rfl⟩
    | ok n =>
      obtain ⟨hle, hstring⟩ := (hsize n).mp h
      exact absurd hstring (hnone n hle)

end HclQuery.Quoted
