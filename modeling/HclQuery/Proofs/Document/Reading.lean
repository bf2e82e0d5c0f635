/-
  What each part of the reader accepts, in the terms of the grammar.

  One statement for each function: it succeeds exactly on the tokens that the grammar describes,
  and returns their parts. For values this ties the counter of open brackets, which never looks
  back, to `netDepth` of the start of the value (`nested_cons`).
-/
import HclQuery.Document.OfTokens
import HclQuery.Proofs.Document.Grammar

namespace HclQuery.Document

open Grammar

/-! ## Line ends -/

theorem cutLineEnd_append (ts : List Token) : (cutLineEnd ts).1 ++ (cutLineEnd ts).2 = ts := by
  unfold cutLineEnd
  split
  · rfl
  · split <;> rfl

theorem takesLineEnd_cutLineEnd (ts : List Token) :
    TakesLineEnd (cutLineEnd ts).1 (cutLineEnd ts).2 := by
  unfold cutLineEnd
  split
  · exact Or.inr ⟨rfl, by simp⟩
  · rename_i t ts
    split
    · rename_i hkind
      exact Or.inl ⟨t, rfl, hkind⟩
    · rename_i hkind
      exact Or.inr ⟨rfl, by simpa using hkind⟩

theorem cutLineEnd_of_takes {lineEnd rest : List Token} (h : TakesLineEnd lineEnd rest) :
    cutLineEnd (lineEnd ++ rest) = (lineEnd, rest) := by
  rcases h with ⟨t, rfl, hkind⟩ | ⟨rfl, hkind⟩
  · simp [cutLineEnd, hkind]
  · cases rest with
    | nil => rfl
    | cons t rest =>
      have : t.kind ≠ .newline := hkind t rfl
      simp [cutLineEnd, this]

theorem endsLine_iff {t : Token} {ts : List Token} (hkind : t.kind = .comment) :
    endsLine t ts = true ↔ IsLineComment t ts := by
  unfold endsLine IsLineComment
  rw [Bool.or_eq_true, Bool.or_eq_true, List.isPrefixOf_iff_prefix, List.isPrefixOf_iff_prefix]
  cases ts <;> simp [hkind, or_assoc]

/-! ## Values -/

theorem netDepth_cons (t : Token) (ts : List Token) :
    netDepth (t :: ts) = netDepth [t] + netDepth ts := by
  unfold netDepth
  rw [List.countP_cons, List.countP_cons, List.countP_singleton, List.countP_singleton]
  push_cast
  omega

/-- The counter of open brackets follows the count of brackets so far. -/
theorem depthAfter_eq {depth : Nat} {t : Token} (h : t.kind.isClosing = true → 0 < depth) :
    (depthAfter depth t : Int) = depth + netDepth [t] := by
  unfold depthAfter netDepth
  rw [List.countP_singleton, List.countP_singleton]
  cases hkind : t.kind <;> simp_all [TokenKind.isOpening, TokenKind.isClosing] <;> omega

theorem nested_nil {depth : Nat} {rest : List Token} : Nested depth [] rest ↔ depth = 0 := by
  have hnil : netDepth [] = 0 := rfl
  constructor
  · intro h
    have := h.closed
    omega
  · intro h
    refine ⟨?_, by omega, ?_⟩
    · intro start hstart
      rw [List.prefix_nil.mp hstart]
      omega
    · intro before t after heq
      simp at heq

/-- The rule for values, taken one token at a time. -/
theorem nested_cons {depth : Nat} {t : Token} {ts rest : List Token} :
    Nested depth (t :: ts) rest ↔
      (depth = 0 → t.kind ≠ .newline ∧ ¬ IsLineComment t (ts ++ rest)) ∧
        (t.kind.isClosing = true → 0 < depth) ∧ Nested (depthAfter depth t) ts rest := by
  have hnil : netDepth [] = 0 := rfl
  constructor
  · intro h
    have hclose : t.kind.isClosing = true → 0 < depth := by
      intro hc
      have hone := h.nonneg [t] (by simp)
      have ho : t.kind.isOpening = false := by
        cases hkind : t.kind <;> simp_all [TokenKind.isOpening, TokenKind.isClosing]
      simp [netDepth, hc, ho] at hone
      omega
    have hdepth := depthAfter_eq hclose
    refine ⟨fun h0 => h.oneLine [] t ts rfl (by omega), hclose, ?_, ?_, ?_⟩
    · intro start hstart
      have := h.nonneg (t :: start) (List.cons_prefix_cons.mpr ⟨rfl, hstart⟩)
      rw [netDepth_cons] at this
      omega
    · have := h.closed
      rw [netDepth_cons] at this
      omega
    · intro before u after heq h0
      refine h.oneLine (t :: before) u after (by rw [heq]; rfl) ?_
      rw [netDepth_cons]
      omega
  · intro h
    obtain ⟨hline, hclose, h⟩ := h
    have hdepth := depthAfter_eq hclose
    refine ⟨?_, ?_, ?_⟩
    · intro start hstart
      cases start with
      | nil => omega
      | cons u start =>
        obtain ⟨rfl, htail⟩ := List.cons_prefix_cons.mp hstart
        have := h.nonneg start htail
        rw [netDepth_cons]
        omega
    · have := h.closed
      rw [netDepth_cons]
      omega
    · intro before u after heq h0
      cases before with
      | nil =>
        obtain ⟨rfl, rfl⟩ := List.cons.inj heq
        exact hline (by omega)
      | cons v before =>
        obtain ⟨rfl, rfl⟩ := List.cons.inj heq
        rw [netDepth_cons] at h0
        exact h.oneLine before u after rfl (by omega)

/-- A token that does not end the value is part of it. -/
theorem cutValue_push {name t : Token} {depth : Nat} {ts : List Token}
    (hline : depth = 0 → t.kind ≠ .newline ∧ ¬ IsLineComment t ts)
    (hclose : t.kind.isClosing = true → 0 < depth) :
    cutValue name depth (t :: ts) =
      (cutValue name (depthAfter depth t) ts).map (Cut.push t) := by
  rw [cutValue]
  by_cases h0 : depth = 0
  · obtain ⟨hnewline, hcomment⟩ := hline h0
    have hopen : t.kind.isClosing = false := by
      cases hc : t.kind.isClosing with
      | false => rfl
      | true => exact absurd (hclose hc) (by omega)
    have hbrace : t.kind ≠ .closeBrace := by
      intro hb
      rw [hb] at hopen
      cases hopen
    by_cases hkind : t.kind = .comment
    · have hends : endsLine t ts = false := by
        cases he : endsLine t ts with
        | false => rfl
        | true => exact absurd ((endsLine_iff hkind).mp he) hcomment
      simp [hends, hkind, TokenKind.isClosing]
    · simp [hnewline, hbrace, hkind, hopen]
  · simp [h0]

/-- What is cut off as a value is one, with its ending, and nothing is lost. -/
theorem nested_of_cutValue {name : Token} {depth : Nat} {ts : List Token} {cut : Cut}
    (h : cutValue name depth ts = .ok cut) :
    ts = cut.value ++ (cut.ending ++ cut.rest) ∧
      Nested depth cut.value (cut.ending ++ cut.rest) ∧ IsEnding cut.ending cut.rest := by
  induction ts generalizing depth cut with
  | nil =>
    unfold cutValue at h
    split at h
    · rename_i h0
      cases h
      exact ⟨rfl, nested_nil.mpr h0, Or.inr (Or.inr ⟨rfl, Or.inl rfl⟩)⟩
    · cases h
  | cons t ts ih =>
    unfold cutValue at h
    split at h
    · rename_i hnewline
      simp only [Bool.and_eq_true, decide_eq_true_eq] at hnewline
      cases h
      exact ⟨rfl, nested_nil.mpr hnewline.1, Or.inl ⟨t, rfl, hnewline.2⟩⟩
    split at h
    · rename_i hbrace
      simp only [Bool.and_eq_true, decide_eq_true_eq] at hbrace
      cases h
      exact ⟨rfl, nested_nil.mpr hbrace.1, Or.inr (Or.inr ⟨rfl, Or.inr ⟨t, rfl, hbrace.2⟩⟩)⟩
    split at h
    · rename_i hcomment
      simp only [Bool.and_eq_true, decide_eq_true_eq] at hcomment
      obtain ⟨⟨h0, hkind⟩, hends⟩ := hcomment
      cases h
      have happend := cutLineEnd_append ts
      refine ⟨?_, nested_nil.mpr h0, Or.inr (Or.inl ⟨t, _, rfl, ?_, takesLineEnd_cutLineEnd ts⟩)⟩
      · rw [List.nil_append, List.cons_append, happend]
      · rw [happend]
        exact (endsLine_iff hkind).mp hends
    split at h
    · cases h
    · rename_i hnewline hbrace hcomment hclosing
      cases hrec : cutValue name (depthAfter depth t) ts with
      | error fault => rw [hrec] at h; cases h
      | ok inner =>
        rw [hrec] at h
        cases h
        obtain ⟨hts, hnested, hends⟩ := ih hrec
        refine ⟨by rw [hts]; rfl, nested_cons.mpr ⟨fun h0 => ⟨?_, ?_⟩, ?_, hnested⟩, hends⟩
        · intro hkind
          simp [h0, hkind] at hnewline
        · intro hline
          rw [Cut.push, ← hts] at hline
          have he := (endsLine_iff hline.1).mpr hline
          simp [h0, hline.1, he] at hcomment
        · intro hc
          simp [hc] at hclosing
          omega

/-- A value and its ending are cut off as they are. -/
theorem cutValue_of_nested {name : Token} {depth : Nat} {value ending rest : List Token}
    (hnested : Nested depth value (ending ++ rest)) (hends : IsEnding ending rest) :
    cutValue name depth (value ++ (ending ++ rest)) = .ok ⟨value, ending, rest⟩ := by
  induction value generalizing depth with
  | nil =>
    have h0 : depth = 0 := nested_nil.mp hnested
    subst h0
    rw [List.nil_append]
    rcases hends with ⟨t, rfl, hkind⟩ | ⟨t, lineEnd, rfl, hline, htakes⟩ | ⟨rfl, hend⟩
    · simp [cutValue, hkind]
    · have he := (endsLine_iff hline.1).mpr hline
      simp [cutValue, hline.1, he, cutLineEnd_of_takes htakes]
    · rcases hend with rfl | ⟨t, ht, hkind⟩
      · rfl
      · obtain ⟨rest, rfl⟩ : ∃ tail, rest = t :: tail := List.head?_eq_some_iff.mp ht
        simp [cutValue, hkind]
  | cons t value ih =>
    obtain ⟨hline, hclose, hnested⟩ := nested_cons.mp hnested
    rw [List.cons_append, cutValue_push hline hclose, ih hnested]
    rfl

/-- Tokens are read as an attribute exactly if they begin with one. -/
theorem readAttribute_eq_ok_iff {name equal : Token} {ts rest : List Token} {a : Attribute}
    (hname : name.kind = .ident) (hequal : equal.kind = .equal) :
    readAttribute name equal ts = .ok (a, rest) ↔
      ∃ value ending, IsAttribute name equal value ending rest ∧
        ts = value ++ (ending ++ rest) ∧
        a = ⟨name.text, name :: equal :: (value ++ ending)⟩ := by
  unfold readAttribute
  constructor
  · intro h
    cases hc : cutValue name 0 ts with
    | error fault => rw [hc] at h; cases h
    | ok cut =>
      rw [hc] at h
      dsimp only at h
      split at h
      · cases h
      · rename_i hvalue
        cases h
        obtain ⟨hts, hnested, hends⟩ := nested_of_cutValue hc
        exact ⟨cut.value, cut.ending, ⟨hname, hequal, by simpa using hvalue, hnested, hends⟩, hts,
          rfl⟩
  · intro h
    obtain ⟨value, ending, hattr, hts, ha⟩ := h
    subst hts ha
    rw [cutValue_of_nested hattr.nested hattr.ends]
    have hvalue : value.all Token.isTrivia = false := by simpa using hattr.hasValue
    simp [hvalue]

/-! ## Block headers -/

theorem holdsTemplate_iff (t : Text) :
    Label.holdsTemplate t = true ↔ ['$', '{'] <:+: t ∨ ['%', '{'] <:+: t := by
  induction t with
  | nil => simp [Label.holdsTemplate]
  | cons c cs ih =>
    unfold Label.holdsTemplate Quoted.opensTemplate
    rw [Bool.or_eq_true, ih, List.infix_cons_iff, List.infix_cons_iff, List.cons_prefix_cons,
      List.cons_prefix_cons, Bool.and_eq_true, List.isPrefixOf_iff_prefix, Bool.or_eq_true,
      decide_eq_true_eq, decide_eq_true_eq, or_and_right, @eq_comm _ c, @eq_comm _ c]
    exact or_or_or_comm

theorem isLabel_of_decode? {t : Token} {label : Text} (hkind : t.kind = .string)
    (h : Label.decode? t.text = some label) : IsLabel t ∧ label = labelText t := by
  unfold Label.decode? at h
  dsimp only at h
  split at h
  · cases h
  · rename_i hholds
    rw [holdsTemplate_iff, not_or] at hholds
    refine ⟨Or.inr ⟨hkind, hholds⟩, ?_⟩
    rw [labelText, if_pos hkind]
    exact (Option.some.inj h).symm

theorem decode?_of_isLabel {t : Token} (hkind : t.kind = .string) (h : IsLabel t) :
    Label.decode? t.text = some (labelText t) := by
  rcases h with hident | ⟨-, hholds⟩
  · rw [hkind] at hident
    cases hident
  · rw [← not_or] at hholds
    unfold Label.decode?
    rw [labelText, if_pos hkind, if_neg (by rwa [holdsTemplate_iff])]
    rfl

/-- A string is rejected as a label exactly if it is none. -/
theorem decode?_eq_none_iff {t : Token} (hkind : t.kind = .string) :
    Label.decode? t.text = none ↔ ¬ IsLabel t := by
  constructor
  · intro hnone hlabel
    rw [decode?_of_isLabel hkind hlabel] at hnone
    cases hnone
  · intro hno
    cases hdecode : Label.decode? t.text with
    | none => rfl
    | some label => exact absurd (isLabel_of_decode? hkind hdecode).1 hno

theorem readHeader_label {type t : Token} {ts : List Token} (h : IsLabel t) :
    readHeader type (t :: ts) = (readHeader type ts).map (Header.push (labelText t) t) := by
  rw [readHeader]
  rcases h.kind with hkind | hkind
  · rw [hkind, labelText, if_neg (by rw [hkind]; decide)]
  · rw [hkind]
    simp [decode?_of_isLabel hkind h]

/-- The tokens of the header are labels and then an opening brace, with the line end behind it;
    its labels say what those tokens say. -/
def IsHeader (header : Header) : Prop :=
  ∃ labels opening openingEnd, (∀ t ∈ labels, IsLabel t) ∧ opening.kind = .openBrace ∧
    TakesLineEnd openingEnd header.rest ∧ header.tokens = labels ++ opening :: openingEnd ∧
    header.labels = labels.map labelText

theorem IsHeader.push {header : Header} {t : Token} (h : IsHeader header) (ht : IsLabel t) :
    IsHeader (header.push (labelText t) t) := by
  obtain ⟨labels, opening, openingEnd, hlabels, hkind, htakes, htokens, hsay⟩ := h
  refine ⟨t :: labels, opening, openingEnd, ?_, hkind, htakes, ?_, ?_⟩
  · intro u hu
    rcases List.mem_cons.mp hu with rfl | hu
    · exact ht
    · exact hlabels u hu
  · rw [Header.push, htokens]
    rfl
  · rw [Header.push, hsay]
    rfl

/-- What is read as a header is one, and nothing is lost. -/
theorem isHeader_of_readHeader {type : Token} {ts : List Token} {header : Header}
    (h : readHeader type ts = .ok header) :
    ts = header.tokens ++ header.rest ∧ IsHeader header := by
  induction ts generalizing header with
  | nil => cases h
  | cons t ts ih =>
    have hpush : IsLabel t → t :: ts = header.tokens ++ header.rest ∧ IsHeader header := by
      intro hlabel
      rw [readHeader_label hlabel] at h
      cases hrec : readHeader type ts with
      | error fault => rw [hrec] at h; cases h
      | ok inner =>
        rw [hrec] at h
        cases h
        obtain ⟨hts, hinner⟩ := ih hrec
        exact ⟨by rw [hts]; rfl, hinner.push hlabel⟩
    unfold readHeader at h
    split at h
    · rename_i hkind
      exact hpush (Or.inl hkind)
    · rename_i hkind
      split at h
      · rename_i label hdecode
        exact hpush (isLabel_of_decode? hkind hdecode).1
      · cases h
    · rename_i hkind
      cases h
      refine ⟨?_, [], t, _, by simp, hkind, takesLineEnd_cutLineEnd ts, rfl, rfl⟩
      rw [List.cons_append, cutLineEnd_append]
    · cases h

/-- A header is read as it is. -/
theorem readHeader_of_labels {type opening : Token} {labels openingEnd rest : List Token}
    (hlabels : ∀ t ∈ labels, IsLabel t) (hkind : opening.kind = .openBrace)
    (htakes : TakesLineEnd openingEnd rest) :
    readHeader type (labels ++ opening :: (openingEnd ++ rest)) =
      .ok ⟨labels.map labelText, labels ++ opening :: openingEnd, rest⟩ := by
  induction labels with
  | nil =>
    rw [List.nil_append, readHeader, hkind]
    simp [cutLineEnd_of_takes htakes]
  | cons t labels ih =>
    rw [List.cons_append, readHeader_label (hlabels t (by simp)),
      ih fun u hu => hlabels u (List.mem_cons_of_mem t hu)]
    rfl

/-! ## Steps -/

namespace State

/-- All that a step can do. -/
inductive Move (s : State) (t : Token) (ts : List Token) : State → List Token → Prop where
  | trivia (hkind : t.isTrivia = true) :
      Move s t ts (s.add (.trivia (t :: ts.takeWhile Token.isTrivia)))
        (ts.dropWhile Token.isTrivia)
  | assignment {equal : Token} {tail rest : List Token} {a : Attribute}
      (hkind : t.kind = .ident) (hts : ts = equal :: tail) (hequal : equal.kind = .equal)
      (hread : readAttribute t equal tail = .ok (a, rest)) :
      Move s t ts (s.add (.attribute a)) rest
  | enter {header : Header} (hkind : t.kind = .ident)
      (hnext : ∀ next ∈ ts.head?, next.kind ≠ .equal) (hread : readHeader t ts = .ok header) :
      Move s t ts (s.enter t header) header.rest
  | close {p : Pending} {pending : List Pending} (hkind : t.kind = .closeBrace)
      (hpending : s.pending = p :: pending) :
      Move s t ts
        ⟨.block { p.shell with closing := t :: (cutLineEnd ts).1 } s.items.reverse :: p.before,
          pending⟩
        (cutLineEnd ts).2

theorem move_of_openBlock {s s' : State} {t : Token} {ts rest : List Token}
    (hkind : t.kind = .ident) (hnext : ∀ next ∈ ts.head?, next.kind ≠ .equal)
    (h : s.openBlock t ts = .ok (s', rest)) : Move s t ts s' rest := by
  unfold openBlock at h
  cases hread : readHeader t ts with
  | error fault => rw [hread] at h; cases h
  | ok header =>
    rw [hread] at h
    cases h
    exact .enter hkind hnext hread

theorem move_of_step {s s' : State} {t : Token} {ts rest : List Token}
    (h : s.step t ts = .ok (s', rest)) : Move s t ts s' rest := by
  unfold step at h
  split at h
  · rename_i htrivia
    cases h
    exact .trivia htrivia
  split at h
  · rename_i hbrace
    unfold close at h
    split at h
    · cases h
    · rename_i p pending hpending
      cases h
      exact .close hbrace hpending
  split at h
  · cases h
  rename_i hident
  have hkind : t.kind = .ident := by simpa using hident
  split at h
  · exact move_of_openBlock hkind (by simp) h
  · rename_i next tail
    split at h
    · rename_i hequal
      cases hread : readAttribute t next tail with
      | error fault => rw [hread] at h; cases h
      | ok r =>
        rw [hread] at h
        cases h
        exact .assignment hkind rfl hequal hread
    · rename_i hequal
      exact move_of_openBlock hkind (by simpa using hequal) h

/-- A name that no `=` follows is taken for the type of a block. -/
theorem step_openBlock {s : State} {t : Token} {ts : List Token} (hkind : t.kind = .ident)
    (hnext : ∀ next ∈ ts.head?, next.kind ≠ .equal) : s.step t ts = s.openBlock t ts := by
  cases ts with
  | nil => simp [step, Token.isTrivia, TokenKind.isTrivia, hkind]
  | cons next tail =>
    have hequal : next.kind ≠ .equal := hnext next rfl
    simp [step, Token.isTrivia, TokenKind.isTrivia, hkind, hequal]

theorem step_of_move {s s' : State} {t : Token} {ts rest : List Token}
    (h : Move s t ts s' rest) : s.step t ts = .ok (s', rest) := by
  cases h with
  | trivia hkind => simp [step, hkind]
  | assignment hkind hts hequal hread =>
    subst hts
    simp [step, Token.isTrivia, TokenKind.isTrivia, hkind, hequal, hread, Except.map]
  | enter hkind hnext hread =>
    rw [step_openBlock hkind hnext, openBlock, hread]
    rfl
  | close hkind hpending =>
    simp [step, Token.isTrivia, TokenKind.isTrivia, hkind, close, hpending]

end State

end HclQuery.Document
