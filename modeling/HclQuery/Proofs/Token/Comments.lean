/-
  Sources with other comments.

  Where a comment becomes another one with the same mark in front (`Recommented`), the texts in
  front of it see the same first character of it and no more. Up to there the sources are the same
  (`Text.SameToComment`), and a lexeme stops in front of another comment where it stopped before
  (`SameToComment.stopsAlike`). So the source with other comments is cut into the same tokens, but
  for the comments and the lines: `Cuts.recommented`.
-/
import Mathlib.Data.List.Forall2
import HclQuery.Proofs.Token.Stopping

namespace HclQuery

/-! ## Texts up to a comment -/

namespace Text

/-- The texts are the same, or are the same up to where a comment starts in both. -/
def SameToComment (x y : Text) : Prop :=
  x = y ∨ ∃ w c x' y', (c = '#' ∨ c = '/') ∧ x = w ++ c :: x' ∧ y = w ++ c :: y'

namespace SameToComment

variable {x y : Text}

theorem append_left (h : SameToComment x y) (v : Text) : SameToComment (v ++ x) (v ++ y) := by
  rcases h with rfl | ⟨w, c, x', y', hc, rfl, rfl⟩
  · exact Or.inl rfl
  · refine Or.inr ⟨v ++ w, c, x', y', hc, ?_, ?_⟩
    · rw [List.append_assoc]
    · rw [List.append_assoc]

theorem head?_eq (h : SameToComment x y) : x.head? = y.head? := by
  rcases h with rfl | ⟨w, c, x', y', -, rfl, rfl⟩
  · rfl
  · cases w <;> rfl

theorem eq_nil (h : SameToComment [] y) : y = [] := by
  have hhead := h.head?_eq
  cases y with
  | nil => rfl
  | cons => cases hhead

/-- A run that reaches no comment is the same in both. -/
theorem takeWhile_eq (h : SameToComment x y) {p : Char → Bool}
    (hfree : ∀ c, c = '#' ∨ c = '/' → c ∉ x.takeWhile p) : y.takeWhile p = x.takeWhile p := by
  rcases h with rfl | ⟨w, c, x', y', hc, rfl, rfl⟩
  · rfl
  · by_cases hall : ∀ d ∈ w, p d = true
    · have hstop : p c = false := by
        refine Bool.eq_false_iff.mpr fun hp => hfree c hc ?_
        rw [List.takeWhile_append_of_pos hall, List.takeWhile_cons_of_pos hp]
        simp
      rw [List.takeWhile_append_of_pos hall, List.takeWhile_append_of_pos hall,
        List.takeWhile_cons_of_neg (by simp [hstop]), List.takeWhile_cons_of_neg (by simp [hstop])]
    · have hshort : ¬ (w.takeWhile p).length = w.length := fun hlen =>
        hall (List.takeWhile_eq_self_iff.mp ((List.takeWhile_prefix p).eq_of_length hlen))
      rw [List.takeWhile_append, List.takeWhile_append, if_neg hshort, if_neg hshort]

/-- A lexeme stops in front of another comment where it stopped in front of the one before. -/
theorem stopsAlike (h : SameToComment x y) : Lexeme.StopsAlike x y where
  eq_nil := by
    rintro rfl
    exact h.eq_nil
  upToStop := by
    rcases h with rfl | ⟨w, c, x', y', hc, rfl, rfl⟩
    · exact ⟨x, [], [], by simp, by simp, by simp⟩
    · refine ⟨w, c :: x', c :: y', rfl, rfl, fun d hd => ?_⟩
      obtain rfl : c = d := Option.some.inj hd
      rcases hc with rfl | rfl <;> simp [Lexeme.stops]
  inside := fun hnone => by
    rw [h.takeWhile_eq (by simp [hnone]), hnone]
  returns := fun hreturns => by
    rwa [h.takeWhile_eq]
    intro c hc hmem
    rw [hreturns c hmem] at hc
    rcases hc with hc | hc <;> cases hc

end SameToComment

end Text

/-! ## Comments -/

/-- The text is a comment that starts with the mark: one up to the end of a line, or one that ends
    at the first `*/` behind its mark. -/
inductive IsComment : Text → Text → Prop where
  | line {mark said : Text} (hmark : mark = ['#'] ∨ mark = ['/', '/'])
      (hsaid : ∀ c ∈ said, c ≠ '\r' ∧ c ≠ '\n') : IsComment mark (mark ++ said)
  | block {said : Text}
      (hfirst : ∀ before after, said ++ ['*', '/'] = before ++ ['*', '/'] ++ after → after = []) :
      IsComment ['/', '*'] (['/', '*'] ++ (said ++ ['*', '/']))

theorem IsComment.starts {mark text : Text} (h : IsComment mark text) :
    mark <+: text ∧ (mark = ['#'] ∨ mark = ['/', '/'] ∨ mark = ['/', '*']) := by
  cases h with
  | line hmark hsaid => exact ⟨List.prefix_append _ _, hmark.imp_right Or.inl⟩
  | block hfirst => exact ⟨List.prefix_append _ _, Or.inr (Or.inr rfl)⟩

/-- The mark of a block comment is no start of another one. -/
theorem IsComment.eq_of_block {mark text t : Text} (h : IsComment mark text) (hmark : mark <+: t)
    (hblock : ['/', '*'] <+: t) : mark = ['/', '*'] := by
  cases h with
  | block => rfl
  | line hkinds =>
    rcases hkinds with rfl | rfl
    · have := List.prefix_of_prefix_length_le hmark hblock (by simp)
      simp at this
    · have := List.prefix_of_prefix_length_le hmark hblock (by simp)
      simp at this

namespace Lexeme

/-- Where the first `*/` is the last, the search for it takes the whole text. -/
theorem commentSize?_of_first {said : Text}
    (h : ∀ before after, said ++ ['*', '/'] = before ++ ['*', '/'] ++ after → after = []) :
    commentSize? (said ++ ['*', '/']) = some (said ++ ['*', '/']).length := by
  induction said with
  | nil => rfl
  | cons c said ih =>
    have hopen : ¬ (c = '*' && ['/'].isPrefixOf (said ++ ['*', '/'])) = true := by
      rw [Bool.and_eq_true, decide_eq_true_eq, List.isPrefixOf_iff_prefix]
      intro hclose
      obtain ⟨rfl, rest, hrest⟩ := hclose
      have hnil := h [] rest (by rw [List.cons_append, ← hrest]; rfl)
      have hlen := congrArg List.length hrest
      rw [hnil, List.length_append, List.length_append] at hlen
      simp at hlen
    have hsaid := ih fun before after heq => h (c :: before) after (by
      rw [List.cons_append, heq]
      rfl)
    rw [List.cons_append, commentSize?, if_neg hopen, hsaid]
    rfl

/-- The search for `*/` stops at the first one. -/
theorem exists_first_of_commentSize? {t : Text} (h : commentSize? t = some t.length) :
    ∃ said, t = said ++ ['*', '/'] ∧
      ∀ before after, said ++ ['*', '/'] = before ++ ['*', '/'] ++ after → after = [] := by
  induction t with
  | nil => cases h
  | cons c cs ih =>
    unfold commentSize? at h
    split at h
    · rename_i hclose
      rw [Bool.and_eq_true, decide_eq_true_eq, List.isPrefixOf_iff_prefix] at hclose
      obtain ⟨rfl, below, rfl⟩ := hclose
      obtain rfl : below = [] := by simpa using h
      refine ⟨[], rfl, fun before after heq => ?_⟩
      have hlen := congrArg List.length heq
      simp only [List.length_append, List.length_cons, List.length_nil] at hlen
      exact List.length_eq_zero_iff.mp (by omega)
    · rename_i hopen
      obtain ⟨n, hn, hlen⟩ := Option.map_eq_some_iff.mp h
      rw [Nat.add_right_cancel hlen] at hn
      obtain ⟨said, rfl, hfirst⟩ := ih hn
      refine ⟨c :: said, rfl, fun before after heq => ?_⟩
      cases before with
      | nil =>
        obtain ⟨rfl, hsaid⟩ := List.cons.inj heq
        have hslash : ['/'] <+: said ++ ['*', '/'] := ⟨after, hsaid.symm⟩
        exact absurd (by simp [hslash]) hopen
      | cons d before => exact hfirst before after (List.cons.inj heq).2

variable {c : Char} {w x y mark text : Text}

/-- A lexeme that is read as a comment is one, and if it is no block its line ends behind it. -/
theorem isComment_of_read (h : read c (w ++ x) = .ok ⟨.comment, w.length⟩) :
    ∃ mark, IsComment mark (c :: w) ∧ (mark = ['/', '*'] ∨ x.takeWhile insideLine = []) := by
  rcases comment_of_read h rfl with ⟨hstarts, hlen⟩ | ⟨hstarts, n, hsize, hlen⟩
  · obtain ⟨hall, hnone⟩ := Text.takeWhile_whole hlen
    have hsaid : ∀ d ∈ w, d ≠ '\r' ∧ d ≠ '\n' := fun d hd => by
      simpa [insideLine] using hall d hd
    have hfront := startsLineComment_front hstarts hlen.ge
    rw [startsLineComment, Bool.or_eq_true, Bool.and_eq_true, decide_eq_true_eq,
      decide_eq_true_eq, List.isPrefixOf_iff_prefix] at hfront
    rcases hfront with rfl | ⟨rfl, said, rfl⟩
    · exact ⟨['#'], .line (Or.inl rfl) hsaid, Or.inr hnone⟩
    · exact ⟨['/', '/'], .line (Or.inr rfl) fun d hd => hsaid d (List.mem_cons_of_mem _ hd),
        Or.inr hnone⟩
  · obtain ⟨said, rfl, rfl, hwhole⟩ := exists_said_of_block hstarts hsize hlen
    obtain ⟨said, rfl, hfirst⟩ := exists_first_of_commentSize? hwhole
    exact ⟨['/', '*'], .block hfirst, Or.inl rfl⟩

/-- A comment is read as one where its line may end. -/
theorem read_of_isComment (h : IsComment mark text)
    (hstop : mark = ['/', '*'] ∨ y.takeWhile insideLine = []) :
    ∃ d v, text = d :: v ∧ (d = '#' ∨ d = '/') ∧ read d (v ++ y) = .ok ⟨.comment, v.length⟩ := by
  cases h with
  | block hfirst =>
    have hreads := reads_block (commentSize?_of_first hfirst) y
    exact ⟨'/', _, rfl, Or.inr rfl, read_of_reads hreads⟩
  | @line _ said hmark hsaid =>
    have hnone : y.takeWhile insideLine = [] := by
      refine hstop.resolve_left fun heq => ?_
      rw [heq] at hmark
      rcases hmark with hmark | hmark <;> cases hmark
    have hrun : ∀ v, (∀ d ∈ v, insideLine d = true) → (v ++ y).takeWhile insideLine = v := by
      intro v hv
      rw [List.takeWhile_append_of_pos hv, hnone, List.append_nil]
    have hinside : ∀ d ∈ said, insideLine d = true := by
      intro d hd
      simpa [insideLine] using hsaid d hd
    rcases hmark with rfl | rfl
    · refine ⟨'#', said, rfl, Or.inl rfl, read_of_reads ?_⟩
      have hreads : Reads '#' (said ++ y) _ := .lineComment rfl
      rw [hrun said hinside] at hreads
      exact hreads
    · refine ⟨'/', '/' :: said, rfl, Or.inr rfl, read_of_reads ?_⟩
      have hreads : Reads '/' ('/' :: said ++ y) _ := .lineComment rfl
      rw [hrun _ (by simpa [insideLine] using hinside)] at hreads
      exact hreads

end Lexeme

/-! ## Tokens -/

namespace Token

/-- The tokens are the same, or are comments behind the same blanks and with the same mark. -/
structure Recommented (t u : Token) : Prop where
  kind : t.kind = u.kind
  leading : t.leading = u.leading
  text : t.text = u.text ∨
    (t.kind = .comment ∧ ∃ mark, mark <+: t.text ∧ IsComment mark u.text)

/-- Up to the first comment that is another one, the tokens stand for the same text. -/
theorem sameToComment_sourceOf {ts us : List Token} (h : List.Forall₂ Recommented ts us) :
    Text.SameToComment (sourceOf ts) (sourceOf us) := by
  induction h with
  | nil => exact Or.inl rfl
  | @cons t u ts us htu _ ih =>
    rw [sourceOf_cons, sourceOf_cons, ← htu.leading]
    rcases htu.text with heq | ⟨-, mark, hmark, hcomment⟩
    · rw [← heq]
      exact ih.append_left _
    · obtain ⟨⟨said', hsaid'⟩, hkinds⟩ := hcomment.starts
      obtain ⟨said, hsaid⟩ := hmark
      obtain ⟨c, more, hc, rfl⟩ : ∃ c more, (c = '#' ∨ c = '/') ∧ mark = c :: more := by
        rcases hkinds with rfl | rfl | rfl <;> simp
      refine Or.inr ⟨t.leading, c, more ++ said ++ sourceOf ts, more ++ said' ++ sourceOf us, hc,
        ?_, ?_⟩
      · rw [← hsaid]
        simp
      · rw [← hsaid']
        simp

variable {c : Char} {w x y : Text} {t u : Token}

/-- A token is read again in front of other comments, or another comment is read in its place. -/
theorem Recommented.exists_read (h : t.Recommented u) (htext : t.text = c :: w)
    (hc : isLeading c = false) (hread : Lexeme.read c (w ++ x) = .ok ⟨t.kind, w.length⟩)
    (hxy : Text.SameToComment x y) :
    ∃ d v, u.text = d :: v ∧ isLeading d = false ∧
      Lexeme.read d (v ++ y) = .ok ⟨u.kind, v.length⟩ := by
  rw [← h.kind]
  rcases h.text with heq | ⟨hkind, mark, hmark, hcomment⟩
  · exact ⟨c, w, heq.symm.trans htext, hc, Lexeme.read_of_stopsAlike hread hxy.stopsAlike⟩
  · rw [hkind] at hread ⊢
    rw [htext] at hmark
    have hstop : mark = ['/', '*'] ∨ y.takeWhile Lexeme.insideLine = [] := by
      obtain ⟨mark', hold, hends⟩ := Lexeme.isComment_of_read hread
      refine hends.imp (fun hblock => ?_) fun hnone => ?_
      · exact hcomment.eq_of_block hmark (hblock ▸ hold.starts.1)
      · rw [hxy.takeWhile_eq (by simp [hnone]), hnone]
    obtain ⟨d, v, hu, hd, hnew⟩ := Lexeme.read_of_isComment hcomment hstop
    refine ⟨d, v, hu, ?_, hnew⟩
    rcases hd with rfl | rfl <;> decide

/-- In front of other comments the same token stands, or the comment that replaces it. -/
theorem Recommented.stands (h : t.Recommented u) (hold : t.Stands x)
    (hxy : Text.SameToComment x y) : u.Stands y := by
  refine ⟨h.leading ▸ hold.leading, ?_⟩
  rcases hold.read with ⟨htext, hkind, hne, rfl⟩ | ⟨c, w, htext, hc, hread⟩
  · refine Or.inl ⟨?_, h.kind.symm.trans hkind, h.leading ▸ hne, hxy.eq_nil⟩
    rcases h.text with heq | ⟨hcomment, -⟩
    · exact heq.symm.trans htext
    · rw [hkind] at hcomment
      cases hcomment
  · exact Or.inr (h.exists_read htext hc hread hxy)

/-- A source with other comments is cut into the same tokens with these comments. -/
theorem Cuts.recommented {line : Int} {t : Text} {ts vs : List Token} (h : Cuts line t ts)
    (hvs : List.Forall₂ Recommented ts vs) (start : Int) :
    ∃ us, Cuts start (sourceOf vs) us ∧ List.Forall₂ (fun v u => v.agrees u = true) vs us := by
  refine ⟨relined start vs, h.replace hvs ?_ start, agrees_relined start vs⟩
  intro u v us ws huv hws hstands
  exact huv.stands hstands (sameToComment_sourceOf hws)

/-- What agrees with a token with other comments is one as well. -/
theorem recommented_of_agrees {ts vs us : List Token} (h : List.Forall₂ Recommented ts vs)
    (hagree : List.Forall₂ (fun v u => v.agrees u = true) vs us) :
    List.Forall₂ Recommented ts us := by
  induction h generalizing us with
  | nil =>
    rw [List.forall₂_nil_left_iff.mp hagree]
    exact .nil
  | cons htv _ ih =>
    obtain ⟨u, us, hvu, hus, rfl⟩ := List.forall₂_cons_left_iff.mp hagree
    simp only [agrees, Bool.and_eq_true, decide_eq_true_eq] at hvu
    obtain ⟨⟨hkind, htext⟩, hleading⟩ := hvu
    refine .cons ⟨htv.kind.trans hkind, htv.leading.trans hleading, ?_⟩ (ih hus)
    rw [← htext]
    exact htv.text

end Token

end HclQuery
