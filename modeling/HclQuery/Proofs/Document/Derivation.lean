/-
  The reader and the grammar.

  `parse_iff_derivation`: a source of good tokens is a document exactly if its tokens have a
  derivation; there is one derivation at most, and the document is the body that it stands for.
  `tokens_of_parse`: a document that was read holds every token of its source once and in order.

  The reader keeps the blocks that are still open on a stack, the grammar nests them. `Completes`
  says what an open stack still demands of the tokens; every step keeps it (`completes_of_run`).
  In the other direction the reader goes through a phrase as a whole (`run_phrase`).
-/
import HclQuery.Proofs.Document.Reading

namespace HclQuery.Document

open Grammar

/-! ## What is read has a derivation -/

/-- What an unfinished reading still demands of the tokens: the other items of the innermost body,
    its closing brace, the other items of the body around it, and so on. The whole body is then
    `body`. -/
def Completes : List Item → List Pending → List Token → Body → Prop
  | items, [], ts, body =>
    ∃ ps, AllFit [] ps ∧ ts = tokensOf ps ∧ body = items.reverse ++ itemsOf ps
  | items, p :: pending, ts, body =>
    ∃ ps closing closingEnd rest, closing.kind = .closeBrace ∧ TakesLineEnd closingEnd rest ∧
      AllFit (closing :: (closingEnd ++ rest)) ps ∧
      ts = tokensOf ps ++ closing :: (closingEnd ++ rest) ∧
      Completes
        (.block { p.shell with closing := closing :: closingEnd } (items.reverse ++ itemsOf ps) ::
          p.before)
        pending rest body

/-- One more phrase in front. -/
theorem completes_phrase {p : Phrase} {items : List Item} {pending : List Pending}
    {ts : List Token} {body : Body} (hfits : p.Fits ts)
    (h : Completes (p.item :: items) pending ts body) :
    Completes items pending (p.tokens ++ ts) body := by
  cases pending with
  | nil =>
    obtain ⟨ps, hfit, rfl, rfl⟩ := h
    refine ⟨p :: ps, ⟨?_, hfit⟩, ?_, ?_⟩
    · rw [List.append_nil]
      exact hfits
    · rw [tokensOf]
    · rw [itemsOf, List.reverse_cons, List.append_assoc]
      rfl
  | cons q pending =>
    obtain ⟨ps, closing, closingEnd, rest, hkind, htakes, hfit, rfl, hrest⟩ := h
    refine ⟨p :: ps, closing, closingEnd, rest, hkind, htakes, ⟨hfits, hfit⟩, ?_, ?_⟩
    · rw [tokensOf, List.append_assoc]
    · rw [itemsOf]
      rw [List.reverse_cons, List.append_assoc] at hrest
      exact hrest

/-- One more block header in front: what completed the open block is its inside, and the block is
    one more phrase. -/
theorem completes_header {type : Token} {header : Header} {line : Int} {items : List Item}
    {pending : List Pending} {body : Body} (hkind : type.kind = .ident)
    (hheader : IsHeader header)
    (h : Completes []
      (⟨line, { type := type.text, labels := header.labels, opening := type :: header.tokens },
        items⟩ :: pending)
      header.rest body) :
    Completes items pending (type :: (header.tokens ++ header.rest)) body := by
  obtain ⟨labels, opening, openingEnd, hlabels, hopening, htakes, htokens, hsay⟩ := hheader
  obtain ⟨ps, closing, closingEnd, rest, hclosing, hend, hfit, hts, hrest⟩ := h
  let f : Frame := ⟨type, labels, opening, openingEnd, closing, closingEnd⟩
  rw [hts] at htakes
  have hframe : f.Fits (tokensOf ps) rest :=
    ⟨hkind, hlabels, hopening, by simpa [f, Frame.foot] using htakes, hclosing, hend⟩
  have hblock : (Phrase.block f ps).Fits rest := ⟨hframe, hfit⟩
  have htokens' : type :: (header.tokens ++ header.rest) = (Phrase.block f ps).tokens ++ rest := by
    rw [htokens, hts]
    simp [Phrase.tokens, f, Frame.head, Frame.foot]
  rw [htokens']
  refine completes_phrase hblock ?_
  rw [htokens, hsay] at hrest
  exact hrest

/-- A longest run of trivia is a phrase. -/
theorem fits_trivia {t : Token} (ts : List Token) (h : t.isTrivia = true) :
    (Phrase.trivia (t :: ts.takeWhile Token.isTrivia)).Fits (ts.dropWhile Token.isTrivia) := by
  have hall := List.all_eq_true.mp (List.all_takeWhile (p := Token.isTrivia) (l := ts))
  have hstop := List.head?_dropWhile_not Token.isTrivia ts
  refine ⟨List.cons_ne_nil _ _, ?_, ?_⟩
  · intro u hu
    rcases List.mem_cons.mp hu with rfl | hu
    · exact h
    · exact hall u hu
  · intro u hu
    rw [Option.mem_def.mp hu] at hstop
    exact hstop

/-- A step backwards: what the tokens after it complete, the tokens before it complete. -/
theorem completes_of_move {s s' : State} {t : Token} {ts rest : List Token} {body : Body}
    (hmove : State.Move s t ts s' rest) (h : Completes s'.items s'.pending rest body) :
    Completes s.items s.pending (t :: ts) body := by
  cases hmove with
  | trivia hkind =>
    have hrun : t :: ts = t :: ts.takeWhile Token.isTrivia ++ ts.dropWhile Token.isTrivia := by
      rw [List.cons_append, List.takeWhile_append_dropWhile]
    rw [hrun]
    exact completes_phrase (p := .trivia _) (fits_trivia ts hkind) h
  | @assignment equal tail _ a hkind hts hequal hread =>
    obtain ⟨value, ending, hattr, htail, ha⟩ := (readAttribute_eq_ok_iff hkind hequal).mp hread
    have hphrase : t :: ts = (Phrase.assignment t equal value ending).tokens ++ rest := by
      rw [hts, htail, Phrase.tokens, List.cons_append, List.cons_append, List.append_assoc]
    rw [ha] at h
    rw [hphrase]
    exact completes_phrase (p := .assignment t equal value ending) hattr h
  | enter hkind hnext hread =>
    obtain ⟨hts, hheader⟩ := isHeader_of_readHeader hread
    rw [hts]
    exact completes_header hkind hheader h
  | close hkind hpending =>
    rw [hpending]
    refine ⟨[], t, _, _, hkind, takesLineEnd_cutLineEnd ts, trivial, ?_, ?_⟩
    · rw [cutLineEnd_append]
      rfl
    · rw [itemsOf, List.append_nil]
      exact h

/-- A body that is read completes what was read before it. -/
theorem completes_of_run {s : State} {ts : List Token} {body : Body}
    (h : run s ts = .ok body) : Completes s.items s.pending ts body := by
  fun_induction run s ts with
  | case1 s =>
    unfold State.finish at h
    split at h
    · rename_i hpending
      cases h
      rw [hpending]
      exact ⟨[], trivial, rfl, by rw [itemsOf, List.append_nil]⟩
    · cases h
  | case2 => cases h
  | case3 s t ts s' rest hstep ih => exact completes_of_move (State.move_of_step hstep) (ih h)

theorem exists_derivation {ts : List Token} {body : Body} (h : ofTokens ts = .ok body) :
    ∃ ps, Derives ps ts ∧ body = itemsOf ps := by
  obtain ⟨ps, hfit, hts, hbody⟩ := completes_of_run h
  exact ⟨ps, ⟨hfit, hts.symm⟩, hbody⟩

/-! ## What has a derivation is read -/

theorem run_move {s s' : State} {t : Token} {ts rest : List Token}
    (h : State.Move s t ts s' rest) : run s (t :: ts) = run s' rest := by
  have hstep := State.step_of_move h
  rw [run]
  split
  · rename_i hfault
    rw [hfault] at hstep
    cases hstep
  · rename_i hok
    rw [hok] at hstep
    cases hstep
    rfl

/-- A longest run of trivia is read in one step. -/
theorem move_trivia {s : State} {t : Token} {ts rest : List Token}
    (h : (Phrase.trivia (t :: ts)).Fits rest) :
    State.Move s t (ts ++ rest) (s.add (.trivia (t :: ts))) rest := by
  obtain ⟨-, hall, hstop⟩ := h
  have hts : ∀ u ∈ ts, u.isTrivia = true := fun u hu => hall u (List.mem_cons_of_mem t hu)
  have htake : (ts ++ rest).takeWhile Token.isTrivia = ts := by
    rw [List.takeWhile_append_of_pos hts]
    cases rest with
    | nil => simp
    | cons u rest => simp [hstop u rfl]
  have hdrop : (ts ++ rest).dropWhile Token.isTrivia = rest := by
    rw [List.dropWhile_append_of_pos hts]
    cases rest with
    | nil => rfl
    | cons u rest => simp [hstop u rfl]
  have hmove : State.Move s t (ts ++ rest) _ _ := .trivia (hall t List.mem_cons_self)
  rw [htake, hdrop] at hmove
  exact hmove

/-- What follows the type of a block is no `=`, so it is not taken for an attribute. -/
theorem head_labels_ne_equal {labels ts : List Token} {u : Token}
    (hlabels : ∀ t ∈ labels, IsLabel t) (hu : u.kind ≠ .equal) :
    ∀ next ∈ (labels ++ u :: ts).head?, next.kind ≠ .equal := by
  intro next hnext
  cases labels with
  | nil =>
    obtain rfl : u = next := Option.some.inj hnext
    exact hu
  | cons t labels =>
    obtain rfl : t = next := Option.some.inj hnext
    rcases (hlabels t List.mem_cons_self).kind with hkind | hkind
    · rw [hkind]
      decide
    · rw [hkind]
      decide

/-- The open block of a frame, on top of an unfinished reading. -/
def opened (s : State) (f : Frame) : List Pending :=
  ⟨f.type.line, { f.shell with closing := [] }, s.items⟩ :: s.pending

/-- A block header is read in one step. -/
theorem move_enter {s : State} {f : Frame} {inside rest : List Token} (h : f.Fits inside rest) :
    State.Move s f.type (f.labels ++ f.opening :: (f.openingEnd ++ (inside ++ f.foot ++ rest)))
      ⟨[], opened s f⟩ (inside ++ f.foot ++ rest) := by
  have hread : readHeader f.type _ = _ :=
    readHeader_of_labels h.labels_kind h.opening_kind h.openingEnd_takes
  have hopening : f.opening.kind ≠ .equal := by
    rw [h.opening_kind]
    decide
  exact .enter h.type_kind (head_labels_ne_equal h.labels_kind hopening) hread

/-- A block closes in one step. -/
theorem move_close {s : State} {f : Frame} {inside rest : List Token} {items : List Item}
    (h : f.Fits inside rest) :
    State.Move ⟨items, opened s f⟩ f.closing (f.closingEnd ++ rest)
      (s.add (.block f.shell items.reverse)) rest := by
  have hmove : State.Move ⟨items, opened s f⟩ f.closing (f.closingEnd ++ rest) _ _ :=
    .close h.closing_kind rfl
  rw [cutLineEnd_of_takes h.closingEnd_takes] at hmove
  exact hmove

mutual

/-- A phrase is read as the item that it stands for. -/
theorem run_phrase (p : Phrase) (s : State) {rest : List Token} (h : p.Fits rest) :
    run s (p.tokens ++ rest) = run (s.add p.item) rest := by
  cases p with
  | trivia trivia =>
    cases trivia with
    | nil => exact absurd rfl h.1
    | cons t ts =>
      rw [Phrase.tokens, List.cons_append, run_move (move_trivia h)]
      rfl
  | assignment name equal value ending =>
    have hread := (readAttribute_eq_ok_iff h.name_kind h.equal_kind).mpr
      ⟨value, ending, h, rfl, rfl⟩
    rw [Phrase.tokens, List.cons_append, List.cons_append, List.append_assoc,
      run_move (.assignment h.name_kind rfl h.equal_kind hread)]
    rfl
  | block f inside =>
    obtain ⟨hframe, hinside⟩ := h
    have htokens : (Phrase.block f inside).tokens ++ rest =
        f.type :: (f.labels ++ f.opening ::
          (f.openingEnd ++ (tokensOf inside ++ f.foot ++ rest))) := by
      simp [Phrase.tokens, Frame.head]
    rw [htokens, run_move (move_enter hframe), List.append_assoc, run_phrases inside _ hinside,
      Frame.foot, List.cons_append, run_move (move_close hframe), List.append_nil,
      List.reverse_reverse, Phrase.item]

/-- Phrases are read one after the other. -/
theorem run_phrases (ps : List Phrase) (s : State) {rest : List Token} (h : AllFit rest ps) :
    run s (tokensOf ps ++ rest) = run ⟨(itemsOf ps).reverse ++ s.items, s.pending⟩ rest := by
  cases ps with
  | nil => rfl
  | cons p ps =>
    obtain ⟨hp, hps⟩ := h
    rw [tokensOf, List.append_assoc, run_phrase p s hp, run_phrases ps _ hps, itemsOf,
      List.reverse_cons, List.append_assoc]
    rfl

end

theorem ofTokens_of_derives {ps : List Phrase} {ts : List Token} (h : Derives ps ts) :
    ofTokens ts = .ok (itemsOf ps) := by
  obtain ⟨hfit, hts⟩ := h
  have hrun := run_phrases ps {} hfit
  rw [List.append_nil, hts, List.append_nil] at hrun
  rw [ofTokens, hrun, run, State.finish, List.reverse_reverse]

/-! ## There is one derivation at most -/

/-- The first opening brace ends the labels. -/
theorem labels_unique {labels labels' openingEnd openingEnd' : List Token}
    {opening opening' : Token} (hlabels : ∀ t ∈ labels, IsLabel t)
    (hlabels' : ∀ t ∈ labels', IsLabel t) (hopening : opening.kind = .openBrace)
    (hopening' : opening'.kind = .openBrace)
    (h : labels ++ opening :: openingEnd = labels' ++ opening' :: openingEnd') :
    labels = labels' ∧ opening = opening' ∧ openingEnd = openingEnd' := by
  induction labels generalizing labels' with
  | nil =>
    cases labels' with
    | nil =>
      obtain ⟨rfl, rfl⟩ := List.cons.inj h
      exact ⟨rfl, rfl, rfl⟩
    | cons t labels' =>
      obtain ⟨rfl, -⟩ := List.cons.inj h
      exact absurd hopening (hlabels' opening List.mem_cons_self).kind_ne_openBrace
  | cons t labels ih =>
    cases labels' with
    | nil =>
      obtain ⟨rfl, -⟩ := List.cons.inj h
      exact absurd hopening' (hlabels t List.mem_cons_self).kind_ne_openBrace
    | cons t' labels' =>
      obtain ⟨rfl, htail⟩ := List.cons.inj h
      obtain ⟨rfl, hrest⟩ := ih (fun u hu => hlabels u (List.mem_cons_of_mem t hu))
        (fun u hu => hlabels' u (List.mem_cons_of_mem t hu)) htail
      exact ⟨rfl, hrest⟩

/-- Two frames that say the same are the same. -/
theorem frame_unique {f f' : Frame} {inside inside' rest : List Token} (h : f.Fits inside rest)
    (h' : f'.Fits inside' rest) (hshell : f.shell = f'.shell) : f = f' := by
  have hhead : f.head = f'.head := congrArg Shell.opening hshell
  have hfoot : f.foot = f'.foot := congrArg Shell.closing hshell
  obtain ⟨htype, hlabels⟩ := List.cons.inj hhead
  obtain ⟨hlabels, hopening, hopeningEnd⟩ :=
    labels_unique h.labels_kind h'.labels_kind h.opening_kind h'.opening_kind hlabels
  obtain ⟨hclosing, hclosingEnd⟩ := List.cons.inj hfoot
  cases f
  cases f'
  simp_all

/-- An attribute has one value and one ending. -/
theorem assignment_unique {name equal : Token} {value value' ending ending' rest : List Token}
    (h : IsAttribute name equal value ending rest)
    (h' : IsAttribute name equal value' ending' rest) (heq : value ++ ending = value' ++ ending') :
    value = value' ∧ ending = ending' := by
  have hcut : cutValue name 0 _ = _ := cutValue_of_nested h.nested h.ends
  rw [← List.append_assoc, heq, List.append_assoc, cutValue_of_nested h'.nested h'.ends] at hcut
  cases hcut
  exact ⟨rfl, rfl⟩

mutual

/-- The item and what follows it determine the phrase. -/
theorem phrase_unique (p p' : Phrase) {rest : List Token} (h : p.Fits rest) (h' : p'.Fits rest)
    (hitem : p.item = p'.item) : p = p' := by
  cases p with
  | trivia trivia =>
    cases p' with
    | trivia trivia' => rw [Item.trivia.inj hitem]
    | assignment => cases hitem
    | block => cases hitem
  | assignment name equal value ending =>
    cases p' with
    | trivia => cases hitem
    | assignment name' equal' value' ending' =>
      have htokens := congrArg Attribute.tokens (Item.attribute.inj hitem)
      obtain ⟨rfl, htail⟩ := List.cons.inj htokens
      obtain ⟨rfl, hsaid⟩ := List.cons.inj htail
      obtain ⟨rfl, rfl⟩ := assignment_unique h h' hsaid
      rfl
    | block => cases hitem
  | block f inside =>
    cases p' with
    | trivia => cases hitem
    | assignment => cases hitem
    | block f' inside' =>
      obtain ⟨hshell, hbody⟩ := Item.block.inj hitem
      obtain ⟨hframe, hinside⟩ := h
      obtain ⟨hframe', hinside'⟩ := h'
      obtain rfl := frame_unique hframe hframe' hshell
      rw [phrases_unique inside inside' hinside hinside' hbody]

/-- The body and what follows it determine the phrases. -/
theorem phrases_unique (ps ps' : List Phrase) {rest : List Token} (h : AllFit rest ps)
    (h' : AllFit rest ps') (hbody : itemsOf ps = itemsOf ps') : ps = ps' := by
  cases ps with
  | nil =>
    cases ps' with
    | nil => rfl
    | cons => cases hbody
  | cons p ps =>
    cases ps' with
    | nil => cases hbody
    | cons p' ps' =>
      obtain ⟨hitem, htail⟩ := List.cons.inj hbody
      obtain ⟨hp, hps⟩ := h
      obtain ⟨hp', hps'⟩ := h'
      -- the others first: how the first phrase is read depends on their tokens
      obtain rfl := phrases_unique ps ps' hps hps' htail
      rw [phrase_unique p p' hp hp' hitem]

end

theorem derivation_unique {ps ps' : List Phrase} {ts : List Token} (h : Derives ps ts)
    (h' : Derives ps' ts) : ps = ps' := by
  have hread := ofTokens_of_derives h
  rw [ofTokens_of_derives h'] at hread
  exact phrases_unique ps ps' h.1 h'.1 (Except.ok.inj hread).symm

/-! ## Documents -/

mutual

theorem tokens_item (p : Phrase) : p.item.tokens = p.tokens := by
  cases p with
  | trivia trivia => rw [Phrase.item, Item.tokens, Phrase.tokens]
  | assignment name equal value ending => rw [Phrase.item, Item.tokens, Phrase.tokens]
  | block f inside =>
    rw [Phrase.item, Item.tokens, Phrase.tokens, tokens_itemsOf inside]
    rfl

theorem tokens_itemsOf (ps : List Phrase) : Body.tokens (itemsOf ps) = tokensOf ps := by
  cases ps with
  | nil => exact Body.tokens_nil
  | cons p ps => rw [itemsOf, Body.tokens_cons, tokens_item p, tokens_itemsOf ps, tokensOf]

end

theorem parse_eq_ok_iff {filename : String} {source : Text} {d : Document} :
    parse filename source = .ok d ↔
      ∃ ts body, Token.ofText source = .ok ts ∧ ofTokens ts = .ok body ∧ d = ⟨body, filename⟩ := by
  constructor
  · intro h
    cases hts : Token.ofText source with
    | error fault =>
      rw [parse, hts] at h
      cases h
    | ok ts =>
      rw [parse, hts] at h
      dsimp only at h
      cases hbody : ofTokens ts with
      | error fault =>
        rw [hbody] at h
        cases h
      | ok body =>
        rw [hbody] at h
        exact ⟨ts, body, rfl, hbody, (Except.ok.inj h).symm⟩
  · intro h
    obtain ⟨ts, body, hts, hbody, hd⟩ := h
    rw [parse, hts]
    dsimp only
    rw [hbody, hd]

/-- A source of good tokens is read exactly if its tokens have a derivation. There is one at most,
    and the document is the body that it stands for. -/
theorem parse_iff_derivation {filename : String} {source : Text} {ts : List Token}
    (h : Token.ofText source = .ok ts) :
    ((∃ d, parse filename source = .ok d) ↔ ∃ ps, Derives ps ts) ∧
      (∀ ps ps', Derives ps ts → Derives ps' ts → ps = ps') ∧
      ∀ d, parse filename source = .ok d ↔ ∃ ps, Derives ps ts ∧ d = ⟨itemsOf ps, filename⟩ := by
  have hread : ∀ d, parse filename source = .ok d ↔
      ∃ ps, Derives ps ts ∧ d = ⟨itemsOf ps, filename⟩ := by
    intro d
    rw [parse_eq_ok_iff]
    constructor
    · intro hread
      obtain ⟨ts', body, hts', hbody, hd⟩ := hread
      obtain rfl : ts = ts' := Except.ok.inj (h.symm.trans hts')
      obtain ⟨ps, hps, rfl⟩ := exists_derivation hbody
      exact ⟨ps, hps, hd⟩
    · intro hread
      obtain ⟨ps, hps, hd⟩ := hread
      exact ⟨ts, itemsOf ps, h, ofTokens_of_derives hps, hd⟩
  refine ⟨⟨?_, ?_⟩, fun ps ps' => derivation_unique, hread⟩
  · intro hparsed
    obtain ⟨d, hd⟩ := hparsed
    obtain ⟨ps, hps, -⟩ := (hread d).mp hd
    exact ⟨ps, hps⟩
  · intro hderived
    obtain ⟨ps, hps⟩ := hderived
    exact ⟨_, (hread _).mpr ⟨ps, hps, rfl⟩⟩

/-- A comment, and a block around an attribute whose value runs over two lines. -/
def commentAndBlock : Text :=
  "# top\nb \"x\" \x7b a = [\n1] \x7d\n".toList

theorem exists_parse_of_isOk {filename : String} {source : Text}
    (h : (parse filename source).isOk = true) : ∃ d, parse filename source = .ok d := by
  cases hd : parse filename source with
  | error e =>
    rw [hd] at h
    cases h
  | ok d => exact ⟨d, rfl⟩

theorem exists_parse_commentAndBlock : ∃ d, parse "a.tf" commentAndBlock = .ok d :=
  exists_parse_of_isOk (by decide +kernel)

theorem parse_iff_derivation_commentAndBlock :
    ∃ ts ps, Token.ofText commentAndBlock = .ok ts ∧ Derives ps ts ∧
      parse "a.tf" commentAndBlock = .ok ⟨itemsOf ps, "a.tf"⟩ := by
  obtain ⟨d, hd⟩ := exists_parse_commentAndBlock
  obtain ⟨ts, -, hts, -⟩ := parse_eq_ok_iff.mp hd
  obtain ⟨ps, hps, rfl⟩ := ((parse_iff_derivation hts).2.2 d).mp hd
  exact ⟨ts, ps, hts, hps, hd⟩

/-- The tokens of a document that was read are those of its source. -/
theorem ofText_of_parse {filename : String} {source : Text} {d : Document}
    (h : parse filename source = .ok d) : Token.ofText source = .ok (Body.tokens d.body) := by
  obtain ⟨ts, body, hts, hbody, rfl⟩ := parse_eq_ok_iff.mp h
  obtain ⟨ps, ⟨-, hspell⟩, rfl⟩ := exists_derivation hbody
  rw [tokens_itemsOf, hspell]
  exact hts

/-- A document that was read holds every token of its source once and in order, and is written
    back as it was. -/
theorem tokens_of_parse {filename : String} {source : Text} {d : Document}
    (h : parse filename source = .ok d) :
    Token.ofText source = .ok (Body.tokens d.body) ∧ d.source = source := by
  refine ⟨ofText_of_parse h, ?_⟩
  unfold Document.source Body.source
  exact Token.sourceOf_ofTextFrom (ofText_of_parse h)

theorem tokens_of_parse_commentAndBlock :
    ∃ d, parse "a.tf" commentAndBlock = .ok d ∧
      Token.ofText commentAndBlock = .ok (Body.tokens d.body) ∧ d.source = commentAndBlock := by
  obtain ⟨d, hd⟩ := exists_parse_commentAndBlock
  exact ⟨d, hd, tokens_of_parse hd⟩

end HclQuery.Document
