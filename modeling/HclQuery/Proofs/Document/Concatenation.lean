/-
  Documents one after the other.

  A text that is empty or ends with a line feed is cut and read to its end before anything behind
  it is looked at: the tokens, the items and the values of the whole are those of the two parts.
  Only trivia at the end of the first part and at the start of the second become one item
  (`Body.join`), and the lines of the second part are counted from the end of the first.
-/
import HclQuery.Proofs.Document.Shift
import HclQuery.Proofs.Lookup.Transfer
import HclQuery.Proofs.Query.Get

namespace HclQuery

/-! ## Bodies put together -/

namespace Body

/-- The items of one body and then those of the other; trivia where they meet become one item. -/
def join : Body → Body → Body
  | [], ys => ys
  | [.trivia ts], .trivia us :: ys => .trivia (ts ++ us) :: ys
  | x :: xs, ys => x :: join xs ys

/-- The body behind a run of trivia, of which trivia at its start become part. -/
def behind (run : List Token) (body : Body) : Body :=
  if run = [] then body else join [.trivia run] body

theorem join_cons {x y : Item} (xs ys : Body) :
    join (x :: y :: xs) ys = x :: join (y :: xs) ys := by
  rw [join]
  simp

theorem join_append (xs zs : Body) (z : Item) (ys : Body) :
    join (xs ++ z :: zs) ys = xs ++ join (z :: zs) ys := by
  induction xs with
  | nil => rfl
  | cons x xs ih =>
    cases xs with
    | nil => exact join_cons zs ys
    | cons w xs =>
      rw [List.cons_append, List.cons_append, join_cons, ← List.cons_append, ih]
      rfl

theorem join_of_not_trivia {x : Item} (h : ∀ ts, x ≠ .trivia ts) (ys : Body) :
    join [x] ys = x :: ys := by
  cases x with
  | «attribute» a => rfl
  | block shell body => rfl
  | trivia ts => exact absurd rfl (h ts)

theorem filterMap_join {β : Type} {f : Item → Option β} (hf : ∀ ts, f (.trivia ts) = none)
    (xs ys : Body) : (join xs ys).filterMap f = xs.filterMap f ++ ys.filterMap f := by
  induction xs with
  | nil => rfl
  | cons x xs ih =>
    cases xs with
    | cons w xs =>
      rw [join_cons, List.filterMap_cons, ih]
      cases hx : f x <;> simp [hx]
    | nil =>
      by_cases htrivia : ∃ ts, x = .trivia ts
      · obtain ⟨ts, rfl⟩ := htrivia
        cases ys with
        | nil => simp [join, hf]
        | cons y ys => cases y <;> simp [join, hf]
      · rw [join_of_not_trivia fun ts hx => htrivia ⟨ts, hx⟩, List.filterMap_cons]
        cases hx : f x <;> simp [hx]

theorem attributes_join (xs ys : Body) :
    attributes (join xs ys) = attributes xs ++ attributes ys :=
  filterMap_join (fun _ => rfl) xs ys

theorem blocks_join (xs ys : Body) : blocks (join xs ys) = blocks xs ++ blocks ys :=
  filterMap_join (fun _ => rfl) xs ys

end Body

namespace Grammar

/-! ## Phrases that end with a line end -/

/-- An attribute that ends with a line end is one wherever it stands. -/
theorem isAttribute_of_newline {name equal : Token} {value ending : List Token}
    (h : IsAttribute name equal value ending [])
    (hlast : ∀ u ∈ (value ++ ending).getLast?, u.kind = .newline) (rest : List Token) :
    IsAttribute name equal value ending rest := by
  have hne : ending ≠ [] := by
    rintro rfl
    obtain ⟨t, ht, -⟩ := h.hasValue
    have hvalue := List.getLast?_eq_some_getLast (List.ne_nil_of_mem ht)
    rw [List.append_nil] at hlast
    exact h.nested.last_ne_newline _ hvalue (hlast _ hvalue)
  obtain ⟨t, more, rfl⟩ := List.exists_cons_of_ne_nil hne
  have hhead : (t :: more ++ []).head? = (t :: more ++ rest).head? := rfl
  have hnested : Nested 0 value (t :: more ++ rest) := nested_of_head? hhead h.nested
  refine { h with nested := hnested, ends := ?_ }
  rcases h.ends with hnewline | ⟨u, lineEnd, heq, hcomment, htakes⟩ | ⟨hnil, -⟩
  · exact Or.inl hnewline
  · rcases htakes with ⟨v, rfl, hkind⟩ | ⟨rfl, -⟩
    · have hnext : ([v] ++ []).head? = ([v] ++ rest).head? := rfl
      rw [isLineComment_of_head? hnext] at hcomment
      exact Or.inr (Or.inl ⟨u, [v], heq, hcomment, Or.inl ⟨v, rfl, hkind⟩⟩)
    · have hu := hlast u (by rw [heq, List.getLast?_append]; rfl)
      rw [hcomment.1] at hu
      cases hu
  · cases hnil

/-- A block that ends with a line end is one wherever it stands. -/
theorem block_fits_of_newline {f : Frame} {inside : List Phrase}
    (h : (Phrase.block f inside).Fits []) (hlast : ∀ u ∈ f.foot.getLast?, u.kind = .newline)
    (rest : List Token) : (Phrase.block f inside).Fits rest := by
  obtain ⟨hframe, hinside⟩ := h
  have hend : TakesLineEnd f.closingEnd rest := by
    rcases hframe.closingEnd_takes with hnewline | ⟨hnil, -⟩
    · exact Or.inl hnewline
    · have hclosing := hlast f.closing (by rw [Frame.foot, hnil]; rfl)
      rw [hframe.closing_kind] at hclosing
      cases hclosing
  have hopening : TakesLineEnd f.openingEnd (tokensOf inside ++ f.foot ++ rest) := by
    refine takesLineEnd_of_head? ?_ hframe.openingEnd_takes
    rw [List.append_assoc, List.append_assoc]
    exact head?_append_congr (tokensOf inside) rfl
  have hfoot : (f.foot ++ []).head? = (f.foot ++ rest).head? := rfl
  exact ⟨{ hframe with openingEnd_takes := hopening, closingEnd_takes := hend },
    allFit_of_head? inside hfoot hinside⟩

/-- A phrase that ends with a line end, and is no run of trivia, fits wherever it stands. -/
theorem fits_of_newline {p : Phrase} (h : p.Fits [])
    (hlast : ∀ u ∈ p.tokens.getLast?, u.kind = .newline) (htrivia : ∀ run, p ≠ .trivia run)
    (rest : List Token) : p.Fits rest := by
  cases p with
  | trivia run => exact absurd rfl (htrivia run)
  | assignment name equal value ending =>
    refine isAttribute_of_newline h (fun u hu => hlast u ?_) rest
    obtain ⟨us, hus⟩ := List.getLast?_eq_some_iff.mp hu
    rw [Phrase.tokens, hus, ← List.cons_append, ← List.cons_append, List.getLast?_concat]
    rfl
  | block f inside =>
    refine block_fits_of_newline h (fun u hu => hlast u ?_) rest
    rw [Phrase.tokens, List.getLast?_append, Option.mem_def.mp hu]
    rfl

/-- Phrases that end with a line end fit wherever they stand, up to a run of trivia at their
    end. -/
theorem exists_settled {ps : List Phrase} (h : AllFit [] ps)
    (hlast : ∀ u ∈ (tokensOf ps).getLast?, u.kind = .newline) :
    ∃ qs run, tokensOf ps = tokensOf qs ++ run ∧ (∀ t ∈ run, t.isTrivia = true) ∧
      (∀ rest, AllFit (run ++ rest) qs) ∧
      ∀ ys, Body.join (itemsOf ps) ys = itemsOf qs ++ Body.behind run ys := by
  rcases List.eq_nil_or_concat' ps with rfl | ⟨qs, p, rfl⟩
  · exact ⟨[], [], rfl, by simp, fun rest => trivial, fun ys => rfl⟩
  · obtain ⟨hqs, hp, -⟩ := allFit_append.mp h
    have hitems : itemsOf (qs ++ [p]) = itemsOf qs ++ [p.item] := by
      rw [itemsOf_append, itemsOf_singleton]
    have htokens : tokensOf (qs ++ [p]) = tokensOf qs ++ p.tokens := by
      rw [tokensOf_append, tokensOf_singleton]
    rw [tokensOf_singleton] at hqs
    have hne := tokens_ne_nil hp
    have hqs' : ∀ rest, AllFit (p.tokens ++ rest) qs := by
      intro rest
      refine allFit_of_head? qs ?_ hqs
      rw [List.head?_append_of_ne_nil _ hne, List.head?_append_of_ne_nil _ hne]
    by_cases htrivia : ∃ run, p = .trivia run
    · obtain ⟨run, rfl⟩ := htrivia
      refine ⟨qs, run, htokens, hp.2.1, hqs', fun ys => ?_⟩
      rw [hitems, Body.join_append, Body.behind, if_neg hp.1]
      rfl
    · have hnot : ∀ run, p ≠ .trivia run := fun run heq => htrivia ⟨run, heq⟩
      have hlast' : ∀ u ∈ p.tokens.getLast?, u.kind = .newline := by
        intro u hu
        refine hlast u ?_
        rw [htokens, List.getLast?_append, Option.mem_def.mp hu]
        rfl
      refine ⟨qs ++ [p], [], by rw [List.append_nil], by simp, fun rest => ?_, fun ys => ?_⟩
      · refine allFit_append.mpr ⟨?_, fits_of_newline hp hlast' hnot _, trivial⟩
        rw [tokensOf_singleton]
        exact hqs' _
      · have hitem : ∀ ts, p.item ≠ .trivia ts := by
          intro ts
          cases p with
          | trivia run => exact absurd rfl (hnot run)
          | assignment => exact Item.noConfusion
          | block => exact Item.noConfusion
        rw [hitems, Body.join_append, Body.join_of_not_trivia hitem, Body.behind, if_pos rfl,
          List.append_assoc]
        rfl

end Grammar

namespace Document

open Grammar

/-! ## Reading what follows -/

/-- The items that were read before do not matter to the reading of what follows. -/
theorem run_eq_ok_iff {items : List Item} {ts : List Token} {body : Body} :
    run ⟨items, []⟩ ts = .ok body ↔ ∃ ps, Derives ps ts ∧ body = items.reverse ++ itemsOf ps := by
  constructor
  · intro h
    obtain ⟨ps, hfit, hts, hbody⟩ := completes_of_run h
    exact ⟨ps, ⟨hfit, hts.symm⟩, hbody⟩
  · intro h
    obtain ⟨ps, ⟨hfit, rfl⟩, rfl⟩ := h
    have hrun := run_phrases ps ⟨items, []⟩ hfit
    rw [List.append_nil] at hrun
    rw [hrun, run, State.finish, List.reverse_append, List.reverse_reverse]

/-- A run of trivia is read in one step, with all trivia that follow. -/
theorem run_trivia (items : List Item) {t : Token} (ht : t.isTrivia = true) (ts : List Token) :
    run ⟨items, []⟩ (t :: ts) =
      run ⟨.trivia (t :: ts.takeWhile Token.isTrivia) :: items, []⟩
        (ts.dropWhile Token.isTrivia) :=
  run_move (.trivia ht)

/-- Trivia never come first behind trivia. -/
theorem join_trivia_itemsOf {front : List Token} {ps : List Phrase} {us : List Token}
    (h : Derives ps us) (hus : ∀ t ∈ us.head?, t.isTrivia = false) :
    Body.join [.trivia front] (itemsOf ps) = .trivia front :: itemsOf ps := by
  obtain ⟨hfit, rfl⟩ := h
  cases ps with
  | nil => rfl
  | cons p ps =>
    cases p with
    | trivia trivia =>
      obtain ⟨⟨hne, hall, -⟩, -⟩ := hfit
      obtain ⟨t, trivia, rfl⟩ := List.exists_cons_of_ne_nil hne
      have := hus t rfl
      rw [hall t List.mem_cons_self] at this
      cases this
    | assignment => rfl
    | block => rfl

/-- A document that starts with trivia: all of them are one item. -/
theorem ofTokens_of_trivia {ts : List Token} {body : Body}
    (hne : ts.takeWhile Token.isTrivia ≠ []) :
    ofTokens ts = .ok body ↔
      ∃ ps, Derives ps (ts.dropWhile Token.isTrivia) ∧
        body = .trivia (ts.takeWhile Token.isTrivia) :: itemsOf ps := by
  cases ts with
  | nil => exact absurd rfl hne
  | cons t ts =>
    have ht : t.isTrivia = true := by
      by_contra htrivia
      rw [List.takeWhile_cons_of_neg htrivia] at hne
      exact hne rfl
    rw [ofTokens, run_trivia _ ht, List.takeWhile_cons_of_pos ht, List.dropWhile_cons_of_pos ht]
    exact run_eq_ok_iff

/-- Behind a run of trivia the same is read, and trivia become part of the run. -/
theorem ofTokens_behind {front us : List Token} {body : Body}
    (hfront : ∀ t ∈ front, t.isTrivia = true) :
    ofTokens (front ++ us) = .ok body ↔
      ∃ b, ofTokens us = .ok b ∧ body = Body.behind front b := by
  by_cases hne : front = []
  · simp [hne, Body.behind]
  have htake : (front ++ us).takeWhile Token.isTrivia = front ++ us.takeWhile Token.isTrivia :=
    List.takeWhile_append_of_pos hfront
  have hdrop : (front ++ us).dropWhile Token.isTrivia = us.dropWhile Token.isTrivia :=
    List.dropWhile_append_of_pos hfront
  have hwhole : (front ++ us).takeWhile Token.isTrivia ≠ [] := by
    rw [htake]
    exact List.append_ne_nil_of_left_ne_nil hne _
  simp only [Body.behind, if_neg hne]
  rw [ofTokens_of_trivia hwhole, htake, hdrop]
  by_cases hown : us.takeWhile Token.isTrivia = []
  · -- No trivia meet: the run stays an item of its own.
    have hself : us.dropWhile Token.isTrivia = us := by
      have hboth := List.takeWhile_append_dropWhile (p := Token.isTrivia) (l := us)
      rwa [hown, List.nil_append] at hboth
    have hhead : ∀ t ∈ us.head?, t.isTrivia = false := by
      intro t ht
      have hstop := List.head?_dropWhile_not Token.isTrivia us
      rw [hself, Option.mem_def.mp ht] at hstop
      exact hstop
    rw [hown, hself, List.append_nil]
    constructor
    · intro h
      obtain ⟨ps, hps, rfl⟩ := h
      exact ⟨itemsOf ps, run_eq_ok_iff.mpr ⟨ps, hps, rfl⟩, (join_trivia_itemsOf hps hhead).symm⟩
    · intro h
      obtain ⟨b, hb, rfl⟩ := h
      obtain ⟨ps, hps, rfl⟩ := run_eq_ok_iff.mp hb
      exact ⟨ps, hps, join_trivia_itemsOf hps hhead⟩
  · constructor
    · intro h
      obtain ⟨ps, hps, rfl⟩ := h
      exact ⟨_, (ofTokens_of_trivia hown).mpr ⟨ps, hps, rfl⟩, rfl⟩
    · intro h
      obtain ⟨b, hb, rfl⟩ := h
      obtain ⟨ps, hps, rfl⟩ := (ofTokens_of_trivia hown).mp hb
      exact ⟨ps, hps, rfl⟩

/-- Tokens that end with a line end and form a document are read to their end before those behind
    them are looked at. -/
theorem ofTokens_append {ts us : List Token} {a body : Body} (ha : ofTokens ts = .ok a)
    (hlast : ∀ u ∈ ts.getLast?, u.kind = .newline) :
    ofTokens (ts ++ us) = .ok body ↔ ∃ b, ofTokens us = .ok b ∧ body = Body.join a b := by
  obtain ⟨ps, ⟨hfit, rfl⟩, rfl⟩ := run_eq_ok_iff.mp ha
  obtain ⟨qs, front, htokens, hfront, hfits, hjoin⟩ := exists_settled hfit hlast
  have hread : ofTokens (tokensOf ps ++ us) = run ⟨(itemsOf qs).reverse, []⟩ (front ++ us) := by
    rw [htokens, List.append_assoc, ofTokens, run_phrases qs _ (hfits us), List.append_nil]
  have hbehind : run ⟨(itemsOf qs).reverse, []⟩ (front ++ us) = .ok body ↔
      ∃ c, ofTokens (front ++ us) = .ok c ∧ body = itemsOf qs ++ c := by
    rw [run_eq_ok_iff, List.reverse_reverse]
    constructor
    · intro h
      obtain ⟨rs, hrs, rfl⟩ := h
      exact ⟨itemsOf rs, run_eq_ok_iff.mpr ⟨rs, hrs, rfl⟩, rfl⟩
    · intro h
      obtain ⟨c, hc, rfl⟩ := h
      obtain ⟨rs, hrs, rfl⟩ := run_eq_ok_iff.mp hc
      exact ⟨rs, hrs, rfl⟩
  rw [hread, hbehind]
  constructor
  · intro h
    obtain ⟨c, hc, rfl⟩ := h
    obtain ⟨b, hb, rfl⟩ := (ofTokens_behind hfront).mp hc
    exact ⟨b, hb, (hjoin b).symm⟩
  · intro h
    obtain ⟨b, hb, rfl⟩ := h
    exact ⟨_, (ofTokens_behind hfront).mpr ⟨b, hb, rfl⟩, hjoin b⟩

/-! ## Texts one after the other -/

/-- The text is empty, or its last line is ended. -/
def EndsLine (a : Text) : Prop :=
  a = [] ∨ a.getLast? = some '\n'

theorem ofText_append {a b : Text} {ts vs : List Token} (h : Token.ofText a = .ok ts)
    (hend : EndsLine a) :
    Token.ofText (a ++ b) = .ok vs ↔
      ∃ us, Token.ofText b = .ok us ∧ vs = ts ++ us.map (Token.shift (Text.newlines a)) := by
  have hcuts := Token.ofTextFrom_eq_ok_iff.mp h
  have hopen : Token.hangsOpen ts = false := by
    apply Token.hangsOpen_eq_false
    rw [hcuts.sourceOf_eq]
    exact hend
  have hline : a ≠ [] → Text.LineEnds a b := fun hne => Or.inl (hend.resolve_left hne)
  rw [Token.ofText, Token.ofTextFrom_append h (hcuts.of_lineFeed hend).1 hline hopen,
    Token.ofTextFrom_shift, Token.ofText]
  cases Token.ofTextFrom 1 b with
  | error fault => simp [Except.map, Except.mapError]
  | ok us => simp [Except.map, Except.mapError, eq_comm]

theorem parse_append {filename : String} {a b : Text} {da d : Document}
    (h : parse filename a = .ok da) (hend : EndsLine a) :
    parse filename (a ++ b) = .ok d ↔
      ∃ db, parse filename b = .ok db ∧
        d = ⟨Body.join da.body (Body.shift (Text.newlines a) db.body), filename⟩ := by
  obtain ⟨ts, body, hts, hbody, rfl⟩ := parse_eq_ok_iff.mp h
  have hlast := ((Token.ofTextFrom_eq_ok_iff.mp hts).of_lineFeed hend).2
  rw [parse_eq_ok_iff]
  constructor
  · intro hd
    obtain ⟨vs, c, hvs, hc, rfl⟩ := hd
    obtain ⟨us, hus, rfl⟩ := (ofText_append hts hend).mp hvs
    obtain ⟨c', hc', rfl⟩ := (ofTokens_append hbody hlast).mp hc
    obtain ⟨b', hb', rfl⟩ := ofTokens_shift.mp hc'
    exact ⟨⟨b', filename⟩, parse_eq_ok_iff.mpr ⟨us, b', hus, hb', rfl⟩, rfl⟩
  · intro hd
    obtain ⟨db, hdb, rfl⟩ := hd
    obtain ⟨us, b', hus, hb', rfl⟩ := parse_eq_ok_iff.mp hdb
    exact ⟨_, _, (ofText_append hts hend).mpr ⟨us, hus, rfl⟩,
      (ofTokens_append hbody hlast).mpr ⟨_, ofTokens_shift.mpr ⟨b', hb', rfl⟩, rfl⟩, rfl⟩

end Document

/-! ## Queries -/

/-- On later lines a look-up finds an attribute of the same value, or nothing as before. -/
theorem Body.rel_value_lookup_shift (k : Int) (body : Body) (address : Address) :
    Option.Rel (fun x y => x.value = y.value) (lookup body address).attribute?
      (lookup (shift k body) address).attribute? := by
  have hlike := (Body.like_shift (k := k) body).attribute?_lookup address
  generalize (lookup body address).attribute? = x at hlike ⊢
  generalize (lookup (shift k body) address).attribute? = y at hlike ⊢
  cases hlike with
  | none => exact .none
  | some hxy =>
    rw [← hxy.eq_shift]
    exact .some (Attribute.value_shift _).symm

namespace Query

open Document

/-- The value at an address is the one in the first text where this holds it, and else the one in
    the second. -/
theorem run_value_append {filename : String} {a b address : Text} {da db : Document}
    (ha : parse filename a = .ok da) (hend : EndsLine a) (hb : parse filename b = .ok db)
    (hne : address ≠ []) :
    ∃ found out, da.body.findAttribute address = .ok found ∧
      (get filename address .value).run (a ++ b) = .ok out ∧
      (get filename address .value).run (if found.attribute?.isSome then a else b) = .ok out := by
  have hwhole := (parse_append ha hend).mpr ⟨db, hb, rfl⟩
  have hlookup := Body.attribute?_lookup_append (Body.attributes_join da.body _)
    (Body.blocks_join da.body (Body.shift (Text.newlines a) db.body)) (Address.ofText address)
  refine ⟨da.body.lookup (Address.ofText address), ?_⟩
  cases hfirst : (da.body.lookup (Address.ofText address)).attribute? with
  | some x =>
    rw [hfirst, Option.some_or] at hlookup
    obtain ⟨out, hout, hout'⟩ := run_congr hwhole ha hne (by rw [hlookup, hfirst]; exact .some rfl)
      (by decide : Format.value ≠ .hcl)
    exact ⟨out, Body.findAttribute_of_ne_nil hne da.body, hout, hout'⟩
  | none =>
    rw [hfirst, Option.none_or] at hlookup
    have hsame := Body.rel_value_lookup_shift (Text.newlines a) db.body (Address.ofText address)
    rw [← hlookup] at hsame
    obtain ⟨out, hout, hout'⟩ := run_congr hb hwhole hne hsame
      (by decide : Format.value ≠ .hcl)
    exact ⟨out, Body.findAttribute_of_ne_nil hne da.body, hout', hout⟩

/-- A text that is read and ends its last line is read the same way in front of any other text.
    The tokens of the whole are its own and, on later lines, those of the text behind it; the
    items likewise, with trivia where they meet as one item; and the value at an address is its
    own where it holds the address, and else that of the text behind it. -/
theorem append_of_endsLine {filename : String} {a : Text} {da : Document}
    (ha : parse filename a = .ok da) (hend : EndsLine a) (b : Text) :
    (∃ ts, Token.ofText a = .ok ts ∧ ∀ vs, Token.ofText (a ++ b) = .ok vs ↔
        ∃ us, Token.ofText b = .ok us ∧ vs = ts ++ us.map (Token.shift (Text.newlines a))) ∧
      (∀ d, parse filename (a ++ b) = .ok d ↔
        ∃ db, parse filename b = .ok db ∧
          d = ⟨Body.join da.body (Body.shift (Text.newlines a) db.body), filename⟩) ∧
      ∀ db, parse filename b = .ok db → ∀ address : Text, address ≠ [] →
        ∃ found out, da.body.findAttribute address = .ok found ∧
          (get filename address .value).run (a ++ b) = .ok out ∧
          (get filename address .value).run (if found.attribute?.isSome then a else b) =
            .ok out := by
  refine ⟨?_, fun d => parse_append ha hend, fun db hb address hne => ?_⟩
  · exact ⟨_, ofText_of_parse ha, fun vs => ofText_append (ofText_of_parse ha) hend⟩
  · exact run_value_append ha hend hb hne

/-- An attribute, and a comment below it. -/
def commentLast : Text :=
  "a = 1\n# end\n".toList

/-- Two attributes, and a comment above them. -/
def commentFirst : Text :=
  "# start\na = 2\nb = 3".toList

/-- Two comments that meet become one item, and the second text has a value of its own. -/
theorem append_of_endsLine_commentsMeet :
    ∃ da db, parse "a.tf" commentLast = .ok da ∧ EndsLine commentLast ∧
      parse "a.tf" commentFirst = .ok db ∧
      parse "a.tf" (commentLast ++ commentFirst) =
        .ok ⟨Body.join da.body (Body.shift 2 db.body), "a.tf"⟩ ∧
      "b".toList ≠ [] ∧ ∃ found, da.body.findAttribute "b".toList = .ok found ∧
        (get "a.tf" "b".toList .value).run
          (if found.attribute?.isSome then commentLast else commentFirst) = .ok "3\n".toList := by
  obtain ⟨da, ha⟩ : ∃ d, parse "a.tf" commentLast = .ok d :=
    exists_parse_of_isOk (by decide +kernel)
  obtain ⟨db, hb⟩ : ∃ d, parse "a.tf" commentFirst = .ok d :=
    exists_parse_of_isOk (by decide +kernel)
  have hend : EndsLine commentLast := Or.inr rfl
  have hne : "b".toList ≠ [] := by decide
  obtain ⟨-, hwhole, hquery⟩ := append_of_endsLine ha hend commentFirst
  obtain ⟨found, out, hfound, hout, hown⟩ := hquery db hb "b".toList hne
  have hrun : (get "a.tf" "b".toList .value).run
      (commentLast ++ commentFirst) = .ok "3\n".toList := by
    decide +kernel
  rw [Except.ok.inj (hout.symm.trans hrun)] at hown
  exact ⟨da, db, ha, hend, hb, (hwhole _).mpr ⟨db, hb, rfl⟩, hne, found, hfound, hown⟩

end Query

end HclQuery
