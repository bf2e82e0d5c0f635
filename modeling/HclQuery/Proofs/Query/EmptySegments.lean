/-
  Addresses with an empty segment.

  In a document that was read, the types of blocks and the names of attributes are names of the
  source, and no name is empty. So of all that a segment is compared with only a label can be
  empty, that of a block such as `b "" { }`. An address with an empty segment finds what lies
  inside blocks of which one has an empty label, and nothing else:
  `emptySegment_finds_emptyLabels`.
-/
import HclQuery.Proofs.Document.Phrases
import HclQuery.Proofs.Query.ReadBack
import HclQuery.Proofs.Token.Shape

namespace HclQuery

/-! ## Empty segments and empty labels -/

namespace Block

/-- A block of the chain has a label that is the empty text. -/
def HasEmptyLabel (chain : List Block) : Prop :=
  ∃ b ∈ chain, [] ∈ b.shell.labels

theorem shortAddress_subset (chain : List Block) : shortAddress chain ⊆ fullAddress chain := by
  induction chain with
  | nil => exact List.nil_subset _
  | cons b chain ih =>
    cases chain with
    | nil => simp [shortAddress, fullAddress]
    | cons c chain =>
      rw [shortAddress_cons_cons, fullAddress_cons]
      exact List.cons_subset_cons _ (List.append_subset.mpr
        ⟨List.subset_append_left _ _, fun x hx => List.mem_append_right _ (ih hx)⟩)

/-- Where no block lacks a type, only a label answers to an empty segment. -/
theorem hasEmptyLabel_of_answers {segments : List Text} {chain : List Block}
    (htypes : ∀ b ∈ chain, b.shell.type ≠ []) (h : Answers segments chain)
    (hempty : [] ∈ segments) : HasEmptyLabel chain := by
  have hfull : [] ∈ fullAddress chain := by
    rcases h with rfl | rfl
    · exact shortAddress_subset chain hempty
    · exact hempty
  obtain ⟨b, hb, hmem⟩ := List.mem_flatMap.mp hfull
  rcases List.mem_cons.mp hmem with htype | hlabel
  · exact absurd htype.symm (htypes b hb)
  · exact ⟨b, hb, hlabel⟩

end Block

/-! ## Types and names are not empty -/

theorem Token.text_ne_nil_of_ident {source : Text} {ts : List Token} {u : Token}
    (h : ofText source = .ok ts) (hu : u ∈ ts) (hkind : u.kind = .ident) : u.text ≠ [] := by
  have hcuts := ofTextFrom_eq_ok_iff.mp h
  obtain ⟨c, cs, htext, -⟩ := hcuts.exists_head hu (by rw [hkind]; decide)
  rw [htext]
  exact List.cons_ne_nil c cs

theorem Body.Encloses.holds_block {body : Body} {front place : List Nat} {chain : List Block}
    (h : Encloses body front place chain) :
    ∀ b ∈ chain, Holds body (.block b.shell b.body) := by
  induction h with
  | here => simp
  | inside hb _ ih =>
    intro c hc
    rcases List.mem_cons.mp hc with rfl | hc
    · exact .here (List.mem_of_getElem? hb)
    · exact .inside (List.mem_of_getElem? hb) (ih c hc)

/-- Every block of a body, however deep, is the last of a block path. -/
theorem Body.Holds.exists_leads {body : Body} {b : Block}
    (h : Holds body (.block b.shell b.body)) :
    ∃ place chain, Leads body place chain ∧ chain.getLast? = some b := by
  generalize hitem : Item.block b.shell b.body = item at h
  induction h with
  | here hmem =>
    subst hitem
    obtain ⟨i, hi⟩ := List.mem_iff_getElem?.mp hmem
    exact ⟨[_], [b], .last (getElem?_blocksBefore hi), rfl⟩
  | @inside body inner shell item hb _ ih =>
    obtain ⟨place, chain, hleads, hlast⟩ := ih hitem
    obtain ⟨i, hi⟩ := List.mem_iff_getElem?.mp hb
    refine ⟨_ :: place, ⟨shell, inner⟩ :: chain, .inside (getElem?_blocksBefore hi) hleads, ?_⟩
    rw [List.getLast?_cons_of_ne_nil hleads.chain_ne_nil, hlast]

namespace Document

open Grammar

variable {filename : String} {source : Text} {d : Document}

theorem name_ne_nil (h : parse filename source = .ok d) (s : Site d.body) : s.attr.name ≠ [] := by
  obtain ⟨before, name, equal, value, ending, after, hts, hattr, hs⟩ := exists_assignment h s
  rw [hs]
  exact Token.text_ne_nil_of_ident hts (by simp) hattr.name_kind

theorem type_ne_nil {shell : Shell} {inner : Body} (h : parse filename source = .ok d)
    (hblock : Body.Holds d.body (.block shell inner)) : shell.type ≠ [] := by
  obtain ⟨ts, body, hts, hbody, rfl⟩ := parse_eq_ok_iff.mp h
  obtain ⟨ps, ⟨hfit, rfl⟩, rfl⟩ := exists_derivation hbody
  obtain ⟨before, p, after, htokens, hp, hitem⟩ := exists_phrase_of_holds hfit hblock
  rw [List.append_nil] at htokens
  cases p with
  | trivia => cases hitem
  | assignment => cases hitem
  | block frame inside =>
    rw [htokens] at hts
    rw [← (Item.block.inj hitem).1]
    refine Token.text_ne_nil_of_ident hts ?_ hp.1.type_kind
    simp [Phrase.tokens, Frame.head]

/-! ## What an address with an empty segment finds -/

/-- Segments of which one is empty lead along a chain of blocks only if one of these has an empty
    label. -/
theorem hasEmptyLabel_of_leads {segments : List Text} {place : List Nat} {chain : List Block}
    (h : parse filename source = .ok d) (hempty : [] ∈ segments)
    (hleads : Body.Leads d.body place chain) (hans : Block.Answers segments chain) :
    Block.HasEmptyLabel chain := by
  obtain ⟨front, hin⟩ := hleads.encloses
  exact Block.hasEmptyLabel_of_answers (fun b hb => type_ne_nil h (hin.holds_block b hb)) hans
    hempty

/-- The blocks around an attribute that an address with an empty segment finds have an empty
    label: the segment is not its name. -/
theorem hasEmptyLabel_of_addressedBy {way : List Text} {name : Text}
    (h : parse filename source = .ok d) (hempty : [] ∈ way ++ [name]) {s : Site d.body}
    (hs : s.AddressedBy way name) : Block.HasEmptyLabel s.chain := by
  rcases List.mem_append.mp hempty with hway | hname
  · refine Block.hasEmptyLabel_of_answers (fun b hb => ?_) hs.2 hway
    exact type_ne_nil h (s.encloses.holds_block b hb)
  · have hnil : s.attr.name = [] := by rw [hs.1, ← List.mem_singleton.mp hname]
    exact absurd hnil (name_ne_nil h s)

/-- No segments lead anywhere if the first of them is empty. -/
theorem findBlocks_of_emptyType (h : parse filename source = .ok d) (rest : List Text) :
    d.body.findBlocks ([] :: rest) = .ok [] := by
  refine congrArg Except.ok (List.eq_nil_iff_forall_not_mem.mpr fun m hm => ?_)
  obtain ⟨i, b, hb, hm⟩ := Body.mem_matchingBlocks.mp hm
  obtain ⟨htype, -⟩ := Item.mem_matchesAt_block.mp hm
  obtain ⟨j, hj, -⟩ := Body.exists_item_of_getElem?_blocks hb
  exact type_ne_nil h (.here (List.mem_of_getElem? hj)) htype.symm

/-- Segments of which one is empty lead to the last blocks of exactly those paths that they address
    and that have an empty label on them. -/
theorem findBlocks_of_emptySegment {segments : List Text} (h : parse filename source = .ok d)
    (hempty : [] ∈ segments) : ∃ found, d.body.findBlocks segments = .ok found ∧
      ∀ m, m ∈ found ↔ ∃ chain, Body.Leads d.body m.path chain ∧
        chain.getLast? = some m.block ∧ Block.Answers segments chain ∧
          Block.HasEmptyLabel chain := by
  obtain ⟨type, rest, rfl⟩ := List.exists_cons_of_ne_nil (List.ne_nil_of_mem hempty)
  refine ⟨d.body.matchingBlocks type rest, rfl, fun m => Body.mem_matchingBlocks_iff.trans ?_⟩
  constructor
  · intro hm
    obtain ⟨chain, hleads, hlast, hans⟩ := hm
    exact ⟨chain, hleads, hlast, hans, hasEmptyLabel_of_leads h hempty hleads hans⟩
  · intro hm
    obtain ⟨chain, hleads, hlast, hans, -⟩ := hm
    exact ⟨chain, hleads, hlast, hans⟩

/-- An address with an empty segment finds nothing, and no body either, unless it addresses an
    attribute inside blocks with an empty label. -/
theorem findAttribute_of_emptySegment {address : Text} {way : List Text} {name : Text}
    (h : parse filename source = .ok d) (hne : address ≠ [])
    (hsplit : Text.splitAt '.' address = way ++ [name]) (hempty : [] ∈ way ++ [name]) :
    d.body.findAttribute address = .ok (.absent none) ↔
      ∀ s : Site d.body, s.AddressedBy way name → ¬ Block.HasEmptyLabel s.chain := by
  have hway : way ≠ [] := by
    rintro rfl
    obtain rfl : [] = name := List.mem_singleton.mp hempty
    have haddress := Text.intercalate_splitAt '.' address
    rw [hsplit] at haddress
    exact hne haddress.symm
  rw [Body.findAttribute_of_ne_nil hne, Address.ofText_eq hsplit, Body.lookup_eq, if_neg hway]
  cases hfound : (Body.owners d.body way).findSome? (Place.attribute? · name) with
  | none =>
    refine ⟨fun _ s hs => absurd hs (Body.not_addressedBy hfound s), fun _ => rfl⟩
  | some found =>
    obtain ⟨s, hs, -, rfl⟩ := Body.exists_first_site hfound
    constructor
    · intro habsent
      cases habsent
    · intro hnone
      exact absurd (hasEmptyLabel_of_addressedBy h hempty hs) (hnone s hs)

/-- Addresses with an empty segment find nothing in the body. -/
structure EmptySegmentsFindNothing (body : Body) : Prop where
  blocks : ∀ segments, [] ∈ segments → body.findBlocks segments = .ok []
  attributes : ∀ address, address ≠ [] → [] ∈ Text.splitAt '.' address →
    body.findAttribute address = .ok (.absent none)

theorem emptySegmentsFindNothing_iff (h : parse filename source = .ok d) :
    EmptySegmentsFindNothing d.body ↔
      ∀ b : Block, Body.Holds d.body (.block b.shell b.body) → [] ∉ b.shell.labels := by
  constructor
  · intro hnothing b hb hlabel
    obtain ⟨place, chain, hleads, hlast⟩ := hb.exists_leads
    have hmem : b ∈ chain := List.mem_of_getLast? hlast
    have hempty : [] ∈ Block.fullAddress chain :=
      List.mem_flatMap.mpr ⟨b, hmem, List.mem_cons_of_mem _ hlabel⟩
    obtain ⟨found, hfound, hiff⟩ := findBlocks_of_emptySegment h hempty
    obtain rfl : found = [] := Except.ok.inj (hfound.symm.trans (hnothing.blocks _ hempty))
    exact List.not_mem_nil
      ((hiff ⟨place, b⟩).mpr ⟨chain, hleads, hlast, Or.inr rfl, b, hmem, hlabel⟩)
  · intro hlabels
    constructor
    · intro segments hempty
      obtain ⟨found, hfound, hiff⟩ := findBlocks_of_emptySegment h hempty
      rw [hfound]
      refine congrArg Except.ok (List.eq_nil_iff_forall_not_mem.mpr fun m hm => ?_)
      obtain ⟨chain, hleads, -, -, b, hb, hlabel⟩ := (hiff m).mp hm
      obtain ⟨front, hin⟩ := hleads.encloses
      exact hlabels b (hin.holds_block b hb) hlabel
    · intro address hne hempty
      obtain ⟨way, name, hsplit⟩ :=
        (List.eq_nil_or_concat _).resolve_left (Text.splitAt_ne_nil '.' address)
      rw [List.concat_eq_append] at hsplit
      rw [hsplit] at hempty
      refine (findAttribute_of_emptySegment h hne hsplit hempty).mpr fun s _ hlabel => ?_
      obtain ⟨b, hb, hlabel⟩ := hlabel
      exact hlabels b (s.encloses.holds_block b hb) hlabel

/-- In a document that was read, segments of which one is empty lead to the last blocks of exactly
    those paths that they address and that have an empty label on them; the type of a block is
    never what fits. An address with an empty segment finds nothing unless it addresses an
    attribute inside blocks with an empty label; the name is never what fits. So all addresses with
    an empty segment find nothing exactly if no block of the document has an empty label. -/
theorem emptySegment_finds_emptyLabels (h : parse filename source = .ok d) :
    (∀ segments, [] ∈ segments → ∃ found, d.body.findBlocks segments = .ok found ∧
      ∀ m, m ∈ found ↔ ∃ chain, Body.Leads d.body m.path chain ∧
        chain.getLast? = some m.block ∧ Block.Answers segments chain ∧
          Block.HasEmptyLabel chain) ∧
    (∀ rest, d.body.findBlocks ([] :: rest) = .ok []) ∧
    (∀ address way name, address ≠ [] → Text.splitAt '.' address = way ++ [name] →
      [] ∈ way ++ [name] →
        (d.body.findAttribute address = .ok (.absent none) ↔
          ∀ s : Site d.body, s.AddressedBy way name → ¬ Block.HasEmptyLabel s.chain)) ∧
    (EmptySegmentsFindNothing d.body ↔
      ∀ b : Block, Body.Holds d.body (.block b.shell b.body) → [] ∉ b.shell.labels) :=
  ⟨fun _ hempty => findBlocks_of_emptySegment h hempty, findBlocks_of_emptyType h,
    fun _ _ _ hne hsplit hempty => findAttribute_of_emptySegment h hne hsplit hempty,
    emptySegmentsFindNothing_iff h⟩

/-- A block whose label is the empty text. -/
def emptyLabel : Text :=
  "b \"\" \x7b\n  a = 1\n\x7d\n".toList

theorem finds_emptyLabel : Query.finds "b..a".toList emptyLabel (fun _ => true) = true := by
  decide +kernel

/-- The attribute that `b..a` finds lies inside blocks with an empty label. -/
theorem emptySegment_finds_emptyLabels_emptyLabel :
    ∃ d, parse unnamedSource emptyLabel = .ok d ∧ [] ∈ ["b".toList, []] ∧
      (∃ found, d.body.findBlocks ["b".toList, []] = .ok found ∧
        ∀ m, m ∈ found ↔ ∃ chain, Body.Leads d.body m.path chain ∧
          chain.getLast? = some m.block ∧ Block.Answers ["b".toList, []] chain ∧
            Block.HasEmptyLabel chain) ∧
      "b..a".toList ≠ [] ∧
      Text.splitAt '.' "b..a".toList = ["b".toList, []] ++ ["a".toList] ∧
      [] ∈ ["b".toList, []] ++ ["a".toList] ∧
      ∃ s : Site d.body, s.AddressedBy ["b".toList, []] "a".toList ∧
        Block.HasEmptyLabel s.chain := by
  obtain ⟨d, found, a, hd, hfound, ha, -⟩ := Query.exists_of_finds finds_emptyLabel (by decide)
  obtain ⟨hblocks, -, hattribute, -⟩ := emptySegment_finds_emptyLabels hd
  have hne : "b..a".toList ≠ [] := by decide
  have hsplit : Text.splitAt '.' "b..a".toList = ["b".toList, []] ++ ["a".toList] := by decide
  have hmem : [] ∈ ["b".toList, []] := by decide
  have hempty : [] ∈ ["b".toList, []] ++ ["a".toList] := by decide
  refine ⟨d, hd, hmem, hblocks _ hmem, hne, hsplit, hempty, ?_⟩
  by_contra hnone
  have habsent := (hattribute _ _ _ hne hsplit hempty).mpr fun s hs hlabel => hnone ⟨s, hs, hlabel⟩
  obtain rfl : found = .absent none := Except.ok.inj (hfound.symm.trans habsent)
  cases ha

/-- The middle segment of `b..a` is empty, and an attribute is found. -/
theorem not_emptySegmentsFindNothing :
    ∃ d found a, parse unnamedSource emptyLabel = .ok d ∧
      d.body.findAttribute "b..a".toList = .ok found ∧ found.attribute? = some a ∧
      ¬ EmptySegmentsFindNothing d.body := by
  obtain ⟨d, found, a, hd, hfound, ha, -⟩ := Query.exists_of_finds finds_emptyLabel (by decide)
  refine ⟨d, found, a, hd, hfound, ha, ?_⟩
  intro hnothing
  have habsent := hnothing.attributes "b..a".toList (by decide) (by decide)
  obtain rfl : found = .absent none := Except.ok.inj (hfound.symm.trans habsent)
  cases ha

end Document

end HclQuery
