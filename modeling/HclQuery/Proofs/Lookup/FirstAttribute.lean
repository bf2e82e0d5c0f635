/-
  The attribute that an address finds.

  A site is a place for an attribute in a body: the blocks around it, outermost first, and where
  it stands. Its position counts items, outermost first, so that the lexicographic order of
  positions is the order of the source. The segments of an address, the last of which is a name,
  address a site if the attribute there has the name and the segments before it are an address of
  the path of blocks around it; no segments are left for an attribute of the body itself.

  `findAttribute_first`: a look-up finds the first site that its address addresses, with the body
  around it, and if there is none it answers with the body that was searched, for an address
  without dots, or with nothing.
-/
import Mathlib.Data.List.Lex
import HclQuery.Proofs.Lookup.BlockPath

namespace HclQuery

/-! ## Sites -/

namespace Body

/-- How many blocks stand before the `i`-th item. -/
def blocksBefore (body : Body) (i : Nat) : Nat :=
  (blocks (body.take i)).length

/-- The blocks of `chain` lie one inside the other, the first directly in the body; `front` is
    where they are among all items around them, and `place` among the blocks around them. -/
inductive Encloses : Body → List Nat → List Nat → List Block → Prop where
  | here {body : Body} : Encloses body [] [] []
  | inside {body : Body} {i : Nat} {b : Block} {front place : List Nat} {chain : List Block}
      (hb : body[i]? = some (.block b.shell b.body)) (h : Encloses b.body front place chain) :
      Encloses body (i :: front) (blocksBefore body i :: place) (b :: chain)

/-- The body of the last block of the chain, or the body itself. -/
def innermost (body : Body) (chain : List Block) : Body :=
  (chain.getLast?.map Block.body).getD body

end Body

/-- A place in the body where an attribute lies: as the item `index` inside the blocks `chain`. -/
structure Site (body : Body) where
  front : List Nat
  place : List Nat
  chain : List Block
  index : Nat
  attr : Attribute
  encloses : Body.Encloses body front place chain
  holds : (Body.innermost body chain)[index]? = some (.attribute attr)

namespace Site

variable {body : Body}

/-- Where the attribute is among all items around it, outermost first. -/
def position (s : Site body) : List Nat :=
  s.front ++ [s.index]

/-- The body that directly holds the attribute. -/
def owner (s : Site body) : Place :=
  ⟨s.place, Body.innermost body s.chain⟩

/-- The segments `way` and then `name` address the attribute. -/
def AddressedBy (s : Site body) (way : List Text) (name : Text) : Prop :=
  s.attr.name = name ∧ Block.Answers way s.chain

end Site

/-! ## Blocks among items -/

namespace Body

@[simp] theorem blocks_append (xs ys : Body) : blocks (xs ++ ys) = blocks xs ++ blocks ys :=
  List.filterMap_append

theorem blocksBefore_mono (body : Body) {i j : Nat} (h : i ≤ j) :
    blocksBefore body i ≤ blocksBefore body j := by
  unfold blocksBefore
  obtain ⟨k, rfl⟩ := Nat.exists_eq_add_of_le h
  rw [List.take_add, blocks_append, List.length_append]
  exact Nat.le_add_right _ _

theorem blocksBefore_lt {body : Body} {i j : Nat} {b : Block}
    (hb : body[i]? = some (.block b.shell b.body)) (h : i < j) :
    blocksBefore body i < blocksBefore body j := by
  have hnext : blocksBefore body (i + 1) = blocksBefore body i + 1 := by
    unfold blocksBefore
    rw [List.take_add_one, hb, blocks_append, List.length_append]
    rfl
  have := blocksBefore_mono body (show i + 1 ≤ j by omega)
  omega

theorem blocksBefore_inj {body : Body} {i j : Nat} {b c : Block}
    (hb : body[i]? = some (.block b.shell b.body)) (hc : body[j]? = some (.block c.shell c.body))
    (h : blocksBefore body i = blocksBefore body j) : i = j := by
  rcases Nat.lt_trichotomy i j with hlt | rfl | hlt
  · have := blocksBefore_lt hb hlt
    omega
  · rfl
  · have := blocksBefore_lt hc hlt
    omega

theorem getElem?_blocksBefore {body : Body} {i : Nat} {b : Block}
    (hb : body[i]? = some (.block b.shell b.body)) :
    (blocks body)[blocksBefore body i]? = some b := by
  have hsplit : blocks body = blocks (body.take i) ++ b :: blocks (body.drop (i + 1)) := by
    obtain ⟨hi, hget⟩ := List.getElem?_eq_some_iff.mp hb
    conv => lhs; rw [← List.take_append_drop i body, List.drop_eq_getElem_cons hi, hget]
    rw [blocks_append]
    rfl
  rw [hsplit, blocksBefore, List.getElem?_append_right (Nat.le_refl _), Nat.sub_self]
  rfl

theorem exists_item_of_getElem?_blocks {body : Body} {k : Nat} {b : Block}
    (hb : (blocks body)[k]? = some b) :
    ∃ i, body[i]? = some (.block b.shell b.body) ∧ blocksBefore body i = k := by
  induction body generalizing k with
  | nil => simp [blocks] at hb
  | cons item items ih =>
    cases item with
    | «attribute» a =>
      obtain ⟨i, hi, rfl⟩ := ih hb
      exact ⟨i + 1, hi, rfl⟩
    | trivia ts =>
      obtain ⟨i, hi, rfl⟩ := ih hb
      exact ⟨i + 1, hi, rfl⟩
    | block shell body =>
      cases k with
      | zero =>
        obtain rfl : Block.mk shell body = b := Option.some.inj hb
        exact ⟨0, rfl, rfl⟩
      | succ k =>
        obtain ⟨i, hi, rfl⟩ := ih (k := k) hb
        exact ⟨i + 1, hi, rfl⟩

/-! ## Chains of blocks, by items and by blocks -/

@[simp] theorem innermost_nil (body : Body) : innermost body [] = body := rfl

@[simp] theorem innermost_cons (body : Body) (b : Block) (chain : List Block) :
    innermost body (b :: chain) = innermost b.body chain := by
  unfold innermost
  rw [List.getLast?_cons]
  cases chain.getLast? <;> rfl

theorem Leads.encloses {body : Body} {place : List Nat} {chain : List Block}
    (h : Leads body place chain) : ∃ front, Encloses body front place chain := by
  induction h with
  | last hb =>
    obtain ⟨i, hi, rfl⟩ := exists_item_of_getElem?_blocks hb
    exact ⟨[i], .inside hi .here⟩
  | inside hb _ ih =>
    obtain ⟨i, hi, rfl⟩ := exists_item_of_getElem?_blocks hb
    obtain ⟨front, hfront⟩ := ih
    exact ⟨i :: front, .inside hi hfront⟩

theorem Encloses.leads {body : Body} {front place : List Nat} {chain : List Block}
    (h : Encloses body front place chain) (hc : chain ≠ []) : Leads body place chain := by
  induction h with
  | here => exact absurd rfl hc
  | inside hb hin ih =>
    cases hin with
    | here => exact .last (getElem?_blocksBefore hb)
    | inside hb' hin' => exact .inside (getElem?_blocksBefore hb) (ih (by simp))

theorem Encloses.of_nil {body : Body} {front : List Nat} {chain : List Block}
    (h : Encloses body front [] chain) : front = [] ∧ chain = [] := by
  cases h
  exact ⟨rfl, rfl⟩

theorem Encloses.of_cons {body : Body} {k : Nat} {front place : List Nat} {chain : List Block}
    (h : Encloses body front (k :: place) chain) :
    ∃ i b front' chain', front = i :: front' ∧ chain = b :: chain' ∧
      body[i]? = some (.block b.shell b.body) ∧ blocksBefore body i = k ∧
      Encloses b.body front' place chain' := by
  cases h with
  | inside hb hin => exact ⟨_, _, _, _, rfl, rfl, hb, rfl, hin⟩

theorem block_unique {body : Body} {i : Nat} {b c : Block}
    (hb : body[i]? = some (.block b.shell b.body))
    (hc : body[i]? = some (.block c.shell c.body)) : b = c := by
  obtain ⟨hshell, hbody⟩ := Item.block.inj (Option.some.inj (hb.symm.trans hc))
  cases b
  cases c
  cases hshell
  cases hbody
  rfl

/-- A place among blocks settles the place among items, and the blocks on the way. -/
theorem Encloses.unique {body : Body} {front front' place : List Nat} {chain chain' : List Block}
    (h : Encloses body front place chain) (h' : Encloses body front' place chain') :
    front = front' ∧ chain = chain' := by
  induction h generalizing front' chain' with
  | here =>
    obtain ⟨rfl, rfl⟩ := h'.of_nil
    exact ⟨rfl, rfl⟩
  | inside hb hin ih =>
    obtain ⟨j, c, front', chain', rfl, rfl, hc, hj, hin'⟩ := h'.of_cons
    obtain rfl := blocksBefore_inj hc hb hj
    obtain rfl := block_unique hb hc
    obtain ⟨rfl, rfl⟩ := ih hin'
    exact ⟨rfl, rfl⟩

theorem Encloses.place_eq_nil {body : Body} {front place : List Nat}
    (h : Encloses body front place []) : place = [] := by
  cases h
  rfl

/-! ## The order of sites -/

/-- Of two block paths with one address, neither leads into the other: what stands directly in
    the last block of the earlier one stands before what stands directly in that of the later. -/
theorem Encloses.position_lt {body : Body} {front front' place place' : List Nat}
    {chain chain' : List Block} {segments : List Text}
    (h : Encloses body front place chain) (h' : Encloses body front' place' chain')
    (hans : Block.Answers segments chain) (hans' : Block.Answers segments chain')
    (hlt : place < place') (index index' : Nat) :
    front ++ [index] < front' ++ [index'] := by
  induction h generalizing front' place' chain' segments with
  | here =>
    obtain rfl := Block.answers_nil.mp hans
    cases chain' with
    | nil =>
      rw [h'.place_eq_nil] at hlt
      exact absurd hlt (List.not_lt_nil _)
    | cons c chain' => exact absurd rfl (Block.ne_nil_of_answers hans' (by simp))
  | @inside body i b front place chain hb hin ih =>
    cases place' with
    | nil => exact absurd hlt (List.not_lt_nil _)
    | cons k place' =>
      obtain ⟨j, c, front', chain', rfl, rfl, hc, rfl, hin'⟩ := h'.of_cons
      rw [List.cons_append, List.cons_append, List.cons_lt_cons_iff]
      rcases List.cons_lt_cons_iff.mp hlt with hbefore | ⟨heq, hinside⟩
      · refine Or.inl (Nat.lt_of_not_le fun hji => ?_)
        have := blocksBefore_mono body hji
        omega
      · obtain rfl := blocksBefore_inj hb hc heq
        obtain rfl := block_unique hb hc
        have hc' : chain' ≠ [] := by
          intro heq
          subst heq
          rw [hin'.place_eq_nil] at hinside
          exact absurd hinside (List.not_lt_nil _)
        obtain ⟨more, hmore, hmore'⟩ := hans.tail hans' hc'
        exact Or.inr ⟨rfl, ih hin' hmore hmore' hinside⟩

end Body

/-! ## Attributes of a body by name -/

namespace Body

theorem attribute?_cons (item : Item) (items : Body) (name : Text) :
    attribute? (item :: items) name =
      if item.isNamed name then item.attribute? else attribute? items name := by
  cases item with
  | «attribute» a =>
    by_cases h : a.name = name
    · simp [attribute?, attributes, Item.attribute?, Item.isNamed, h]
    · simp [attribute?, attributes, Item.attribute?, Item.isNamed, h]
  | block shell body => rfl
  | trivia ts => rfl

/-- The attribute found by its name is the first item that is an attribute of this name. -/
theorem exists_index_of_attribute? {body : Body} {name : Text} {a : Attribute}
    (h : attribute? body name = some a) :
    ∃ index : Nat, body[index]? = some (.attribute a) ∧ a.name = name ∧
      ∀ (index' : Nat) (a' : Attribute), body[index']? = some (.attribute a') →
        a'.name = name → index ≤ index' := by
  induction body with
  | nil => cases h
  | cons item items ih =>
    rw [attribute?_cons] at h
    split at h
    · rename_i hnamed
      cases item with
      | «attribute» b =>
        obtain rfl : b = a := Option.some.inj h
        exact ⟨0, rfl, by simpa [Item.isNamed] using hnamed, fun _ _ _ _ => Nat.zero_le _⟩
      | block shell body => cases h
      | trivia ts => cases h
    · rename_i hnamed
      obtain ⟨index, hget, hname, hfirst⟩ := ih h
      refine ⟨index + 1, hget, hname, fun index' a' hget' hname' => ?_⟩
      cases index' with
      | zero =>
        obtain rfl := Option.some.inj hget'
        exact absurd (by simpa [Item.isNamed] using hname') hnamed
      | succ index' => exact Nat.succ_le_succ (hfirst _ _ hget' hname')

theorem ne_of_attribute?_eq_none {body : Body} {name : Text} (h : attribute? body name = none)
    {index : Nat} {a : Attribute} (ha : body[index]? = some (.attribute a)) : a.name ≠ name := by
  unfold attribute? attributes at h
  have hmem : a ∈ body.filterMap Item.attribute? :=
    List.mem_filterMap.mpr ⟨_, List.mem_of_getElem? ha, rfl⟩
  simpa using List.find?_eq_none.mp h a hmem

/-! ## Looking up -/

/-- The bodies in which an attribute is looked for: the body itself, or those of the blocks that
    the segments lead to. -/
def owners (body : Body) : List Text → List Place
  | [] => [⟨[], body⟩]
  | type :: rest => (matchingBlocks body type rest).map BlockMatch.place

theorem lookup_eq (body : Body) (address : Address) :
    lookup body address =
      ((owners body address.way).findSome? (Place.attribute? · address.name)).getD
        (.absent (if address.way = [] then some ⟨[], body⟩ else none)) := by
  unfold lookup
  cases address.way with
  | nil => simp [owners]
  | cons type rest =>
    simp [owners, List.findSome?_map, Function.comp_def]

theorem mem_owners {body : Body} {way : List Text} {p : Place} :
    p ∈ owners body way ↔
      ∃ front chain, Encloses body front p.path chain ∧ p.body = innermost body chain ∧
        Block.Answers way chain := by
  obtain ⟨path, inner⟩ := p
  cases way with
  | nil =>
    simp only [owners, List.mem_singleton]
    constructor
    · intro h
      cases h
      exact ⟨[], [], .here, rfl, Block.answers_nil.mpr rfl⟩
    · intro h
      obtain ⟨front, chain, hin, rfl, hans⟩ := h
      cases chain with
      | nil => rw [hin.place_eq_nil, innermost_nil]
      | cons b chain => exact absurd rfl (Block.ne_nil_of_answers hans (by simp))
  | cons type rest =>
    simp only [owners, List.mem_map, mem_matchingBlocks_iff]
    constructor
    · intro h
      obtain ⟨m, ⟨chain, hleads, hlast, hans⟩, hm⟩ := h
      cases hm
      obtain ⟨front, hin⟩ := hleads.encloses
      exact ⟨front, chain, hin, by simp [innermost, hlast], hans⟩
    · intro h
      obtain ⟨front, chain, hin, rfl, hans⟩ := h
      have hc : chain ≠ [] := by
        intro heq
        subst heq
        exact absurd (Block.answers_nil.mp hans) (by simp)
      have hlast := List.getLast?_eq_some_getLast hc
      refine ⟨⟨path, chain.getLast hc⟩, ⟨chain, hin.leads hc, hlast, hans⟩, ?_⟩
      simp [innermost, hlast, BlockMatch.place]

theorem owners_pairwise (body : Body) (way : List Text) :
    (owners body way).Pairwise (·.path < ·.path) := by
  cases way with
  | nil => exact List.pairwise_singleton _ _
  | cons type rest =>
    rw [owners, List.pairwise_map]
    exact matchingBlocks_pairwise body type rest

end Body

namespace Site

variable {body : Body} {way : List Text} {name : Text}

theorem owner_mem_owners {s : Site body} (h : s.AddressedBy way name) :
    s.owner ∈ Body.owners body way :=
  Body.mem_owners.mpr ⟨s.front, s.chain, s.encloses, rfl, h.2⟩

/-- Of two sites with one address, that in the earlier owner comes first. -/
theorem position_lt {s s' : Site body} (h : s.AddressedBy way name)
    (h' : s'.AddressedBy way name) (hlt : s.owner.path < s'.owner.path) :
    s.position < s'.position :=
  s.encloses.position_lt s'.encloses h.2 h'.2 hlt _ _

/-- Of two sites in one body, that with the smaller index comes first. -/
theorem position_le {s s' : Site body} (h : s.owner.path = s'.owner.path)
    (hle : s.index ≤ s'.index) : s.position ≤ s'.position := by
  have hin' := s'.encloses
  rw [show s'.place = s.place from h.symm] at hin'
  unfold position
  rw [(s.encloses.unique hin').1]
  rcases Nat.lt_or_eq_of_le hle with hlt | heq
  · exact le_of_lt (List.append_left_lt (List.cons_lt_cons_iff.mpr (Or.inl hlt)))
  · rw [heq]

theorem ne_of_owner {s : Site body} (h : Place.attribute? s.owner name = none) :
    s.attr.name ≠ name :=
  Body.ne_of_attribute?_eq_none (Option.map_eq_none_iff.mp h) s.holds

end Site

namespace Body

/-- Where the search in the owners finds nothing, no site is addressed. -/
theorem not_addressedBy {body : Body} {way : List Text} {name : Text}
    (h : (owners body way).findSome? (Place.attribute? · name) = none) (s : Site body) :
    ¬ s.AddressedBy way name := by
  intro hs
  exact Site.ne_of_owner (List.findSome?_eq_none_iff.mp h _ (Site.owner_mem_owners hs)) hs.1

/-- What the search in the owners finds is at the first of the sites that are addressed. -/
theorem exists_first_site {body : Body} {way : List Text} {name : Text} {found : Lookup}
    (h : (owners body way).findSome? (Place.attribute? · name) = some found) :
    ∃ s : Site body, s.AddressedBy way name ∧
      (∀ s' : Site body, s'.AddressedBy way name → s.position ≤ s'.position) ∧
      found = .found s.owner s.attr := by
  obtain ⟨before, p, after, howners, hp, hbefore⟩ := List.findSome?_eq_some_iff.mp h
  obtain ⟨a, ha, rfl⟩ := Option.map_eq_some_iff.mp hp
  obtain ⟨index, hget, hname, hfirst⟩ := exists_index_of_attribute? ha
  obtain ⟨front, chain, hin, hbody, hans⟩ :=
    mem_owners.mp (show p ∈ owners body way by rw [howners]; simp)
  obtain ⟨path, inner⟩ := p
  obtain rfl : inner = innermost body chain := hbody
  let s : Site body := ⟨front, path, chain, index, a, hin, hget⟩
  refine ⟨s, ⟨hname, hans⟩, fun s' hs' => ?_, rfl⟩
  have hmem := Site.owner_mem_owners hs'
  have hsorted := owners_pairwise body way
  rw [howners] at hmem hsorted
  rcases List.mem_append.mp hmem with hmem | hmem
  · exact absurd hs'.1 (Site.ne_of_owner (hbefore _ hmem))
  rcases List.mem_cons.mp hmem with heq | hmem
  · have hholds : (innermost body chain)[s'.index]? = some (.attribute s'.attr) := by
      rw [← show innermost body s'.chain = innermost body chain from congrArg Place.body heq]
      exact s'.holds
    exact Site.position_le (congrArg Place.path heq).symm (hfirst _ _ hholds hs'.1)
  · have hlt := (List.pairwise_cons.mp (List.pairwise_append.mp hsorted).2.1).1 _ hmem
    exact le_of_lt (Site.position_lt (s := s) ⟨hname, hans⟩ hs' hlt)

end Body

/-! ## Addresses as texts -/

theorem Text.length_splitAt (sep : Char) (t : Text) :
    (splitAt sep t).length = t.count sep + 1 := by
  induction t with
  | nil => rfl
  | cons c cs ih =>
    unfold splitAt
    rw [List.count_cons]
    by_cases hc : c = sep
    · simp [hc, ih]
    · simp [hc, ih]

theorem Address.ofText_eq {t : Text} {way : List Text} {name : Text}
    (h : Text.splitAt '.' t = way ++ [name]) : ofText t = ⟨way, name⟩ := by
  have hseg := segments_ofText t
  rw [h] at hseg
  obtain ⟨hway, hname⟩ := List.append_inj' hseg rfl
  cases hof : ofText t
  simp_all

/-- A look-up finds the first attribute of the source that its address addresses, with the body
    that directly holds it. Where there is none, it answers with the body that was searched for
    an address without dots, and with nothing for any other. -/
theorem Body.findAttribute_first {address : Text} {way : List Text} {name : Text} (body : Body)
    (hne : address ≠ []) (hsplit : Text.splitAt '.' address = way ++ [name]) :
    (∃ s : Site body, s.AddressedBy way name ∧
        (∀ s' : Site body, s'.AddressedBy way name → s.position ≤ s'.position) ∧
        findAttribute body address = .ok (.found s.owner s.attr)) ∨
      ((∀ s : Site body, ¬ s.AddressedBy way name) ∧
        findAttribute body address =
          .ok (.absent (if '.' ∈ address then none else some ⟨[], body⟩))) := by
  have hway : way = [] ↔ '.' ∉ address := by
    have hlength := Text.length_splitAt '.' address
    rw [hsplit, List.length_append, List.length_singleton] at hlength
    rw [← List.count_eq_zero, ← List.length_eq_zero_iff]
    omega
  have hfind : findAttribute body address = .ok (lookup body ⟨way, name⟩) := by
    unfold findAttribute Address.parse
    rw [if_neg (by simpa using hne), Address.ofText_eq hsplit]
    rfl
  rw [hfind, lookup_eq]
  cases hfound : (owners body way).findSome? (Place.attribute? · name) with
  | some found =>
    obtain ⟨s, hs, hfirst, rfl⟩ := exists_first_site hfound
    exact Or.inl ⟨s, hs, hfirst, rfl⟩
  | none =>
    refine Or.inr ⟨not_addressedBy hfound, ?_⟩
    by_cases hdot : '.' ∈ address <;> simp [hway, hdot]

/-- Two blocks of one type, of which only the second holds an attribute. -/
def Body.repeated : Body :=
  [.block { type := ['b'] } [], .block { type := ['b'] } [.attribute ⟨['n'], []⟩]]

/-- A block that lacks the attribute does not hide the one in a later block. -/
theorem Body.findAttribute_first_in_repeated :
    ['b', '.', 'n'] ≠ [] ∧ Text.splitAt '.' ['b', '.', 'n'] = [['b']] ++ [['n']] ∧
      ∃ s : Site repeated, s.AddressedBy [['b']] ['n'] ∧
        (∀ s' : Site repeated, s'.AddressedBy [['b']] ['n'] → s.position ≤ s'.position) ∧
        findAttribute repeated ['b', '.', 'n'] = .ok (.found s.owner s.attr) := by
  have hne : ['b', '.', 'n'] ≠ [] := by decide
  have hsplit : Text.splitAt '.' ['b', '.', 'n'] = [['b']] ++ [['n']] := by decide
  refine ⟨hne, hsplit, ?_⟩
  rcases findAttribute_first repeated hne hsplit with hfound | ⟨-, habsent⟩
  · exact hfound
  · cases habsent

end HclQuery
