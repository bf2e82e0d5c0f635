/-
  One address after another.

  What is left of a document at an address is at most one assignment, under the whole address as
  its name (`isReduced_of_select`). The next address has to find its own segments in it. There
  are no blocks, so an address with dots finds nothing; one without dots finds the assignment if
  this is its name, and copying it again changes nothing (`ofExpr_exprTokens_ofExpr`). So from the
  second address on, each either leaves the document as it is or leaves nothing of it
  (`select_of_isReduced`). By induction on the addresses that follow (`selectAll_of_isReduced`), a
  chain of addresses finds something only if all of them are one name: `selectAll_chain`.
-/
import HclQuery.Proofs.Document.SetAttributes
import HclQuery.Proofs.Lookup.Transfer
import HclQuery.Proofs.Query.Get
import HclQuery.Proofs.Text.Lines

namespace HclQuery

/-! ## Addresses without blocks to lead to -/

theorem Address.way_ofText_eq_nil_iff {t : Text} : (ofText t).way = [] ↔ '.' ∉ t := by
  have hlength := Text.length_splitAt '.' t
  rw [← segments_ofText, segments, List.length_append, List.length_singleton] at hlength
  rw [← List.count_eq_zero, ← List.length_eq_zero_iff]
  omega

theorem Address.ofText_of_not_mem {t : Text} (h : '.' ∉ t) : ofText t = ⟨[], t⟩ := by
  have hsplit : Text.splitAt '.' t = [] ++ [t] := Text.splitAt_of_not_mem h
  exact ofText_eq hsplit

/-- Where there are no blocks, a name is looked up as it is, and an address with dots finds
    nothing. -/
theorem Body.attribute?_lookup_ofText {body : Body} (h : blocks body = []) (t : Text) :
    (lookup body (Address.ofText t)).attribute? =
      if '.' ∈ t then none else attribute? body t := by
  rw [attribute?_lookup]
  by_cases hdot : '.' ∈ t
  · have hway : (Address.ofText t).way ≠ [] := fun hnil =>
      Address.way_ofText_eq_nil_iff.mp hnil hdot
    obtain ⟨type, rest, hway⟩ := List.exists_cons_of_ne_nil hway
    rw [if_pos hdot, hway, ownerBodies, h]
    rfl
  · rw [if_neg hdot, Address.ofText_of_not_mem hdot, ownerBodies, List.findSome?_singleton]

/-! ## What is left at an address -/

/-- An assignment that was made of an expression is made again of its own one. -/
theorem Attribute.ofExpr_exprTokens_ofExpr (name : Text) (expr : List Token) :
    ofExpr name (ofExpr name expr).exprTokens = ofExpr name expr := by
  rw [exprTokens_ofExpr]
  cases expr <;> rfl

/-- The body holds one assignment to the name, or nothing. -/
inductive Body.IsReduced (name : Text) : Body → Prop where
  | empty : IsReduced name []
  | one (expr : List Token) : IsReduced name [.attribute (.ofExpr name expr)]

theorem Body.IsReduced.blocks_eq_nil {name : Text} {body : Body} (h : body.IsReduced name) :
    blocks body = [] := by
  cases h <;> rfl

namespace Document

variable {x y : Text} {d d' : Document} {addresses : List Text}

theorem isReduced_of_select (h : d.select x = .ok d') :
    d'.body.IsReduced x ∧ d'.filename = d.filename := by
  obtain ⟨found, -, rfl⟩ := Except.map_eq_ok_iff.mp h
  dsimp only
  cases found.attribute? with
  | none => exact ⟨.empty, rfl⟩
  | some a => exact ⟨.one a.exprTokens, rfl⟩

/-- One more address leaves what is left of a document as it is, if it is the name without dots
    that was looked up before; else it leaves nothing. -/
theorem select_of_isReduced (h : d.body.IsReduced x) (hne : y ≠ []) :
    d.select y = .ok (if y = x ∧ '.' ∉ y then d else { d with body := [] }) := by
  obtain ⟨body, filename⟩ := d
  dsimp only at h
  rw [select_of_ne_nil hne, Body.attribute?_lookup_ofText h.blocks_eq_nil]
  by_cases hdot : '.' ∈ y
  · rw [if_pos hdot, if_neg fun hsame => hsame.2 hdot]
  rw [if_neg hdot]
  cases h with
  | empty =>
    have hnone : Body.attribute? [] y = none := rfl
    rw [hnone]
    exact congrArg Except.ok (ite_self _).symm
  | one expr =>
    rw [Body.attribute?_cons_attribute]
    by_cases hname : y = x
    · subst hname
      have hown : (Attribute.ofExpr y expr).name = y := rfl
      rw [if_pos hown, if_pos ⟨rfl, hdot⟩]
      dsimp only
      rw [Body.setAttribute, Attribute.ofExpr_exprTokens_ofExpr]
      rfl
    · have hother : ¬ (Attribute.ofExpr x expr).name = y := fun heq => hname heq.symm
      rw [if_neg hother, if_neg fun hsame => hname hsame.1]
      rfl

/-- So do all addresses that follow: they leave the document as it is, or nothing. -/
theorem selectAll_of_isReduced (h : d.body.IsReduced x) (hne : [] ∉ addresses) :
    d.selectAll addresses =
      .ok (if ∀ y ∈ addresses, y = x ∧ '.' ∉ y then d else { d with body := [] }) := by
  induction addresses generalizing d with
  | nil => simp [selectAll]
  | cons y addresses ih =>
    rw [List.mem_cons, not_or] at hne
    rw [selectAll, select_of_isReduced h (Ne.symm hne.1)]
    dsimp only
    by_cases hsame : y = x ∧ '.' ∉ y
    · have hrest : (∀ z ∈ y :: addresses, z = x ∧ '.' ∉ z) ↔
          ∀ z ∈ addresses, z = x ∧ '.' ∉ z := by
        rw [List.forall_mem_cons, and_iff_right hsame]
      rw [if_pos hsame, ih h hne.2]
      simp only [hrest]
    · have hnone : ¬ ∀ z ∈ y :: addresses, z = x ∧ '.' ∉ z := fun hall =>
        hsame (hall y List.mem_cons_self)
      rw [if_neg hsame, ih (d := { d with body := [] }) .empty hne.2, if_neg hnone, ite_self]

/-- The addresses are one name without dots, over and over. -/
def SameName (addresses : List Text) : Prop :=
  ∃ name, '.' ∉ name ∧ ∀ address ∈ addresses, address = name

theorem sameName_iff {z : Text} {more : List Text} :
    SameName (x :: z :: more) ↔ ∀ y ∈ z :: more, y = x ∧ '.' ∉ y := by
  constructor
  · intro ⟨name, hdot, hall⟩ y hy
    rw [hall y (List.mem_cons_of_mem x hy), hall x List.mem_cons_self]
    exact ⟨rfl, hdot⟩
  · intro hall
    obtain ⟨rfl, hdot⟩ := hall z List.mem_cons_self
    exact ⟨z, hdot, List.forall_mem_cons.mpr ⟨rfl, fun y hy => (hall y hy).1⟩⟩

/-- A document that is reduced to two addresses or more, one after the other, keeps nothing but its
    name, unless all the addresses are one name without dots; then those behind the first change
    nothing. -/
theorem selectAll_chain (hlength : 2 ≤ addresses.length) (hne : [] ∉ addresses) (d : Document) :
    ∃ e, d.selectAll addresses = .ok e ∧
      (SameName addresses → d.selectAll (addresses.take 1) = .ok e) ∧
      (¬ SameName addresses → e.body = []) ∧
      ∀ n, ∃ e', d.selectAll (addresses.take n) = .ok e' ∧ e'.filename = d.filename := by
  obtain ⟨x, z, more, rfl⟩ : ∃ x z more, addresses = x :: z :: more := by
    match addresses, hlength with
    | x :: z :: more, _ => exact ⟨x, z, more, rfl⟩
  rw [List.mem_cons, not_or] at hne
  -- Only the first address is looked up in the document itself, so the induction starts behind it.
  obtain ⟨d', hselect⟩ : ∃ d', d.select x = .ok d' := ⟨_, select_of_ne_nil (Ne.symm hne.1) d⟩
  obtain ⟨hreduced, hfilename⟩ := isReduced_of_select hselect
  have hfollow : ∀ ys, d.selectAll (x :: ys) = d'.selectAll ys := by
    intro ys
    rw [selectAll, hselect]
  refine ⟨_, (hfollow _).trans (selectAll_of_isReduced hreduced hne.2), ?_, ?_, ?_⟩
  · intro hsame
    rw [if_pos (sameName_iff.mp hsame)]
    exact hfollow []
  · intro hsame
    rw [if_neg (sameName_iff.not.mp hsame)]
  · intro n
    cases n with
    | zero => exact ⟨d, rfl, rfl⟩
    | succ n =>
      have hne' : [] ∉ (z :: more).take n := fun hmem => hne.2 (List.mem_of_mem_take hmem)
      refine ⟨_, (hfollow _).trans (selectAll_of_isReduced hreduced hne'), ?_⟩
      rw [← hfilename]
      split <;> rfl

/-- A name that has a value, and another one inside a block. -/
def nameAndBlock : Document where
  body := [.attribute (.ofExpr ['n'] [⟨.number, ['1'], [], 1⟩]),
    .block { type := ['b'] } [.attribute (.ofExpr ['n'] [⟨.number, ['2'], [], 1⟩])]]

/-- The name is found however often it is looked up, the address with a dot only once. -/
theorem selectAll_chain_nameAndBlock :
    (2 ≤ [['n'], ['n']].length ∧ [] ∉ [['n'], ['n']] ∧
      ∃ e, nameAndBlock.selectAll [['n'], ['n']] = .ok e ∧
        e.body = [.attribute (.ofExpr ['n'] [⟨.number, ['1'], [' '], 1⟩])]) ∧
    2 ≤ [['b', '.', 'n'], ['b', '.', 'n']].length ∧ [] ∉ [['b', '.', 'n'], ['b', '.', 'n']] ∧
      ∃ e, nameAndBlock.selectAll [['b', '.', 'n'], ['b', '.', 'n']] = .ok e ∧ e.body = [] := by
  have hlength : 2 ≤ [['n'], ['n']].length ∧ 2 ≤ [['b', '.', 'n'], ['b', '.', 'n']].length := by
    simp
  have hne : [] ∉ [['n'], ['n']] ∧ [] ∉ [['b', '.', 'n'], ['b', '.', 'n']] := by simp
  have hname : SameName [['n'], ['n']] := ⟨['n'], by simp, by simp⟩
  have hdotted : ¬ SameName [['b', '.', 'n'], ['b', '.', 'n']] := by
    intro hsame
    exact (sameName_iff.mp hsame _ List.mem_cons_self).2 (by simp)
  obtain ⟨e, he, hfirst, -⟩ := selectAll_chain hlength.1 hne.1 nameAndBlock
  obtain ⟨e', he', -, hnothing, -⟩ := selectAll_chain hlength.2 hne.2 nameAndBlock
  refine ⟨⟨hlength.1, hne.1, e, he, ?_⟩, hlength.2, hne.2, e', he', hnothing hdotted⟩
  rw [← Except.ok.inj (hfirst hname)]
  rfl

end Document

end HclQuery
