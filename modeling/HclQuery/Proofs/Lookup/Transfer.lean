/-
  Looking up in bodies that are put together, and in bodies that are built alike.

  A look-up reads the attributes and blocks of a body, and nothing else of it
  (`attribute?_lookup`). So trivia do not matter, in two bodies one after the other it looks in the
  first and then in the second (`attribute?_lookup_append`), and in bodies that are built alike it
  finds attributes that are (`rel_attribute?_lookup`).
-/
import Mathlib.Data.Option.Basic
import HclQuery.Proofs.Document.Likeness
import HclQuery.Proofs.Lookup.FirstAttribute

namespace HclQuery

/-! ## What a look-up reads -/

/-- The blocks that the segments `type :: rest` lead to, from this block on. -/
def Block.matched (type : Text) (rest : List Text) (b : Block) : List Block :=
  (Item.matchesAt 0 type rest (.block b.shell b.body)).map BlockMatch.block

/-- Which blocks are found in a block does not depend on where it is. -/
theorem Item.map_block_matchesAt (i : Nat) (type : Text) (rest : List Text) (b : Block) :
    (Item.matchesAt i type rest (.block b.shell b.body)).map BlockMatch.block =
      b.matched type rest := by
  have hunder : ∀ j, BlockMatch.block ∘ BlockMatch.under j = BlockMatch.block := fun j => rfl
  unfold Block.matched Item.matchesAt
  split
  · split
    · rfl
    · split
      · rfl
      · rfl
      · rw [List.map_map, List.map_map, hunder, hunder]
  · rfl

namespace Body

theorem map_block_matchesFrom (i : Nat) (type : Text) (rest : List Text) (body : Body) :
    (matchesFrom i type rest body).map BlockMatch.block =
      (blocks body).flatMap (Block.matched type rest) := by
  rw [matchesFrom_eq_flatMap, List.map_flatMap]
  generalize blocks body = bs
  induction bs generalizing i with
  | nil => rfl
  | cons b bs ih =>
    rw [List.zipIdx_cons, List.flatMap_cons, List.flatMap_cons, ih, Item.map_block_matchesAt]

/-- The bodies in which the last segment of an address is looked for. -/
def ownerBodies (body : Body) : List Text → List Body
  | [] => [body]
  | type :: rest => ((blocks body).flatMap (Block.matched type rest)).map Block.body

theorem map_body_owners (body : Body) (way : List Text) :
    (owners body way).map Place.body = ownerBodies body way := by
  cases way with
  | nil => rfl
  | cons type rest =>
    rw [ownerBodies, ← map_block_matchesFrom 0, owners, List.map_map, List.map_map]
    rfl

/-- A look-up finds the first attribute of the name in the bodies that are searched. -/
theorem attribute?_lookup (body : Body) (address : Address) :
    (lookup body address).attribute? =
      (ownerBodies body address.way).findSome? (attribute? · address.name) := by
  rw [lookup_eq, ← map_body_owners]
  induction owners body address.way with
  | nil => rfl
  | cons p ps ih =>
    rw [List.findSome?_cons, List.map_cons, List.findSome?_cons]
    cases hp : attribute? p.body address.name with
    | none =>
      rw [Place.attribute?, hp]
      exact ih
    | some a =>
      rw [Place.attribute?, hp]
      rfl

/-! ## Bodies put together -/

/-- Where a body holds the attributes and blocks of two others, those of the first come first. -/
theorem attribute?_lookup_append {body xs ys : Body}
    (hattributes : attributes body = attributes xs ++ attributes ys)
    (hblocks : blocks body = blocks xs ++ blocks ys) (address : Address) :
    (lookup body address).attribute? =
      (lookup xs address).attribute?.or (lookup ys address).attribute? := by
  rw [attribute?_lookup, attribute?_lookup, attribute?_lookup]
  cases address.way with
  | nil =>
    simp only [ownerBodies, List.findSome?_cons, List.findSome?_nil, attribute?, hattributes,
      List.find?_append]
    cases (attributes xs).find? (·.name = address.name) <;>
      cases (attributes ys).find? (·.name = address.name) <;> rfl
  | cons type rest =>
    rw [ownerBodies, hblocks, List.flatMap_append, List.map_append, List.findSome?_append]
    rfl

end Body

/-! ## Bodies built alike -/

/-- The blocks are built alike of tokens that are related. -/
structure Block.Like (R : Token → Token → Prop) (b c : Block) : Prop where
  shell : b.shell.Like R c.shell
  body : Body.Like R b.body c.body

namespace Body

variable {R : Token → Token → Prop}

theorem Like.attributes {xs ys : Body} (h : Like R xs ys) :
    List.Forall₂ (Attribute.Like R) (attributes xs) (attributes ys) := by
  induction xs generalizing ys with
  | nil =>
    cases h
    exact .nil
  | cons x xs ih =>
    cases h with
    | cons hitem hrest =>
      have hothers := ih hrest
      cases hitem with
      | «attribute» ha => exact .cons ha hothers
      | block => exact hothers
      | trivia => exact hothers

theorem Like.blocks {xs ys : Body} (h : Like R xs ys) :
    List.Forall₂ (Block.Like R) (blocks xs) (blocks ys) := by
  induction xs generalizing ys with
  | nil =>
    cases h
    exact .nil
  | cons x xs ih =>
    cases h with
    | cons hitem hrest =>
      have hothers := ih hrest
      cases hitem with
      | «attribute» => exact hothers
      | block hshell hbody => exact .cons ⟨hshell, hbody⟩ hothers
      | trivia => exact hothers

/-- The first attributes of one name are alike. -/
theorem rel_find? {as bs : List Attribute} (h : List.Forall₂ (Attribute.Like R) as bs)
    (name : Text) :
    Option.Rel (Attribute.Like R) (as.find? (·.name = name)) (bs.find? (·.name = name)) := by
  induction h with
  | nil => exact .none
  | @cons a b as bs hab _ ih =>
    rw [List.find?_cons, List.find?_cons, ← hab.name]
    split
    · exact .some hab
    · exact ih

/-- The first attributes that are found in bodies built alike are alike. -/
theorem rel_findSome? {xs ys : List Body} (h : List.Forall₂ (Like R) xs ys) (name : Text) :
    Option.Rel (Attribute.Like R) (xs.findSome? (attribute? · name))
      (ys.findSome? (attribute? · name)) := by
  induction h with
  | nil => exact .none
  | @cons x y xs ys hxy _ ih =>
    have hfirst := rel_find? hxy.attributes name
    rw [List.findSome?_cons, List.findSome?_cons]
    unfold attribute?
    generalize (Body.attributes x).find? (·.name = name) = o at hfirst ⊢
    generalize (Body.attributes y).find? (·.name = name) = o' at hfirst ⊢
    cases hfirst with
    | some hab => exact .some hab
    | none => exact ih

end Body

namespace Block

variable {R : Token → Token → Prop}

theorem matched_eq (type : Text) (rest : List Text) (b : Block) :
    b.matched type rest =
      if b.shell.type = type then
        if rest.isEmpty then [b]
        else
          match Fit.of b.shell.labels rest with
          | .mismatch => []
          | .whole => [b]
          | .inner type' rest' => (Body.blocks b.body).flatMap (matched type' rest')
      else [] := by
  have hunder : BlockMatch.block ∘ BlockMatch.under 0 = BlockMatch.block := rfl
  rw [matched, Item.matchesAt]
  split
  · split
    · rfl
    · cases Fit.of b.shell.labels rest with
      | mismatch => rfl
      | whole => rfl
      | inner type' rest' =>
        rw [List.map_map, hunder]
        exact Body.map_block_matchesFrom 0 type' rest' b.body
  · rfl

/-- The blocks that the segments lead to in blocks built alike are built alike. The induction is on
    the number of segments: those behind the labels of a block are fewer. -/
theorem Like.matched {b c : Block} (h : b.Like R c) (type : Text) (rest : List Text) :
    List.Forall₂ (Like R) (b.matched type rest) (c.matched type rest) := by
  induction hn : rest.length using Nat.strongRecOn generalizing b c type rest with
  | ind n ih =>
    subst hn
    rw [matched_eq, matched_eq, h.shell.type, h.shell.labels]
    split
    · split
      · exact .cons h .nil
      · split
        · exact .nil
        · exact .cons h .nil
        · rename_i type' rest' hfit
          have hrest := Fit.of_eq_inner_iff.mp hfit
          refine List.rel_flatMap h.body.blocks fun b' c' hbc => ?_
          exact ih rest'.length (by rw [hrest]; simp; omega) hbc type' rest' rfl
    · exact .nil

end Block

namespace Body

variable {R : Token → Token → Prop}

theorem Like.ownerBodies {xs ys : Body} (h : Like R xs ys) (way : List Text) :
    List.Forall₂ (Like R) (ownerBodies xs way) (ownerBodies ys way) := by
  cases way with
  | nil => exact .cons h .nil
  | cons type rest =>
    have hmatched : List.Forall₂ (Block.Like R) _ _ :=
      List.rel_flatMap h.blocks fun b c hbc => hbc.matched type rest
    exact List.rel_map (fun b c hbc => hbc.body) hmatched

/-- A look-up finds attributes that are alike in bodies that are built alike. -/
theorem Like.attribute?_lookup {xs ys : Body} (h : Like R xs ys) (address : Address) :
    Option.Rel (Attribute.Like R) (lookup xs address).attribute?
      (lookup ys address).attribute? := by
  rw [Body.attribute?_lookup, Body.attribute?_lookup]
  exact rel_findSome? (h.ownerBodies address.way) address.name

end Body

end HclQuery
