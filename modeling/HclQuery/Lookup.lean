/-
  Looking up blocks and attributes by address.

  After a block's type, a segment may be a label or the type of a nested block, and no schema
  says which. Labels win: a block whose labels do not all match is left out, and once they are
  used up the rest of the address is looked for in its body. An address that ends with a block's
  type names every block of that type, whatever its labels.
-/
import HclQuery.Address
import HclQuery.Document.Basic

namespace HclQuery

/-! ## Labels -/

/-- The longest common start of the labels and the segments. -/
def matchingLabels : List Text → List Text → List Text
  | label :: labels, segment :: segments =>
    if label = segment then label :: matchingLabels labels segments else []
  | _, _ => []

/-- How the segments after a block's type fit its labels: not, exactly, or with segments left
    over that start with the type of a nested block. -/
inductive Fit where
  | mismatch
  | whole
  | inner (type : Text) (rest : List Text)
  deriving DecidableEq

/-- Fits the segments to the labels. -/
def Fit.of (labels segments : List Text) : Fit :=
  let used := (matchingLabels labels segments).length
  if used < labels.length then mismatch
  else
    match segments.drop used with
    | [] => whole
    | type :: rest => inner type rest

/-! ## Blocks -/

/-- A body inside a body, and the path that leads to it: places among blocks, outermost first. -/
structure Place where
  path : List Nat := []
  body : Body

/-- A block that was found, and the path that leads to its body. -/
structure BlockMatch where
  path : List Nat
  block : Block

namespace BlockMatch

/-- The match, seen from the body around the `i`-th block. -/
def under (i : Nat) (m : BlockMatch) : BlockMatch :=
  { m with path := i :: m.path }

/-- The body of the block, and where it is. -/
def place (m : BlockMatch) : Place :=
  ⟨m.path, m.block.body⟩

end BlockMatch

mutual

/-- The matches for the segments `type :: rest` that an item holds, if it is a block the `i`-th of
    its body. -/
def Item.matchesAt (i : Nat) (type : Text) (rest : List Text) : Item → List BlockMatch
  | .block shell body =>
    if shell.type = type then
      if rest.isEmpty then [⟨[i], ⟨shell, body⟩⟩]
      else
        match Fit.of shell.labels rest with
        | .mismatch => []
        | .whole => [⟨[i], ⟨shell, body⟩⟩]
        | .inner type rest => (Body.matchesFrom 0 type rest body).map (BlockMatch.under i)
    else []
  | _ => []

/-- The matches for the segments `type :: rest` among items whose first block is the `i`-th of
    its body. -/
def Body.matchesFrom (i : Nat) (type : Text) (rest : List Text) : List Item → List BlockMatch
  | [] => []
  | item :: items =>
    item.matchesAt i type rest ++
      Body.matchesFrom (if item.isBlock then i + 1 else i) type rest items

end

namespace Body

/-- The blocks that the segments `type :: rest` lead to, in source order. -/
def matchingBlocks (body : Body) (type : Text) (rest : List Text) : List BlockMatch :=
  matchesFrom 0 type rest body

/-- The blocks that a list of segments leads to, unless it is empty. -/
def findBlocks (body : Body) : List Text → Except Failure (List BlockMatch)
  | [] => .error .emptyAddress
  | type :: rest => .ok (matchingBlocks body type rest)

/-- The blocks that lie directly in the body. -/
def children (body : Body) : List BlockMatch :=
  (blocks body).zipIdx.map fun (block, i) => ⟨[i], block⟩

/-- The blocks of the given type that lie directly in the body, whatever their labels. -/
def blocksOfType (body : Body) (type : Text) : List BlockMatch :=
  matchingBlocks body type []

end Body

/-! ## Attributes -/

/-- The result of looking up an attribute: it and the body it lies in, or nothing, with the body
    that was searched if the address is a plain name. -/
inductive Lookup where
  | found (owner : Place) (a : Attribute)
  | absent (owner : Option Place)

/-- The attribute that was found. -/
def Lookup.attribute? : Lookup → Option Attribute
  | found _ a => some a
  | absent _ => none

/-- The attribute of this name in the body at this place. -/
def Place.attribute? (p : Place) (name : Text) : Option Lookup :=
  (Body.attribute? p.body name).map (Lookup.found p)

namespace Body

/-- The first attribute at the address. -/
def lookup (body : Body) (address : Address) : Lookup :=
  match address.way with
  | [] => (Place.attribute? ⟨[], body⟩ address.name).getD (.absent (some ⟨[], body⟩))
  | type :: rest =>
    ((matchingBlocks body type rest).findSome? fun m => m.place.attribute? address.name).getD
      (.absent none)

/-- The first attribute at the address that the text spells. -/
def findAttribute (body : Body) (address : Text) : Except Failure Lookup :=
  (Address.parse address).map (lookup body)

end Body

end HclQuery
