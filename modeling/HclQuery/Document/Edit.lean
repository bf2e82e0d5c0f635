/-
  Changing a document that is built in memory: setting attributes, adding items, and reaching the
  body of a nested block. Nothing here is applied to a source that was read.

  A path leads from a body to a body inside it: each number is the place of a block among the
  blocks of the body reached so far.
-/
import HclQuery.Document.Basic

namespace HclQuery

/-- The assignment of the expression to the name, on a line of its own. One space stands on
    either side of the `=`, whatever stood before the expression. -/
def Attribute.ofExpr (name : Text) (expr : List Token) : Attribute where
  name := name
  tokens :=
    ⟨.ident, name, [], 1⟩ :: ⟨.equal, ['='], [' '], 1⟩ ::
      (expr.modifyHead ({ · with leading := [' '] }) ++ [⟨.newline, ['\n'], [], 1⟩])

namespace Body

/-- The attribute takes the place of the first one of its name, or comes last. -/
def put (a : Attribute) : Body → Body
  | [] => [.attribute a]
  | item :: items =>
    if item.isNamed a.name then .attribute a :: items else item :: put a items

/-- The name is given the expression, in the place of its first attribute or at the end. -/
def setAttribute (name : Text) (expr : List Token) (body : Body) : Body :=
  put (.ofExpr name expr) body

/-- The item comes last. -/
def add (item : Item) (body : Body) : Body :=
  body ++ [item]

/-- The body that the path leads to. -/
def at? (body : Body) : List Nat → Option Body
  | [] => some body
  | i :: path => (blocks body)[i]?.bind fun block => at? block.body path

/-- The body of the `n`-th block is replaced by its image. -/
def modifyBlock (f : Body → Body) : Nat → Body → Body
  | _, [] => []
  | 0, .block shell body :: items => .block shell (f body) :: items
  | n + 1, .block shell body :: items => .block shell body :: modifyBlock f n items
  | n, item :: items => item :: modifyBlock f n items

/-- The body that the path leads to is replaced by its image. -/
def modifyAt (f : Body → Body) : List Nat → Body → Body
  | [], body => f body
  | i :: path, body => modifyBlock (modifyAt f path) i body

end Body

/-- The body that the path leads to is replaced by its image. -/
def Document.modifyAt (d : Document) (path : List Nat) (f : Body → Body) : Document :=
  { d with body := Body.modifyAt f path d.body }

end HclQuery
