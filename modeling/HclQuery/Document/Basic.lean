/-
  Documents: a tree of attributes, blocks and trivia that keeps every token of its source.

  A body is a list of items in source order. Names need not be unique in it; look-ups by name
  answer with the first. Blocks hold bodies, so `tokens` is defined on an item and on a body
  together.
-/
import HclQuery.Failure
import HclQuery.Token.Basic

namespace HclQuery

/-- An assignment. `tokens` is all of it: the name, the `=`, the expression, and what ends the
    line; `name` is what look-ups compare. -/
structure Attribute where
  name : Text
  tokens : List Token
  deriving DecidableEq

/-- All of a block but its body: type, labels without quotes, the tokens up to the opening brace
    and its line end, and the tokens from the closing brace on. -/
structure Shell where
  type : Text
  labels : List Text := []
  opening : List Token := []
  closing : List Token := []
  deriving DecidableEq

/-- A piece of a body. Trivia are comments and line ends that belong to nothing else. -/
inductive Item where
  | attribute (a : Attribute)
  | block (shell : Shell) (body : List Item)
  | trivia (tokens : List Token)

mutual

/-- Two items are compared constructor by constructor. -/
def Item.decEq : (x y : Item) → Decidable (x = y)
  | .attribute a, .attribute b => decidable_of_iff (a = b) (by rw [Item.attribute.injEq])
  | .block shell body, .block shell' body' =>
    match decEq shell shell', Body.decEq body body' with
    | isTrue hshell, isTrue hbody => isTrue (by rw [hshell, hbody])
    | isFalse hshell, _ => isFalse fun h => hshell (Item.block.inj h).1
    | _, isFalse hbody => isFalse fun h => hbody (Item.block.inj h).2
  | .trivia ts, .trivia us => decidable_of_iff (ts = us) (by rw [Item.trivia.injEq])
  | .attribute _, .block _ _ => isFalse nofun
  | .attribute _, .trivia _ => isFalse nofun
  | .block _ _, .attribute _ => isFalse nofun
  | .block _ _, .trivia _ => isFalse nofun
  | .trivia _, .attribute _ => isFalse nofun
  | .trivia _, .block _ _ => isFalse nofun

/-- Two bodies are compared item by item. -/
def Body.decEq : (xs ys : List Item) → Decidable (xs = ys)
  | [], [] => isTrue rfl
  | x :: xs, y :: ys =>
    match Item.decEq x y, Body.decEq xs ys with
    | isTrue hx, isTrue hxs => isTrue (by rw [hx, hxs])
    | isFalse hx, _ => isFalse fun h => hx (List.cons.inj h).1
    | _, isFalse hxs => isFalse fun h => hxs (List.cons.inj h).2
  | [], _ :: _ => isFalse nofun
  | _ :: _, [] => isFalse nofun

end

instance : DecidableEq Item := Item.decEq
/-- The items between the braces of a block, or of a whole document. -/
abbrev Body := List Item

/-- A block: what stands around its body, and the body. -/
structure Block where
  shell : Shell
  body : Body

/-- A whole source: its items, and its name for messages. -/
structure Document where
  body : Body := []
  filename : String := unnamedSource
  deriving DecidableEq

mutual

/-- The tokens of an item, in source order. -/
def Item.tokens : Item → List Token
  | .attribute a => a.tokens
  | .block shell body => shell.opening ++ Body.tokens body ++ shell.closing
  | .trivia ts => ts

/-- The tokens of a body, in source order. -/
def Body.tokens : List Item → List Token
  | [] => []
  | item :: items => item.tokens ++ Body.tokens items

end

namespace Item

/-- The attribute that the item is, if it is one. -/
def attribute? : Item → Option Attribute
  | .attribute a => some a
  | _ => none

/-- The block that the item is, if it is one. -/
def block? : Item → Option Block
  | .block shell body => some ⟨shell, body⟩
  | _ => none

/-- The item is a block. -/
def isBlock (item : Item) : Bool :=
  item.block?.isSome

/-- The item is an attribute of this name. -/
def isNamed (name : Text) : Item → Bool
  | .attribute a => a.name = name
  | _ => false

end Item

namespace Body

@[simp] theorem tokens_nil : tokens [] = [] := by simp [tokens]

@[simp] theorem tokens_cons (item : Item) (items : Body) :
    tokens (item :: items) = item.tokens ++ tokens items := by simp [tokens]

@[simp] theorem tokens_append (xs ys : Body) : tokens (xs ++ ys) = tokens xs ++ tokens ys := by
  induction xs with
  | nil => simp
  | cons x xs ih => simp [ih]

/-- The source text of a body. -/
def source (body : Body) : Text :=
  Token.sourceOf (tokens body)

/-- The attributes that lie directly in the body. -/
def attributes (body : Body) : List Attribute :=
  body.filterMap Item.attribute?

/-- The blocks that lie directly in the body. -/
def blocks (body : Body) : List Block :=
  body.filterMap Item.block?

/-- The first attribute of this name that lies directly in the body. -/
def attribute? (body : Body) (name : Text) : Option Attribute :=
  (attributes body).find? (·.name = name)

/-- The place of that attribute among the items. -/
def attributeIndex? (body : Body) (name : Text) : Option Nat :=
  body.findIdx? (Item.isNamed name)

end Body

/-- The source text of a document. -/
def Document.source (d : Document) : Text :=
  Body.source d.body

end HclQuery
