/-
  The grammar of documents, stated apart from the reading.

    items     := (trivia | attribute | block)*
    trivia    := a longest run of line ends and comments
    attribute := IDENT "=" value ending
    block     := IDENT label* "{" [line end] items "}" [line end]

  A `Phrase` is a derivation of one item: the tokens of the item, sorted by the part they play.
  `tokensOf` spells a list of phrases, `itemsOf` is the body that they stand for. Whether a phrase
  is well formed depends on what follows it (`Phrase.Fits`): runs are longest, a line end that may
  be taken is taken, and a comment ends its line if a line end or nothing follows.

  A value is bounded by counting (`Nested`): `netDepth` is the number of opening tokens less that
  of closing ones, whatever their kinds, and is not negative for any start of the value.
-/
import HclQuery.Document.Basic
import HclQuery.Document.Label

namespace HclQuery.Grammar

/-! ## Line ends -/

/-- An optional line end: it is taken if it is there. -/
def TakesLineEnd (lineEnd rest : List Token) : Prop :=
  (∃ t, lineEnd = [t] ∧ t.kind = .newline) ∨
    (lineEnd = [] ∧ ∀ t ∈ rest.head?, t.kind ≠ .newline)

/-- The token is a comment that runs to the end of its line: it begins with `#` or `//`, or a line
    end follows, or nothing does. -/
def IsLineComment (t : Token) (rest : List Token) : Prop :=
  t.kind = .comment ∧
    (['#'] <+: t.text ∨ ['/', '/'] <+: t.text ∨ rest = [] ∨
      ∃ next ∈ rest.head?, next.kind = .newline)

/-! ## Values -/

/-- How many brackets the tokens open beyond those that they close. -/
def netDepth (ts : List Token) : Int :=
  ts.countP (·.kind.isOpening) - ts.countP (·.kind.isClosing)

/-- The tokens close `depth` brackets that are open before them, and each that they open. Where no
    bracket is open there is no line end and no comment that runs to the end of its line. -/
structure Nested (depth : Nat) (value rest : List Token) : Prop where
  nonneg : ∀ start, start <+: value → 0 ≤ depth + netDepth start
  closed : depth + netDepth value = 0
  oneLine : ∀ before t after, value = before ++ t :: after → depth + netDepth before = 0 →
    t.kind ≠ .newline ∧ ¬ IsLineComment t (after ++ rest)

/-- What ends the line of an attribute: a line end, a comment with the line end after it, or
    nothing before a closing brace or the end of the input. -/
def IsEnding (ending rest : List Token) : Prop :=
  (∃ t, ending = [t] ∧ t.kind = .newline) ∨
    (∃ t lineEnd, ending = t :: lineEnd ∧ IsLineComment t (lineEnd ++ rest) ∧
      TakesLineEnd lineEnd rest) ∨
    (ending = [] ∧ (rest = [] ∨ ∃ t ∈ rest.head?, t.kind = .closeBrace))

/-- `name`, `equal`, `value` and `ending` are an attribute where `rest` follows. -/
structure IsAttribute (name equal : Token) (value ending rest : List Token) : Prop where
  name_kind : name.kind = .ident
  equal_kind : equal.kind = .equal
  hasValue : ∃ t ∈ value, t.isTrivia = false
  nested : Nested 0 value (ending ++ rest)
  ends : IsEnding ending rest

/-! ## Block headers -/

/-- What stands between the quotes of a quoted label. -/
def labelInside (t : Token) : Text :=
  (t.text.drop 1).dropLast

/-- The token is a label: a name, or a quoted text that holds nothing that opens a template. -/
def IsLabel (t : Token) : Prop :=
  t.kind = .ident ∨
    (t.kind = .string ∧ ¬ ['$', '{'] <:+: labelInside t ∧ ¬ ['%', '{'] <:+: labelInside t)

theorem IsLabel.kind {t : Token} (h : IsLabel t) : t.kind = .ident ∨ t.kind = .string :=
  h.imp_right And.left

theorem IsLabel.kind_ne_openBrace {t : Token} (h : IsLabel t) : t.kind ≠ .openBrace := by
  rcases h.kind with hkind | hkind
  · rw [hkind]
    decide
  · rw [hkind]
    decide

/-- What a label says. -/
def labelText (t : Token) : Text :=
  if t.kind = .string then Label.unescape (labelInside t) else t.text

/-- All tokens of a block but those of its items. -/
structure Frame where
  type : Token
  labels : List Token
  opening : Token
  openingEnd : List Token
  closing : Token
  closingEnd : List Token

namespace Frame

/-- The tokens before the items of the block. -/
def head (f : Frame) : List Token :=
  f.type :: (f.labels ++ f.opening :: f.openingEnd)

/-- The tokens after the items of the block. -/
def foot (f : Frame) : List Token :=
  f.closing :: f.closingEnd

/-- What a block says around its items. -/
def shell (f : Frame) : Shell where
  type := f.type.text
  labels := f.labels.map labelText
  opening := f.head
  closing := f.foot

/-- The frame is well formed around items of the tokens `inside`, where `rest` follows. -/
structure Fits (f : Frame) (inside rest : List Token) : Prop where
  type_kind : f.type.kind = .ident
  labels_kind : ∀ t ∈ f.labels, IsLabel t
  opening_kind : f.opening.kind = .openBrace
  openingEnd_takes : TakesLineEnd f.openingEnd (inside ++ f.foot ++ rest)
  closing_kind : f.closing.kind = .closeBrace
  closingEnd_takes : TakesLineEnd f.closingEnd rest

end Frame

/-! ## Phrases -/

/-- A derivation of one item. -/
inductive Phrase where
  | trivia (run : List Token)
  | assignment (name equal : Token) (value ending : List Token)
  | block (frame : Frame) (inside : List Phrase)

mutual

/-- The tokens of a phrase, in source order. -/
def Phrase.tokens : Phrase → List Token
  | .trivia run => run
  | .assignment name equal value ending => name :: equal :: (value ++ ending)
  | .block frame inside => frame.head ++ tokensOf inside ++ frame.foot

/-- The tokens of a list of phrases, in source order. -/
def tokensOf : List Phrase → List Token
  | [] => []
  | p :: ps => p.tokens ++ tokensOf ps

end

mutual

/-- The item that a phrase stands for. -/
def Phrase.item : Phrase → Item
  | .trivia run => .trivia run
  | .assignment name equal value ending =>
    .attribute ⟨name.text, name :: equal :: (value ++ ending)⟩
  | .block frame inside => .block frame.shell (itemsOf inside)

/-- The body that a list of phrases stands for. -/
def itemsOf : List Phrase → Body
  | [] => []
  | p :: ps => p.item :: itemsOf ps

end

mutual

/-- The phrase is well formed where `rest` follows. -/
def Phrase.Fits (rest : List Token) : Phrase → Prop
  | .trivia run =>
    run ≠ [] ∧ (∀ t ∈ run, t.isTrivia = true) ∧ ∀ t ∈ rest.head?, t.isTrivia = false
  | .assignment name equal value ending => IsAttribute name equal value ending rest
  | .block frame inside => frame.Fits (tokensOf inside) rest ∧ AllFit (frame.foot ++ rest) inside

/-- Each of the phrases is well formed where the others and then `rest` follow. -/
def AllFit (rest : List Token) : List Phrase → Prop
  | [] => True
  | p :: ps => p.Fits (tokensOf ps ++ rest) ∧ AllFit rest ps

end

/-- The phrases are a derivation of the whole list of tokens. -/
def Derives (ps : List Phrase) (ts : List Token) : Prop :=
  AllFit [] ps ∧ tokensOf ps = ts

end HclQuery.Grammar
