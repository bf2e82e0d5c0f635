/-
  Reading a document from tokens.

    body      := (attribute | block | trivia)*
    attribute := IDENT "=" expression
    block     := IDENT (IDENT | STRING)* "{" body "}"

  An expression ends at the first line end or line-ending comment outside brackets, or before a
  closing brace that is not its own. Items are found one at a time by `State.step`; the blocks
  that are still open form a stack.
-/
import HclQuery.Document.Basic
import HclQuery.Document.Label
import HclQuery.Token.OfText

namespace HclQuery.Document

/-! ## Attributes -/

/-- The line end at the front of the tokens, if there is one, and the tokens after it. -/
def cutLineEnd : List Token → List Token × List Token
  | [] => ([], [])
  | t :: ts => if t.kind = .newline then ([t], ts) else ([], t :: ts)

/-- The comment `t` runs to the end of its line; `ts` are the tokens after it. -/
def endsLine (t : Token) (ts : List Token) : Bool :=
  ['#'].isPrefixOf t.text || ['/', '/'].isPrefixOf t.text ||
    match ts with
    | [] => true
    | next :: _ => next.kind = .newline

/-- The tokens of a value, those that end its line, and those after it. -/
structure Cut where
  value : List Token
  ending : List Token
  rest : List Token

/-- The cut with one more token in front of its value. -/
def Cut.push (t : Token) (cut : Cut) : Cut :=
  { cut with value := t :: cut.value }

/-- The bracket depth after the token. Brackets are counted, their kinds are not compared. -/
def depthAfter (depth : Nat) (t : Token) : Nat :=
  if t.kind.isOpening then depth + 1
  else if t.kind.isClosing then depth - 1
  else depth

/-- Cuts the value of the attribute `name` off the tokens, which start inside `depth` brackets
    of it. -/
def cutValue (name : Token) (depth : Nat) : List Token → Except Fault Cut
  | [] => if depth = 0 then .ok ⟨[], [], []⟩ else .error ⟨name.line, .unclosedBracket name.text⟩
  | t :: ts =>
    if depth = 0 && t.kind = .newline then .ok ⟨[], [t], ts⟩
    else if depth = 0 && t.kind = .closeBrace then .ok ⟨[], [], t :: ts⟩
    else if depth = 0 && t.kind = .comment && endsLine t ts then
      .ok ⟨[], t :: (cutLineEnd ts).1, (cutLineEnd ts).2⟩
    else if depth = 0 && t.kind.isClosing then
      .error ⟨t.line, .unbalanced t.text name.text⟩
    else (cutValue name (depthAfter depth t) ts).map (Cut.push t)

/-- The attribute that starts with `name` and `equal`, and the tokens after it. -/
def readAttribute (name equal : Token) (ts : List Token) :
    Except Fault (Attribute × List Token) :=
  match cutValue name 0 ts with
  | .error fault => .error fault
  | .ok cut =>
    if cut.value.all Token.isTrivia then .error ⟨name.line, .missingValue name.text⟩
    else .ok (⟨name.text, name :: equal :: (cut.value ++ cut.ending)⟩, cut.rest)

/-! ## Block headers -/

/-- The labels of a block, the tokens of its header after the type, and the tokens after it. -/
structure Header where
  labels : List Text
  tokens : List Token
  rest : List Token

/-- The header with one more label in front. -/
def Header.push (label : Text) (t : Token) (header : Header) : Header :=
  { header with labels := label :: header.labels, tokens := t :: header.tokens }

/-- Reads the header of the block `type` from the token after the type on. -/
def readHeader (type : Token) : List Token → Except Fault Header
  | [] => .error ⟨type.line, .missingOpenBrace type.text⟩
  | t :: ts =>
    match t.kind with
    | .ident => (readHeader type ts).map (Header.push t.text t)
    | .string =>
      match Label.decode? t.text with
      | some label => (readHeader type ts).map (Header.push label t)
      | none => .error ⟨t.line, .templateInLabel t.text⟩
    | .openBrace => .ok ⟨[], t :: (cutLineEnd ts).1, (cutLineEnd ts).2⟩
    | _ => .error ⟨t.line, .unexpectedInHeader t.text type.text⟩

/-! ## Bodies -/

/-- A block whose closing brace is still to come: where its type stands, what is known of it, and
    the items before it in the body around it, last first. -/
structure Pending where
  line : Int
  shell : Shell
  before : List Item

/-- How far the reading has come: the items of the innermost open body, last first, and the open
    blocks, innermost first. -/
structure State where
  items : List Item := []
  pending : List Pending := []

namespace State

/-- One more item in the innermost body. -/
def add (s : State) (item : Item) : State :=
  { s with items := item :: s.items }

/-- A block opens. -/
def enter (s : State) (type : Token) (header : Header) : State where
  items := []
  pending :=
    ⟨type.line, { type := type.text, labels := header.labels, opening := type :: header.tokens },
      s.items⟩ :: s.pending

/-- The innermost block closes at the brace `t`. -/
def close (s : State) (t : Token) (ts : List Token) : Except Fault (State × List Token) :=
  match s.pending with
  | [] => .error ⟨t.line, .unexpectedCloseBrace⟩
  | p :: pending =>
    let shell := { p.shell with closing := t :: (cutLineEnd ts).1 }
    .ok (⟨.block shell s.items.reverse :: p.before, pending⟩, (cutLineEnd ts).2)

/-- A block header is read and the block opens. -/
def openBlock (s : State) (type : Token) (ts : List Token) : Except Fault (State × List Token) :=
  (readHeader type ts).map fun header => (s.enter type header, header.rest)

/-- Reads what starts with the token `t`: a run of trivia, a closing brace, an attribute, or the
    header of a block. -/
def step (s : State) (t : Token) (ts : List Token) : Except Fault (State × List Token) :=
  if t.isTrivia then
    .ok (s.add (.trivia (t :: ts.takeWhile Token.isTrivia)), ts.dropWhile Token.isTrivia)
  else if t.kind = .closeBrace then s.close t ts
  else if t.kind ≠ .ident then .error ⟨t.line, .expectedItem t.text⟩
  else
    match ts with
    | [] => s.openBlock t []
    | next :: rest =>
      if next.kind = .equal then
        (readAttribute t next rest).map fun r => (s.add (.attribute r.1), r.2)
      else s.openBlock t (next :: rest)

/-- The whole body, once the tokens have ended. -/
def finish (s : State) : Except Fault Body :=
  match s.pending with
  | [] => .ok s.items.reverse
  | p :: _ => .error ⟨p.line, .unclosedBlock p.shell.type⟩

end State

/-! ## Steps use tokens up -/

theorem length_cutLineEnd_le (ts : List Token) : (cutLineEnd ts).2.length ≤ ts.length := by
  unfold cutLineEnd
  split
  · simp
  · split <;> simp

theorem length_cutValue_le {name : Token} {depth : Nat} {ts : List Token} {cut : Cut}
    (h : cutValue name depth ts = .ok cut) : cut.rest.length ≤ ts.length := by
  induction ts generalizing depth cut with
  | nil =>
    unfold cutValue at h
    split at h <;> cases h
    simp
  | cons t ts ih =>
    unfold cutValue at h
    split at h
    · cases h; simp
    split at h
    · cases h; simp
    split at h
    · cases h
      have := length_cutLineEnd_le ts
      simp only [List.length_cons]
      omega
    split at h
    · cases h
    · cases hrec : cutValue name (depthAfter depth t) ts with
      | error fault => rw [hrec] at h; cases h
      | ok inner =>
        rw [hrec] at h
        cases h
        have := ih hrec
        simp only [Cut.push, List.length_cons]
        omega

theorem length_readHeader_le {type : Token} {ts : List Token} {header : Header}
    (h : readHeader type ts = .ok header) : header.rest.length ≤ ts.length := by
  induction ts generalizing header with
  | nil => cases h
  | cons t ts ih =>
    have step : ∀ label, (readHeader type ts).map (Header.push label t) = .ok header →
        header.rest.length ≤ (t :: ts).length := by
      intro label h
      cases hrec : readHeader type ts with
      | error fault => rw [hrec] at h; cases h
      | ok inner =>
        rw [hrec] at h
        cases h
        have := ih hrec
        simp only [Header.push, List.length_cons]
        omega
    unfold readHeader at h
    split at h
    · exact step _ h
    · split at h
      · exact step _ h
      · cases h
    · cases h
      have := length_cutLineEnd_le ts
      simp only [List.length_cons]
      omega
    · cases h

theorem length_openBlock_le {s s' : State} {type : Token} {ts rest : List Token}
    (h : s.openBlock type ts = .ok (s', rest)) : rest.length ≤ ts.length := by
  unfold State.openBlock at h
  cases hh : readHeader type ts with
  | error fault => rw [hh] at h; cases h
  | ok header =>
    rw [hh] at h
    cases h
    exact length_readHeader_le hh

theorem length_step_le {s s' : State} {t : Token} {ts rest : List Token}
    (h : s.step t ts = .ok (s', rest)) : rest.length ≤ ts.length := by
  unfold State.step at h
  split at h
  · cases h
    exact (List.dropWhile_sublist _).length_le
  split at h
  · unfold State.close at h
    split at h
    · cases h
    · cases h
      exact length_cutLineEnd_le ts
  split at h
  · cases h
  split at h
  · exact length_openBlock_le h
  · rename_i next rest'
    split at h
    · unfold readAttribute at h
      cases hc : cutValue t 0 rest' with
      | error fault => simp [hc, Except.map] at h
      | ok cut =>
        have := length_cutValue_le hc
        rw [hc] at h
        dsimp only at h
        split at h
        · cases h
        · cases h
          simp only [List.length_cons]
          omega
    · exact length_openBlock_le h

/-! ## The whole document -/

/-- Reads the tokens to their end. -/
def run (s : State) : List Token → Except Fault Body
  | [] => s.finish
  | t :: ts =>
    match _h : s.step t ts with
    | .error fault => .error fault
    | .ok (s', rest) => run s' rest
termination_by ts => ts.length
decreasing_by
  have := length_step_le _h
  simp only [List.length_cons]
  omega

/-- The body that the tokens spell. -/
def ofTokens (ts : List Token) : Except Fault Body :=
  run {} ts

/-- The document that the text spells, under the given name. -/
def parse (filename : String) (t : Text) : Except ParseError Document :=
  match Token.ofText t with
  | .error fault => .error ⟨filename, fault⟩
  | .ok ts =>
    match ofTokens ts with
    | .error fault => .error ⟨filename, fault⟩
    | .ok body => .ok ⟨body, filename⟩

end HclQuery.Document
