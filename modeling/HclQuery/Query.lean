/-
  Queries: read a source, reduce it to the attribute at an address any number of times, and write
  the result. What is written comes all at once at the end, so a query that fails writes nothing.
-/
import HclQuery.Answer.Json
import HclQuery.Answer.Yaml
import HclQuery.Document.Edit
import HclQuery.Document.OfTokens
import HclQuery.Document.Value
import HclQuery.Log

namespace HclQuery

/-! ## Formats -/

/-- The forms in which an attribute is written: its value alone, the assignment as HCL, or a
    mapping of address and value. -/
inductive Format where
  | value
  | hcl
  | json
  | yaml
  deriving DecidableEq

namespace Format

/-- The names of the formats, in the order in which they are offered. -/
def names : List (Text × Format) :=
  [("value".toList, value), ("hcl".toList, hcl), ("json".toList, json), ("yaml".toList, yaml)]

/-- The format of this name, if there is one. -/
def named? (name : Text) : Option Format :=
  (names.find? (·.1 = name)).map (·.2)

/-- The format of this name. -/
def ofName (name : Text) : Except Failure Format :=
  match named? name with
  | some format => .ok format
  | none => .error (.unknownFormat name)

end Format

/-! ## Reducing a document to one attribute -/

namespace Document

/-- The document that holds nothing but the attribute at the address, under the whole address as
    its name; an empty one if there is no such attribute. -/
def select (address : Text) (d : Document) : Except Failure Document :=
  (d.body.findAttribute address).map fun result =>
    { d with
      body :=
        match result.attribute? with
        | some a => Body.setAttribute address a.exprTokens []
        | none => [] }

/-- The document reduced to each address in turn. -/
def selectAll : List Text → Document → Except Failure Document
  | [], d => .ok d
  | address :: addresses, d =>
    match d.select address with
    | .ok d' => selectAll addresses d'
    | .error failure => .error failure

/-- The value of the attribute that has this very name, dots included. -/
def valueOf (name : Text) (d : Document) : Except Failure (Option Text) :=
  match d.body.attribute? name with
  | none => .ok none
  | some a => a.value.map some

end Document

/-! ## Output -/

/-- What is written of a document: all of it, or the attribute that bears the name `address`. -/
inductive Output where
  | whole
  | one (address : Text) (format : Format)

namespace Output

/-- A value on a line of its own; nothing for no value. -/
def valueLine : Option Text → Text
  | some v => v ++ ['\n']
  | none => []

/-- What is written of the document. -/
def write : Output → Document → Except Failure Text
  | whole, d => .ok d.source
  | one _ .hcl, d => .ok d.source
  | one address .value, d => (d.valueOf address).map valueLine
  | one address .json, d =>
    (d.valueOf address).map fun value => Answer.json ⟨address, value⟩ ++ ['\n']
  | one address .yaml, d => (d.valueOf address).map fun value => Answer.yaml ⟨address, value⟩

end Output

/-! ## Queries -/

/-- What is done to a source: its name for messages, the addresses to which it is reduced in
    turn, and what is written in the end. -/
structure Query where
  filename : String := unnamedSource
  addresses : List Text := []
  output : Output := .whole

namespace Query

/-- The query for the attribute at one address. -/
def get (filename : String) (address : Text) (format : Format) : Query where
  filename := filename
  addresses := [address]
  output := .one address format

/-- The text that the query writes for the source. -/
def run (q : Query) (source : Text) : Except Failure Text :=
  match Document.parse q.filename source with
  | .error e => .error (.unreadable e)
  | .ok d =>
    match d.selectAll q.addresses with
    | .error failure => .error failure
    | .ok d' => q.output.write d'

/-- What reducing the document to each address in turn reports. -/
def selectEvents : List Text → Document → List Event
  | [], _ => []
  | address :: addresses, d =>
    .filtering ::
      match Address.parse address with
      | .error _ => []
      | .ok a =>
        Body.lookupEvents d.body a ++
          match d.select address with
          | .error _ => []
          | .ok d' => selectEvents addresses d'

/-- What the query reports on the source, up to its end or its failure. -/
def events (q : Query) (source : Text) : List Event :=
  match Document.parse q.filename source with
  | .error _ => []
  | .ok d =>
    .parsed d.filename (Body.tokens d.body).length d.body.length :: selectEvents q.addresses d

end Query

end HclQuery
