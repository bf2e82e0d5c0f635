/-
  The debug log: what reading, looking up and filtering report on their way, in order. The log
  runs beside the results and never changes them.

  A record starts with the mark of the log. What is quoted in it shows no line feed, but the name of
  the source and the dotted address stand in it as they are, and the record of a failure goes on
  with the lines of its trace.
-/
import HclQuery.Lookup

namespace HclQuery

/-- Something worth a record in the log. -/
inductive Event where
  /-- A source was read. -/
  | parsed (filename : String) (tokens items : Nat)
  /-- A document is about to be reduced to one attribute. -/
  | filtering
  /-- So many blocks have the type that the segments start with. -/
  | searched (type : Text) (rest : List Text) (count : Nat)
  /-- A block is left out for its labels. -/
  | skipped (shell : Shell) (segments : List Text)
  /-- The search goes on inside a block. -/
  | entered (shell : Shell) (segments : List Text)
  /-- None of the blocks that were found has the attribute. -/
  | noAttribute (name : Text) (count : Nat)
  /-- The query has failed. The lines of the trace say where in the program, in the words of the
      system that runs it. -/
  | failed (trace : List String)
  deriving DecidableEq

namespace Event

open Text in
/-- The words for an event. -/
def message : Event → String
  | parsed filename tokens items =>
    s!"parsed {filename}: {tokens} tokens, {items} top-level items"
  | filtering => "apply filter AttributeGet"
  | searched type rest count =>
    s!"address {String.ofList (Address.dotted (type :: rest))}: " ++
      s!"{count} block(s) of type {quoted type}"
  | skipped shell segments =>
    s!"skip {String.ofList shell.type} {quotedList shell.labels}: " ++
      s!"labels do not match {quotedList segments}"
  | entered shell segments =>
    s!"descend into {String.ofList shell.type} {quotedList shell.labels} " ++
      s!"with {quotedList segments}"
  | noAttribute name count => s!"no attribute {quoted name} in {count} matched block(s)"
  | failed trace => String.intercalate "\n" ("attribute get failed" :: trace)

/-- What the log prints for an event. -/
def record (e : Event) : String :=
  s!"[DEBUG] {e.message}\n"

end Event

/-- The report on how many blocks in the body have the type that the segments start with. -/
def Body.searched (body : Body) (type : Text) (rest : List Text) : Event :=
  .searched type rest (body.blocksOfType type).length

mutual

/-- What the search for the segments `type :: rest` reports on an item. -/
def Item.events (type : Text) (rest : List Text) : Item → List Event
  | .block shell body =>
    if shell.type = type && !rest.isEmpty then
      match Fit.of shell.labels rest with
      | .mismatch => [.skipped shell rest]
      | .whole => []
      | .inner type rest =>
        .entered shell (type :: rest) :: Body.searched body type rest ::
          Body.eventsAmong type rest body
    else []
  | _ => []

/-- What the search for the segments `type :: rest` reports on the items, one after the other. -/
def Body.eventsAmong (type : Text) (rest : List Text) : List Item → List Event
  | [] => []
  | item :: items => item.events type rest ++ Body.eventsAmong type rest items

end

namespace Body

/-- What the search for the segments `type :: rest` reports. -/
def matchingEvents (body : Body) (type : Text) (rest : List Text) : List Event :=
  searched body type rest :: eventsAmong type rest body

/-- What looking up the address reports. -/
def lookupEvents (body : Body) (address : Address) : List Event :=
  match address.way with
  | [] => []
  | type :: rest =>
    let blocks := matchingBlocks body type rest
    let missed :=
      match lookup body address with
      | .absent _ => if blocks.isEmpty then [] else [.noAttribute address.name blocks.length]
      | .found _ _ => []
    matchingEvents body type rest ++ missed

end Body

end HclQuery
