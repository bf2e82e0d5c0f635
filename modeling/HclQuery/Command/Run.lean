/-
  Answering a command line: what goes to the standard output and the standard error, and the exit
  status. It is 0 for an answer, help and version, 1 for a query that fails, 2 for a command line
  that is refused. The debug log adds records to the standard error and changes nothing else. A
  crash leaves no outcome.
-/
import HclQuery.Command.Arguments
import HclQuery.Source

namespace HclQuery.Command

/-- What a run leaves behind. -/
structure Outcome where
  exit : UInt32 := 0
  stdout : String := ""
  stderr : String := ""
  deriving DecidableEq

/-- The outcome of a command line that makes no request. -/
def Halt.outcome : Halt → Except Crash Outcome
  | help level => .ok { stdout := level.help }
  | version => .ok { stdout := versionLine }
  | refused level e =>
    .ok { exit := 2, stderr := level.usage ++ s!"{level.name}: error: {e.message}\n" }
  | crashed c => .error c

namespace Request

/-- The request is to be answered from the standard input. -/
def readsStdin (r : Request) : Bool :=
  r.file = ['-']

/-- The query that the request makes. -/
def query (r : Request) : Query :=
  .get (if r.readsStdin then unnamedSource else baseName r.file) r.address r.format

/-- What the request is answered from: the standard input, or what opening the path gave. -/
def input (r : Request) (opened : Text → Except OpenError (List UInt8)) (stdin : List UInt8) :
    Except OpenError (List UInt8) :=
  if r.readsStdin then .ok stdin else opened r.file

/-- The text that answers the request. -/
def answer (r : Request) (input : Except OpenError (List UInt8)) : Except FileError Text :=
  match sourceText r.file input with
  | .error e => .error e
  | .ok t => (r.query.run t).mapError .failed

/-- What answering the request reports, up to its end or its failure. -/
def steps (r : Request) (input : Except OpenError (List UInt8)) : List Event :=
  match sourceText r.file input with
  | .error _ => []
  | .ok t => r.query.events t

/-- What answering the request reports, a failure included. -/
def events (r : Request) (input : Except OpenError (List UInt8)) (trace : List String) :
    List Event :=
  match r.answer input with
  | .error _ => r.steps input ++ [.failed trace]
  | .ok _ => r.steps input

/-- The records of the debug log. -/
def log (r : Request) (input : Except OpenError (List UInt8)) (trace : List String) :
    List String :=
  (r.events input trace).map Event.record

/-- The outcome of the request, with the trace that the system gives for a failure. Every error is
    reported; a path that holds NUL is not even opened. -/
def outcome (r : Request) (debug : Bool) (input : Except OpenError (List UInt8))
    (trace : List String) : Except Crash Outcome :=
  if r.file.contains '\x00' then .error .nulInPath
  else
    let logged := if r.verbose || debug then String.join (r.log input trace) else ""
    match r.answer input with
    | .ok t => .ok { stdout := String.ofList t, stderr := logged }
    | .error e => .ok { exit := 1, stderr := logged ++ s!"Error: {e.message}\n" }

end Request

/-- The outcome of a command line. What opening a path gives, the bytes on the standard input, and
    the trace of a failure are for the system to say. -/
def outcome (words : List Text) (debug : Bool) (opened : Text → Except OpenError (List UInt8))
    (stdin : List UInt8) (trace : List String) : Except Crash Outcome :=
  match request words with
  | .error halt => halt.outcome
  | .ok r => r.outcome debug (r.input opened stdin) trace

/-- The outcome of a command line in a working directory, given the bytes on the standard input,
    with the traces left out. -/
def run (words : List Text) (debug : Bool) (directory : Directory) (stdin : List UInt8) :
    Except Crash Outcome :=
  outcome words debug directory.read stdin []

end HclQuery.Command
