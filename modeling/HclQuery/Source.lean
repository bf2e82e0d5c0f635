/-
  Sources in files: from the bytes of a file to text, and to a document. Bytes are strict UTF-8,
  a byte-order mark is kept, and every line break becomes a line feed.
-/
import HclQuery.Document.OfTokens
import HclQuery.Files
import HclQuery.Text.Utf8

namespace HclQuery

/-- Why a file gives no text, document or answer. -/
inductive FileError where
  | unopened (path : Text) (e : OpenError)
  | undecoded (e : Utf8.Error)
  | failed (failure : Failure)
  deriving DecidableEq

namespace FileError

/-- The words for an error. -/
def message : FileError → String
  | unopened path e => e.message path
  | undecoded e => e.message
  | failed failure => failure.message

/-- The words for an error where the file was to give a document: a missing file is called so. -/
def documentMessage : FileError → String
  | unopened path .notFound => s!"HCL file not found: {String.ofList path}"
  | e => e.message

end FileError

/-- The text in the bytes that opening the path gave. -/
def sourceText (path : Text) (input : Except OpenError (List UInt8)) : Except FileError Text :=
  match input with
  | .error e => .error (.unopened path e)
  | .ok bytes =>
    match Utf8.decode bytes with
    | .error e => .error (.undecoded e)
    | .ok t => .ok (Text.unifyBreaks t)

/-- The document in the file that the path leads to, named for the file. -/
def Directory.document (d : Directory) (path : Text) : Except FileError Document :=
  match sourceText path (d.read path) with
  | .error e => .error e
  | .ok t => (Document.parse (baseName path) t).mapError fun e => .failed (.unreadable e)

end HclQuery
