/-
  Files by name: a working directory that holds some files, and what opening a path in it gives.

  Names have components between slashes; every proper start of a file's name is a directory.
  Empty components and `.` stay where they are, `..` goes up. Of what lies outside the working
  directory nothing is known, so a name there is not found. The directory stands in for the files
  of a system where a run is computed: a command line may meet any other, with any error.
-/
import HclQuery.Text.Quoted

namespace HclQuery

/-- Why a path cannot be opened for reading. A path that holds the character NUL names nothing, and
    no system is asked for it. -/
inductive OpenError where
  | nul
  | notFound
  | notDirectory
  | isDirectory
  | nameTooLong
  | other (code : Nat) (description : String)
  deriving DecidableEq

/-- The words for a path that cannot be opened. -/
def OpenError.message (e : OpenError) (path : Text) : String :=
  match e with
  | nul => "embedded null byte"
  | notFound => numbered 2 "No such file or directory"
  | notDirectory => numbered 20 "Not a directory"
  | isDirectory => numbered 21 "Is a directory"
  | nameTooLong => numbered 36 "File name too long"
  | other code description => numbered code description
where
  /-- The words for an error of the system. -/
  numbered (code : Nat) (description : String) : String :=
    s!"[Errno {code}] {description}: {Text.quoted path}"

/-- The name of the file that a path leads to, without its directories. -/
def baseName (path : Text) : String :=
  String.ofList (Text.afterLast '/' path)

/-- A working directory: the names of its files, in components, and their contents. -/
structure Directory where
  files : List (List Text × List UInt8) := []

namespace Directory

/-- The greatest length of a name, in bytes. -/
def nameLimit : Nat := 255

/-- The greatest length of a path, in bytes. -/
def pathLimit : Nat := 4095

/-- How many bytes a text takes. -/
def byteLength (t : Text) : Nat :=
  (String.ofList t).utf8ByteSize

/-- The directory of files that are named by paths in it. -/
def ofFiles (files : List (Text × List UInt8)) : Directory where
  files := files.map fun f =>
    ((Text.splitAt '/' f.1).filter fun name => !name.isEmpty && name ≠ ['.'], f.2)

/-- The file of this name. -/
def file? (d : Directory) (name : List Text) : Option (List UInt8) :=
  (d.files.find? (·.1 = name)).map (·.2)

/-- Some file lies in the directory of this name. -/
def holdsDirectory (d : Directory) (name : List Text) : Bool :=
  d.files.any fun f => name.isPrefixOf f.1 && name.length < f.1.length

/-- A place on the way along a path: a directory inside the working directory, or one above it. -/
inductive Position where
  | inside (name : List Text)
  | outside

/-- The directory above. -/
def Position.up : Position → Position
  | inside [] => outside
  | inside name => inside name.dropLast
  | outside => outside

/-- Follows the components of a path from a directory on, and reads the file that they end at. -/
def follow (d : Directory) (here : Position) : List Text → Except OpenError (List UInt8)
  | [] => .error .isDirectory
  | name :: rest =>
    if name.isEmpty || name = ['.'] then d.follow here rest
    else if name = ['.', '.'] then d.follow here.up rest
    else if byteLength name > nameLimit then .error .nameTooLong
    else
      match here with
      | .outside => .error .notFound
      | .inside directory =>
        let path := directory ++ [name]
        match d.file? path with
        | some bytes => if rest.isEmpty then .ok bytes else .error .notDirectory
        | none =>
          if d.holdsDirectory path then d.follow (.inside path) rest else .error .notFound

/-- The bytes of the file that the path leads to. -/
def read (d : Directory) (path : Text) : Except OpenError (List UInt8) :=
  if path.contains '\x00' then .error .nul
  else if path.isEmpty then .error .notFound
  else if byteLength path > pathLimit then .error .nameTooLong
  else d.follow (if ['/'].isPrefixOf path then .outside else .inside []) (Text.splitAt '/' path)

end Directory

end HclQuery
