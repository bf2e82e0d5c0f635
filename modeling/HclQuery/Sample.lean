/-
  Sample documents: a source with the shapes that look-ups have to tell apart, and nested blocks
  of any depth that are built in memory.
-/
import HclQuery.Document.Edit
import HclQuery.Document.OfTokens

namespace HclQuery.Sample

/-- The lines of the sample source: blocks with labels, repeated blocks without, nested blocks,
    and a comment behind a value. -/
def lines : List String :=
  ["terraform \x7b",
   "  required_version = \">= 1.0\" # pinned",
   "  backend \"s3\" \x7b",
   "    bucket = \"state-bucket\"",
   "    region = \"us-east-1\"",
   "  \x7d",
   "\x7d",
   "",
   "provider \"aws\" \x7b",
   "  region = var.region",
   "\x7d",
   "",
   "resource \"aws_instance\" \"web\" \x7b",
   "  ami           = \"ami-123456\"",
   "  instance_type = \"t3.micro\"",
   "  tags = \x7b",
   "    Name = \"web\"",
   "  \x7d",
   "",
   "  provisioner \"local-exec\" \x7b",
   "    command = \"echo $\x7bself.private_ip\x7d\"",
   "  \x7d",
   "\x7d",
   "",
   "resource \"aws_instance\" \"db\" \x7b",
   "  ami           = \"ami-654321\"",
   "  instance_type = \"t3.large\"",
   "\x7d",
   "",
   "locals \x7b",
   "  env = \"dev\"",
   "\x7d",
   "",
   "locals \x7b",
   "  env    = \"prod\"",
   "  region = \"eu-west-1\"",
   "\x7d"]

/-- The sample source. -/
def source : Text :=
  lines.flatMap fun line => line.toList ++ ['\n']

/-- The sample source, read under the name `main.tf`. -/
def document : Except ParseError Document :=
  Document.parse "main.tf" source

/-- The type of the nested blocks. -/
def levelType : Text := "level".toList

/-- The attribute of the `n`-th level: its name is `name`, its value the quoted text `level<n>`. -/
def levelName (n : Nat) : Attribute :=
  .ofExpr "name".toList [⟨.string, '"' :: levelType ++ Nat.toDigits 10 n ++ ['"'], [' '], 1⟩]

/-- So many nested blocks without header tokens, the outermost of which is the `n`-th level. -/
def levelsFrom (n : Nat) : Nat → Body
  | 0 => []
  | depth + 1 =>
    [.block { type := levelType } (.attribute (levelName n) :: levelsFrom (n + 1) depth)]

/-- Nested blocks, one inside the other. -/
def levels (depth : Nat) : Body :=
  levelsFrom 1 depth

end HclQuery.Sample
