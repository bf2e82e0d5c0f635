/-
  The HCL of an attribute, read back.

  What a query writes as HCL is the address and then text that, behind any name, reads back as one
  attribute with the expression that was found (`ReadsBack`). There is one exception: an expression
  that ends with `<<` and a marker, which anything but a line end follows in the source. The line
  end that is written behind it makes a heredoc of them (`readsBack_unless_hangsOpen`).
-/
import HclQuery.Proofs.Document.Copy
import HclQuery.Proofs.Query.Get

namespace HclQuery.Query

open Document

variable {filename : String} {source address : Text} {d : Document} {a : Attribute}

/-- The tokens are the same words, and but for those in front the same blanks are between them. -/
structure SameExpr (ts us : List Token) : Prop where
  kinds : ts.map (·.kind) = us.map (·.kind)
  texts : ts.map (·.text) = us.map (·.text)
  leadings : ts.tail.map (·.leading) = us.tail.map (·.leading)

theorem sameExpr_copy (k : Int) (ts : List Token) :
    SameExpr (Token.spaced (ts.map (Token.shift k))) ts := by
  cases ts with
  | nil => exact ⟨rfl, rfl, rfl⟩
  | cons t ts =>
    constructor <;> simp [Token.spaced, Token.shift, Function.comp_def]

/-- What is written as HCL is the address and text that, behind any name, is read as one attribute
    of that name with the same expression. -/
def ReadsBack (filename : String) (address source : Text) (a : Attribute) : Prop :=
  ∃ rest, (get filename address .hcl).run source = .ok (address ++ rest) ∧
    ∀ x, Token.IsName x → ∀ target, ∃ b,
      parse target (x ++ rest) = .ok ⟨[.attribute b], target⟩ ∧ b.name = x ∧
        SameExpr b.exprTokens a.exprTokens

/-- What is written as HCL is the address and the copy of the expression. -/
theorem run_hcl_of_found (h : parse filename source = .ok d) (hne : address ≠ [])
    (hfound : (d.body.lookup (Address.ofText address)).attribute? = some a) :
    (get filename address .hcl).run source = .ok (address ++ Token.copyText a.exprTokens) := by
  rw [run_get h (select_of_ne_nil hne d), hfound]
  rw [← Attribute.sourceOf_ofExpr]
  simp [Output.write, Document.source, Body.source, Body.setAttribute, Body.put, Item.tokens]

theorem ne_nil_of_findAttribute {body : Body} {found : Lookup}
    (h : body.findAttribute address = .ok found) : address ≠ [] := by
  rintro rfl
  cases h

/-- The attribute that is found reads back, unless its expression hangs open; what is written of
    such a one is no source under any name. -/
theorem readsBack_unless_hangsOpen {found : Lookup} (h : parse filename source = .ok d)
    (hfind : d.body.findAttribute address = .ok found) (ha : found.attribute? = some a) :
    (Token.hangsOpen a.exprTokens = false → ReadsBack filename address source a) ∧
      (Token.hangsOpen a.exprTokens = true →
        ∃ rest, (get filename address .hcl).run source = .ok (address ++ rest) ∧
          ∀ x, Token.IsName x → ∀ target, ∃ line marker,
            parse target (x ++ rest) = .error ⟨target, line, .unterminatedHeredoc marker⟩) := by
  have hne := ne_nil_of_findAttribute hfind
  obtain rfl : d.body.lookup (Address.ofText address) = found :=
    Except.ok.inj ((Body.findAttribute_of_ne_nil hne d.body).symm.trans hfind)
  obtain ⟨s, rfl⟩ := Body.exists_site_of_lookup ha
  have hwritten := run_hcl_of_found h hne ha
  refine ⟨fun hopen => ⟨_, hwritten, fun x hx target => ?_⟩,
    fun hopen => ⟨_, hwritten, fun x hx target => parse_copyText_hangsOpen h s hx hopen target⟩⟩
  obtain ⟨k, b, hb, hname, hexpr⟩ := parse_copyText h s hx hopen target
  exact ⟨b, hb, hname, by rw [hexpr]; exact sameExpr_copy k s.attr.exprTokens⟩

/-- The source holds an attribute at the address, and the test holds of it. -/
def finds (address source : Text) (test : Attribute → Bool) : Bool :=
  match parse unnamedSource source with
  | .error _ => false
  | .ok d => (d.body.lookup (Address.ofText address)).attribute?.any test

theorem exists_of_finds {test : Attribute → Bool} (h : finds address source test = true)
    (hne : address ≠ []) :
    ∃ d found a, parse unnamedSource source = .ok d ∧ d.body.findAttribute address = .ok found ∧
      found.attribute? = some a ∧ test a = true := by
  unfold finds at h
  cases hd : parse unnamedSource source with
  | error e =>
    rw [hd] at h
    cases h
  | ok d =>
    rw [hd] at h
    dsimp only at h
    cases ha : (d.body.lookup (Address.ofText address)).attribute? with
    | none =>
      rw [ha] at h
      cases h
    | some a =>
      rw [ha] at h
      exact ⟨d, _, a, rfl, Body.findAttribute_of_ne_nil hne d.body, ha, h⟩

/-- An expression over two lines, in front of a closing brace, reads back. -/
theorem readsBack_commentAndBlock :
    ∃ d found a, parse unnamedSource commentAndBlock = .ok d ∧
      d.body.findAttribute "b.x.a".toList = .ok found ∧ found.attribute? = some a ∧
      Token.hangsOpen a.exprTokens = false ∧
      ReadsBack unnamedSource "b.x.a".toList commentAndBlock a := by
  have hfinds : finds "b.x.a".toList commentAndBlock (!Token.hangsOpen ·.exprTokens) = true := by
    decide +kernel
  obtain ⟨d, found, a, hd, hfound, ha, hopen⟩ := exists_of_finds hfinds (by decide)
  have hclosed : Token.hangsOpen a.exprTokens = false := by simpa using hopen
  exact ⟨d, found, a, hd, hfound, ha, hclosed,
    (readsBack_unless_hangsOpen hd hfound ha).1 hclosed⟩

/-- Two operators and a name at the end of the input. -/
def openHeader : Text :=
  "a = x <<EOT".toList

theorem finds_openHeader : finds "a".toList openHeader (fun _ => true) = true := by
  decide +kernel

theorem run_openHeader :
    (get unnamedSource "a".toList .hcl).run openHeader =
      .ok ("a".toList ++ " = x <<EOT\n".toList) := by
  decide +kernel

theorem isName_a : Token.IsName "a".toList := by
  unfold Token.IsName
  decide +kernel

/-- The line end that is written makes a heredoc of the operators and the name. -/
theorem parse_written_openHeader :
    parse unnamedSource ("a".toList ++ " = x <<EOT\n".toList) =
      .error ⟨unnamedSource, 1, .unterminatedHeredoc "EOT".toList⟩ := by
  decide +kernel

/-- What is written does not read back, even under the name that it has. -/
theorem not_readsBack_openHeader :
    ∃ d found a, parse unnamedSource openHeader = .ok d ∧
      d.body.findAttribute "a".toList = .ok found ∧ found.attribute? = some a ∧
      ¬ ReadsBack unnamedSource "a".toList openHeader a := by
  obtain ⟨d, found, a, hd, hfound, ha, -⟩ := exists_of_finds finds_openHeader (by decide)
  refine ⟨d, found, a, hd, hfound, ha, ?_⟩
  intro hreads
  obtain ⟨rest, hrun, hreads⟩ := hreads
  obtain rfl : " = x <<EOT\n".toList = rest :=
    List.append_cancel_left (Except.ok.inj (run_openHeader.symm.trans hrun))
  obtain ⟨b, hb, -⟩ := hreads "a".toList isName_a unnamedSource
  rw [parse_written_openHeader] at hb
  cases hb

end HclQuery.Query
