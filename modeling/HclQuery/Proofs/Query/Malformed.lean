/-
  Attributes without an `=`.

  A source has none, but a document that is built in memory may: no value can be told of them. A
  query does not get to see this. The expression of such an attribute is empty
  (`exprTokens_of_noEqual`), and the copy to which the document is reduced has an `=` of its own,
  so a value is always written (`render_of_lookup`): for an attribute without an `=` it is a blank
  line. Nothing is ever reported, which is right just where no such attribute is found:
  `render_malformed`. In a document that was read none is (`reportsMalformed_of_parse`).
-/
import HclQuery.Proofs.Document.Copy
import HclQuery.Proofs.Query.Failures

namespace HclQuery

theorem Attribute.exprTokens_of_noEqual {a : Attribute} (h : ∀ t ∈ a.tokens, t.kind ≠ .equal) :
    a.exprTokens = [] := by
  rw [exprTokens, afterEqual?_eq_none_iff.mpr h]

namespace Document

variable {address : Text} {d : Document}

/-! ## The value that is written -/

/-- The document is reduced to the address, and the value that is left is put on a line. -/
def render (address : Text) (d : Document) : Except Failure Text :=
  match d.select address with
  | .ok d' => (Output.one address .value).write d'
  | .error failure => .error failure

/-- The attribute that is looked up has no `=`. -/
def FindsMalformed (address : Text) (d : Document) : Prop :=
  ∃ found a, d.body.findAttribute address = .ok found ∧ found.attribute? = some a ∧
    ∀ t ∈ a.tokens, t.kind ≠ .equal

/-- A missing `=` is reported for just those attributes that have none. -/
def ReportsMalformed (address : Text) (d : Document) : Prop :=
  (∃ name, d.render address = .error (.noEqual name)) ↔ d.FindsMalformed address

/-- This is what a query for the value writes of a source that was read. -/
theorem run_get_value {filename : String} {source : Text} (h : parse filename source = .ok d) :
    (Query.get filename address .value).run source = d.render address := by
  rw [Query.run, Query.get, h, render]
  dsimp only
  rw [selectAll]
  cases d.select address <;> rfl

/-- Of what the look-up finds, the value of the copy is written. -/
theorem render_of_lookup (hne : address ≠ []) (d : Document) :
    d.render address = .ok (Output.valueLine
      ((d.body.lookup (Address.ofText address)).attribute?.map fun a =>
        Attribute.textBefore (Token.spaced a.exprTokens))) := by
  rw [render, select_of_ne_nil hne]
  dsimp only
  cases (d.body.lookup (Address.ofText address)).attribute? with
  | none => rfl
  | some a =>
    rw [Output.write, valueOf, Body.attribute?_setAttribute_nil]
    dsimp only
    rw [Attribute.value_ofExpr_eq]
    rfl

/-! ## What is reported -/

theorem findsMalformed_iff (hne : address ≠ []) :
    d.FindsMalformed address ↔
      ∃ a, (d.body.lookup (Address.ofText address)).attribute? = some a ∧
        ∀ t ∈ a.tokens, t.kind ≠ .equal := by
  rw [FindsMalformed, Body.findAttribute_of_ne_nil hne]
  constructor
  · intro ⟨found, a, hfound, ha, htokens⟩
    obtain rfl := Except.ok.inj hfound
    exact ⟨a, ha, htokens⟩
  · intro ⟨a, ha, htokens⟩
    exact ⟨_, a, rfl, ha, htokens⟩

/-- Nothing is ever reported, so this is right where no attribute without an `=` is found. -/
theorem reportsMalformed_iff (hne : address ≠ []) :
    d.ReportsMalformed address ↔ ¬ d.FindsMalformed address := by
  have hsilent : ¬ ∃ name, d.render address = .error (.noEqual name) := by
    intro ⟨name, h⟩
    rw [render_of_lookup hne] at h
    cases h
  exact iff_comm.trans (iff_false_right hsilent)

theorem reportsMalformed_of_parse {filename : String} {source : Text}
    (h : parse filename source = .ok d) (hne : address ≠ []) : d.ReportsMalformed address := by
  rw [reportsMalformed_iff hne, findsMalformed_iff hne]
  intro ⟨a, ha, htokens⟩
  obtain ⟨s, rfl⟩ := Body.exists_site_of_lookup ha
  obtain ⟨t, ht, hkind⟩ := assigns_of_parse h s
  exact htokens t ht hkind

/-- Whatever the document, the value at an address is written and nothing is reported: nothing is
    written if no attribute is found, the text of its expression if it has an `=`, and a blank
    line if it has none. Of a source the same is written by the query, and rightly so. -/
theorem render_malformed (hne : address ≠ []) (d : Document) :
    (∃ found, d.body.findAttribute address = .ok found ∧
      d.render address = .ok (Output.valueLine
        (found.attribute?.map fun a => Attribute.textBefore (Token.spaced a.exprTokens)))) ∧
    (d.FindsMalformed address → d.render address = .ok ['\n']) ∧
    (d.ReportsMalformed address ↔ ¬ d.FindsMalformed address) ∧
    ∀ filename source, parse filename source = .ok d →
      (Query.get filename address .value).run source = d.render address ∧
        d.ReportsMalformed address := by
  refine ⟨⟨_, Body.findAttribute_of_ne_nil hne d.body, render_of_lookup hne d⟩, ?_,
    reportsMalformed_iff hne,
    fun filename source h => ⟨run_get_value h, reportsMalformed_of_parse h hne⟩⟩
  intro hfinds
  obtain ⟨a, ha, htokens⟩ := (findsMalformed_iff hne).mp hfinds
  rw [render_of_lookup hne, ha, Option.map_some, Attribute.exprTokens_of_noEqual htokens]
  rfl

/-- A line that holds nothing but a name. -/
def bareName : Document where
  body := [.attribute ⟨['a'], [⟨.ident, ['a'], [], 1⟩, ⟨.newline, ['\n'], [], 1⟩]⟩]

theorem findsMalformed_bareName : bareName.FindsMalformed ['a'] := by
  refine ⟨_, _, rfl, rfl, ?_⟩
  simp

theorem render_malformed_bareName :
    ['a'] ≠ [] ∧ bareName.FindsMalformed ['a'] ∧ bareName.render ['a'] = .ok ['\n'] := by
  have hne : ['a'] ≠ [] := by decide
  exact ⟨hne, findsMalformed_bareName, (render_malformed hne bareName).2.1 findsMalformed_bareName⟩

/-- The name has no value, but a blank line is written for it. -/
theorem not_reportsMalformed_bareName : ¬ bareName.ReportsMalformed ['a'] := by
  intro h
  obtain ⟨name, hreported⟩ := h.mpr findsMalformed_bareName
  cases hreported

end Document

end HclQuery
