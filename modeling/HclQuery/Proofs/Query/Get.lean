/-
  What a query for one attribute writes.

  The query does not print the attribute that a look-up finds. It copies the expression into a
  document of its own, under the whole address as the name, and looks that copy up by its name.
  The copy has the same value (`valueOf_select`), so what is written agrees with the look-up in
  every format: `get_agrees_with_lookup`.
-/
import HclQuery.Proofs.Answer.JsonDecoding
import HclQuery.Proofs.Document.Assignment
import HclQuery.Query

namespace HclQuery

/-! ## Attributes that are found -/

namespace Body

theorem findAttribute_of_ne_nil {address : Text} (h : address ≠ []) (body : Body) :
    findAttribute body address = .ok (lookup body (Address.ofText address)) := by
  unfold findAttribute Address.parse
  rw [if_neg (by simpa using h)]
  rfl

/-- What a look-up finds lies somewhere in the body. -/
theorem exists_site_of_lookup {body : Body} {address : Address} {a : Attribute}
    (h : (lookup body address).attribute? = some a) : ∃ s : Site body, s.attr = a := by
  rw [lookup_eq] at h
  cases hfound : (owners body address.way).findSome? (Place.attribute? · address.name) with
  | none =>
    rw [hfound] at h
    cases h
  | some found =>
    obtain ⟨s, -, -, rfl⟩ := exists_first_site hfound
    rw [hfound] at h
    exact ⟨s, Option.some.inj h⟩

end Body

/-! ## The copy of an attribute -/

theorem Body.attribute?_setAttribute_nil (name : Text) (expr : List Token) :
    attribute? (setAttribute name expr []) name = some (.ofExpr name expr) := by
  simp [attribute?, attributes, setAttribute, put, Item.attribute?, Attribute.ofExpr]

namespace Document

variable {filename : String} {source address : Text} {d : Document}

theorem select_of_ne_nil (h : address ≠ []) (d : Document) :
    d.select address = .ok
      { d with
        body :=
          match (d.body.lookup (Address.ofText address)).attribute? with
          | some a => Body.setAttribute address a.exprTokens []
          | none => [] } := by
  rw [select, Body.findAttribute_of_ne_nil h]
  rfl

/-- The copy is found by its name, and has the value of the attribute that was copied. -/
theorem valueOf_setAttribute (h : parse filename source = .ok d) (s : Site d.body) (name : Text) :
    ∃ v, s.attr.value = .ok v ∧
      valueOf name { d with body := Body.setAttribute name s.attr.exprTokens [] } =
        .ok (some v) := by
  obtain ⟨hvalue, hwell, t, ts, hexpr, -⟩ := value_of_site h s
  have hcopy : (Attribute.ofExpr name s.attr.exprTokens).value =
      .ok (Attribute.textBefore s.attr.exprTokens) := by
    refine Attribute.value_ofExpr name fun u hu => ?_
    rw [hexpr] at hu
    obtain rfl : t = u := Option.some.inj hu
    exact hwell.leading t (by rw [hexpr]; exact List.mem_cons_self)
  refine ⟨_, hvalue, ?_⟩
  rw [valueOf, Body.attribute?_setAttribute_nil]
  dsimp only
  rw [hcopy]
  rfl

/-- Reducing a document to an address that is found leaves the value at it. -/
theorem valueOf_select_of_found {a : Attribute} (h : parse filename source = .ok d)
    (hne : address ≠ [])
    (hfound : (d.body.lookup (Address.ofText address)).attribute? = some a) :
    ∃ v d', a.value = .ok v ∧ d.select address = .ok d' ∧ d'.valueOf address = .ok (some v) := by
  obtain ⟨s, rfl⟩ := Body.exists_site_of_lookup hfound
  obtain ⟨v, hv, hcopy⟩ := valueOf_setAttribute h s address
  refine ⟨v, _, hv, select_of_ne_nil hne d, ?_⟩
  rw [hfound]
  exact hcopy

/-- Reducing a document to any other address leaves nothing. -/
theorem select_of_absent (hne : address ≠ [])
    (habsent : (d.body.lookup (Address.ofText address)).attribute? = none) :
    d.select address = .ok { d with body := [] } := by
  rw [select_of_ne_nil hne, habsent]

end Document

/-! ## What is written -/

namespace Query

open Document

variable {filename : String} {source address : Text} {d d' : Document}

theorem run_get (h : parse filename source = .ok d) (hselect : d.select address = .ok d')
    (format : Format) :
    (get filename address format).run source = (Output.one address format).write d' := by
  rw [run, get, h]
  dsimp only
  rw [selectAll, hselect]
  rfl

/-- What the query writes of an attribute that the look-up does not find. -/
structure WritesNothing (filename : String) (address source : Text) : Prop where
  value : (get filename address .value).run source = .ok []
  hcl : (get filename address .hcl).run source = .ok []
  json : (get filename address .json).run source = .ok (Answer.json ⟨address, none⟩ ++ ['\n'])
  yaml : (get filename address .yaml).run source = .ok (Answer.yaml ⟨address, none⟩)

/-- What the query writes of an attribute whose value is `v`. -/
structure WritesValue (filename : String) (address source v : Text) : Prop where
  value : (get filename address .value).run source = .ok (v ++ ['\n'])
  json : (get filename address .json).run source = .ok (Answer.json ⟨address, some v⟩ ++ ['\n'])
  yaml : (get filename address .yaml).run source = .ok (Answer.yaml ⟨address, some v⟩)

theorem writesNothing_of_absent (h : parse filename source = .ok d) (hne : address ≠ [])
    (habsent : (d.body.lookup (Address.ofText address)).attribute? = none) :
    WritesNothing filename address source := by
  have hwrite := run_get h (select_of_absent hne habsent)
  constructor
  · rw [hwrite]
    rfl
  · rw [hwrite]
    rfl
  · rw [hwrite]
    rfl
  · rw [hwrite]
    rfl

theorem writesValue_of_found {a : Attribute} (h : parse filename source = .ok d)
    (hne : address ≠ [])
    (hfound : (d.body.lookup (Address.ofText address)).attribute? = some a) :
    ∃ v, a.value = .ok v ∧ WritesValue filename address source v := by
  obtain ⟨v, d', hv, hselect, hvalue⟩ := valueOf_select_of_found h hne hfound
  have hwrite := run_get h hselect
  refine ⟨v, hv, ?_, ?_, ?_⟩
  · rw [hwrite, Output.write, hvalue]
    rfl
  · rw [hwrite, Output.write, hvalue]
    rfl
  · rw [hwrite, Output.write, hvalue]
    rfl

/-- Where look-ups find the same value, or both nothing, the same is written in every format but
    HCL, which also holds the comments. -/
theorem run_congr {source' : Text} (h : parse filename source = .ok d)
    (h' : parse filename source' = .ok d') (hne : address ≠ [])
    (hsame : Option.Rel (fun x y => x.value = y.value)
      (d.body.lookup (Address.ofText address)).attribute?
      (d'.body.lookup (Address.ofText address)).attribute?)
    {format : Format} (hformat : format ≠ .hcl) :
    ∃ out, (get filename address format).run source = .ok out ∧
      (get filename address format).run source' = .ok out := by
  generalize hx : (d.body.lookup (Address.ofText address)).attribute? = x at hsame
  generalize hy : (d'.body.lookup (Address.ofText address)).attribute? = y at hsame
  cases hsame with
  | none =>
    have hwrites := writesNothing_of_absent h hne hx
    have hwrites' := writesNothing_of_absent h' hne hy
    cases format with
    | value => exact ⟨_, hwrites.value, hwrites'.value⟩
    | hcl => exact absurd rfl hformat
    | json => exact ⟨_, hwrites.json, hwrites'.json⟩
    | yaml => exact ⟨_, hwrites.yaml, hwrites'.yaml⟩
  | some hxy =>
    obtain ⟨v, hv, hwrites⟩ := writesValue_of_found h hne hx
    obtain ⟨v', hv', hwrites'⟩ := writesValue_of_found h' hne hy
    obtain rfl : v = v' := Except.ok.inj (hv.symm.trans (hxy.trans hv'))
    cases format with
    | value => exact ⟨_, hwrites.value, hwrites'.value⟩
    | hcl => exact absurd rfl hformat
    | json => exact ⟨_, hwrites.json, hwrites'.json⟩
    | yaml => exact ⟨_, hwrites.yaml, hwrites'.yaml⟩

/-- The query for one attribute agrees with the look-up in every format. Where the look-up finds
    nothing, the value and the HCL are empty, and the mappings hold no value. Where it finds an
    attribute, this has a value, and each format writes that value; what is written as JSON reads
    back as the mapping of the address to it. -/
theorem get_agrees_with_lookup (h : parse filename source = .ok d) (hne : address ≠ []) :
    ∃ found, d.body.findAttribute address = .ok found ∧
      ((found.attribute? = none ∧ WritesNothing filename address source ∧
          Json.decode (Answer.json ⟨address, none⟩) =
            some (.object [("address".toList, .string address), ("value".toList, .null)])) ∨
        ∃ a v, found.attribute? = some a ∧ a.value = .ok v ∧
          WritesValue filename address source v ∧
          Json.decode (Answer.json ⟨address, some v⟩) =
            some (.object [("address".toList, .string address), ("value".toList, .string v)])) := by
  refine ⟨_, Body.findAttribute_of_ne_nil hne d.body, ?_⟩
  cases hfound : (d.body.lookup (Address.ofText address)).attribute? with
  | none =>
    exact Or.inl ⟨rfl, writesNothing_of_absent h hne hfound, Json.decode_json ⟨address, none⟩⟩
  | some a =>
    obtain ⟨v, hv, hwrites⟩ := writesValue_of_found h hne hfound
    exact Or.inr ⟨a, v, rfl, hv, hwrites, Json.decode_json ⟨address, some v⟩⟩

/-- A value over two lines, in a block with a label. -/
theorem get_agrees_with_lookup_commentAndBlock :
    (∃ d, parse "a.tf" commentAndBlock = .ok d) ∧ "b.x.a".toList ≠ [] ∧
      WritesValue "a.tf" "b.x.a".toList commentAndBlock "[\n1]".toList := by
  obtain ⟨d, hd⟩ := exists_parse_commentAndBlock
  have hne : "b.x.a".toList ≠ [] := by decide
  have hrun : (get "a.tf" "b.x.a".toList .value).run commentAndBlock =
      .ok ("[\n1]".toList ++ ['\n']) := by
    decide +kernel
  refine ⟨⟨d, hd⟩, hne, ?_⟩
  obtain ⟨found, -, ⟨-, hnothing, -⟩ | ⟨a, v, -, -, hwrites, -⟩⟩ := get_agrees_with_lookup hd hne
  · rw [hnothing.value] at hrun
    cases hrun
  · rw [hwrites.value] at hrun
    obtain rfl : v = "[\n1]".toList := List.append_cancel_right (Except.ok.inj hrun)
    exact hwrites

end Query

end HclQuery
