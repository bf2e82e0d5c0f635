/-
  How a query can end.

  Every attribute of a document that was read has an `=`, and so has every attribute of a document
  that was reduced to one (`assigns_of_parse`, `assigns_of_select`). So once a source is read, only
  an empty address can stop a query, wherever it stands among the addresses: no document is left
  whose attributes have no value (`run_cases`). A query writes once, behind its last stage, and
  leaves the writer as it was if it fails (`apply`, `apply_eq_run`). Together: `apply_eq_iff_ends`.
-/
import HclQuery.Proofs.Query.Get

namespace HclQuery

theorem Attribute.exists_value_iff {a : Attribute} :
    (∃ v, a.value = .ok v) ↔ ∃ t ∈ a.tokens, t.kind = .equal := by
  have hnone := afterEqual?_eq_none_iff (a := a)
  unfold value
  cases hafter : a.afterEqual? with
  | none =>
    refine iff_of_false (fun ⟨_, h⟩ => ?_) fun ⟨t, ht, hkind⟩ => hnone.mp hafter t ht hkind
    cases h
  | some ts =>
    refine iff_of_true ⟨_, rfl⟩ ?_
    by_contra hno
    rw [hnone.mpr fun t ht hkind => hno ⟨t, ht, hkind⟩] at hafter
    cases hafter

/-! ## Every attribute has an `=` -/

namespace Body

/-- Every attribute in the body, however deep, has an `=`. -/
def Assigns (body : Body) : Prop :=
  ∀ s : Site body, ∃ t ∈ s.attr.tokens, t.kind = .equal

/-- In a body without blocks, an attribute lies nowhere but directly in it. -/
theorem mem_of_site {body : Body} (h : ∀ item ∈ body, item.block? = none) (s : Site body) :
    Item.attribute s.attr ∈ body := by
  obtain ⟨front, place, chain, index, a, hencloses, hholds⟩ := s
  cases hencloses with
  | here => exact List.mem_of_getElem? hholds
  | inside hb _ => cases h _ (List.mem_of_getElem? hb)

theorem assigns_nil : Assigns [] := by
  intro s
  cases mem_of_site (by simp) s

theorem assigns_setAttribute (name : Text) (expr : List Token) :
    Assigns (setAttribute name expr []) := by
  intro s
  have hmem := mem_of_site (by simp [setAttribute, put, Item.block?]) s
  have hattr : s.attr = .ofExpr name expr := Item.attribute.inj (List.mem_singleton.mp hmem)
  rw [hattr]
  exact ⟨_, List.mem_cons_of_mem _ List.mem_cons_self, rfl⟩

/-- An attribute that is found by its name has a value. -/
theorem Assigns.exists_value {body : Body} (h : Assigns body) {name : Text} {a : Attribute}
    (ha : body.attribute? name = some a) : ∃ v, a.value = .ok v := by
  obtain ⟨item, hitem, hattr⟩ := List.mem_filterMap.mp (List.mem_of_find?_eq_some ha)
  cases item with
  | «attribute» b =>
    obtain rfl : b = a := Option.some.inj hattr
    obtain ⟨i, hi⟩ := List.getElem?_of_mem hitem
    exact Attribute.exists_value_iff.mpr (h ⟨[], [], [], i, b, .here, hi⟩)
  | block shell inner => cases hattr
  | trivia ts => cases hattr

end Body

/-! ## Stages that do not fail -/

namespace Document

theorem assigns_of_parse {filename : String} {source : Text} {d : Document}
    (h : parse filename source = .ok d) : d.body.Assigns :=
  fun s => Attribute.exists_value_iff.mp ⟨_, (value_of_site h s).1⟩

theorem assigns_of_select {address : Text} {d d' : Document} (h : d.select address = .ok d') :
    d'.body.Assigns := by
  unfold select at h
  obtain ⟨found, -, rfl⟩ := Except.map_eq_ok_iff.mp h
  dsimp only
  cases found.attribute? with
  | none => exact Body.assigns_nil
  | some a => exact Body.assigns_setAttribute address a.exprTokens

theorem exists_valueOf {d : Document} (h : d.body.Assigns) (name : Text) :
    ∃ v, d.valueOf name = .ok v := by
  unfold valueOf
  cases hfound : d.body.attribute? name with
  | none => exact ⟨none, rfl⟩
  | some a =>
    obtain ⟨v, hv⟩ := h.exists_value hfound
    dsimp only
    rw [hv]
    exact ⟨some v, rfl⟩

theorem exists_write {d : Document} (h : d.body.Assigns) (output : Output) :
    ∃ t, output.write d = .ok t := by
  cases output with
  | whole => exact ⟨_, rfl⟩
  | one address format =>
    obtain ⟨v, hv⟩ := exists_valueOf h address
    cases format with
    | hcl => exact ⟨_, rfl⟩
    | value => exact ⟨_, by rw [Output.write, hv]; rfl⟩
    | json => exact ⟨_, by rw [Output.write, hv]; rfl⟩
    | yaml => exact ⟨_, by rw [Output.write, hv]; rfl⟩

/-- An empty address stops the reduction, whatever the addresses before it have left. -/
theorem selectAll_of_mem {addresses : List Text} (h : [] ∈ addresses) (d : Document) :
    d.selectAll addresses = .error .emptyAddress := by
  induction addresses generalizing d with
  | nil => cases h
  | cons address addresses ih =>
    unfold selectAll
    by_cases hne : address = []
    · rw [hne]
      rfl
    · rw [select_of_ne_nil hne]
      exact ih ((List.mem_cons.mp h).resolve_left (Ne.symm hne)) _

/-- Nothing else stops it, and it leaves a document whose attributes have values. -/
theorem exists_selectAll {addresses : List Text} (h : [] ∉ addresses) {d : Document}
    (hd : d.body.Assigns) : ∃ d', d.selectAll addresses = .ok d' ∧ d'.body.Assigns := by
  induction addresses generalizing d with
  | nil => exact ⟨d, rfl, hd⟩
  | cons address addresses ih =>
    rw [List.mem_cons, not_or] at h
    have hselect := select_of_ne_nil (Ne.symm h.1) d
    rw [selectAll, hselect]
    -- Whatever the document was, the one that is left has nothing in it but a copy.
    exact ih h.2 (assigns_of_select hselect)

end Document

/-! ## Queries -/

namespace Query

variable {q : Query} {source : Text} {d d' : Document} {t : Text}

theorem run_of_unreadable {e : ParseError} (h : Document.parse q.filename source = .error e) :
    q.run source = .error (.unreadable e) := by
  rw [run, h]

theorem run_of_emptyAddress (h : Document.parse q.filename source = .ok d)
    (hempty : [] ∈ q.addresses) : q.run source = .error .emptyAddress := by
  rw [run, h]
  dsimp only
  rw [Document.selectAll_of_mem hempty]

theorem run_of_answer (h : Document.parse q.filename source = .ok d)
    (hselect : d.selectAll q.addresses = .ok d') (hwrite : q.output.write d' = .ok t) :
    q.run source = .ok t := by
  rw [run, h]
  dsimp only
  rw [hselect]
  exact hwrite

/-- The three ends of a query: the source cannot be read, an address is empty, or there is an
    answer. -/
theorem run_cases (q : Query) (source : Text) :
    (∃ e, Document.parse q.filename source = .error e) ∨
      (∃ d, Document.parse q.filename source = .ok d ∧ [] ∈ q.addresses) ∨
      ∃ d d' t, Document.parse q.filename source = .ok d ∧ [] ∉ q.addresses ∧
        d.selectAll q.addresses = .ok d' ∧ q.output.write d' = .ok t := by
  cases hparse : Document.parse q.filename source with
  | error e => exact Or.inl ⟨e, rfl⟩
  | ok d =>
    refine Or.inr ?_
    by_cases hempty : [] ∈ q.addresses
    · exact Or.inl ⟨d, rfl, hempty⟩
    · obtain ⟨d', hselect, hassigns⟩ :=
        Document.exists_selectAll hempty (Document.assigns_of_parse hparse)
      obtain ⟨t, hwrite⟩ := Document.exists_write hassigns q.output
      exact Or.inr ⟨d, d', t, rfl, hempty, hselect, hwrite⟩

/-! ## With a writer -/

/-- The query with a writer: the stages in order, each of which can fail, and at the end one write
    behind what is written already. -/
def apply (q : Query) (source : Text) : ExceptT Failure (StateM Text) Unit := do
  let mut d ← (Document.parse q.filename source).mapError Failure.unreadable
  for address in q.addresses do
    d ← d.select address
  let t ← q.output.write d
  modify (· ++ t)

/-- A stage that fails leaves the writer as it is, and one that does not hands its result on. -/
theorem run_lift_bind {α β : Type} (x : Except Failure α)
    (rest : α → ExceptT Failure (StateM Text) β) (written : Text) :
    ((liftM x : ExceptT Failure (StateM Text) α) >>= rest).run written =
      match x with
      | .ok a => (rest a).run written
      | .error failure => (.error failure, written) := by
  cases x <;> rfl

theorem forIn_select (addresses : List Text) (d : Document) :
    (forIn addresses d fun address d => do
        let d ← (liftM (d.select address) : ExceptT Failure (StateM Text) Document)
        pure (ForInStep.yield d)) = liftM (d.selectAll addresses) := by
  induction addresses generalizing d with
  | nil => rfl
  | cons address addresses ih =>
    rw [List.forIn_cons, Document.selectAll]
    cases d.select address with
    | error failure => rfl
    | ok d' => exact ih d'

theorem apply_eq_run (q : Query) (source written : Text) :
    (q.apply source).run written =
      match q.run source with
      | .ok t => (.ok (), written ++ t)
      | .error failure => (.error failure, written) := by
  simp only [apply, run, forIn_select, run_lift_bind]
  cases Document.parse q.filename source with
  | error e => rfl
  | ok d =>
    dsimp only [Except.mapError]
    cases d.selectAll q.addresses with
    | error failure => rfl
    | ok d' =>
      dsimp only
      cases q.output.write d' with
      | error failure => rfl
      | ok t => rfl

/-- How the query ends on the source, with what is then written where `written` was before. -/
inductive Ends (q : Query) (source written : Text) : Except Failure Unit × Text → Prop where
  /-- The source cannot be read, whatever the addresses are. -/
  | unreadable {e : ParseError} (h : Document.parse q.filename source = .error e) :
      Ends q source written (.error (.unreadable e), written)
  /-- The source is read, and one of the addresses is empty. -/
  | emptyAddress {d : Document} (h : Document.parse q.filename source = .ok d)
      (hempty : [] ∈ q.addresses) : Ends q source written (.error .emptyAddress, written)
  /-- The source is read, no address is empty, and the output of what is left is written. -/
  | answered {d d' : Document} {t : Text} (h : Document.parse q.filename source = .ok d)
      (hne : [] ∉ q.addresses) (hselect : d.selectAll q.addresses = .ok d')
      (hwrite : q.output.write d' = .ok t) : Ends q source written (.ok (), written ++ t)

/-- A query ends in exactly these ways: it fails as the source cannot be read, or else as one of the
    addresses is empty, and has then written nothing; or else it writes its output, and does not
    fail. -/
theorem apply_eq_iff_ends (q : Query) (source written : Text)
    (r : Except Failure Unit × Text) :
    (q.apply source).run written = r ↔ q.Ends source written r := by
  rw [apply_eq_run]
  constructor
  · rintro rfl
    obtain ⟨e, h⟩ | ⟨d, h, hempty⟩ | ⟨d, d', t, h, hne, hselect, hwrite⟩ := q.run_cases source
    · rw [run_of_unreadable h]
      exact .unreadable h
    · rw [run_of_emptyAddress h hempty]
      exact .emptyAddress h hempty
    · rw [run_of_answer h hselect hwrite]
      exact .answered h hne hselect hwrite
  · intro h
    cases h with
    | unreadable h => rw [run_of_unreadable h]
    | emptyAddress h hempty => rw [run_of_emptyAddress h hempty]
    | answered h _ hselect hwrite => rw [run_of_answer h hselect hwrite]

end Query

end HclQuery
