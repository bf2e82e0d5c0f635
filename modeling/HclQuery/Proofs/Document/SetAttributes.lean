/-
  A body after any number of settings.

  A setting gives a name an expression: in the place of the first attribute of the name, or on a
  new last line (`Body.put`). What a run of settings leaves is told by the expression that each
  name was given last (`lastExpr?`) and by the names that the body lacked, each where it was first
  set (`newNames`). One more setting changes one item or adds one, so by induction from the first
  setting to the last the whole body is known (`setAll_eq`), and so is what a look-up by name
  answers (`attribute?_setAll`). Together: `setAll_updates`.
-/
import Mathlib.Data.List.Induction
import Mathlib.Data.List.Nodup
import HclQuery.Proofs.Document.Assignment

namespace HclQuery

/-- A name, and the expression that it is given. -/
structure Setting where
  name : Text
  expr : List Token

/-! ## The expression of an attribute that was set -/

theorem Attribute.exprTokens_ofExpr (name : Text) (expr : List Token) :
    (ofExpr name expr).exprTokens = expr.modifyHead ({ · with leading := [' '] }) := by
  rw [exprTokens, afterEqual?_ofExpr]
  exact withoutLineEnd_append_newline rfl _

/-! ## One setting -/

theorem Item.eq_of_isNamed {item : Item} {m n : Text} (hm : item.isNamed m = true)
    (hn : item.isNamed n = true) : m = n := by
  cases item with
  | «attribute» a =>
    simp only [isNamed, decide_eq_true_eq] at hm hn
    rw [← hm, hn]
  | block shell body => cases hm
  | trivia ts => cases hm

namespace Body

variable {a : Attribute} {name : Text} {body : Body} {i : Nat}

theorem attribute?_cons_attribute (a : Attribute) (items : Body) (name : Text) :
    attribute? (.attribute a :: items) name =
      if a.name = name then some a else attribute? items name := by
  have hnamed : (Item.attribute a).isNamed name = true ↔ a.name = name := decide_eq_true_iff
  rw [attribute?_cons]
  by_cases h : a.name = name
  · rw [if_pos (hnamed.mpr h), if_pos h]
    rfl
  · rw [if_neg (hnamed.not.mpr h), if_neg h]

/-- Only the look-up of the name that is set has a new answer. -/
theorem attribute?_put (a : Attribute) (body : Body) (name : Text) :
    attribute? (put a body) name = if a.name = name then some a else attribute? body name := by
  induction body with
  | nil => exact attribute?_cons_attribute a [] name
  | cons item items ih =>
    rw [put]
    by_cases hnamed : item.isNamed a.name = true
    · rw [if_pos hnamed, attribute?_cons_attribute, attribute?_cons]
      by_cases h : a.name = name
      · rw [if_pos h, if_pos h]
      · have hother : ¬ item.isNamed name = true := fun hn => h (Item.eq_of_isNamed hnamed hn)
        rw [if_neg h, if_neg h, if_neg hother]
    · rw [if_neg hnamed, attribute?_cons, attribute?_cons, ih]
      by_cases h : a.name = name
      · rw [h] at hnamed
        rw [if_neg hnamed, if_pos h, if_pos h]
      · rw [if_neg h, if_neg h]

theorem attributeIndex?_cons (item : Item) (items : Body) (name : Text) :
    attributeIndex? (item :: items) name =
      if item.isNamed name then some 0 else (attributeIndex? items name).map (· + 1) :=
  List.findIdx?_cons

/-- An attribute is put in the place of the first one of its name. -/
theorem put_eq_set (h : attributeIndex? body a.name = some i) :
    put a body = body.set i (.attribute a) := by
  induction body generalizing i with
  | nil => cases h
  | cons item items ih =>
    rw [attributeIndex?_cons] at h
    rw [put]
    by_cases hnamed : item.isNamed a.name = true
    · rw [if_pos hnamed] at h
      obtain rfl : 0 = i := Option.some.inj h
      rw [if_pos hnamed, List.set_cons_zero]
    · rw [if_neg hnamed] at h
      obtain ⟨j, hj, rfl⟩ := Option.map_eq_some_iff.mp h
      rw [if_neg hnamed, List.set_cons_succ, ih hj]

/-- Behind a body without its name, an attribute is put into what follows. -/
theorem put_append (h : attributeIndex? body a.name = none) (items : Body) :
    put a (body ++ items) = body ++ put a items := by
  induction body with
  | nil => rfl
  | cons item body ih =>
    rw [attributeIndex?_cons] at h
    by_cases hnamed : item.isNamed a.name = true
    · rw [if_pos hnamed] at h
      cases h
    · rw [if_neg hnamed, Option.map_eq_none_iff] at h
      rw [List.cons_append, put, if_neg hnamed, ih h, List.cons_append]

/-- The place of a name depends on the names of the items only. -/
theorem attributeIndex?_congr {xs ys : Body}
    (h : xs.map (Item.isNamed name) = ys.map (Item.isNamed name)) :
    attributeIndex? xs name = attributeIndex? ys name := by
  have hid : ∀ zs : Body, attributeIndex? zs name = (zs.map (Item.isNamed name)).findIdx? id := by
    intro zs
    rw [List.findIdx?_map]
    rfl
  rw [hid, hid, h]

/-- A name that the body has keeps its place. -/
theorem attributeIndex?_put (a : Attribute) (h : attributeIndex? body name = some i) :
    attributeIndex? (put a body) name = some i := by
  induction body generalizing i with
  | nil => cases h
  | cons item items ih =>
    rw [attributeIndex?_cons] at h
    rw [put]
    by_cases hnamed : item.isNamed a.name = true
    · rw [if_pos hnamed, attributeIndex?_cons]
      by_cases hname : item.isNamed name = true
      · rw [if_pos hname] at h
        rw [if_pos (by simp [Item.isNamed, Item.eq_of_isNamed hnamed hname])]
        exact h
      · rw [if_neg hname] at h
        have hother : ¬ a.name = name := fun heq => hname (heq ▸ hnamed)
        rw [if_neg (by simp [Item.isNamed, hother])]
        exact h
    · rw [if_neg hnamed, attributeIndex?_cons]
      by_cases hname : item.isNamed name = true
      · rw [if_pos hname] at h ⊢
        exact h
      · rw [if_neg hname] at h ⊢
        obtain ⟨j, hj, rfl⟩ := Option.map_eq_some_iff.mp h
        rw [ih hj]
        rfl

/-! ## A run of settings -/

/-- The settings are made one after the other. -/
def setAll (body : Body) (settings : List Setting) : Body :=
  settings.foldl (fun body s => setAttribute s.name s.expr body) body

/-- The expression that the name is given last. -/
def lastExpr? (settings : List Setting) (name : Text) : Option (List Token) :=
  (settings.reverse.find? (·.name = name)).map Setting.expr

/-- The `i`-th item of the body after the settings: the first attribute of each name that is set
    has the expression that the name is given last, and every other item is as it was. -/
def revised (settings : List Setting) (body : Body) (i : Nat) : Item → Item
  | .attribute a =>
    if attributeIndex? body a.name = some i then
      match lastExpr? settings a.name with
      | some expr => .attribute (.ofExpr a.name expr)
      | none => .attribute a
    else .attribute a
  | item => item

/-- The names that are set and that the body lacks, in the order in which they are first set. -/
def newNames (settings : List Setting) (body : Body) : List Text :=
  ((settings.map Setting.name).filter fun n => (attributeIndex? body n).isNone).eraseDups

/-- The attributes that the settings add. -/
def added (settings : List Setting) (body : Body) : Body :=
  (newNames settings body).map fun n => .attribute (.ofExpr n ((lastExpr? settings n).getD []))

variable {settings : List Setting} {s : Setting}

theorem setAll_concat (body : Body) (settings : List Setting) (s : Setting) :
    setAll body (settings ++ [s]) = setAttribute s.name s.expr (setAll body settings) := by
  rw [setAll, List.foldl_append]
  rfl

theorem lastExpr?_concat (settings : List Setting) (s : Setting) (name : Text) :
    lastExpr? (settings ++ [s]) name =
      if s.name = name then some s.expr else lastExpr? settings name := by
  rw [lastExpr?, List.reverse_append, List.reverse_singleton, List.singleton_append,
    List.find?_cons]
  by_cases h : s.name = name <;> simp [lastExpr?, h]

theorem lastExpr?_eq_none (h : ∀ s ∈ settings, s.name ≠ name) :
    lastExpr? settings name = none := by
  rw [lastExpr?, Option.map_eq_none_iff, List.find?_eq_none]
  intro s hs
  simpa using h s (List.mem_reverse.mp hs)

theorem lastExpr?_of_last {before later : List Setting} {expr : List Token}
    (h : ∀ s ∈ later, s.name ≠ name) :
    lastExpr? (before ++ ⟨name, expr⟩ :: later) name = some expr := by
  have hlater : later.reverse.find? (·.name = name) = none := by
    rw [List.find?_eq_none]
    intro s hs
    simpa using h s (List.mem_reverse.mp hs)
  simp [lastExpr?, List.find?_append, hlater]

/-- A look-up by name answers with the expression that was set last, if there is one. -/
theorem attribute?_setAll (body : Body) (settings : List Setting) (name : Text) :
    attribute? (setAll body settings) name =
      ((lastExpr? settings name).map (Attribute.ofExpr name)).or (attribute? body name) := by
  induction settings using List.reverseRecOn with
  | nil => rfl
  | append_singleton settings s ih =>
    rw [setAll_concat, setAttribute, attribute?_put, ih, lastExpr?_concat]
    by_cases h : s.name = name
    · have hname : (Attribute.ofExpr s.name s.expr).name = name := h
      rw [if_pos hname, if_pos h, h]
      rfl
    · have hname : ¬ (Attribute.ofExpr s.name s.expr).name = name := h
      rw [if_neg hname, if_neg h]

theorem attributeIndex?_setAll (settings : List Setting)
    (h : attributeIndex? body name = some i) :
    attributeIndex? (setAll body settings) name = some i := by
  induction settings using List.reverseRecOn with
  | nil => exact h
  | append_singleton settings s ih =>
    rw [setAll_concat, setAttribute]
    exact attributeIndex?_put _ ih

/-! ## The items of the body -/

theorem isNamed_revised (settings : List Setting) (body : Body) (i : Nat) (item : Item)
    (name : Text) : (revised settings body i item).isNamed name = item.isNamed name := by
  cases item with
  | «attribute» a =>
    rw [revised]
    split
    · split <;> rfl
    · rfl
  | block shell inner => rfl
  | trivia ts => rfl

theorem attributeIndex?_mapIdx_revised (settings : List Setting) (body : Body) (name : Text) :
    attributeIndex? (body.mapIdx (revised settings body)) name = attributeIndex? body name := by
  apply attributeIndex?_congr
  apply List.ext_getElem?
  intro i
  rw [List.getElem?_map, List.getElem?_map, List.getElem?_mapIdx]
  cases body[i]? with
  | none => rfl
  | some item => exact congrArg some (isNamed_revised settings body i item name)

/-- One more setting makes no difference to the items that are not the first of its name. -/
theorem revised_concat_of_ne (h : attributeIndex? body s.name ≠ some i) (item : Item) :
    revised (settings ++ [s]) body i item = revised settings body i item := by
  cases item with
  | «attribute» a =>
    rw [revised, revised, lastExpr?_concat]
    by_cases hfirst : attributeIndex? body a.name = some i
    · have hother : ¬ s.name = a.name := fun heq => h (heq ▸ hfirst)
      rw [if_neg hother]
    · rw [if_neg hfirst, if_neg hfirst]
  | block shell inner => rfl
  | trivia ts => rfl

/-- The attribute that stands at the place of a name has the name. -/
theorem exists_attribute_of_attributeIndex? (h : attributeIndex? body name = some i) :
    ∃ a : Attribute, body[i]? = some (.attribute a) ∧ a.name = name := by
  obtain ⟨hlt, hnamed, -⟩ := List.findIdx?_eq_some_iff_getElem.mp h
  rw [List.getElem?_eq_getElem hlt]
  cases hitem : body[i] with
  | «attribute» a =>
    rw [hitem] at hnamed
    exact ⟨a, rfl, by simpa [Item.isNamed] using hnamed⟩
  | block shell inner =>
    rw [hitem] at hnamed
    cases hnamed
  | trivia ts =>
    rw [hitem] at hnamed
    cases hnamed

/-- One more setting of a name that the body has changes the item at its place. -/
theorem set_revised (settings : List Setting) (h : attributeIndex? body s.name = some i) :
    (body.mapIdx (revised settings body)).set i (.attribute (.ofExpr s.name s.expr)) =
      body.mapIdx (revised (settings ++ [s]) body) := by
  obtain ⟨a, hget, hname⟩ := exists_attribute_of_attributeIndex? h
  apply List.ext_getElem?
  intro j
  rw [List.getElem?_set, List.length_mapIdx, List.getElem?_mapIdx, List.getElem?_mapIdx]
  by_cases hij : i = j
  · subst hij
    have hlt : i < body.length := (List.getElem?_eq_some_iff.mp hget).1
    have hlast : lastExpr? (settings ++ [s]) a.name = some s.expr := by
      rw [lastExpr?_concat, if_pos hname.symm]
    rw [← hname] at h
    rw [if_pos rfl, if_pos hlt, hget, Option.map_some, revised, if_pos h, hlast, hname]
  · rw [if_neg hij]
    have hne : attributeIndex? body s.name ≠ some j := fun hj =>
      hij (Option.some.inj (h.symm.trans hj))
    cases body[j]? with
    | none => rfl
    | some item => exact congrArg some (revised_concat_of_ne hne item).symm

/-! ## The items behind it -/

theorem mem_newNames : name ∈ newNames settings body ↔
    (∃ s ∈ settings, s.name = name) ∧ attributeIndex? body name = none := by
  simp [newNames]

theorem eraseDups_concat (names : List Text) (name : Text) :
    (names ++ [name]).eraseDups =
      if name ∈ names then names.eraseDups else names.eraseDups ++ [name] := by
  rw [List.eraseDups_append]
  by_cases h : name ∈ names
  · simp [List.removeAll, h]
  · rw [if_neg h, List.removeAll, List.filter_cons_of_pos (by simp [h])]
    rfl

theorem nodup_eraseDups (names : List Text) : names.eraseDups.Nodup := by
  induction names using List.reverseRecOn with
  | nil => exact List.nodup_nil
  | append_singleton names name ih =>
    rw [eraseDups_concat]
    split
    · exact ih
    · rename_i h
      rw [← List.concat_eq_append, List.nodup_concat, List.mem_eraseDups]
      exact ⟨h, ih⟩

theorem newNames_concat (settings : List Setting) (s : Setting) (body : Body) :
    newNames (settings ++ [s]) body =
      if attributeIndex? body s.name = none ∧ s.name ∉ newNames settings body then
        newNames settings body ++ [s.name]
      else newNames settings body := by
  rw [newNames, List.map_append, List.filter_append]
  cases hindex : attributeIndex? body s.name with
  | some i =>
    have hnone : ([s].map Setting.name).filter (fun n => (attributeIndex? body n).isNone) = [] := by
      simp [hindex]
    rw [hnone, List.append_nil, if_neg (by simp)]
    rfl
  | none =>
    have hone : ([s].map Setting.name).filter (fun n => (attributeIndex? body n).isNone) =
        [s.name] := by simp [hindex]
    rw [hone, eraseDups_concat]
    by_cases h : s.name ∈ newNames settings body
    · rw [if_pos (List.mem_eraseDups.mp h), if_neg fun hnew => hnew.2 h]
      rfl
    · rw [if_neg (List.mem_eraseDups.not.mp h), if_pos ⟨rfl, h⟩]
      rfl

/-- Among attributes with different names, one is put in the place of that with its name. -/
theorem put_map_ofExpr {names : List Text} {expr : List Token} (exprOf : Text → List Token)
    (hnodup : names.Nodup) (hmem : name ∈ names) :
    put (.ofExpr name expr) (names.map fun n => .attribute (.ofExpr n (exprOf n))) =
      names.map fun n => .attribute (.ofExpr n (if name = n then expr else exprOf n)) := by
  induction names with
  | nil => cases hmem
  | cons m names ih =>
    obtain ⟨hm, hnodup⟩ := List.nodup_cons.mp hnodup
    rw [List.map_cons, List.map_cons, put]
    by_cases h : name = m
    · subst h
      have hsame : (Item.attribute (.ofExpr name (exprOf name))).isNamed
          (Attribute.ofExpr name expr).name = true := by simp [Item.isNamed, Attribute.ofExpr]
      have hrest : ∀ n ∈ names, (Item.attribute (.ofExpr n (exprOf n))) =
          .attribute (.ofExpr n (if name = n then expr else exprOf n)) := by
        intro n hn
        have hother : ¬ name = n := fun heq => hm (heq ▸ hn)
        rw [if_neg hother]
      rw [if_pos hsame, if_pos rfl, List.map_congr_left hrest]
    · have hother : ¬ (Item.attribute (.ofExpr m (exprOf m))).isNamed
          (Attribute.ofExpr name expr).name = true := by
        simp [Item.isNamed, Attribute.ofExpr, Ne.symm h]
      rw [if_neg hother, if_neg h, ih hnodup ((List.mem_cons.mp hmem).resolve_left h)]

/-- Behind attributes with other names an attribute comes last. -/
theorem put_map_ofExpr_of_not_mem {names : List Text} {expr : List Token}
    (exprOf : Text → List Token) (hmem : name ∉ names) :
    put (.ofExpr name expr) (names.map fun n => .attribute (.ofExpr n (exprOf n))) =
      (names.map fun n => .attribute (.ofExpr n (exprOf n))) ++ [.attribute (.ofExpr name expr)] := by
  have hindex : attributeIndex? (names.map fun n => .attribute (.ofExpr n (exprOf n)))
      (Attribute.ofExpr name expr).name = none := by
    rw [attributeIndex?, List.findIdx?_eq_none_iff]
    intro item hitem
    obtain ⟨n, hn, rfl⟩ := List.mem_map.mp hitem
    have hother : ¬ n = name := fun heq => hmem (heq ▸ hn)
    simp [Item.isNamed, Attribute.ofExpr, hother]
  have hput := put_append hindex []
  rw [List.append_nil] at hput
  exact hput

/-- One more setting of a name that the body lacks changes the attribute that was added for it, or
    adds one. -/
theorem put_added (settings : List Setting) (h : attributeIndex? body s.name = none) :
    put (.ofExpr s.name s.expr) (added settings body) = added (settings ++ [s]) body := by
  have hlast : ∀ n, (lastExpr? (settings ++ [s]) n).getD [] =
      if s.name = n then s.expr else (lastExpr? settings n).getD [] := by
    intro n
    rw [lastExpr?_concat]
    by_cases hn : s.name = n <;> simp [hn]
  simp only [added, newNames_concat, hlast]
  by_cases hmem : s.name ∈ newNames settings body
  · rw [if_neg fun hnew => hnew.2 hmem]
    exact put_map_ofExpr _ (nodup_eraseDups _) hmem
  · have hrest : ∀ n ∈ newNames settings body,
        (Item.attribute (.ofExpr n ((lastExpr? settings n).getD []))) =
          .attribute (.ofExpr n (if s.name = n then s.expr else (lastExpr? settings n).getD [])) := by
      intro n hn
      have hother : ¬ s.name = n := fun heq => hmem (heq ▸ hn)
      rw [if_neg hother]
    rw [if_pos ⟨h, hmem⟩, put_map_ofExpr_of_not_mem _ hmem, List.map_append,
      List.map_congr_left hrest, List.map_singleton, if_pos rfl]

/-- Settings of a name that the body has add nothing. -/
theorem added_concat (settings : List Setting) (h : attributeIndex? body s.name = some i) :
    added (settings ++ [s]) body = added settings body := by
  have hnew : ¬ (attributeIndex? body s.name = none ∧ s.name ∉ newNames settings body) := by
    simp [h]
  rw [added, newNames_concat, if_neg hnew, added]
  refine List.map_congr_left fun n hn => ?_
  have hother : ¬ s.name = n := by
    intro heq
    have hnone := (mem_newNames.mp hn).2
    rw [← heq, h] at hnone
    cases hnone
  rw [lastExpr?_concat, if_neg hother]

/-- The body after the settings: each item of it in its place, and the new attributes. -/
theorem setAll_eq (body : Body) (settings : List Setting) :
    setAll body settings = body.mapIdx (revised settings body) ++ added settings body := by
  induction settings using List.reverseRecOn with
  | nil =>
    have hsame : body.mapIdx (revised [] body) = body := by
      apply List.ext_getElem?
      intro i
      rw [List.getElem?_mapIdx]
      cases body[i]? with
      | none => rfl
      | some item => cases item <;> simp [revised, lastExpr?]
    rw [hsame]
    exact (List.append_nil body).symm
  | append_singleton settings s ih =>
    have hkept := attributeIndex?_mapIdx_revised settings body s.name
    rw [setAll_concat, setAttribute, ih]
    cases hindex : attributeIndex? body s.name with
    | none =>
      rw [hindex] at hkept
      have hsame : ∀ i, revised (settings ++ [s]) body i = revised settings body i := fun i =>
        funext fun item => revised_concat_of_ne (by rw [hindex]; simp) item
      rw [put_append hkept, put_added settings hindex, funext hsame]
    | some i =>
      have hplace : attributeIndex? (body.mapIdx (revised settings body) ++ added settings body)
          (Attribute.ofExpr s.name s.expr).name = some i := by
        rw [← ih]
        exact attributeIndex?_setAll settings hindex
      have hlt : i < (body.mapIdx (revised settings body)).length := by
        obtain ⟨a, hget, -⟩ := exists_attribute_of_attributeIndex? hindex
        rw [List.length_mapIdx]
        exact (List.getElem?_eq_some_iff.mp hget).1
      rw [put_eq_set hplace, List.set_append_left _ _ hlt, set_revised settings hindex,
        added_concat settings hindex]

/-- After any run of settings, a name that was set is found with the expression that it was given
    last, one space in front, and a name that was not set with the attribute that it had. Of the
    items only the first attribute of each name that was set is another, in the same place; the
    names that the body lacked follow, each once, in the order in which they were first set. -/
theorem setAll_updates (body : Body) (settings : List Setting) :
    (∀ before name expr later, settings = before ++ ⟨name, expr⟩ :: later →
      (∀ s ∈ later, s.name ≠ name) →
        ∃ a, attribute? (setAll body settings) name = some a ∧
          a.exprTokens = expr.modifyHead ({ · with leading := [' '] })) ∧
    (∀ name, (∀ s ∈ settings, s.name ≠ name) →
      attribute? (setAll body settings) name = attribute? body name) ∧
    setAll body settings = body.mapIdx (revised settings body) ++ added settings body ∧
    (newNames settings body).Nodup ∧
    ∀ name i, attributeIndex? body name = some i →
      attributeIndex? (setAll body settings) name = some i := by
  refine ⟨?_, ?_, setAll_eq body settings, nodup_eraseDups _,
    fun name i h => attributeIndex?_setAll settings h⟩
  · intro before name expr later hsettings hlater
    refine ⟨.ofExpr name expr, ?_, Attribute.exprTokens_ofExpr name expr⟩
    rw [attribute?_setAll, hsettings, lastExpr?_of_last hlater]
    rfl
  · intro name hname
    rw [attribute?_setAll, lastExpr?_eq_none hname]
    rfl

/-- Two attributes of one name with a line end between them. -/
def repeatedName : Body :=
  [.attribute ⟨['a'], []⟩, .trivia [⟨.newline, ['\n'], [], 1⟩], .attribute ⟨['a'], []⟩]

/-- A name that the body lacks, then one that it has twice, and the first of them again. -/
def threeSettings : List Setting :=
  [⟨['b'], [⟨.number, ['1'], [], 1⟩]⟩, ⟨['a'], []⟩, ⟨['b'], [⟨.number, ['2'], [], 1⟩]⟩]

/-- The name that is set twice has the later expression, one that is not set is not found, and the
    first of the repeated attributes keeps its place. -/
theorem setAll_updates_threeSettings :
    (threeSettings = threeSettings.take 2 ++ ⟨['b'], [⟨.number, ['2'], [], 1⟩]⟩ :: [] ∧
      (∀ s ∈ ([] : List Setting), s.name ≠ ['b']) ∧
      ∃ a, attribute? (setAll repeatedName threeSettings) ['b'] = some a ∧
        a.exprTokens = [⟨.number, ['2'], [' '], 1⟩]) ∧
    ((∀ s ∈ threeSettings, s.name ≠ ['c']) ∧
      attribute? (setAll repeatedName threeSettings) ['c'] = attribute? repeatedName ['c']) ∧
    attributeIndex? repeatedName ['a'] = some 0 ∧
      attributeIndex? (setAll repeatedName threeSettings) ['a'] = some 0 := by
  have hsplit : threeSettings =
      threeSettings.take 2 ++ ⟨['b'], [⟨.number, ['2'], [], 1⟩]⟩ :: [] := rfl
  have hlater : ∀ s ∈ ([] : List Setting), s.name ≠ ['b'] := by simp
  have hunset : ∀ s ∈ threeSettings, s.name ≠ ['c'] := by simp [threeSettings]
  have hindex : attributeIndex? repeatedName ['a'] = some 0 := rfl
  obtain ⟨hset, hother, -, -, hplace⟩ := setAll_updates repeatedName threeSettings
  exact ⟨⟨hsplit, hlater, hset _ _ _ _ hsplit hlater⟩, ⟨hunset, hother _ hunset⟩, hindex,
    hplace _ _ hindex⟩

example : setAll repeatedName threeSettings =
    [.attribute (.ofExpr ['a'] []), .trivia [⟨.newline, ['\n'], [], 1⟩], .attribute ⟨['a'], []⟩,
      .attribute (.ofExpr ['b'] [⟨.number, ['2'], [], 1⟩])] := by rfl

end Body

end HclQuery
