/-
  Documents on later lines.

  The lines of tokens are there for messages. Tokens that were moved down (`Token.shift`) are read
  as the same items, moved down as far (`ofTokens_shift`), and say the same values
  (`Attribute.value_shift`).
-/
import HclQuery.Document.Value
import HclQuery.Proofs.Document.Likeness
import HclQuery.Proofs.Token.Cutting

namespace HclQuery

/-! ## Trees on later lines -/

/-- The attribute, so many lines further down. -/
def Attribute.shift (k : Int) (a : Attribute) : Attribute :=
  { a with tokens := a.tokens.map (Token.shift k) }

/-- The shell, so many lines further down. -/
def Shell.shift (k : Int) (s : Shell) : Shell :=
  { s with opening := s.opening.map (Token.shift k), closing := s.closing.map (Token.shift k) }

mutual

/-- The item, so many lines further down. -/
def Item.shift (k : Int) : Item → Item
  | .attribute a => .attribute (a.shift k)
  | .block shell body => .block (shell.shift k) (Body.shift k body)
  | .trivia ts => .trivia (ts.map (Token.shift k))

/-- The body, so many lines further down. -/
def Body.shift (k : Int) : List Item → List Item
  | [] => []
  | item :: items => item.shift k :: Body.shift k items

end

theorem Token.alike_shift {k : Int} {t u : Token} (h : t.shift k = u) : t.Alike u := by
  subst h
  exact Token.alike_of_eq rfl rfl

section Shift

variable {k : Int}

theorem Token.sourceOf_shift (ts : List Token) : sourceOf (ts.map (shift k)) = sourceOf ts := by
  induction ts with
  | nil => rfl
  | cons t ts ih =>
    rw [List.map_cons, sourceOf_cons, sourceOf_cons, ih]
    rfl

theorem forall₂_shift {ts us : List Token} :
    List.Forall₂ (fun t u => t.shift k = u) ts us ↔ ts.map (Token.shift k) = us := by
  rw [← List.forall₂_eq_eq_eq, List.forall₂_map_left_iff]

theorem Attribute.Like.eq_shift {a b : Attribute} (h : a.Like (fun t u => t.shift k = u) b) :
    a.shift k = b := by
  cases b
  rw [Attribute.shift, forall₂_shift.mp h.tokens, h.name]

theorem Shell.Like.eq_shift {s t : Shell} (h : s.Like (fun t u => t.shift k = u) t) :
    s.shift k = t := by
  cases t
  rw [Shell.shift, forall₂_shift.mp h.opening, forall₂_shift.mp h.closing, h.type, h.labels]

theorem Attribute.like_shift (a : Attribute) : a.Like (fun t u => t.shift k = u) (a.shift k) :=
  ⟨rfl, forall₂_shift.mpr rfl⟩

theorem Shell.like_shift (s : Shell) : s.Like (fun t u => t.shift k = u) (s.shift k) :=
  ⟨rfl, rfl, forall₂_shift.mpr rfl, forall₂_shift.mpr rfl⟩

mutual

theorem Item.Like.eq_shift {x y : Item} (h : Item.Like (fun t u => t.shift k = u) x y) :
    x.shift k = y := by
  cases h with
  | «attribute» ha => rw [Item.shift, ha.eq_shift]
  | block hshell hbody => rw [Item.shift, hshell.eq_shift, hbody.eq_shift]
  | trivia hts => rw [Item.shift, forall₂_shift.mp hts]

theorem Body.Like.eq_shift {xs ys : Body} (h : Body.Like (fun t u => t.shift k = u) xs ys) :
    Body.shift k xs = ys := by
  cases h with
  | nil => rw [Body.shift]
  | cons hitem hrest => rw [Body.shift, hitem.eq_shift, hrest.eq_shift]

end

mutual

theorem Item.like_shift (x : Item) : Item.Like (fun t u => t.shift k = u) x (x.shift k) := by
  cases x with
  | «attribute» a => exact .attribute a.like_shift
  | block shell body => exact .block shell.like_shift (Body.like_shift body)
  | trivia ts => exact .trivia (forall₂_shift.mpr rfl)

theorem Body.like_shift (xs : List Item) :
    Body.Like (fun t u => t.shift k = u) xs (Body.shift k xs) := by
  cases xs with
  | nil => exact .nil
  | cons x xs => exact .cons x.like_shift (Body.like_shift xs)

end

/-- The value of an attribute does not depend on its lines. -/
theorem Attribute.value_shift (a : Attribute) : (a.shift k).value = a.value := by
  have hafter : (a.shift k).afterEqual? = a.afterEqual?.map (List.map (Token.shift k)) := by
    have hdrop : (a.shift k).tokens.dropWhile (·.kind ≠ .equal) =
        (a.tokens.dropWhile (·.kind ≠ .equal)).map (Token.shift k) :=
      List.dropWhile_map
    unfold afterEqual?
    rw [hdrop]
    cases a.tokens.dropWhile (·.kind ≠ .equal) <;> rfl
  unfold value
  rw [hafter]
  cases a.afterEqual? with
  | none => rfl
  | some ts =>
    dsimp only [Option.map_some]
    rw [List.takeWhile_map, Token.sourceOf_shift]
    rfl

end Shift

namespace Document

/-- Tokens on later lines are read as the same items there. -/
theorem ofTokens_shift {k : Int} {us : List Token} {body : Body} :
    ofTokens (us.map (Token.shift k)) = .ok body ↔
      ∃ b, ofTokens us = .ok b ∧ body = Body.shift k b := by
  have hshift : ∀ {b}, ofTokens us = .ok b →
      ofTokens (us.map (Token.shift k)) = .ok (Body.shift k b) := by
    intro b hb
    obtain ⟨b', hb', hlike⟩ :=
      like_of_ofTokens (fun t u => Token.alike_shift) (forall₂_shift.mpr rfl) hb
    rw [hb', hlike.eq_shift]
  constructor
  · intro h
    have hback : List.Forall₂ (fun t u => u.shift k = t) (us.map (Token.shift k)) us :=
      (forall₂_shift.mpr rfl).flip
    obtain ⟨b, hb, -⟩ := like_of_ofTokens (fun t u htu => by
      subst htu
      exact Token.alike_of_eq rfl rfl) hback h
    exact ⟨b, hb, Except.ok.inj (h.symm.trans (hshift hb))⟩
  · intro h
    obtain ⟨b, hb, rfl⟩ := h
    exact hshift hb

end Document

end HclQuery
