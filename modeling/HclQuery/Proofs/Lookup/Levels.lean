/-
  Looking up in nested blocks of one type.

  The nested blocks are built from the outside in: each level is put last in the body that was put
  in before it (`levels_eq_foldl`). A look-up goes the same way. Blocks without labels leave all
  segments behind the type for what is inside, so one segment leads one level down
  (`matchingBlocks_levelsFrom_cons`). By induction on the segments a look-up comes as far as there
  are levels (`matchingBlocks_inside`) and not farther (`matchingBlocks_beyond`). Together:
  `findAttribute_levels`.
-/
import HclQuery.Proofs.Document.Copy
import HclQuery.Proofs.Query.Get
import HclQuery.Proofs.Text.Lines
import HclQuery.Sample

namespace HclQuery

/-! ## Addresses put together -/

theorem Address.ofText_dotted {way : List Text} {name : Text} (hway : ∀ s ∈ way, '.' ∉ s)
    (hname : '.' ∉ name) : ofText (dotted (way ++ [name])) = ⟨way, name⟩ := by
  refine ofText_eq (Text.splitAt_intercalate (by simp) fun s hs => ?_)
  rcases List.mem_append.mp hs with hs | hs
  · exact hway s hs
  · rw [List.mem_singleton.mp hs]
    exact hname

/-! ## How the levels are built -/

/-- What is put last in a body, or in the last of the blocks inside it, does not touch an attribute
    in front of them. -/
theorem Body.modifyAt_add_cons_attribute (item : Item) (path : List Nat) (a : Attribute)
    (items : Body) :
    modifyAt (add item) path (.attribute a :: items) =
      .attribute a :: modifyAt (add item) path items := by
  cases path with
  | nil => rfl
  | cons i path => cases i <;> rfl

namespace Sample

/-- The block of the `n`-th level, with so many levels inside it. -/
def level (n inside : Nat) : Block where
  shell := { type := levelType }
  body := .attribute (levelName n) :: levelsFrom (n + 1) inside

/-- The `n`-th level is put last in the body of the one around it. -/
def addLevel (body : Body) (n : Nat) : Body :=
  Body.modifyAt (Body.add (.block (level n 0).shell (level n 0).body)) (List.replicate (n - 1) 0)
    body

theorem levelsFrom_succ (n depth : Nat) :
    levelsFrom n (depth + 1) = [.block (level n depth).shell (level n depth).body] := rfl

theorem levelsFrom_concat (n depth : Nat) :
    levelsFrom n (depth + 1) =
      Body.modifyAt (Body.add (.block (level (n + depth) 0).shell (level (n + depth) 0).body))
        (List.replicate depth 0) (levelsFrom n depth) := by
  induction depth generalizing n with
  | zero => rfl
  | succ depth ih =>
    have hlevel : n + (depth + 1) = n + 1 + depth := by omega
    rw [levelsFrom_succ n (depth + 1), level, ih (n + 1), hlevel,
      ← Body.modifyAt_add_cons_attribute]
    rfl

/-- The levels are made one after the other, each inside the one before. -/
theorem levels_eq_foldl (d : Nat) : levels d = (List.range' 1 d).foldl addLevel [] := by
  induction d with
  | zero => rfl
  | succ d ih =>
    have hpath : 1 + d - 1 = d := by omega
    rw [List.range'_concat, List.foldl_append, ← ih, Nat.one_mul, List.foldl_cons, List.foldl_nil,
      addLevel, hpath]
    exact levelsFrom_concat 1 d

/-! ## What is written of the levels -/

/-- The line that is written of the `n`-th level. -/
def levelLine (n : Nat) : Text :=
  "name = \"level".toList ++ Nat.toDigits 10 n ++ ['"', '\n']

theorem sourceOf_levelName (n : Nat) : Token.sourceOf (levelName n).tokens = levelLine n := by
  have hstart : "name = \"level".toList =
      "name".toList ++ ' ' :: '=' :: ' ' :: '"' :: levelType := by decide
  unfold levelName levelLine
  generalize Nat.toDigits 10 n = digits
  rw [Attribute.sourceOf_ofExpr, hstart]
  simp [Token.copyText, Token.spaced]

theorem source_levelsFrom (n depth : Nat) :
    Body.source (levelsFrom n depth) = (List.range' n depth).flatMap levelLine := by
  induction depth generalizing n with
  | zero => rfl
  | succ depth ih =>
    have htokens : Body.tokens (levelsFrom n (depth + 1)) =
        (levelName n).tokens ++ Body.tokens (levelsFrom (n + 1) depth) := by
      simp [levelsFrom, Item.tokens]
    rw [Body.source, htokens, Token.sourceOf_append, sourceOf_levelName, List.range'_succ,
      List.flatMap_cons, ← ih]
    rfl

/-! ## What the levels say -/

/-- The quoted text of the `n`-th level. -/
def levelText (n : Nat) : Text :=
  '"' :: levelType ++ Nat.toDigits 10 n ++ ['"']

theorem value_levelName (n : Nat) : (levelName n).value = .ok (levelText n) := by
  have hquote : Unicode.isBlank '"' = false := by decide
  unfold levelName levelText
  generalize Nat.toDigits 10 n = digits
  rw [Attribute.value_ofExpr _ (by simp [Text.isBlank_space]), Attribute.textBefore,
    List.takeWhile_cons_of_pos (by simp), List.takeWhile_nil, Token.sourceOf_cons,
    Token.sourceOf_nil, List.append_nil, Text.strip_blank_append (by simp [Text.isBlank_space])]
  dsimp only
  rw [List.cons_append, List.cons_append, Text.strip_cons hquote, ← List.cons_append,
    Text.dropEndWhile_append_of_not rfl hquote]

/-! ## Going in -/

/-- The search in one block of this type is the search in that block. -/
theorem matchingBlocks_levelsFrom_succ (n depth : Nat) (rest : List Text) :
    Body.matchingBlocks (levelsFrom n (depth + 1)) levelType rest =
      Item.matchesAt 0 levelType rest (.block (level n depth).shell (level n depth).body) := by
  rw [Body.matchingBlocks, Body.matchesFrom_eq_flatMap]
  exact List.append_nil _

/-- The type alone leads to the first level. -/
theorem matchingBlocks_levelsFrom_nil (n depth : Nat) :
    Body.matchingBlocks (levelsFrom n (depth + 1)) levelType [] = [⟨[0], level n depth⟩] := by
  have htype : (level n depth).shell.type = levelType := rfl
  rw [matchingBlocks_levelsFrom_succ, Item.matchesAt, if_pos htype]
  rfl

/-- The type once more leads to what is inside the first level. -/
theorem matchingBlocks_levelsFrom_cons (n depth : Nat) (rest : List Text) :
    Body.matchingBlocks (levelsFrom n (depth + 1)) levelType (levelType :: rest) =
      (Body.matchingBlocks (levelsFrom (n + 1) depth) levelType rest).map (.under 0) := by
  have htype : (level n depth).shell.type = levelType := rfl
  have hfit : Fit.of (level n depth).shell.labels (levelType :: rest) =
      .inner levelType rest := Fit.of_append_cons [] levelType rest
  rw [matchingBlocks_levelsFrom_succ, Item.matchesAt, if_pos htype, hfit]
  -- The name of the level stands in front of the block inside it, and is no block.
  rfl

theorem matchingBlocks_inside (n j inside : Nat) :
    Body.matchingBlocks (levelsFrom n (inside + j + 1)) levelType (List.replicate j levelType) =
      [⟨List.replicate (j + 1) 0, level (n + j) inside⟩] := by
  induction j generalizing n with
  | zero => exact matchingBlocks_levelsFrom_nil n inside
  | succ j ih =>
    have hlevel : n + 1 + j = n + (j + 1) := by omega
    rw [List.replicate_succ, matchingBlocks_levelsFrom_cons, ← Nat.add_assoc, ih, hlevel]
    rfl

theorem matchingBlocks_beyond {depth j : Nat} (n : Nat) (h : depth ≤ j) :
    Body.matchingBlocks (levelsFrom n depth) levelType (List.replicate j levelType) = [] := by
  induction j generalizing n depth with
  | zero =>
    obtain rfl := Nat.le_zero.mp h
    rfl
  | succ j ih =>
    cases depth with
    | zero => rfl
    | succ depth =>
      rw [List.replicate_succ, matchingBlocks_levelsFrom_cons, ih _ (Nat.le_of_succ_le_succ h)]
      rfl

theorem at?_levelsFrom (n j inside : Nat) :
    Body.at? (levelsFrom n (inside + j + 1)) (List.replicate (j + 1) 0) =
      some (level (n + j) inside).body := by
  induction j generalizing n with
  | zero => rfl
  | succ j ih =>
    have hlevel : n + 1 + j = n + (j + 1) := by omega
    rw [← hlevel, ← ih (n + 1)]
    rfl

/-! ## Looking up -/

/-- The address of so many segments `level`, and `name` behind them. -/
def levelAddress (k : Nat) : Text :=
  Address.dotted (List.replicate k levelType ++ ["name".toList])

theorem ofText_levelAddress (k : Nat) :
    Address.ofText (levelAddress k) = ⟨List.replicate k levelType, "name".toList⟩ := by
  refine Address.ofText_dotted (fun s hs => ?_) (by decide)
  rw [List.eq_of_mem_replicate hs]
  decide

theorem levelAddress_ne_nil (k : Nat) : levelAddress k ≠ [] := by
  intro h
  have hname := congrArg Address.name (ofText_levelAddress k)
  rw [h] at hname
  cases hname

/-- In the nested blocks, an address of `k` segments `level` finds the name of the `k`-th level in
    the body that lies `k` blocks deep, and its value is the quoted text of that level. It finds
    nothing if there are not so many levels, and without a segment `level` it finds nothing in the
    body around the blocks. What is written of the blocks is a line for each level. -/
theorem findAttribute_levels (d k : Nat) :
    (1 ≤ k → k ≤ d →
      ∃ inner, Body.at? (levels d) (List.replicate k 0) = some inner ∧
        Body.findAttribute (levels d) (levelAddress k) =
          .ok (.found ⟨List.replicate k 0, inner⟩ (levelName k)) ∧
        (levelName k).value = .ok (levelText k)) ∧
    (d < k → Body.findAttribute (levels d) (levelAddress k) = .ok (.absent none)) ∧
    (k = 0 →
      Body.findAttribute (levels d) (levelAddress k) = .ok (.absent (some ⟨[], levels d⟩))) ∧
    Body.source (levels d) = (List.range' 1 d).flatMap levelLine := by
  rw [Body.findAttribute_of_ne_nil (levelAddress_ne_nil k), ofText_levelAddress]
  refine ⟨?_, ?_, ?_, source_levelsFrom 1 d⟩
  · intro hk hd
    obtain ⟨j, rfl⟩ := Nat.exists_eq_add_of_le' hk
    obtain ⟨inside, rfl⟩ := Nat.exists_eq_add_of_le' hd
    have hlevel : 1 + j = j + 1 := Nat.add_comm 1 j
    refine ⟨_, at?_levelsFrom 1 j inside, ?_, value_levelName (j + 1)⟩
    rw [levels, List.replicate_succ, Body.lookup]
    dsimp only
    rw [← Nat.add_assoc, matchingBlocks_inside, hlevel]
    rfl
  · intro hk
    obtain ⟨j, rfl⟩ := Nat.exists_eq_add_of_le' (Nat.one_le_of_lt hk)
    rw [levels, List.replicate_succ, Body.lookup]
    dsimp only
    rw [matchingBlocks_beyond 1 (Nat.lt_succ_iff.mp hk)]
    rfl
  · rintro rfl
    cases d <;> rfl

/-- Of three levels the second is found, with its name and all that is inside it; there is no
    fourth one. -/
theorem findAttribute_levels_three :
    (1 ≤ 2 ∧ 2 ≤ 3 ∧ ∃ inner, Body.at? (levels 3) [0, 0] = some inner ∧
      Body.findAttribute (levels 3) "level.level.name".toList =
        .ok (.found ⟨[0, 0], inner⟩ (levelName 2)) ∧
      (levelName 2).value = .ok "\"level2\"".toList) ∧
    (3 < 4 ∧ Body.findAttribute (levels 3) (levelAddress 4) = .ok (.absent none)) ∧
    Body.findAttribute (levels 3) "name".toList = .ok (.absent (some ⟨[], levels 3⟩)) := by
  have haddress : levelAddress 2 = "level.level.name".toList ∧ levelAddress 0 = "name".toList := by
    decide
  have htext : levelText 2 = "\"level2\"".toList := by decide
  rw [← haddress.1, ← haddress.2, ← htext]
  exact ⟨⟨by decide, by decide, (findAttribute_levels 3 2).1 (by decide) (by decide)⟩,
    ⟨by decide, (findAttribute_levels 3 4).2.1 (by decide)⟩, (findAttribute_levels 3 0).2.2.1 rfl⟩

end Sample

end HclQuery
