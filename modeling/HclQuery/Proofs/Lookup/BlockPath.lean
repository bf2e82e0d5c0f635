/-
  The blocks that a block address leads to.

  A block path of a body is a chain of blocks, the first directly in the body and each of the
  others directly in the one before it; its place says the how-manieth block each of them is
  among the blocks around it (`Leads`). Two addresses belong to a path: the types and labels of
  all its blocks (`fullAddress`), and the same without the labels of the last block
  (`shortAddress`).

  `findBlocks_leads`: a block address is never refused, and it leads to the last blocks of
  exactly the paths that it belongs to, each path once, in source order. In source order a place
  comes before another if it is smaller lexicographically.
-/
import HclQuery.Lookup

namespace HclQuery

/-! ## Block paths and their addresses -/

namespace Block

/-- The types and labels along a chain of blocks, outermost first. -/
def fullAddress (chain : List Block) : List Text :=
  chain.flatMap fun b => b.shell.type :: b.shell.labels

/-- The types and labels along a chain of blocks, without the labels of the last block. -/
def shortAddress : List Block → List Text
  | [] => []
  | [b] => [b.shell.type]
  | b :: c :: chain => b.shell.type :: b.shell.labels ++ shortAddress (c :: chain)

theorem fullAddress_cons (b : Block) (chain : List Block) :
    fullAddress (b :: chain) = b.shell.type :: (b.shell.labels ++ fullAddress chain) := by
  simp [fullAddress]

theorem shortAddress_cons_cons (b c : Block) (chain : List Block) :
    shortAddress (b :: c :: chain) =
      b.shell.type :: (b.shell.labels ++ shortAddress (c :: chain)) := by
  simp [shortAddress]

/-- The segments address the last block of the chain. -/
def Answers (segments : List Text) (chain : List Block) : Prop :=
  segments = shortAddress chain ∨ segments = fullAddress chain

theorem answers_nil {segments : List Text} : Answers segments [] ↔ segments = [] := by
  simp [Answers, shortAddress, fullAddress]

theorem answers_singleton {type : Text} {rest : List Text} {b : Block} :
    Answers (type :: rest) [b] ↔ type = b.shell.type ∧ (rest = [] ∨ rest = b.shell.labels) := by
  simp [Answers, shortAddress, fullAddress, and_or_left]

theorem answers_cons {type : Text} {rest : List Text} {b : Block} {chain : List Block}
    (h : chain ≠ []) :
    Answers (type :: rest) (b :: chain) ↔
      type = b.shell.type ∧ ∃ more, rest = b.shell.labels ++ more ∧ Answers more chain := by
  obtain ⟨c, chain, rfl⟩ := List.exists_cons_of_ne_nil h
  constructor
  · intro h
    rcases h with h | h
    · rw [shortAddress_cons_cons, List.cons.injEq] at h
      exact ⟨h.1, _, h.2, Or.inl rfl⟩
    · rw [fullAddress_cons, List.cons.injEq] at h
      exact ⟨h.1, _, h.2, Or.inr rfl⟩
  · intro h
    obtain ⟨rfl, more, rfl, rfl | rfl⟩ := h
    · exact Or.inl (shortAddress_cons_cons b c chain).symm
    · exact Or.inr (fullAddress_cons b (c :: chain)).symm

theorem ne_nil_of_answers {segments : List Text} {chain : List Block}
    (h : Answers segments chain) (hc : chain ≠ []) : segments ≠ [] := by
  intro heq
  subst heq
  obtain ⟨b, chain, rfl⟩ := List.exists_cons_of_ne_nil hc
  cases chain <;> simp [Answers, shortAddress, fullAddress] at h

/-- Two chains with one address that begin with the same block go on with one address, if one of
    them goes on at all. -/
theorem Answers.tail {segments : List Text} {b : Block} {chain chain' : List Block}
    (h : Answers segments (b :: chain)) (h' : Answers segments (b :: chain'))
    (hc' : chain' ≠ []) : ∃ more, Answers more chain ∧ Answers more chain' := by
  obtain ⟨type, rest, rfl⟩ := List.exists_cons_of_ne_nil (ne_nil_of_answers h' (by simp))
  obtain ⟨-, more, rfl, hmore⟩ := (answers_cons hc').mp h'
  by_cases hc : chain = []
  · subst hc
    obtain ⟨-, hend⟩ := answers_singleton.mp h
    have : more = [] := by
      rcases hend with hend | hend
      · exact (List.append_eq_nil_iff.mp hend).2
      · simpa using hend
    exact absurd this (ne_nil_of_answers hmore hc')
  · obtain ⟨-, more', heq, hmore'⟩ := (answers_cons hc).mp h
    obtain rfl := List.append_cancel_left heq
    exact ⟨more, hmore', hmore⟩

end Block

/-- `chain` is a block path of the body, and `place` is where it leads: the places of its blocks
    among the blocks around them, outermost first. -/
inductive Body.Leads : Body → List Nat → List Block → Prop where
  | last {body : Body} {i : Nat} {b : Block} (hb : (blocks body)[i]? = some b) :
      Leads body [i] [b]
  | inside {body : Body} {i : Nat} {b : Block} {place : List Nat} {chain : List Block}
      (hb : (blocks body)[i]? = some b) (h : Leads b.body place chain) :
      Leads body (i :: place) (b :: chain)

namespace Body.Leads

variable {body : Body} {place : List Nat} {chain : List Block}

theorem chain_ne_nil (h : Leads body place chain) : chain ≠ [] := by
  cases h <;> simp

end Body.Leads

/-! ## How segments fit labels -/

theorem matchingLabels_append (labels segments : List Text) :
    matchingLabels labels (labels ++ segments) = labels := by
  induction labels with
  | nil => simp [matchingLabels]
  | cons label labels ih => simp [matchingLabels, ih]

theorem length_matchingLabels_lt {labels segments : List Text} (h : ¬ labels <+: segments) :
    (matchingLabels labels segments).length < labels.length := by
  fun_induction matchingLabels labels segments with
  | case1 label labels segments ih =>
    have := ih (by simpa using h)
    simp only [List.length_cons]
    omega
  | case2 => simp
  | case3 labels segments hne =>
    cases labels with
    | nil => exact absurd List.nil_prefix h
    | cons label labels => simp

theorem Fit.of_self (labels : List Text) : Fit.of labels labels = whole := by
  have h := matchingLabels_append labels []
  rw [List.append_nil] at h
  simp [Fit.of, h]

theorem Fit.of_append_cons (labels : List Text) (type : Text) (rest : List Text) :
    Fit.of labels (labels ++ type :: rest) = inner type rest := by
  simp [Fit.of, matchingLabels_append]

theorem Fit.of_eq_mismatch {labels segments : List Text} (h : ¬ labels <+: segments) :
    Fit.of labels segments = mismatch := by
  simp [Fit.of, length_matchingLabels_lt h]

theorem Fit.of_eq_whole_iff {labels segments : List Text} :
    Fit.of labels segments = whole ↔ segments = labels := by
  constructor
  · intro h
    by_cases hp : labels <+: segments
    · obtain ⟨more, rfl⟩ := hp
      cases more with
      | nil => rw [List.append_nil]
      | cons type rest => rw [Fit.of_append_cons] at h; cases h
    · rw [Fit.of_eq_mismatch hp] at h; cases h
  · intro heq
    subst heq
    exact Fit.of_self segments

theorem Fit.of_eq_inner_iff {labels segments : List Text} {type : Text} {rest : List Text} :
    Fit.of labels segments = inner type rest ↔ segments = labels ++ type :: rest := by
  constructor
  · intro h
    by_cases hp : labels <+: segments
    · obtain ⟨more, rfl⟩ := hp
      cases more with
      | nil => rw [List.append_nil, Fit.of_self] at h; cases h
      | cons type' rest' => rw [Fit.of_append_cons] at h; cases h; rfl
    · rw [Fit.of_eq_mismatch hp] at h; cases h
  · intro heq
    subst heq
    exact Fit.of_append_cons labels type rest

/-! ## The matches in one block, and in a body -/

/-- The search in a body is the search in each of its blocks, one after the other. -/
theorem Body.matchesFrom_eq_flatMap (i : Nat) (type : Text) (rest : List Text) (body : Body) :
    matchesFrom i type rest body =
      ((blocks body).zipIdx i).flatMap fun b =>
        Item.matchesAt b.2 type rest (.block b.1.shell b.1.body) := by
  induction body generalizing i with
  | nil => rfl
  | cons item items ih =>
    unfold matchesFrom
    rw [ih]
    cases item <;> rfl

theorem Body.mem_matchingBlocks {body : Body} {type : Text} {rest : List Text} {m : BlockMatch} :
    m ∈ matchingBlocks body type rest ↔
      ∃ i b, (blocks body)[i]? = some b ∧
        m ∈ Item.matchesAt i type rest (.block b.shell b.body) := by
  unfold matchingBlocks
  rw [matchesFrom_eq_flatMap, List.mem_flatMap]
  constructor
  · intro h
    obtain ⟨⟨b, i⟩, hb, hm⟩ := h
    exact ⟨i, b, List.mk_mem_zipIdx_iff_getElem?.mp hb, hm⟩
  · intro h
    obtain ⟨i, b, hb, hm⟩ := h
    exact ⟨(b, i), List.mk_mem_zipIdx_iff_getElem?.mpr hb, hm⟩

/-- What the search finds in a block: the block itself, if the segments end with its type or with
    its labels, or what it finds in the body for the segments behind the labels. -/
theorem Item.mem_matchesAt_block {i : Nat} {type : Text} {rest : List Text} {b : Block}
    {m : BlockMatch} :
    m ∈ Item.matchesAt i type rest (.block b.shell b.body) ↔
      type = b.shell.type ∧
        (((rest = [] ∨ rest = b.shell.labels) ∧ m = ⟨[i], b⟩) ∨
          ∃ type' rest' m', rest = b.shell.labels ++ type' :: rest' ∧
            m' ∈ Body.matchingBlocks b.body type' rest' ∧ m = m'.under i) := by
  unfold Item.matchesAt
  by_cases htype : b.shell.type = type
  · by_cases hrest : rest = []
    · subst hrest
      simp [htype]
    · have hwhole := @Fit.of_eq_whole_iff b.shell.labels rest
      have hinner := @Fit.of_eq_inner_iff b.shell.labels rest
      simp only [htype, if_true, List.isEmpty_iff, hrest, if_false, true_and, false_or, ← hwhole,
        ← hinner]
      cases Fit.of b.shell.labels rest with
      | mismatch => simp
      | whole => simp
      | inner type' rest' =>
        simp only [List.mem_map, reduceCtorEq, false_and, false_or, Fit.inner.injEq]
        constructor
        · intro h
          obtain ⟨m', hm', rfl⟩ := h
          exact ⟨type', rest', m', ⟨rfl, rfl⟩, hm', rfl⟩
        · intro h
          obtain ⟨_, _, m', ⟨rfl, rfl⟩, hm', rfl⟩ := h
          exact ⟨m', hm', rfl⟩
  · simp [htype, Ne.symm htype]

theorem Item.exists_path_of_mem_matchesAt {i : Nat} {type : Text} {rest : List Text} {b : Block}
    {m : BlockMatch} (h : m ∈ Item.matchesAt i type rest (.block b.shell b.body)) :
    ∃ path, m.path = i :: path := by
  obtain ⟨-, ⟨-, rfl⟩ | ⟨_, _, m', -, -, rfl⟩⟩ := Item.mem_matchesAt_block.mp h
  · exact ⟨[], rfl⟩
  · exact ⟨m'.path, rfl⟩

theorem Item.matchesAt_pairwise {i : Nat} {type : Text} {rest : List Text} {b : Block}
    (h : ∀ type' rest', rest = b.shell.labels ++ type' :: rest' →
      (Body.matchingBlocks b.body type' rest').Pairwise (·.path < ·.path)) :
    (Item.matchesAt i type rest (.block b.shell b.body)).Pairwise (·.path < ·.path) := by
  unfold Item.matchesAt
  split
  · split
    · exact List.pairwise_singleton _ _
    · split
      · exact List.Pairwise.nil
      · exact List.pairwise_singleton _ _
      · rename_i type' rest' hfit
        have := h _ _ (Fit.of_eq_inner_iff.mp hfit)
        rw [List.pairwise_map]
        exact this.imp fun hlt => List.cons_lt_cons_iff.mpr (Or.inr ⟨rfl, hlt⟩)
  · exact List.Pairwise.nil

/-! ## What the search finds -/

namespace Body

/-- The search finds the last blocks of the paths that the segments address. The induction is on
    the number of segments: those behind the labels of a block are fewer. -/
theorem mem_matchingBlocks_iff {body : Body} {type : Text} {rest : List Text} {m : BlockMatch} :
    m ∈ matchingBlocks body type rest ↔
      ∃ chain, Leads body m.path chain ∧ chain.getLast? = some m.block ∧
        Block.Answers (type :: rest) chain := by
  induction hn : rest.length using Nat.strongRecOn generalizing body type rest m with
  | ind n ih =>
    subst hn
    rw [mem_matchingBlocks]
    constructor
    · intro h
      obtain ⟨i, b, hb, hm⟩ := h
      obtain ⟨rfl, ⟨hend, rfl⟩ | ⟨type', rest', m', rfl, hm', rfl⟩⟩ :=
        Item.mem_matchesAt_block.mp hm
      · exact ⟨[b], .last hb, rfl, Block.answers_singleton.mpr ⟨rfl, hend⟩⟩
      · obtain ⟨chain, hleads, hlast, hans⟩ := (ih _ (by simp; omega) rfl).mp hm'
        refine ⟨b :: chain, .inside hb hleads, ?_, ?_⟩
        · rw [List.getLast?_cons_of_ne_nil hleads.chain_ne_nil, hlast]
          rfl
        · exact (Block.answers_cons hleads.chain_ne_nil).mpr ⟨rfl, _, rfl, hans⟩
    · obtain ⟨path, block⟩ := m
      intro h
      obtain ⟨chain, hleads, hlast, hans⟩ := h
      cases hleads with
      | @last _ i b hb =>
        obtain ⟨htype, hend⟩ := Block.answers_singleton.mp hans
        refine ⟨i, b, hb, Item.mem_matchesAt_block.mpr ⟨htype, Or.inl ⟨hend, ?_⟩⟩⟩
        obtain rfl : b = block := Option.some.inj hlast
        rfl
      | @inside _ i b path chain hb hin =>
        obtain ⟨htype, more, rfl, hmore⟩ := (Block.answers_cons hin.chain_ne_nil).mp hans
        obtain ⟨type', rest', rfl⟩ :=
          List.exists_cons_of_ne_nil (Block.ne_nil_of_answers hmore hin.chain_ne_nil)
        rw [List.getLast?_cons_of_ne_nil hin.chain_ne_nil] at hlast
        have hm : ⟨path, block⟩ ∈ matchingBlocks b.body type' rest' :=
          (ih _ (by simp; omega) rfl).mpr ⟨chain, hin, hlast, hmore⟩
        exact ⟨i, b, hb, Item.mem_matchesAt_block.mpr
          ⟨htype, Or.inr ⟨type', rest', _, rfl, hm, rfl⟩⟩⟩

/-- The matches stand in source order, none of them twice. -/
theorem matchingBlocks_pairwise (body : Body) (type : Text) (rest : List Text) :
    (matchingBlocks body type rest).Pairwise (·.path < ·.path) := by
  induction hn : rest.length using Nat.strongRecOn generalizing body type rest with
  | ind n ih =>
    subst hn
    unfold matchingBlocks
    rw [matchesFrom_eq_flatMap, List.pairwise_flatMap]
    constructor
    · intro ⟨b, i⟩ _
      exact Item.matchesAt_pairwise fun type' rest' hrest =>
        ih _ (by rw [hrest]; simp; omega) _ _ _ rfl
    · have hnum : ((blocks body).zipIdx 0).Pairwise (·.2 < ·.2) := by
        rw [← List.pairwise_map, List.zipIdx_map_snd]
        exact List.pairwise_lt_range'
      refine hnum.imp fun {x y} hlt m hm m' hm' => ?_
      obtain ⟨path, hpath⟩ := Item.exists_path_of_mem_matchesAt hm
      obtain ⟨path', hpath'⟩ := Item.exists_path_of_mem_matchesAt hm'
      rw [hpath, hpath']
      exact List.cons_lt_cons_iff.mpr (Or.inl hlt)

/-- A block address is never refused, and it leads to the last blocks of exactly those paths that
    it belongs to, each path once, in source order. -/
theorem findBlocks_leads (body : Body) (type : Text) (rest : List Text) :
    ∃ found, findBlocks body (type :: rest) = .ok found ∧
      (∀ m, m ∈ found ↔
        ∃ chain, Leads body m.path chain ∧ chain.getLast? = some m.block ∧
          (type :: rest = Block.shortAddress chain ∨ type :: rest = Block.fullAddress chain)) ∧
      found.Pairwise (·.path < ·.path) :=
  ⟨matchingBlocks body type rest, rfl, fun _ => mem_matchingBlocks_iff,
    matchingBlocks_pairwise body type rest⟩

end Body

end HclQuery
