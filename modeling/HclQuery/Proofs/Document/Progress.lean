/-
  How far the reading of a document comes, and where faults are.

  Items are read one after the other; `Document.Reaches` says in which state the reading is and
  which tokens are left. The blocks that are open then began at tokens that were read, so wherever
  the reading fails it has a token to blame (`faultOf_of_ofTokens`). With the lines that cutting
  gives to tokens and to its own faults, every position is the true one: `positions_exact`.
-/
import HclQuery.Proofs.Document.Derivation
import HclQuery.Proofs.Token.Progress

namespace HclQuery.Document

open Grammar

/-! ## Reaching a state -/

/-- Reading the tokens `ts` comes to the state `s`, with the tokens `rest` still to read. -/
inductive Reaches (ts : List Token) : State → List Token → Prop where
  | start : Reaches ts {} ts
  | step {s s' : State} {t : Token} {us rest : List Token} (h : Reaches ts s (t :: us))
      (hstep : s.step t us = .ok (s', rest)) : Reaches ts s' rest

/-- A step leaves an end of the tokens. -/
theorem suffix_of_step {s s' : State} {t : Token} {us rest : List Token}
    (h : s.step t us = .ok (s', rest)) : rest <:+ us := by
  cases State.move_of_step h with
  | trivia hkind => exact List.dropWhile_suffix _
  | @assignment equal tail _ a hkind htail hequal hread =>
    obtain ⟨value, ending, -, hcut, -⟩ := (readAttribute_eq_ok_iff hkind hequal).mp hread
    exact ⟨equal :: (value ++ ending), by rw [htail, hcut]; simp⟩
  | @enter header hkind hnext hread =>
    exact ⟨header.tokens, (isHeader_of_readHeader hread).1.symm⟩
  | close hkind hpending => exact ⟨_, cutLineEnd_append us⟩

/-- A block that is open after a step was open before, or the token of the step is its type. -/
theorem pending_of_step {s s' : State} {t : Token} {us rest : List Token}
    (h : s.step t us = .ok (s', rest)) {p : Pending} (hp : p ∈ s'.pending) :
    p ∈ s.pending ∨ (p.line = t.line ∧ p.shell.type = t.text) := by
  cases State.move_of_step h with
  | trivia hkind => exact Or.inl hp
  | assignment hkind htail hequal hread => exact Or.inl hp
  | enter hkind hnext hread =>
    rcases List.mem_cons.mp hp with rfl | hp
    · exact Or.inr ⟨rfl, rfl⟩
    · exact Or.inl hp
  | close hkind hpending => exact Or.inl (by rw [hpending]; exact List.mem_cons_of_mem _ hp)

namespace Reaches

variable {ts rest : List Token} {s : State}

theorem suffix (h : Reaches ts s rest) : rest <:+ ts := by
  induction h with
  | start => exact List.suffix_refl ts
  | @step s s' t us rest h hstep ih =>
    exact (suffix_of_step hstep).trans ((List.suffix_cons t us).trans ih)

/-- The type of every open block is a token. -/
theorem exists_type (h : Reaches ts s rest) {p : Pending} (hp : p ∈ s.pending) :
    ∃ t ∈ ts, p.line = t.line ∧ p.shell.type = t.text := by
  induction h with
  | start => cases hp
  | @step s s' t us rest h hstep ih =>
    rcases pending_of_step hstep hp with hp | htype
    · exact ih hp
    · exact ⟨t, h.suffix.subset List.mem_cons_self, htype⟩

/-- What the tokens spell is decided by the state and the tokens that are left. -/
theorem ofTokens_eq (h : Reaches ts s rest) : ofTokens ts = run s rest := by
  induction h with
  | start => rfl
  | step h hstep ih => rw [ih, run_move (State.move_of_step hstep)]

/-- A fault of a step is one of the tokens. -/
theorem ofTokens_fault {t : Token} {us : List Token} {fault : Fault} (h : Reaches ts s (t :: us))
    (hstep : s.step t us = .error fault) : ofTokens ts = .error fault := by
  rw [h.ofTokens_eq, run]
  split
  · rename_i hfault
    rw [hstep] at hfault
    rw [Except.error.inj hfault]
  · rename_i hok
    rw [hstep] at hok
    cases hok

end Reaches

/-! ## Where reading fails -/

/-- Reading that fails is stuck at a token, or with a block open at the end. -/
theorem exists_fault_of_reaches {ts rest : List Token} {s : State} {fault : Fault}
    (hreaches : Reaches ts s rest) (h : run s rest = .error fault) :
    (∃ s' t us, Reaches ts s' (t :: us) ∧ s'.step t us = .error fault) ∨
      ∃ s', Reaches ts s' [] ∧ s'.finish = .error fault := by
  induction s, rest using run.induct with
  | case1 s =>
    rw [run] at h
    exact Or.inr ⟨s, hreaches, h⟩
  | case2 s t us fault' hstep =>
    have hfault := hreaches.ofTokens_fault hstep
    rw [hreaches.ofTokens_eq, h] at hfault
    rw [← Except.error.inj hfault] at hstep
    exact Or.inl ⟨s, t, us, hreaches, hstep⟩
  | case3 s t us s' rest hstep ih =>
    rw [run_move (State.move_of_step hstep)] at h
    exact ih (hreaches.step hstep) h

/-- The fault is on the line of one of the tokens. -/
def Blames (fault : Fault) (ts : List Token) : Prop :=
  ∃ t ∈ ts, fault.line = t.line

/-- What can be wrong with tokens. A fault is on the line of one of them, and says its text or that
    of the name or the type that it belongs to. -/
inductive FaultOf (ts : List Token) : Fault → Prop where
  | unexpectedCloseBrace {t : Token} (ht : t ∈ ts) (hkind : t.kind = .closeBrace) :
      FaultOf ts ⟨t.line, .unexpectedCloseBrace⟩
  | expectedItem {t : Token} (ht : t ∈ ts) (hkind : t.kind ≠ .ident) :
      FaultOf ts ⟨t.line, .expectedItem t.text⟩
  | unbalanced {t name : Token} (ht : t ∈ ts) (hname : name ∈ ts)
      (hkind : t.kind.isClosing = true) : FaultOf ts ⟨t.line, .unbalanced t.text name.text⟩
  | unclosedBracket {name : Token} (hname : name ∈ ts) :
      FaultOf ts ⟨name.line, .unclosedBracket name.text⟩
  | missingValue {name : Token} (hname : name ∈ ts) :
      FaultOf ts ⟨name.line, .missingValue name.text⟩
  | unexpectedInHeader {t type : Token} (ht : t ∈ ts) (htype : type ∈ ts) :
      FaultOf ts ⟨t.line, .unexpectedInHeader t.text type.text⟩
  | missingOpenBrace {type : Token} (htype : type ∈ ts) :
      FaultOf ts ⟨type.line, .missingOpenBrace type.text⟩
  | templateInLabel {t : Token} (ht : t ∈ ts) (hkind : t.kind = .string)
      (hlabel : Label.decode? t.text = none) : FaultOf ts ⟨t.line, .templateInLabel t.text⟩
  | unclosedBlock {type : Token} (htype : type ∈ ts) :
      FaultOf ts ⟨type.line, .unclosedBlock type.text⟩

section FaultOf

variable {t name equal : Token} {ts us : List Token} {fault : Fault} {s : State}

theorem FaultOf.mono (h : FaultOf ts fault) (hsub : ts ⊆ us) : FaultOf us fault := by
  cases h with
  | unexpectedCloseBrace ht hkind => exact .unexpectedCloseBrace (hsub ht) hkind
  | expectedItem ht hkind => exact .expectedItem (hsub ht) hkind
  | unbalanced ht hname hkind => exact .unbalanced (hsub ht) (hsub hname) hkind
  | unclosedBracket hname => exact .unclosedBracket (hsub hname)
  | missingValue hname => exact .missingValue (hsub hname)
  | unexpectedInHeader ht htype => exact .unexpectedInHeader (hsub ht) (hsub htype)
  | missingOpenBrace htype => exact .missingOpenBrace (hsub htype)
  | templateInLabel ht hkind hlabel => exact .templateInLabel (hsub ht) hkind hlabel
  | unclosedBlock htype => exact .unclosedBlock (hsub htype)

theorem FaultOf.blames (h : FaultOf ts fault) : Blames fault ts := by
  cases h with
  | unexpectedCloseBrace ht => exact ⟨_, ht, rfl⟩
  | expectedItem ht => exact ⟨_, ht, rfl⟩
  | unbalanced ht => exact ⟨_, ht, rfl⟩
  | unclosedBracket hname => exact ⟨_, hname, rfl⟩
  | missingValue hname => exact ⟨_, hname, rfl⟩
  | unexpectedInHeader ht => exact ⟨_, ht, rfl⟩
  | missingOpenBrace htype => exact ⟨_, htype, rfl⟩
  | templateInLabel ht => exact ⟨_, ht, rfl⟩
  | unclosedBlock htype => exact ⟨_, htype, rfl⟩

/-- One more token may stand behind the first one. -/
theorem FaultOf.behind (h : FaultOf (name :: ts) fault) : FaultOf (name :: t :: ts) fault :=
  h.mono (List.cons_subset_cons name (List.subset_cons_self t ts))

theorem faultOf_of_cutValue {depth : Nat} (h : cutValue name depth ts = .error fault) :
    FaultOf (name :: ts) fault := by
  induction ts generalizing depth with
  | nil =>
    unfold cutValue at h
    split at h
    · cases h
    · cases h
      exact .unclosedBracket List.mem_cons_self
  | cons t ts ih =>
    unfold cutValue at h
    split at h
    · cases h
    split at h
    · cases h
    split at h
    · cases h
    split at h
    · rename_i hclosing
      cases h
      rw [Bool.and_eq_true] at hclosing
      exact .unbalanced (by simp) List.mem_cons_self hclosing.2
    · exact (ih (Except.map_eq_error_iff.mp h)).behind

theorem faultOf_of_readAttribute (h : readAttribute name equal ts = .error fault) :
    FaultOf (name :: ts) fault := by
  unfold readAttribute at h
  split at h
  · rename_i hcut
    cases h
    exact faultOf_of_cutValue hcut
  · split at h
    · cases h
      exact .missingValue List.mem_cons_self
    · cases h

theorem faultOf_of_readHeader (h : readHeader name ts = .error fault) :
    FaultOf (name :: ts) fault := by
  induction ts with
  | nil =>
    cases h
    exact .missingOpenBrace List.mem_cons_self
  | cons t ts ih =>
    unfold readHeader at h
    split at h
    · exact (ih (Except.map_eq_error_iff.mp h)).behind
    · rename_i hkind
      split at h
      · exact (ih (Except.map_eq_error_iff.mp h)).behind
      · rename_i hlabel
        cases h
        exact .templateInLabel (by simp) hkind hlabel
    · cases h
    · cases h
      exact .unexpectedInHeader (by simp) List.mem_cons_self

theorem faultOf_of_openBlock (h : s.openBlock name ts = .error fault) :
    FaultOf (name :: ts) fault :=
  faultOf_of_readHeader (Except.map_eq_error_iff.mp h)

/-- A step that fails has a fault of the tokens that are left. -/
theorem faultOf_of_step (h : s.step t us = .error fault) : FaultOf (t :: us) fault := by
  unfold State.step at h
  split at h
  · cases h
  split at h
  · rename_i hkind
    unfold State.close at h
    split at h
    · cases h
      exact .unexpectedCloseBrace List.mem_cons_self hkind
    · cases h
  split at h
  · rename_i hkind
    cases h
    exact .expectedItem List.mem_cons_self hkind
  split at h
  · exact faultOf_of_openBlock h
  · split at h
    · exact (faultOf_of_readAttribute (Except.map_eq_error_iff.mp h)).behind
    · exact faultOf_of_openBlock h

/-- Tokens that spell no body have a fault. -/
theorem faultOf_of_ofTokens (h : ofTokens ts = .error fault) : FaultOf ts fault := by
  rcases exists_fault_of_reaches .start h with ⟨s, t, us, hreaches, hstep⟩ | ⟨s, hreaches, hend⟩
  · exact (faultOf_of_step hstep).mono hreaches.suffix.subset
  · unfold State.finish at hend
    split at hend
    · cases hend
    · rename_i p pending hpending
      cases hend
      obtain ⟨type, htype, hline, htext⟩ :=
        hreaches.exists_type (by rw [hpending]; exact List.mem_cons_self)
      rw [hline, htext]
      exact .unclosedBlock htype

end FaultOf

/-! ## Positions -/

theorem parse_of_fault {filename : String} {source : Text} {fault : Fault}
    (h : Token.ofText source = .error fault) :
    parse filename source = .error ⟨filename, fault⟩ := by
  rw [parse, h]

theorem parse_of_ofTokens_fault {filename : String} {source : Text} {ts : List Token}
    {fault : Fault} (hts : Token.ofText source = .ok ts) (h : ofTokens ts = .error fault) :
    parse filename source = .error ⟨filename, fault⟩ := by
  rw [parse, hts]
  simp only [h]

/-- What is cut but spells no document has a fault in its tokens. -/
theorem exists_fault_of_parse {filename : String} {source : Text} {ts : List Token}
    {e : ParseError} (hts : Token.ofText source = .ok ts) (h : parse filename source = .error e) :
    ∃ fault, ofTokens ts = .error fault ∧ e = ⟨filename, fault⟩ := by
  rw [parse, hts] at h
  dsimp only at h
  split at h
  · rename_i fault hfault
    exact ⟨fault, hfault, (Except.error.inj h).symm⟩
  · cases h

/-- Positions are exact. Each token of a source that is cut is on the line that the line feeds
    before its text tell. A source that is not cut has the name and the line of the place where no
    lexeme can be read: what is before it is cut into the tokens so far, and into its blanks. A
    source that is cut and is no document has its name and the line of one of its tokens. -/
theorem positions_exact (filename : String) (source : Text) :
    (∀ before u after, Token.ofText source = .ok (before ++ u :: after) →
      source = Token.sourceOf before ++ u.leading ++ (u.text ++ Token.sourceOf after) ∧
        u.line = 1 + Text.newlines (Token.sourceOf before ++ u.leading)) ∧
    (∀ fault, Token.ofText source = .error fault →
      parse filename source = .error ⟨filename, fault⟩ ∧
        ∃ p ts blanks c cs, Token.Stuck source ts blanks c cs fault ∧
          source.take p = Token.sourceOf ts ++ blanks ∧ source.drop p = c :: cs ∧
          Token.ofText (source.take p) = .ok (ts ++ Token.blanksAtEnd fault.line blanks) ∧
          fault.line = 1 + Text.newlines (source.take p)) ∧
    (∀ ts e, Token.ofText source = .ok ts → parse filename source = .error e →
      e.filename = filename ∧ ∃ t ∈ ts, e.fault.line = t.line) := by
  refine ⟨?_, ?_, ?_⟩
  · intro before u after h
    have hcuts := Token.ofTextFrom_eq_ok_iff.mp h
    refine ⟨?_, hcuts.line_eq⟩
    rw [← hcuts.sourceOf_eq]
    simp
  · intro fault h
    obtain ⟨ts, blanks, c, cs, hstuck⟩ := Token.exists_stuck h
    have htake :
        source.take (Token.sourceOf ts ++ blanks).length = Token.sourceOf ts ++ blanks := by
      rw [hstuck.source_eq, List.take_left]
    have hdrop : source.drop (Token.sourceOf ts ++ blanks).length = c :: cs := by
      rw [hstuck.source_eq, List.drop_left]
    refine ⟨parse_of_fault h, _, ts, blanks, c, cs, hstuck, htake, hdrop, ?_, ?_⟩
    · rw [htake]
      exact hstuck.ofText_front
    · rw [htake]
      exact hstuck.line_eq
  · intro ts e hts h
    obtain ⟨fault, hfault, rfl⟩ := exists_fault_of_parse hts h
    exact ⟨rfl, (faultOf_of_ofTokens hfault).blames⟩

/-- A token behind a comment of two lines, a string that is open on the second line, and a bracket
    that is open to the end. -/
theorem positions_exact_secondLine :
    (∃ (before : List Token) (u : Token) (after : List Token),
      Token.ofText "/* \n */ a".toList = .ok (before ++ u :: after) ∧ u.text = ['a'] ∧
      u.line = 1 + Text.newlines (Token.sourceOf before ++ u.leading)) ∧
    (∃ fault : Fault, Token.ofText "a\n \"b".toList = .error fault ∧
      parse "s.tf" "a\n \"b".toList = .error ⟨"s.tf", fault⟩ ∧
        ∃ p ts blanks c cs, Token.Stuck "a\n \"b".toList ts blanks c cs fault ∧
          fault.line = 1 + Text.newlines ("a\n \"b".toList.take p)) ∧
    (∃ (ts : List Token) (e : ParseError), Token.ofText "b = [\n".toList = .ok ts ∧
      parse "s.tf" "b = [\n".toList = .error e ∧ e.filename = "s.tf" ∧
      ∃ t ∈ ts, e.fault.line = t.line) := by
  obtain ⟨hcut, hfault, hopen, hrejected⟩ :
      Token.ofText "/* \n */ a".toList =
          .ok ([⟨.comment, "/* \n */".toList, [], 1⟩] ++ ⟨.ident, ['a'], [' '], 2⟩ :: []) ∧
        Token.ofText "a\n \"b".toList = .error ⟨2, .unterminatedQuoted⟩ ∧
        Token.ofText "b = [\n".toList =
          .ok [⟨.ident, ['b'], [], 1⟩, ⟨.equal, ['='], [' '], 1⟩, ⟨.openBracket, ['['], [' '], 1⟩,
            ⟨.newline, ['\n'], [], 1⟩] ∧
        parse "s.tf" "b = [\n".toList = .error ⟨"s.tf", 1, .unclosedBracket ['b']⟩ :=
    ⟨by decide +kernel, by decide +kernel, by decide +kernel, by decide +kernel⟩
  refine ⟨⟨_, _, _, hcut, rfl, ((positions_exact "s.tf" _).1 _ _ _ hcut).2⟩, ?_, ?_⟩
  · obtain ⟨hparse, p, ts, blanks, c, cs, hstuck, -, -, -, hline⟩ :=
      (positions_exact "s.tf" _).2.1 _ hfault
    exact ⟨_, hfault, hparse, p, ts, blanks, c, cs, hstuck, hline⟩
  · exact ⟨_, _, hopen, hrejected, (positions_exact "s.tf" _).2.2 _ _ hopen hrejected⟩

end HclQuery.Document
