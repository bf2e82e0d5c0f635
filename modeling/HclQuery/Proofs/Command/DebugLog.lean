/-
  What the debug log prints.

  A text in quotes shows no line feed (`lineFeed_not_mem_quoted`). So what a query reports is one
  line a record, unless a line feed stands in the name of the source or in an address, which the log
  shows as they are: `Query.oneLine_events`.

  What is printed has marked lines and others (`unmarked`). Records of one line are marked as a
  whole (`unmarked_records`); of the record of a failure, the lines of the trace are left
  (`unmarked_failed`).
-/
import HclQuery.Command.Run
import HclQuery.Proofs.Lookup.BlockPath
import HclQuery.Proofs.Text.Lines

namespace HclQuery

/-! ## Shown texts -/

namespace Text

theorem lineFeed_not_mem_toDigits {b : Nat} (hb : 1 < b) (n : Nat) : '\n' ∉ Nat.toDigits b n := by
  have hdigit (d : Nat) : Nat.digitChar d ≠ '\n' := by grind [Nat.digitChar]
  induction n using Nat.strongRecOn with
  | ind n ih =>
    rw [Nat.toDigits_eq_if hb]
    split
    · rw [List.mem_singleton]
      exact (hdigit n).symm
    · rename_i hn
      rw [List.mem_append, List.mem_singleton, not_or]
      exact ⟨ih (n / b) (Nat.div_lt_self (by omega) hb), (hdigit (n % b)).symm⟩

theorem lineFeed_not_mem_hex (width n : Nat) : '\n' ∉ hex width n := by
  unfold hex
  simp [lineFeed_not_mem_toDigits]

theorem lineFeed_not_mem_showChar {q : Char} (hq : q ≠ '\n') (c : Char) :
    '\n' ∉ showChar q c := by
  unfold showChar
  grind [lineFeed_not_mem_hex]

/-- A text in quotes is shown in one line. -/
theorem lineFeed_not_mem_quoted (t : Text) : '\n' ∉ (quoted t).toList := by
  have hquote : outerQuote t ≠ '\n' := by
    unfold outerQuote
    split <;> decide
  unfold quoted
  simp [hquote.symm, lineFeed_not_mem_showChar hquote]

theorem lineFeed_not_mem_quotedList (ts : List Text) : '\n' ∉ (quotedList ts).toList := by
  have hjoin : '\n' ∉ (String.intercalate ", " (ts.map quoted)).toList := by
    induction ts with
    | nil => simp
    | cons t ts ih =>
      cases ts with
      | nil => simpa using lineFeed_not_mem_quoted t
      | cons next ts =>
        rw [List.map_cons, List.map_cons, String.intercalate_cons_cons, ← List.map_cons]
        simpa [lineFeed_not_mem_quoted t] using ih
  unfold quotedList
  simpa using hjoin

end Text

/-! ## Records of one line -/

/-- The words for the event are part of one line. -/
def Event.OneLine (e : Event) : Prop :=
  '\n' ∉ e.message.toList

namespace Event

open Text

theorem oneLine_parsed {filename : String} (h : '\n' ∉ filename.toList) (tokens items : Nat) :
    OneLine (.parsed filename tokens items) := by
  unfold OneLine message
  simp [toString, h, lineFeed_not_mem_toDigits]

theorem oneLine_filtering : OneLine .filtering := by
  unfold OneLine message
  simp

theorem oneLine_searched {type : Text} {rest : List Text} (h : ∀ s ∈ type :: rest, '\n' ∉ s)
    (count : Nat) : OneLine (.searched type rest count) := by
  have hdotted : '\n' ∉ Address.dotted (type :: rest) := by
    rw [Address.dotted, mem_intercalate_iff (by decide)]
    rintro ⟨s, hs, hmem⟩
    exact h s hs hmem
  unfold OneLine message
  simp [toString, hdotted, lineFeed_not_mem_toDigits, lineFeed_not_mem_quoted]

theorem oneLine_skipped {shell : Shell} (h : '\n' ∉ shell.type) (segments : List Text) :
    OneLine (.skipped shell segments) := by
  unfold OneLine message
  simp [toString, h, lineFeed_not_mem_quotedList]

theorem oneLine_entered {shell : Shell} (h : '\n' ∉ shell.type) (segments : List Text) :
    OneLine (.entered shell segments) := by
  unfold OneLine message
  simp [toString, h, lineFeed_not_mem_quotedList]

theorem oneLine_noAttribute (name : Text) (count : Nat) : OneLine (.noAttribute name count) := by
  unfold OneLine message
  simp [toString, lineFeed_not_mem_toDigits, lineFeed_not_mem_quoted]

end Event

mutual

/-- What the search reports is one line a record, if no segment holds a line feed. -/
theorem Item.oneLine_events {type : Text} {rest : List Text} (h : ∀ s ∈ type :: rest, '\n' ∉ s)
    (item : Item) : ∀ e ∈ item.events type rest, e.OneLine := by
  cases item with
  | «attribute» a => simp [Item.events]
  | trivia ts => simp [Item.events]
  | block shell body =>
    unfold Item.events
    split
    · rename_i htype
      -- The type of a block that is reported on is the first segment.
      have hshell : '\n' ∉ shell.type := by
        have heq : shell.type = type := by simp_all
        rw [heq]
        exact h type List.mem_cons_self
      split
      · simpa using Event.oneLine_skipped hshell rest
      · simp
      · rename_i type' rest' hfit
        have hsegments : ∀ s ∈ type' :: rest', '\n' ∉ s := by
          intro s hs
          refine h s (List.mem_cons_of_mem type ?_)
          rw [Fit.of_eq_inner_iff.mp hfit]
          exact List.mem_append_right shell.labels hs
        intro e he
        rcases List.mem_cons.mp he with rfl | he
        · exact Event.oneLine_entered hshell (type' :: rest')
        rcases List.mem_cons.mp he with rfl | he
        · exact Event.oneLine_searched hsegments _
        · exact Body.oneLine_eventsAmong hsegments body e he
    · simp

theorem Body.oneLine_eventsAmong {type : Text} {rest : List Text}
    (h : ∀ s ∈ type :: rest, '\n' ∉ s) (items : List Item) :
    ∀ e ∈ Body.eventsAmong type rest items, e.OneLine := by
  cases items with
  | nil => simp [Body.eventsAmong]
  | cons item items =>
    intro e he
    rw [Body.eventsAmong] at he
    rcases List.mem_append.mp he with he | he
    · exact Item.oneLine_events h item e he
    · exact Body.oneLine_eventsAmong h items e he

end

theorem Body.oneLine_lookupEvents (body : Body) {address : Address}
    (h : ∀ s ∈ address.way, '\n' ∉ s) : ∀ e ∈ body.lookupEvents address, e.OneLine := by
  unfold Body.lookupEvents
  split
  · simp
  · rename_i type rest hway
    rw [hway] at h
    intro e he
    rcases List.mem_append.mp he with he | he
    · rcases List.mem_cons.mp he with rfl | he
      · exact Event.oneLine_searched h _
      · exact Body.oneLine_eventsAmong h body e he
    · have hmissed : e = .noAttribute address.name (Body.matchingBlocks body type rest).length := by
        grind
      rw [hmissed]
      exact Event.oneLine_noAttribute _ _

/-- No segment of an address holds a line feed if the address holds none. -/
theorem Address.lineFeed_not_mem_way {t : Text} (h : '\n' ∉ t) {a : Address}
    (hparse : Address.parse t = .ok a) : ∀ s ∈ a.way, '\n' ∉ s := by
  intro s hs hmem
  have ha : Address.ofText t = a := by
    unfold Address.parse at hparse
    split at hparse
    · cases hparse
    · exact Except.ok.inj hparse
  refine h ?_
  rw [← Text.intercalate_splitAt '.' t, Text.mem_intercalate_iff (by decide)]
  refine ⟨s, ?_, hmem⟩
  rw [← Address.segments_ofText, ha]
  exact List.mem_append_left [a.name] hs

namespace Query

theorem oneLine_selectEvents {addresses : List Text} (h : ∀ t ∈ addresses, '\n' ∉ t)
    (d : Document) : ∀ e ∈ selectEvents addresses d, e.OneLine := by
  induction addresses generalizing d with
  | nil => simp [selectEvents]
  | cons address addresses ih =>
    intro e he
    rw [selectEvents] at he
    rcases List.mem_cons.mp he with rfl | he
    · exact Event.oneLine_filtering
    cases hparse : Address.parse address with
    | error failure =>
      rw [hparse] at he
      cases he
    | ok a =>
      rw [hparse] at he
      rcases List.mem_append.mp he with he | he
      · have hway := Address.lineFeed_not_mem_way (h address List.mem_cons_self) hparse
        exact Body.oneLine_lookupEvents d.body hway e he
      · cases hselect : d.select address with
        | error failure =>
          rw [hselect] at he
          cases he
        | ok d' =>
          rw [hselect] at he
          exact ih (fun t ht => h t (List.mem_cons_of_mem address ht)) d' e he

/-- What a query reports is printed in one line each, if neither the name of the source nor an
    address holds a line feed. -/
theorem oneLine_events {q : Query} (hname : '\n' ∉ q.filename.toList)
    (haddresses : ∀ t ∈ q.addresses, '\n' ∉ t) (source : Text) :
    ∀ e ∈ q.events source, e.OneLine := by
  unfold events
  cases hparse : Document.parse q.filename source with
  | error e => simp
  | ok d =>
    intro e he
    rcases List.mem_cons.mp he with rfl | he
    · have hfilename : d.filename = q.filename := by
        unfold Document.parse at hparse
        grind
      rw [hfilename]
      exact Event.oneLine_parsed hname _ _
    · exact oneLine_selectEvents haddresses d e he

end Query

/-! ## Lines without a mark -/

/-- The lines of a text that are not marked as lines of the log. -/
def unmarked (s : String) : List Text :=
  (Text.splitAt '\n' s.toList).filter fun line => !"[DEBUG] ".toList.isPrefixOf line

/-- Lines are told apart where they end. -/
theorem unmarked_line (line below : String) :
    unmarked (line ++ "\n" ++ below) = unmarked line ++ unmarked below := by
  have hsplit : Text.splitAt '\n' (line ++ "\n" ++ below).toList =
      Text.splitAt '\n' line.toList ++ Text.splitAt '\n' below.toList := by
    rw [← Text.splitAt_append_sep]
    simp
  unfold unmarked
  rw [hsplit, List.filter_append]

theorem unmarked_lines (lines : List String) (below : String) :
    unmarked (String.join (lines.map (· ++ "\n")) ++ below) =
      lines.flatMap unmarked ++ unmarked below := by
  induction lines with
  | nil => simp
  | cons line lines ih =>
    rw [List.map_cons, String.join_cons, String.append_assoc, unmarked_line, ih, List.flatMap_cons,
      List.append_assoc]

theorem unmarked_marked {text : String} (h : '\n' ∉ text.toList) :
    unmarked ("[DEBUG] " ++ text) = [] := by
  have hline : '\n' ∉ ("[DEBUG] " ++ text).toList := by
    rw [String.toList_append, List.mem_append, not_or]
    exact ⟨by decide, h⟩
  unfold unmarked
  rw [Text.splitAt_of_not_mem hline, String.toList_append]
  simp

namespace Event

/-- Records of one line are marked as a whole. -/
theorem unmarked_records {es : List Event} (h : ∀ e ∈ es, e.OneLine) (t : String) :
    unmarked (String.join (es.map record) ++ t) = unmarked t := by
  have hrecords : es.map record = (es.map fun e => "[DEBUG] " ++ e.message).map (· ++ "\n") := by
    rw [List.map_map]
    rfl
  have hmarked : (es.map fun e => "[DEBUG] " ++ e.message).flatMap unmarked = [] := by
    rw [List.flatMap_map, List.flatMap_eq_nil_iff]
    exact fun e he => unmarked_marked (h e he)
  rw [hrecords, unmarked_lines, hmarked, List.nil_append]

/-- The record of a failure is a marked line and the lines of its trace. -/
theorem record_failed (trace : List String) :
    (failed trace).record =
      "[DEBUG] attribute get failed\n" ++ String.join (trace.map (· ++ "\n")) := by
  have hlines (line : String) : String.intercalate "\n" (line :: trace) ++ "\n" =
      line ++ "\n" ++ String.join (trace.map (· ++ "\n")) := by
    induction trace generalizing line with
    | nil => simp
    | cons next trace ih =>
      rw [String.intercalate_cons_cons, String.append_assoc, ih, List.map_cons, String.join_cons]
  calc (failed trace).record
      = "[DEBUG] " ++ (String.intercalate "\n" ("attribute get failed" :: trace) ++ "\n") :=
        String.append_assoc
    _ = "[DEBUG] " ++ "attribute get failed" ++ "\n" ++ String.join (trace.map (· ++ "\n")) := by
        rw [hlines, String.append_assoc, String.append_assoc, String.append_assoc]
    _ = "[DEBUG] attribute get failed\n" ++ String.join (trace.map (· ++ "\n")) := rfl

/-- Of the record of a failure, nothing but lines of the trace can be without a mark. -/
theorem unmarked_failed (trace : List String) (below : String) :
    unmarked ((failed trace).record ++ below) = trace.flatMap unmarked ++ unmarked below := by
  have hfirst : unmarked ("[DEBUG] " ++ "attribute get failed") = [] :=
    unmarked_marked (by decide)
  have hlines : (failed trace).record =
      String.join ((("[DEBUG] " ++ "attribute get failed") :: trace).map (· ++ "\n")) := by
    rw [record_failed, List.map_cons, String.join_cons]
    rfl
  rw [hlines, unmarked_lines, List.flatMap_cons, hfirst, List.nil_append]

end Event

end HclQuery
