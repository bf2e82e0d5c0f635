/-
  How a request ends.

  A request for a file whose path holds no NUL does not crash, whatever the system says of the path.
  It is refused for one of four reasons (`Refuses`), or it is answered by its query
  (`answer_cases`). The log runs beside the outcome and stands in front of the report, so the
  outcome without it is the same however the log is asked for: `outcome_of_request`.

  The log is told from the rest of the standard error by its records, not by its lines: a record may
  go on in lines without a mark (`not_keepsUnmarked`).
-/
import HclQuery.Proofs.Command.DebugLog
import HclQuery.Proofs.Command.Verbose
import HclQuery.Proofs.Query.Failures
import HclQuery.Proofs.Text.LineBreaks
import HclQuery.Proofs.Text.Utf8

namespace HclQuery.Command

namespace Request

/-- Why the request has no answer: the input cannot be opened, is no UTF-8, cannot be read, or is
    read while the address is empty. -/
inductive Refuses (r : Request) (input : Except OpenError (List UInt8)) : FileError → Prop where
  | unopened {e : OpenError} (h : input = .error e) : Refuses r input (.unopened r.file e)
  | undecoded {bytes : List UInt8} {e : Utf8.Error} (h : input = .ok bytes)
      (hno : ∀ t, Utf8.encode t ≠ bytes) (he : Utf8.decode bytes = .error e) :
      Refuses r input (.undecoded e)
  | unreadable {t u : Text} {e : ParseError} (h : input = .ok (Utf8.encode t))
      (hu : Text.Unifies t u) (hparse : Document.parse r.query.filename u = .error e) :
      Refuses r input (.failed (.unreadable e))
  | emptyAddress {t u : Text} {d : Document} (h : input = .ok (Utf8.encode t))
      (hu : Text.Unifies t u) (hparse : Document.parse r.query.filename u = .ok d)
      (hempty : r.address = []) : Refuses r input (.failed .emptyAddress)

variable {r : Request} {input : Except OpenError (List UInt8)}

/-- Input that is UTF-8 is answered by the query, with line feeds for line breaks. -/
theorem answer_encode (r : Request) {t u : Text} (hu : Text.Unifies t u) :
    r.answer (.ok (Utf8.encode t)) = (r.query.run u).mapError .failed := by
  have hsource : sourceText r.file (.ok (Utf8.encode t)) = .ok u := by
    unfold sourceText
    dsimp only
    rw [Utf8.decode_eq_ok_iff.mpr rfl]
    exact congrArg _ (Text.unifies_iff.mp hu)
  rw [answer, hsource]

theorem mem_addresses_iff : [] ∈ r.query.addresses ↔ r.address = [] := by
  rw [query, Query.get, List.mem_singleton, eq_comm]

theorem answer_of_refuses {e : FileError} (h : r.Refuses input e) : r.answer input = .error e := by
  cases h with
  | unopened h => rw [h]; rfl
  | undecoded h _ he => simp [h, answer, sourceText, he]
  | unreadable h hu hparse =>
    rw [h, answer_encode r hu, Query.run_of_unreadable hparse]
    rfl
  | emptyAddress h hu hparse hempty =>
    rw [h, answer_encode r hu, Query.run_of_emptyAddress hparse (mem_addresses_iff.mpr hempty)]
    rfl

theorem answer_of_run {t u out : Text} (h : input = .ok (Utf8.encode t)) (hu : Text.Unifies t u)
    (hrun : r.query.run u = .ok out) : r.answer input = .ok out := by
  rw [h, answer_encode r hu, hrun]
  rfl

/-- A request is refused or answered. -/
theorem answer_cases (r : Request) (input : Except OpenError (List UInt8)) :
    (∃ e, r.Refuses input e) ∨
      ∃ t u out, input = .ok (Utf8.encode t) ∧ Text.Unifies t u ∧ r.query.run u = .ok out := by
  cases input with
  | error e => exact Or.inl ⟨_, .unopened rfl⟩
  | ok bytes =>
    cases hdecode : Utf8.decode bytes with
    | error e =>
      refine Or.inl ⟨_, .undecoded rfl (fun t ht => ?_) hdecode⟩
      rw [Utf8.decode_eq_ok_iff.mpr ht.symm] at hdecode
      cases hdecode
    | ok t =>
      obtain rfl := Utf8.decode_eq_ok_iff.mp hdecode
      have hu := Text.unifies_unifyBreaks t
      obtain ⟨e, h⟩ | ⟨d, h, hempty⟩ | ⟨d, d', out, h, -, hselect, hwrite⟩ :=
        r.query.run_cases (Text.unifyBreaks t)
      · exact Or.inl ⟨_, .unreadable rfl hu h⟩
      · exact Or.inl ⟨_, .emptyAddress rfl hu h (mem_addresses_iff.mp hempty)⟩
      · exact Or.inr ⟨t, _, out, rfl, hu, Query.run_of_answer h hselect hwrite⟩

end Request

/-! ## The log and the outcome -/

/-- The outcome with the records of the log in front of the report, if the log is asked for. -/
def Outcome.logged (o : Outcome) (log : List String) (asked : Bool) : Outcome :=
  { o with stderr := (if asked then String.join log else "") ++ o.stderr }

theorem Outcome.stderr_logged_true (o : Outcome) (log : List String) :
    (o.logged log true).stderr = String.join log ++ o.stderr := rfl

@[simp] theorem Outcome.logged_false (o : Outcome) (log : List String) :
    o.logged log false = o := by
  simp [logged]

namespace Request

variable {r : Request} {input : Except OpenError (List UInt8)}

/-- Every record of the log starts with its mark. -/
theorem exists_of_mem_log {trace : List String} {record : String}
    (h : record ∈ r.log input trace) : ∃ text, record = "[DEBUG] " ++ text ++ "\n" := by
  obtain ⟨e, -, rfl⟩ := List.mem_map.mp h
  exact ⟨e.message, rfl⟩

theorem oneLine_steps (hname : '\n' ∉ r.query.filename.toList) (haddress : '\n' ∉ r.address) :
    ∀ e ∈ r.steps input, e.OneLine := by
  unfold steps
  split
  · simp
  · refine Query.oneLine_events hname (fun t ht => ?_) _
    rw [List.mem_singleton.mp ht]
    exact haddress

/-! ### Requests that are refused -/

section Refused

variable {e : FileError} (h : r.Refuses input e)
include h

theorem log_of_refuses (trace : List String) :
    r.log input trace = (r.steps input).map Event.record ++
      ["[DEBUG] attribute get failed\n" ++ String.join (trace.map (· ++ "\n"))] := by
  rw [log, events, answer_of_refuses h, List.map_append, List.map_singleton, Event.record_failed]

theorem outcome_of_refuses (hnul : '\x00' ∉ r.file) (verbose debug : Bool)
    (trace : List String) :
    outcome { r with verbose } debug input trace =
      .ok (Outcome.logged { exit := 1, stderr := s!"Error: {e.message}\n" } (r.log input trace)
        (verbose || debug)) := by
  have hanswer : answer { r with verbose } input = .error e :=
    answer_of_refuses (r := r) h
  unfold outcome
  rw [if_neg (by simpa using hnul), hanswer]
  rfl

theorem unmarked_of_refuses (hname : '\n' ∉ r.query.filename.toList)
    (haddress : '\n' ∉ r.address) (trace : List String) (report : String) :
    unmarked (String.join (r.log input trace) ++ report) =
      trace.flatMap unmarked ++ unmarked report := by
  rw [log_of_refuses h, String.join_append, String.append_assoc,
    Event.unmarked_records (oneLine_steps hname haddress), ← Event.record_failed,
    String.join_cons, String.join_nil, String.append_empty, Event.unmarked_failed]

end Refused

/-! ### Requests that are answered -/

section Answered

variable {out : Text} (h : r.answer input = .ok out)
include h

theorem log_of_answer (trace : List String) :
    r.log input trace = (r.steps input).map Event.record := by
  rw [log, events, h]

theorem outcome_of_answer (hnul : '\x00' ∉ r.file) (verbose debug : Bool)
    (trace : List String) :
    outcome { r with verbose } debug input trace =
      .ok (Outcome.logged { stdout := String.ofList out } (r.log input trace)
        (verbose || debug)) := by
  have hanswer : answer { r with verbose } input = .ok out := h
  unfold outcome
  rw [if_neg (by simpa using hnul), hanswer]
  simp only [Outcome.logged, String.append_empty]
  rfl

theorem unmarked_of_answer (hname : '\n' ∉ r.query.filename.toList)
    (haddress : '\n' ∉ r.address) (trace : List String) (report : String) :
    unmarked (String.join (r.log input trace) ++ report) = unmarked report := by
  rw [log_of_answer h, Event.unmarked_records (oneLine_steps hname haddress)]

end Answered

end Request

/-- The option for the log and the environment do the same, and nothing but add the log. -/
theorem outcome_of_logged {r : Request} {opened : Text → Except OpenError (List UInt8)}
    {stdin : List UInt8} {trace : List String} {quiet : Outcome} {log : List String}
    (h : ∀ verbose debug,
      Request.outcome { r with verbose } debug (r.input opened stdin) trace =
        .ok (quiet.logged log (verbose || debug)))
    {words : List Text} {verbose : Bool} (hwords : request words = .ok { r with verbose })
    (debug : Bool) :
    outcome words debug opened stdin trace = .ok (quiet.logged log (verbose || debug)) ∧
      outcome ("-v".toList :: words) debug opened stdin trace = .ok (quiet.logged log true) := by
  have houtcome : ∀ {words verbose}, request words = .ok { r with verbose } →
      outcome words debug opened stdin trace = .ok (quiet.logged log (verbose || debug)) := by
    intro words verbose hwords
    rw [outcome, hwords]
    exact h verbose debug
  refine ⟨houtcome hwords, ?_⟩
  have hverbose : request ("-v".toList :: words) = .ok { r with verbose := true } := by
    rw [request_verbose, hwords]
    rfl
  exact houtcome hverbose

/-! ### Lines without a mark -/

/-- The option for the log adds no line without a mark. -/
def KeepsUnmarked (words : List Text) (opened : Text → Except OpenError (List UInt8))
    (stdin : List UInt8) (trace : List String) : Prop :=
  ∀ quiet loud, outcome words false opened stdin trace = .ok quiet →
    outcome ("-v".toList :: words) false opened stdin trace = .ok loud →
      unmarked loud.stderr = unmarked quiet.stderr

theorem not_keepsUnmarked_of_lines {r : Request} {opened : Text → Except OpenError (List UInt8)}
    {stdin : List UInt8} {trace : List String} {quiet : Outcome} {log : List String}
    (h : ∀ verbose debug,
      Request.outcome { r with verbose } debug (r.input opened stdin) trace =
        .ok (quiet.logged log (verbose || debug)))
    {words : List Text} (hwords : request words = .ok { r with verbose := false })
    {lines : List Text}
    (hlines : unmarked (String.join log ++ quiet.stderr) = lines ++ unmarked quiet.stderr)
    (hne : lines ≠ []) :
    ¬ KeepsUnmarked words opened stdin trace := by
  intro hkeeps
  obtain ⟨hquiet, hloud⟩ := outcome_of_logged h hwords false
  rw [Bool.or_self, Outcome.logged_false] at hquiet
  have hsame := hkeeps _ _ hquiet hloud
  rw [Outcome.stderr_logged_true, hlines] at hsame
  exact hne (List.append_left_eq_self.mp hsame)

/-- A line feed in the address is printed as it is, so a record of the log goes on in a line without
    a mark; and so does the record of a failure, in the lines of its trace. -/
theorem not_keepsUnmarked :
    ¬ KeepsUnmarked ["attribute".toList, "get".toList, "a\nb.c".toList]
        (fun _ => .error .notFound) [] [] ∧
      ¬ KeepsUnmarked ["attribute".toList, "get".toList, "a".toList, "-f".toList, "x".toList]
        (fun _ => .error .notFound) [] ["Traceback (most recent call last):"] := by
  constructor
  · let r : Request := ⟨false, ['-'], "a\nb.c".toList, .value⟩
    let lines := ["[DEBUG] parsed <stdin>: 0 tokens, 0 top-level items",
      "[DEBUG] apply filter AttributeGet", "[DEBUG] address a\nb: 0 block(s) of type 'a\\nb'"]
    have hanswer : r.answer (.ok []) = .ok [] := by decide +kernel
    have hsteps : r.steps (.ok []) =
        [.parsed unnamedSource 0 0, .filtering, .searched "a\nb".toList [] 0] := by decide +kernel
    have hlog : r.log (.ok []) [] = lines.map (· ++ "\n") := by
      rw [Request.log_of_answer hanswer, hsteps]
      rfl
    have hline : lines.flatMap unmarked = ["b: 0 block(s) of type 'a\\nb'".toList] := by
      decide +kernel
    have hlines : unmarked (String.join (r.log (.ok []) []) ++ "") =
        ["b: 0 block(s) of type 'a\\nb'".toList] ++ unmarked "" := by
      rw [hlog, unmarked_lines, hline]
    exact not_keepsUnmarked_of_lines (r := r)
      (fun verbose debug => Request.outcome_of_answer hanswer (by decide) verbose debug [])
      rfl hlines (List.cons_ne_nil _ _)
  · let r : Request := ⟨false, ['x'], ['a'], .value⟩
    have hrefuses : r.Refuses (r.input (fun _ => .error .notFound) [])
        (.unopened ['x'] .notFound) := .unopened rfl
    have hline : ["Traceback (most recent call last):"].flatMap unmarked =
        ["Traceback (most recent call last):".toList] := by decide +kernel
    have hlines := Request.unmarked_of_refuses hrefuses (by decide) (by decide)
      ["Traceback (most recent call last):"]
    rw [hline] at hlines
    exact not_keepsUnmarked_of_lines (r := r)
      (fun verbose debug => Request.outcome_of_refuses hrefuses (by decide) verbose debug
        ["Traceback (most recent call last):"]) rfl (hlines _) (List.cons_ne_nil _ _)

/-- A request for a path without NUL does not crash, whatever the system says, and its outcome is
    one and the same, but for the records of the log in front of the report. It fails exactly if the
    request is refused: then the exit status is 1, nothing is printed, and the report is one error
    message. Else the exit status is 0, there is no report, and what is printed is what the query
    writes for the decoded text with line feeds for line breaks.

    A record starts with the mark of the log. The record of a failure comes last and goes on with
    the lines of the trace. No other line without a mark is added, unless a line feed stands in the
    name of the source or in the address. -/
theorem outcome_of_request (r : Request) (hnul : '\x00' ∉ r.file)
    (opened : Text → Except OpenError (List UInt8)) (stdin : List UInt8) :
    ∃ (quiet : Outcome) (log : List String → List String),
      (∀ words verbose debug trace, request words = .ok { r with verbose } →
        outcome words debug opened stdin trace =
            .ok (quiet.logged (log trace) (verbose || debug)) ∧
          outcome ("-v".toList :: words) debug opened stdin trace =
            .ok (quiet.logged (log trace) true)) ∧
      (∀ trace, ∀ record ∈ log trace, ∃ text, record = "[DEBUG] " ++ text ++ "\n") ∧
      ((∃ e steps, r.Refuses (r.input opened stdin) e ∧
          quiet = { exit := 1, stdout := "", stderr := s!"Error: {e.message}\n" } ∧
          (∀ trace, log trace = steps ++
            ["[DEBUG] attribute get failed\n" ++ String.join (trace.map (· ++ "\n"))]) ∧
          ('\n' ∉ r.query.filename.toList → '\n' ∉ r.address → ∀ trace,
            unmarked (quiet.logged (log trace) true).stderr =
              trace.flatMap unmarked ++ unmarked quiet.stderr)) ∨
        (∀ e, ¬ r.Refuses (r.input opened stdin) e) ∧
          ∃ t u out, r.input opened stdin = .ok (Utf8.encode t) ∧
            Text.Unifies t u ∧ '\r' ∉ u ∧ r.query.run u = .ok out ∧
            quiet = { exit := 0, stdout := String.ofList out, stderr := "" } ∧
            (∀ trace, log trace = log []) ∧
            ('\n' ∉ r.query.filename.toList → '\n' ∉ r.address → ∀ trace,
              unmarked (quiet.logged (log trace) true).stderr = unmarked quiet.stderr)) := by
  obtain ⟨e, hrefuses⟩ | ⟨t, u, out, hinput, hu, hrun⟩ :=
    Request.answer_cases r (r.input opened stdin)
  · refine ⟨_, r.log (r.input opened stdin), ?runs, fun trace record => Request.exists_of_mem_log,
      Or.inl ⟨e, _, hrefuses, rfl, Request.log_of_refuses hrefuses, ?lines⟩⟩
    case runs =>
      intro words verbose debug trace hwords
      have houtcome := fun verbose debug =>
        Request.outcome_of_refuses hrefuses hnul verbose debug trace
      exact outcome_of_logged houtcome hwords debug
    case lines =>
      intro hname haddress trace
      exact Request.unmarked_of_refuses hrefuses hname haddress trace _
  · have hanswer := Request.answer_of_run hinput hu hrun
    have hanswered : ∀ e, ¬ r.Refuses (r.input opened stdin) e := by
      intro e hrefuses
      rw [Request.answer_of_refuses hrefuses] at hanswer
      cases hanswer
    refine ⟨_, r.log (r.input opened stdin), ?runs, fun trace record => Request.exists_of_mem_log,
      Or.inr ⟨hanswered, t, u, out, hinput, hu, hu.return_not_mem, hrun, rfl, ?same, ?lines⟩⟩
    case runs =>
      intro words verbose debug trace hwords
      have houtcome := fun verbose debug =>
        Request.outcome_of_answer hanswer hnul verbose debug trace
      exact outcome_of_logged houtcome hwords debug
    case same =>
      intro trace
      rw [Request.log_of_answer hanswer, Request.log_of_answer hanswer]
    case lines =>
      intro hname haddress trace
      exact Request.unmarked_of_answer hanswer hname haddress trace _

/-- A carriage return parts two attributes on the standard input, and the value of the second is
    printed, with the log and without it; and a file that may not be read is reported, behind the
    trace if the log is asked for. -/
theorem outcome_of_request_bothEnds :
    ('\x00' ∉ ['-'] ∧
      request ["attribute".toList, "get".toList, "b".toList] = .ok ⟨false, ['-'], ['b'], .value⟩ ∧
      ∃ log,
        outcome ["attribute".toList, "get".toList, "b".toList] false (fun _ => .error .notFound)
            [97, 61, 49, 13, 98, 61, 50] [] = .ok { exit := 0, stdout := "2\n", stderr := "" } ∧
          outcome ["-v".toList, "attribute".toList, "get".toList, "b".toList] false
              (fun _ => .error .notFound) [97, 61, 49, 13, 98, 61, 50] [] =
            .ok (Outcome.logged { exit := 0, stdout := "2\n", stderr := "" } log true)) ∧
    ('\x00' ∉ "/b".toList ∧
      request ["attribute".toList, "get".toList, "a".toList, "-f/b".toList] =
        .ok ⟨false, "/b".toList, ['a'], .value⟩ ∧
      ∃ steps,
        outcome ["-v".toList, "attribute".toList, "get".toList, "a".toList, "-f/b".toList] false
            (fun _ => .error (.other 13 "Permission denied")) []
            ["Traceback (most recent call last):"] =
          .ok (Outcome.logged
            { exit := 1, stdout := "", stderr := "Error: [Errno 13] Permission denied: '/b'\n" }
            (steps ++ ["[DEBUG] attribute get failed\nTraceback (most recent call last):\n"])
            true)) := by
  constructor
  · let r : Request := ⟨false, ['-'], ['b'], .value⟩
    have hnul : '\x00' ∉ ['-'] := by decide
    have hwords : request ["attribute".toList, "get".toList, "b".toList] = .ok r := by rfl
    have hanswer : r.answer (.ok [97, 61, 49, 13, 98, 61, 50]) = .ok ['2', '\n'] := by
      decide +kernel
    refine ⟨hnul, hwords, ?_⟩
    obtain ⟨quiet, log, houtcome, -,
        ⟨e, -, hrefuses, -⟩ | ⟨-, t, u, out, hinput, hu, -, hrun, rfl, -⟩⟩ :=
      outcome_of_request r hnul (fun _ => .error .notFound) [97, 61, 49, 13, 98, 61, 50]
    · have herror := hanswer.symm.trans (Request.answer_of_refuses hrefuses)
      cases herror
    · have htwo := hanswer.symm.trans (Request.answer_of_run hinput hu hrun)
      obtain rfl : ['2', '\n'] = out := Except.ok.inj htwo
      obtain ⟨hquiet, hloud⟩ := houtcome _ false false [] hwords
      rw [Bool.or_self, Outcome.logged_false] at hquiet
      exact ⟨log [], hquiet, hloud⟩
  · let r : Request := ⟨false, "/b".toList, ['a'], .value⟩
    have hnul : '\x00' ∉ "/b".toList := by decide
    have hwords : request ["attribute".toList, "get".toList, "a".toList, "-f/b".toList] =
        .ok r := by rfl
    have hanswer : r.answer (.error (.other 13 "Permission denied")) =
        .error (.unopened "/b".toList (.other 13 "Permission denied")) := by rfl
    refine ⟨hnul, hwords, ?_⟩
    obtain ⟨quiet, log, houtcome, -,
        ⟨e, steps, hrefuses, rfl, hlog, -⟩ | ⟨-, t, u, out, hinput, -⟩⟩ :=
      outcome_of_request r hnul (fun _ => .error (.other 13 "Permission denied")) []
    · have herror := hanswer.symm.trans (Request.answer_of_refuses hrefuses)
      cases herror
      have hloud := (houtcome _ false false ["Traceback (most recent call last):"] hwords).2
      rw [hlog] at hloud
      exact ⟨steps, hloud⟩
    · cases hinput

end HclQuery.Command
