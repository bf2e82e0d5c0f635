/-
  The debug log, asked for on the command line.

  Only the outermost command has the option for it, and what a command makes of its words does not
  depend on whether the log has been asked for (`walk_loudly`). So the option in front of any
  command line makes the same request, but for the log: `request_verbose`.
-/
import HclQuery.Command.Arguments

namespace HclQuery.Command

/-- The debug log is asked for. -/
def Progress.loudly (p : Progress) : Progress :=
  { p with verbose := true }

theorem Progress.act_loudly (level : Level) (p : Progress) (o : Opt) (value : Option Text) :
    p.loudly.act level o value = (p.act level o value).map Progress.loudly := by
  unfold act loudly
  cases o.action <;> simp [Except.map]
  grind

theorem Progress.actAll_loudly (level : Level) (p : Progress) (os : List (Opt × Option Text)) :
    p.loudly.actAll level os = (p.actAll level os).map Progress.loudly := by
  induction os generalizing p with
  | nil => rfl
  | cons o os ih =>
    obtain ⟨o, value⟩ := o
    rw [actAll, actAll, act_loudly]
    cases p.act level o value with
    | error halt => rfl
    | ok p' => exact ih p'

@[simp] theorem Progress.keep_loudly (p : Progress) (words : List Text) :
    p.loudly.keep words = (p.keep words).loudly := rfl

@[simp] theorem Progress.withAddress_loudly (p : Progress) (address : Text) :
    p.loudly.withAddress address = (p.withAddress address).loudly := rfl

@[simp] theorem Progress.address_loudly (p : Progress) : p.loudly.address = p.address := rfl

@[simp] theorem Progress.extras_loudly (p : Progress) : p.loudly.extras = p.extras := rfl

@[simp] theorem Progress.verbose_loudly (p : Progress) : p.loudly.verbose = true := rfl

/-- A command takes the same words whether the log is asked for or not. -/
theorem walk_loudly (level : Level) (p : Progress) (ws : List (Text × Word)) :
    walk level p.loudly ws = (walk level p ws).map fun q => (q.1.loudly, q.2) := by
  -- One case for each way a word is taken; none of them looks at whether the log is asked for.
  fun_induction walk level p ws <;> rw [walk.eq_def] <;>
    simp_all [Progress.actAll_loudly, Except.map]
 
/-- In front of all words, the option is the first thing that the outermost command meets. -/
theorem readWords_verbose (words : List Text) :
    readWords .program ("-v".toList :: words) =
      (readWords .program words).map fun q => (q.1.loudly, q.2) := by
  have hword : Word.of .program "-v".toList =
      .ok (.known ⟨["-v".toList, "--verbose".toList], .verbose⟩ false none) := by rfl
  unfold readWords
  rw [Word.ofAll, if_neg (by decide), hword]
  cases Word.ofAll .program words with
  | error e => rfl
  | ok ws => exact walk_loudly .program {} ws

theorem Progress.request_verbose (p : Progress) (verbose : Bool) (address : Text) :
    p.request true address =
      (p.request verbose address).map fun r => { r with verbose := true } := by
  unfold request
  cases p.format with
  | none => rfl
  | some format => cases p.file <;> rfl

theorem map_bind {ε α β γ : Type} (e : Except ε α) (f : α → β) (g : β → Except ε γ) :
    e.map f >>= g = e >>= fun a => g (f a) := by
  cases e <;> rfl

/-- A change of the result may wait for the last stage. -/
theorem bind_eq_map_bind {ε α β : Type} {e : Except ε α} {g g' : α → Except ε β} {f : β → β}
    (h : ∀ a, g' a = (g a).map f) : e >>= g' = (e >>= g).map f := by
  cases e with
  | error _ => rfl
  | ok a => exact h a

/-- The option in front makes the same request, with the debug log. -/
theorem request_verbose (words : List Text) :
    request ("-v".toList :: words) =
      (request words).map fun r => { r with verbose := true } := by
  unfold request
  rw [readWords_verbose, map_bind]
  refine bind_eq_map_bind fun (outer, next) => bind_eq_map_bind fun words =>
    bind_eq_map_bind fun (middle, next) => bind_eq_map_bind fun words =>
    bind_eq_map_bind fun (inner, next) => ?_
  dsimp only
  cases inner.address with
  | none => rfl
  | some address =>
    simp only [Progress.extras_loudly, Progress.verbose_loudly,
      Progress.request_verbose inner outer.verbose address]
    by_cases hextras : (outer.extras ++ middle.extras ++ inner.extras).isEmpty = true
    · rw [if_pos hextras, if_pos hextras]
      cases inner.request outer.verbose address <;> rfl
    · rw [if_neg hextras, if_neg hextras]
      rfl

end HclQuery.Command
