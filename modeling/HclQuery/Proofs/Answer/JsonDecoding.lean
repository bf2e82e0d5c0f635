/-
  Reading JSON, and reading back what is written as JSON.

  `Json.decode` reads a whole JSON text: any value, with blanks wherever JSON allows them. An
  escape stands for a UTF-16 code unit, two of them for a character beyond the first plane; code
  units that are no character are refused, and so are control characters that are not escaped.
  `decode_json`: an answer is read back as the object of its address and its value.
-/
import HclQuery.Answer.Json
import HclQuery.Text.Pattern

namespace HclQuery

namespace Json

/-! ## Values -/

/-- A JSON value. A number is kept as it is spelled, and an object in the order of its members. -/
inductive Value where
  | null
  | boolean (b : Bool)
  | number (spelling : Text)
  | string (t : Text)
  | array (items : List Value)
  | object (members : List (Text × Value))

/-! ## Strings -/

/-- The value of a hex digit. -/
def hexDigit? (c : Char) : Option Nat :=
  if '0' ≤ c ∧ c ≤ '9' then some (c.toNat - '0'.toNat)
  else if 'a' ≤ c ∧ c ≤ 'f' then some (c.toNat - 'a'.toNat + 10)
  else if 'A' ≤ c ∧ c ≤ 'F' then some (c.toNat - 'A'.toNat + 10)
  else none

/-- The code unit that the four hex digits at the front spell. -/
def codeUnit? : Text → Option Nat
  | a :: b :: c :: d :: _ => do
    let a ← hexDigit? a
    let b ← hexDigit? b
    let c ← hexDigit? c
    let d ← hexDigit? d
    return ((a * 16 + b) * 16 + c) * 16 + d
  | _ => none

/-- The second of two code units, an escape of its own. -/
def lowUnit? : Text → Option Nat
  | '\\' :: 'u' :: cs => (codeUnit? cs).filter fun unit => 0xDC00 ≤ unit && unit < 0xE000
  | _ => none

/-- The character behind `\u`, and the number of characters that spell it. -/
def unicode? (cs : Text) : Option (Char × Nat) :=
  match codeUnit? cs with
  | none => none
  | some unit =>
    if unit < 0xD800 || 0xE000 ≤ unit then some (Char.ofNat unit, 4)
    else if unit < 0xDC00 then
      (lowUnit? (cs.drop 4)).map fun low =>
        (Char.ofNat (0x10000 + (unit - 0xD800) * 0x400 + (low - 0xDC00)), 10)
    else none

/-- The character that a backslash and the text after it stand for, and the number of characters
    after the backslash that belong to it. -/
def escape? : Text → Option (Char × Nat)
  | '"' :: _ => some ('"', 1)
  | '\\' :: _ => some ('\\', 1)
  | '/' :: _ => some ('/', 1)
  | 'b' :: _ => some ('\x08', 1)
  | 'f' :: _ => some ('\x0c', 1)
  | 'n' :: _ => some ('\n', 1)
  | 'r' :: _ => some ('\r', 1)
  | 't' :: _ => some ('\t', 1)
  | 'u' :: cs => (unicode? cs).map fun r => (r.1, r.2 + 1)
  | _ => none

/-- The character at the front of `c :: cs` inside a string, and the number of characters of `cs`
    that belong to it. -/
def character? (c : Char) (cs : Text) : Option (Char × Nat) :=
  if c = '\\' then escape? cs
  else if c.toNat < 0x20 then none
  else some (c, 0)

/-- The inside of a string up to its closing quote, the first `skip` characters passed over, and
    the text after the quote. -/
def inside? (skip : Nat) : Text → Option (Text × Text)
  | [] => none
  | c :: cs =>
    match skip with
    | skip + 1 => inside? skip cs
    | 0 =>
      if c = '"' then some ([], cs)
      else
        match character? c cs with
        | none => none
        | some (d, more) => (inside? more cs).map fun r => (d :: r.1, r.2)

/-! ## Numbers -/

/-- How a number is spelled. -/
def numberPattern : Pattern :=
  let digit := Pattern.range '0' '9'
  .sequence
    [.optional (.among "-"),
     .either (.among "0") (.seq (.range '1' '9') (.many digit)),
     .optional (.seq (.among ".") (.oneOrMore digit)),
     .optional (.sequence [.among "eE", .optional (.among "+-"), .oneOrMore digit])]

/-- A character that numbers are spelled with. -/
def isNumeric (c : Char) : Bool :=
  c.isDigit || "+-.eE".toList.contains c

/-- The number at the front. -/
def number? (t : Text) : Option (Value × Text) :=
  let spelling := t.takeWhile isNumeric
  if numberPattern.matchesText spelling then some (.number spelling, t.dropWhile isNumeric)
  else none

/-! ## All values -/

/-- The blanks that JSON allows between its parts. -/
def isBlank (c : Char) : Bool :=
  c = ' ' || c = '\t' || c = '\n' || c = '\r'

/-- The text without blanks at its front. -/
def trim (t : Text) : Text :=
  t.dropWhile isBlank

/-- The text behind `word`, if it starts with it. -/
def behind? (word : String) (t : Text) : Option Text :=
  if word.toList.isPrefixOf t then some (t.drop word.toList.length) else none

mutual

/-- The value at the front, in no more than `n` steps, and the text after it. -/
def value? : Nat → Text → Option (Value × Text)
  | 0, _ => none
  | n + 1, t =>
    match trim t with
    | '"' :: cs => (inside? 0 cs).map fun r => (.string r.1, r.2)
    | '[' :: cs =>
      match trim cs with
      | ']' :: rest => some (.array [], rest)
      | rest => (items? n rest).map fun r => (.array r.1, r.2)
    | '\x7b' :: cs =>
      match trim cs with
      | '\x7d' :: rest => some (.object [], rest)
      | rest => (members? n rest).map fun r => (.object r.1, r.2)
    | cs =>
      ((behind? "null" cs).map (.null, ·)) <|> ((behind? "true" cs).map (.boolean true, ·)) <|>
        ((behind? "false" cs).map (.boolean false, ·)) <|> number? cs

/-- The items of an array, at least one, and the text after the bracket that closes it. -/
def items? : Nat → Text → Option (List Value × Text)
  | 0, _ => none
  | n + 1, t =>
    match value? n t with
    | none => none
    | some (v, rest) =>
      match trim rest with
      | ']' :: rest => some ([v], rest)
      | ',' :: rest => (items? n rest).map fun r => (v :: r.1, r.2)
      | _ => none

/-- The members of an object, at least one, and the text after the brace that closes it. -/
def members? : Nat → Text → Option (List (Text × Value) × Text)
  | 0, _ => none
  | n + 1, t =>
    match member? n t with
    | none => none
    | some (m, rest) =>
      match trim rest with
      | '\x7d' :: rest => some ([m], rest)
      | ',' :: rest => (members? n rest).map fun r => (m :: r.1, r.2)
      | _ => none

/-- A name, a colon and a value, and the text after them. -/
def member? : Nat → Text → Option ((Text × Value) × Text)
  | 0, _ => none
  | n + 1, t =>
    match trim t with
    | '"' :: cs =>
      match inside? 0 cs with
      | none => none
      | some (name, rest) =>
        match trim rest with
        | ':' :: rest => (value? n rest).map fun r => ((name, r.1), r.2)
        | _ => none
    | _ => none

end

/-- The value that the whole text spells. Every step but the last uses up a character, so that
    there are enough of them. -/
def decode (t : Text) : Option Value :=
  match value? (3 * t.length + 3) t with
  | some (v, rest) => if (trim rest).isEmpty then some v else none
  | none => none

/-! ## Reading strings back -/

theorem hexDigit?_digitChar : ∀ n < 16, hexDigit? (Nat.digitChar n) = some n := by
  decide

/-- Padded hex digits, the last one apart. -/
theorem hex_succ {width : Nat} (hwidth : 0 < width) (n : Nat) :
    Text.hex (width + 1) n = Text.hex width (n / 16) ++ [Nat.digitChar (n % 16)] := by
  unfold Text.hex
  dsimp only
  by_cases hn : n < 16
  · obtain ⟨w, rfl⟩ := Nat.exists_eq_add_of_lt hwidth
    rw [Nat.toDigits_of_lt_base hn, Nat.div_eq_of_lt hn, Nat.toDigits_zero, Nat.mod_eq_of_lt hn]
    simp [List.replicate_succ']
  · rw [Nat.toDigits_of_base_le (by decide) (by omega), List.length_append, List.length_singleton,
      Nat.add_sub_add_right, List.append_assoc]

theorem hex_four {n : Nat} (h : n < 0x10000) :
    Text.hex 4 n =
      [Nat.digitChar (n / 16 / 16 / 16), Nat.digitChar (n / 16 / 16 % 16),
        Nat.digitChar (n / 16 % 16), Nat.digitChar (n % 16)] := by
  have hone : Text.hex 1 (n / 16 / 16 / 16) = [Nat.digitChar (n / 16 / 16 / 16)] := by
    unfold Text.hex
    rw [Nat.toDigits_of_lt_base (by omega)]
    rfl
  rw [hex_succ (by decide), hex_succ (by decide), hex_succ (by decide), hone]
  rfl

theorem codeUnit?_hex {n : Nat} (h : n < 0x10000) (rest : Text) :
    codeUnit? (Text.hex 4 n ++ rest) = some n := by
  have heq : ((n / 16 / 16 / 16 * 16 + n / 16 / 16 % 16) * 16 + n / 16 % 16) * 16 + n % 16 = n := by
    omega
  rw [hex_four h]
  simp only [List.cons_append, List.nil_append, codeUnit?]
  rw [hexDigit?_digitChar _ (by omega), hexDigit?_digitChar _ (by omega),
    hexDigit?_digitChar _ (by omega), hexDigit?_digitChar _ (by omega)]
  exact congrArg some heq

theorem drop_hex {n : Nat} (h : n < 0x10000) (rest : Text) :
    (Text.hex 4 n ++ rest).drop 4 = rest := by
  rw [hex_four h]
  rfl

theorem inside?_of_character {c d : Char} {cs : Text} {more : Nat} (hc : c ≠ '"')
    (h : character? c cs = some (d, more)) :
    inside? 0 (c :: cs) = (inside? more cs).map fun r => (d :: r.1, r.2) := by
  rw [inside?, if_neg hc, h]

theorem inside?_drop (n : Nat) (t : Text) : inside? n t = inside? 0 (t.drop n) := by
  induction n generalizing t with
  | zero => rfl
  | succ n ih =>
    cases t with
    | nil => rfl
    | cons c cs =>
      rw [inside?, List.drop_succ_cons]
      exact ih cs

/-- An escape of one letter is read back. -/
theorem inside?_letter {c letter : Char} {rest : Text}
    (h : escape? (letter :: rest) = some (c, 1)) :
    inside? 0 ('\\' :: letter :: rest) = (inside? 0 rest).map fun r => (c :: r.1, r.2) := by
  rw [inside?_of_character (by decide) (show character? '\\' (letter :: rest) = _ from h),
    inside?_drop]
  rfl

/-- An escape by code units is read back. -/
theorem inside?_unicode {c : Char} {cs rest : Text} {n : Nat} (h : unicode? cs = some (c, n))
    (hrest : cs.drop n = rest) :
    inside? 0 ('\\' :: 'u' :: cs) = (inside? 0 rest).map fun r => (c :: r.1, r.2) := by
  have hescape : escape? ('u' :: cs) = some (c, n + 1) := by
    rw [escape?, h]
    rfl
  rw [inside?_of_character (by decide) (show character? '\\' ('u' :: cs) = _ from hescape),
    inside?_drop, List.drop_succ_cons, hrest]

/-- A character of the first plane, by its code unit. -/
theorem inside?_unitEscape {c : Char} (h : c.toNat < 0x10000) (rest : Text) :
    inside? 0 (unitEscape c.toNat ++ rest) = (inside? 0 rest).map fun r => (c :: r.1, r.2) := by
  rw [unitEscape, List.cons_append, List.cons_append]
  refine inside?_unicode (n := 4) ?_ (drop_hex h rest)
  have hvalid : c.toNat < 0xD800 ∨ 0xE000 ≤ c.toNat := by
    rcases c.valid with hvalid | hvalid
    · exact Or.inl hvalid
    · exact Or.inr hvalid.1
  rw [unicode?, codeUnit?_hex h]
  dsimp only
  rw [if_pos (by simpa using hvalid), Char.ofNat_toNat]

/-- A character beyond the first plane, by its two code units. -/
theorem inside?_unitEscapes {c : Char} (h : 0x10000 ≤ c.toNat) (rest : Text) :
    inside? 0 (unitEscape (0xD800 + (c.toNat - 0x10000) / 0x400) ++
        (unitEscape (0xDC00 + (c.toNat - 0x10000) % 0x400) ++ rest)) =
      (inside? 0 rest).map fun r => (c :: r.1, r.2) := by
  have hlt : c.toNat < 0x110000 := by
    rcases c.valid with hvalid | hvalid
    · exact Nat.lt_trans hvalid (by decide)
    · exact hvalid.2
  generalize hhigh : 0xD800 + (c.toNat - 0x10000) / 0x400 = high
  generalize hlow : 0xDC00 + (c.toNat - 0x10000) % 0x400 = low
  have hhigh' : high < 0x10000 := by omega
  have hlow' : low < 0x10000 := by omega
  rw [unitEscape, List.cons_append, List.cons_append]
  refine inside?_unicode (n := 10) ?_ ?_
  · have hsecond : lowUnit? (unitEscape low ++ rest) = some low := by
      rw [unitEscape, List.cons_append, List.cons_append, lowUnit?, codeUnit?_hex hlow']
      simp only [Option.filter_some]
      rw [if_pos]
      simp only [Bool.and_eq_true, decide_eq_true_eq]
      omega
    have hchar : 0x10000 + (high - 0xD800) * 0x400 + (low - 0xDC00) = c.toNat := by omega
    rw [unicode?, codeUnit?_hex hhigh']
    dsimp only
    rw [if_neg (by simp; omega), if_pos (by omega), drop_hex hhigh', hsecond]
    simp only [Option.map_some]
    rw [hchar, Char.ofNat_toNat]
  · rw [hex_four hhigh', unitEscape, hex_four hlow']
    rfl

/-- Every character is read back. -/
theorem inside?_encodeChar (c : Char) (rest : Text) :
    inside? 0 (encodeChar c ++ rest) = (inside? 0 rest).map fun r => (c :: r.1, r.2) := by
  unfold encodeChar
  iterate 7
    split
    · rename_i hc
      subst hc
      exact inside?_letter rfl
  split
  · rename_i hquote hbackslash _ _ _ _ _ hprintable
    rw [Bool.and_eq_true, decide_eq_true_eq] at hprintable
    have hread : character? c rest = some (c, 0) := by
      rw [character?, if_neg hbackslash, if_neg (by omega)]
    exact inside?_of_character hquote hread
  split
  · rename_i hunit
    exact inside?_unitEscape hunit rest
  · rename_i hunit
    rw [List.append_assoc]
    exact inside?_unitEscapes (by omega) rest

/-- Every string is read back. -/
theorem inside?_string (t rest : Text) :
    inside? 0 (t.flatMap encodeChar ++ '"' :: rest) = some (t, rest) := by
  induction t with
  | nil => rfl
  | cons c cs ih =>
    rw [List.flatMap_cons, List.append_assoc, inside?_encodeChar, ih]
    rfl

/-! ## Reading answers back -/

/-- The JSON value that an optional text is written as. -/
def Value.ofOption : Option Text → Value
  | some t => .string t
  | none => .null

theorem value?_space (n : Nat) (t : Text) : value? (n + 1) (' ' :: t) = value? (n + 1) t := by
  rw [value?, value?]
  rfl

theorem member?_space (n : Nat) (t : Text) : member? (n + 1) (' ' :: t) = member? (n + 1) t := by
  rw [member?, member?]
  rfl

theorem value?_stringOrNull (n : Nat) (value : Option Text) (rest : Text) :
    value? (n + 1) (stringOrNull value ++ rest) = some (.ofOption value, rest) := by
  cases value with
  | none => rfl
  | some t =>
    have htrim : trim (string t ++ rest) = '"' :: (t.flatMap encodeChar ++ '"' :: rest) := by
      rw [string, List.append_assoc]
      rfl
    rw [stringOrNull, value?, htrim]
    exact congrArg (Option.map fun r => (Value.string r.1, r.2)) (inside?_string t rest)

theorem member?_string (n : Nat) (name rest : Text) :
    member? (n + 1) (string name ++ ':' :: rest) =
      (value? n rest).map fun r => ((name, r.1), r.2) := by
  have htrim : trim (string name ++ ':' :: rest) =
      '"' :: (name.flatMap encodeChar ++ '"' :: ':' :: rest) := by
    rw [string, List.append_assoc]
    rfl
  have hname := inside?_string name (':' :: rest)
  rw [member?, htrim]
  split
  · rename_i cs hcs
    cases hcs
    rw [hname]
    rfl
  · rename_i hne
    exact absurd rfl (hne _)

theorem members?_last {n : Nat} {t rest : Text} {m : Text × Value}
    (h : member? n t = some (m, '\x7d' :: rest)) : members? (n + 1) t = some ([m], rest) := by
  rw [members?, h]
  rfl

theorem members?_more {n : Nat} {t rest : Text} {m : Text × Value}
    (h : member? n t = some (m, ',' :: rest)) :
    members? (n + 1) t = (members? n rest).map fun r => (m :: r.1, r.2) := by
  rw [members?, h]
  rfl

/-- A member whose value is a text or nothing, behind a space or none. -/
theorem member?_ofOption (n : Nat) (name : Text) (value : Option Text) (rest : Text) :
    member? (n + 2) (string name ++ ':' :: ' ' :: (stringOrNull value ++ rest)) =
      some ((name, .ofOption value), rest) := by
  rw [member?_string, value?_space, value?_stringOrNull]
  rfl

end Json

/-- The answer as a JSON value. -/
def Answer.object (a : Answer) : Json.Value :=
  .object [("address".toList, .string a.address), ("value".toList, .ofOption a.value)]

namespace Json

/-- An answer is read back as it is. -/
theorem decode_json (a : Answer) : decode a.json = some a.object := by
  have hshape : a.json =
      '\x7b' :: (string "address".toList ++ ':' :: ' ' :: (stringOrNull (some a.address) ++
        ',' :: ' ' :: (string "value".toList ++ ':' :: ' ' :: (stringOrNull a.value ++
          ['\x7d'])))) := by
    unfold Answer.json
    simp only [List.append_assoc]
    rfl
  obtain ⟨n, hn⟩ : ∃ n, 3 * a.json.length + 3 = n + 5 := by
    refine ⟨3 * a.json.length - 2, ?_⟩
    have : 0 < a.json.length := by
      rw [hshape]
      exact Nat.succ_pos _
    omega
  have hlast : members? (n + 3) (' ' :: (string "value".toList ++ ':' :: ' ' ::
      (stringOrNull a.value ++ ['\x7d']))) =
      some ([("value".toList, .ofOption a.value)], []) := by
    refine members?_last ?_
    rw [member?_space, member?_ofOption]
  have hmembers : members? (n + 4) (string "address".toList ++ ':' :: ' ' ::
      (stringOrNull (some a.address) ++ ',' :: ' ' :: (string "value".toList ++ ':' :: ' ' ::
        (stringOrNull a.value ++ ['\x7d'])))) =
      some ([("address".toList, .string a.address), ("value".toList, .ofOption a.value)], []) := by
    rw [members?_more (member?_ofOption (n + 1) _ _ _), hlast]
    rfl
  have hvalue : value? (n + 5) a.json = some (a.object, []) := by
    rw [hshape, value?]
    exact congrArg (Option.map _) hmembers
  rw [decode, hn, hvalue]
  rfl

end Json

end HclQuery
