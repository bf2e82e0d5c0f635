/-
  Bytes that are UTF-8, and the text they spell.

  The reader takes one byte at a time. From a first byte on it waits for a fixed number of bytes
  within bounds, and `Pending.char?` says which character these complete. It is the character that
  the bytes encode (`char?_of_encodeChar`, `encodeChar_of_char?`), so the reader undoes the encoding
  and takes nothing else: `decode_eq_ok_iff`.
-/
import HclQuery.Text.Utf8
import Mathlib.Tactic.Common

namespace HclQuery.Utf8

/-- The bytes that spell the text. -/
def encode (t : Text) : List UInt8 :=
  t.flatMap String.utf8EncodeChar

/-- The byte can stand behind the second place of a character. -/
def IsLater (b : UInt8) : Prop :=
  0x80 ≤ b.toNat ∧ b.toNat ≤ 0xBF

/-! ## Bytes as numbers -/

theorem isLater_iff {b : UInt8} : IsLater b ↔ 0x80 ≤ b ∧ b ≤ 0xBF := by
  simp only [IsLater, UInt8.le_iff_toNat_le, UInt8.reduceToNat]

theorem ofNat_eq {n : Nat} {b : UInt8} (h : n = b.toNat) : UInt8.ofNat n = b := by
  rw [h, UInt8.ofNat_toNat]

theorem toNat_ofNat_of_lt {n : Nat} (h : n < 0x100) : (UInt8.ofNat n).toNat = n := by
  rw [UInt8.toNat_ofNat']
  omega

theorem within_iff (low high b : UInt8) :
    (low ≤ b && b ≤ high) = true ↔ low.toNat ≤ b.toNat ∧ b.toNat ≤ high.toNat := by
  simp [UInt8.le_iff_toNat_le]

/-- The bounds on the second byte depend on the first. -/
theorem second_within_iff {b x y low high b₁ : UInt8} :
    ((if b = x then low else 0x80) ≤ b₁ ∧ b₁ ≤ if b = y then high else 0xBF) ↔
      ((b.toNat = x.toNat → low.toNat ≤ b₁.toNat) ∧ (b.toNat ≠ x.toNat → 0x80 ≤ b₁.toNat)) ∧
        (b.toNat = y.toNat → b₁.toNat ≤ high.toNat) ∧
        (b.toNat ≠ y.toNat → b₁.toNat ≤ 0xBF) := by
  rw [Ne, Ne, UInt8.toNat_inj, UInt8.toNat_inj]
  split <;> split <;> simp_all [UInt8.le_iff_toNat_le]

/-- The first bytes of characters of two, three and four bytes. -/
theorem lead?_eq_some_iff {b : UInt8} {p : Pending} :
    lead? b = some p ↔
      (0xC2 ≤ b.toNat ∧ b.toNat ≤ 0xDF) ∧
          p = { bytes := [b], payload := b.toNat - 0xC0, more := 1 } ∨
        (0xE0 ≤ b.toNat ∧ b.toNat ≤ 0xEF) ∧
          p = {
            bytes := [b], payload := b.toNat - 0xE0, more := 2,
            low := if b = 0xE0 then 0xA0 else 0x80, high := if b = 0xED then 0x9F else 0xBF } ∨
        (0xF0 ≤ b.toNat ∧ b.toNat ≤ 0xF4) ∧
          p = {
            bytes := [b], payload := b.toNat - 0xF0, more := 3,
            low := if b = 0xF0 then 0x90 else 0x80, high := if b = 0xF4 then 0x8F else 0xBF } := by
  have htwo := within_iff 0xC2 0xDF b
  have hthree := within_iff 0xE0 0xEF b
  have hfour := within_iff 0xF0 0xF4 b
  simp only [UInt8.reduceToNat] at htwo hthree hfour
  unfold lead?
  split
  · rename_i h
    have := htwo.mp h
    grind
  split
  · rename_i h
    have := hthree.mp h
    grind
  split
  · rename_i h
    have := hfour.mp h
    grind
  · grind

theorem more_of_lead? {b : UInt8} {p : Pending} (h : lead? b = some p) : p.more ≠ 0 := by
  obtain ⟨-, rfl⟩ | ⟨-, rfl⟩ | ⟨-, rfl⟩ := lead?_eq_some_iff.mp h <;> simp

/-! ## Characters that are complete -/

namespace Pending

/-- The character that the bytes complete, if they are as many as are to come and within their
    bounds. -/
def char? (p : Pending) : List UInt8 → Option Char
  | [] => if p.more = 0 then some (Char.ofNat p.payload) else none
  | b :: bs => if p.more ≠ 0 ∧ p.low ≤ b ∧ b ≤ p.high then (p.push b).char? bs else none

variable {p : Pending} {c : Char} {tail : List UInt8}

theorem char?_of_complete (hp : p.more = 0) :
    p.char? tail = some c ↔ tail = [] ∧ Char.ofNat p.payload = c := by
  cases tail <;> simp [char?, hp]

theorem char?_of_more (hp : p.more ≠ 0) :
    p.char? tail = some c ↔
      ∃ b bs, tail = b :: bs ∧ (p.low ≤ b ∧ b ≤ p.high) ∧ (p.push b).char? bs = some c := by
  cases tail <;> simp [char?, hp]

theorem char?_one (hp : p.more = 1) :
    p.char? tail = some c ↔
      ∃ b, tail = [b] ∧ (p.low ≤ b ∧ b ≤ p.high) ∧
        Char.ofNat (p.payload * 0x40 + (b.toNat - 0x80)) = c := by
  rw [char?_of_more (by omega)]
  constructor
  · rintro ⟨b, bs, rfl, hb, h⟩
    obtain ⟨rfl, hc⟩ := (char?_of_complete (by rw [push, hp])).mp h
    exact ⟨b, rfl, hb, hc⟩
  · rintro ⟨b, rfl, hb, hc⟩
    exact ⟨b, [], rfl, hb, (char?_of_complete (by rw [push, hp])).mpr ⟨rfl, hc⟩⟩

theorem char?_two (hp : p.more = 2) :
    p.char? tail = some c ↔
      ∃ b₁ b₂, tail = [b₁, b₂] ∧ (p.low ≤ b₁ ∧ b₁ ≤ p.high) ∧ IsLater b₂ ∧
        Char.ofNat ((p.payload * 0x40 + (b₁.toNat - 0x80)) * 0x40 + (b₂.toNat - 0x80)) = c := by
  rw [char?_of_more (by omega)]
  constructor
  · rintro ⟨b₁, bs, rfl, hb₁, h⟩
    obtain ⟨b₂, rfl, hb₂, hc⟩ := (char?_one (by rw [push, hp])).mp h
    exact ⟨b₁, b₂, rfl, hb₁, isLater_iff.mpr hb₂, hc⟩
  · rintro ⟨b₁, b₂, rfl, hb₁, hb₂, hc⟩
    exact ⟨b₁, [b₂], rfl, hb₁,
      (char?_one (by rw [push, hp])).mpr ⟨b₂, rfl, isLater_iff.mp hb₂, hc⟩⟩

theorem char?_three (hp : p.more = 3) :
    p.char? tail = some c ↔
      ∃ b₁ b₂ b₃, tail = [b₁, b₂, b₃] ∧ (p.low ≤ b₁ ∧ b₁ ≤ p.high) ∧ IsLater b₂ ∧ IsLater b₃ ∧
        Char.ofNat (((p.payload * 0x40 + (b₁.toNat - 0x80)) * 0x40 + (b₂.toNat - 0x80)) * 0x40 +
          (b₃.toNat - 0x80)) = c := by
  rw [char?_of_more (by omega)]
  constructor
  · rintro ⟨b₁, bs, rfl, hb₁, h⟩
    obtain ⟨b₂, b₃, rfl, hb₂, hb₃, hc⟩ := (char?_two (by rw [push, hp])).mp h
    exact ⟨b₁, b₂, b₃, rfl, hb₁, isLater_iff.mpr hb₂, hb₃, hc⟩
  · rintro ⟨b₁, b₂, b₃, rfl, hb₁, hb₂, hb₃, hc⟩
    exact ⟨b₁, [b₂, b₃], rfl, hb₁,
      (char?_two (by rw [push, hp])).mpr ⟨b₂, b₃, rfl, isLater_iff.mp hb₂, hb₃, hc⟩⟩

end Pending

/-! ## One character -/

theorem ofNat_eq_of_toNat {n : Nat} {c : Char} (h : n = c.toNat) : Char.ofNat n = c := by
  rw [h, Char.ofNat_toNat]

theorem toNat_of_ofNat {n : Nat} {c : Char} (h : Char.ofNat n = c)
    (hn : n < 0xD800 ∨ 0xDFFF < n ∧ n < 0x110000) : c.toNat = n := by
  rw [← h, Char.ofNat, dif_pos hn]
  rfl

theorem toNat_cases (c : Char) : c.toNat < 0xD800 ∨ 0xDFFF < c.toNat ∧ c.toNat < 0x110000 :=
  c.valid

variable {c : Char} {b : UInt8} {tail : List UInt8}

theorem encodeChar_one (h : c.toNat < 0x80) :
    String.utf8EncodeChar c = [UInt8.ofNat c.toNat] := by
  rw [String.utf8EncodeChar, Char.toNat_val, if_pos (by omega)]

theorem encodeChar_two (h : 0x80 ≤ c.toNat ∧ c.toNat < 0x800) :
    String.utf8EncodeChar c =
      [UInt8.ofNat (c.toNat / 0x40 + 0xC0), UInt8.ofNat (c.toNat % 0x40 + 0x80)] := by
  rw [String.utf8EncodeChar, Char.toNat_val, if_neg (by omega), if_pos (by omega),
    Nat.mod_eq_of_lt (by omega : c.toNat / 64 < 32)]

theorem encodeChar_three (h : 0x800 ≤ c.toNat ∧ c.toNat < 0x10000) :
    String.utf8EncodeChar c =
      [UInt8.ofNat (c.toNat / 0x1000 + 0xE0), UInt8.ofNat (c.toNat / 0x40 % 0x40 + 0x80),
        UInt8.ofNat (c.toNat % 0x40 + 0x80)] := by
  rw [String.utf8EncodeChar, Char.toNat_val, if_neg (by omega), if_neg (by omega),
    if_pos (by omega), Nat.mod_eq_of_lt (by omega : c.toNat / 4096 < 16)]

theorem encodeChar_four (h : 0x10000 ≤ c.toNat) :
    String.utf8EncodeChar c =
      [UInt8.ofNat (c.toNat / 0x40000 + 0xF0), UInt8.ofNat (c.toNat / 0x1000 % 0x40 + 0x80),
        UInt8.ofNat (c.toNat / 0x40 % 0x40 + 0x80), UInt8.ofNat (c.toNat % 0x40 + 0x80)] := by
  have hvalid := toNat_cases c
  rw [String.utf8EncodeChar, Char.toNat_val, if_neg (by omega), if_neg (by omega),
    if_neg (by omega), Nat.mod_eq_of_lt (by omega : c.toNat / 262144 < 8)]

/-- The bytes of a character complete it. -/
theorem char?_of_encodeChar (h : String.utf8EncodeChar c = b :: tail) (hc : 0x80 ≤ c.toNat) :
    ∃ p, lead? b = some p ∧ p.char? tail = some c := by
  have hvalid := toNat_cases c
  -- One case for each number of bytes. The bounds on the second byte keep out what would fit into
  -- fewer bytes, the surrogates, and what is above the last character.
  have hlater := toNat_ofNat_of_lt (n := c.toNat % 0x40 + 0x80) (by omega)
  have hlater' := toNat_ofNat_of_lt (n := c.toNat / 0x40 % 0x40 + 0x80) (by omega)
  have hlater'' := toNat_ofNat_of_lt (n := c.toNat / 0x1000 % 0x40 + 0x80) (by omega)
  by_cases htwo : c.toNat < 0x800
  · rw [encodeChar_two ⟨hc, htwo⟩] at h
    obtain ⟨rfl, rfl⟩ := List.cons.inj h
    have hb := toNat_ofNat_of_lt (n := c.toNat / 0x40 + 0xC0) (by omega)
    refine ⟨_, lead?_eq_some_iff.mpr (Or.inl ⟨by omega, rfl⟩), (Pending.char?_one rfl).mpr ?_⟩
    refine ⟨_, rfl, isLater_iff.mp (by rw [IsLater]; omega), ofNat_eq_of_toNat ?_⟩
    rw [hb, hlater]
    dsimp only
    omega
  by_cases hthree : c.toNat < 0x10000
  · rw [encodeChar_three ⟨by omega, hthree⟩] at h
    obtain ⟨rfl, rfl⟩ := List.cons.inj h
    have hb := toNat_ofNat_of_lt (n := c.toNat / 0x1000 + 0xE0) (by omega)
    refine ⟨_, lead?_eq_some_iff.mpr (Or.inr (Or.inl ⟨by omega, rfl⟩)),
      (Pending.char?_two rfl).mpr ?_⟩
    refine ⟨_, _, rfl, second_within_iff.mpr ?_, by rw [IsLater]; omega, ofNat_eq_of_toNat ?_⟩
    · rw [hb, hlater']
      simp only [UInt8.reduceToNat]
      omega
    · rw [hb, hlater, hlater']
      dsimp only
      omega
  · rw [encodeChar_four (by omega)] at h
    obtain ⟨rfl, rfl⟩ := List.cons.inj h
    have hb := toNat_ofNat_of_lt (n := c.toNat / 0x40000 + 0xF0) (by omega)
    refine ⟨_, lead?_eq_some_iff.mpr (Or.inr (Or.inr ⟨by omega, rfl⟩)),
      (Pending.char?_three rfl).mpr ?_⟩
    refine ⟨_, _, _, rfl, second_within_iff.mpr ?_, by rw [IsLater]; omega,
      by rw [IsLater]; omega, ofNat_eq_of_toNat ?_⟩
    · rw [hb, hlater'']
      simp only [UInt8.reduceToNat]
      omega
    · rw [hb, hlater, hlater', hlater'']
      dsimp only
      omega

/-- A character is completed by its bytes only. -/
theorem encodeChar_of_char? {p : Pending} (hp : lead? b = some p) (h : p.char? tail = some c) :
    String.utf8EncodeChar c = b :: tail := by
  obtain ⟨hb, rfl⟩ | ⟨hb, rfl⟩ | ⟨hb, rfl⟩ := lead?_eq_some_iff.mp hp
  · obtain ⟨b₁, rfl, hb₁, hc⟩ := (Pending.char?_one rfl).mp h
    rw [← isLater_iff, IsLater] at hb₁
    have hvalue := toNat_of_ofNat hc (by dsimp only; omega)
    dsimp only at hvalue
    rw [encodeChar_two (by omega), ofNat_eq (b := b) (by omega), ofNat_eq (b := b₁) (by omega)]
  · obtain ⟨b₁, b₂, rfl, hb₁, hb₂, hc⟩ := (Pending.char?_two rfl).mp h
    rw [second_within_iff] at hb₁
    simp only [UInt8.reduceToNat] at hb₁
    rw [IsLater] at hb₂
    have hvalue := toNat_of_ofNat hc (by dsimp only; omega)
    dsimp only at hvalue
    rw [encodeChar_three (by omega), ofNat_eq (b := b) (by omega), ofNat_eq (b := b₁) (by omega),
      ofNat_eq (b := b₂) (by omega)]
  · obtain ⟨b₁, b₂, b₃, rfl, hb₁, hb₂, hb₃, hc⟩ := (Pending.char?_three rfl).mp h
    rw [second_within_iff] at hb₁
    simp only [UInt8.reduceToNat] at hb₁
    rw [IsLater] at hb₂ hb₃
    have hvalue := toNat_of_ofNat hc (by dsimp only; omega)
    dsimp only at hvalue
    rw [encodeChar_four (by omega), ofNat_eq (b := b) (by omega), ofNat_eq (b := b₁) (by omega),
      ofNat_eq (b := b₂) (by omega), ofNat_eq (b := b₃) (by omega)]

theorem encodeChar_ne_nil (c : Char) : String.utf8EncodeChar c ≠ [] := by
  unfold String.utf8EncodeChar
  dsimp only
  split
  · simp
  split
  · simp
  split <;> simp

/-- Bytes that start with those of a character, as the reader tells them. -/
theorem cons_eq_encodeChar_append_iff {bytes rest : List UInt8} :
    b :: bytes = String.utf8EncodeChar c ++ rest ↔
      if b < 0x80 then Char.ofNat b.toNat = c ∧ bytes = rest
      else ∃ p, lead? b = some p ∧ ∃ tail, bytes = tail ++ rest ∧ p.char? tail = some c := by
  have hsmall : b < 0x80 ↔ b.toNat < 0x80 := UInt8.lt_iff_toNat_lt
  split
  · rename_i hb
    rw [hsmall] at hb
    constructor
    · intro h
      by_cases hc : c.toNat < 0x80
      · rw [encodeChar_one hc] at h
        obtain ⟨rfl, rfl⟩ := List.cons.inj h
        exact ⟨ofNat_eq_of_toNat (toNat_ofNat_of_lt (by omega)), rfl⟩
      · obtain ⟨d, tail, hchar⟩ := List.exists_cons_of_ne_nil (encodeChar_ne_nil c)
        rw [hchar] at h
        obtain ⟨rfl, -⟩ := List.cons.inj h
        obtain ⟨p, hp, -⟩ := char?_of_encodeChar hchar (by omega)
        have := lead?_eq_some_iff.mp hp
        omega
    · rintro ⟨hc, rfl⟩
      have hvalue := toNat_of_ofNat hc (by omega)
      rw [encodeChar_one (by omega), ofNat_eq hvalue]
      rfl
  · rename_i hb
    rw [hsmall] at hb
    constructor
    · intro h
      by_cases hc : c.toNat < 0x80
      · rw [encodeChar_one hc] at h
        obtain ⟨rfl, -⟩ := List.cons.inj h
        rw [toNat_ofNat_of_lt (by omega)] at hb
        exact absurd hc hb
      · obtain ⟨d, tail, hchar⟩ := List.exists_cons_of_ne_nil (encodeChar_ne_nil c)
        rw [hchar] at h
        obtain ⟨rfl, rfl⟩ := List.cons.inj h
        obtain ⟨p, hp, htail⟩ := char?_of_encodeChar hchar (by omega)
        exact ⟨p, hp, tail, rfl, htail⟩
    · rintro ⟨p, hp, tail, rfl, htail⟩
      rw [encodeChar_of_char? hp htail]
      rfl

/-! ## Whole texts -/

theorem map_cons_eq_ok_iff {e : Except Error Text} {d : Char} {t : Text} :
    e.map (d :: ·) = .ok (c :: t) ↔ d = c ∧ e = .ok t := by
  cases e <;> simp [Except.map]

theorem map_cons_ne_nil {e : Except Error Text} : e.map (c :: ·) ≠ .ok [] := by
  cases e <;> simp [Except.map]

/-- The byte in front is one of those that complete the character. -/
theorem exists_char?_cons {p : Pending} (hp : p.more ≠ 0) {bytes rest : List UInt8} :
    (∃ tail, b :: bytes = tail ++ rest ∧ p.char? tail = some c) ↔
      (p.low ≤ b ∧ b ≤ p.high) ∧ ∃ tail, bytes = tail ++ rest ∧ (p.push b).char? tail = some c := by
  constructor
  · rintro ⟨tail, heq, hchar⟩
    obtain ⟨d, bs, rfl, hd, hpush⟩ := (Pending.char?_of_more hp).mp hchar
    obtain ⟨rfl, rfl⟩ := List.cons.inj heq
    exact ⟨hd, bs, rfl, hpush⟩
  · rintro ⟨hb, tail, rfl, hpush⟩
    exact ⟨b :: tail, rfl, (Pending.char?_of_more hp).mpr ⟨b, tail, rfl, hb, hpush⟩⟩

/-- Behind the first byte of a character, its other bytes are read and then the text after it. -/
theorem decodeFrom_some_iff {t : Text}
    (ht : ∀ {start rest}, decodeFrom start none rest = .ok t ↔ rest = encode t) {start : Nat}
    {p : Pending} (hp : p.more ≠ 0) {bytes : List UInt8} :
    decodeFrom start (some p) bytes = .ok (c :: t) ↔
      ∃ tail, bytes = tail ++ encode t ∧ p.char? tail = some c := by
  induction bytes generalizing p with
  | nil =>
    refine iff_of_false (fun h => ?_) ?_
    · cases h
    · rintro ⟨tail, heq, hchar⟩
      obtain ⟨d, bs, rfl, -⟩ := (Pending.char?_of_more hp).mp hchar
      cases heq
  | cons b bytes ih =>
    rw [exists_char?_cons hp]
    unfold decodeFrom
    by_cases hbounds : p.low ≤ b ∧ b ≤ p.high
    · rw [if_pos (by simpa using hbounds), and_iff_right hbounds]
      dsimp only
      by_cases hmore : (p.push b).more = 0
      · rw [if_pos hmore, map_cons_eq_ok_iff, ht]
        simp [Pending.char?_of_complete hmore, and_comm]
      · rw [if_neg hmore]
        exact ih hmore
    · rw [if_neg (by simpa using hbounds)]
      refine iff_of_false (fun h => ?_) fun h => hbounds h.1
      cases h

theorem decodeFrom_some_ne_nil {start : Nat} {p : Pending} {bytes : List UInt8} :
    decodeFrom start (some p) bytes ≠ .ok [] := by
  induction bytes generalizing p with
  | nil => simp [decodeFrom]
  | cons b bytes ih =>
    unfold decodeFrom
    split
    · dsimp only
      split
      · exact map_cons_ne_nil
      · exact ih
    · simp

theorem decodeFrom_none_iff {start : Nat} {bytes : List UInt8} {t : Text} :
    decodeFrom start none bytes = .ok t ↔ bytes = encode t := by
  induction t generalizing start bytes with
  | nil =>
    cases bytes with
    | nil => exact iff_of_true rfl rfl
    | cons b bytes =>
      refine iff_of_false ?_ (List.cons_ne_nil b bytes)
      unfold decodeFrom
      split
      · exact map_cons_ne_nil
      · split
        · exact decodeFrom_some_ne_nil
        · simp
  | cons c t ih =>
    rw [encode, List.flatMap_cons, ← encode]
    cases bytes with
    | nil =>
      refine iff_of_false (fun h => ?_) fun h => ?_
      · cases h
      · exact encodeChar_ne_nil c (List.append_eq_nil_iff.mp h.symm).1
    | cons b bytes =>
      rw [cons_eq_encodeChar_append_iff]
      unfold decodeFrom
      split
      · rw [map_cons_eq_ok_iff, ih]
      · cases hlead : lead? b with
        | none => simp
        | some p => simp [decodeFrom_some_iff ih (more_of_lead? hlead)]

/-- Bytes are read as the text that they encode, and bytes that encode none are not read. -/
theorem decode_eq_ok_iff {bytes : List UInt8} {t : Text} :
    decode bytes = .ok t ↔ bytes = encode t :=
  decodeFrom_none_iff

end HclQuery.Utf8
