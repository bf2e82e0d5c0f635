/-
  Strict UTF-8: bytes are read one at a time, and the first byte that no character can have in
  its place ends the reading. Overlong forms, surrogates and code points above U+10FFFF are ruled
  out by the bounds on the second byte.
-/
import HclQuery.Text.Quoted

namespace HclQuery.Utf8

/-- Why bytes are no UTF-8. -/
inductive Reason where
  | invalidStart
  | invalidContinuation
  | unexpectedEnd
  deriving DecidableEq

/-- The words for a reason. -/
def Reason.message : Reason → String
  | invalidStart => "invalid start byte"
  | invalidContinuation => "invalid continuation byte"
  | unexpectedEnd => "unexpected end of data"

/-- Bytes that are no UTF-8: the place of the first one, all of them, and why. -/
structure Error where
  start : Nat
  bytes : List UInt8
  reason : Reason
  deriving DecidableEq

/-- The words for an error. -/
def Error.message (e : Error) : String :=
  let what :=
    match e.bytes with
    | [b] => s!"byte 0x{String.ofList (Text.hex 2 b.toNat)} in position {e.start}"
    | _ => s!"bytes in position {e.start}-{e.start + e.bytes.length - 1}"
  s!"'utf-8' codec can't decode {what}: {e.reason.message}"

/-- A character of which some bytes are read: the bytes, their payload, how many are to come, and
    the bounds of the next one. -/
structure Pending where
  bytes : List UInt8
  payload : Nat
  more : Nat
  low : UInt8 := 0x80
  high : UInt8 := 0xBF

/-- What the first byte of a character of several bytes says. -/
def lead? (b : UInt8) : Option Pending :=
  if 0xC2 ≤ b && b ≤ 0xDF then some { bytes := [b], payload := b.toNat - 0xC0, more := 1 }
  else if 0xE0 ≤ b && b ≤ 0xEF then
    some {
      bytes := [b], payload := b.toNat - 0xE0, more := 2,
      low := if b = 0xE0 then 0xA0 else 0x80, high := if b = 0xED then 0x9F else 0xBF }
  else if 0xF0 ≤ b && b ≤ 0xF4 then
    some {
      bytes := [b], payload := b.toNat - 0xF0, more := 3,
      low := if b = 0xF0 then 0x90 else 0x80, high := if b = 0xF4 then 0x8F else 0xBF }
  else none

/-- One more byte, within its bounds. -/
def Pending.push (p : Pending) (b : UInt8) : Pending where
  bytes := p.bytes ++ [b]
  payload := p.payload * 0x40 + (b.toNat - 0x80)
  more := p.more - 1

/-- The text that the bytes spell. They start at the given place of the whole input, after the
    bytes of a character that is not complete, if there is one; `start` is the place of the first
    of those. -/
def decodeFrom (start : Nat) : Option Pending → List UInt8 → Except Error Text
  | none, [] => .ok []
  | some p, [] => .error ⟨start, p.bytes, .unexpectedEnd⟩
  | none, b :: bs =>
    if b < 0x80 then (decodeFrom (start + 1) none bs).map (Char.ofNat b.toNat :: ·)
    else
      match lead? b with
      | some p => decodeFrom start (some p) bs
      | none => .error ⟨start, [b], .invalidStart⟩
  | some p, b :: bs =>
    if p.low ≤ b && b ≤ p.high then
      let p := p.push b
      if p.more = 0 then
        (decodeFrom (start + p.bytes.length) none bs).map (Char.ofNat p.payload :: ·)
      else decodeFrom start (some p) bs
    else .error ⟨start, p.bytes, .invalidContinuation⟩

/-- The text that the bytes spell. -/
def decode (bytes : List UInt8) : Except Error Text :=
  decodeFrom 0 none bytes

end HclQuery.Utf8
