import LiterateRuby.Text.Quoted

/-! # Text from bytes

Source positions count bytes, so a span of the source is decoded when it is needed. A span that
cuts a character is refused with the place and the reason; for display, each ill-formed stretch
becomes one replacement character.
-/

namespace LiterateRuby.Text.Utf8

/-- Why a byte sequence is not a character. -/
inductive Reason where
  | badStart
  | badContinuation
  | cutShort
  deriving DecidableEq, Repr

def Reason.message : Reason → String
  | .badStart => "invalid start byte"
  | .badContinuation => "invalid continuation byte"
  | .cutShort => "unexpected end of data"

/-- An ill-formed stretch: its first byte, where it starts, how long it is and what is wrong. -/
structure Fault where
  lead : UInt8
  start : Nat
  length : Nat
  reason : Reason
  deriving DecidableEq, Repr

def Fault.message (fault : Fault) : String :=
  let place :=
    if fault.length = 1 then
      "byte 0x" ++ String.ofList (hex 2 fault.lead.toNat) ++ " in position " ++ toString fault.start
    else
      "bytes in position " ++ toString fault.start ++ "-" ++
        toString (fault.start + fault.length - 1)
  "'utf-8' codec can't decode " ++ place ++ ": " ++ fault.reason.message

/-- The first character of a byte sequence with the number of bytes after its first one, or the
length of the ill-formed stretch. -/
inductive Step where
  | char (c : Char) (more : Nat)
  | fault (length : Nat) (reason : Reason)

/-- Whether a byte continues a character. -/
def isTail (byte : UInt8) : Bool := 0x80 ≤ byte && byte ≤ 0xBF

/-- Whether a byte may follow a lead byte: overlong forms, surrogates and numbers beyond the last
code point are excluded by the range of the second byte. -/
def isSecond (lead byte : UInt8) : Bool :=
  isTail byte &&
    (if lead = 0xE0 then 0xA0 ≤ byte
     else if lead = 0xED then byte < 0xA0
     else if lead = 0xF0 then 0x90 ≤ byte
     else if lead = 0xF4 then byte < 0x90
     else true)

/-- The code point built from the payload of a lead byte and its continuation bytes. -/
def codePoint (payload : Nat) (tail : List UInt8) : Nat :=
  tail.foldl (fun code byte => code * 64 + (byte.toNat - 0x80)) payload

/-- The number of continuation bytes that a lead byte asks for. -/
def tailLength? (lead : UInt8) : Option Nat :=
  if lead < 0x80 then some 0
  else if lead < 0xC2 then none
  else if lead < 0xE0 then some 1
  else if lead < 0xF0 then some 2
  else if lead < 0xF5 then some 3
  else none

def leadPayload (lead : UInt8) : Nat :=
  if lead < 0x80 then lead.toNat
  else if lead < 0xE0 then lead.toNat - 0xC0
  else if lead < 0xF0 then lead.toNat - 0xE0
  else lead.toNat - 0xF0

/-- The number of leading bytes that may continue a character after `lead`. -/
def goodTail (lead : UInt8) (rest : List UInt8) (wanted : Nat) : Nat :=
  match rest with
  | [] => 0
  | second :: more =>
    if wanted = 0 then 0
    else if isSecond lead second then 1 + ((more.take (wanted - 1)).takeWhile isTail).length
    else 0

def step (lead : UInt8) (rest : List UInt8) : Step :=
  match tailLength? lead with
  | none => .fault 1 .badStart
  | some wanted =>
    let good := goodTail lead rest wanted
    if good = wanted then .char (Char.ofNat (codePoint (leadPayload lead) (rest.take wanted))) wanted
    else if good = rest.length then .fault (good + 1) .cutShort
    else .fault (good + 1) .badContinuation

/-- The text of a byte sequence that starts at a position, or its first fault. -/
def decodeFrom (position : Nat) : List UInt8 → Except Fault (List Char)
  | [] => .ok []
  | lead :: rest =>
    match step lead rest with
    | .char c more => do
      let text ← decodeFrom (position + 1 + more) (rest.drop more)
      return c :: text
    | .fault length reason => .error ⟨lead, position, length, reason⟩
  termination_by bytes => bytes.length
  decreasing_by simp only [List.length_drop, List.length_cons]; omega

/-- The text of a byte sequence, or its first fault. -/
def decode (bytes : List UInt8) : Except Fault String := do
  return String.ofList (← decodeFrom 0 bytes)

/-- The text of a byte sequence with a replacement character for each ill-formed stretch. -/
def decodeLossy : List UInt8 → List Char
  | [] => []
  | lead :: rest =>
    match step lead rest with
    | .char c more => c :: decodeLossy (rest.drop more)
    | .fault length _ => Char.ofNat 0xFFFD :: decodeLossy (rest.drop (length - 1))
  termination_by bytes => bytes.length
  decreasing_by all_goals (simp only [List.length_drop, List.length_cons]; omega)

end LiterateRuby.Text.Utf8
