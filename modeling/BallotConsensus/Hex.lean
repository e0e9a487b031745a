/-!
# Hexadecimal text

Bytes are written as two hexadecimal digits each, the high half first.
Writing uses small letters, reading takes letters of both cases and works on
the bytes of the text, so that a text beyond the Latin alphabet is refused
at the first byte of its first foreign character.

* `Hex.encode`, `Hex.decode` — writing and reading;
* `Hex.Error` — the two ways in which a text fails to be hexadecimal.
-/

namespace BallotConsensus.Hex

/-- Why a text is not hexadecimal. -/
inductive Error where
  /-- Half a byte is left over. -/
  | oddLength
  /-- The byte at a position is no hexadecimal digit. -/
  | invalidDigit (byte : UInt8) (position : Nat)
deriving DecidableEq, Repr

/-- The digit with the given value below sixteen. -/
def digit (value : UInt8) : Char :=
  if value < 10 then Char.ofNat (48 + value.toNat) else Char.ofNat (87 + value.toNat)

/-- The value of a hexadecimal digit, given as the byte of its character. -/
def digitValue? (byte : UInt8) : Option UInt8 :=
  if 48 ≤ byte && byte ≤ 57 then some (byte - 48)
  else if 97 ≤ byte && byte ≤ 102 then some (byte - 87)
  else if 65 ≤ byte && byte ≤ 70 then some (byte - 55)
  else none

/-- The value of a hexadecimal digit, given as its character. -/
def charValue? (c : Char) : Option Nat :=
  if c.toNat < 128 then (digitValue? c.toNat.toUInt8).map (·.toNat) else none

/-- The digits of the listed bytes. -/
def encode (bytes : List UInt8) : List Char :=
  bytes.flatMap fun byte => [digit (byte / 16), digit (byte % 16)]

/-- Reads digit pairs; `position` is the position of the first one in the
whole text. -/
def decodePairs (position : Nat) : List UInt8 → Except Error (List UInt8)
  | high :: low :: rest =>
    match digitValue? high, digitValue? low with
    | none, _ => .error (.invalidDigit high position)
    | some _, none => .error (.invalidDigit low (position + 1))
    | some h, some l => (decodePairs (position + 2) rest).map ((16 * h + l) :: ·)
  | _ => .ok []

/-- The bytes that a hexadecimal text stands for.  A text of odd length is
refused before its digits are looked at. -/
def decode (text : List UInt8) : Except Error (List UInt8) :=
  if text.length % 2 = 0 then decodePairs 0 text else .error .oddLength

/-- How a byte is shown in a message: as the character with its number,
between single quotes, with control characters and blanks escaped. -/
def showByte (byte : UInt8) : String :=
  let body :=
    if byte = 0 then "\\0"
    else if byte = 9 then "\\t"
    else if byte = 10 then "\\n"
    else if byte = 13 then "\\r"
    else if byte = 39 then "\\'"
    else if byte = 92 then "\\\\"
    else if byte < 32 || 127 ≤ byte && byte ≤ 160 || byte = 173 then
      "\\u\x7b" ++ String.ofList (Nat.toDigits 16 byte.toNat) ++ "\x7d"
    else String.singleton (Char.ofNat byte.toNat)
  "'" ++ body ++ "'"

/-- The wording of a hexadecimal error. -/
def Error.message : Error → String
  | .oddLength => "Odd number of digits"
  | .invalidDigit byte position =>
      "Invalid character " ++ showByte byte ++ " at position " ++ toString position

end BallotConsensus.Hex
