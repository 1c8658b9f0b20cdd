/-!
# Bytes as text

Files hold bytes.  A run of bytes is either one character in UTF-8, or it is ill-formed.  An
ill-formed run starts with a byte that cannot start a character, or with a lead byte and as many
of the bytes after it as still fit.  Each such run is one fault.

A strict reader refuses text with a fault.  A tolerant reader puts a replacement character in
the place of each one.
-/

namespace Cyclomatic.Text

/-- What a lead byte asks of the bytes after it. -/
structure Lead where
  /-- The bits that the lead byte gives to the character. -/
  bits : Nat
  /-- The number of bytes after it. -/
  more : Nat
  /-- The least value of the next byte. -/
  low : UInt8 := 0x80
  /-- The greatest value of the next byte. -/
  high : UInt8 := 0xBF
deriving DecidableEq, Repr

/-- The lead of a character, if the byte can start one.  The bounds on the next byte keep out
overlong forms, surrogates and values past the last character. -/
def lead? (b : UInt8) : Option Lead :=
  let n := b.toNat
  if n < 0x80 then some { bits := n, more := 0 }
  else if n < 0xC2 then none
  else if n < 0xE0 then some { bits := n - 0xC0, more := 1 }
  else if n == 0xE0 then some { bits := 0, more := 2, low := 0xA0 }
  else if n == 0xED then some { bits := 0xD, more := 2, high := 0x9F }
  else if n < 0xF0 then some { bits := n - 0xE0, more := 2 }
  else if n == 0xF0 then some { bits := 0, more := 3, low := 0x90 }
  else if n < 0xF4 then some { bits := n - 0xF0, more := 3 }
  else if n == 0xF4 then some { bits := 4, more := 3, high := 0x8F }
  else none

/-- A byte that may stand third or fourth. -/
def isContinuation (b : UInt8) : Bool := 0x80 ≤ b && b ≤ 0xBF

/-- The bytes that fit after a lead byte. -/
def Lead.fitting (lead : Lead) (bytes : List UInt8) : List UInt8 :=
  match lead.more, bytes with
  | 0, _ => []
  | _, [] => []
  | more + 1, b :: rest =>
    if lead.low ≤ b && b ≤ lead.high then b :: (rest.take more).takeWhile isContinuation
    else []

/-- The character of a lead byte and the bytes after it. -/
def Lead.character (lead : Lead) (after : List UInt8) : Char :=
  Char.ofNat (after.foldl (fun n b => n * 64 + (b.toNat - 0x80)) lead.bits)

/-- The characters of a text, with nothing for each fault. -/
def decode : List UInt8 → List (Option Char)
  | [] => []
  | b :: rest =>
    match lead? b with
    | none => none :: decode rest
    | some lead =>
      let after := lead.fitting rest
      (if after.length == lead.more then some (lead.character after) else none) ::
        decode (rest.drop after.length)
termination_by bytes => bytes.length
decreasing_by
  all_goals simp only [List.length_cons, List.length_drop]
  all_goals omega

/-- The character that stands for a fault. -/
def replacement : Char := '\uFFFD'

/-- The text of bytes, with a replacement character for each fault. -/
def ofBytes (bytes : List UInt8) : String :=
  String.ofList ((decode bytes).map (·.getD replacement))

/-- The text of bytes without fault. -/
def ofBytes? (bytes : List UInt8) : Option String :=
  ((decode bytes).mapM id).map String.ofList

/-- The bytes of a text. -/
def bytes (s : String) : List UInt8 := s.toUTF8.toList

end Cyclomatic.Text
