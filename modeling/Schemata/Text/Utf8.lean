/-!
UTF-8: the characters that a sequence of bytes spells. A byte that starts no character stands
for itself and spells none.
-/

namespace Schemata.Text.Utf8

/-- Continuation bytes carry six bits each. -/
def isTail (b : UInt8) : Bool := 0x80 ≤ b && b ≤ 0xBF

def combine (lead : UInt8) (tails : List UInt8) : Nat :=
  tails.foldl (fun n b => n * 64 + (b &&& 0x3F).toNat) lead.toNat

/-- The character that a byte and the bytes after it spell, and how many of the latter it takes.
Overlong forms, surrogates and numbers past the last character spell nothing. -/
def decodeFirst (b : UInt8) (rest : List UInt8) : Option (Char × Nat) :=
  if b < 0x80 then some (Char.ofNat b.toNat, 0)
  else match rest with
    | t :: more =>
      if 0xC2 ≤ b && b ≤ 0xDF && isTail t then some (Char.ofNat (combine (b &&& 0x1F) [t]), 1)
      else match more with
        | u :: more =>
          if 0xE0 ≤ b && b ≤ 0xEF && isTail t && isTail u &&
              !(b == 0xE0 && t < 0xA0) && !(b == 0xED && t > 0x9F) then
            some (Char.ofNat (combine (b &&& 0x0F) [t, u]), 2)
          else match more with
            | v :: _ =>
              if 0xF0 ≤ b && b ≤ 0xF4 && isTail t && isTail u && isTail v &&
                  !(b == 0xF0 && t < 0x90) && !(b == 0xF4 && t > 0x8F) then
                some (Char.ofNat (combine (b &&& 0x07) [t, u, v]), 3)
              else none
            | [] => none
        | [] => none
    | [] => none

/-- The characters of a byte sequence, `none` for each byte that belongs to no character. -/
def decode : List UInt8 → List (Option Char)
  | [] => []
  | b :: rest =>
    match decodeFirst b rest with
    | some (c, n) => some c :: decode (rest.drop n)
    | none => none :: decode rest
termination_by bytes => bytes.length
decreasing_by
  · simp only [List.length_drop, List.length_cons]; omega
  · simp

def replacement : Char := '�'

/-- The characters of a byte sequence, with the replacement character for each byte that belongs
to none. -/
def lossy (bytes : List UInt8) : List Char := (decode bytes).map (·.getD replacement)

def text (bytes : List UInt8) : String := String.ofList (lossy bytes)

def encode (chars : List Char) : List UInt8 := chars.flatMap String.utf8EncodeChar

def isValid (bytes : List UInt8) : Bool := (decode bytes).all (·.isSome)

def width (c : Char) : Nat := c.utf8Size

end Schemata.Text.Utf8
