import Schemata.Text.Category
import Schemata.Text.Utf8

/-!
Double-quoted literals. `quote` writes a text so that it shows on one line: quotes, backslashes
and everything that would not show are escaped. `unquote?` reads such a literal, and the other
escapes that may stand in one. Both are there for bytes too, which need not spell characters:
those that spell none are escaped one by one.
-/

namespace Schemata.Text

def hexDigit (n : Nat) : Char :=
  if n < 10 then Char.ofNat (48 + n) else Char.ofNat (87 + n)

/-- The last `width` hexadecimal digits of `n`. -/
def hex : Nat → Nat → List Char
  | 0, _ => []
  | width + 1, n => hex width (n / 16) ++ [hexDigit (n % 16)]

/-- The value of a digit in bases up to 16. -/
def hexValue? (c : Char) : Option Nat :=
  if '0' ≤ c ∧ c ≤ '9' then some (c.toNat - 48)
  else if 'a' ≤ c ∧ c ≤ 'f' then some (c.toNat - 87)
  else if 'A' ≤ c ∧ c ≤ 'F' then some (c.toNat - 55)
  else none

namespace Quoted

/-- One character as it stands inside the quotes. -/
def escape (c : Char) : List Char :=
  if c = '"' ∨ c = '\\' then ['\\', c]
  else if isPrintable c then [c]
  else match c.toNat with
    | 7 => ['\\', 'a']
    | 8 => ['\\', 'b']
    | 12 => ['\\', 'f']
    | 10 => ['\\', 'n']
    | 13 => ['\\', 'r']
    | 9 => ['\\', 't']
    | 11 => ['\\', 'v']
    | n =>
      if n < 0x20 ∨ n = 0x7f then '\\' :: 'x' :: hex 2 n
      else if n < 0x10000 then '\\' :: 'u' :: hex 4 n
      else '\\' :: 'U' :: hex 8 n

def encode (s : List Char) : List Char := s.flatMap escape

/-- What a piece of a literal stands for: a character, or a byte that is part of one. -/
inductive Piece where
  | char (c : Char)
  | byte (b : UInt8)
deriving DecidableEq, Repr

def Piece.bytes : Piece → List UInt8
  | .char c => String.utf8EncodeChar c
  | .byte b => [b]

def Piece.escape : Piece → List Char
  | .char c => Quoted.escape c
  | .byte b => '\\' :: 'x' :: hex 2 b.toNat

/-- The characters that bytes spell, and between them the bytes that spell none. -/
def pieces : List UInt8 → List Piece
  | [] => []
  | b :: rest =>
    match Utf8.decodeFirst b rest with
    | some (c, n) => .char c :: pieces (rest.drop n)
    | none => .byte b :: pieces rest
termination_by bytes => bytes.length
decreasing_by
  · simp only [List.length_drop, List.length_cons]; omega
  · simp

/-- The character that a letter behind a backslash stands for. -/
def unescape? : Char → Option Char
  | 'a' => some '\x07'
  | 'b' => some '\x08'
  | 'f' => some '\x0c'
  | 'n' => some '\n'
  | 'r' => some '\r'
  | 't' => some '\t'
  | 'v' => some '\x0b'
  | '\\' => some '\\'
  | '"' => some '"'
  | _ => none

def number? (base : Nat) (digits : List Char) : Option Nat :=
  digits.foldlM (fun n c => do
    let d ← hexValue? c
    if d < base then return n * base + d else none) 0

/-- A byte below 128 is a character by itself. -/
def byte? (n : Nat) : Option Piece :=
  if n < 128 then some (.char (Char.ofNat n))
  else if n < 256 then some (.byte n.toUInt8)
  else none

def char? (n : Nat) : Option Piece :=
  if h : n.isValidChar then some (.char (Char.ofNatAux n h)) else none

/-- What stands between the quotes, up to a closing quote that ends the text. -/
def decode : List Char → Option (List Piece)
  | [] => none
  | ['"'] => some []
  | '\\' :: 'x' :: a :: b :: rest => do
    let p ← byte? (← number? 16 [a, b])
    return p :: (← decode rest)
  | '\\' :: 'u' :: a :: b :: c :: d :: rest => do
    let p ← char? (← number? 16 [a, b, c, d])
    return p :: (← decode rest)
  | '\\' :: 'U' :: a :: b :: c :: d :: e :: f :: g :: h :: rest => do
    let p ← char? (← number? 16 [a, b, c, d, e, f, g, h])
    return p :: (← decode rest)
  | '\\' :: c :: rest =>
    match unescape? c with
    | some plain => do return .char plain :: (← decode rest)
    | none =>
      match rest with
      | a :: b :: rest => do
        let p ← byte? (← number? 8 [c, a, b])
        return p :: (← decode rest)
      | _ => none
  | c :: rest =>
    if c = '"' ∨ c = '\\' ∨ c = '\n' then none
    else do return .char c :: (← decode rest)

end Quoted

/-- The bytes that a literal in double quotes stands for, or one in back quotes, which hold
anything but a back quote. Bytes in double quotes that spell no character are replaced. -/
def unquoteBytes? (literal : List UInt8) : Option (List UInt8) :=
  match literal with
  | [] => none
  | mark :: rest =>
    if mark = '"'.toUInt8 then
      (Quoted.decode (Utf8.lossy rest)).map (·.flatMap Quoted.Piece.bytes)
    else if mark = '\x60'.toUInt8 ∧ rest.getLast? = some mark ∧ !rest.dropLast.contains mark then
      some (rest.dropLast.filter (· ≠ '\r'.toUInt8))
    else none

def unquote? (literal : List Char) : Option (List Char) :=
  (unquoteBytes? (Utf8.encode literal)).map Utf8.lossy

def quoteBytes (bytes : List UInt8) : List Char :=
  '"' :: (Quoted.pieces bytes).flatMap Quoted.Piece.escape ++ ['"']

def quote (s : String) : String :=
  String.ofList ('"' :: Quoted.encode s.toList ++ ['"'])

end Schemata.Text
