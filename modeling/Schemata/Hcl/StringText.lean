import Schemata.Hcl.Lexer
import Schemata.Text.Quoted

/-!
What the text of a template stands for. A doubled sign before a brace is that sign; in quotation
marks a backslash begins an escape.
-/

namespace Schemata.Hcl

open Text

def charOf? (digits : List Char) : Option Char :=
  (digits.mapM hexValue?).bind fun ds =>
    let n := ds.foldl (fun n d => n * 16 + d) 0
    if n < 0xD800 ∨ (0xDFFF < n ∧ n < 0x110000) then some (Char.ofNat n) else none

/-- The hexadecimal digits at the beginning, at most `n` of them. -/
def hexDigits : Nat → List Char → List Char
  | n + 1, c :: cs => if (hexValue? c).isSome then c :: hexDigits n cs else []
  | _, _ => []

/-- The meaning of a selector behind a backslash, and how many characters it takes. -/
def escapeAt : List Char → Option (List Char) × Nat
  | 'n' :: _ => (some ['\n'], 1)
  | 'r' :: _ => (some ['\r'], 1)
  | 't' :: _ => (some ['\t'], 1)
  | '"' :: _ => (some ['"'], 1)
  | '\\' :: _ => (some ['\\'], 1)
  | 'u' :: cs =>
    let ds := hexDigits 4 cs
    (if ds.length = 4 then (charOf? ds).map ([·]) else none, ds.length + 1)
  | 'U' :: cs =>
    let ds := hexDigits 8 cs
    (if ds.length = 8 then (charOf? ds).map ([·]) else none, ds.length + 1)
  | [] => (none, 0)
  | _ => (none, 1)

/-- The characters a text stands for, and where escapes are wrong. `run` are the characters
since the last escape, reversed, which began at `place`. -/
def unescapeFrom (quoted : Bool) (place : Place) (run : List Char) (cs : List Char) :
    List Char × List Place :=
  match cs with
  | [] => (run.reverse, [])
  | '\\' :: rest =>
    if quoted then
      let here := advance place run.reverse
      let (meaning, n) := escapeAt rest
      let behind := advance here ('\\' :: rest.take n)
      let (more, faults) := unescapeFrom quoted behind [] (rest.drop n)
      match meaning with
      | some cs => (run.reverse ++ cs ++ more, faults)
      | none => (run.reverse ++ rest.take n ++ more, here :: faults)
    else unescapeFrom quoted place ('\\' :: run) rest
  | '$' :: '$' :: '{' :: rest =>
    let behind := advance place (run.reverse ++ ['$', '$', '{'])
    let (more, faults) := unescapeFrom quoted behind [] rest
    (run.reverse ++ '$' :: '{' :: more, faults)
  | '%' :: '%' :: '{' :: rest =>
    let behind := advance place (run.reverse ++ ['%', '%', '{'])
    let (more, faults) := unescapeFrom quoted behind [] rest
    (run.reverse ++ '%' :: '{' :: more, faults)
  | c :: rest => unescapeFrom quoted place (c :: run) rest
termination_by cs.length
decreasing_by all_goals (simp; try omega)

/-- What a token of text stands for, and where its escapes are wrong. -/
def Token.unescaped (t : Token) : String × List Place :=
  let (cs, faults) := unescapeFrom (t.kind == .quotedText) t.place [] t.text
  (String.ofList cs, faults)

end Schemata.Hcl
