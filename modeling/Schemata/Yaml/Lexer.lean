import Schemata.Yaml.ScalarText

/-!
The tokens of a YAML text. Tokens are found on demand, three ahead of the one to be taken, so a
text is not looked at far beyond what is wanted of it. Where a key may have begun is remembered;
the colon that shows it was one puts the key token back there.
-/

namespace Schemata.Yaml

/-! ### Keys and indentation -/

/-- Whether a remembered key can still be one; fails when it had to be. -/
def SimpleKey.check (k : SimpleKey) : Lexer Bool := do
  if !k.possible then return false
  let mark := (← get).mark
  if k.mark.line < mark.line ∨ k.mark.index + 1024 < mark.index then
    if k.required then refuse k.mark
    return false
  return true

/-- Forgets the key of the innermost level; fails when there had to be one. -/
def forgetKey : Lexer Unit := do
  match (← get).keys with
  | k :: ks =>
    if k.possible then
      if k.required then refuse k.mark
      modify fun s => { s with keys := { k with possible := false } :: ks }
  | [] => return

/-- Remembers that a key may begin here. -/
def rememberKey : Lexer Unit := do
  let s ← get
  if s.keyAllowed then
    let required := s.flow == 0 && s.indent == (s.mark.column : Int)
    let k : SimpleKey := ⟨true, required, s.taken + s.queue.length, s.mark⟩
    forgetKey
    modify fun s => { s with keys := k :: s.keys.tail }

def allowKey (allowed : Bool) : Lexer Unit := modify fun s => { s with keyAllowed := allowed }

def emit (t : Token) : Lexer Unit := modify fun s => { s with queue := s.queue ++ [t] }

/-- Puts a token where the token of that number stands. -/
def insertToken (number : Nat) (t : Token) : Lexer Unit :=
  modify fun s =>
    let at' := number - s.taken
    { s with queue := s.queue.take at' ++ t :: s.queue.drop at' }

/-- Opens a block when the column is deeper than the one being read. -/
def openBlock (column : Nat) (number : Option Nat) (kind : TokenKind) (mark : Mark) :
    Lexer Unit := do
  let s ← get
  if s.flow > 0 then return
  if s.indent < (column : Int) then
    set { s with indents := s.indent :: s.indents, indent := (column : Int) }
    match number with
    | some n => insertToken n ⟨kind, mark, mark⟩
    | none => emit ⟨kind, mark, mark⟩

def closeBlocks (column : Int) (mark : Mark) : Lexer Unit := do
  let s ← get
  if s.flow > 0 then return
  closeFrom s.indents.length
where
  closeFrom : Nat → Lexer Unit
    | 0 => return
    | n + 1 => do
      let s ← get
      if s.indent > column then
        emit ⟨.blockEnd, mark, mark⟩
        modify fun s => { s with indent := s.indents.headD (-1), indents := s.indents.tail }
        closeFrom n

/-! ### Blanks and comments -/

def skipOver : Nat → Lexer Unit
  | 0 => return
  | n + 1 => do
    match (← get).rest with
    | [] => return
    | '\r' :: '\n' :: _ =>
      skipLine
      skipOver (n - 1)
    | c :: _ =>
      if isBreak c then skipLine else skip
      skipOver n

/-- Passes a comment, and the comments that follow it with nothing else between. -/
def skipComments (fuel : Nat) : Lexer Unit := do
  match fuel with
  | 0 => return
  | fuel + 1 =>
    skipWhile fun c => !isBreak c
    let s ← get
    let between := s.rest.takeWhile fun c => isBlank c || isBreak c
    if (s.rest.drop between.length).head? = some '#' then
      skipOver between.length
      skipComments fuel

/-- Passes blanks, comments and line breaks up to the next token. -/
def skipToToken (fuel : Nat) : Lexer Unit := do
  match fuel with
  | 0 => return
  | fuel + 1 =>
    if (← get).mark.column == 0 && (← peek).toNat == 0xFEFF then skip
    let s ← get
    let tabs := s.flow > 0 || !s.keyAllowed
    skipWhile fun c => c == ' ' || (tabs && c == '\t')
    if (← peek) == '#' then skipComments ((← get).rest.length + 1)
    if isBreak (← peek) then
      skipLine
      if (← get).flow == 0 then allowKey true
      skipToToken fuel

/-- Passes a comment on the line of the token just found. -/
def skipLineComment : Lexer Unit := do
  let s ← get
  let blanks := s.rest.takeWhile isBlank
  if (s.rest.drop blanks.length).head? = some '#' then
    skipWhile fun c => !isBreak c

/-! ### Directives, tags and anchors -/

/-- The number of a version, of at most two digits. -/
def versionNumber (began : Mark) : Lexer Nat := do
  let digits ← takeWhile fun c => '0' ≤ c && c ≤ '9'
  if digits.isEmpty ∨ digits.length > 2 then refuse began
  return digits.foldl (fun n c => n * 10 + (c.toNat - 48)) 0

/-- A tag handle: an exclamation mark, a word and, unless the word is missing, another mark. In
a directive the closing mark has to be there. -/
def tagHandle (directive : Bool) (began : Mark) : Lexer (List Char) := do
  if (← peek) ≠ '!' then refuse began
  skip
  let word ← takeWhile isWordChar
  if (← peek) == '!' then
    skip
    return '!' :: word ++ ['!']
  if directive && !word.isEmpty then refuse began
  return '!' :: word

def isTagChar (c : Char) : Bool :=
  isWordChar c || [';', '/', '?', ':', '@', '&', '=', '+', '$', ',', '.', '!', '~', '*', '\'', '(',
    ')', '[', ']', '%'].contains c

/-- The byte of a percent escape. -/
def tagEscape (began : Mark) : Lexer UInt8 := do
  if (← peek) ≠ '%' then refuse began
  match Schemata.Text.hexValue? (← peekAt 1), Schemata.Text.hexValue? (← peekAt 2) with
  | some a, some b =>
    skip
    skip
    skip
    return (a * 16 + b).toUInt8
  | _, _ => refuse began

def tagEscapes (began : Mark) : Nat → Lexer (List UInt8)
  | 0 => return []
  | n + 1 => do
    let b ← tagEscape began
    if !Schemata.Text.Utf8.isTail b then refuse began
    return b :: (← tagEscapes began n)

def tagRest (fuel : Nat) (began : Mark) (done : List Char) : Lexer (List Char) := do
  match fuel with
  | 0 => return done
  | fuel + 1 =>
    let c ← peek
    if !isTagChar c then return done
    if c == '%' then
      let b ← tagEscape began
      let more ←
        if b < 0x80 then pure 0
        else if b &&& 0xE0 == 0xC0 then pure 1
        else if b &&& 0xF0 == 0xE0 then pure 2
        else if b &&& 0xF8 == 0xF0 then pure 3
        else refuse began
      let tails ← tagEscapes began more
      tagRest fuel began (done ++ Schemata.Text.Utf8.lossy (b :: tails))
    else
      skip
      tagRest fuel began (done ++ [c])

/-- A tag's characters, with those of `head` behind its mark put before them. -/
def tagUri (head : List Char) (began : Mark) : Lexer (List Char) := do
  let rest ← tagRest ((← get).rest.length + 1) began []
  if head.isEmpty && rest.isEmpty then refuse began
  return head.drop 1 ++ rest

def directive : Lexer Token := do
  let began := (← get).mark
  skip
  let name ← takeWhile isWordChar
  if name.isEmpty then refuse began
  if !isBlankOrEnd (← peek) then refuse began
  let kind ←
    if name = "YAML".toList then do
      skipWhile isBlank
      let major ← versionNumber began
      if (← peek) ≠ '.' then refuse began
      skip
      let minor ← versionNumber began
      pure (TokenKind.versionDirective major minor)
    else if name = "TAG".toList then do
      skipWhile isBlank
      let handle ← tagHandle true began
      if !isBlank (← peek) then refuse began
      skipWhile isBlank
      let start ← tagUri [] began
      if !isBlankOrEnd (← peek) then refuse began
      pure (TokenKind.tagDirective (String.ofList handle) (String.ofList start))
    else refuse began
  let stop := (← get).mark
  skipWhile isBlank
  if (← peek) == '#' then skipWhile fun c => !isBreak c
  if !isBreakOrEnd (← peek) then refuse began
  skipLine
  return ⟨kind, began, stop⟩

def anchorName (isAlias : Bool) : Lexer Token := do
  let began := (← get).mark
  skip
  let name ← takeWhile isWordChar
  let stop := (← get).mark
  let c ← peek
  if name.isEmpty ||
      !(isBlankOrEnd c || ['?', ':', ',', ']', '}', '%', '@', '\x60'].contains c) then
    refuse began
  let name := String.ofList name
  return ⟨if isAlias then .alias name else .anchor name, began, stop⟩

def tag : Lexer Token := do
  let began := (← get).mark
  let (handle, suffix) ←
    if (← peekAt 1) == '<' then do
      skip
      skip
      let uri ← tagUri [] began
      if (← peek) ≠ '>' then refuse began
      skip
      pure ([], uri)
    else do
      let handle ← tagHandle false began
      if handle.length > 1 && handle.getLast? == some '!' then
        let suffix ← tagUri [] began
        pure (handle, suffix)
      else
        let suffix ← tagUri handle began
        if suffix.isEmpty then pure ([], ['!']) else pure (['!'], suffix)
  if !isBlankOrEnd (← peek) then refuse began
  return ⟨.tag (String.ofList handle) (String.ofList suffix), began, (← get).mark⟩

/-! ### Tokens -/

/-- A token of a fixed number of characters. -/
def signs (n : Nat) (kind : TokenKind) : Lexer Unit := do
  let began := (← get).mark
  for _ in [0:n] do skip
  emit ⟨kind, began, (← get).mark⟩

def streamEnd : Lexer Unit := do
  modify fun s =>
    if s.mark.column ≠ 0 then { s with mark := ⟨s.mark.index, s.mark.line + 1, 0⟩ } else s
  closeBlocks (-1) (← get).mark
  forgetKey
  allowKey false
  let mark := (← get).mark
  emit ⟨.streamEnd, mark, mark⟩

def documentMarker (kind : TokenKind) : Lexer Unit := do
  closeBlocks (-1) (← get).mark
  forgetKey
  allowKey false
  signs 3 kind

def flowStart (kind : TokenKind) : Lexer Unit := do
  rememberKey
  modify fun s => { s with keys := {} :: s.keys, flow := s.flow + 1, keyAllowed := true }
  if (← get).flow > 10000 then refuse (← get).mark
  signs 1 kind

def flowEnd (kind : TokenKind) : Lexer Unit := do
  forgetKey
  modify fun s =>
    if s.flow > 0 then { s with keys := s.keys.tail, flow := s.flow - 1 } else s
  allowKey false
  signs 1 kind

/-- In a block an indicator has to stand where a key could; it opens a block of its column. -/
def blockIndicator (kind : TokenKind) : Lexer Unit := do
  let s ← get
  if s.flow == 0 then
    if !s.keyAllowed then refuse s.mark
    openBlock s.mark.column none kind s.mark

def blockEntry : Lexer Unit := do
  blockIndicator .blockSequenceStart
  forgetKey
  allowKey true
  signs 1 .blockEntry

def keyMark : Lexer Unit := do
  blockIndicator .blockMappingStart
  forgetKey
  allowKey ((← get).flow == 0)
  signs 1 .key

def valueMark : Lexer Unit := do
  let k := (← get).keys.headD {}
  if ← k.check then
    insertToken k.tokenNumber ⟨.key, k.mark, k.mark⟩
    openBlock k.mark.column (some k.tokenNumber) .blockMappingStart k.mark
    modify fun s => { s with keys := { k with possible := false } :: s.keys.tail }
    allowKey false
  else
    modify fun s => { s with keys := { k with possible := false } :: s.keys.tail }
    blockIndicator .blockMappingStart
    allowKey ((← get).flow == 0)
  signs 1 .value

/-- A token that may be a key, or begin one. -/
def keyed (token : Lexer Token) : Lexer Unit := do
  rememberKey
  allowKey false
  emit (← token)

def block (folded : Bool) : Lexer Unit := do
  forgetKey
  allowKey true
  emit (← blockScalar folded)

/-- Characters that begin no plain scalar by themselves. -/
def isIndicator (c : Char) : Bool :=
  ['-', '?', ':', ',', '[', ']', '{', '}', '#', '&', '*', '!', '|', '>', '\'', '"', '%', '@',
    '\x60'].contains c

/-- Finds the next token after the blanks before it. -/
def tokenHere : Lexer Unit := do
  let s ← get
  let c ← peek
  let next ← peekAt 1
  match c with
  | '[' => flowStart .flowSequenceStart
  | '{' => flowStart .flowMappingStart
  | ']' => flowEnd .flowSequenceEnd
  | '}' => flowEnd .flowMappingEnd
  | ',' =>
    forgetKey
    allowKey true
    signs 1 .flowEntry
  | '*' => keyed (anchorName true)
  | '&' => keyed (anchorName false)
  | '!' => keyed tag
  | '\'' => keyed (quotedScalar true)
  | '"' => keyed (quotedScalar false)
  | _ =>
    if c == '-' && isBlankOrEnd next then blockEntry
    else if c == '?' && (s.flow > 0 || isBlankOrEnd next) then keyMark
    else if c == ':' && (s.flow > 0 || isBlankOrEnd next) then valueMark
    else if c == '|' && s.flow == 0 then block false
    else if c == '>' && s.flow == 0 then block true
    else if !(isBlankOrEnd c || isIndicator c) || (c == '-' && !isBlank next) ||
        (s.flow == 0 && (c == '?' || c == ':') && !isBlankOrEnd next) then
      keyed plainScalar
    else refuse s.mark

def findToken : Lexer Unit := do
  require 0
  let s ← get
  if !s.started then
    set { s with started := true, keys := [{}], keyAllowed := true }
    emit ⟨.streamStart, s.mark, s.mark⟩
  else
    let before := s.mark
    skipToToken (s.rest.length + 1)
    closeBlocks ((← get).mark.column : Int) before
    let s ← get
    let c ← peek
    if isEnd c then streamEnd
    else if s.mark.column == 0 && c == '%' then
      closeBlocks (-1) s.mark
      forgetKey
      allowKey false
      emit (← directive)
    else if ← atMarker '-' then documentMarker .documentStart
    else if ← atMarker '.' then documentMarker .documentEnd
    else
      tokenHere
      match (← get).queue.getLast? with
      | some ⟨.blockEntry, _, _⟩ => return
      | _ => skipLineComment

/-- Finds tokens until the first one in the queue is settled. -/
def fillQueue (fuel : Nat) : Lexer Unit := do
  match fuel with
  | 0 => return
  | fuel + 1 =>
    let s ← get
    if s.queue.length ≥ 3 then
      match s.keys.find? fun k => k.possible && k.tokenNumber == s.taken with
      | none => return
      | some k =>
        if ← k.check then
          findToken
          fillQueue fuel
        else return
    else
      findToken
      fillQueue fuel

def peekToken : Lexer Token := do
  fillQueue ((← get).rest.length + 8)
  return (← get).queue.headD ⟨.streamEnd, (← get).mark, (← get).mark⟩

def takeToken : Lexer Unit :=
  modify fun s => { s with queue := s.queue.tail, taken := s.taken + 1 }

end Schemata.Yaml
