import Schemata.Hcl.StringText
import Schemata.Hcl.Template

/-!
Expressions read from tokens. Each function takes fuel; a call uses one unit, and no construct
needs more than a few calls for each of its tokens.
-/

namespace Schemata.Hcl

open Text

/-- Binary operators by precedence, the weakest first. -/
def precedence : List (List (TokenKind × Operator)) :=
  [[(.or, .or)],
   [(.and, .and)],
   [(.equals, .equal), (.notEquals, .notEqual)],
   [(.greater, .greater), (.greaterEqual, .greaterEqual), (.less, .less),
    (.lessEqual, .lessEqual)],
   [(.plus, .add), (.minus, .subtract)],
   [(.star, .multiply), (.slash, .divide), (.percent, .remainder)]]

def addStep (e : Expression) (step : Step) : Expression :=
  match e with
  | .name p root steps => .name p root (steps ++ [step])
  | .steps source steps => .steps source (steps ++ [step])
  | e => .steps e [step]

def numberOf (t : Token) : Parse Literal := do
  match Number.parse? t.text with
  | some n => return .number n
  | none =>
    fault t.place
    return .null

/-- A number used as a step. It may not hold a point; the fault is named at `place`. -/
def legacyIndex (dot : Place) (t : Token) (place : Place) : Parse Step := do
  if t.text.contains '.' then
    fault place
    return .index dot .null
  else return .index dot (← numberOf t)

/-- The key an index gives directly. -/
def literalKey? : Expression → Option Literal
  | .literal _ v => some v
  | .template _ [.literal _ v] => some v
  | _ => none

/-- Text of a string without interpolations, for labels. -/
def quotedParts (fuel : Nat) : Parse (List Char) := do
  match fuel with
  | 0 => return []
  | fuel + 1 =>
    let t ← read
    match t.kind with
    | .closeQuote => return []
    | .quotedText =>
      let (s, faults) := t.unescaped
      faults.forM fault
      return s.toList ++ (← quotedParts fuel)
    | .interpolation | .directive =>
      fault t.place
      recover .sequenceEnd
      quotedParts fuel
    | .endOfFile =>
      fault t.place
      return []
    | _ =>
      fault t.place
      recover .closeQuote
      return []

def loopNames (close : TokenKind) : Parse (Option (String × String)) := do
  let lost (t : Token) : Parse (Option (String × String)) := do
    minorFault t.place
    recover close
    return none
  let t ← peek
  if t.kind ≠ .identifier then lost t
  else
    let first ← read
    let t ← peek
    let mut names := ("", String.ofList first.text)
    if t.kind = .comma then
      discard read
      let t ← peek
      if t.kind ≠ .identifier then return ← lost t
      let second ← read
      names := (String.ofList first.text, String.ofList second.text)
    let t ← peek
    if !t.isWord "in" then lost t
    else
      discard read
      return some names

/-- The closing brace of an interpolation or a directive; the result tells whether it takes away
the blanks behind it. -/
def sequenceClose (misplaced : Token → Parse Unit) : Parse Bool := do
  let close ← peek
  if close.kind = .sequenceEnd then
    discard read
    return close.text.length = 2
  else
    unless (← get).recovering do misplaced close
    recover .sequenceEnd
    return false

/-- Takes away blanks at the end of the last part. The parts are reversed. -/
def trimLast : List Part → List Part
  | .text p s :: rest => .text p (trimRight s) :: rest
  | parts => parts

mutual

def expression (fuel : Nat) : Parse Expression := do
  match fuel with
  | 0 => return .broken {}
  | fuel + 1 =>
    let start ← peek
    let (condition, lost) ← attemptLost (binary fuel precedence)
    if lost then return condition
    if (← peek).kind ≠ .question then return condition
    discard read
    let (yes, lost) ← attemptLost (expression fuel)
    if lost then return condition
    let colon ← peek
    if colon.kind ≠ .colon then
      fault colon.place
      return condition
    discard read
    let (no, lost) ← attemptLost (expression fuel)
    if lost then return condition
    return .conditional start.place condition yes no

/-- Operands joined by the operators of some levels of precedence. -/
def binary (fuel : Nat) (levels : List (List (TokenKind × Operator))) : Parse Expression := do
  match fuel with
  | 0 => return .broken {}
  | fuel + 1 =>
    match levels with
    | [] => operand fuel
    | level :: tighter =>
      let (left, lost) ← attemptLost (binary fuel tighter)
      if lost then return left
      binaryTail fuel level tighter left

/-- More operands of one level, to the right of what was read. -/
def binaryTail (fuel : Nat) (level : List (TokenKind × Operator))
    (tighter : List (List (TokenKind × Operator))) (left : Expression) : Parse Expression := do
  match fuel with
  | 0 => return left
  | fuel + 1 =>
    match level.lookup (← peek).kind with
    | none => return left
    | some op =>
      discard read
      let (right, lost) ← attemptLost (binary fuel tighter)
      if lost then return left
      binaryTail fuel level tighter (.binary op left right)

def operand (fuel : Nat) : Parse Expression := do
  match fuel with
  | 0 => return .broken {}
  | fuel + 1 => stepsFrom fuel (← term fuel)

def stepsFrom (fuel : Nat) (e : Expression) : Parse Expression := do
  match fuel with
  | 0 => return e
  | fuel + 1 =>
    match (← peek).kind with
    | .dot =>
      let dot ← read
      let t ← peek
      match t.kind with
      | .identifier =>
        discard read
        stepsFrom fuel (addStep e (.attribute dot.place (String.ofList t.text)))
      | .number =>
        discard read
        stepsFrom fuel (addStep e (← legacyIndex dot.place t t.place))
      | .star =>
        discard read
        match ← splatSteps fuel t.place [] with
        | some steps =>
          let entry := Expression.entry dot.place
          let each := if steps.isEmpty then entry else .steps entry steps
          stepsFrom fuel (.splat e each dot.place)
        | none => stepsFrom fuel e
      | _ =>
        fault t.place
        startRecovery
        stepsFrom fuel e
    | .openBracket =>
      let bracket ← read
      if (← peek).kind = .star then
        discard read
        let close ← read
        if close.kind ≠ .closeBracket ∧ !(← get).recovering then
          fault close.place
          recover .closeBracket
        let each ← stepsFrom fuel (.entry bracket.place)
        stepsFrom fuel (.splat e each bracket.place)
      else
        let key ← withBreaks false do
          let (key, lost) ← attemptLost (expression fuel)
          if lost then recover .closeBracket
          else
            let close ← read
            if close.kind ≠ .closeBracket ∧ !(← get).recovering then
              fault close.place
              recover .closeBracket
          return key
        match literalKey? key with
        | some v => stepsFrom fuel (addStep e (.index bracket.place v))
        | none => stepsFrom fuel (.index e key bracket.place)
    | _ => return e

/-- The steps behind a point and a star; `star` is where faults of names are reported. -/
def splatSteps (fuel : Nat) (star : Place) (done : List Step) : Parse (Option (List Step)) := do
  match fuel with
  | 0 => return none
  | fuel + 1 =>
    if (← peek).kind ≠ .dot then return some done
    let dot ← read
    let t ← peek
    match t.kind with
    | .number =>
      discard read
      splatSteps fuel star (done ++ [← legacyIndex dot.place t star])
    | .identifier =>
      discard read
      splatSteps fuel star (done ++ [.attribute dot.place (String.ofList t.text)])
    | kind =>
      minorFault (if kind = .star then t.place else star)
      startRecovery
      return none

def term (fuel : Nat) : Parse Expression := do
  match fuel with
  | 0 => return .broken {}
  | fuel + 1 =>
    let start ← peek
    match start.kind with
    | .openParen =>
      discard read
      withBreaks false do
        let (inner, faulty) ← attempt (expression fuel)
        if faulty then
          recover .closeParen
          return inner
        let close ← peek
        if close.kind ≠ .closeParen then
          fault close.place
          startRecovery
        discard read
        return .parentheses start.place inner
    | .number =>
      discard read
      return .literal start.place (← numberOf start)
    | .identifier =>
      discard read
      let next ← peek
      if next.kind = .openParen ∨ next.kind = .doubleColon then call fuel start
      else match String.ofList start.text with
        | "true" => return .literal start.place (.flag true)
        | "false" => return .literal start.place (.flag false)
        | "null" => return .literal start.place .null
        | root => return .name start.place root []
    | .openQuote =>
      discard read
      template fuel start.place .closeQuote false
    | .openHeredoc =>
      discard read
      template fuel start.place .closeHeredoc (start.text.take 3 == ['<', '<', '-'])
    | .minus =>
      discard read
      return .negation start.place (← operand fuel)
    | .bang =>
      discard read
      return .complement start.place (← operand fuel)
    | .openBracket =>
      discard read
      withBreaks false do
        if (← peek).isWord "for" then comprehension fuel start.place .closeBracket
        else return .tuple start.place (← entries fuel start.place)
    | .openBrace =>
      discard read
      let isLoop ← withBreaks false do return (← peek).isWord "for"
      if isLoop then comprehension fuel start.place .closeBrace
      else withBreaks true do return .object start.place (← items fuel start.place)
    | _ =>
      minorFault start.place
      startRecovery
      return .broken start.place

def call (fuel : Nat) (first : Token) : Parse Expression := do
  match fuel with
  | 0 => return .broken {}
  | fuel + 1 =>
    let opened ← read
    if opened.kind = .doubleColon then
      let next ← read
      if next.kind ≠ .identifier then
        fault next.place
        recoverOverParentheses
        return .name first.place (String.ofList first.text) []
      else
        let joint := { first with text := first.text ++ [':', ':'] ++ next.text }
        let after ← peek
        if after.kind = .openParen ∨ after.kind = .doubleColon then call fuel joint
        else
          let after ← read
          fault after.place
          recoverOverParentheses
          return .name first.place (String.ofList first.text) []
    else withBreaks false do
      return .call first.place (String.ofList first.text) (← arguments fuel first.place)

/-- Arguments up to the closing parenthesis; `function` is where the call begins. -/
def arguments (fuel : Nat) (function : Place) : Parse (List Expression) := do
  match fuel with
  | 0 => return []
  | fuel + 1 =>
    if (← peek).kind = .closeParen then
      discard read
      return []
    let (e, lost) ← attemptLost (expression fuel)
    if lost then
      recover .closeParen
      return [e]
    let separator ← read
    match separator.kind with
    | .closeParen => return [e]
    | .ellipsis =>
      if (← peek).kind = .closeParen then discard read
      else
        minorFault separator.place
        recover .closeParen
      return [e]
    | .comma => return e :: (← arguments fuel function)
    | kind =>
      fault (if kind = .endOfFile then function else separator.place)
      recover .closeParen
      return [e]

/-- Entries up to the closing bracket of a tuple, which begins at `start`. -/
def entries (fuel : Nat) (start : Place) : Parse (List Expression) := do
  match fuel with
  | 0 => return []
  | fuel + 1 =>
    if (← peek).kind = .closeBracket then
      discard read
      return []
    let (e, lost) ← attemptLost (expression fuel)
    if lost then
      recover .closeBracket
      return [e]
    let next ← peek
    match next.kind with
    | .closeBracket =>
      discard read
      return [e]
    | .comma =>
      discard read
      return e :: (← entries fuel start)
    | kind =>
      minorFault (if kind = .endOfFile then start else next.place)
      recover .closeBracket
      return [e]

/-- Items up to the closing brace of an object, which begins at `start`. -/
def items (fuel : Nat) (start : Place) : Parse (List (Expression × Expression)) := do
  match fuel with
  | 0 => return []
  | fuel + 1 =>
    match (← peek).kind with
    | .newline =>
      discard read
      items fuel start
    | .closeBrace =>
      discard read
      return []
    | _ =>
      let (key, lost) ← attemptLost (expression fuel)
      if lost then
        recover .closeBrace
        return []
      let next ← peek
      if next.kind ≠ .equal ∧ next.kind ≠ .colon then
        minorFault (if next.kind = .endOfFile then start else next.place)
        recover .closeBrace
        return []
      discard read
      let (value, lost) ← attemptLost (expression fuel)
      if lost then
        recover .closeBrace
        return []
      let next ← peek
      match next.kind with
      | .closeBrace =>
        discard read
        return [(key, value)]
      | .comma | .newline =>
        discard read
        return (key, value) :: (← items fuel start)
      | kind =>
        minorFault (if kind = .endOfFile then start else next.place)
        recover .closeBrace
        return [(key, value)]

def comprehension (fuel : Nat) (start : Place) (close : TokenKind) : Parse Expression := do
  match fuel with
  | 0 => return .broken {}
  | fuel + 1 => withBreaks false do
    discard read
    match ← loopNames close with
    | none => return .broken start
    | some (keyName, valueName) =>
      let (source, lost) ← attemptLost (expression fuel)
      if lost then
        recover close
        return .broken start
      let colon ← peek
      if colon.kind ≠ .colon then
        minorFault colon.place
        recover close
        return .broken start
      discard read
      let (first, faulty) ← attempt (expression fuel)
      let (key, value, faulty) ← if (← peek).kind = .arrow then do
          discard read
          let (second, faulty') ← attempt (expression fuel)
          pure (some first, second, faulty || faulty')
        else pure (none, first, faulty)
      if faulty && (← get).recovering then
        recover close
        return .broken start
      let ellipsis ← peek
      let grouped := ellipsis.kind = .ellipsis
      if grouped then discard read
      let condition ← if (← peek).isWord "if" then do
          discard read
          let (e, lost) ← attemptLost (expression fuel)
          pure (some (e, lost))
        else pure none
      if let some (_, true) := condition then
        recover close
        return .broken start
      let last ← peek
      if last.kind = close then discard read
      else
        minorFault last.place
        recover close
      if close = .closeBracket then
        if let some k := key then fault k.place
        if grouped then fault ellipsis.place
      else if key.isNone then fault value.place
      return .comprehension start keyName valueName source key value (condition.map (·.1)) grouped

def template (fuel : Nat) (start : Place) (close : TokenKind) (flush : Bool) :
    Parse Expression := do
  match fuel with
  | 0 => return .broken {}
  | fuel + 1 =>
    let first ← peek
    let (parts, last) ← templateParts fuel first.place close false false []
    let parts := if parts.isEmpty then [Part.text first.place []] else parts
    let parts := melded (if flush then flushed parts else parts)
    let es ← groupAll (parts.length + 1) last parts
    match parts, es with
    | [.interpolation _], [e] => return .wrapped start e
    | _, es => return .template start es

/-- The parts of a template up to its closing mark, and the place of that mark. `trimNext` tells
to take blanks away from the beginning of the next text, `afterText` that a text was read last.
`done` are the parts before, reversed. -/
def templateParts (fuel : Nat) (start : Place) (close : TokenKind) (trimNext afterText : Bool)
    (done : List Part) : Parse (List Part × Place) := do
  match fuel with
  | 0 => return (done.reverse, start)
  | fuel + 1 =>
    let t ← read
    if t.kind = close then return (done.reverse, t.place)
    match t.kind with
    | .heredocText | .quotedText =>
      let (s, faults) := t.unescaped
      faults.forM fault
      let s := if trimNext then trimLeft s.toList else s.toList
      templateParts fuel start close false true (.text t.place s :: done)
    | .interpolation =>
      let done := if afterText && t.text.length == 3 then trimLast done else done
      let (e, trims) ← withBreaks false do
        let e ← expression fuel
        let trims ← sequenceClose fun found =>
          let unclosed := found.kind = .endOfFile ∨
            ((found.kind = .closeQuote ∨ found.kind = .openQuote) ∧ close = .closeQuote)
          fault (if unclosed then start else found.place)
        return (e, trims)
      templateParts fuel start close trims false (.interpolation e :: done)
    | .directive =>
      let done := if afterText && t.text.length == 3 then trimLast done else done
      let (part, trims) ← withBreaks false (directive fuel t.place)
      templateParts fuel start close trims false (part.toList ++ done)
    | _ =>
      minorFault t.place
      recover close
      return (done.reverse, t.place)

/-- A directive behind its opening mark; none when it cannot be read. -/
def directive (fuel : Nat) (start : Place) : Parse (Option Part × Bool) := do
  match fuel with
  | 0 => return (none, false)
  | fuel + 1 =>
    let word ← peek
    if word.kind ≠ .identifier then
      minorFault word.place
      recover .sequenceEnd
      return (none, false)
    discard read
    let part : Option Part ← match String.ofList word.text with
      | "if" => pure (some (Part.ifStart start (← expression fuel)))
      | "else" => pure (some (Part.elseMark start))
      | "endif" => pure (some (Part.ifEnd start))
      | "endfor" => pure (some (Part.forEnd start))
      | "for" =>
        match ← loopNames .sequenceEnd with
        | some (keyName, valueName) =>
          pure (some (Part.forStart start keyName valueName (← expression fuel)))
        | none => pure none
      | _ =>
        minorFault word.place
        recover .sequenceEnd
        pure none
    match part with
    | none => return (none, false)
    | some part => return (some part, ← sequenceClose fun found => fault found.place)

end

end Schemata.Hcl
