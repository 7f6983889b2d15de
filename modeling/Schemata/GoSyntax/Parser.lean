import Schemata.GoSyntax.Cursor

/-!
Types, expressions, statements and declarations of Go source. Every function takes fuel, which is
spent on nesting and on the length of lists; the number of tokens bounds both.
-/

namespace Schemata.GoSyntax

open Text

/-! ### Lists -/

def many {α : Type} (more : Parse Bool) (item : Parse α) : Nat → Parse (List α)
  | 0 => return []
  | n + 1 => do
    if ← more then
      let a ← item
      return a :: (← many more item n)
    else return []

def commaList {α : Type} (closing : String) (item : Parse α) : Nat → Parse (List α)
  | 0 => return []
  | n + 1 => do
    if ← goesOnTo closing then
      let a ← item
      if ← isAtComma closing then
        next
        return a :: (← commaList closing item n)
      else return [a]
    else return []

def oneOrMore {α : Type} (item : Parse α) (n : Nat) : Parse (List α) := do
  let a ← item
  return a :: (← many (isAt ",") (do next; item) n)

/-- A name, or a name of a package and a name in it. -/
def typeName (first : Option Identifier) : Parse Expr := do
  let id ← match first with
    | some id => pure id
    | none => identifier
  if ← isAt "." then
    next
    return .selector (.identifier id) (← identifier)
  else return .identifier id

/-! ### Parameters -/

/-- A parameter as it is written: a name, a type, or both. -/
structure Parameter where
  name : Option Identifier
  type : Option Expr

def Parameter.isNamed (p : Parameter) : Bool := p.name.isSome && p.type.isSome

/-- Gives every parameter the type behind it, from the last to the first, and finds the first
parameter that lacks a name or a type. -/
def completed (stop : Place) : List Parameter → Option Expr × Option Place × List (Identifier × Expr)
  | [] => (none, none, [])
  | p :: ps =>
    let (type, missing, done) := completed stop ps
    match p.type, p.name with
    | some t, some name => (some t, missing, (name, t) :: done)
    | some t, none => (some t, some t.place, (⟨t.place, "_"⟩, t) :: done)
    | none, some name =>
      match type with
      | some t => (some t, missing, (name, t) :: done)
      | none => (none, some name.place, (name, .bad name.place) :: done)
    | none, none => (type, missing, done)

/-- Neighbours without a type of their own join the group of the parameter behind them. -/
def grouped : List Parameter → List (Identifier × Expr) → List FieldGroup
  | p :: ps, (name, type) :: done =>
    match p.type, grouped ps done with
    | none, .mk names type _ _ _ :: groups => .mk (name :: names) type none 0 0 :: groups
    | _, groups => .mk [name] type none 0 0 :: groups
  | _, _ => []

/-- The parameters as groups. Either all have names or none has; `first` is where the list
starts. -/
def distribute (forTypes : Bool) (first : Place) (ps : List Parameter) :
    Parse (List FieldGroup) := do
  let named := (ps.filter (·.isNamed)).length
  let typed := (ps.filter (·.type.isSome)).length
  let stop ← here
  if ps.isEmpty then return []
  else if named = 0 then
    if forTypes then fault (if named = typed then stop else first)
    return ps.map fun p =>
      .mk [] (p.type.getD ((p.name.map .identifier).getD (.bad stop))) none 0 0
  else
    let (_, missing, done) := completed stop ps
    if let some place := missing then
      fault (if named = typed then stop else place)
    return grouped ps done

/-! ### Expressions that look like type parameters -/

def Expr.isTypeOnly : Expr → Bool
  | .array .. | .struct .. | .functionType .. | .interface .. | .map .. | .channel .. => true
  | .binary x _ y => x.isTypeOnly || y.isTypeOnly
  | .unary _ op _ => op == "~"
  | .paren _ x => x.isTypeOnly
  | _ => false

/-- Splits an expression into a name and a type that stands behind it, where that is possible;
with `force` also where the type could be a value. -/
def Expr.split (force : Bool) : Expr → Option (Identifier × Option Expr)
  | .identifier id => some (id, none)
  | .binary x op y =>
    if op == "*" then
      match x with
      | .identifier id =>
        if force || y.isTypeOnly then some (id, some (.star y.place y)) else none
      | _ => none
    else if op == "|" then
      match Expr.split (force || y.isTypeOnly) x with
      | some (id, some left) => some (id, some (.binary left "|" y))
      | _ => none
    else none
  | .call (.identifier id) [arg] false =>
    if force || arg.isTypeOnly then some (id, some arg) else none
  | _ => none

/-- Turns the arrow before a channel type into the direction of the channel. The place of a fault
is that of an arrow that belongs to no channel. -/
def reassociate (arrow : Place) : Expr → Expr × List Place
  | .channel _ arrow' direction value =>
    let wrong := if direction = .receive then [arrow'] else []
    if direction = .send then
      match value with
      | .channel .. =>
        let (value, faults) := reassociate arrow' value
        (.channel arrow arrow .receive value, wrong ++ faults)
      | _ => (.channel arrow arrow .receive value, wrong ++ [arrow'])
    else (.channel arrow arrow .receive value, wrong)
  | x => (x, [])

/-- Whether a brace behind an expression opens a composite value. -/
def Expr.opensComposite (level : Int) : Expr → Bool
  | .bad _ | .identifier _ | .selector .. | .index .. => level ≥ 0
  | .array .. | .struct .. | .map .. => true
  | _ => false

def isParen : Expr → Bool
  | .paren .. => true
  | _ => false

/-- Whether a statement is the guard of a type switch. An assignment in place of a definition is a
fault. -/
def isTypeGuard : Stmt → Parse Bool
  | .expr (.assertion _ none) => return true
  | .assign [_] place op [.assertion _ none] => do
    if op == "=" then fault place
    return op == "=" || op == ":="
  | _ => return false

/-- The expression that a statement has to be. -/
def asExpr : Stmt → Parse Expr
  | .expr x => return x
  | s => do
    fault s.place
    return .bad s.place

def assignments : List String :=
  [":=", "=", "+=", "-=", "*=", "/=", "%=", "&=", "|=", "^=", "<<=", ">>=", "&^="]

/-- What a simple statement may be besides an expression or an assignment. -/
inductive SimpleMode where
  | basic
  | labelAllowed
  | rangeAllowed
deriving DecidableEq

/-- The declarations behind a keyword, with parentheses or without; the flag tells which. -/
def group {α : Type} (n : Nat) (keyword : String) (spec : Parse α) : Parse (List α × Bool) := do
  let _ ← expect keyword
  if ← isAt "(" then
    next
    let specs ← many (goesOnTo ")") spec n
    let _ ← expect ")"
    expectEnd
    return (specs, true)
  else return ([← spec], false)

mutual

def type? : Nat → Parse (Option Expr)
  | 0 => return none
  | n + 1 => do
    let t ← peek
    if t.kind = .identifier then
      let x ← typeName none
      if ← isAt "[" then return some (← typeInstance n x) else return some x
    else if t.is "[" then
      next
      return some (← arrayRest n t.place none)
    else if t.is "struct" then return some (← structType n)
    else if t.is "*" then
      next
      return some (.star t.place (← type n))
    else if t.is "func" then return some (← functionType n)
    else if t.is "interface" then return some (← interfaceType n)
    else if t.is "map" then
      next
      let _ ← expect "["
      let key ← type n
      let _ ← expect "]"
      return some (.map t.place key (← type n))
    else if t.is "chan" || t.is "<-" then return some (← channelType n)
    else if t.is "(" then
      next
      let x ← type n
      let _ ← expect ")"
      return some (.paren t.place x)
    else return none

def type : Nat → Parse Expr
  | 0 => return .bad {}
  | n + 1 => do
    match ← type? n with
    | some t => return t
    | none =>
      let place ← here
      fault place
      resumeAt endsExpression
      return .bad place

def typeInstance : Nat → Expr → Parse Expr
  | 0, x => return x
  | n + 1, x => do
    let _ ← expect "["
    let args ← deeper (commaList "]" (type n) n)
    let close ← expectClosing "]"
    if args.isEmpty then fault close
    return .index x args

def qualifiedName : Nat → Option Identifier → Parse Expr
  | 0, _ => return .bad {}
  | n + 1, first => do
    let x ← typeName first
    if ← isAt "[" then typeInstance n x else return x

/-- An array or slice type behind its opening bracket, or behind its length. -/
def arrayRest : Nat → Place → Option Expr → Parse Expr
  | 0, place, _ => return .bad place
  | n + 1, place, length => do
    let length ← match length with
      | some x => pure (some x)
      | none => deeper do
        let t ← peek
        if t.is "..." then
          next
          return some (.ellipsis t.place none)
        else if t.is "]" then return none
        else return some (← rhs n)
    if ← isAt "," then
      fault (← here)
      next
    let _ ← expect "]"
    return .array place length (← type n)

/-- The list in brackets behind a name, which makes it a field of array type or a generic
type. -/
def arrayOrInstance : Nat → Identifier → Parse (Option Identifier × Expr)
  | 0, id => return (some id, .bad id.place)
  | n + 1, id => do
    let open' ← expect "["
    let (args, trailing) ←
      if ← isAt "]" then pure ([], none) else deeper (bracketArgs n)
    let _ ← expect "]"
    match args with
    | [] => return (some id, .array open' none (← type n))
    | [length] =>
      match ← type? n with
      | some elem =>
        if let some comma := trailing then fault comma
        return (some id, .array open' (some length) elem)
      | none => return (none, .index (.identifier id) [length])
    | args => return (none, .index (.identifier id) args)

/-- Expressions with commas between them, and the place of a comma behind the last. -/
def bracketArgs : Nat → Parse (List Expr × Option Place)
  | 0 => return ([], none)
  | n + 1 => do
    let x ← rhs n
    if ← isAt "," then
      let comma ← here
      next
      if ← isAt "]" then return ([x], some comma)
      let (xs, trailing) ← bracketArgs n
      return (x :: xs, trailing)
    else return ([x], none)

def structType : Nat → Parse Expr
  | 0 => return .bad {}
  | n + 1 => do
    let place ← expect "struct"
    let opening ← expect r"{"
    let starts : Parse Bool := do
      let t ← peek
      return t.kind = .identifier || t.is "*" || t.is "("
    let fields ← many starts (field n) n
    let closing ← expect r"}"
    return .struct place (opening.line == closing.line) fields

def field : Nat → Parse FieldGroup
  | 0 => return .mk [] (.bad {}) none 0 0
  | n + 1 => do
    let t ← peek
    let (names, x) ←
      if t.kind = .identifier then fieldOrEmbedded n
      else if t.is "*" then do
        next
        if ← isAt "(" then
          fault (← here)
          next
          let x ← qualifiedName n none
          if ← isAt ")" then next
          pure ([], .star t.place x)
        else pure ([], .star t.place (← qualifiedName n none))
      else if t.is "(" then do
        fault t.place
        next
        let star ← peek
        let x ←
          if star.is "*" then do
            next
            pure (.star star.place (← qualifiedName n none))
          else qualifiedName n none
        if ← isAt ")" then next
        pure ([], x)
      else do
        fault t.place
        resumeAt endsExpression
        pure ([], .bad t.place)
    let s ← peek
    let tag ←
      if s.kind = .string then do
        next
        pure (some ⟨s.place, s.kind, s.text⟩)
      else pure none
    let stop := (← get).lastStop.line
    expectEnd
    return .mk names x tag t.place.line stop

/-- Named fields, or an embedded type that starts with a name. -/
def fieldOrEmbedded : Nat → Parse (List Identifier × Expr)
  | 0 => return ([], .bad {})
  | n + 1 => do
    let id ← identifier
    let t ← peek
    if t.is "." then return ([], ← qualifiedName n (some id))
    else if t.kind = .string || t.kind = .semicolon || t.is r"}" then
      return ([], .identifier id)
    else
      let more ← many (isAt ",") (do next; identifier) n
      if more.isEmpty && t.is "[" then
        let (name, x) ← arrayOrInstance n id
        return (name.toList, x)
      else return (id :: more, ← type n)

def interfaceType : Nat → Parse Expr
  | 0 => return .bad {}
  | n + 1 => do
    let place ← expect "interface"
    let opening ← expect r"{"
    let elements ← interfaceElements n
    let closing ← expect r"}"
    return .interface place (opening.line == closing.line) elements

def interfaceElements : Nat → Parse (List FieldGroup)
  | 0 => return []
  | n + 1 => do
    let t ← peek
    let element ←
      if t.kind = .identifier then do
        let (names, x) ← methodOrEmbedded n
        if names.isEmpty then pure (some (names, ← union n x)) else pure (some (names, x))
      else if t.is "~" then do
        let x ← unionTerm n
        pure (some ([], ← union n x))
      else do
        match ← type? n with
        | some x => pure (some ([], ← union n x))
        | none => pure none
    match element with
    | none => return []
    | some (names, x) =>
      let stop := (← get).lastStop.line
      expectEnd
      return .mk names x none t.place.line stop :: (← interfaceElements n)

/-- A method, or an embedded type that starts with a name. -/
def methodOrEmbedded : Nat → Parse (List Identifier × Expr)
  | 0 => return ([], .bad {})
  | n + 1 => do
    let x ← typeName none
    match x with
    | .identifier id =>
      let t ← peek
      if t.is "[" then
        next
        let arg ← deeper (expr n)
        let after ← peek
        match arg with
        | .identifier name =>
          if after.is "," || after.is "]" then return ([], ← instanceRest n id arg)
          else
            let _ ← parameterList n (some name) none "]"
            let _ ← expect "]"
            fault t.place
            return ([id], .functionType id.place (← signature n))
        | _ => return ([], ← instanceRest n id arg)
      else if t.is "(" then return ([id], .functionType id.place (← signature n))
      else return ([], x)
    | _ => if ← isAt "[" then return ([], ← typeInstance n x) else return ([], x)

/-- The arguments of a generic type behind the first. -/
def instanceRest : Nat → Identifier → Expr → Parse Expr
  | 0, id, _ => return .identifier id
  | n + 1, id, first => do
    let more ←
      if ← isAtComma "]" then deeper do
        next
        commaList "]" (type n) n
      else pure []
    let _ ← expectClosing "]"
    return .index (.identifier id) (first :: more)

/-- A union of types that starts with the given one. -/
def union : Nat → Expr → Parse Expr
  | 0, x => return x
  | n + 1, x => do
    if ← isAt "|" then
      next
      let y ← unionTerm n
      union n (.binary x "|" y)
    else return x

def unionTerm : Nat → Parse Expr
  | 0 => return .bad {}
  | n + 1 => do
    let t ← peek
    if t.is "~" then
      next
      return .unary t.place "~" (← type n)
    else match ← type? n with
      | some x => return x
      | none =>
        fault t.place
        resumeAt endsExpression
        return .bad t.place

def channelType : Nat → Parse Expr
  | 0 => return .bad {}
  | n + 1 => do
    let t ← peek
    if t.is "chan" then
      next
      let arrow ← peek
      if arrow.is "<-" then
        next
        return .channel t.place arrow.place .send (← type n)
      else return .channel t.place {} .both (← type n)
    else
      let arrow ← expect "<-"
      let _ ← expect "chan"
      return .channel t.place arrow .receive (← type n)

def functionType : Nat → Parse Expr
  | 0 => return .bad {}
  | n + 1 => do
    let place ← expect "func"
    let typeParams ← typeParameters n
    let params ← parameters n
    if let some (opening, _) := typeParams then fault opening
    return .functionType place (.mk params (← results n))

def signature : Nat → Parse Signature
  | 0 => return .mk [] none
  | n + 1 => do
    let params ← parameters n
    return .mk params (← results n)

/-- The type parameters of a function, with the place of their bracket. -/
def typeParameters : Nat → Parse (Option (Place × List FieldGroup))
  | 0 => return none
  | n + 1 => do
    if ← isAt "[" then
      let opening ← here
      next
      let list ← parameterList n none none "]"
      let closing ← expect "]"
      if list.isEmpty then
        fault closing
        return none
      else return some (opening, list)
    else return none

def parameters : Nat → Parse (List FieldGroup)
  | 0 => return []
  | n + 1 => do
    let _ ← expect "("
    let list ← if ← isAt ")" then pure [] else parameterList n none none ")"
    let _ ← expect ")"
    return list

def results : Nat → Parse (Option (List FieldGroup))
  | 0 => return none
  | n + 1 => do
    if ← isAt "(" then return some (← parameters n)
    else match ← type? n with
      | some x => return some [.mk [] x none 0 0]
      | none => return none

/-- Parameters up to a closing bracket. The first name and type may have been read already. -/
def parameterList : Nat → Option Identifier → Option Expr → String → Parse (List FieldGroup)
  | 0, _, _, _ => return []
  | n + 1, name, x, closing => do
    let first := ((name.map (·.place)).or (x.map (·.place))).getD (← here)
    let ps ← parameterItems n name x closing
    distribute (closing == "]") first ps

def parameterItems : Nat → Option Identifier → Option Expr → String → Parse (List Parameter)
  | 0, _, _, _ => return []
  | n + 1, name, x, closing => do
    let forTypes := closing == "]"
    if name.isSome || (← goesOnTo closing) then
      let p ← match x with
        | some t => pure ⟨name, some (← if forTypes then union n t else pure t)⟩
        | none => parameter n name forTypes
      let head := if p.name.isSome || p.type.isSome then [p] else []
      if ← isAtComma closing then
        next
        return head ++ (← parameterItems n none none closing)
      else return head
    else return []

/-- One parameter. The name may have been read already. -/
def parameter : Nat → Option Identifier → Bool → Parse Parameter
  | 0, name, _ => return ⟨name, none⟩
  | n + 1, name, forTypes => do
    let t ← peek
    if name.isNone && forTypes && t.is "~" then
      let x ← unionTerm n
      return ⟨none, some (← union n x)⟩
    else if name.isSome || t.kind = .identifier then
      let id ← match name with
        | some id => pure id
        | none => identifier
      parameterBehind n id forTypes
    else if t.is "..." then
      next
      return ⟨none, some (.ellipsis t.place (some (← type n)))⟩
    else match ← type? n with
      | some x => return ⟨none, some (← if forTypes then union n x else pure x)⟩
      | none =>
        fault t.place
        resumeAt endsExpression
        return ⟨none, none⟩

/-- A parameter behind the name it starts with. -/
def parameterBehind : Nat → Identifier → Bool → Parse Parameter
  | 0, id, _ => return ⟨some id, none⟩
  | n + 1, id, forTypes => do
    let t ← peek
    let joined (x : Expr) : Parse Expr := if forTypes then union n x else pure x
    if t.is "[" then
      let (name, x) ← arrayOrInstance n id
      return ⟨name, some (← joined x)⟩
    else if t.is "..." then
      next
      return ⟨some id, some (.ellipsis t.place (some (← type n)))⟩
    else if t.is "." then
      let x ← qualifiedName n (some id)
      return ⟨none, some (← joined x)⟩
    else if forTypes && t.is "~" then
      let x ← unionTerm n
      return ⟨some id, some (← union n x)⟩
    else if forTypes && t.is "|" then return ⟨none, some (← union n (.identifier id))⟩
    else match ← type? n with
      | some x => return ⟨some id, some (← joined x)⟩
      | none => return ⟨some id, none⟩

def expr : Nat → Parse Expr
  | 0 => return .bad {}
  | n + 1 => do
    let x ← unaryExpr n
    binaryFrom n x 1

/-- An expression in which an equals sign means a comparison. -/
def rhs : Nat → Parse Expr
  | 0 => return .bad {}
  | n + 1 => comparing true (expr n)

def exprList : Nat → Bool → Parse (List Expr)
  | 0, _ => return []
  | n + 1, compares => comparing compares (oneOrMore (expr n) n)

/-- The binary operators behind an operand that bind at least as tightly as given. -/
def binaryFrom : Nat → Expr → Nat → Parse Expr
  | 0, x, _ => return x
  | n + 1, x, least => do
    let c ← get
    let t := c.current
    let op := if c.comparesAssign && t.is "=" then "==" else t.text
    let p := if t.kind = .operator then precedence op else 0
    if p < least then return x
    else
      let _ ← expect op
      let y ← unaryExpr n
      let y ← binaryFrom n y (p + 1)
      binaryFrom n (.binary x op y) least

def unaryExpr : Nat → Parse Expr
  | 0 => return .bad {}
  | n + 1 => do
    let t ← peek
    if ["+", "-", "!", "^", "&", "~"].any t.is then
      next
      return .unary t.place t.text (← unaryExpr n)
    else if t.is "<-" then
      next
      let x ← unaryExpr n
      match x with
      | .channel .. =>
        let (x, faults) := reassociate t.place x
        faults.forM fault
        return x
      | _ => return .unary t.place "<-" x
    else if t.is "*" then
      next
      return .star t.place (← unaryExpr n)
    else
      let x ← operand n
      primaryFrom n x

def operand : Nat → Parse Expr
  | 0 => return .bad {}
  | n + 1 => do
    let t ← peek
    if t.kind = .identifier then
      next
      return .identifier ⟨t.place, t.text⟩
    else if t.isLiteral then
      next
      return .literal ⟨t.place, t.kind, t.text⟩
    else if t.is "(" then
      next
      let x ← deeper (rhs n)
      let _ ← expect ")"
      return .paren t.place x
    else if t.is "func" then
      let x ← functionType n
      match x with
      | .functionType place signature =>
        if ← isAt r"{" then
          let body ← deeper (block n)
          return .function place signature body
        else return x
      | _ => return x
    else match ← type? n with
      | some x => return x
      | none =>
        fault t.place
        resumeAt startsStatement
        return .bad t.place

/-- Selectors, arguments and the like behind an operand. -/
def primaryFrom : Nat → Expr → Parse Expr
  | 0, x => return x
  | n + 1, x => do
    let t ← peek
    if t.is "." then
      next
      let s ← peek
      if s.kind = .identifier then
        next
        primaryFrom n (.selector x ⟨s.place, s.text⟩)
      else if s.is "(" then
        next
        let asked ←
          if ← isAt "type" then do
            next
            pure none
          else pure (some (← type n))
        let _ ← expect ")"
        primaryFrom n (.assertion x asked)
      else
        fault s.place
        unless s.is r"}" do next
        primaryFrom n (.selector x ⟨s.place, "_"⟩)
    else if t.is "[" then
      let x ← indexFrom n x
      primaryFrom n x
    else if t.is "(" then
      next
      let (args, spread) ← deeper (callArgs n)
      let _ ← expectClosing ")"
      primaryFrom n (.call x args spread)
    else if t.is r"{" && x.unparen.opensComposite (← get).level then
      if isParen x then fault x.unparen.place
      let x ← literalValue n (some x)
      primaryFrom n x
    else return x

/-- The arguments of a call, and whether the last is spread. -/
def callArgs : Nat → Parse (List Expr × Bool)
  | 0 => return ([], false)
  | n + 1 => do
    if ← goesOnTo ")" then
      let x ← rhs n
      let spread ← isAt "..."
      if spread then next
      if ← isAtComma ")" then
        next
        if spread then return ([x], true)
        let (xs, spread) ← callArgs n
        return (x :: xs, spread)
      else return ([x], spread)
    else return ([], false)

/-- An index, a slice, or the arguments of a generic type behind an expression. -/
def indexFrom : Nat → Expr → Parse Expr
  | 0, x => return x
  | n + 1, x => do
    let _ ← expect "["
    if ← isAt "]" then
      let place ← here
      fault place
      next
      return .index x [.bad place]
    else
      let inner : Parse (List Expr × List (Place × Option Expr)) := deeper do
        let first ← if ← isAt ":" then pure none else pure (some (← rhs n))
        let t ← peek
        if t.is ":" then
          let bounds ← sliceBounds n 2
          return (first.toList, bounds)
        else if t.is "," then
          let more ← many (isAt ",") (instanceArg n) n
          return (first.toList ++ more.flatten, [])
        else return (first.toList, [])
      let (args, bounds) ← inner
      let _ ← expect "]"
      match bounds with
      | [] => return .index x args
      | [(_, high)] => return .slice x [args.head?, high]
      | (first, middle) :: (second, last) :: _ =>
        if middle.isNone then fault first
        if last.isNone then fault second
        return .slice x [args.head?, middle, last]

/-- A type behind a comma in brackets, unless the bracket closes. -/
def instanceArg : Nat → Parse (List Expr)
  | 0 => return []
  | n + 1 => do
    next
    if ← goesOnTo "]" then return [← type n] else return []

/-- The colons of a slice, at most the given number, each with the bound behind it. -/
def sliceBounds : Nat → Nat → Parse (List (Place × Option Expr))
  | 0, _ => return []
  | _, 0 => return []
  | n + 1, colons + 1 => do
    let t ← peek
    if t.is ":" then
      next
      let bound ←
        if (← isAt ":") || !(← goesOnTo "]") then pure none else pure (some (← rhs n))
      return (t.place, bound) :: (← sliceBounds n colons)
    else return []

def literalValue : Nat → Option Expr → Parse Expr
  | 0, _ => return .bad {}
  | n + 1, x => do
    let place ← expect r"{"
    let elements ← deeper (commaList r"}" (element n) n)
    let _ ← expectClosing r"}"
    return .composite x place elements

def element : Nat → Parse Expr
  | 0 => return .bad {}
  | n + 1 => do
    let x ← elementValue n
    if ← isAt ":" then
      next
      return .pair x (← elementValue n)
    else return x

def elementValue : Nat → Parse Expr
  | 0 => return .bad {}
  | n + 1 => do if ← isAt r"{" then literalValue n none else expr n

def block : Nat → Parse (List Stmt)
  | 0 => return []
  | n + 1 => do
    let _ ← expect r"{"
    let list ← statements n
    let _ ← expect r"}"
    return list

/-- Statements up to a closing brace or the next case. -/
def statements : Nat → Parse (List Stmt)
  | 0 => return []
  | n + 1 => do
    let t ← peek
    if t.is "case" || t.is "default" || t.is r"}" || t.kind = .endOfFile then return []
    else
      let s ← statement n
      return s :: (← statements n)

def statement : Nat → Parse Stmt
  | 0 => return .other
  | n + 1 => do
    let t ← peek
    if ["const", "type", "var"].any t.is then
      localDecl n t.text
      return .other
    else if t.isLiteral || ["func", "(", "[", "struct", "map", "chan", "interface", "+", "-", "*",
        "&", "^", "~", "<-", "!"].any t.is then
      let (s, _) ← simpleStatement n .labelAllowed
      match s with
      | .labeled => return s
      | _ =>
        expectEnd
        return s
    else if t.is "go" || t.is "defer" then
      next
      callStatement n
      expectEnd
      return .other
    else if t.is "return" then
      next
      let c ← peek
      let values ←
        if c.kind = .semicolon || c.is r"}" then pure [] else exprList n true
      expectEnd
      return .result values
    else if ["break", "continue", "goto", "fallthrough"].any t.is then
      next
      if !(t.is "fallthrough") && (← isAtKind .identifier) then next
      expectEnd
      return .other
    else if t.is r"{" then
      let _ ← block n
      expectEnd
      return .other
    else if t.is "if" then ifStatement n
    else if t.is "switch" then switchStatement n
    else if t.is "select" then
      next
      let _ ← expect r"{"
      let _ ← many (isAtAny ["case", "default"]) (commClause n) n
      let _ ← expect r"}"
      expectEnd
      return .other
    else if t.is "for" then forStatement n
    else if t.kind = .semicolon then
      next
      return .empty
    else if t.is r"}" then return .empty
    else
      fault t.place
      resumeAt startsStatement
      return .bad t.place

def localDecl : Nat → String → Parse Unit
  | 0, _ => return
  | n + 1, keyword => do
    if keyword == "type" then
      let _ ← group n keyword (typeSpec n)
    else
      let _ ← group n keyword (valueSpec n (keyword == "const"))

def callStatement : Nat → Parse Unit
  | 0 => return
  | n + 1 => do
    let x ← rhs n
    if isParen x then fault x.place
    match x.unparen with
    | .call .. | .bad _ => return
    | _ => fault (← get).lastStop

/-- A statement without a body; the flag tells whether it ranges over something. -/
def simpleStatement : Nat → SimpleMode → Parse (Stmt × Bool)
  | 0, _ => return (.other, false)
  | n + 1, mode => do
    let xs ← exprList n false
    let t ← peek
    let x := xs.headD (.bad t.place)
    if assignments.any t.is then
      next
      let r ← peek
      if mode = .rangeAllowed && r.is "range" && (t.is ":=" || t.is "=") then
        next
        let y ← rhs n
        return (.assign xs t.place t.text [.unary r.place "range" y], true)
      else
        let ys ← exprList n true
        return (.assign xs t.place t.text ys, false)
    else
      if xs.length > 1 then fault x.place
      if t.is ":" then
        next
        match x with
        | .identifier _ =>
          if mode = .labelAllowed then
            let _ ← statement n
            return (.labeled, false)
          else
            fault t.place
            return (.bad x.place, false)
        | _ =>
          fault t.place
          return (.bad x.place, false)
      else if t.is "<-" then
        next
        let _ ← rhs n
        return (.simple x.place, false)
      else if t.is "++" || t.is "--" then
        next
        return (.simple x.place, false)
      else return (.expr x, false)

/-- The condition of an if statement, behind an optional statement. -/
def ifHead : Nat → Parse Unit
  | 0 => return
  | n + 1 => do
    if ← isAt r"{" then fault (← here)
    else inHead do
      let first ←
        if ← isAtKind .semicolon then pure none
        else do
          if ← isAt "var" then
            next
            fault (← here)
          let (s, _) ← simpleStatement n .basic
          pure (some s)
      if ← isAt r"{" then
        if let some s := first then let _ ← asExpr s
      else
        let semi ← peek
        if semi.kind = .semicolon then next
        else
          let _ ← expect ";"
        if ← isAt r"{" then
          if semi.kind = .semicolon then fault semi.place
        else
          let (s, _) ← simpleStatement n .basic
          let _ ← asExpr s

def ifStatement : Nat → Parse Stmt
  | 0 => return .other
  | n + 1 => do
    let _ ← expect "if"
    ifHead n
    let _ ← block n
    if ← isAt "else" then
      next
      if ← isAt "if" then ifStatement n
      else if ← isAt r"{" then
        let _ ← block n
        expectEnd
        return .other
      else
        fault (← here)
        return .other
    else
      expectEnd
      return .other

def caseClause : Nat → Parse Clause
  | 0 => return .mk none []
  | n + 1 => do
    let values ←
      if ← isAt "case" then do
        next
        pure (some (← exprList n true))
      else do
        let _ ← expect "default"
        pure none
    let _ ← expect ":"
    return .mk values (← statements n)

def switchStatement : Nat → Parse Stmt
  | 0 => return .other
  | n + 1 => do
    let _ ← expect "switch"
    let (first, second) ←
      if ← isAt r"{" then pure (none, none)
      else inHead do
        let s ←
          if ← isAtKind .semicolon then pure none
          else do
            let (s, _) ← simpleStatement n .basic
            pure (some s)
        if ← isAtKind .semicolon then
          next
          if ← isAt r"{" then return (some (s.getD .empty), none)
          let (s', _) ← simpleStatement n .basic
          return (some (s.getD .empty), some s')
        else return (none, s)
    let isGuard ← match second with
      | some s => isTypeGuard s
      | none => pure false
    let _ ← expect r"{"
    let clauses ← many (isAtAny ["case", "default"]) (caseClause n) n
    let _ ← expect r"}"
    expectEnd
    if isGuard then return .other
    else
      let tag ← match second with
        | some s => pure (some (← asExpr s))
        | none => pure none
      if first.isSome then return .other else return .switch tag clauses

def commClause : Nat → Parse Unit
  | 0 => return
  | n + 1 => do
    if ← isAt "case" then
      next
      let xs ← exprList n false
      let first := (xs.head?.map (·.place)).getD {}
      let t ← peek
      if t.is "<-" then
        if xs.length > 1 then fault first
        next
        let _ ← rhs n
      else if t.is "=" || t.is ":=" then
        if xs.length > 2 then fault first
        next
        let _ ← rhs n
      else if xs.length > 1 then fault first
    else
      let _ ← expect "default"
    let _ ← expect ":"
    let _ ← statements n

def forStatement : Nat → Parse Stmt
  | 0 => return .other
  | n + 1 => do
    let _ ← expect "for"
    let (condition, isRange) ←
      if ← isAt r"{" then pure (none, false) else inHead (forHead n)
    let _ ← block n
    expectEnd
    match condition with
    | some (.assign xs _ _ _) =>
      if isRange then
        if xs.length > 2 then fault ((xs.getLast?.map (·.place)).getD {})
      else if let some s := condition then let _ ← asExpr s
    | some s => let _ ← asExpr s
    | none => pure ()
    return .other

/-- The condition of a loop or what it ranges over. -/
def forHead : Nat → Parse (Option Stmt × Bool)
  | 0 => return (none, false)
  | n + 1 => do
    let t ← peek
    let (first, isRange) ←
      if t.kind = .semicolon then pure (none, false)
      else if t.is "range" then do
        next
        let y ← rhs n
        pure (some (.assign [] t.place "" [y]), true)
      else do
        let (s, isRange) ← simpleStatement n .rangeAllowed
        pure (some s, isRange)
    if !isRange && (← isAtKind .semicolon) then
      next
      let second ←
        if ← isAtKind .semicolon then pure none
        else do
          let (s, _) ← simpleStatement n .basic
          pure (some s)
      expectEnd
      unless ← isAt r"{" do
        let _ ← simpleStatement n .basic
      return (second, false)
    else return (first, isRange)

def typeSpec : Nat → Parse TypeSpec
  | 0 => return default
  | n + 1 => do
    let start := (← here).line
    let name ← identifier
    let spec : TypeSpec ←
      if ← isAt "[" then do
        let opening ← here
        next
        if ← isAtKind .identifier then genericOrArray n name opening
        else pure { name, type := ← arrayRest n opening none }
      else do
        let isAlias ← isAt "="
        if isAlias then next
        pure { name, isAlias, type := ← type n }
    let stop := (← get).lastStop.line
    expectEnd
    return { spec with start, stop }

/-- A type with parameters, or an array type whose length starts with a name. -/
def genericOrArray : Nat → Identifier → Place → Parse TypeSpec
  | 0, name, _ => return { name, type := .bad name.place }
  | n + 1, name, opening => do
    let id ← identifier
    let x ←
      if ← isAt "[" then pure (.identifier id)
      else deeper do
        let x ← primaryFrom n (.identifier id)
        binaryFrom n x 1
    match x.split (← isAt ",") with
    | some (param, bound) =>
      if bound.isSome || !(← isAt "]") then
        let list ← parameterList n (some param) bound "]"
        let _ ← expect "]"
        let isAlias ← isAt "="
        if isAlias then next
        return { name, typeParams := some list, isAlias, type := ← type n }
      else return { name, type := ← arrayRest n opening (some x) }
    | none => return { name, type := ← arrayRest n opening (some x) }

def valueSpec : Nat → Bool → Parse ValueSpec
  | 0, _ => return default
  | n + 1, isConstant => do
    let start := (← here).line
    let names ← oneOrMore identifier n
    let t ← peek
    let x ←
      if isConstant then
        if t.kind = .endOfFile || t.kind = .semicolon || t.is ")" then pure none else type? n
      else if t.is "=" then pure none
      else pure (some (← type n))
    let values ←
      if ← isAt "=" then do
        next
        exprList n true
      else pure []
    let stop := (← get).lastStop.line
    expectEnd
    return { names, type := x, values, start, stop }

end

end Schemata.GoSyntax
