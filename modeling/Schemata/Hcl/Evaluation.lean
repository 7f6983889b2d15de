import Schemata.Hcl.Value

/-!
Values of expressions. No variables or functions are given from outside, so the only names with a
value are those of comprehensions. An expression without a value is answered with the place of
the first fault.
-/

namespace Schemata.Hcl

open Text

abbrev Eval := Except Place

abbrev Bindings := List (String × Value)

/-- A value as a scalar, at the place of the expression it comes from. -/
def Value.at (place : Place) (want : Scalar) (v : Value) : Eval Value :=
  match v.convert want with
  | .ok v => .ok v
  | .error _ => .error place

/-- A part of a value by key. -/
def Value.indexed (v key : Value) (place : Place) : Eval Value :=
  match v, key with
  | .null, _ | _, .null => .error place
  | .unknown, _ | _, .unknown => .ok .unknown
  | .tuple vs, key =>
    match key.convert .number with
    | .ok (.number n) =>
      match n.toInt64? with
      | some i => if 0 ≤ i then (vs[i.toInt.toNat]?).elim (.error place) .ok else .error place
      | none => .error place
    | _ => .error place
  | .object fields, key =>
    match key.convert .text with
    | .ok (.text name) => (fields.lookup name).elim (.error place) .ok
    | _ => .error place
  | _, _ => .error place

def Value.stepped (v : Value) : Step → Eval Value
  | .attribute place name =>
    match v with
    | .unknown => .ok .unknown
    | .object fields => (fields.lookup (composed name)).elim (.error place) .ok
    | _ => .error place
  | .index place key => v.indexed (.ofLiteral key) place

def Value.steppedAll (v : Value) (steps : List Step) : Eval Value := steps.foldlM Value.stepped v

/-- The text of an order relation. -/
def compares (op : Operator) (o : Ordering) : Bool :=
  match op with
  | .greater => o == .gt
  | .greaterEqual => o != .lt
  | .less => o == .lt
  | .lessEqual => o != .gt
  | _ => false

/-- The scalar type an operator works on; equality works on all values. -/
def Operator.scalar? : Operator → Option Scalar
  | .or | .and => some .flag
  | .equal | .notEqual => none
  | _ => some .number

def Operator.result? (op : Operator) (a b : Value) : Option Value :=
  match op, a, b with
  | .equal, a, b => some (if a.isKnown && b.isKnown then .flag (a.same b) else .unknown)
  | .notEqual, a, b => some (if a.isKnown && b.isKnown then .flag (!a.same b) else .unknown)
  | _, .null, _ | _, _, .null => none
  | _, .unknown, _ | _, _, .unknown => some .unknown
  | .or, .flag a, .flag b => some (.flag (a || b))
  | .and, .flag a, .flag b => some (.flag (a && b))
  | .add, .number a, .number b => (a.add? b).map .number
  | .subtract, .number a, .number b => (a.sub? b).map .number
  | .multiply, .number a, .number b => (a.mul? b).map .number
  | .divide, .number a, .number b => (a.div? b).map .number
  | .remainder, .number a, .number b => (a.rem? b).map .number
  | op, .number a, .number b => some (.flag (compares op (a.compare b)))
  | _, _, _ => none

/-- The operand that decides a logical operator alone. -/
def Operator.decisive? : Operator → Option Bool
  | .or => some true
  | .and => some false
  | _ => none

/-- Whether an operand decides the result of an operator. -/
def Operator.decidedBy (op : Operator) (operand : Eval Value) : Bool :=
  match op.decisive?, operand with
  | some b, .ok (.flag c) => b == c
  | _, _ => false

/-- The branches of a condition brought to one type, if there is one. -/
def unified? (chosen other : Value) : Option Value :=
  match chosen, other with
  | .null, _ | _, .null | .unknown, _ | _, .unknown => some chosen
  | .flag _, .flag _ | .number _, .number _ | .text _, .text _ => some chosen
  | .tuple _, .tuple _ | .object _, .object _ => some chosen
  | .text _, .flag _ | .text _, .number _ => some chosen
  | .flag _, .text _ | .number _, .text _ => (chosen.convert .text).toOption
  | _, _ => none

def Value.pairs? : Value → Option (List (Value × Value))
  | .tuple vs => some (vs.zipIdx.map fun (v, i) => (.number (Number.ofNat i), v))
  | .object fields => some (fields.map fun (k, v) => (.text k, v))
  | _ => none

/-- Puts a value under a key; grouped values of one key make up a tuple. -/
def putGrouped (name : String) (v : Value) (fields : List (String × Value)) :
    List (String × Value) :=
  match fields.lookup name with
  | some (.tuple vs) => Value.putField name (.tuple (vs ++ [v])) fields
  | _ => Value.putField name (.tuple [v]) fields

def Expression.keyword? : Expression → Option String
  | .name _ root [] => some root
  | .literal _ .null => some "null"
  | .literal _ (.flag b) => some (if b then "true" else "false")
  | _ => none

mutual

/-- The value of an expression; `entry` is what the innermost splat runs over. -/
def Expression.eval (env : Bindings) (entry : Option Value) : Expression → Eval Value
  | .literal _ v => .ok (.ofLiteral v)
  | .name place root steps =>
    match env.lookup root with
    | some v => v.steppedAll steps
    | none => .error place
  | .steps source steps => do (← source.eval env entry).steppedAll steps
  | .index source key bracket => do
    let v ← source.eval env entry
    let k ← key.eval env entry
    v.indexed k bracket
  | .splat source each _ => do
    match ← source.eval env entry with
    | .null => return .tuple []
    | .unknown => return .unknown
    | .tuple vs => return .tuple (← vs.mapM fun v => each.eval env (some v))
    | v => return .tuple [← each.eval env (some v)]
  | .entry place =>
    match entry with
    | some v => .ok v
    | none => .error place
  | .call place _ _ => .error place
  | .conditional _ condition yes no => do
    let first := yes.eval env entry
    let second := no.eval env entry
    let types := (unified? (first.toOption.getD .unknown) (second.toOption.getD .unknown))
    if types.isNone then .error yes.place
    else
      let c ← condition.eval env entry
      match c.convert .flag with
      | .ok (.flag true) =>
        let v ← first
        (unified? v (second.toOption.getD .unknown)).elim (.error yes.place) .ok
      | .ok (.flag false) =>
        let v ← second
        (unified? v (first.toOption.getD .unknown)).elim (.error no.place) .ok
      | .ok .unknown => return .unknown
      | _ => .error condition.place
  | .binary op left right =>
    let converted (e : Expression) (v : Eval Value) : Eval Value :=
      match op.scalar? with
      | some want => v >>= fun v => v.at e.place want
      | none => v
    let a := converted left (left.eval env entry)
    let b := converted right (right.eval env entry)
    if op.decidedBy a then a
    else if op.decidedBy b then b
    else do
      let v ← a
      let w ← b
      (op.result? v w).elim (.error left.place) .ok
  | .negation place e => do
    match ← (← e.eval env entry).at e.place .number with
    | .number n => return .number n.neg
    | .unknown => return .unknown
    | _ => .error place
  | .complement place e => do
    match ← (← e.eval env entry).at e.place .flag with
    | .flag b => return .flag !b
    | .unknown => return .unknown
    | _ => .error place
  | .parentheses _ inner => inner.eval env entry
  | .template _ parts => do
    match ← evalParts env entry parts with
    | some s => return .ofText s
    | none => return .unknown
  | .wrapped _ inner => inner.eval env entry
  | .joined inner => do
    match ← inner.eval env entry with
    | .tuple vs =>
      let texts ← vs.mapM fun v => v.at inner.place .text
      if texts.any fun | .unknown => true | _ => false then return .unknown
      return .ofText (String.join (texts.map fun | .text s => s | _ => ""))
    | _ => return .unknown
  | .tuple _ es => do return .tuple (← evalEntries env entry es)
  | .object _ items => do
    match ← evalItems env entry [] items with
    | some fields => return .object fields
    | none => return .unknown
  | .comprehension _ keyName valueName source key value condition grouped => do
    let bind (k v : Value) : Bindings :=
      (valueName, v) :: (if keyName = "" then env else (keyName, k) :: env)
    match ← source.eval env entry with
    | .unknown => return .unknown
    | collection =>
      match collection.pairs? with
      | none => .error source.place
      | some pairs =>
        let test (k v : Value) : Eval Value :=
          match condition with
          | none => .ok (.flag true)
          | some c => do
            match ← c.eval (bind k v) entry with
            | .null => .error c.place
            | v => v.at c.place .flag
        discard (test .unknown .unknown)
        match key with
        | none =>
          let vs ← pairs.filterMapM fun (k, v) => do
            match ← test k v with
            | .flag true => return some (← value.eval (bind k v) entry)
            | _ => return none
          return .tuple vs
        | some keyExpr =>
          let fields ← pairs.foldlM (fun fields (k, v) => do
            match ← test k v with
            | .flag true =>
              match ← (← keyExpr.eval (bind k v) entry).at keyExpr.place .text with
              | .text name =>
                let w ← value.eval (bind k v) entry
                if grouped then return putGrouped name w fields
                else if (fields.lookup name).isSome then .error keyExpr.place
                else return Value.putField name w fields
              | _ => .error keyExpr.place
            | _ => return fields) []
          return .object fields
  | .broken place => .error place

/-- The text that parts make, none when one is not known. -/
def evalParts (env : Bindings) (entry : Option Value) :
    List Expression → Eval (Option String)
  | [] => .ok (some "")
  | e :: es => do
    match ← (← e.eval env entry).at e.place .text with
    | .null => .error e.place
    | .text s => return (← evalParts env entry es).map (s ++ ·)
    | _ =>
      discard (evalParts env entry es)
      return none

def evalEntries (env : Bindings) (entry : Option Value) : List Expression → Eval (List Value)
  | [] => .ok []
  | e :: es => do
    let v ← e.eval env entry
    return v :: (← evalEntries env entry es)

/-- The fields of an object, none when a key is not known. -/
def evalItems (env : Bindings) (entry : Option Value) (done : List (String × Value)) :
    List (Expression × Expression) → Eval (Option (List (String × Value)))
  | [] => .ok (some done)
  | (key, value) :: rest => do
    let k ← match key with
      | .name place _ (_ :: _) => .error place
      | key =>
        match key.keyword? with
        | some word => .ok (.ofText word)
        | none => key.eval env entry
    let v ← value.eval env entry
    match k with
    | .null => .error value.place
    | k =>
      match ← k.at key.place .text with
      | .text name => evalItems env entry (Value.putField name v done) rest
      | _ =>
        discard (evalItems env entry done rest)
        return none

end

def Expression.value (e : Expression) : Eval Value := e.eval [] none

end Schemata.Hcl
