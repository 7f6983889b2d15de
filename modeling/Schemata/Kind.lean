/-!
The kinds of types a schema can speak of, independent of any notation. Each kind has one
stable lower-case name, which tables, documents and messages use.
-/

namespace Schemata

inductive Kind where
  | unknown
  | bool
  | int8
  | uint8
  | int16
  | uint16
  | int32
  | uint32
  | int64
  | uint64
  | float32
  | float64
  | string
  | bytes
  | char
  | datetime
  | date
  | time
  | duration
  | uuid
  | decimal
  | url
  | email
  | list
  | map
  | set
  | tuple
  | optional
  | variant
  | pair
  | monostate
  | array
  | unorderedMap
  | unorderedSet
  | pointer
  | uniquePtr
  | sharedPtr
  | structRef
deriving DecidableEq, Repr

namespace Kind

def all : List Kind :=
  [.unknown, .bool, .int8, .uint8, .int16, .uint16, .int32, .uint32, .int64, .uint64, .float32,
    .float64, .string, .bytes, .char, .datetime, .date, .time, .duration, .uuid, .decimal, .url,
    .email, .list, .map, .set, .tuple, .optional, .variant, .pair, .monostate, .array,
    .unorderedMap, .unorderedSet, .pointer, .uniquePtr, .sharedPtr, .structRef]

theorem mem_all (k : Kind) : k ∈ all := by
  cases k <;> decide

def name : Kind → String
  | .unknown => "unknown"
  | .bool => "bool"
  | .int8 => "int8"
  | .uint8 => "uint8"
  | .int16 => "int16"
  | .uint16 => "uint16"
  | .int32 => "int32"
  | .uint32 => "uint32"
  | .int64 => "int64"
  | .uint64 => "uint64"
  | .float32 => "float32"
  | .float64 => "float64"
  | .string => "string"
  | .bytes => "bytes"
  | .char => "char"
  | .datetime => "datetime"
  | .date => "date"
  | .time => "time"
  | .duration => "duration"
  | .uuid => "uuid"
  | .decimal => "decimal"
  | .url => "url"
  | .email => "email"
  | .list => "list"
  | .map => "map"
  | .set => "set"
  | .tuple => "tuple"
  | .optional => "optional"
  | .variant => "variant"
  | .pair => "pair"
  | .monostate => "monostate"
  | .array => "array"
  | .unorderedMap => "unordered_map"
  | .unorderedSet => "unordered_set"
  | .pointer => "pointer"
  | .uniquePtr => "unique_ptr"
  | .sharedPtr => "shared_ptr"
  | .structRef => "struct_ref"

def ofName? (s : String) : Option Kind :=
  all.find? fun k => k.name == s

/-- The position in declaration order, zero for `unknown`. -/
def ordinal (k : Kind) : Nat :=
  all.idxOf k

/-- Scalar leaves, the "no value" marker included. -/
def isPrimitive : Kind → Bool
  | .bool | .int8 | .uint8 | .int16 | .uint16 | .int32 | .uint32 | .int64 | .uint64 | .float32
  | .float64 | .string | .bytes | .char | .datetime | .date | .time | .duration | .uuid | .decimal
  | .url | .email | .monostate => true
  | _ => false

def isContainer : Kind → Bool
  | .list | .map | .set | .tuple | .optional | .variant | .pair | .array | .unorderedMap
  | .unorderedSet => true
  | _ => false

/-- Owners that hold their target elsewhere. -/
def isOwnership : Kind → Bool
  | .pointer | .uniquePtr | .sharedPtr => true
  | _ => false

def isIndirection (k : Kind) : Bool :=
  k.isOwnership || k == .optional

/-- Fixed-width integers. -/
def isInteger : Kind → Bool
  | .int8 | .uint8 | .int16 | .uint16 | .int32 | .uint32 | .int64 | .uint64 => true
  | _ => false

def isNumeric : Kind → Bool
  | .float32 | .float64 | .decimal => true
  | k => k.isInteger

def isUnsigned : Kind → Bool
  | .uint8 | .uint16 | .uint32 | .uint64 => true
  | _ => false

def arity? : Kind → Option Nat
  | .list | .set | .unorderedSet | .optional | .array => some 1
  | .map | .unorderedMap | .pair => some 2
  | _ => none

end Kind

end Schemata
