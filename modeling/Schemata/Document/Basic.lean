import Schemata.Schema.Basic
import Schemata.Document.Version

/-!
Documents: the form in which a module is stored as data. Every declaration is an item with a
kind word, every type a form word with the parts that form needs. A document may hold anything
of that form; which documents are modules is decided by the conversion.
-/

namespace Schemata.Document

mutual

/-- A declaration or a member. Which parts matter depends on the kind word. -/
structure Item where
  kind : String := ""
  name : String := ""
  namespaces : List String := []
  attributes : List Attribute := []
  anonymous : Bool := false
  varName : String := ""
  record : Bool := false
  abstract : Bool := false
  base : String := ""
  members : List (Option Item) := []
  type : Option TypeForm := none
  values : List (Option Value) := []
  isScoped : Bool := false
  underlying : String := ""
  alternatives : List (Option Alternative) := []
  methods : List (Option Method) := []
  items : List (Option Item) := []

structure Value where
  name : String := ""
  number : Int64 := 0
  attributes : List Attribute := []
  payload : Option TypeForm := none

/-- A missing type is an alternative without one. -/
structure Alternative where
  name : String := ""
  type : Option TypeForm := none
  attributes : List Attribute := []

/-- A type. The form word selects which parts matter. -/
structure TypeForm where
  form : String := ""
  kind : String := ""
  name : String := ""
  spelling : String := ""
  elem : Option TypeForm := none
  args : List (Option TypeForm) := []
  len : Int64 := 0
  struct : Option Item := none

end

end Schemata.Document

namespace Schemata

structure Document where
  version : String := ""
  source : String := ""
  namespaces : List String := []
  items : List (Option Document.Item) := []

end Schemata
