import Schemata.Traversal

/-!
A trace of the traversal: hooks that write one line for each call, with the place it was made
from. Chosen declarations can be taken over by name.
-/

namespace Schemata.Trace

def line (hook name : String) (c : Context) : String :=
  c.indent ++ hook ++ " " ++ name ++ " pass=" ++ c.pass.name ++ " level=" ++ toString c.level ++
    " ns=" ++ String.intercalate "." c.namespaces ++
    " parent=" ++ (c.parent.map (·.name)).getD "-" ++ "\n"

/-- Hooks that write every call; with `taken` present the declarations it names are taken over. -/
def hooks (taken : Option (List String)) : Hooks Id where
  header m c := line "Header" m.source c
  footer m c := line "Footer" m.source c
  spaceOpen name c := line "NamespaceOpen" name c
  spaceClose name c := line "NamespaceClose" name c
  structOpen s c := line "StructOpen" s.name c
  structClose s c := line "StructClose" s.name c
  field f type c := do return line "Field" (f.name ++ ":" ++ (← type)) c
  enumOpen e c := line "EnumOpen" e.name c
  enumValue v isLast type c := do
    return line "EnumValue" (s!"{v.name}:{isLast}:" ++ (← type)) c
  enumClose e c := line "EnumClose" e.name c
  oneof o c := line "Oneof" o.name c
  service s c := line "Service" s.name c
  takeNode n c :=
    if (taken.getD []).contains n.name then some (line "OverrideNode" n.name c) else none
  takeMember m c :=
    if (taken.getD []).contains m.name then some (line "OverrideMember" m.name c) else none
  primitiveType k _ := "P(" ++ k.name ++ ")"
  referenceType name k := "R(" ++ name ++ "," ++ (TypeExpr.reference name k).kind.name ++ ")"
  indirectionType k elem := "I(" ++ k.name ++ "," ++ elem ++ ")"
  genericType k args := "G(" ++ String.intercalate "," (k.name :: args) ++ ")"
  inlineType body := "S(" ++ body.getD "" ++ ")"

/-- Hooks that write nothing but the names of references. -/
def silent : Hooks Id := {}

end Schemata.Trace
