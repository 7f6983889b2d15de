import Schemata.Proofs.Writer.Statements
import Schemata.Writer.Protobuf

/-!
The messages of protobuf files. A file is a list of blocks, one for each declaration: a message
for a struct, a oneof or an enum with payloads, and an enum or a service otherwise. What a message
holds can be told from its declaration alone; only the numbers of its lines are handed out while
the file is written, by a counter that all messages share. The text of the file is that of its
blocks, in which the lines of every message are numbered from one on.
-/

namespace Schemata.Writer.Protobuf

open Emission Schemata.Normal List

variable {c : Context}

/-! ### Lines and messages -/

inductive TypeUse where
  /-- The field that holds what a struct extends. -/
  | base (name : String)
  | field (type : TypeExpr)
  | alternative (type : TypeExpr)

structure Line where
  use : TypeUse
  name : String
  options : String := ""

/-- A part of a message: a line of its own, or a oneof around the lines of its alternatives. -/
inductive Part (α : Type) where
  | single (line : α)
  | oneof (name : String) (alternatives : List α)

def Part.lines {α : Type} : Part α → List α
  | .single line => [line]
  | .oneof _ alternatives => alternatives

structure Message where
  name : String
  parts : List (Part Line)

def Message.lines (m : Message) : List Line := m.parts.flatMap Part.lines

variable (t : Target) (n : Nat)

/-- A part with its lines numbered, the first one with the number after `n`. -/
def Part.numbered : Part Line → Part (Line × Nat)
  | .single line => .single (line, n + 1)
  | .oneof name alternatives => .oneof name (alternatives.zipIdx (n + 1))

/-- Parts with their lines numbered on and on. -/
def numberedFrom (n : Nat) : List (Part Line) → List (Part (Line × Nat))
  | [] => []
  | p :: rest => p.numbered n :: numberedFrom (n + p.lines.length) rest

def Message.numbered (m : Message) : List (Part (Line × Nat)) := numberedFrom 0 m.parts

def Message.numbers (m : Message) : List Nat := (m.numbered.flatMap Part.lines).map Prod.snd

theorem Part.lines_numbered (p : Part Line) : (p.numbered n).lines = p.lines.zipIdx (n + 1) := by
  cases p <;> rfl

theorem lines_numberedFrom (ps : List (Part Line)) :
    (numberedFrom n ps).flatMap Part.lines = (ps.flatMap Part.lines).zipIdx (n + 1) := by
  induction ps generalizing n with
  | nil => rfl
  | cons p ps ih =>
    have hnext : n + p.lines.length + 1 = n + 1 + p.lines.length := by omega
    rw [numberedFrom, flatMap_cons, flatMap_cons, Part.lines_numbered, ih, hnext, zipIdx_append]

theorem Message.numbers_eq (m : Message) : m.numbers = List.range' 1 m.lines.length := by
  rw [numbers, numbered, lines_numberedFrom, lines]
  exact zipIdx_map_snd 1 _

inductive Block where
  | message (m : Message)
  | enum (e : Enum)
  | service (s : Service)

/-! ### What declarations hold -/

def loweredText (type : TypeExpr) : String := ((lowererOf t).typeName type).text

/-- The type that a field is written with, which may be what an optional one is optional of. -/
def heldType : TypeExpr → TypeExpr
  | .indirection .optional elem =>
    if isCollection elem.kind then elem else .indirection .optional elem
  | type => type

def chosenType : TypeExpr → TypeExpr
  | .indirection .optional elem => elem
  | type => type

def fieldText (type : TypeExpr) : String :=
  if isRepresentable type then loweredText t (heldType type) else "bytes"

def alternativeText : TypeExpr → String
  | .missing => empty
  | type => if isElement (chosenType type) then loweredText t (chosenType type) else "bytes"

def TypeUse.text : TypeUse → String
  | .base name => messageName t name
  | .field type => fieldText t type
  | .alternative type => alternativeText t type

def alternativeLine (a : Alternative) : Line :=
  ⟨.alternative a.type, t.naming.field.apply a.name, options a.attributes⟩

def oneofPart (name : String) (alts : List Alternative) : Part Line :=
  .oneof (t.naming.field.apply name) (alts.map (alternativeLine t))

/-- The alternatives that a field of variant type becomes. -/
def variantAlternatives (name : String) (args : List TypeExpr) : List Alternative :=
  args.zipIdx.map fun (type, i) => ⟨name ++ "_" ++ toString i, type, []⟩

def fieldPart (f : Field) : Part Line :=
  match f.type with
  | .generic .variant args _ => oneofPart t f.name (variantAlternatives f.name args)
  | type => .single ⟨.field type, t.naming.field.apply f.name, options f.attributes⟩

/-- What a member becomes; declarations that are members are left out. -/
def memberParts : Member → List (Part Line)
  | .field f => [fieldPart t f]
  | .oneof o => [oneofPart t o.name o.alternatives]
  | .enum _ | .struct _ => []

def baseParts (base : String) : List (Part Line) :=
  if base = "" then [] else [.single { use := .base base, name := "base" }]

def payloadAlternatives (e : Enum) : List Alternative :=
  e.values.map fun v => ⟨v.name, v.payload, v.attributes⟩

def structMessage (s : Struct) : Message :=
  ⟨messageName t s.name, baseParts s.base ++ s.members.flatMap (memberParts t)⟩

def blocksOf : Node → List Block
  | .struct s => [.message (structMessage t s)]
  | .oneof o => [.message ⟨messageName t o.name, [oneofPart t o.name o.alternatives]⟩]
  | .enum e =>
    if e.hasPayloads then
      [.message ⟨messageName t e.name, [oneofPart t "value" (payloadAlternatives e)]⟩]
    else [.enum e]
  | .service s => [.service s]
  | .space _ _ => []

def blocks (m : Module) : List Block := (declarations m.nodes).flatMap (blocksOf t)

def messages (m : Module) : List Message :=
  (blocks t m).filterMap fun
    | .message message => some message
    | _ => none

/-! ### Texts -/

def lineText (indent : String) (line : Line × Nat) : String :=
  indent ++ line.1.use.text t ++ " " ++ line.1.name ++ " = " ++ toString line.2 ++
    line.1.options ++ ";\n"

def partText : Part (Line × Nat) → String
  | .single line => lineText t "  " line
  | .oneof name alternatives =>
    "  oneof " ++ name ++ r" {" ++ "\n" ++ String.join (alternatives.map (lineText t "    ")) ++
      r"  }" ++ "\n"

def Message.text (m : Message) : String :=
  "message " ++ m.name ++ r" {" ++ "\n" ++ String.join (m.numbered.map (partText t)) ++ r"}" ++
    "\n\n"

def methodText (name : String) : String :=
  if name = "" then empty else messageName t name

def methodLine (m : Method) : String :=
  "  " ++ "rpc " ++ Naming.pascalCase m.name ++ "(" ++ methodText t m.request ++ ") returns (" ++
    methodText t m.response ++ ");\n"

def serviceText (s : Service) : String :=
  "service " ++ messageName t s.name ++ r" {" ++ "\n" ++
    String.join (s.methods.map (methodLine t)) ++ r"}" ++ "\n\n"

def Block.text : Block → String
  | .message m => m.text t
  | .enum e => enumBlock t e { unit := "  " }
  | .service s => serviceText t s

/-- What stands before the blocks of a file. -/
def preamble (m : Module) (im : Imports) : String :=
  header t.comment ++ "syntax = \"proto3\";\n\n" ++
    (if m.namespaces.isEmpty then ""
      else "package " ++ String.intercalate "." (m.namespaces.map t.naming.namespaces.apply) ++
        ";\n\n") ++
    if im.size = 0 then "" else String.intercalate "\n" im.lines ++ "\n\n"

/-! ### Numbers while writing -/

theorem counts_typeText (type : TypeExpr) : Counts n (loweredText t type) n (typeText t type) :=
  (counts_report t.key _).bind (counts_scan knownImports _)

theorem counts_degrade (type : TypeExpr) (path : String) : Counts n "bytes" n (degrade type path) :=
  (counts_warn _ _ _ _).bind (.pure _)

theorem fieldType_eq (type : TypeExpr) (path : String) : fieldType t type path =
    if isRepresentable type then typeText t (heldType type) else degrade type path := by
  cases hform : isRepresentable type with
  | false => rw [fieldType.eq_def, hform]; rfl
  | true =>
    rw [fieldType.eq_def, hform, if_neg (by simp), if_pos rfl]
    split
    next elem => rw [heldType, apply_ite (typeText t)]
    next hother => rw [heldType]; exact hother

theorem counts_fieldType (type : TypeExpr) (path : String) :
    Counts n (fieldText t type) n (fieldType t type path) := by
  rw [fieldType_eq, fieldText]
  split
  · exact counts_typeText t n _
  · exact counts_degrade n type path

theorem counts_alternativeType (type : TypeExpr) (path : String) :
    Counts n (alternativeText t type) n (alternativeType t type path) := by
  have hsingle : ∀ type, Counts n (if isElement type then loweredText t type else "bytes") n
      (if isElement type then typeText t type else degrade type path) := by
    intro type
    split
    · exact counts_typeText t n type
    · exact counts_degrade n type path
  rw [alternativeType.eq_def]
  split
  next => exact counts_scan knownImports empty
  next elem => exact hsingle elem
  next hmissing hoptional =>
    rw [alternativeText, chosenType]
    · exact hsingle type
    · exact hoptional
    · exact hmissing

/-! ### Parts, one after the other -/

def partsText (ps : List (Part Line)) : String :=
  String.join ((numberedFrom n ps).map (partText t))

/-- The emission writes these parts, with the numbers after `n`. -/
def WritesParts (ps : List (Part Line)) (e : Emit String) : Prop :=
  Counts n (partsText t n ps) (n + (ps.flatMap Part.lines).length) e

variable {t}

theorem partsText_singleton (p : Part Line) : partsText t n [p] = partText t (p.numbered n) := by
  simp [partsText, numberedFrom]

theorem partsText_append (ps qs : List (Part Line)) :
    partsText t n (ps ++ qs) =
      partsText t n ps ++ partsText t (n + (ps.flatMap Part.lines).length) qs := by
  induction ps generalizing n with
  | nil => simp [partsText, numberedFrom]
  | cons p ps ih =>
    have hrest := ih (n + p.lines.length)
    simp only [partsText] at hrest ⊢
    simp [numberedFrom, String.join_cons, hrest, length_append, String.append_assoc, Nat.add_assoc]

theorem WritesParts.nil {n : Nat} : WritesParts t n [] (pure "") := Counts.pure _

theorem WritesParts.singleton {n : Nat} {p : Part Line} {e : Emit String}
    (h : Counts n (partText t (p.numbered n)) (n + p.lines.length) e) : WritesParts t n [p] e := by
  rw [WritesParts, partsText_singleton, flatMap_singleton]
  exact h

theorem WritesParts.join {n : Nat} {ps qs : List (Part Line)} {e rest : Emit String}
    (he : WritesParts t n ps e)
    (hrest : WritesParts t (n + (ps.flatMap Part.lines).length) qs rest) :
    WritesParts t n (ps ++ qs) (do
      let head ← e
      return head ++ (← rest)) := by
  rw [WritesParts, partsText_append, flatMap_append, length_append, ← Nat.add_assoc]
  exact he.bind (hrest.bind (.pure _))

/-! ### What the hooks write -/

variable (t)

/-- The context of the members of a message. -/
structure InMessage (c : Context) : Prop where
  level_eq : c.level = 1
  unit_eq : c.unit = "  "

theorem InMessage.indent_eq (hc : InMessage c) : c.indent = "  " := by
  rw [Context.indent, hc.level_eq, hc.unit_eq]
  decide

theorem InMessage.nest_indent_eq (hc : InMessage c) : c.nest.indent = "    " := by
  simp only [Context.indent, Context.nest, hc.level_eq, hc.unit_eq]
  decide

theorem InMessage.within (hc : InMessage c) (parent : Option Struct) :
    InMessage { c with parent } := ⟨hc.level_eq, hc.unit_eq⟩

theorem counts_alternatives (indent path : String) (alts : List Alternative) (n : Nat) :
    Counts n (String.join (((alts.map (alternativeLine t)).zipIdx (n + 1)).map (lineText t indent)))
      (n + alts.length) (alternatives t indent path alts) := by
  induction alts generalizing n with
  | nil => exact .pure ""
  | cons a rest ih =>
    have hcount : n + (a :: rest).length = n + 1 + rest.length := by
      rw [length_cons]
      omega
    rw [hcount, map_cons, zipIdx_cons, map_cons, String.join_cons]
    exact (counts_alternativeType t n a.type _).bind
      (counts_nextNumber.bind ((ih (n + 1)).bind (.pure _)))

theorem counts_oneofBlock (hc : InMessage c) (name path : String) (alts : List Alternative)
    (n : Nat) :
    Counts n (partText t ((oneofPart t name alts).numbered n))
      (n + (oneofPart t name alts).lines.length) (oneofBlock t name alts path c) := by
  have halts := counts_alternatives t "    " path alts n
  have hopening : "  oneof " = "  " ++ "oneof " := by decide
  have hclosing : r"  }" = "  " ++ r"}" := by decide
  rw [oneofBlock, hc.nest_indent_eq, hc.indent_eq, oneofPart, Part.lines, length_map,
    Part.numbered, partText, hopening, hclosing, ← String.append_assoc]
  exact halts.bind (.pure _)

theorem yields_oneofMessage (hc : InMessage c.nest) (name inner : String)
    (alts : List Alternative) :
    Yields (Message.text t ⟨messageName t name, [oneofPart t inner alts]⟩)
      (oneofMessage t name inner alts c) := by
  have hparts : String.join ((Message.numbered ⟨messageName t name, [oneofPart t inner alts]⟩).map
      (partText t)) = partText t ((oneofPart t inner alts).numbered 0) :=
    partsText_singleton 0 _
  rw [Message.text, hparts]
  refine Counts.yields fun n => ⟨0 + (oneofPart t inner alts).lines.length, ?_⟩
  exact counts_resetCount.bind ((counts_oneofBlock t hc inner name alts 0).bind (.pure _))

theorem counts_field (hc : InMessage c) (f : Field) (type : Emit String) (n : Nat) :
    Counts n (partText t ((fieldPart t f).numbered n)) (n + (fieldPart t f).lines.length)
      ((hooks t).field f type c) := by
  obtain ⟨name, ftype, attrs⟩ := f
  by_cases hvariant : ∃ args len, ftype = .generic .variant args len
  · obtain ⟨args, len, rfl⟩ := hvariant
    exact counts_oneofBlock t hc name _ _ n
  · have hpart : fieldPart t ⟨name, ftype, attrs⟩ =
        .single ⟨.field ftype, t.naming.field.apply name, options attrs⟩ := by
      rw [fieldPart.eq_def]
      dsimp only
      split
      next args len => exact absurd ⟨args, len, rfl⟩ hvariant
      next => rfl
    rw [hpart]
    simp only [hooks]
    split
    next args len => exact absurd ⟨args, len, rfl⟩ hvariant
    next =>
      rw [hc.indent_eq]
      refine (counts_fieldType t n ftype _).bind ?_
      exact counts_nextNumber.bind (.pure _)

theorem writesParts_member (hc : InMessage c) (hparent : c.parent.isSome) (x : Member) (n : Nat) :
    WritesParts t n (memberParts t x) ((walker t).member c x) := by
  cases x with
  | field f =>
    obtain ⟨name, type, attrs⟩ := f
    rw [Walker.member]
    exact WritesParts.singleton (counts_field t hc ⟨name, type, attrs⟩ ((walker t).type type) n)
  | oneof o =>
    rw [Walker.member]
    refine WritesParts.singleton ?_
    have honeof : (walker t).hooks.oneof o c =
        oneofBlock t o.name o.alternatives (parentName c ++ "." ++ o.name) c := if_pos hparent
    rw [honeof]
    exact counts_oneofBlock t hc o.name _ o.alternatives n
  | enum e =>
    have hslot : isSlot (.enum e) = false := rfl
    cases e
    rw [Walker.member]
    exact (counts_dropped hslot _ _ c).bind (.pure _)
  | struct s =>
    have hslot : isSlot (.struct s) = false := rfl
    cases s
    rw [Walker.member]
    exact (counts_dropped hslot _ _ c).bind (.pure _)

theorem writesParts_members (hc : InMessage c) (hparent : c.parent.isSome) (xs : List Member)
    (n : Nat) : WritesParts t n (xs.flatMap (memberParts t)) ((walker t).members c xs) := by
  induction xs generalizing n with
  | nil =>
    rw [Walker.members]
    exact WritesParts.nil
  | cons x xs ih =>
    rw [Walker.members, flatMap_cons]
    exact (writesParts_member t hc hparent x n).join (ih _)

/-- The base of a struct is a line of its own. -/
theorem counts_structOpen (hc : InMessage c.nest) (s : Struct) (n : Nat) :
    Counts n
      ("message " ++ messageName t s.name ++ r" {" ++ "\n" ++ partsText t 0 (baseParts s.base))
      ((baseParts s.base).flatMap Part.lines).length ((hooks t).structOpen s c) := by
  simp only [hooks]
  refine counts_resetCount.bind ?_
  by_cases hbase : s.base = ""
  · rw [if_pos hbase, baseParts, if_pos hbase, partsText, numberedFrom,
      map_nil, String.join_nil, String.append_empty]
    exact .pure _
  · have htext : " base = " = " " ++ "base" ++ " = " := by decide
    rw [if_neg hbase, baseParts, if_neg hbase, partsText_singleton, hc.indent_eq, htext]
    refine counts_nextNumber.bind ?_
    simp only [Part.numbered, partText, lineText, TypeUse.text, ← String.append_assoc,
      String.append_empty]
    exact .pure _

/-- The context of the declarations of a file. -/
structure Outermost (c : Context) : Prop where
  level_eq : c.level = 0
  unit_eq : c.unit = "  "
  parent_eq : c.parent = none

theorem Outermost.nest (hc : Outermost c) : InMessage c.nest :=
  ⟨congrArg (· + 1) hc.level_eq, hc.unit_eq⟩

theorem Outermost.inside (hc : Outermost c) (name : String) :
    Outermost ((walker t).inside c name) := ⟨hc.level_eq, hc.unit_eq, hc.parent_eq⟩

theorem yields_struct (hc : Outermost c) (s : Struct) :
    Yields ((structMessage t s).text t) ((walker t).struct c s) := by
  have htext := partsText_append (t := t) 0 (baseParts s.base)
    (s.members.flatMap (memberParts t))
  rw [Nat.zero_add] at htext
  have hend (text : String) : text ++ r"}" ++ "\n\n" = text ++ (r"}" ++ "\n\n") :=
    String.append_assoc
  rw [structMessage, Message.text, Message.numbered, ← partsText, htext, ← String.append_assoc,
    hend]
  refine Counts.yields fun n => ?_
  have hopen := counts_structOpen t hc.nest s n
  have hmembers := writesParts_members t (hc.nest.within (some s)) rfl s.members
    ((baseParts s.base).flatMap Part.lines).length
  have hclose : ∀ n, Counts n (r"}" ++ "\n\n") n ((walker t).hooks.structClose s c) :=
    fun n => Counts.pure _
  cases s
  rw [Walker.struct]
  exact ⟨_, hopen.bind (hmembers.bind ((hclose _).bind (.pure _)))⟩

theorem yields_methodType (name : String) : Yields (methodText t name) (methodType t name) := by
  rw [methodText, methodType]
  split
  · exact fun _ => rfl
  · exact fun _ => rfl

theorem yields_methodLines (ms : List Method) :
    Yields (String.join (ms.map (methodLine t))) (methodLines t "  " ms) := by
  induction ms with
  | nil => exact fun _ => rfl
  | cons m ms ih =>
    rw [map_cons, String.join_cons]
    exact (yields_methodType t m.request).bind ((yields_methodType t m.response).bind
      (ih.bind (.pure _)))

theorem Outermost.nest_indent_eq (hc : Outermost c) : c.nest.indent = "  " :=
  hc.nest.indent_eq

theorem yields_service (hc : Outermost c) (s : Service) :
    Yields (serviceText t s) ((hooks t).service s c) := by
  have hlines := yields_methodLines t s.methods
  simp only [hooks, hc.nest_indent_eq]
  exact hlines.bind (.pure _)

theorem enumBlock_eq (hc : Outermost c) (e : Enum) :
    enumBlock t e c = enumBlock t e { unit := "  " } := by
  have hindent : (Context.nest { unit := "  " }).indent = "  " := by decide
  rw [enumBlock, hc.nest_indent_eq, enumBlock, hindent]

/-! ### The file -/

def blocksText (bs : List Block) : String := String.join (bs.map (Block.text t))

theorem blocksText_append (bs cs : List Block) :
    blocksText t (bs ++ cs) = blocksText t bs ++ blocksText t cs := by
  rw [blocksText, map_append, String.join_append, blocksText, blocksText]

theorem blocksText_singleton (b : Block) : blocksText t [b] = b.text t := by
  simp [blocksText]

/-- A declaration is written as its block. -/
theorem yields_declaration (hc : Outermost c) {d : Node}
    (hspace : ∀ name inner, d ≠ .space name inner) :
    Yields (blocksText t (blocksOf t d)) ((walker t).node c d) := by
  cases d with
  | struct s =>
    rw [blocksOf, blocksText_singleton]
    exact yields_struct t hc s
  | enum e =>
    rw [blocksOf, Walker.node]
    have htake : (walker t).hooks.takeNode (.enum e) c =
      if e.hasPayloads then
        some <$> oneofMessage t e.name "value" (payloadAlternatives e) c
      else pure (some (enumBlock t e c)) := rfl
    rw [htake]
    cases e.hasPayloads with
    | true =>
      rw [if_pos rfl, if_pos rfl, blocksText_singleton]
      exact (yields_oneofMessage t hc.nest e.name "value" _).bind (.pure _)
    | false =>
      rw [if_neg (by simp), if_neg (by simp), blocksText_singleton,
        Block.text, ← enumBlock_eq t hc e]
      exact .pure _
  | oneof o =>
    have honeof : (walker t).hooks.oneof o c = oneofMessage t o.name o.name o.alternatives c :=
      if_neg (by simp [hc.parent_eq])
    have hmessage := yields_oneofMessage t hc.nest o.name o.name o.alternatives
    rw [← honeof] at hmessage
    rw [blocksOf, blocksText_singleton]
    exact hmessage
  | service s =>
    rw [blocksOf, blocksText_singleton]
    exact yields_service t hc s
  | space name inner => exact absurd rfl (hspace name inner)

theorem yields_nodes (nodes : List Node) : ∀ c, Outermost c →
    Yields (blocksText t ((declarations nodes).flatMap (blocksOf t)))
      ((walker t).nodes c nodes) := by
  induction nodes using nodesInduction with
  | nil =>
    intro c hc
    rw [Walker.nodes]
    exact .pure _
  | cons d rest hinner hrest =>
    intro c hc
    have hhead : Yields (blocksText t ((declarationsOf d).flatMap (blocksOf t)))
        ((walker t).node c d) := by
      cases d with
      | space name inner =>
        have hbody := hinner name inner rfl _ (hc.inside t name)
        rw [declarationsOf]
        refine .bind (.pure none) ?_
        refine .bind (.pure "") (hbody.bind (.bind (.pure "") ?_))
        simp only [String.empty_append, String.append_empty]
        exact .pure _
      | _ =>
        rw [declarationsOf, flatMap_singleton]
        exact yields_declaration t hc (by simp)
    rw [Walker.nodes_cons, declarations, flatMap_append, blocksText_append]
    exact hhead.bind ((hrest c hc).bind (.pure _))

theorem yields_walk (m : Module) : Yields (blocksText t (blocks t m)) ((walker t).walk m) := by
  have hnodes := yields_nodes t m.nodes ((walker t).outermost m .normal) ⟨rfl, rfl, rfl⟩
  have hpasses : Yields (blocksText t (blocks t m)) ((walker t).passesOver m [.normal]) := by
    rw [Walker.passesOver, Walker.passesOver]
    refine hnodes.bind (.bind (.pure "") ?_)
    rw [String.append_empty]
    exact .pure _
  refine .bind (.pure "") (hpasses.bind (.bind (.pure "") ?_))
  rw [String.empty_append, String.append_empty]
  exact .pure _

def fileImports (m : Module) : Imports := (run ((walker t).walk m)).2.imports

/-- A file is what stands before the blocks, and the blocks of its declarations in order. -/
theorem write_eq (m : Module) :
    (write t m).1 = tidy (preamble t m (fileImports t m) ++ blocksText t (blocks t m)) := by
  have hbody : (run ((walker t).walk m)).1 = blocksText t (blocks t m) := yields_walk t m {}
  rw [← hbody, preamble, fileImports]
  simp only [write, String.append_assoc]

/-- A file is written from messages whose lines, those of oneofs among them, are numbered from one
on in the order of the text. -/
theorem write_numbers_from_one (m : Module) :
    ((protobuf t).write m).1 =
        tidy (preamble t m (fileImports t m) ++ blocksText t (blocks t m)) ∧
      ∀ message ∈ messages t m, message.numbers = List.range' 1 message.lines.length :=
  ⟨write_eq t m, fun message _ => message.numbers_eq⟩

end Schemata.Writer.Protobuf
