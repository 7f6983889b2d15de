import Schemata.GoSyntax.Reading
import Schemata.Hcl.Reading
import Schemata.Proofs.Schema.Shapes

/-!
What the readers of sources accept is well shaped. Each of them has tables of its own for kinds and
arities, and none looks at the rules of a schema. The proofs go along the readers: a reading ensures
a property if all of its results have it, and what a reader puts together from well-shaped parts is
well shaped.
-/

namespace Schemata

open Text List

variable {name : String} {e : Expression} {b : Block} {fields : List FieldGroup} {scope : Scope}

/-! ### Results -/

/-- All results of a reading have a property. -/
def Ensures {ε α : Type} (r : Except ε α) (P : α → Prop) : Prop := ∀ a, r = .ok a → P a

section Results

variable {ε α β : Type} {P : α → Prop} {Q : β → Prop}

theorem Ensures.ok {a : α} (ha : P a) : Ensures (.ok a : Except ε α) P := by
  rintro b ⟨⟩
  exact ha

theorem Ensures.error (e : ε) : Ensures (.error e) P := by
  rintro a ⟨⟩

theorem Ensures.bind {r : Except ε α} {f : α → Except ε β} (hr : Ensures r P)
    (hf : ∀ a, P a → Ensures (f a) Q) : Ensures (r >>= f) Q := by
  cases r with
  | error e => exact .error e
  | ok a => exact hf a (hr a rfl)

/-- A step whose result does not matter. -/
theorem Ensures.after {r : Except ε α} {f : α → Except ε β} (hf : ∀ a, Ensures (f a) Q) :
    Ensures (r >>= f) Q :=
  .bind (P := fun _ => True) (fun _ _ => trivial) fun a _ => hf a

theorem Ensures.map {r : Except ε α} {f : α → β} (hr : Ensures r fun a => Q (f a)) :
    Ensures (f <$> r) Q := by
  cases r with
  | error e => exact .error e
  | ok a => exact .ok (hr a rfl)

theorem Ensures.mapM {f : α → Except ε β} {xs : List α} (h : ∀ x ∈ xs, Ensures (f x) Q) :
    Ensures (xs.mapM f) fun ys => ∀ y ∈ ys, Q y := by
  induction xs with
  | nil => exact .ok (by simp)
  | cons x xs ih =>
    obtain ⟨hx, hxs⟩ := forall_mem_cons.mp h
    rw [mapM_cons]
    exact .bind hx fun y hy => .bind (ih hxs) fun ys hys =>
      .ok (forall_mem_cons.mpr ⟨hy, hys⟩)

end Results

theorem mem_of_lookup {β : Type} {table : List (String × β)} {b : β}
    (h : table.lookup name = some b) : (name, b) ∈ table := by
  obtain ⟨before, after, rfl, -⟩ := lookup_eq_some_iff.mp h
  simp

/-! ### The block language -/

namespace Hcl

mutual

/-- The names in an expression are not empty, wherever a type may be read from it. -/
def Expression.IsNamed : Expression → Prop
  | .name _ root _ => root ≠ ""
  | .call _ _ arguments => AreNamed arguments
  | .object _ items => AreNamedItems items
  | _ => True

def AreNamed : List Expression → Prop
  | [] => True
  | e :: es => e.IsNamed ∧ AreNamed es

def AreNamedItems : List (Expression × Expression) → Prop
  | [] => True
  | (_, value) :: items => value.IsNamed ∧ AreNamedItems items

end

theorem nameOf?_ne_empty (he : e.IsNamed) (h : nameOf? e = some name) : name ≠ "" := by
  cases e with
  | name place root steps =>
    rw [nameOf?] at h
    obtain ⟨names, -, rfl⟩ := Option.map_eq_some_iff.mp h
    rw [Expression.IsNamed] at he
    cases names with
    | nil => simpa using he
    | cons => simp [String.intercalate_cons_cons, he]
  | literal place v =>
    cases v with
    | null => cases h; decide
    | flag b => cases b <;> cases h <;> decide
    | _ => cases h
  | _ => cases h

theorem ensures_namedType (hname : name ≠ "") (place : Place) :
    Ensures (namedType place name) TypeExpr.IsShaped := by
  rw [namedType]
  split
  next k _ =>
    split
    next hk => exact .ok (isShaped_primitive (.inr hk) "")
    next =>
      split
      next => exact .ok (isShaped_reference hname _)
      next => exact .error _
  next => exact .ok (isShaped_reference hname _)

/-- Constructors of containers ask for as many arguments as their kind takes. -/
theorem containers_arity :
    ∀ p ∈ containers, p.2.isContainer = true ∧ arityOf? p.1 = p.2.arity? := by
  decide

theorem indirections_kind : ∀ p ∈ indirections, p.2.isIndirection = true := by decide

theorem ensures_constructed {args : List TypeExpr}
    (harity : ∀ n, arityOf? name = some n → args.length = n) (hargs : ∀ t ∈ args, t.IsShaped)
    (place : Place) : Ensures (constructed place name args) TypeExpr.IsShaped := by
  rw [constructed.eq_def]
  split
  next k elem _ hk =>
    have helem : elem.IsShaped := hargs elem mem_cons_self
    exact .ok (isShaped_indirection (indirections_kind _ (mem_of_lookup hk)) helem)
  next args _ _ _ =>
    split
    next => exact .error _
    next k hk =>
      obtain ⟨hcontainer, hname⟩ := containers_arity _ (mem_of_lookup hk)
      split
      next => exact .error _
      next hne =>
        have hpos : 0 < args.length := by simpa [length_pos_iff] using hne
        exact .ok (isShaped_generic (arityProblems_eq_nil_iff.mpr
          ⟨hcontainer, hpos, fun n hn => harity n (hname.trans hn)⟩) hargs 0)

/-- What reading makes of an expression, of a type and of the fields of an object. -/
structure ReadsShaped (e : Expression) : Prop where
  type : Ensures (typeOf e) TypeExpr.IsShaped
  members : ∀ place items, e = .object place items →
    Ensures (membersOf items) fun ms => ∀ m ∈ ms, m.IsShaped

theorem ensures_typesOf {es : List Expression} (hes : ∀ e ∈ es, ReadsShaped e) :
    Ensures (typesOf es) fun ts => ts.length = es.length ∧ ∀ t ∈ ts, t.IsShaped := by
  induction es with
  | nil =>
    rw [typesOf]
    exact .ok (by simp)
  | cons e es ih =>
    obtain ⟨he, hrest⟩ := forall_mem_cons.mp hes
    rw [typesOf]
    exact .bind he.type fun t ht => .bind (ih hrest) fun ts hts =>
      .ok ⟨congrArg (· + 1) hts.1, forall_mem_cons.mpr ⟨ht, hts.2⟩⟩

theorem ensures_callOf {function : String} {arguments : List Expression}
    (harity : ∀ n, arityOf? function = some n → arguments.length = n)
    (hes : ∀ e ∈ arguments, ReadsShaped e) (place : Place) :
    Ensures (callOf place function arguments) TypeExpr.IsShaped := by
  rw [callOf.eq_def]
  split
  next items =>
    exact .bind ((hes _ mem_cons_self).members _ items rfl) fun ms hms =>
      .ok (isShaped_inline (Struct.isShaped (.inl rfl) hms))
  next => exact .error _
  next => exact .after fun s => .ok (isShaped_primitive (.inl rfl) s)
  next elem len =>
    -- an array has one type argument, its length is no type
    refine .bind (hes _ mem_cons_self).type fun t ht => .after fun n => ?_
    split
    next => exact .error _
    next => exact .ok (isShaped_generic rfl (by simpa using ht) n)
  next =>
    exact .bind (ensures_typesOf hes) fun ts hts =>
      ensures_constructed (fun n hn => hts.1.trans (harity n hn)) hts.2 place

theorem ensures_typeOf_call {function : String} {arguments : List Expression}
    (hes : ∀ e ∈ arguments, ReadsShaped e) (place : Place) :
    Ensures (typeOf (.call place function arguments)) TypeExpr.IsShaped := by
  rw [typeOf]
  cases harity : arityOf? function with
  | none => exact ensures_callOf (by simp [harity]) hes place
  | some wanted =>
    simp only [ne_eq, ite_not]
    split
    next hgiven => exact ensures_callOf (by simp [harity, hgiven]) hes place
    next => exact .error _

theorem ensures_typeOf_name (he : e.IsNamed)
    (hcall : ∀ place function arguments, e ≠ .call place function arguments) :
    Ensures (typeOf e) TypeExpr.IsShaped := by
  rw [typeOf]
  · split
    next name hname => exact ensures_namedType (nameOf?_ne_empty he hname) _
    next => exact .error _
  · exact hcall

mutual

theorem readsShaped (e : Expression) (he : e.IsNamed) : ReadsShaped e := by
  cases e with
  | call place function arguments =>
    exact ⟨ensures_typeOf_call (readsShaped_all arguments he) place, by simp⟩
  | object place items =>
    refine ⟨ensures_typeOf_name he (by simp), ?_⟩
    rintro place' items' ⟨⟩
    exact ensures_membersOf items he
  | _ => exact ⟨ensures_typeOf_name he (by simp), by simp⟩

theorem readsShaped_all (es : List Expression) (hes : AreNamed es) : ∀ e ∈ es, ReadsShaped e := by
  cases es with
  | nil => simp
  | cons e es => exact forall_mem_cons.mpr ⟨readsShaped e hes.1, readsShaped_all es hes.2⟩

theorem ensures_membersOf (items : List (Expression × Expression)) (hitems : AreNamedItems items) :
    Ensures (membersOf items) fun ms => ∀ m ∈ ms, m.IsShaped := by
  match items, hitems with
  | [], _ =>
    rw [membersOf]
    exact .ok (by simp)
  | (key, value) :: items, hitems =>
    rw [membersOf]
    exact .after fun name => .bind (readsShaped value hitems.1).type fun t ht =>
      .bind (ensures_membersOf items hitems.2) fun ms hms =>
        .ok (forall_mem_cons.mpr ⟨ht, hms⟩)

end

mutual

/-- The names in the values of all settings are not empty. -/
def Body.IsNamed : Body → Prop
  | ⟨_, settings, blocks⟩ => (∀ s ∈ settings, s.value.IsNamed) ∧ AreNamedBlocks blocks

def Block.IsNamed : Block → Prop
  | ⟨_, _, _, body⟩ => body.IsNamed

def AreNamedBlocks : List Block → Prop
  | [] => True
  | b :: bs => b.IsNamed ∧ AreNamedBlocks bs

end

theorem Body.IsNamed.blocks {b : Body} (hb : b.IsNamed) : AreNamedBlocks b.blocks := by
  cases b
  exact hb.2

theorem Body.IsNamed.find? {b : Body} (hb : b.IsNamed) (h : b.find? name = some e) : e.IsNamed := by
  cases b
  obtain ⟨s, hs, rfl⟩ := Option.map_eq_some_iff.mp h
  exact hb.1 s (mem_of_find?_eq_some hs)

theorem Block.IsNamed.body (hb : b.IsNamed) : b.body.IsNamed := by
  cases b
  exact hb

theorem areNamedBlocks_iff (bs : List Block) : AreNamedBlocks bs ↔ ∀ b ∈ bs, b.IsNamed := by
  induction bs with
  | nil => simp [AreNamedBlocks]
  | cons b bs ih => rw [AreNamedBlocks, ih, forall_mem_cons]

theorem ensures_typeSetting {b : Body} (hb : b.IsNamed) (name : String) :
    Ensures (typeSetting b name) TypeExpr.IsShapedIfGiven := by
  rw [typeSetting]
  split
  next => exact .ok (.inl rfl)
  next e he => exact fun t ht => .inr ((readsShaped e (hb.find? he)).type t ht)

theorem ensures_readField (hb : b.IsNamed) : Ensures (readField b) fun f => f.type.IsShaped := by
  refine .after fun name => .after fun _ => ?_
  split
  next => exact .error _
  next e he =>
    exact .bind (readsShaped e (hb.body.find? he)).type fun t ht =>
      .after fun attributes => .ok ht

theorem ensures_readValue (hb : b.IsNamed) (next : Int64) :
    Ensures (readValue next b) fun v => v.payload.IsShapedIfGiven := by
  refine .after fun name => .after fun _ => ?_
  have hrest : ∀ number : Int64, Ensures (do
      let payload ← typeSetting b.body "payload"
      return (⟨name, number, ← attributesOf b.body, payload⟩ : EnumValue))
        fun v => v.payload.IsShapedIfGiven := fun number =>
    .bind (ensures_typeSetting hb.body _) fun t ht =>
      .after fun attributes => .ok ht
  dsimp only
  split
  next => exact hrest next
  next => exact .after hrest

theorem ensures_readValues {bs : List Block} (hbs : ∀ b ∈ bs, b.IsNamed) (enumName : String)
    (next : Int64) :
    Ensures (readValues enumName next bs) fun values =>
      ∀ v ∈ values, v.payload.IsShapedIfGiven := by
  induction bs generalizing next with
  | nil =>
    rw [readValues]
    exact .ok (by simp)
  | cons b bs ih =>
    obtain ⟨hb, hrest⟩ := forall_mem_cons.mp hbs
    rw [readValues]
    split
    next => exact .error _
    next =>
      exact .bind (ensures_readValue hb next) fun v hv =>
        .bind (ih hrest _) fun values hvalues =>
          .ok (forall_mem_cons.mpr ⟨hv, hvalues⟩)

theorem ensures_readEnum (hb : b.IsNamed) :
    Ensures (readEnum b) fun e => ∀ v ∈ e.values, v.payload.IsShapedIfGiven := by
  refine .after fun name => .after fun _ => .after fun attributes =>
    .after fun isScoped => .after fun underlying => ?_
  exact .bind (ensures_readValues ((areNamedBlocks_iff _).mp hb.body.blocks) name 0)
    fun values hvalues => .ok hvalues

theorem ensures_readOneof (hb : b.IsNamed) :
    Ensures (readOneof b) fun o => ∀ a ∈ o.alternatives, a.type.IsShapedIfGiven := by
  refine .after fun name => .after fun _ => .after fun attributes => ?_
  refine .bind (.mapM fun alt halt => ?_) fun alts halts => .ok halts
  have hnamed := (areNamedBlocks_iff _).mp hb.body.blocks alt halt
  rw [readAlternative]
  split
  next => exact .error _
  next =>
    refine .after fun name => .after fun _ => ?_
    exact .bind (ensures_typeSetting hnamed.body _) fun t ht =>
      .after fun attributes => .ok ht

mutual

theorem ensures_readStruct (b : Block) (hb : b.IsNamed) :
    Ensures (readStruct b) Struct.IsShaped := by
  obtain ⟨kind, place, labels, position, settings, blocks⟩ := b
  refine .after fun name => .after fun _ => .after fun attributes =>
    .after fun varName => .after fun base => .after fun isRecord =>
    .after fun isAbstract => ?_
  split
  next => exact .error _
  next =>
    refine .bind (ensures_readMembers blocks hb.body.blocks _) fun members hmembers =>
      .ok (Struct.isShaped ?_ hmembers)
    by_cases hname : name.getD "" = "" <;> simp [hname]

theorem ensures_readMembers (bs : List Block) (hbs : AreNamedBlocks bs) (structName : String) :
    Ensures (readMembers structName bs) fun ms => ∀ m ∈ ms, m.IsShaped := by
  cases bs with
  | nil =>
    rw [readMembers]
    exact .ok (by simp)
  | cons b bs =>
    have hrest : ∀ m : Member, m.IsShaped →
        Ensures (do return m :: (← readMembers structName bs)) fun ms => ∀ m ∈ ms, m.IsShaped :=
      fun m hm => .bind (ensures_readMembers bs hbs.2 structName) fun ms hms =>
        .ok (forall_mem_cons.mpr ⟨hm, hms⟩)
    rw [readMembers]
    dsimp only
    split
    next => exact .bind (.map (ensures_readField hbs.1)) hrest
    next => exact .bind (.map (ensures_readStruct b hbs.1)) hrest
    next => exact .bind (.map (ensures_readEnum hbs.1)) hrest
    next => exact .bind (.map (ensures_readOneof hbs.1)) hrest
    next => exact .error _

end

mutual

theorem ensures_readNode (b : Block) (hb : b.IsNamed) : Ensures (readNode b) Node.IsShaped := by
  obtain ⟨kind, place, labels, position, settings, blocks⟩ := b
  rw [readNode.eq_def]
  dsimp only
  split
  next => exact .map fun s hs => isShaped_structNode (ensures_readStruct _ hb s hs)
  next => exact .map fun e he => isShaped_enumNode (ensures_readEnum hb e he)
  next => exact .map fun o ho => isShaped_oneofNode (ensures_readOneof hb o ho)
  next => exact .map fun s _ => isShaped_service s
  next =>
    refine .after fun name => .after fun _ => ?_
    exact .bind (ensures_readNodes blocks hb.body.blocks) fun nodes hnodes =>
      .ok (isShaped_space hnodes name)
  next => exact .error _

theorem ensures_readNodes (bs : List Block) (hbs : AreNamedBlocks bs) :
    Ensures (readNodes bs) fun ds => ∀ d ∈ ds, d.IsShaped := by
  cases bs with
  | nil =>
    rw [readNodes]
    exact .ok (by simp)
  | cons b bs =>
    rw [readNodes]
    exact .bind (ensures_readNode b hbs.1) fun d hd =>
      .bind (ensures_readNodes bs hbs.2) fun ds hds =>
        .ok (forall_mem_cons.mpr ⟨hd, hds⟩)

end

theorem ensures_moduleOf {b : Body} (hb : b.IsNamed) :
    Ensures (moduleOf b) fun m => SpareTypes m.issues := by
  refine .after fun _ => ?_
  have hrest : ∀ namespaces : List String, Ensures (do
      return ({ source := key, namespaces, nodes := ← readNodes b.blocks } : Module))
        fun m => SpareTypes m.issues := fun namespaces =>
    .bind (ensures_readNodes b.blocks hb.blocks) fun nodes hnodes =>
      .ok (spareTypes_issuesOfNodes hnodes "")
  dsimp only
  split
  next => exact hrest []
  next => exact .after hrest

end Hcl

/-! ### Go -/

namespace GoSyntax

/-- All results of a reading with marks have a property. -/
def ReadEnsures {α : Type} (r : Read α) (P : α → Prop) : Prop := ∀ marks, Ensures (r.run marks).1 P

section Marks

variable {α β : Type} {P : α → Prop} {Q : β → Prop}

theorem ReadEnsures.pure {a : α} (ha : P a) : ReadEnsures (pure a) P := fun _ => .ok ha

theorem ReadEnsures.refuse (place : Place) (cause : Cause) : ReadEnsures (refuse place cause) P :=
  fun _ => .error _

theorem ReadEnsures.bind {r : Read α} {f : α → Read β} (hr : ReadEnsures r P)
    (hf : ∀ a, P a → ReadEnsures (f a) Q) : ReadEnsures (r >>= f) Q := by
  intro marks
  have hfirst := hr marks
  change Ensures (ExceptT.bindCont f (r.run marks).1 (r.run marks).2).1 Q
  cases hresult : (r.run marks).1 with
  | error e => exact .error e
  | ok a => exact hf a (hfirst a hresult) _

theorem ReadEnsures.after {r : Read α} {f : α → Read β} (hf : ∀ a, ReadEnsures (f a) Q) :
    ReadEnsures (r >>= f) Q :=
  .bind (P := fun _ => True) (fun _ _ _ => trivial) fun a _ => hf a

theorem ReadEnsures.mapM {f : α → Read β} {xs : List α} (h : ∀ x ∈ xs, ReadEnsures (f x) Q) :
    ReadEnsures (xs.mapM f) fun ys => ∀ y ∈ ys, Q y := by
  induction xs with
  | nil => exact .pure (by simp)
  | cons x xs ih =>
    obtain ⟨hx, hxs⟩ := forall_mem_cons.mp h
    rw [mapM_cons]
    exact .bind hx fun y hy => .bind (ih hxs) fun ys hys =>
      .pure (forall_mem_cons.mpr ⟨hy, hys⟩)

theorem ReadEnsures.marking {r : Read α} (hr : ReadEnsures r P) (name : String) :
    ReadEnsures (marking name r) P := fun marks => hr (name :: marks)

end Marks

mutual

/-- The identifiers in an expression are not empty, wherever a type may be read from it. -/
def Expr.IsNamed : Expr → Prop
  | .identifier id => id.name ≠ ""
  | .star _ x | .paren _ x => x.IsNamed
  | .array _ _ elem => elem.IsNamed
  | .map _ key value => key.IsNamed ∧ value.IsNamed
  | .struct _ _ fields => AreNamedFields fields
  | _ => True

def AreNamedFields : List FieldGroup → Prop
  | [] => True
  | .mk _ type _ _ _ :: rest => type.IsNamed ∧ AreNamedFields rest

end

theorem AreNamedFields.type (h : AreNamedFields fields) : ∀ g ∈ fields, g.type.IsNamed := by
  induction fields with
  | nil => simp
  | cons g fields ih =>
    cases g
    exact forall_mem_cons.mpr ⟨h.1, ih h.2⟩

/-- A struct that has its title keeps it, and gains well-shaped fields. -/
theorem readEnsures_readFields {read : Expr → Read TypeExpr}
    (hread : ∀ g ∈ fields, ReadEnsures (read g.type) TypeExpr.IsShaped) {s : Struct}
    (htitle : s.isAnonymous = true ∨ s.name ≠ "") (hmembers : ∀ m ∈ s.members, m.IsShaped) :
    ReadEnsures (readFields read s fields) Struct.IsShaped := by
  induction fields generalizing s with
  | nil =>
    rw [readFields]
    exact .pure (Struct.isShaped htitle hmembers)
  | cons g fields ih =>
    obtain ⟨names, type, tag, start, stop⟩ := g
    obtain ⟨htype, hrest⟩ := forall_mem_cons.mp hread
    rw [readFields]
    refine .after fun attrs => ?_
    split
    next =>
      dsimp only
      split
      next => exact ih hrest htitle hmembers
      next =>
        refine .bind htype fun t ht => ih hrest htitle ?_
        exact forall_mem_append.mpr ⟨hmembers, forall_mem_singleton.mpr ht⟩
    next =>
      refine .bind (.mapM fun id _ => .bind htype fun t ht =>
        .pure (P := Member.IsShaped) ht) fun members hnew => ih hrest htitle ?_
      exact forall_mem_append.mpr ⟨hmembers, hnew⟩

/-- The identifiers of the declared types are not empty. -/
def Scope.IsNamed (scope : Scope) : Prop := ∀ p ∈ scope.types, p.2.type.IsNamed

theorem primitive_of_builtins {k : Kind} (h : builtins.lookup name = some k) :
    k.isPrimitive = true :=
  (by decide : ∀ p ∈ builtins, p.2.isPrimitive = true) _ (mem_of_lookup h)

theorem primitive_of_knownTypes {k : Kind} (h : knownTypes.lookup name = some k) :
    k.isPrimitive = true :=
  (by decide : ∀ p ∈ knownTypes, p.2.isPrimitive = true) _ (mem_of_lookup h)

theorem readEnsures_readEnum (name underlying : String) (constants : List Constant) :
    ReadEnsures (readEnum name underlying constants) fun e =>
      ∀ v ∈ e.values, v.payload.IsShapedIfGiven := by
  refine .bind (.mapM fun c _ => ?_) fun values hvalues =>
    .pure hvalues
  split
  next => exact .pure (.inl rfl)
  next => exact .refuse _ _

section

variable (hscope : scope.IsNamed)

include hscope

/-- A name stands for a type of the language, for itself, or for the type it is declared as, which
is read with less fuel. -/
theorem readEnsures_identifier {fuel : Nat}
    (htypes : ∀ e : Expr, e.IsNamed → ReadEnsures (typeOf scope fuel e) TypeExpr.IsShaped)
    {id : Identifier} (hid : id.name ≠ "") :
    ReadEnsures (typeOf scope (fuel + 1) (.identifier id)) TypeExpr.IsShaped := by
  rw [typeOf.eq_def]
  dsimp only
  split
  next k hk => exact .pure (isShaped_primitive (.inr (primitive_of_builtins hk)) "")
  next =>
    split
    next => exact .pure (isShaped_primitive (.inl rfl) "any")
    next =>
      split
      next => exact .pure (isShaped_reference hid _)
      next spec hspec =>
        split
        next => exact .pure (isShaped_reference hid _)
        next =>
          refine .after fun marks => ?_
          split
          next => exact .refuse _ _
          next =>
            have hdeclared := hscope _ (mem_of_lookup hspec)
            exact .marking (htypes spec.type hdeclared) _

theorem readEnsures_typeOf (fuel : Nat) (e : Expr) (he : e.IsNamed) :
    ReadEnsures (typeOf scope fuel e) TypeExpr.IsShaped := by
  induction fuel generalizing e with
  | zero => exact .refuse e.place .tooDeep
  | succ fuel ih =>
    rw [typeOf.eq_def]
    dsimp only
    split
    next id => exact readEnsures_identifier hscope ih he
    next =>
      split
      next k hk =>
        exact .pure (isShaped_primitive (.inr (primitive_of_knownTypes hk)) "")
      next => exact .pure (isShaped_primitive (.inl rfl) _)
    next x =>
      exact .bind (ih x he) fun t ht => .pure (isShaped_indirection rfl ht)
    next x => exact ih x he
    next elem =>
      split
      next => exact .pure (isShaped_primitive (.inr rfl) "")
      next =>
        exact .bind (ih elem he) fun t ht =>
          .pure (isShaped_generic rfl (forall_mem_singleton.mpr ht) 0)
    next length elem =>
      split
      next => exact .refuse _ _
      next n _ =>
        split
        next => exact .refuse _ _
        next =>
          exact .bind (ih elem he) fun t ht =>
            .pure (isShaped_generic rfl (forall_mem_singleton.mpr ht) n)
    next key value =>
      refine .bind (ih key he.1) fun k hk => ?_
      -- a map to empty structs is a set of its keys
      split
      next => exact .pure (isShaped_generic rfl (forall_mem_singleton.mpr hk) 0)
      next =>
        exact .bind (ih value he.2) fun v hv => .pure (isShaped_generic rfl
          (forall_mem_cons.mpr ⟨hk, forall_mem_singleton.mpr hv⟩) 0)
    next fields =>
      refine .bind (readEnsures_readFields (fun g hg => ih g.type ?_) (.inl rfl)
        (by simp)) fun s hs => .pure (isShaped_inline hs)
      exact AreNamedFields.type he g hg
    next =>
      split
      next => exact .pure (isShaped_primitive (.inl rfl) _)
      next => exact .refuse _ _
    next => exact .refuse _ _

theorem readEnsures_readType {e : Expr} (he : e.IsNamed) :
    ReadEnsures (readType scope e) TypeExpr.IsShaped :=
  readEnsures_typeOf hscope _ e he

theorem readEnsures_structOf (hfields : AreNamedFields fields) {s : Struct}
    (htitle : s.isAnonymous = true ∨ s.name ≠ "") (hmembers : s.members = []) :
    ReadEnsures (readFields (readType scope) s fields) Struct.IsShaped :=
  readEnsures_readFields (fun g hg => readEnsures_readType hscope (hfields.type g hg)) htitle
    (by simp [hmembers])

theorem readEnsures_readPayload (hfields : AreNamedFields fields) :
    ReadEnsures (readPayload scope fields) TypeExpr.IsShaped := by
  have hinline : ReadEnsures (do
      return TypeExpr.inline (← readFields (readType scope) { isAnonymous := true } fields))
        TypeExpr.IsShaped :=
    .bind (readEnsures_structOf hscope hfields (.inl rfl) rfl) fun s hs =>
      .pure (isShaped_inline hs)
  rw [readPayload.eq_def]
  split
  next => exact .pure (isShaped_primitive (.inr rfl) "")
  next =>
    dsimp only
    split
    next name type _ _ _ _ =>
      split
      next => exact readEnsures_readType hscope hfields.1
      next => exact hinline
    next => exact hinline

theorem readEnsures_readSealedValues {specs : List TypeSpec}
    (hspecs : ∀ spec ∈ specs, spec.type.IsNamed) (interface : String) (number : Int64) :
    ReadEnsures (readSealedValues scope interface number specs) fun values =>
      ∀ v ∈ values, v.payload.IsShapedIfGiven := by
  induction specs generalizing number with
  | nil =>
    rw [readSealedValues]
    exact .pure (by simp)
  | cons spec specs ih =>
    obtain ⟨hspec, hrest⟩ := forall_mem_cons.mp hspecs
    rw [readSealedValues]
    split
    next place isOneLine fields htype =>
      rw [htype] at hspec
      -- only structs that implement the interface are values
      split
      next =>
        exact .bind (readEnsures_readPayload hscope hspec) fun t ht =>
          .bind (ih hrest _) fun values hvalues =>
            .pure (forall_mem_cons.mpr ⟨.inr ht, hvalues⟩)
      next => exact ih hrest _
    next => exact ih hrest _

theorem readEnsures_readNode {all : List TypeSpec}
    (hall : ∀ spec ∈ all, spec.type.IsNamed) {spec : TypeSpec} (hname : spec.name.name ≠ "")
    (hspec : spec.type.IsNamed) :
    ReadEnsures (readNode scope all spec) fun d => ∀ d' ∈ d, d'.IsShaped := by
  rw [readNode.eq_def]
  dsimp only
  split
  next => exact .pure (by simp)
  next =>
    split
    next place isOneLine fields htype =>
      rw [htype] at hspec
      split
      next => exact .pure (by simp)
      next =>
        exact .bind (readEnsures_structOf hscope hspec (.inr hname) rfl) fun s hs =>
          .pure (by simpa using isShaped_structNode hs)
    next =>
      split
      next =>
        exact .bind (readEnsures_readSealedValues hscope hall _ 0) fun values hvalues =>
          .pure (by simpa using isShaped_enumNode hvalues)
      next => exact .pure (by simp [isShaped_service])
    next =>
      split
      next =>
        exact .bind (readEnsures_readEnum _ _ _) fun e he =>
          .pure (by simpa using isShaped_enumNode he)
      next => exact .pure (by simp)
    next => exact .pure (by simp)

end

/-- The types of a file have names, and the identifiers in them are not empty. -/
def File.IsNamed (f : File) : Prop :=
  ∀ spec ∈ typeSpecs f, spec.name.name ≠ "" ∧ spec.type.IsNamed

theorem readEnsures_moduleOf {f : File} (hf : f.IsNamed) :
    ReadEnsures (moduleOf f) fun m => SpareTypes m.issues := by
  have hscope : (scopeOf f).IsNamed := by
    intro p hp
    simp only [scopeOf, mem_reverse, mem_map] at hp
    obtain ⟨spec, hspec, rfl⟩ := hp
    exact (hf spec hspec).2
  refine .bind (.mapM fun spec hspec => readEnsures_readNode hscope
    (fun spec hspec => (hf spec hspec).2) (hf spec hspec).1 (hf spec hspec).2)
    fun nodes hnodes => .pure (spareTypes_issuesOfNodes ?_ "")
  intro d hd
  obtain ⟨node, hnode, hid⟩ := mem_filterMap.mp hd
  exact hnodes node hnode d hid

end GoSyntax

/-! ### Both -/

/-- Of a module read from a text of the block language or from Go source, a check reports no more
than names that repeat and oneofs without alternatives. -/
theorem sources_read_well_shaped :
    (∀ b : Hcl.Body, b.IsNamed → ∀ m, Hcl.moduleOf b = .ok m → ∀ i ∈ m.issues,
      i.problem ∈ [Problem.duplicateMember, .duplicateValue, .emptyOneof]) ∧
    (∀ f : GoSyntax.File, f.IsNamed → ∀ m, ((GoSyntax.moduleOf f).run []).1 = .ok m →
      ∀ i ∈ m.issues, i.problem ∈ [Problem.duplicateMember, .duplicateValue, .emptyOneof]) :=
  ⟨fun _ hb => Hcl.ensures_moduleOf hb, fun _ hf => GoSyntax.readEnsures_moduleOf hf []⟩

/-- An enum in which a value repeats, and a oneof without alternatives. -/
def Hcl.sampleBody : Body :=
  let value (name : String) (payload : Expression) : Block :=
    ⟨"value", {}, [(name, {})], { place := {}, settings := [⟨"payload", {}, payload⟩] }⟩
  { place := {}, blocks := [
    ⟨"enum", {}, [("Item", {})], { place := {}, blocks := [
      value "line" (.call {} "list" [.call {} "ptr" [.name {} "shop" [.attribute {} "Line"]]]),
      value "line" (.call {} "array" [.call {} "object" [.object {}
        [(.name {} "sku" [], .name {} "string" [])]], .literal {} (.number (.finite false 3 0))])] }⟩,
    ⟨"oneof", {}, [("Payment", {})], { place := {} }⟩] }

/-- A struct in which a field repeats, with a type that goes through another declaration. -/
def GoSyntax.sampleFile : File :=
  let name (s : String) : Identifier := ⟨{}, s⟩
  let field (names : List Identifier) (type : Expr) : FieldGroup := .mk names type none 1 1
  { package := name "shop", decls := [{ form := .types [
    { name := name "Order", type := .struct {} false [
      field [name "ID", name "ID"] (.identifier (name "int64")),
      field [name "Lines"] (.map {} (.identifier (name "string")) (.identifier (name "Rows")))] },
    { name := name "Rows", type := .array {} none (.star {} (.struct {} false [
      field [name "Line"] (.identifier (name "Line"))])) }] }] }

theorem sources_read_well_shaped_samples :
    (Hcl.sampleBody.IsNamed ∧ ∃ m, Hcl.moduleOf Hcl.sampleBody = .ok m ∧
      m.issues.map Issue.problem = [.duplicateValue, .emptyOneof] ∧ ∀ i ∈ m.issues,
        i.problem ∈ [Problem.duplicateMember, .duplicateValue, .emptyOneof]) ∧
    (GoSyntax.sampleFile.IsNamed ∧ ∃ m, ((GoSyntax.moduleOf GoSyntax.sampleFile).run []).1 = .ok m ∧
      m.issues.map Issue.problem = [.duplicateMember] ∧ ∀ i ∈ m.issues,
        i.problem ∈ [Problem.duplicateMember, .duplicateValue, .emptyOneof]) := by
  have hbody : Hcl.sampleBody.IsNamed := by
    simp [Hcl.sampleBody, Hcl.Body.IsNamed, Hcl.AreNamedBlocks, Hcl.Block.IsNamed,
      Hcl.Expression.IsNamed, Hcl.AreNamed, Hcl.AreNamedItems]
  have hfile : GoSyntax.sampleFile.IsNamed := by
    simp [GoSyntax.sampleFile, GoSyntax.File.IsNamed, GoSyntax.typeSpecs, GoSyntax.Expr.IsNamed,
      GoSyntax.AreNamedFields]
  have hread : Hcl.moduleOf Hcl.sampleBody = .ok { source := "hcl", nodes := [
      .enum { name := "Item", values := [
        ⟨"line", 0, [], .container .list [.indirection .pointer (.ref "shop.Line")]⟩,
        ⟨"line", 1, [], .generic .array [.inline { isAnonymous := true, members := [
          .field ⟨"sku", .prim .string, []⟩] }] 3⟩] },
      .oneof { name := "Payment" }] } := by
    cbv
  have hmodule : ((GoSyntax.moduleOf GoSyntax.sampleFile).run []).1 = .ok
      { source := "go", namespaces := ["shop"], nodes := [.struct { name := "Order", members := [
        .field ⟨"ID", .prim .int64, []⟩, .field ⟨"ID", .prim .int64, []⟩,
        .field ⟨"Lines", .container .map [.prim .string, .container .list [.indirection .pointer
          (.inline { isAnonymous := true, members := [.field ⟨"Line", .ref "Line", []⟩] })]],
          []⟩] }] } := rfl
  exact ⟨⟨hbody, _, hread, by cbv, sources_read_well_shaped.1 _ hbody _ hread⟩,
    ⟨hfile, _, hmodule, by cbv, sources_read_well_shaped.2 _ hfile _ hmodule⟩⟩

end Schemata
