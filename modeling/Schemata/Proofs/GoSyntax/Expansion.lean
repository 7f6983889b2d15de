import Schemata.GoSyntax.TypeReading
import Mathlib.Data.List.Nodup

/-!
Names are expanded to an end. A name is marked while the type it was declared as is read, so that
what is left to go through gets smaller with every name, however the declarations refer to each
other. With enough fuel the result no longer depends on it, and the marks are those from before.
-/

namespace Schemata.GoSyntax

open Text List

variable {id : Identifier} {fuel fuel' : Nat}

/-! ### What is gone through -/

/-- The types of fields that are read. An embedded type that leads is the base and is not read;
neither is the type of fields without a name. -/
def fieldTypes : Bool → List FieldGroup → List Expr
  | _, [] => []
  | leading, .mk names type _ _ _ :: rest =>
    if names = [] ∧ leading ∧ type.typeName ≠ "" then fieldTypes false rest
    else if names ≠ [] ∧ ∀ id ∈ names, id.name = "_" then fieldTypes leading rest
    else type :: fieldTypes false rest

/-- The second type is read as a part of the first. -/
inductive IsPart : Expr → Expr → Prop
  | star {place x} : IsPart (.star place x) x
  | paren {place x} : IsPart (.paren place x) x
  | elem {place elem} : isByte elem = false → IsPart (.array place none elem) elem
  | sizedElem {place length elem} : IsPart (.array place (some length) elem) elem
  | key {place key value} : IsPart (.map place key value) key
  | value {place key value} : isEmptyStruct value = false → IsPart (.map place key value) value
  | field {place isOneLine fields type} : type ∈ fieldTypes true fields →
      IsPart (.struct place isOneLine fields) type

/-- A name stands for the type of its declaration. -/
structure IsExpanded (scope : Scope) (name : String) (spec : TypeSpec) : Prop where
  notBuiltin : builtins.lookup name = none
  notAny : name ≠ "any"
  declared : scope.type? name = some spec
  notItself : standsForItself scope name spec = false

/-- Names that are expanded one inside the other when a type is read. -/
inductive Opens (scope : Scope) : Expr → List String → Prop
  | nil {e} : Opens scope e []
  | part {e part path} : IsPart e part → Opens scope part path → Opens scope e path
  | name {id : Identifier} {spec path} : IsExpanded scope id.name spec →
      Opens scope spec.type path → Opens scope (.identifier id) (id.name :: path)

/-- No name is reached again while it is expanded, nor one that is marked. -/
def IsClear (scope : Scope) (marks : Marks) (e : Expr) : Prop :=
  ∀ path, Opens scope e path → path.Nodup ∧ path.Disjoint marks

/-- A type is not refused for its depth, and for a name only when that is reached again. -/
def IsSound (scope : Scope) (marks : Marks) (e : Expr) (cause : Cause) : Prop :=
  cause ≠ .tooDeep ∧ ∀ name, cause = .selfReference name →
    ∃ path, Opens scope e (path ++ [name]) ∧ (name ∈ path ∨ name ∈ marks)

section

variable {scope : Scope} {marks : Marks} {e part : Expr} {cause : Cause}

theorem isClear_of_parts (hid : ∀ id, e ≠ .identifier id)
    (hparts : ∀ part, IsPart e part → IsClear scope marks part) : IsClear scope marks e := by
  intro path hpath
  cases hpath with
  | nil => exact ⟨nodup_nil, by simp⟩
  | part hpart hopens => exact hparts _ hpart _ hopens
  | name => exact absurd rfl (hid _)

theorem isClear_identifier (hspec : ∀ spec, IsExpanded scope id.name spec →
      id.name ∉ marks ∧ IsClear scope (id.name :: marks) spec.type) :
    IsClear scope marks (.identifier id) := by
  intro path hpath
  cases hpath with
  | nil => exact ⟨nodup_nil, by simp⟩
  | part hpart _ => cases hpart
  | name hexpanded hopens =>
    obtain ⟨hfresh, hclear⟩ := hspec _ hexpanded
    obtain ⟨hnodup, hdisjoint⟩ := hclear _ hopens
    rw [disjoint_cons_right] at hdisjoint
    exact ⟨nodup_cons.mpr ⟨hdisjoint.1, hnodup⟩, disjoint_cons_left.mpr ⟨hfresh, hdisjoint.2⟩⟩

theorem IsSound.of_part (hpart : IsPart e part) (h : IsSound scope marks part cause) :
    IsSound scope marks e cause := by
  refine ⟨h.1, fun name hname => ?_⟩
  obtain ⟨path, hopens, hagain⟩ := h.2 name hname
  exact ⟨path, .part hpart hopens, hagain⟩

theorem IsSound.of_spec {spec : TypeSpec} (hexpanded : IsExpanded scope id.name spec)
    (h : IsSound scope (id.name :: marks) spec.type cause) :
    IsSound scope marks (.identifier id) cause := by
  refine ⟨h.1, fun name hname => ?_⟩
  obtain ⟨path, hopens, hagain⟩ := h.2 name hname
  refine ⟨id.name :: path, .name hexpanded hopens, ?_⟩
  simpa [or_assoc, or_comm, or_left_comm] using hagain

end

/-! ### Declarations left -/

/-- The depths of the declarations of names that are not marked, together. -/
def unmarkedDepth (marks : Marks) : List (String × TypeSpec) → Nat
  | [] => 0
  | (name, spec) :: rest =>
    (if name ∈ marks then 0 else spec.type.depth) + unmarkedDepth marks rest

section

variable {marks : Marks} {name : String} {spec : TypeSpec} {types : List (String × TypeSpec)}

theorem unmarkedDepth_le_fuel (scope : Scope) (marks : Marks) :
    unmarkedDepth marks scope.types ≤ scope.fuel := by
  unfold Scope.fuel
  induction scope.types with
  | nil => simp [unmarkedDepth]
  | cons t types ih =>
    rw [unmarkedDepth, map_cons, foldr_cons]
    refine Nat.add_le_add ?_ ih
    split_ifs
    · exact Nat.zero_le _
    · exact Nat.le_refl _

theorem unmarkedDepth_cons_le (name : String) (marks : Marks) (types : List (String × TypeSpec)) :
    unmarkedDepth (name :: marks) types ≤ unmarkedDepth marks types := by
  induction types with
  | nil => exact Nat.le_refl _
  | cons t types ih =>
    simp only [unmarkedDepth, mem_cons]
    split_ifs <;> grind

/-- A declaration no longer counts once its name is marked. -/
theorem depth_add_unmarkedDepth_le (hspec : types.lookup name = some spec) (hname : name ∉ marks) :
    spec.type.depth + unmarkedDepth (name :: marks) types ≤ unmarkedDepth marks types := by
  induction types with
  | nil => cases hspec
  | cons t types ih =>
    rw [lookup_cons] at hspec
    simp only [unmarkedDepth]
    by_cases ht : name = t.1
    · have hrest := unmarkedDepth_cons_le name marks types
      simp only [ht, beq_self_eq_true, Option.some.injEq] at hspec
      subst ht hspec
      simp only [mem_cons_self, if_true, if_neg hname]
      omega
    · rw [beq_false_of_ne ht] at hspec
      have hrest := ih hspec
      simp only [mem_cons, Ne.symm ht, false_or]
      omega

end

/-! ### Settled readings -/

/-- Two readings have the same result and keep the marks. A value that they read satisfies `G`,
and the cause of a fault `B`. -/
def Settles {α : Type} (marks : Marks) (G : α → Prop) (B : Cause → Prop) (r r' : Read α) : Prop :=
  ∃ result : Except Fault α, r.run marks = (result, marks) ∧ r'.run marks = (result, marks) ∧
    (∀ a, result = .ok a → G a) ∧ ∀ fault, result = .error fault → B fault.cause

section Laws

variable {α β : Type} {marks : Marks} {G : α → Prop} {H : β → Prop} {B C : Cause → Prop}
  {r r' : Read α}

theorem settles_pure {a : α} (hG : G a) : Settles marks G B (pure a : Read α) (pure a) := by
  refine ⟨.ok a, rfl, rfl, fun b hb => ?_, by simp⟩
  obtain rfl := Except.ok.inj hb
  exact hG

theorem settles_refuse {place : Place} {cause : Cause} (hB : B cause) :
    Settles marks G B (refuse place cause) (refuse place cause) := by
  refine ⟨.error ⟨place, cause⟩, rfl, rfl, by simp, fun fault hfault => ?_⟩
  obtain rfl := Except.error.inj hfault
  exact hB

theorem Settles.mono {G' : α → Prop} (h : Settles marks G B r r') (hG : ∀ a, G a → G' a)
    (hB : ∀ cause, B cause → C cause) : Settles marks G' C r r' := by
  obtain ⟨result, hr, hr', hok, herror⟩ := h
  exact ⟨result, hr, hr', fun a ha => hG a (hok a ha), fun fault hf => hB _ (herror fault hf)⟩

theorem Settles.bind {f f' : α → Read β} (hr : Settles marks G B r r')
    (hf : ∀ a, G a → Settles marks H B (f a) (f' a)) : Settles marks H B (r >>= f) (r' >>= f') := by
  obtain ⟨result, hrun, hrun', hok, herror⟩ := hr
  unfold Settles
  change ∃ result, ExceptT.bindCont f (r.run marks).1 (r.run marks).2 = _ ∧
    ExceptT.bindCont f' (r'.run marks).1 (r'.run marks).2 = _ ∧ _
  rw [hrun, hrun']
  cases result with
  | ok a => exact hf a (hok a rfl)
  | error fault =>
    refine ⟨.error fault, rfl, rfl, by simp, fun fault' hfault => ?_⟩
    obtain rfl := Except.error.inj hfault
    exact herror fault rfl

theorem Settles.marking {name : String} (hr : Settles (name :: marks) G B r r') :
    Settles marks G B (marking name r) (GoSyntax.marking name r') := by
  obtain ⟨result, hrun, hrun', hresult⟩ := hr
  have herase : (name :: marks).erase name = marks := erase_cons_head name marks
  refine ⟨result, ?_, ?_, hresult⟩
  · change ((r.run (name :: marks)).1, (r.run (name :: marks)).2.erase name) = _
    rw [hrun, herase]
  · change ((r'.run (name :: marks)).1, (r'.run (name :: marks)).2.erase name) = _
    rw [hrun', herase]

theorem settles_get {f f' : Marks → Read α} (h : Settles marks G B (f marks) (f' marks)) :
    Settles marks G B (get >>= f) (get >>= f') :=
  h

theorem settles_mapM {P : Prop} {f f' : α → Read β} (xs : List α)
    (h : ∀ x, Settles marks (fun _ => P) B (f x) (f' x)) :
    Settles marks (fun ys => ys.length = xs.length ∧ (xs ≠ [] → P)) B (xs.mapM f) (xs.mapM f') := by
  induction xs with
  | nil => exact settles_pure (by simp)
  | cons x xs ih =>
    rw [mapM_cons, mapM_cons]
    refine (h x).bind fun y hP => ih.bind fun ys hys => settles_pure ?_
    exact ⟨congrArg (· + 1) hys.1, fun _ => hP⟩

theorem settles_tagAttributes (tag : Option Literal) (hliteral : B .tagLiteral)
    (htag : ∀ bytes, B (.tag bytes)) :
    Settles marks (fun _ => True) B (tagAttributes tag) (tagAttributes tag) := by
  unfold tagAttributes
  split
  next => exact settles_pure trivial
  next =>
    split
    next => exact settles_refuse hliteral
    next =>
      split
      next => exact settles_refuse (htag _)
      next => exact settles_pure trivial

/-- Of the fields just those are read that are gone through. -/
theorem settles_readFields {read read' : Expr → Read TypeExpr} {P : Expr → Prop}
    (hliteral : B .tagLiteral) (htag : ∀ bytes, B (.tag bytes)) {fields : List FieldGroup}
    {leading : Bool} {s : Struct} (hleading : leading = (s.base == "" && s.members.isEmpty))
    (hread : ∀ type ∈ fieldTypes leading fields,
      Settles marks (fun _ => P type) B (read type) (read' type)) :
    Settles marks (fun _ => ∀ type ∈ fieldTypes leading fields, P type) B
      (readFields read s fields) (readFields read' s fields) := by
  induction fields generalizing leading s with
  | nil =>
    rw [readFields, readFields]
    exact settles_pure (by simp [fieldTypes])
  | cons g fields ih =>
    obtain ⟨names, type, tag, start, stop⟩ := g
    rw [readFields, readFields]
    refine (settles_tagAttributes tag hliteral htag).bind fun attrs _ => ?_
    rw [fieldTypes] at hread ⊢
    cases names with
    | nil =>
      simp only [ne_eq, not_true_eq_false, false_and, if_false, true_and] at hread ⊢
      by_cases hbase : s.base = "" ∧ ¬type.typeName = "" ∧ s.members.isEmpty = true
      · -- the base, of which no type is read
        have hleads : leading = true ∧ ¬type.typeName = "" := by simp [hleading, hbase]
        rw [if_pos hleads] at hread ⊢
        rw [if_pos hbase, if_pos hbase]
        exact ih (by simp [hbase.2.1]) hread
      · have hleads : ¬(leading = true ∧ ¬type.typeName = "") := by
          simpa [hleading, and_assoc, and_comm, and_left_comm] using hbase
        rw [if_neg hleads] at hread ⊢
        rw [if_neg hbase, if_neg hbase]
        obtain ⟨htype, hrest⟩ := forall_mem_cons.mp hread
        refine htype.bind fun t hP => (ih (by simp) hrest).mono (fun _ hPs => ?_) fun _ => id
        exact forall_mem_cons.mpr ⟨hP, hPs⟩
    | cons name names =>
      simp only [reduceCtorEq, false_and, if_false, ne_eq, not_false_eq_true, true_and]
        at hread ⊢
      have hnamed : (name :: names).filter (fun id => !decide (id.name = "_")) = [] ↔
          ∀ id ∈ name :: names, id.name = "_" := by
        simp [filter_eq_nil_iff]
      by_cases hblank : ∀ id ∈ name :: names, id.name = "_"
      · -- no field has a name, and the struct stays as it is
        rw [if_pos hblank] at hread ⊢
        simp only [decide_not, hnamed.mpr hblank, mapM_nil, pure_bind, append_nil]
        exact ih hleading hread
      · rw [if_neg hblank] at hread ⊢
        obtain ⟨htype, hrest⟩ := forall_mem_cons.mp hread
        simp only [decide_not]
        refine (settles_mapM _ fun id => htype.bind fun t hP => settles_pure hP).bind
          fun members hmembers => ?_
        have hfound := mt hnamed.mp hblank
        have hmembers' : members ≠ [] := by
          rw [← length_pos_iff, hmembers.1]
          exact length_pos_iff.mpr hfound
        refine (ih (by simp [hmembers']) hrest).mono (fun _ hPs => ?_) fun _ => id
        exact forall_mem_cons.mpr ⟨hmembers.2 hfound, hPs⟩

end Laws

/-! ### Types -/

variable {scope : Scope} {marks : Marks} {e part : Expr}

theorem depth_pos (e : Expr) : 0 < e.depth := by
  cases e <;> exact Nat.succ_pos _

theorem depth_le_fieldsDepth {leading : Bool} {fields : List FieldGroup} {type : Expr}
    (h : type ∈ fieldTypes leading fields) : type.depth ≤ fieldsDepth fields := by
  induction fields generalizing leading with
  | nil => simp [fieldTypes] at h
  | cons g fields ih =>
    obtain ⟨names, type', tag, start, stop⟩ := g
    rw [fieldTypes] at h
    rw [fieldsDepth]
    split_ifs at h with hbase hblank
    · exact Nat.le_trans (ih h) (Nat.le_max_right _ _)
    · exact Nat.le_trans (ih h) (Nat.le_max_right _ _)
    · rcases mem_cons.mp h with rfl | h
      · exact Nat.le_max_left _ _
      · exact Nat.le_trans (ih h) (Nat.le_max_right _ _)

/-- Parts nest less deep. -/
theorem IsPart.depth_lt (h : IsPart e part) : part.depth < e.depth := by
  cases h with
  | field hfield => exact Nat.lt_succ_of_le (depth_le_fieldsDepth hfield)
  | key => exact Nat.lt_succ_of_le (Nat.le_max_left _ _)
  | value => exact Nat.lt_succ_of_le (Nat.le_max_right _ _)
  | _ => exact Nat.lt_succ_self _

theorem isSound_of_plain {cause : Cause} (hdeep : cause ≠ .tooDeep)
    (hself : ∀ name, cause ≠ .selfReference name) : IsSound scope marks e cause :=
  ⟨hdeep, fun name hname => absurd hname (hself name)⟩

/-- A name is expanded when it is not marked, and refused when it is. -/
theorem settles_identifier (hspec : ∀ spec, IsExpanded scope id.name spec → id.name ∉ marks →
      Settles (id.name :: marks) (fun _ => IsClear scope (id.name :: marks) spec.type)
        (IsSound scope (id.name :: marks) spec.type) (typeOf scope fuel spec.type)
        (typeOf scope fuel' spec.type)) :
    Settles marks (fun _ => IsClear scope marks (.identifier id))
      (IsSound scope marks (.identifier id)) (typeOf scope (fuel + 1) (.identifier id))
      (typeOf scope (fuel' + 1) (.identifier id)) := by
  rw [typeOf.eq_def, typeOf.eq_def scope (fuel' + 1)]
  dsimp only
  split
  next k hbuiltin =>
    refine settles_pure (isClear_identifier fun spec hexpanded => ?_)
    exact absurd hexpanded.notBuiltin (by simp [hbuiltin])
  next hbuiltin =>
    split
    next hany =>
      refine settles_pure (isClear_identifier fun spec hexpanded => ?_)
      exact absurd hany hexpanded.notAny
    next hany =>
      split
      next hnone =>
        refine settles_pure (isClear_identifier fun spec hexpanded => ?_)
        exact absurd hexpanded.declared (by simp [hnone])
      next spec hsome =>
        split
        next hitself =>
          refine settles_pure (isClear_identifier fun spec' hexpanded => ?_)
          obtain rfl := Option.some.inj (hsome.symm.trans hexpanded.declared)
          exact absurd hitself (by simp [hexpanded.notItself])
        next hitself =>
          have hexpanded : IsExpanded scope id.name spec :=
            ⟨hbuiltin, hany, hsome, by simpa using hitself⟩
          refine settles_get ?_
          split
          next hmarked =>
            have hmem : id.name ∈ marks := by simpa using hmarked
            refine settles_refuse ⟨by simp, fun name hname => ?_⟩
            obtain rfl := Cause.selfReference.inj hname
            exact ⟨[], .name hexpanded .nil, .inr hmem⟩
          next hunmarked =>
            have hfresh : id.name ∉ marks := by simpa using hunmarked
            refine (hspec spec hexpanded hfresh).marking.mono (fun _ hclear => ?_) fun _ hsound =>
              hsound.of_spec hexpanded
            refine isClear_identifier fun spec' hexpanded' => ⟨hfresh, ?_⟩
            obtain rfl := Option.some.inj (hsome.symm.trans hexpanded'.declared)
            exact hclear

/-- What is no name is settled by its parts. -/
theorem settles_parts (hid : ∀ id, e ≠ .identifier id)
    (hparts : ∀ part, IsPart e part → Settles marks (fun _ => IsClear scope marks part)
      (IsSound scope marks e) (typeOf scope fuel part) (typeOf scope fuel' part)) :
    Settles marks (fun _ => IsClear scope marks e) (IsSound scope marks e)
      (typeOf scope (fuel + 1) e) (typeOf scope (fuel' + 1) e) := by
  have hclear : (∀ part, IsPart e part → IsClear scope marks part) → IsClear scope marks e :=
    isClear_of_parts hid
  rw [typeOf.eq_def, typeOf.eq_def scope (fuel' + 1)]
  dsimp only
  split
  next id => exact absurd rfl (hid id)
  next =>
    split
    next => exact settles_pure (hclear (by rintro part ⟨⟩))
    next => exact settles_pure (hclear (by rintro part ⟨⟩))
  next x =>
    refine (hparts x .star).bind fun t hx => settles_pure (hclear fun part hpart => ?_)
    cases hpart
    exact hx
  next x =>
    refine (hparts x .paren).mono (fun t hx => hclear fun part hpart => ?_) fun _ => id
    cases hpart
    exact hx
  next elem =>
    split
    next hbyte =>
      refine settles_pure (hclear fun part hpart => ?_)
      cases hpart with
      | elem hnot => simp [hbyte] at hnot
    next hbyte =>
      have helem := hparts elem (.elem (by simpa using hbyte))
      refine helem.bind fun t helem => settles_pure (hclear fun part hpart => ?_)
      cases hpart
      exact helem
  next length elem =>
    split
    next => exact settles_refuse (isSound_of_plain (by simp) (by simp))
    next n _ =>
      split
      next => exact settles_refuse (isSound_of_plain (by simp) (by simp))
      next =>
        refine (hparts elem .sizedElem).bind fun t helem =>
          settles_pure (hclear fun part hpart => ?_)
        cases hpart
        exact helem
  next key value =>
    refine (hparts key .key).bind fun k hkey => ?_
    split
    next hempty =>
      refine settles_pure (hclear fun part hpart => ?_)
      cases hpart with
      | key => exact hkey
      | value hnot => simp [hempty] at hnot
    next hempty =>
      have hvalue := hparts value (.value (by simpa using hempty))
      refine hvalue.bind fun v hvalue => settles_pure (hclear fun part hpart => ?_)
      cases hpart with
      | key => exact hkey
      | value => exact hvalue
  next fields =>
    have hfields := settles_readFields (P := IsClear scope marks) (s := { isAnonymous := true })
      (isSound_of_plain (by simp) (by simp)) (fun _ => isSound_of_plain (by simp) (by simp)) rfl
      fun type htype => hparts type (.field htype)
    refine hfields.bind fun s hfields => settles_pure (hclear fun part hpart => ?_)
    cases hpart with
    | field hfield => exact hfields part hfield
  next =>
    split
    next => exact settles_pure (hclear (by rintro part ⟨⟩))
    next => exact settles_refuse (isSound_of_plain (by simp) (by simp))
  next => exact settles_refuse (isSound_of_plain (by simp) (by simp))

/-- With fuel for the type and for the declarations of all names that are not marked, reading
settles. -/
theorem settles_typeOf (scope : Scope) {e : Expr} {marks : Marks}
    (hfuel : e.depth + unmarkedDepth marks scope.types ≤ fuel)
    (hfuel' : e.depth + unmarkedDepth marks scope.types ≤ fuel') :
    Settles marks (fun _ => IsClear scope marks e) (IsSound scope marks e) (typeOf scope fuel e)
      (typeOf scope fuel' e) := by
  -- a part nests less deep, and a declaration costs no more than it frees by its mark
  induction fuel generalizing fuel' e marks with
  | zero =>
    have hpos := depth_pos e
    omega
  | succ fuel ih =>
    have hpos := depth_pos e
    obtain ⟨fuel', rfl⟩ : ∃ n, fuel' = n + 1 := Nat.exists_eq_add_one.mpr (by omega)
    by_cases hid : ∃ id, e = .identifier id
    · obtain ⟨id, rfl⟩ := hid
      refine settles_identifier fun spec hexpanded hfresh => ?_
      have hleft := depth_add_unmarkedDepth_le hexpanded.declared hfresh
      exact ih (by omega) (by omega)
    · refine settles_parts (not_exists.mp hid) fun part hpart => ?_
      have hlt := hpart.depth_lt
      exact (ih (by omega) (by omega)).mono (fun _ => id) fun _ => IsSound.of_part hpart

/-- Reading a type has a result, the same for all fuel from some amount on, and leaves the marks as
they were. A type that is read reaches no name again while that is expanded, and one that is
refused for a name does. -/
theorem typeOf_ends (scope : Scope) (marks : Marks) (e : Expr) :
    ∃ result, (∀ fuel, e.depth + scope.fuel ≤ fuel →
        (typeOf scope fuel e).run marks = (result, marks)) ∧
      (readType scope e).run marks = (result, marks) ∧
      (∀ t, result = .ok t →
        ∀ path, Opens scope e path → path.Nodup ∧ ∀ name ∈ path, name ∉ marks) ∧
      ∀ fault, result = .error fault → fault.cause ≠ .tooDeep ∧
        ∀ name, fault.cause = .selfReference name →
          ∃ path, Opens scope e (path ++ [name]) ∧ (name ∈ path ∨ name ∈ marks) := by
  have hleft := unmarkedDepth_le_fuel scope marks
  have hsettles : ∀ fuel, e.depth + scope.fuel ≤ fuel → Settles marks
      (fun _ => IsClear scope marks e) (IsSound scope marks e) (readType scope e)
      (typeOf scope fuel e) := by
    intro fuel hfuel
    exact settles_typeOf scope (by omega) (by omega)
  obtain ⟨result, hrun, -, hclear, hsound⟩ := hsettles _ (Nat.le_refl _)
  refine ⟨result, fun fuel hfuel => ?_, hrun, fun t ht path hpath => hclear t ht path hpath, hsound⟩
  obtain ⟨result', hrun', hfuelled, -⟩ := hsettles fuel hfuel
  rw [hfuelled, ← hrun', hrun]

end Schemata.GoSyntax
