import Mathlib
import Schemata.Emission.Writer

/-!
A lowerer that is asked for one text after another. It reports a degradation at the moment it
falls back, in the middle of a type, and remembers what it has reported. Its texts do not depend
on what came before, and what it has reported in the end are the messages of all degraded types
it came to, each at its first place. Writers lower first and report afterwards, which comes to
the same.
-/

namespace Schemata

open List

/-! ### Reports -/

def unmappedWarning (target message : String) : Diagnostic :=
  ⟨.warning, .unmappedKind, message, target, ""⟩

namespace Reported

/-- What is new in a list of messages, each once. -/
def news (r : Reported) (messages : List String) : List String :=
  (messages.filter fun m => !r.warned.contains m).eraseDups

theorem record_append (target : String) (r : Reported) (ds es : List Degradation) :
    r.record target (ds ++ es) = (r.record target ds).record target es :=
  foldl_append

theorem record_cons (target : String) (r : Reported) (d : Degradation) (ds : List Degradation) :
    r.record target (d :: ds) = (r.record target [d]).record target ds := rfl

theorem record_eq (target : String) (r : Reported) (ds : List Degradation) :
    r.record target ds =
      { warned := r.warned ++ r.news (ds.map (·.message))
        diagnostics := { r.diagnostics with
          warnings := r.diagnostics.warnings ++
            (r.news (ds.map (·.message))).map (unmappedWarning target) } } := by
  induction ds generalizing r with
  | nil => simp [record, news]
  | cons d ds ih =>
    rw [record_cons]
    by_cases hknown : d.message ∈ r.warned
    · have hrecord : r.record target [d] = r := by simp [record, hknown]
      have hnews : r.news ((d :: ds).map (·.message)) = r.news (ds.map (·.message)) := by
        simp [news, hknown]
      rw [hrecord, ih, hnews]
    · -- the message is new, and from here on it is known
      have hrecord : r.record target [d] =
          { warned := r.warned ++ [d.message]
            diagnostics := r.diagnostics.warn .unmappedKind d.message target "" } := by
        simp [record, hknown]
      have hnews : r.news ((d :: ds).map (·.message)) =
          d.message :: (r.record target [d]).news (ds.map (·.message)) := by
        rw [hrecord, news, map_cons, filter_cons_of_pos (by simpa using hknown),
          eraseDups_cons, filter_filter, news]
        congr 3
        funext m
        by_cases hm : m = d.message
        · simp [hm]
        · simp [hm]
      rw [ih, hnews, hrecord]
      simp [Diagnostics.warn, Diagnostics.add, unmappedWarning]

end Reported

namespace Lowerer

/-! ### Degraded types -/

/-- Whether the arguments of a container are lowered for its text. -/
def takesArguments (l : Lowerer) (k : Kind) (len : Int64) : Bool :=
  (if k = .variant then l.union? else none).isSome ||
    (l.nameTemplate? (containerKind k len)).isSome

/-- Whether the table has nothing for a type that is lowered by it. -/
def degradation? (l : Lowerer) : TypeExpr → Option Degradation
  | .missing => some ⟨.unknown, "missing type", l.fallbackText⟩
  | .primitive k s =>
    if (k = .unknown ∧ s ≠ "" ∧ l.passthrough) ∨ (l.nameTemplate? k).any Template.isClosed then none
    else some ⟨k, (TypeExpr.primitive k s).text, l.fallbackText⟩
  | .reference _ _ | .indirection _ _ => none
  | .generic k args len =>
    if l.takesArguments k len then none
    else some ⟨containerKind k len, (TypeExpr.generic k args len).text, l.fallbackText⟩
  | .inline body =>
    if body.isNamed then none else some ⟨.structRef, "anonymous inline struct", l.fallbackText⟩
  | .emptyInline => some ⟨.structRef, "anonymous inline struct", l.fallbackText⟩

/-- What lowering a type by the table comes to, nothing if its text is given otherwise. -/
def unlessOverridden (l : Lowerer) (t : TypeExpr) (types : List TypeExpr) : List TypeExpr :=
  if (l.override? t).isSome then [] else types

mutual

/-- The types that are lowered by the table for the text of a type: the type itself, and those
inside it whose text it takes. -/
def met (l : Lowerer) : TypeExpr → List TypeExpr
  | .missing => [.missing]
  | .primitive k s => l.unlessOverridden (.primitive k s) [.primitive k s]
  | .reference name k => l.unlessOverridden (.reference name k) [.reference name k]
  | .indirection k elem =>
    l.unlessOverridden (.indirection k elem) (.indirection k elem :: met l elem)
  | .generic k args len =>
    l.unlessOverridden (.generic k args len)
      (.generic k args len :: if l.takesArguments k len then metAll l args else [])
  | .inline body => l.unlessOverridden (.inline body) [.inline body]
  | .emptyInline => l.unlessOverridden .emptyInline [.emptyInline]

def metAll (l : Lowerer) : List TypeExpr → List TypeExpr
  | [] => []
  | t :: ts => met l t ++ metAll l ts

end

theorem typeNames_cons (l : Lowerer) (t : TypeExpr) (ts : List TypeExpr) :
    l.typeNames (t :: ts) = ((l.typeName t).text :: (l.typeNames ts).1,
      (l.typeName t).degradations ++ (l.typeNames ts).2) := by
  rw [typeNames]

theorem scalar_degradations (l : Lowerer) (k : Kind) (s : String) :
    (l.scalar k s).degradations = [TypeExpr.primitive k s].filterMap l.degradation? := by
  rw [scalar, filterMap_cons, degradation?]
  by_cases hpass : k = .unknown ∧ s ≠ "" ∧ l.passthrough
  · simp [hpass]
  · simp only [hpass, false_or]
    cases l.nameTemplate? k with
    | none => rfl
    | some name => cases hclosed : Template.isClosed name <;> simp [hclosed, degrade]

variable (l : Lowerer)

mutual

/-- Lowering reports the degraded types among those it comes to. -/
theorem degradations_typeName :
    ∀ t : TypeExpr, (l.typeName t).degradations = (l.met t).filterMap l.degradation?
  | .missing => rfl
  | .primitive k s => by
    rw [typeName, met, unlessOverridden]
    cases l.override? (.primitive k s) with
    | some text => rfl
    | none => exact l.scalar_degradations k s
  | .reference name k => by
    rw [typeName, met, unlessOverridden]
    cases l.override? (.reference name k) <;> rfl
  | .indirection k elem => by
    have helem := degradations_typeName elem
    rw [typeName, met, unlessOverridden]
    cases l.override? (.indirection k elem) with
    | some text => rfl
    | none =>
      -- the element is lowered whether or not there is a row around it
      cases (l.nameTemplate? k).or (l.nameTemplate? .optional) <;> exact helem
  | .generic k args len => by
    have hargs := degradations_typeNames args
    rw [typeName, met, unlessOverridden]
    cases l.override? (.generic k args len) with
    | some text => rfl
    | none =>
      cases hunion : if k = .variant then l.union? else none with
      | some separator => simp [hunion, takesArguments, degradation?, hargs]
      | none =>
        cases hrow : l.nameTemplate? (containerKind k len) with
        | some template => simp [hunion, hrow, takesArguments, degradation?, hargs]
        | none => simp [hunion, hrow, takesArguments, degradation?, degrade]
  | .inline body => by
    rw [typeName, met, unlessOverridden]
    cases l.override? (.inline body) with
    | some text => rfl
    | none => cases hnamed : body.isNamed <;> simp [degradation?, degrade, hnamed]
  | .emptyInline => by
    rw [typeName, met, unlessOverridden]
    cases l.override? .emptyInline <;> rfl

theorem degradations_typeNames :
    ∀ ts : List TypeExpr, (l.typeNames ts).2 = (l.metAll ts).filterMap l.degradation?
  | [] => rfl
  | t :: ts => by
    rw [typeNames_cons, metAll, filterMap_append, degradations_typeName t,
      degradations_typeNames ts]

end

/-! ### Reporting while lowering -/

/-- Something asked of a lowerer that reports to a collector, if it has one. -/
abbrev Session := StateM (Option Reported)

variable (target : String)

/-- Gives the fallback text and reports it. -/
def fallBack (kind : Kind) (what : String) : Session String := do
  modify fun r => r.map (·.record target [⟨kind, what, l.fallbackText⟩])
  return l.fallbackText

def scalarIn (k : Kind) (s : String) : Session String :=
  if k = .unknown ∧ s ≠ "" ∧ l.passthrough then return s
  else match l.nameTemplate? k with
    | some name =>
      if Template.isClosed name then return name
      else l.fallBack target k (TypeExpr.primitive k s).text
    | none => l.fallBack target k (TypeExpr.primitive k s).text

mutual

/-- The text of a type. What is degraded inside it is reported before the text is put together. -/
def nameIn (l : Lowerer) (target : String) : TypeExpr → Session String
  | .missing => l.fallBack target .unknown "missing type"
  | .primitive k s =>
    match l.override? (.primitive k s) with
    | some text => return text
    | none => l.scalarIn target k s
  | .reference name k =>
    match l.override? (.reference name k) with
    | some text => return text
    | none => return l.qualify name
  | .indirection k elem =>
    match l.override? (.indirection k elem) with
    | some text => return text
    | none => do
      let child ← nameIn l target elem
      match (l.nameTemplate? k).or (l.nameTemplate? .optional) with
      | some template => return l.fill template [child]
      | none => return child
  | .generic k args len =>
    match l.override? (.generic k args len) with
    | some text => return text
    | none =>
      match if k = .variant then l.union? else none with
      | some separator => do
        let texts ← namesIn l target args
        return separator.intercalate texts
      | none =>
        match l.nameTemplate? (containerKind k len) with
        | none => l.fallBack target (containerKind k len) (TypeExpr.generic k args len).text
        | some template => do
          let texts ← namesIn l target args
          return l.fill template (texts ++ lengthArgument k len)
  | .inline body =>
    match l.override? (.inline body) with
    | some text => return text
    | none =>
      if body.isNamed then return l.qualify body.name
      else l.fallBack target .structRef "anonymous inline struct"
  | .emptyInline =>
    match l.override? .emptyInline with
    | some text => return text
    | none => l.fallBack target .structRef "anonymous inline struct"

def namesIn (l : Lowerer) (target : String) : List TypeExpr → Session (List String)
  | [] => return []
  | t :: ts => do
    let text ← nameIn l target t
    let texts ← namesIn l target ts
    return text :: texts

end

def valueIn : TypeExpr → Session String
  | .missing => return ""
  | .primitive k _ => return l.defaultTemplate k
  | .reference name _ => return l.fill (l.defaultTemplate .structRef) [l.qualify name]
  | .indirection k elem => do
    let child ← l.nameIn target elem
    return l.fill ((((l.row? k).or (l.row? .optional)).map (·.default)).getD "") [child]
  | .generic k args len => do
    let texts ← l.namesIn target args
    return l.fill (l.defaultTemplate (containerKind k len)) (texts ++ lengthArgument k len)
  | .inline body => do
    let name ← l.nameIn target (.inline body)
    return l.fill (l.defaultTemplate .structRef) [name]
  | .emptyInline => do
    let name ← l.nameIn target .emptyInline
    return l.fill (l.defaultTemplate .structRef) [name]

/-- Whatever was reported before, an answer is `a`, and `ds` are the degradations on the way. -/
def Says {α : Type} (x : Session α) (a : α) (ds : List Degradation) : Prop :=
  ∀ r, x r = (a, r.map (·.record target ds))

section

variable {α β : Type} {target : String} {x : Session α} {a : α} {b : β} {ds es : List Degradation}

theorem says_pure (target : String) (a : α) : Says target (pure a) a [] := by
  intro r
  cases r <;> rfl

theorem Says.bind {f : α → Session β} (hx : Says target x a ds) (hf : Says target (f a) b es) :
    Says target (x >>= f) b (ds ++ es) := by
  intro r
  change f (x r).1 (x r).2 = _
  rw [hx r, hf, Option.map_map]
  refine congrArg (Prod.mk b) (congrArg (Option.map · r) ?_)
  funext r
  exact (r.record_append target ds es).symm

theorem Says.map (hx : Says target x a ds) (f : α → β) :
    Says target (x >>= fun y => pure (f y)) (f a) ds := by
  have hbind : Says target (x >>= fun y => pure (f y)) (f a) (ds ++ []) :=
    hx.bind (says_pure target (f a))
  rwa [append_nil] at hbind

theorem says_fallBack (target : String) (kind : Kind) (what : String) :
    Says target (l.fallBack target kind what) (l.degrade kind what).text
      (l.degrade kind what).degradations := fun _ => rfl

theorem says_scalarIn (target : String) (k : Kind) (s : String) :
    Says target (l.scalarIn target k s) (l.scalar k s).text (l.scalar k s).degradations := by
  rw [scalarIn, scalar]
  split
  · exact says_pure target s
  · cases l.nameTemplate? k with
    | none => exact l.says_fallBack target k _
    | some name =>
      dsimp only
      split
      · exact says_pure target name
      · exact l.says_fallBack target k _

end

mutual

/-- Reporting on the way and reporting afterwards come to the same. -/
theorem says_nameIn (target : String) : ∀ t : TypeExpr,
    Says target (l.nameIn target t) (l.typeName t).text (l.typeName t).degradations
  | .missing => l.says_fallBack target .unknown "missing type"
  | .primitive k s => by
    rw [nameIn, typeName]
    cases l.override? (.primitive k s) with
    | some text => exact says_pure target text
    | none => exact l.says_scalarIn target k s
  | .reference name k => by
    rw [nameIn, typeName]
    cases l.override? (.reference name k) with
    | some text => exact says_pure target text
    | none => exact says_pure target _
  | .indirection k elem => by
    have helem := says_nameIn target elem
    rw [nameIn, typeName]
    cases l.override? (.indirection k elem) with
    | some text => exact says_pure target text
    | none =>
      cases (l.nameTemplate? k).or (l.nameTemplate? .optional) with
      | some template => exact helem.map fun child => l.fill template [child]
      | none => exact helem.map fun child => child
  | .generic k args len => by
    have hargs := says_namesIn target args
    rw [nameIn, typeName]
    cases l.override? (.generic k args len) with
    | some text => exact says_pure target text
    | none =>
      dsimp only
      cases if k = .variant then l.union? else none with
      | some separator => exact hargs.map fun texts => separator.intercalate texts
      | none =>
        cases l.nameTemplate? (containerKind k len) with
        | none => exact l.says_fallBack target _ _
        | some template =>
          exact hargs.map fun texts => l.fill template (texts ++ lengthArgument k len)
  | .inline body => by
    rw [nameIn, typeName]
    cases l.override? (.inline body) with
    | some text => exact says_pure target text
    | none =>
      dsimp only
      split
      · exact says_pure target _
      · exact l.says_fallBack target _ _
  | .emptyInline => by
    rw [nameIn, typeName]
    cases l.override? .emptyInline with
    | some text => exact says_pure target text
    | none => exact l.says_fallBack target _ _

theorem says_namesIn (target : String) : ∀ ts : List TypeExpr,
    Says target (l.namesIn target ts) (l.typeNames ts).1 (l.typeNames ts).2
  | [] => says_pure target []
  | t :: ts => by
    rw [namesIn, typeNames_cons]
    exact (says_nameIn target t).bind ((says_namesIn target ts).map _)

end

theorem says_valueIn (t : TypeExpr) :
    Says target (l.valueIn target t) (l.defaultValue t).text (l.defaultValue t).degradations := by
  cases t with
  | missing => exact says_pure target _
  | primitive k s => exact says_pure target _
  | reference name k => exact says_pure target _
  | indirection k elem => exact (l.says_nameIn target elem).map _
  | generic k args len => exact (l.says_namesIn target args).map _
  | inline body => exact (l.says_nameIn target (.inline body)).map _
  | emptyInline => exact (l.says_nameIn target .emptyInline).map _

/-! ### Sequences of calls -/

inductive Call where
  | name (type : TypeExpr)
  | value (type : TypeExpr)

namespace Call

def lower : Call → Lowered
  | .name t => l.typeName t
  | .value t => l.defaultValue t

def answer : Call → Session String
  | .name t => l.nameIn target t
  | .value t => l.valueIn target t

/-- The types lowered by the table for an answer. A default value takes the texts of the types
inside, and that of an inline struct itself. -/
def met : Call → List TypeExpr
  | .name t => l.met t
  | .value (.indirection _ elem) => l.met elem
  | .value (.generic _ args _) => l.metAll args
  | .value (.inline body) => l.met (.inline body)
  | .value .emptyInline => l.met .emptyInline
  | .value (.missing) | .value (.primitive _ _) | .value (.reference _ _) => []

theorem degradations_lower (c : Call) :
    (c.lower l).degradations = (c.met l).filterMap l.degradation? := by
  cases c with
  | name t => exact l.degradations_typeName t
  | value t =>
    cases t with
    | missing => rfl
    | primitive k s => rfl
    | reference name k => rfl
    | indirection k elem => exact l.degradations_typeName elem
    | generic k args len => exact l.degradations_typeNames args
    | inline body => exact l.degradations_typeName (.inline body)
    | emptyInline => exact l.degradations_typeName .emptyInline

theorem says_answer (c : Call) :
    Says target (c.answer l target) (c.lower l).text (c.lower l).degradations := by
  cases c with
  | name t => exact l.says_nameIn target t
  | value t => exact l.says_valueIn target t

/-- One call after another: every text is the one the type has by itself, and the degradations
are those of all the calls. -/
theorem says_answers (calls : List Call) :
    Says target (calls.mapM (answer l target)) (calls.map fun c => (c.lower l).text)
      (calls.flatMap fun c => (c.lower l).degradations) := by
  induction calls with
  | nil => exact says_pure target []
  | cons c calls ih =>
    rw [mapM_cons, map_cons, flatMap_cons]
    exact (c.says_answer l target).bind (ih.map _)

/-- The messages of all degraded types that a sequence of calls comes to. -/
def messages (calls : List Call) : List String :=
  ((calls.flatMap (met l)).filterMap l.degradation?).map (·.message)

theorem messages_eq (calls : List Call) :
    (calls.flatMap fun c => (c.lower l).degradations).map (·.message) = messages l calls := by
  simp only [messages, filterMap_flatMap, degradations_lower]

theorem report_answers (calls : List Call) (s : Emission.State) :
    (calls.mapM fun c => Emission.report target (c.lower l)) s =
      (calls.map fun c => (c.lower l).text,
        { s with
          reported := s.reported.record target
            (calls.flatMap fun c => (c.lower l).degradations) }) := by
  induction calls generalizing s with
  | nil => rfl
  | cons c calls ih =>
    have hrest := ih { s with reported := s.reported.record target (c.lower l).degradations }
    rw [mapM_cons, map_cons, flatMap_cons, Reported.record_append]
    exact congrArg (fun out => ((c.lower l).text :: out.1, out.2)) hrest

end Call

/-- However a lowerer was used before, and with or without a collector, each text is the one that
a lowerer gives that was not used before. What is added to the collector are the messages of the
degraded types that the calls come to, inside other types too, each once and at its first place.
Reporting after each call, as writers do, gives the same texts and the same reports. -/
theorem history_free (target : String) (calls : List Call) :
    (∀ before fresh : Option Reported, ((calls.mapM (Call.answer l target)) before).1 =
        calls.map fun c => (c.answer l target fresh).1) ∧
      ((calls.mapM (Call.answer l target)) none).2 = none ∧
      (∀ collector : Diagnostics,
        (((calls.mapM (Call.answer l target)) (some { diagnostics := collector })).2.map
            (·.diagnostics)) =
          some { collector with warnings := collector.warnings ++
            (Call.messages l calls).eraseDups.map (unmappedWarning target) }) ∧
      ∀ s : Emission.State, ∃ reported,
        ((calls.mapM (Call.answer l target)) (some s.reported)).2 = some reported ∧
          (calls.mapM fun c => Emission.report target (c.lower l)) s =
            (((calls.mapM (Call.answer l target)) (some s.reported)).1,
              { s with reported := reported }) := by
  have hcalls := Call.says_answers l target calls
  refine ⟨?_, ?_, ?_, ?_⟩
  · intro before fresh
    rw [hcalls before]
    exact List.map_congr_left fun c _ => by rw [c.says_answer l target fresh]
  · rw [hcalls none, Option.map_none]
  · intro collector
    have hnews (ms : List String) : Reported.news { diagnostics := collector } ms = ms.eraseDups := by
      simp [Reported.news]
    rw [hcalls, Option.map_some, Option.map_some, Reported.record_eq, Call.messages_eq, hnews]
  · intro s
    rw [hcalls (some s.reported)]
    exact ⟨_, rfl, Call.report_answers l target calls s⟩

end Lowerer

end Schemata
