import Schemata.Generation
import Schemata.Proofs.Files.ReadBack
import Schemata.Proofs.Naming.FileNames

/-!
What a selection asks for and what comes of it. Every request of a selection has an answer of its
own, an output or a failure; the outputs of a selection are the answers to its requests in their
order, or the first failure among them. With the built-in targets the outputs of a selection are
named apart.
-/

namespace Schemata

open Text Log List
open Document (bind_eq_ok pure_eq_ok)

variable {o : Output} {r : Request} {s : Selection} {rs : List Request} {os : List Output}

/-! ### Runs and what comes of them -/

/-- What comes of a run by itself. -/
def Run.outcome {α : Type} (x : Run α) : Except Failure α := (x.run.run []).1

/-- Whatever was told before, this comes of a run. -/
def Run.Yields {α : Type} (x : Run α) (r : Except Failure α) : Prop := ∀ log, (x.run.run log).1 = r

namespace Run

variable {α β : Type} {x : Run α} {f : α → Run β}

theorem Yields.outcome_eq {r : Except Failure α} (h : Yields x r) : x.outcome = r := h []

theorem Yields.outcome {r : Except Failure α} (h : Yields x r) : Yields x x.outcome :=
  h.outcome_eq ▸ h

theorem yields_pure (a : α) : Yields (pure a) (.ok a) := fun _ => rfl

theorem yields_lift (r : Except Failure α) : Yields (liftM r : Run α) r := fun _ => rfl

theorem yields_tell (level : Level) (message : String) (values : List (String × Value)) :
    Yields (tell level message values) (.ok ()) := fun _ => rfl

theorem yields_reportTo (target : String) (level : Level) (d : Diagnostic) :
    Yields (reportTo target level d) (.ok ()) := yields_tell _ _ _

theorem Yields.bind {r : Except Failure α} {g : α → Except Failure β} (hx : Yields x r)
    (hf : ∀ a, Yields (f a) (g a)) : Yields (x >>= f) (r >>= g) := by
  intro log
  obtain ⟨result, told, hrun⟩ : ∃ result told, x.run.run log = (result, told) := ⟨_, _, rfl⟩
  have hresult : result = r := by rw [← hx log, hrun]
  subst hresult
  rw [ExceptT.run_bind, StateT.run_bind, hrun]
  cases result with
  | error failure => rfl
  | ok a => exact hf a told

theorem Yields.then {a : α} {r : Except Failure β} (hx : Yields x (.ok a))
    (hf : Yields (f a) r) : Yields (x >>= f) r := by
  intro log
  obtain ⟨result, told, hrun⟩ : ∃ result told, x.run.run log = (result, told) := ⟨_, _, rfl⟩
  have hresult : result = .ok a := by rw [← hx log, hrun]
  subst hresult
  rw [ExceptT.run_bind, StateT.run_bind, hrun]
  exact hf told

theorem yields_reports (target : String) (level : Level) (ds : List Diagnostic) :
    Yields (forIn ds PUnit.unit fun d _ => do
      reportTo target level d
      return ForInStep.yield PUnit.unit) (.ok PUnit.unit) := by
  induction ds with
  | nil => exact yields_pure _
  | cons d ds ih =>
    rw [forIn_cons]
    refine Yields.then (a := ForInStep.yield PUnit.unit) ?_ ih
    refine (yields_reportTo target level d).then ?_
    exact yields_pure _

end Run

/-! ### Requests -/

/-- One thing a selection asks for. -/
inductive Request where
  /-- The source itself. -/
  | copy
  /-- The module as it was read. -/
  | outline
  | language (key : String)
deriving DecidableEq, Repr

/-- What an output made for a request is called. -/
def Request.target : Request → String
  | .copy => "src"
  | .outline => "ast"
  | .language key => key

/-- What a selection asks for, in the order of its outputs. -/
def Selection.requests (s : Selection) : List Request :=
  (if s.copy then [.copy] else []) ++ (if s.outline then [.outline] else []) ++
    s.keys.map .language

namespace Generator

open Run

/-- What comes of one request by itself. -/
def answer (g : Generator) (inKey : String) (source : List UInt8) :
    Request → Except Failure Output
  | .copy => .ok (g.copy inKey source)
  | .outline => (g.outline inKey source).outcome
  | .language key => (g.emit inKey source key).outcome

/-- The answers to what a selection asks for, or the first failure. -/
def answers (g : Generator) (inKey : String) (source : List UInt8) (s : Selection) :
    Except Failure (List Output) :=
  s.requests.mapM (g.answer inKey source)

variable {g : Generator} {inKey : String} {source : List UInt8}

theorem parse_yields : Yields (g.parse inKey source) (g.read inKey source) := by
  have h : Yields (g.parse inKey source) (g.read inKey source >>= pure) :=
    (yields_lift _).bind fun m => (yields_tell _ _ _).then (yields_pure m)
  rwa [bind_pure] at h

theorem outline_yields : Yields (g.outline inKey source) (do
    let m ← g.read inKey source
    return { target := "ast", filename := g.baseName ++ ".ast",
             content := m.show.toUTF8.toList }) :=
  parse_yields.bind fun _ => yields_pure _

theorem normalizeLogged_yields (t : Target) (m : Module) :
    Yields (normalizeLogged t m) (.ok (normalize t m)) := by
  unfold normalizeLogged
  split <;> split <;> exact fun _ => rfl

/-- `emit` without what it tells. -/
def emission (g : Generator) (inKey : String) (source : List UInt8) (outKey : String) :
    Except Failure Output := do
  let writer ← g.languages.writers.lookup outKey
  let m ← g.read inKey source
  let (m, normalized) := normalize writer.target m
  let (text, written) := writer.write m
  let diagnostics := normalized ++ written
  match diagnostics.summary? with
  | some summary => throw (.other ("emit " ++ outKey ++ ": " ++ summary))
  | none =>
    return { target := outKey, filename := writer.target.filename g.baseName
             content := text.toUTF8.toList, diagnostics }

theorem emit_yields (outKey : String) :
    Yields (g.emit inKey source outKey) (g.emission inKey source outKey) := by
  refine (yields_lift _).bind fun writer => parse_yields.bind fun m => ?_
  obtain ⟨key, target, write⟩ := writer
  have hnormal := normalizeLogged_yields target m
  generalize normalize target m = result at hnormal ⊢
  obtain ⟨normal, normalized⟩ := result
  refine hnormal.then ?_
  dsimp only
  generalize write normal = result
  obtain ⟨text, written⟩ := result
  dsimp only
  generalize normalized ++ written = diagnostics
  refine (yields_reports outKey .warn _).then ?_
  refine (yields_reports outKey .debug _).then ?_
  cases diagnostics.summary? with
  | none => exact fun _ => rfl
  | some summary => exact fun _ => rfl

/-! ### All answers or none -/

/-- Outputs that nothing cut short, or what did. -/
def allOrNone : List Output × Option Failure → Except Failure (List Output)
  | (outputs, none) => .ok outputs
  | (_, some failure) => .error failure

/-- Whatever was told before, the outputs of keys are those made of each by itself. -/
theorem allOrNone_emitEach (keys : List String) (log : List Entry) :
    allOrNone ((g.emitEach inKey source keys).run log).1 =
      keys.mapM fun key => (g.emit inKey source key).outcome := by
  induction keys generalizing log with
  | nil => rfl
  | cons key keys ih =>
    obtain ⟨result, told, hrun⟩ :
      ∃ result told, (g.emit inKey source key).run.run log = (result, told) := ⟨_, _, rfl⟩
    -- the log differs from key to key, what comes of a key does not
    have hresult : (g.emit inKey source key).outcome = result := by
      rw [← (emit_yields key).outcome log, hrun]
    rw [mapM_cons, hresult, emitEach, StateT.run_bind, hrun]
    cases result with
    | error failure => rfl
    | ok o =>
      obtain ⟨⟨os, stop⟩, later, hrest⟩ :
        ∃ r later, (g.emitEach inKey source keys).run told = (r, later) := ⟨_, _, rfl⟩
      have hos := ih told
      rw [hrest] at hos
      change allOrNone (((g.emitEach inKey source keys >>= fun r =>
        pure (o :: r.1, r.2)).run told).1) = _
      rw [StateT.run_bind, hrest, ← hos]
      cases stop <;> rfl

theorem emitSelected_yields (keys : List String) :
    Yields (g.emitSelected inKey source keys)
      (keys.mapM fun key => (g.emit inKey source key).outcome) := by
  intro log
  cases keys with
  | nil => rfl
  | cons key keys =>
    rw [← allOrNone_emitEach (key :: keys) log]
    obtain ⟨⟨os, stop⟩, told, hrun⟩ :
      ∃ r told, (g.emitEach inKey source (key :: keys)).run log = (r, told) := ⟨_, _, rfl⟩
    have hall : (g.emitAll inKey source (key :: keys)).run log = ((os, stop), told) := hrun
    rw [hrun, emitSelected]
    change
      ((ExceptT.run (ExceptT.lift (g.emitAll inKey source (key :: keys)) >>= _)).run log).1 = _
    rw [ExceptT.run_bind, StateT.run_bind, ExceptT.run_lift, StateT.run_map, hall]
    cases stop <;> rfl

theorem generate_yields (s : Selection) :
    Yields (g.generate inKey source s) (g.answers inKey source s) := by
  have hcopies : (if s.copy then [Request.copy] else []).mapM (g.answer inKey source) =
      .ok (if s.copy then [g.copy inKey source] else []) := by
    split <;> rfl
  have hkeys : (s.keys.map Request.language).mapM (g.answer inKey source) =
      s.keys.mapM fun key => (g.emit inKey source key).outcome := by
    rw [mapM_map]
    rfl
  have hselected : Yields (g.emitSelected inKey source s.keys) _ := emitSelected_yields s.keys
  have houtline : Yields (g.outline inKey source) _ := outline_yields.outcome
  rw [answers, Selection.requests, mapM_append, mapM_append, hcopies, hkeys]
  unfold generate
  generalize (if s.copy then [g.copy inKey source] else []) = copies
  cases s.outline with
  | false => exact hselected.bind fun outputs => yields_pure _
  | true =>
    have hone : [Request.outline].mapM (g.answer inKey source) =
        (g.outline inKey source).outcome >>= fun o => pure [o] := by
      simp [answer]
    rw [if_pos rfl, if_pos rfl, hone]
    simp only [bind_assoc]
    exact houtline.bind fun o => hselected.bind fun outputs => yields_pure _

/-! ### The files of answers -/

theorem outline_named (h : (g.outline inKey source).outcome = .ok o) :
    o.target = "ast" ∧ o.filename = g.baseName ++ "." ++ "ast" := by
  rw [outline_yields.outcome_eq, bind_eq_ok] at h
  obtain ⟨m, -, hm⟩ := h
  obtain rfl := pure_eq_ok.mp hm
  refine ⟨rfl, ?_⟩
  rw [String.append_assoc]
  rfl

theorem copy_named : (g.copy inKey source).filename = g.baseName ++ "." ++ ("src." ++ inKey) := by
  change g.baseName ++ ("." ++ "src.") ++ inKey = _
  simp only [String.append_assoc]

theorem copy_filename_ne (h : (g.outline inKey source).outcome = .ok o) :
    (g.copy inKey source).filename ≠ o.filename := by
  rw [copy_named, (outline_named h).2, Ne, String.append_right_inj]
  intro heq
  have hchars := congrArg String.toList heq
  simp at hchars

theorem noSlash_baseName (hbase : '/' ∉ g.base.toList) : '/' ∉ g.baseName.toList := by
  rw [baseName]
  split
  · decide
  · exact hbase

/-! ### Whole selections -/

theorem mapM_eq_ok {α β ε : Type} {f : α → Except ε β} {xs : List α} {ys : List β} :
    xs.mapM f = .ok ys ↔ Forall₂ (fun x y => f x = .ok y) xs ys := by
  induction xs generalizing ys with
  | nil => rw [forall₂_nil_left_iff, mapM_nil, pure_eq_ok]
  | cons x xs ih =>
    simp only [mapM_cons, bind_eq_ok, pure_eq_ok, forall₂_cons_left_iff, ih]
    constructor
    · rintro ⟨y, hy, rest, hrest, hys⟩
      exact ⟨y, rest, hy, hrest, hys⟩
    · rintro ⟨y, rest, hy, hrest, hys⟩
      exact ⟨y, hy, rest, hrest, hys⟩

theorem nodup_requests (h : s.keys.Nodup) : s.requests.Nodup := by
  have hlanguages : (s.keys.map Request.language).Nodup :=
    h.map fun _ _ heq => Request.language.inj heq
  rw [Selection.requests]
  cases s.copy <;> cases s.outline <;> simp [hlanguages]

theorem exists_request (h : Forall₂ (fun r o => g.answer inKey source r = .ok o) rs os)
    (ho : o ∈ os) : ∃ r ∈ rs, g.answer inKey source r = .ok o := by
  induction h with
  | nil => exact absurd ho not_mem_nil
  | @cons r _ _ _ hr _ ih =>
    rcases mem_cons.mp ho with rfl | ho
    · exact ⟨r, mem_cons_self, hr⟩
    · obtain ⟨r', hr', hanswer⟩ := ih ho
      exact ⟨r', mem_cons_of_mem _ hr', hanswer⟩

theorem exists_answer (h : Forall₂ (fun r o => g.answer inKey source r = .ok o) rs os)
    (hr : r ∈ rs) : ∃ o, g.answer inKey source r = .ok o := by
  induction h with
  | nil => exact absurd hr not_mem_nil
  | @cons _ o _ _ ho _ ih =>
    rcases mem_cons.mp hr with rfl | hr
    · exact ⟨o, ho⟩
    · exact ih hr

theorem mem_keys_of_read {m : Module} (h : g.read inKey source = .ok m) :
    inKey ∈ g.languages.readers.keys := by
  rw [read, bind_eq_ok] at h
  obtain ⟨reader, hreader, -⟩ := h
  exact Registry.mem_keys_of_lookup hreader

/-- Only the source itself can be had without reading it. -/
theorem eq_copy_or_mem_keys (h : g.answer inKey source r = .ok o) :
    r = .copy ∨ inKey ∈ g.languages.readers.keys := by
  cases r with
  | copy => exact .inl rfl
  | outline =>
    rw [answer, outline_yields.outcome_eq, bind_eq_ok] at h
    obtain ⟨m, hm, -⟩ := h
    exact .inr (mem_keys_of_read hm)
  | language key =>
    rw [answer, (emit_yields key).outcome_eq, emission, bind_eq_ok] at h
    obtain ⟨writer, -, h⟩ := h
    obtain ⟨m, hm, -⟩ := bind_eq_ok.mp h
    exact .inr (mem_keys_of_read hm)

/-! ### Built-in targets -/

variable (hl : g.languages.BuiltFrom Catalog.ofBuiltin)

include hl

theorem emit_named {key : String} (h : (g.emit inKey source key).outcome = .ok o) :
    o.target = key ∧ ∃ t : Target, t.NamesByKey key ∧ o.filename = t.filename g.baseName := by
  rw [(emit_yields key).outcome_eq, emission, bind_eq_ok] at h
  obtain ⟨writer, hwriter, h⟩ := h
  obtain ⟨m, -, h⟩ := bind_eq_ok.mp h
  dsimp only at h
  split at h
  · simp [throw, throwThe, MonadExceptOf.throw] at h
  · obtain rfl := pure_eq_ok.mp h
    exact ⟨rfl, writer.target, builtin_namesByKey (hl.find?_of_lookup hwriter), rfl⟩

theorem answer_target (h : g.answer inKey source r = .ok o) : o.target = r.target := by
  cases r with
  | copy => exact Except.ok.inj h ▸ rfl
  | outline => exact (outline_named h).1
  | language key => exact (emit_named hl h).1

/-- A language shares its file with nothing else. -/
theorem request_eq_language {key : String} {o' : Output}
    (h : g.answer inKey source (.language key) = .ok o) (h' : g.answer inKey source r = .ok o')
    (hname : o.filename = o'.filename) : r = .language key := by
  obtain ⟨-, t, ht, hfile⟩ := emit_named hl h
  rw [hfile] at hname
  cases r with
  | copy =>
    rw [← Except.ok.inj h', copy_named] at hname
    refine absurd ?_ ht.noDot
    rw [← ht.key_of_filename hname]
    simp
  | outline =>
    rw [(outline_named h').2] at hname
    exact absurd (ht.key_of_filename hname).symm ht.ne_outline
  | language key' =>
    obtain ⟨-, t', ht', hfile'⟩ := emit_named hl h'
    obtain ⟨stem, -, -, hstem⟩ := ht'.filename_eq g.baseName
    rw [hfile', hstem] at hname
    rw [ht.key_of_filename hname]

/-- Different requests are answered with different files. -/
theorem request_of_filename {r' : Request} {o' : Output}
    (h : g.answer inKey source r = .ok o)
    (h' : g.answer inKey source r' = .ok o') (hname : o.filename = o'.filename) : r = r' := by
  cases r with
  | language key => exact (request_eq_language hl h h' hname).symm
  | copy =>
    cases r' with
    | copy => rfl
    | outline =>
      rw [← Except.ok.inj h] at hname
      exact absurd hname (copy_filename_ne h')
    | language key => exact request_eq_language hl h' h hname.symm
  | outline =>
    cases r' with
    | copy =>
      rw [← Except.ok.inj h'] at hname
      exact absurd hname.symm (copy_filename_ne h)
    | outline => rfl
    | language key => exact request_eq_language hl h' h hname.symm

theorem answer_isPlain (hbase : '/' ∉ g.base.toList) (hkey : '/' ∉ inKey.toList)
    (h : g.answer inKey source r = .ok o) : Files.IsPlain o.filename := by
  have hname := noSlash_baseName hbase
  cases r with
  | copy =>
    rw [← Except.ok.inj h, copy_named]
    exact ⟨by simp [hname, hkey], 's', by simp, by decide⟩
  | outline =>
    rw [(outline_named h).2]
    exact ⟨by simp [hname], 'a', by simp, by decide⟩
  | language key =>
    obtain ⟨-, t, ht, hfile⟩ := emit_named hl h
    obtain ⟨stem, -, hslash, hstem⟩ := ht.filename_eq g.baseName
    obtain ⟨c, hc⟩ : ∃ c, c ∈ key.toList := by
      apply exists_mem_of_ne_nil
      simpa using ht.key_ne
    have hstem_plain : '/' ∉ stem.toList := fun hmem => hname (hslash hmem)
    rw [hfile, hstem]
    exact ⟨by simp [hstem_plain, ht.noSlash], c, by simp [hc], fun hdot => ht.noDot (hdot ▸ hc)⟩

/-- The outputs of requests that differ, each called as it was asked for. -/
theorem answered_apart (hrs : rs.Nodup)
    (h : Forall₂ (fun r o => g.answer inKey source r = .ok o) rs os) :
    os.map (·.target) = rs.map (·.target) ∧ (os.map (·.filename)).Nodup := by
  induction h with
  | nil => exact ⟨rfl, nodup_nil⟩
  | @cons r o rs os hr hrest ih =>
    rw [nodup_cons] at hrs
    obtain ⟨htargets, hnames⟩ := ih hrs.2
    refine ⟨by rw [map_cons, map_cons, htargets, answer_target hl hr], ?_⟩
    rw [map_cons, nodup_cons]
    refine ⟨?_, hnames⟩
    intro hmem
    obtain ⟨o', ho', hname⟩ := mem_map.mp hmem
    obtain ⟨r', hr', hanswer⟩ := exists_request hrest ho'
    exact hrs.1 (request_of_filename hl hr hanswer hname.symm ▸ hr')

theorem answers_apart (hkeys : s.keys.Nodup) (h : g.answers inKey source s = .ok os) :
    os.map (·.target) = s.requests.map (·.target) ∧ (os.map (·.filename)).Nodup :=
  answered_apart hl (nodup_requests hkeys) (mapM_eq_ok.mp h)

/-- Several outputs have plain names. -/
theorem answers_isPlain (hkeys : s.keys.Nodup) (hbase : '/' ∉ g.base.toList)
    (h : g.answers inKey source s = .ok os) :
    (∀ o ∈ os, Files.IsPlain o.filename) ∨ os.length ≤ 1 := by
  have hanswers := mapM_eq_ok.mp h
  by_cases hkey : inKey ∈ g.languages.readers.keys
  · left
    intro o ho
    obtain ⟨r, -, hanswer⟩ := exists_request hanswers ho
    exact answer_isPlain hl hbase (hl.noSlash_of_mem_keys hkey) hanswer
  · right
    -- nothing can be read under this key, so the source itself is all there is to have
    have hcopies : s.requests ⊆ [Request.copy] := by
      intro r hr
      obtain ⟨o, hanswer⟩ := exists_answer hanswers hr
      rw [(eq_copy_or_mem_keys hanswer).resolve_right hkey]
      exact mem_cons_self
    rw [← hanswers.length_eq]
    exact ((nodup_requests hkeys).subperm hcopies).length_le

end Generator

end Schemata
