import Schemata.Command.Run
import Schemata.Proofs.Document.Building
import Schemata.Proofs.Generation.Answers

/-!
What a run leaves behind in a world. Outputs are printed or written when every one of them could
be made, and then all of them in the order they were asked for; a failure before that shows in
messages alone. Files that were written read back, since no two of them have one name.
-/

namespace Schemata.Command

open Files Log List
open World (host change)
open Document (bind_eq_ok pure_eq_ok)

variable {store : Store} {fault : Fault} {directory : String} {os : List Output} {p : Plan}

/-! ### Tasks in a world -/

/-- What comes of a task in a world, and the world after it. -/
def runIn {α : Type} (w : World) (x : Task (StateM World) α) : Except Failure α × World :=
  x.run.run w

variable {α β : Type} {w w' : World} {x : Task (StateM World) α}
  {f : α → Task (StateM World) β}

theorem runIn_bind_ok {a : α} (h : runIn w x = (.ok a, w')) :
    runIn w (x >>= f) = runIn w' (f a) := by
  rw [runIn] at h
  rw [runIn, ExceptT.run_bind, StateT.run_bind, h]
  rfl

theorem runIn_bind_error {failure : Failure} (h : runIn w x = (.error failure, w')) :
    runIn w (x >>= f) = (.error failure, w') := by
  rw [runIn] at h
  rw [runIn, ExceptT.run_bind, StateT.run_bind, h]
  rfl

theorem runIn_lift (w : World) (act : StateM World α) :
    runIn w (liftM act : Task (StateM World) α) = (.ok (act.run w).1, (act.run w).2) := rfl

/-- Messages change nothing else. -/
theorem runIn_report (v : Voice) (entries : List Entry) (w : World) :
    ∃ reported, runIn w (v.report host entries) = (.ok (), { w with reported }) := by
  rw [Voice.report]
  split
  · exact ⟨w.reported, rfl⟩
  · exact ⟨_, rfl⟩

/-! ### Reading -/

/-- Reading changes nothing; what is read is the standard input or the file of that name. -/
theorem runIn_readInput (input : String) (w : World) :
    ∃ r, runIn w (readInput host input) = (r, w) ∧
      ∀ source, r = .ok source →
        input = standardInput ∨ w.store.read w.directory input = .ok source := by
  rw [readInput]
  split
  case isTrue hinput =>
    have hbytes : runIn w (liftM host.input : Task (StateM World) (List UInt8)) =
        (.ok w.input, w) := rfl
    rw [runIn_bind_ok hbytes]
    cases w.input.isEmpty with
    | true => exact ⟨_, rfl, fun _ _ => .inl hinput⟩
    | false => exact ⟨_, rfl, fun _ _ => .inl hinput⟩
  case isFalse hinput =>
    have hread : runIn w (liftM (host.read input) : Task (StateM World) _) =
        (.ok (w.store.read w.directory input), w) := rfl
    rw [runIn_bind_ok hread]
    cases w.store.read w.directory input with
    | error fault => exact ⟨_, rfl, fun _ h => by simp at h⟩
    | ok bytes => exact ⟨_, rfl, fun _ h => .inr (Except.ok.inj h ▸ rfl)⟩

/-! ### Printing and writing -/

theorem runIn_printOutputs (os : List Output) (w : World) :
    ∃ reported, runIn w (printOutputs host os) =
      (.ok (), { w with printed := w.printed ++ os.flatMap (·.content), reported }) := by
  induction os generalizing w with
  | nil =>
    refine ⟨w.reported, ?_⟩
    rw [flatMap_nil, append_nil]
    rfl
  | cons o os ih =>
    obtain ⟨reported, hrest⟩ := ih { w with
      printed := w.printed ++ o.content
      reported := w.reported ++ ("********* " ++ o.target ++ " *********\n").toUTF8.toList }
    refine ⟨reported, ?_⟩
    rw [flatMap_cons, ← append_assoc]
    exact hrest

def files (os : List Output) : List (String × List UInt8) :=
  os.map fun o => (o.filename, o.content)

theorem runIn_change_ok {act : World → Except Fault Store} (h : act w = .ok store) :
    runIn w (liftM (change act) : Task (StateM World) _) =
      (.ok (.ok ()), { w with store }) := by
  have hrun : (change act).run w = (.ok (), { w with store }) := by
    simp [change, h]
    rfl
  rw [runIn_lift, hrun]

theorem runIn_change_error {act : World → Except Fault Store} (h : act w = .error fault) :
    runIn w (liftM (change act) : Task (StateM World) _) = (.ok (.error fault), w) := by
  have hrun : (change act).run w = (.error fault, w) := by
    simp [change, h]
    rfl
  rw [runIn_lift, hrun]

/-- One output is written, and the run goes on with the others. -/
theorem runIn_writeOutputs_cons {o : Output} {next : Store} (v : Voice) (os : List Output)
    (h : w.store.write w.directory (join directory o.filename) o.content = .ok next) :
    ∃ reported, runIn w (writeOutputs host v directory (o :: os)) =
      runIn { w with store := next, reported } (writeOutputs host v directory os) := by
  have hwrite : runIn w (liftM (host.write (join directory o.filename) o.content) :
      Task (StateM World) _) = (.ok (.ok ()), { w with store := next }) :=
    runIn_change_ok h
  obtain ⟨reported, hreport⟩ := runIn_report v [⟨.info, "wrote",
    [("target", .text o.target), ("file", .text (join directory o.filename))]⟩]
    { w with store := next }
  refine ⟨reported, ?_⟩
  rw [writeOutputs, runIn_bind_ok hwrite]
  exact runIn_bind_ok hreport

/-- Outputs that can all be written are. -/
theorem runIn_writeOutputs_ok {v : Voice}
    (h : w.store.writeEach w.directory directory (files os) = .ok store) :
    ∃ reported, runIn w (writeOutputs host v directory os) =
      (.ok (), { w with store, reported }) := by
  induction os generalizing w with
  | nil =>
    obtain rfl := Except.ok.inj h
    exact ⟨w.reported, rfl⟩
  | cons o os ih =>
    obtain ⟨next, hwrite, hrest⟩ := Store.writeEach_cons_iff.mp h
    obtain ⟨told, hstep⟩ := runIn_writeOutputs_cons v os hwrite
    rw [hstep]
    exact ih hrest

/-- A refused write ends the run, and only files have changed. -/
theorem runIn_writeOutputs_error {v : Voice}
    (h : w.store.writeEach w.directory directory (files os) = .error fault) :
    ∃ failure store reported, runIn w (writeOutputs host v directory os) =
      (.error failure, { w with store, reported }) := by
  induction os generalizing w with
  | nil => simp [files, Store.writeEach, pure, Except.pure] at h
  | cons o os ih =>
    cases hwrite : w.store.write w.directory (join directory o.filename) o.content with
    | error refused =>
      have hfirst : runIn w (liftM (host.write (join directory o.filename) o.content) :
          Task (StateM World) _) = (.ok (.error refused), w) :=
        runIn_change_error hwrite
      rw [writeOutputs, runIn_bind_ok hfirst]
      exact ⟨_, w.store, w.reported, rfl⟩
    | ok next =>
      rw [files, map_cons, Store.writeEach, foldlM_cons, hwrite] at h
      obtain ⟨told, hstep⟩ := runIn_writeOutputs_cons v os hwrite
      rw [hstep]
      exact ih h

/-- The files after outputs were written to a directory, made first where it was missing. -/
def storeAfter (s : Store) (working : List String) (directory : String) (os : List Output) :
    Except Fault Store := do
  (← s.makeDirectories working directory).writeEach working directory (files os)

theorem runIn_deliver_printed (hdirectory : p.directory = "") (os : List Output) (w : World) :
    ∃ reported, runIn w (deliver host p os) =
      (.ok (), { w with printed := w.printed ++ os.flatMap (·.content), reported }) := by
  rw [deliver, hdirectory]
  exact runIn_printOutputs os w

/-- Where there is a directory, outputs are written to it once it is made. -/
theorem runIn_deliver_made {made : Store} (os : List Output) (hdirectory : p.directory ≠ "")
    (h : w.store.makeDirectories w.directory p.directory = .ok made) :
    runIn w (deliver host p os) =
      runIn { w with store := made } (writeOutputs host p.voice p.directory os) := by
  have hmake : runIn w (liftM (host.makeDirectories p.directory) :
      Task (StateM World) _) = (.ok (.ok ()), { w with store := made }) :=
    runIn_change_ok h
  have hfull : p.directory.isEmpty = false := by simpa using hdirectory
  rw [deliver, hfull]
  exact runIn_bind_ok hmake

theorem runIn_deliver_written (hdirectory : p.directory ≠ "")
    (h : storeAfter w.store w.directory p.directory os = .ok store) :
    ∃ reported, runIn w (deliver host p os) = (.ok (), { w with store, reported }) := by
  rw [storeAfter, bind_eq_ok] at h
  obtain ⟨made, hmade, hwritten⟩ := h
  rw [runIn_deliver_made os hdirectory hmade]
  exact runIn_writeOutputs_ok hwritten

theorem runIn_deliver_refused (hdirectory : p.directory ≠ "")
    (h : storeAfter w.store w.directory p.directory os = .error fault) :
    ∃ failure store reported, runIn w (deliver host p os) =
      (.error failure, { w with store, reported }) := by
  cases hmade : w.store.makeDirectories w.directory p.directory with
  | error refused =>
    have hfirst : runIn w (liftM (host.makeDirectories p.directory) :
        Task (StateM World) _) = (.ok (.error refused), w) :=
      runIn_change_error hmade
    have hfull : p.directory.isEmpty = false := by simpa using hdirectory
    refine ⟨.other ("creating output directory: " ++ refused.text), w.store, w.reported, ?_⟩
    rw [deliver, hfull]
    exact runIn_bind_ok hfirst
  | ok made =>
    rw [storeAfter, hmade] at h
    rw [runIn_deliver_made os hdirectory hmade]
    exact runIn_writeOutputs_error h

/-! ### Whole runs -/

/-- Up to the delivery a run changes nothing but messages. -/
theorem runIn_generate {source : List UInt8}
    (hread : (runIn w (readInput host p.input)).1 = .ok source) :
    ∃ reported, runIn w (generate host p) = runIn { w with reported }
      (liftM (p.generator.answers p.language source p.selection) >>= deliver host p) := by
  obtain ⟨r, hr, -⟩ := runIn_readInput p.input w
  rw [hr] at hread
  obtain rfl : r = .ok source := hread
  rw [generate, runIn_bind_ok hr]
  obtain ⟨told, htold⟩ := runIn_report p.voice [⟨.info, "input",
    [("file", .text p.input), ("notation", .text p.language)]⟩] w
  rw [runIn_bind_ok htold]
  -- generating happens outside of the world and hands over its log with what comes of it
  have hyields : (p.generator.generate p.language source p.selection).outcome =
      p.generator.answers p.language source p.selection :=
    (Generator.generate_yields p.selection).outcome_eq
  obtain ⟨result, entries, hresult⟩ : ∃ result entries,
    (p.generator.generate p.language source p.selection).run.run [] = (result, entries) :=
    ⟨_, _, rfl⟩
  rw [Run.outcome, hresult] at hyields
  rw [hresult, ← hyields]
  obtain ⟨reported, hreported⟩ := runIn_report p.voice entries { w with reported := told }
  refine ⟨reported, ?_⟩
  dsimp only
  rw [runIn_bind_ok hreported]
  cases result <;> rfl

/-! ### Plans -/

theorem nodup_eraseDups (keys : List String) : keys.eraseDups.Nodup := by
  induction h : keys.length using Nat.strong_induction_on generalizing keys with
  | _ n ih =>
    cases keys with
    | nil => simp
    | cons key keys =>
      rw [eraseDups_cons, nodup_cons]
      have hshort := length_filter_le (fun other => !other == key) keys
      refine ⟨?_, ih _ (by simp at h; omega) _ rfl⟩
      rw [mem_eraseDups]
      simp

theorem nodup_select {all : List String} (h : all.Nodup) (o : Options) (c : Configuration) :
    (select o c all).keys.Nodup := by
  rw [select]
  split
  · exact h
  · exact nodup_eraseDups _

theorem plan_spec {s : Setup} {o : Options} {operands : List String}
    (h : plan s o operands = .ok p) :
    p.generator.languages = s.languages ∧
      p.selection = select o s.configuration s.languages.writers.keys ∧
        p.generator.base = if p.input = standardInput then "" else stem p.input := by
  rw [plan, bind_eq_ok] at h
  obtain ⟨language, -, h⟩ := h
  dsimp only at h
  split at h
  · simp [throw, throwThe, MonadExceptOf.throw, bind, Except.bind] at h
  · obtain rfl := pure_eq_ok.mp h
    exact ⟨rfl, rfl, rfl⟩

/-- What a plan does in a world, by what can be read and what can be made of it. -/
structure Delivers (p : Plan) (w : World) : Prop where
  /-- What cannot be read leaves everything as it is. -/
  unread : ∀ failure, (runIn w (readInput host p.input)).1 = .error failure →
    runIn w (generate host p) = (.error failure, w)
  /-- A request that fails leaves everything but the messages as it is. -/
  unmade : ∀ source failure, (runIn w (readInput host p.input)).1 = .ok source →
    p.generator.answers p.language source p.selection = .error failure →
      ∃ reported, runIn w (generate host p) = (.error failure, { w with reported })
  /-- There is one output for each request, in the order of the requests, each in a file of its
  own. -/
  made : ∀ source os, p.generator.answers p.language source p.selection = .ok os →
    os.map (·.target) = p.selection.requests.map (·.target) ∧ (os.map (·.filename)).Nodup
  printed : ∀ source os, (runIn w (readInput host p.input)).1 = .ok source →
    p.generator.answers p.language source p.selection = .ok os → p.directory = "" →
      ∃ reported, runIn w (generate host p) =
        (.ok (), { w with printed := w.printed ++ os.flatMap (·.content), reported })
  /-- Every file can be read after all of them were written. -/
  written : ∀ source os, (runIn w (readInput host p.input)).1 = .ok source →
    p.generator.answers p.language source p.selection = .ok os → p.directory ≠ "" →
      ∀ store, storeAfter w.store w.directory p.directory os = .ok store →
        (∃ reported, runIn w (generate host p) = (.ok (), { w with store, reported })) ∧
          ∀ o ∈ os, store.read w.directory (join p.directory o.filename) = .ok o.content
  /-- A file that cannot be written fails the run. -/
  refused : ∀ source os, (runIn w (readInput host p.input)).1 = .ok source →
    p.generator.answers p.language source p.selection = .ok os → p.directory ≠ "" →
      ∀ fault, storeAfter w.store w.directory p.directory os = .error fault →
        ∃ failure store reported,
          runIn w (generate host p) = (.error failure, { w with store, reported })

theorem noSlash_base_of_read {source : List UInt8}
    (hbase : p.generator.base = if p.input = standardInput then "" else stem p.input)
    (hread : (runIn w (readInput host p.input)).1 = .ok source) :
    '/' ∉ p.generator.base.toList := by
  rw [hbase]
  split
  case isTrue => decide
  case isFalse hinput =>
    obtain ⟨r, hr, hsource⟩ := runIn_readInput p.input w
    rw [hr] at hread
    have hfile := (hsource source hread).resolve_left hinput
    exact noSlash_stem (Store.exists_part_of_read hfile)

theorem read_storeAfter {s : Store} {working : List String} (hdirectory : directory ≠ "")
    (hplain : (∀ o ∈ os, IsPlain o.filename) ∨ os.length ≤ 1) (hnames : (os.map (·.filename)).Nodup)
    (h : storeAfter s working directory os = .ok store) :
    ∀ o ∈ os, store.read working (join directory o.filename) = .ok o.content := by
  rw [storeAfter, bind_eq_ok] at h
  obtain ⟨made, -, hwritten⟩ := h
  have hfiles : ∀ file ∈ files os, store.read working (join directory file.1) = .ok file.2 := by
    rcases hplain with hplain | hsingle
    · refine Store.read_of_writeEach hdirectory ?_ ?_ hwritten
      · intro file hfile
        obtain ⟨o, ho, rfl⟩ := mem_map.mp hfile
        exact hplain o ho
      · rw [files, map_map]
        exact hnames
    · refine Store.read_of_writeEach_single ?_ hwritten
      rw [files, length_map]
      exact hsingle
  exact fun o ho => hfiles (o.filename, o.content) (mem_map_of_mem ho)

theorem delivers_of_builtFrom (hl : p.generator.languages.BuiltFrom Catalog.ofBuiltin)
    (hkeys : p.selection.keys.Nodup)
    (hbase : p.generator.base = if p.input = standardInput then "" else stem p.input) (w : World) :
    Delivers p w where
  unread := by
    intro failure hread
    obtain ⟨r, hr, -⟩ := runIn_readInput p.input w
    rw [hr] at hread
    obtain rfl : r = .error failure := hread
    rw [generate, runIn_bind_error hr]
  unmade := by
    intro source failure hread hanswers
    obtain ⟨reported, hrun⟩ := runIn_generate hread
    rw [hanswers] at hrun
    exact ⟨reported, hrun⟩
  made := fun source os hanswers => Generator.answers_apart hl hkeys hanswers
  printed := by
    intro source os hread hanswers hdirectory
    obtain ⟨told, hrun⟩ := runIn_generate hread
    obtain ⟨reported, hprinted⟩ := runIn_deliver_printed hdirectory os { w with reported := told }
    rw [hanswers] at hrun
    exact ⟨reported, hrun.trans hprinted⟩
  written := by
    intro source os hread hanswers hdirectory store hstore
    obtain ⟨told, hrun⟩ := runIn_generate hread
    obtain ⟨reported, hwritten⟩ : ∃ reported, runIn { w with reported := told }
        (deliver host p os) = (.ok (), { w with store, reported }) :=
      runIn_deliver_written hdirectory hstore
    rw [hanswers] at hrun
    refine ⟨⟨reported, hrun.trans hwritten⟩, ?_⟩
    -- a file that could be read has a name with a last part, and the base name is made of that
    have hplain :=
      Generator.answers_isPlain hl hkeys (noSlash_base_of_read hbase hread) hanswers
    exact read_storeAfter hdirectory hplain (Generator.answers_apart hl hkeys hanswers).2 hstore
  refused := by
    intro source os hread hanswers hdirectory fault hfault
    obtain ⟨told, hrun⟩ := runIn_generate hread
    obtain ⟨failure, store, reported, hrefused⟩ : ∃ failure store reported,
        runIn { w with reported := told } (deliver host p os) =
          (.error failure, { w with store, reported }) :=
      runIn_deliver_refused hdirectory hfault
    rw [hanswers] at hrun
    exact ⟨failure, store, reported, hrun.trans hrefused⟩

/-- With the built-in targets no two outputs of a selection have one file, whatever the base name
and the language that is read; and every plan delivers all of its outputs, unless the source cannot
be read or one of them cannot be made, which fails the run before anything is printed or written. -/
theorem outputs_apart_and_all_or_none {s : Setup} (o : Options)
    (hlanguages : (Catalog.ofDraft Catalog.builtin >>= Languages.ofCatalog) = .ok s.languages) :
    (∀ base key source os, Generator.answers ⟨s.languages, base⟩ key source
        (select o s.configuration s.languages.writers.keys) = .ok os →
      (os.map (·.filename)).Nodup) ∧
    ∀ operands p, plan s o operands = .ok p → ∀ w, Delivers p w := by
  rw [Catalog.ofDraft_builtin] at hlanguages
  have hl : s.languages.BuiltFrom Catalog.ofBuiltin :=
    Languages.builtFrom_of_ofCatalog hlanguages
  have hkeys := nodup_select hl.nodup_keys o s.configuration
  refine ⟨fun base key source os hos => (Generator.answers_apart hl hkeys hos).2, ?_⟩
  intro operands p hplan w
  obtain ⟨hgenerator, hselection, hbase⟩ := plan_spec hplan
  rw [← hgenerator] at hl
  rw [← hselection] at hkeys
  exact delivers_of_builtFrom hl hkeys hbase w

def tourSource : List UInt8 := "enum Stop {}\n".toUTF8.toList

/-- A world with one schema in it. -/
def tourWorld : World := { store := ⟨[(["my Tour.hcl"], .file tourSource)]⟩ }

def tourSetup (languages : Languages) : Setup where
  configuration := {}
  catalog := Catalog.ofBuiltin
  languages := languages
  voice := {}

/-- A document and both dumps into a directory that is not there. -/
def tourOptions : Options where
  keys := ["toml"]
  outline := true
  copy := true
  directory := "out"

def tourPlan (languages : Languages) : Plan where
  generator := ⟨languages, "my Tour"⟩
  input := "my Tour.hcl"
  language := "hcl"
  selection := ⟨["toml"], true, true⟩
  directory := "out"
  voice := {}

theorem plan_tour (languages : Languages) :
    plan (tourSetup languages) tourOptions ["my Tour.hcl"] = .ok (tourPlan languages) := by
  cbv

theorem read_tour : (runIn tourWorld (readInput host "my Tour.hcl")).1 = .ok tourSource := by
  have hstore : tourWorld.store.read [] "my Tour.hcl" = .ok tourSource := by rfl
  have hread : runIn tourWorld (liftM (host.read "my Tour.hcl") : Task (StateM World) _) =
      (.ok (.ok tourSource), tourWorld) := by
    rw [← hstore]
    rfl
  rw [readInput, if_neg (by decide), runIn_bind_ok hread]
  rfl

def tourModule : Module := { source := "hcl", nodes := [.enum { name := "Stop" }] }

def tourOutline : List UInt8 := "module source=hcl\n  enum Stop\n".toUTF8.toList

def tourDocument : String :=
  "version = '1'\nsource = 'hcl'\n\n[[items]]\nkind = 'enum'\nname = 'Stop'\n"

theorem write_tour : Document.Format.toml.write tourModule = tourDocument := by
  rw [Document.Format.write, Document.ofModule_eq]
  cbv

def tourOutputs : List Output :=
  [{ target := "src", filename := "my Tour.src.hcl", content := tourSource },
    { target := "ast", filename := "my Tour.ast", content := tourOutline },
    { target := "toml", filename := "my_tour.toml", content := tourDocument.toUTF8.toList }]

theorem answers_tour {g : Generator} {t : Target} (hbase : g.base = "my Tour")
    (hreader : g.languages.readers.lookup "hcl" = .ok ⟨"hcl", Hcl.readModule⟩)
    (hwriter : g.languages.writers.lookup "toml" = .ok (Document.Format.toml.writer t))
    (ht : Catalog.ofBuiltin.find? "toml" = some t) :
    g.answers "hcl" tourSource ⟨["toml"], true, true⟩ = .ok tourOutputs := by
  have hmodule : Hcl.readModule tourSource = .ok tourModule := by cbv
  have hread : g.read "hcl" tourSource = .ok tourModule := by
    rw [Generator.read, hreader]
    change (Except.mapError Failure.syntaxFault (Hcl.readModule tourSource) >>= _) = _
    rw [hmodule]
    cbv
  have hname : g.baseName = "my Tour" := by
    rw [Generator.baseName, hbase]
    rfl
  have houtline : (g.outline "hcl" tourSource).outcome =
      .ok { target := "ast", filename := "my Tour.ast", content := tourOutline } := by
    rw [Generator.outline_yields.outcome_eq, hread, hname]
    cbv
  -- The target is only known as a row of the catalog, so the row is looked at there.
  have htarget : t.flatten = false ∧ t.lift = false ∧ t.filename "my Tour" = "my_tour.toml" := by
    have hall : (Catalog.ofBuiltin.find? "toml").all (fun t => !t.flatten && !t.lift &&
      t.filename "my Tour" == "my_tour.toml") = true := by decide +kernel
    simpa [ht, and_assoc] using hall
  have hnormal : normalize t tourModule = (tourModule, {}) := by
    simp only [normalize, htarget]
    rfl
  have hemit : (g.emit "hcl" tourSource "toml").outcome =
      .ok ⟨"toml", "my_tour.toml", tourDocument.toUTF8.toList, {}⟩ := by
    rw [(Generator.emit_yields _).outcome_eq, Generator.emission, hwriter, hread, ← write_tour,
      ← htarget.2.2, hname]
    simp only [bind, Except.bind, Document.Format.writer, hnormal]
    rfl
  change [Request.copy, Request.outline, Request.language "toml"].mapM
    (g.answer "hcl" tourSource) = _
  rw [mapM_cons, mapM_cons, mapM_cons, Generator.answer, Generator.answer, Generator.answer,
    houtline, hemit, Generator.copy, hname]
  rfl

def tourFiles : Store :=
  ⟨[(["my Tour.hcl"], .file tourSource), (["out"], .directory),
    (["out", "my Tour.src.hcl"], .file tourSource), (["out", "my Tour.ast"], .file tourOutline),
    (["out", "my_tour.toml"], .file tourDocument.toUTF8.toList)]⟩

theorem storeAfter_tour :
    storeAfter tourWorld.store tourWorld.directory "out" tourOutputs = .ok tourFiles := by
  decide +kernel

theorem tour_dumped : ∃ languages reported,
    (Catalog.ofDraft Catalog.builtin >>= Languages.ofCatalog) = .ok languages ∧
      plan (tourSetup languages) tourOptions ["my Tour.hcl"] = .ok (tourPlan languages) ∧
        runIn tourWorld (generate World.host (tourPlan languages)) =
          (.ok (), { tourWorld with store := tourFiles, reported }) ∧
            ∀ o ∈ tourOutputs, tourFiles.read [] (join "out" o.filename) = .ok o.content := by
  obtain ⟨languages, t, hlanguages, hreader, hwriter, ht⟩ : ∃ languages t,
      (Catalog.ofDraft Catalog.builtin >>= Languages.ofCatalog) = .ok languages ∧
        languages.readers.lookup "hcl" = .ok ⟨"hcl", Hcl.readModule⟩ ∧
          languages.writers.lookup "toml" = .ok (Document.Format.toml.writer t) ∧
            Catalog.ofBuiltin.find? "toml" = some t := by
    rw [Catalog.ofDraft_builtin]
    exact ⟨_, _, rfl, rfl, rfl, rfl⟩
  have hdelivers : Delivers (tourPlan languages) tourWorld :=
    (outputs_apart_and_all_or_none (s := tourSetup languages) tourOptions hlanguages).2 _ _
      (plan_tour languages) tourWorld
  have hdirectory : (tourPlan languages).directory ≠ "" := by simp [tourPlan]
  obtain ⟨⟨reported, hrun⟩, hfiles⟩ := hdelivers.written tourSource tourOutputs read_tour
    (answers_tour rfl hreader hwriter ht) hdirectory tourFiles storeAfter_tour
  exact ⟨languages, reported, hlanguages, plan_tour languages, hrun, hfiles⟩

end Schemata.Command
