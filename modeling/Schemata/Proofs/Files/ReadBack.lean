import Schemata.Files.Store
import Schemata.Proofs.Document.Acceptance

/-!
Files that are written one after the other into a directory. A name leads through directories
only, and a written file is none, so writing takes nothing away from where other names lead. Plain
names in one directory lead to places that end in them: when no two of them are equal, every file
reads back as it was written.
-/

namespace Schemata.Files

open List

open Document (bind_eq_ok)

variable {directory : String} {files : List (String × List UInt8)}

/-! ### Plain names -/

/-- A name of one part that is neither a directory itself nor the one above it. -/
structure IsPlain (name : String) : Prop where
  noSlash : '/' ∉ name.toList
  moreThanDots : ∃ c ∈ name.toList, c ≠ '.'

namespace IsPlain

variable {name : String}

theorem not_blank (h : IsPlain name) : ¬(name = "" ∨ name = ".") := by
  obtain ⟨c, hc, hdot⟩ := h.moreThanDots
  rintro (rfl | rfl)
  · simp at hc
  · exact hdot (by simpa using hc)

theorem ne_above (h : IsPlain name) : name ≠ ".." := by
  obtain ⟨c, hc, hdot⟩ := h.moreThanDots
  rintro rfl
  exact hdot (by simpa using hc)

end IsPlain

theorem parts_of_noSlash {name : String} (h : '/' ∉ name.toList) : parts name = [name] := by
  rw [parts, splitOn_eq_singleton h, map_singleton, String.ofList_toList]

theorem parts_append_slash (path : String) {name : String} (h : '/' ∉ name.toList) :
    parts (path ++ "/" ++ name) = parts path ++ [name] := by
  have hchars : (path ++ "/" ++ name).toList = path.toList ++ '/' :: name.toList := by simp
  rw [← parts_of_noSlash h, parts, hchars, splitOn_append_cons_self, map_append]
  rfl

theorem not_mem_of_mem_splitOn {c : Char} {text chars : List Char} (h : chars ∈ text.splitOn c) :
    c ∉ chars := by
  induction text generalizing chars with
  | nil =>
    rw [splitOn_nil, mem_singleton] at h
    rw [h]
    exact not_mem_nil
  | cons x rest ih =>
    rw [splitOn_cons_eq_if_modifyHead] at h
    split at h
    · rcases mem_cons.mp h with rfl | h
      · exact not_mem_nil
      · exact ih h
    case isFalse hx =>
      obtain ⟨first, others, hsplit⟩ := exists_cons_of_ne_nil (splitOn_ne_nil c rest)
      rw [hsplit] at h ih
      rw [modifyHead_cons] at h
      rcases mem_cons.mp h with rfl | h
      · have hfirst : c ∉ first := ih mem_cons_self
        have hne : c ≠ x := fun heq => hx (by simp [heq])
        exact not_mem_cons_of_ne_of_not_mem hne hfirst
      · exact ih (mem_cons_of_mem _ h)

theorem noSlash_of_mem_parts {path part : String} (h : part ∈ parts path) : '/' ∉ part.toList := by
  obtain ⟨chars, hchars, rfl⟩ := mem_map.mp h
  rw [String.toList_ofList]
  exact not_mem_of_mem_splitOn hchars

theorem pushPart_of_isPlain {name : String} (h : IsPlain name) (absolute : Bool)
    (before : List String) : pushPart absolute before name = name :: before := by
  unfold pushPart
  rw [if_neg h.not_blank, if_neg h.ne_above]

/-- Cleaning keeps a plain name at the end of what it stands behind. -/
theorem parts_clean_append {path name : String} (h : IsPlain name) :
    ∃ front, parts (clean (path ++ "/" ++ name)) = front ++ [name] := by
  have hkept : ∀ absolute, ((parts (path ++ "/" ++ name)).foldl (pushPart absolute) []).reverse =
      ((parts path).foldl (pushPart absolute) []).reverse ++ [name] := by
    intro absolute
    rw [parts_append_slash path h.noSlash, foldl_append, foldl_cons, foldl_nil,
      pushPart_of_isPlain h, reverse_cons]
  have hname : name.isEmpty = false := by
    simpa using fun hempty => h.not_blank (.inl hempty)
  rw [clean, hkept]
  generalize isAbsolute (path ++ "/" ++ name) = absolute
  generalize ((parts path).foldl (pushPart absolute) []).reverse = before
  by_cases hbefore : before = []
  · subst hbefore
    cases absolute
    · exact ⟨[], by simp [hname, parts_of_noSlash h.noSlash]⟩
    · exact ⟨parts "", by simpa using parts_append_slash "" h.noSlash⟩
  -- parts stand before the name, and a slash between them and it
  · rw [String.intercalate_append_of_ne_nil hbefore (by simp), String.intercalate_singleton]
    generalize "/".intercalate before = text
    cases absolute
    · exact ⟨parts text, by simp [parts_append_slash text h.noSlash]⟩
    · refine ⟨parts ("/" ++ text), ?_⟩
      have hassoc : "/" ++ (text ++ "/" ++ name) = "/" ++ text ++ "/" ++ name := by
        simp [String.append_assoc]
      rw [if_pos rfl, hassoc, parts_append_slash _ h.noSlash]

theorem parts_join {name : String} (hdirectory : directory ≠ "") (h : IsPlain name) :
    ∃ front, parts (join directory name) = front ++ [name] := by
  have hfull : directory.isEmpty = false := by simpa using hdirectory
  rw [join, hfull]
  exact parts_clean_append h

namespace Store

variable {s t : Store} {working place : List String} {path name : String}
  {content : List UInt8}

/-! ### Places of a store -/

theorem nodes_put (s : Store) (place : List String) (node : Node) :
    (s.put place node).nodes =
      (s.nodes.filter fun entry => entry.1 != place) ++ [(place, node)] := rfl

@[simp] theorem find?_put_self (s : Store) (place : List String) (node : Node) :
    (s.put place node).find? place = some node := by
  have hnone : (s.nodes.filter fun entry => entry.1 != place).lookup place = none := by
    rw [lookup_eq_none_iff]
    rintro ⟨p, n⟩ hmem
    have hne : p ≠ place := by simpa using (mem_filter.mp hmem).2
    simpa using hne.symm
  rw [find?, nodes_put, lookup_append, hnone]
  simp

theorem lookup_put {other : List String} (node : Node) (hother : other ≠ place) :
    (s.put place node).nodes.lookup other = s.nodes.lookup other := by
  have hbeq : (other == place) = false := by simpa using hother
  have hfilter : ∀ nodes : List (List String × Node),
      (nodes.filter fun entry => entry.1 != place).lookup other = nodes.lookup other := by
    intro nodes
    induction nodes with
    | nil => rfl
    | cons entry rest ih =>
      obtain ⟨p, n⟩ := entry
      by_cases hp : p = place
      · simp [hp, lookup_cons, hbeq, ih]
      · simp [hp, lookup_cons, ih]
  simp [nodes_put, lookup_append, hfilter, lookup_cons, hbeq]

/-- What is at other places stays there. -/
theorem find?_put_of_ne {other : List String} {node found : Node} (hother : other ≠ place)
    (h : s.find? other = some found) : (s.put place node).find? other = some found := by
  rw [find?, lookup_put node hother]
  rw [find?] at h
  cases hlookup : s.nodes.lookup other with
  | some n => rwa [hlookup] at h
  | none =>
    rw [hlookup] at h
    -- the directory is there because of what is in it, and that may be what is replaced
    have hinside : (other.isEmpty || s.nodes.any fun entry => other.isPrefixOf entry.1) = true ∧
        Node.directory = found := by simpa using h
    obtain ⟨hinside, rfl⟩ := hinside
    refine if_pos ?_
    rw [Bool.or_eq_true, any_eq_true] at hinside ⊢
    rcases hinside with hempty | ⟨⟨p, n⟩, hmem, hp⟩
    · exact .inl hempty
    · right
      rw [nodes_put]
      by_cases heq : p = place
      · exact ⟨(place, node), mem_append_right _ mem_cons_self, heq ▸ hp⟩
      · refine ⟨(p, n), mem_append_left _ (mem_filter.mpr ⟨hmem, ?_⟩), hp⟩
        simpa using heq

/-! ### Where names lead -/

theorem step_iff {part : String} {next : List String} :
    s.step place part = .ok next ↔ s.find? place = some .directory ∧
      next = (if part = "" ∨ part = "." then place
        else if part = ".." then place.dropLast else place ++ [part]) := by
  rw [step]
  cases s.find? place with
  | none => simp
  | some node =>
    cases node with
    | file content => simp
    | directory =>
      simp only [true_and]
      split
      · exact ⟨fun h => (Except.ok.inj h).symm, fun h => h ▸ rfl⟩
      · split <;> exact ⟨fun h => (Except.ok.inj h).symm, fun h => h ▸ rfl⟩

/-- Every directory of one store is a directory of the other. -/
def Within (s t : Store) : Prop :=
  ∀ place, s.find? place = some .directory → t.find? place = some .directory

theorem Within.locate (h : s.Within t) (hlocate : s.locate working path = .ok place) :
    t.locate working path = .ok place := by
  have hsteps : ∀ (ps : List String) (start : List String),
      ps.foldlM s.step start = .ok place → ps.foldlM t.step start = .ok place := by
    intro ps
    induction ps with
    | nil => exact fun start hstart => hstart
    | cons part rest ih =>
      intro start hstart
      rw [foldlM_cons, bind_eq_ok] at hstart ⊢
      obtain ⟨next, hstep, hrest⟩ := hstart
      have hnext := step_iff.mp hstep
      exact ⟨next, step_iff.mpr ⟨h start hnext.1, hnext.2⟩, ih next hrest⟩
  rw [Store.locate] at hlocate ⊢
  by_cases hpath : path.isEmpty
  · simp [hpath] at hlocate
  · rw [if_neg hpath] at hlocate ⊢
    exact hsteps _ _ hlocate

/-- A name that ends in a plain part leads to a place that ends in it. -/
theorem locate_of_parts {front : List String} (hname : IsPlain name)
    (hparts : parts path = front ++ [name]) (hlocate : s.locate working path = .ok place) :
    ∃ directory, place = directory ++ [name] := by
  rw [locate, hparts] at hlocate
  split at hlocate
  · simp at hlocate
  · rw [foldlM_append, bind_eq_ok] at hlocate
    obtain ⟨directory, -, hlast⟩ := hlocate
    simp only [foldlM_cons, foldlM_nil, bind_pure] at hlast
    refine ⟨directory, ?_⟩
    rw [(step_iff.mp hlast).2, if_neg hname.not_blank, if_neg hname.ne_above]

/-! ### Writing and reading -/

theorem write_iff : s.write working path content = .ok t ↔
    ∃ place, s.locate working path = .ok place ∧ s.find? place ≠ some .directory ∧
      t = s.put place (.file content) := by
  rw [write]
  cases s.locate working path with
  | error reason => simp
  | ok place =>
    simp only [Except.ok.injEq, exists_eq_left']
    split
    case isTrue hfound => simp [hfound]
    case isFalse hfound => exact ⟨fun h => ⟨hfound, (Except.ok.inj h).symm⟩, fun h => h.2 ▸ rfl⟩

theorem read_iff : s.read working path = .ok content ↔
    ∃ place, s.locate working path = .ok place ∧ s.find? place = some (.file content) := by
  rw [read, look]
  cases s.locate working path with
  | error reason => simp [bind, Except.bind]
  | ok place =>
    simp only [bind, Except.bind, Except.ok.injEq, exists_eq_left']
    cases s.find? place with
    | none => simp [throw, throwThe, MonadExceptOf.throw]
    | some node => cases node <;> simp [pure, Except.pure]

theorem within_put (hplace : s.find? place ≠ some .directory) :
    s.Within (s.put place (.file content)) := by
  intro other hother
  have hne : other ≠ place := fun heq => hplace (heq ▸ hother)
  exact find?_put_of_ne hne hother

theorem read_write (h : s.write working path content = .ok t) :
    t.read working path = .ok content := by
  obtain ⟨place, hlocate, hplace, rfl⟩ := write_iff.mp h
  exact read_iff.mpr ⟨place, (within_put hplace).locate hlocate, find?_put_self _ _ _⟩

/-- Two names in one directory. -/
theorem read_write_of_ne {first second : String} {before : List UInt8} (hdirectory : directory ≠ "")
    (hfirst : IsPlain first) (hsecond : IsPlain second) (hne : first ≠ second)
    (hread : s.read working (join directory first) = .ok before)
    (hwrite : s.write working (join directory second) content = .ok t) :
    t.read working (join directory first) = .ok before := by
  obtain ⟨place, hlocate, hfile⟩ := read_iff.mp hread
  obtain ⟨other, hother, hnone, rfl⟩ := write_iff.mp hwrite
  -- both places end in their names
  have happart : place ≠ other := by
    obtain ⟨_, hparts⟩ := parts_join hdirectory hfirst
    obtain ⟨_, hparts'⟩ := parts_join hdirectory hsecond
    obtain ⟨_, rfl⟩ := locate_of_parts hfirst hparts hlocate
    obtain ⟨_, rfl⟩ := locate_of_parts hsecond hparts' hother
    exact fun heq => hne (by simpa using congrArg List.getLast? heq)
  exact read_iff.mpr ⟨place, (within_put hnone).locate hlocate, find?_put_of_ne happart hfile⟩

/-! ### Several files -/

/-- Writes files into a directory that is there, each name with its content. -/
def writeEach (s : Store) (working : List String) (directory : String)
    (files : List (String × List UInt8)) : Except Fault Store :=
  files.foldlM (fun s file => s.write working (join directory file.1) file.2) s

theorem writeEach_cons_iff {file : String × List UInt8} :
    s.writeEach working directory (file :: files) = .ok t ↔
      ∃ next, s.write working (join directory file.1) file.2 = .ok next ∧
        next.writeEach working directory files = .ok t := by
  rw [writeEach, foldlM_cons, bind_eq_ok]
  rfl

/-- Files of other names do not touch a file. -/
theorem read_writeEach {name : String} {before : List UInt8} (hdirectory : directory ≠ "")
    (hname : IsPlain name) (hplain : ∀ file ∈ files, IsPlain file.1)
    (hother : name ∉ files.map (·.1)) (hread : s.read working (join directory name) = .ok before)
    (hwrite : s.writeEach working directory files = .ok t) :
    t.read working (join directory name) = .ok before := by
  induction files generalizing s with
  | nil => exact Except.ok.inj hwrite ▸ hread
  | cons file files ih =>
    obtain ⟨next, hfirst, hrest⟩ := writeEach_cons_iff.mp hwrite
    rw [map_cons, mem_cons, not_or] at hother
    rw [forall_mem_cons] at hplain
    have hnext := read_write_of_ne hdirectory hname hplain.1 hother.1 hread hfirst
    exact ih hplain.2 hother.2 hnext hrest

/-- Files of plain names that differ read back as they were written. -/
theorem read_of_writeEach (hdirectory : directory ≠ "") (hplain : ∀ file ∈ files, IsPlain file.1)
    (hnames : (files.map (·.1)).Nodup) (hwrite : s.writeEach working directory files = .ok t) :
    ∀ file ∈ files, t.read working (join directory file.1) = .ok file.2 := by
  induction files generalizing s with
  | nil => exact fun file hfile => absurd hfile not_mem_nil
  | cons file files ih =>
    obtain ⟨next, hfirst, hrest⟩ := writeEach_cons_iff.mp hwrite
    rw [forall_mem_cons] at hplain ⊢
    rw [map_cons, nodup_cons] at hnames
    refine ⟨?_, ih hplain.2 hnames.2 hrest⟩
    exact read_writeEach hdirectory hplain.1 hplain.2 hnames.1 (read_write hfirst) hrest

/-- A file that is written alone reads back whatever it is called. -/
theorem read_of_writeEach_single (hsingle : files.length ≤ 1)
    (hwrite : s.writeEach working directory files = .ok t) :
    ∀ file ∈ files, t.read working (join directory file.1) = .ok file.2 := by
  intro file hfile
  cases files with
  | nil => exact absurd hfile not_mem_nil
  | cons first rest =>
    obtain rfl : rest = [] := by simpa using hsingle
    obtain rfl := mem_singleton.mp hfile
    obtain ⟨next, hfirst, hrest⟩ := writeEach_cons_iff.mp hwrite
    obtain rfl := Except.ok.inj hrest
    exact read_write hfirst

/-! ### Names of files that can be read -/

/-- A name of slashes alone leads to a directory. -/
theorem find?_of_blank_parts {ps start : List String} (hps : ps ≠ [])
    (hblank : ∀ part ∈ ps, part = "") (h : ps.foldlM s.step start = .ok place) :
    s.find? place = some .directory := by
  -- an empty part leads nowhere else, but only from a directory
  have hstart : ∀ ps : List String, (∀ part ∈ ps, part = "") →
      ps.foldlM s.step start = .ok place → start = place := by
    intro ps
    induction ps with
    | nil => exact fun _ hfold => Except.ok.inj hfold
    | cons part rest ih =>
      intro hblank hfold
      rw [forall_mem_cons] at hblank
      rw [foldlM_cons, bind_eq_ok] at hfold
      obtain ⟨next, hstep, hrest⟩ := hfold
      have hnext : next = start := by
        rw [(step_iff.mp hstep).2, if_pos (.inl hblank.1)]
      exact ih hblank.2 (hnext ▸ hrest)
  rw [← hstart ps hblank h]
  obtain ⟨part, rest, rfl⟩ := exists_cons_of_ne_nil hps
  rw [foldlM_cons, bind_eq_ok] at h
  obtain ⟨next, hstep, -⟩ := h
  exact (step_iff.mp hstep).1

theorem exists_part_of_read (h : s.read working path = .ok content) :
    ∃ part ∈ parts path, part ≠ "" := by
  by_contra hblank
  push Not at hblank
  obtain ⟨place, hlocate, hfile⟩ := read_iff.mp h
  have hparts : parts path ≠ [] := by
    rw [parts, Ne, map_eq_nil_iff]
    exact splitOn_ne_nil '/' path.toList
  rw [locate] at hlocate
  split at hlocate
  · simp at hlocate
  · have hdirectory := find?_of_blank_parts hparts hblank hlocate
    simp [hdirectory] at hfile

end Store

theorem noSlash_stem {path : String} (h : ∃ part ∈ parts path, part ≠ "") :
    '/' ∉ (stem path).toList := by
  have hbase : '/' ∉ (base path).toList := by
    rw [base]
    split
    · decide
    · split
      case h_1 hnone =>
        obtain ⟨part, hpart, hne⟩ := h
        have hempty := dropWhile_eq_nil_iff.mp hnone part (mem_reverse.mpr hpart)
        exact absurd (by simpa using hempty) hne
      case h_2 part others hsome =>
        have hpart : part ∈ (parts path).reverse :=
          (dropWhile_suffix _).mem (hsome ▸ mem_cons_self)
        exact noSlash_of_mem_parts (mem_reverse.mp hpart)
  rw [stem]
  split
  · rw [String.toList_ofList]
    exact fun hmem => hbase (mem_of_mem_take hmem)
  · exact hbase

end Schemata.Files
