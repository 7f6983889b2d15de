import Schemata.Language
import Schemata.Proofs.Catalog.Builtin
import Schemata.Proofs.Document.Acceptance
import Schemata.Proofs.Naming.Words

/-!
The names of the files that languages are written to. A base name is split into words and put
together again in lower case, which leaves no dot in it, so that the only dot of a file name is
the one before its extension. The built-in targets have their keys for extensions.
-/

namespace Schemata

open Text Naming List
open Document (bind_eq_ok pure_eq_ok)

variable {mark : Char} {key : String} {t : Target} {α : Type}

/-! ### Case -/

namespace Text

theorem le_toNat_toLower {c : Char} (h : c.toLower ≠ c) : 0x41 ≤ c.toLower.toNat := by
  rw [Char.toLower] at h ⊢
  split
  case isTrue hletter =>
    have hbounds : 65 ≤ c.val.toNat ∧ c.val.toNat ≤ 90 := hletter
    have hsum : (c.val + ('a'.val - 'A'.val)).toNat = c.val.toNat + 32 := by
      rw [UInt32.toNat_add, show ('a'.val - 'A'.val).toNat = 32 from rfl]
      omega
    change 0x41 ≤ (c.val + ('a'.val - 'A'.val)).toNat
    omega
  case isFalse hletter => exact absurd (dif_neg hletter) h

theorem le_toNat_shifted {c : Char} (h : shifted lowerShifts c ≠ c) :
    shifted lowerShifts c = Char.ofNat 0 ∨ 0x41 ≤ (shifted lowerShifts c).toNat := by
  have htable : ∀ r ∈ lowerShifts, (0x41 : Int) ≤ r.1 + r.2.2.2 := by decide +kernel
  rw [shifted] at h ⊢
  split
  case h_1 r hfind =>
    have hshift := htable r (mem_of_find?_eq_some hfind)
    have hstride := List.find?_some hfind
    have hstart : r.1 ≤ c.toNat := by
      simp only [inStride, Bool.and_eq_true, decide_eq_true_eq] at hstride
      exact hstride.1.1
    -- a shift that leads out of the characters gives the first of them
    by_cases hvalid : ((c.toNat : Int) + r.2.2.2).toNat.isValidChar
    · right
      rw [Char.toNat_ofNat, if_pos hvalid]
      omega
    · left
      rw [Char.ofNat, dif_neg hvalid]
      rfl
  case h_2 hfind => simp [hfind] at h

/-- Lower case makes no marks: what it moves are letters, and it moves them to letters. -/
theorem eq_of_toLower_eq {c : Char} (hmark : 0 < mark.toNat ∧ mark.toNat < 0x41)
    (h : toLower c = mark) : c = mark := by
  by_contra hne
  rw [toLower] at h
  split at h
  · have hle := le_toNat_toLower (h ▸ Ne.symm hne)
    rw [h] at hle
    omega
  · have hcases := le_toNat_shifted (h ▸ Ne.symm hne)
    rw [h] at hcases
    rcases hcases with rfl | hle
    · exact absurd hmark.1 (by decide)
    · omega

theorem mem_of_mem_lower {s : String} (hmark : 0 < mark.toNat ∧ mark.toNat < 0x41)
    (h : mark ∈ (lower s).toList) : mark ∈ s.toList := by
  rw [lower, String.toList_map] at h
  obtain ⟨c, hc, hlower⟩ := mem_map.mp h
  exact eq_of_toLower_eq hmark hlower ▸ hc

end Text

/-! ### Words -/

namespace Naming

/-- Words are made of what was read, separators left out. -/
theorem mem_of_mem_splitFrom {current : List Char} {previous : Option Char} {s w : List Char}
    {c : Char} (hw : w ∈ splitFrom current previous s) (hc : c ∈ w) :
    c ∈ current ∨ c ∈ s ∧ isSeparator c = false := by
  have hmem := mem_flatten_of_mem hw hc
  rw [flatten_splitFrom] at hmem
  simpa using hmem

theorem mem_of_mem_words {s w : String} {c : Char} (hw : w ∈ words s) (hc : c ∈ w.toList) :
    c ∈ s.toList ∧ isSeparator c = false := by
  obtain ⟨chars, hchars, rfl⟩ := mem_map.mp hw
  rw [String.toList_ofList] at hc
  exact (mem_of_mem_splitFrom hchars hc).resolve_left not_mem_nil

theorem mem_of_mem_joined {separator : String} {texts : List String} {c : Char}
    (h : c ∈ (separator.intercalate texts).toList) :
    c ∈ separator.toList ∨ ∃ text ∈ texts, c ∈ text.toList := by
  rw [String.toList_intercalate] at h
  simpa using mem_of_mem_intercalate h

theorem mem_of_mem_lowerJoined {separator s : String} (hmark : 0 < mark.toNat ∧ mark.toNat < 0x41)
    (h : mark ∈ (lowerJoined separator s).toList) :
    mark ∈ separator.toList ∨ mark ∈ s.toList ∧ isSeparator mark = false := by
  refine (mem_of_mem_joined h).imp_right fun ⟨text, htext, hc⟩ => ?_
  obtain ⟨w, hw, rfl⟩ := mem_map.mp htext
  exact mem_of_mem_words hw (mem_of_mem_lower hmark hc)

end Naming

/-! ### Targets -/

/-- A target that names its files by its key, with nothing in the key that has a meaning in the
name of a file. -/
structure Target.NamesByKey (key : String) (t : Target) : Prop where
  fileExt : t.fileExt = key
  style : t.naming.file = .snake ∨ t.naming.file = .kebab
  key_ne : key ≠ ""
  noDot : '.' ∉ key.toList
  noSlash : '/' ∉ key.toList
  /-- Outlines have an extension of their own. -/
  ne_outline : key ≠ "ast"

instance (key : String) (t : Target) : Decidable (t.NamesByKey key) :=
  decidable_of_iff
    (t.fileExt = key ∧ (t.naming.file = .snake ∨ t.naming.file = .kebab) ∧ key ≠ "" ∧
      '.' ∉ key.toList ∧ '/' ∉ key.toList ∧ key ≠ "ast")
    ⟨fun ⟨h₁, h₂, h₃, h₄, h₅, h₆⟩ => ⟨h₁, h₂, h₃, h₄, h₅, h₆⟩,
      fun ⟨h₁, h₂, h₃, h₄, h₅, h₆⟩ => ⟨h₁, h₂, h₃, h₄, h₅, h₆⟩⟩

/-- The file of a base name has one dot, and a slash only where the base name has one. -/
theorem Target.NamesByKey.filename_eq (h : t.NamesByKey key) (base : String) :
    ∃ stem, '.' ∉ stem.toList ∧ ('/' ∈ stem.toList → '/' ∈ base.toList) ∧
      t.filename base = stem ++ "." ++ key := by
  obtain ⟨separator, hseparator, hdot, hslash⟩ :
      ∃ separator : String, (∀ s, t.naming.file.apply s = lowerJoined separator s) ∧
        '.' ∉ separator.toList ∧ '/' ∉ separator.toList := by
    rcases h.style with hstyle | hstyle <;> rw [hstyle]
    · exact ⟨"_", fun _ => rfl, by decide, by decide⟩
    · exact ⟨"-", fun _ => rfl, by decide, by decide⟩
  have hkey : t.fileExt.isEmpty = false := by simpa [h.fileExt] using h.key_ne
  refine ⟨lowerJoined separator (if base.isEmpty then "schema" else base), ?_, ?_, ?_⟩
  · intro hmem
    rcases mem_of_mem_lowerJoined (by decide) hmem with hmem | hmem
    · exact hdot hmem
    · exact absurd hmem.2 (by decide)
  · intro hmem
    have hbase := ((mem_of_mem_lowerJoined (by decide) hmem).resolve_left hslash).1
    split at hbase
    · exact absurd hbase (by decide)
    · exact hbase
  · rw [Target.filename, hkey, hseparator, h.fileExt]
    rfl

/-- What stands behind a dot of such a name is the key. -/
theorem Target.NamesByKey.key_of_filename {base front back : String} (h : t.NamesByKey key)
    (heq : t.filename base = front ++ "." ++ back) : back = key := by
  obtain ⟨stem, hstem, -, hname⟩ := h.filename_eq base
  have hchars : stem.toList ++ '.' :: key.toList = front.toList ++ '.' :: back.toList := by
    simpa using congrArg String.toList (hname.symm.trans heq)
  -- there is one dot on the left, so both sides are cut at it
  have hkey := ((append_cons_inj_of_notMem hstem h.noDot).mp hchars).2.2
  exact (String.toList_inj.mp hkey).symm

theorem builtin_namesByKey (h : Catalog.ofBuiltin.find? key = some t) : t.NamesByKey key := by
  have hall : ∀ entry ∈ Catalog.ofBuiltin.targets, entry.2.NamesByKey entry.1 := by
    decide
  obtain ⟨before, behind, htargets, -⟩ := lookup_eq_some_iff.mp h
  exact hall (key, t) (by simp [htargets])

/-! ### Languages -/

theorem Registry.register_iff {r r' : Registry α} {a : α} :
    r.register key (some a) = .ok r' ↔
      key ≠ "" ∧ r.find? key = none ∧ r' = { r with entries := r.entries ++ [(key, a)] } := by
  rw [register]
  split
  case isTrue hkey => simp [hkey]
  case isFalse hkey =>
    by_cases hfind : (r.find? key).isSome
    · simp [has, hfind, Option.isSome_iff_ne_none.mp hfind]
    · simp [has, hkey, Option.not_isSome_iff_eq_none.mp hfind, eq_comm]

theorem Registry.mem_entries_of_lookup {r : Registry α} {a : α} (h : r.lookup key = .ok a) :
    (key, a) ∈ r.entries := by
  rw [lookup] at h
  split at h
  case h_1 found hfind =>
    obtain rfl := Except.ok.inj h
    obtain ⟨before, behind, hentries, -⟩ := lookup_eq_some_iff.mp hfind
    simp [hentries]
  case h_2 => simp at h

theorem Registry.mem_keys_of_lookup {r : Registry α} {a : α} (h : r.lookup key = .ok a) :
    key ∈ r.keys := by
  rw [keys, mem_mergeSort]
  exact mem_map_of_mem (mem_entries_of_lookup h)

namespace Languages

/-- Languages under distinct keys, each written for the target a catalog has under its key, and
none read under a key that leads elsewhere. -/
structure BuiltFrom (c : Catalog) (l : Languages) : Prop where
  targets : ∀ entry ∈ l.writers.entries, c.find? entry.1 = some entry.2.target
  distinct : (l.writers.entries.map (·.1)).Nodup
  reading : ∀ entry ∈ l.readers.entries, '/' ∉ entry.1.toList

variable {c : Catalog} {l l' : Languages}

theorem BuiltFrom.addReader {r : Reader} (hl : l.BuiltFrom c) (hkey : '/' ∉ r.key.toList)
    (h : l.addReader r = .ok l') : l'.BuiltFrom c := by
  rw [Languages.addReader, bind_eq_ok] at h
  obtain ⟨readers, hregister, h⟩ := h
  obtain ⟨-, -, rfl⟩ := Registry.register_iff.mp hregister
  obtain rfl := pure_eq_ok.mp h
  refine ⟨hl.targets, hl.distinct, ?_⟩
  rw [forall_mem_append, forall_mem_singleton]
  exact ⟨hl.reading, hkey⟩

theorem BuiltFrom.addWriter {build : Target → Writer} (hl : l.BuiltFrom c)
    (hbuild : ∀ t, (build t).target = t) (h : l.addWriter c key build = .ok l') :
    l'.BuiltFrom c := by
  rw [Languages.addWriter, bind_eq_ok] at h
  obtain ⟨t, htarget, h⟩ := h
  obtain ⟨writers, hregister, h⟩ := bind_eq_ok.mp h
  have hfind : c.find? key = some t := by
    rw [targetOf] at htarget
    split at htarget
    case h_1 found hfound => rw [hfound, Except.ok.inj htarget]
    case h_2 => simp at htarget
  obtain ⟨-, hnone, rfl⟩ := Registry.register_iff.mp hregister
  obtain rfl := pure_eq_ok.mp h
  refine ⟨?_, ?_, hl.reading⟩
  · rw [forall_mem_append, forall_mem_singleton]
    exact ⟨hl.targets, by rw [hbuild, hfind]⟩
  · rw [map_append, map_singleton, nodup_append]
    refine ⟨hl.distinct, nodup_singleton key, ?_⟩
    intro other hother k hk heq
    obtain ⟨entry, hentry, rfl⟩ := mem_map.mp hother
    have hkey := lookup_eq_none_iff.mp hnone entry hentry
    rw [mem_singleton] at hk
    simp [heq, hk] at hkey

theorem foldlM_keeps {β ε : Type} {f : β → α → Except ε β} {holds : β → Prop} {xs : List α}
    (hstep : ∀ x ∈ xs, ∀ b b', holds b → f b x = .ok b' → holds b') {b b' : β} (hb : holds b)
    (h : xs.foldlM f b = .ok b') : holds b' := by
  induction xs generalizing b with
  | nil => exact Except.ok.inj h ▸ hb
  | cons x xs ih =>
    rw [foldlM_cons, bind_eq_ok] at h
    rw [forall_mem_cons] at hstep
    obtain ⟨next, hnext, h⟩ := h
    exact ih hstep.2 (hstep.1 b next hb hnext) h

theorem builtFrom_of_ofCatalog (h : ofCatalog c = .ok l) : l.BuiltFrom c := by
  have hempty : Languages.BuiltFrom c {} := ⟨by simp, by simp, by simp⟩
  have hformats : ∀ f ∈ Document.Format.all, '/' ∉ f.key.toList := by decide
  have hreaders : ∀ r ∈ sourceReaders, '/' ∉ r.key.toList := by decide
  have hwriters : ∀ entry ∈ sourceWriters, ∀ t, (entry.2 t).target = t := by
    simp only [sourceWriters, forall_mem_cons, not_mem_nil, false_imp_iff, implies_true, and_true]
    exact ⟨fun _ => rfl, fun _ => rfl, fun _ => rfl, fun _ => rfl, fun _ => rfl, fun _ => rfl,
      fun _ => rfl⟩
  rw [ofCatalog, bind_eq_ok] at h
  obtain ⟨formats, hfirst, h⟩ := h
  obtain ⟨readers, hsecond, h⟩ := bind_eq_ok.mp h
  have hformat : formats.BuiltFrom c := by
    refine foldlM_keeps (fun f hf l l' hl hadd => ?_) hempty hfirst
    obtain ⟨next, hreader, hwriter⟩ := bind_eq_ok.mp hadd
    exact (hl.addReader (hformats f hf) hreader).addWriter (fun _ => rfl) hwriter
  have hreader : readers.BuiltFrom c :=
    foldlM_keeps (fun r hr l l' hl => hl.addReader (hreaders r hr)) hformat hsecond
  exact foldlM_keeps (fun entry hentry l l' hl => hl.addWriter (hwriters entry hentry)) hreader h

theorem BuiltFrom.nodup_keys (hl : l.BuiltFrom c) : l.writers.keys.Nodup :=
  (mergeSort_perm _ _).nodup_iff.mpr hl.distinct

theorem BuiltFrom.noSlash_of_mem_keys (hl : l.BuiltFrom c) (h : key ∈ l.readers.keys) :
    '/' ∉ key.toList := by
  rw [Registry.keys, mem_mergeSort] at h
  obtain ⟨entry, hentry, rfl⟩ := mem_map.mp h
  exact hl.reading entry hentry

theorem BuiltFrom.find?_of_lookup {w : Writer} (hl : l.BuiltFrom c)
    (h : l.writers.lookup key = .ok w) : c.find? key = some w.target :=
  hl.targets (key, w) (Registry.mem_entries_of_lookup h)

end Languages

end Schemata
