import Schemata.Catalog.Reading
import Schemata.Proofs.Reading.WellShaped

/-!
Records and dictionaries that are read from YAML have every name once, at every depth, whatever a
file repeats, names twice or merges: a name that is there already keeps its place when it is given
again. So the drafts of catalog files have each target and each row once.
-/

namespace Schemata

open List

/-! ### Entries by key -/

namespace Catalog

variable {α : Type} {entries : List (String × α)} {key : String} {a : α}

/-- Setting an entry adds its key behind the others, or adds none. -/
theorem keys_put (entries : List (String × α)) (key : String) (a : α) :
    (put entries key a).map (·.1) =
      if key ∈ entries.map (·.1) then entries.map (·.1) else entries.map (·.1) ++ [key] := by
  induction entries with
  | nil => simp [put]
  | cons entry rest ih =>
    obtain ⟨k, b⟩ := entry
    rw [put]
    by_cases hk : k = key
    · simp [hk]
    · rw [if_neg hk, map_cons, ih]
      simp only [map_cons, mem_cons, Ne.symm hk, false_or]
      split <;> rfl

theorem nodup_keys_put (h : (entries.map (·.1)).Nodup) (key : String) (a : α) :
    ((put entries key a).map (·.1)).Nodup := by
  rw [keys_put]
  split
  next => exact h
  next hkey => exact concat_eq_append ▸ List.Nodup.concat hkey h

theorem eq_or_mem_of_mem_put {entry : String × α} (h : entry ∈ put entries key a) :
    entry = (key, a) ∨ entry ∈ entries := by
  induction entries with
  | nil => exact .inl (mem_singleton.mp h)
  | cons first rest ih =>
    obtain ⟨k, b⟩ := first
    rw [put] at h
    split at h
    next hk =>
      subst hk
      exact (mem_cons.mp h).imp_right (mem_cons_of_mem _)
    next =>
      rcases mem_cons.mp h with rfl | h
      · exact .inr mem_cons_self
      · exact (ih h).imp_right (mem_cons_of_mem _)

end Catalog

/-! ### Trees -/

namespace Data.Tree

open Catalog (put nodup_keys_put eq_or_mem_of_mem_put)

/-- No record in a tree has a name twice. -/
inductive IsKeyed : Tree → Prop where
  | none : IsKeyed .none
  | text (s : String) : IsKeyed (.text s)
  | flag (b : Bool) : IsKeyed (.flag b)
  | number (n : Int64) : IsKeyed (.number n)
  | list {entries : List Tree} (hentries : ∀ t ∈ entries, IsKeyed t) : IsKeyed (.list entries)
  | record {fields : List (String × Tree)} (hnames : (fields.map (·.1)).Nodup)
      (hfields : ∀ entry ∈ fields, IsKeyed entry.2) : IsKeyed (.record fields)

/-- Fields that a record without repeated names may have. -/
structure AreKeyed (fields : List (String × Tree)) : Prop where
  names : (fields.map (·.1)).Nodup
  trees : ∀ entry ∈ fields, IsKeyed entry.2

theorem areKeyed_nil : AreKeyed [] := ⟨nodup_nil, by simp⟩

theorem AreKeyed.isKeyed {fields : List (String × Tree)} (h : AreKeyed fields) :
    IsKeyed (.record fields) := .record h.names h.trees

theorem IsKeyed.fields {t : Tree} (h : t.IsKeyed) : AreKeyed t.fields := by
  cases h with
  | record hnames hfields => exact ⟨hnames, hfields⟩
  | _ => exact areKeyed_nil

theorem AreKeyed.lookup {fields : List (String × Tree)} (h : AreKeyed fields) {name : String}
    {other : Tree} (hother : other.IsKeyed) : ((fields.lookup name).getD other).IsKeyed := by
  cases hlookup : fields.lookup name with
  | none => exact hother
  | some t => exact h.trees _ (mem_of_lookup hlookup)

theorem IsKeyed.field {t : Tree} (h : t.IsKeyed) (name : String) : (t.field name).IsKeyed :=
  h.fields.lookup .none

theorem isKeyed_fresh {ρ : Type} (shape : Shape ρ) : (fresh shape).IsKeyed := by
  cases shape with
  | text => exact .text _
  | flag => exact .flag _
  | number => exact .number _
  | record r => exact areKeyed_nil.isKeyed
  | list | optional | dict => exact .none

theorem setField_eq_put (fields : List (String × Tree)) (name : String) (t : Tree) :
    setField fields name t = put fields name t := by
  induction fields with
  | nil => rfl
  | cons entry rest ih => rw [setField, put, ih]

theorem AreKeyed.setField {fields : List (String × Tree)} (h : AreKeyed fields) (name : String)
    {t : Tree} (ht : t.IsKeyed) : AreKeyed (setField fields name t) := by
  rw [setField_eq_put]
  refine ⟨nodup_keys_put h.names name t, fun entry hentry => ?_⟩
  rcases eq_or_mem_of_mem_put hentry with rfl | hentry
  · exact ht
  · exact h.trees entry hentry

theorem AreKeyed.concat {fields : List (String × Tree)} (h : AreKeyed fields) {name : String}
    (hname : fields.lookup name = Option.none) {t : Tree} (ht : t.IsKeyed) :
    AreKeyed (fields ++ [(name, t)]) := by
  have hnew : name ∉ fields.map (·.1) := by
    intro hmem
    obtain ⟨entry, hentry, rfl⟩ := mem_map.mp hmem
    simpa using lookup_eq_none_iff.mp hname entry hentry
  constructor
  · rw [map_append]
    exact concat_eq_append ▸ List.Nodup.concat hnew h.names
  · exact forall_mem_append.mpr ⟨h.trees, by simpa using ht⟩

end Data.Tree

/-! ### Reading -/

namespace Yaml

open Data
open Data.Tree (AreKeyed areKeyed_nil isKeyed_fresh)

/-- All results of a decoding have a property, whatever was noted before. -/
def DecodeEnsures {α : Type} (r : Decode α) (P : α → Prop) : Prop :=
  ∀ s, Ensures (r.run s) fun result => P result.1

section Results

variable {α β : Type} {P : α → Prop} {Q : β → Prop}

theorem DecodeEnsures.pure {a : α} (ha : P a) : DecodeEnsures (pure a) P :=
  fun _ => .ok ha

theorem DecodeEnsures.throw (fault : Fault) : DecodeEnsures (throw fault : Decode α) P :=
  fun _ => .error fault

theorem DecodeEnsures.bind {r : Decode α} {f : α → Decode β} (hr : DecodeEnsures r P)
    (hf : ∀ a, P a → DecodeEnsures (f a) Q) : DecodeEnsures (r >>= f) Q := by
  intro s
  exact .bind (hr s) fun result hresult => hf result.1 hresult result.2

theorem DecodeEnsures.after {r : Decode α} {f : α → Decode β} (hf : ∀ a, DecodeEnsures (f a) Q) :
    DecodeEnsures (r >>= f) Q :=
  .bind (P := fun _ => True) (fun _ _ _ => trivial) fun a _ => hf a

end Results

/-- A scalar has no names. -/
theorem isKeyed_fit {ρ : Type} {text : String} {meaning : Meaning} {shape : Shape ρ} {t : Tree}
    (h : scalarValue.fit text meaning shape = some t) : t.IsKeyed := by
  induction shape with
  | text =>
    cases h
    exact .text text
  | flag =>
    cases meaning with
    | bool b =>
      cases h
      exact .flag b
    | text =>
      rw [scalarValue.fit] at h
      split_ifs at h <;> cases h <;> exact .flag _
    | _ => cases h
  | number =>
    cases meaning with
    | int n =>
      rw [scalarValue.fit] at h
      split_ifs at h
      cases h
      exact .number _
    | float n? =>
      cases n? <;> cases h
      exact .number _
    | _ => cases h
  | optional inner ih => exact ih h
  | list | record | dict => cases h

/-- What was found, if anything was, has every name once. -/
def FoundKeyed (t : Option Tree) : Prop := ∀ found, t = some found → found.IsKeyed

theorem foundKeyed_none : FoundKeyed none := by
  rintro t ⟨⟩

theorem foundKeyed_some {t : Tree} (h : t.IsKeyed) : FoundKeyed (some t) := by
  rintro _ ⟨⟩
  exact h

theorem misfit_keyed (line : Nat) : DecodeEnsures (do noteMisfit line; return none) FoundKeyed :=
  .after fun _ => .pure foundKeyed_none

theorem scalarValue_keyed {ρ : Type} (shape : Shape ρ) (line : Nat) (tag text : String) :
    DecodeEnsures (scalarValue shape line tag text) FoundKeyed := by
  rw [scalarValue.eq_def]
  split
  next => exact .throw _
  next =>
    split
    next => exact .pure (foundKeyed_some .none)
    next => exact .pure (foundKeyed_some .none)
    next => exact .pure (foundKeyed_some .none)
    next => exact .pure foundKeyed_none
  next =>
    split
    next t ht => exact .pure (foundKeyed_some (isKeyed_fit ht))
    next => exact misfit_keyed _

section Decoding

variable {ρ : Type} {fields : ρ → List (String × Shape ρ)} {strict : Bool} {fuel : Nat}

/-- With some fuel, reading keeps names apart: over what was there before, in every kind of
place. -/
structure KeepsKeyed (fields : ρ → List (String × Shape ρ)) (strict : Bool) (fuel : Nat) :
    Prop where
  value : ∀ merged shape old node, old.IsKeyed →
    DecodeEnsures (decode fields strict merged fuel shape old node) FoundKeyed
  entries : ∀ shape nodes,
    DecodeEnsures (decodeEntries fields strict fuel shape nodes) fun ts => ∀ t ∈ ts, t.IsKeyed
  record : ∀ merged r done pairs mergeNode, AreKeyed done →
    DecodeEnsures (decodeFields fields strict merged fuel r done pairs mergeNode) AreKeyed
  merging : ∀ given r done source, AreKeyed done →
    DecodeEnsures (decodeMerge fields strict given fuel r done source) AreKeyed
  dictionary : ∀ shape done pairs, AreKeyed done →
    DecodeEnsures (decodeDict fields strict fuel shape done pairs) AreKeyed

theorem decode_keyed_succ (h : KeepsKeyed fields strict fuel) (merged : Merged) (shape : Shape ρ)
    {old : Tree} (hold : old.IsKeyed) (node : Node) :
    DecodeEnsures (decode fields strict merged (fuel + 1) shape old node) FoundKeyed := by
  rw [decode.eq_def]
  dsimp only
  split
  next => exact .throw _
  next => exact h.value _ _ _ _ hold
  next => exact scalarValue_keyed _ _ _ _
  next =>
    split
    next entry _ =>
      exact .bind (h.entries _ _) fun ts hts =>
        .pure (foundKeyed_some (.list hts))
    next inner _ =>
      split
      next => exact misfit_keyed _
      next => exact h.value _ _ _ _ hold
    next => exact misfit_keyed _
  next =>
    split
    next inner _ =>
      split
      next => exact misfit_keyed _
      next =>
        apply h.value
        split
        next => exact isKeyed_fresh _
        next => exact hold
    next =>
      refine .after fun repeated => ?_
      split
      next => exact .pure foundKeyed_none
      next =>
        split
        next r _ _ _ =>
          exact .bind (h.record _ _ _ _ _ hold.fields) fun done hdone =>
            .pure (foundKeyed_some hdone.isKeyed)
        next entry _ _ _ =>
          exact .bind (h.dictionary _ _ _ hold.fields) fun done hdone =>
            .pure (foundKeyed_some hdone.isKeyed)
        next => exact misfit_keyed _

theorem decodeEntries_keyed_succ (h : KeepsKeyed fields strict fuel) (shape : Shape ρ)
    (nodes : List Node) :
    DecodeEnsures (decodeEntries fields strict (fuel + 1) shape nodes)
      fun ts => ∀ t ∈ ts, t.IsKeyed := by
  rw [decodeEntries.eq_def]
  dsimp only
  split
  next => exact .pure (by simp)
  next n rest =>
    refine .bind (h.value _ _ _ _ (isKeyed_fresh shape)) fun t ht => ?_
    refine .bind (h.entries _ _) fun ts hts => .pure ?_
    cases t with
    | none => exact hts
    | some t => exact forall_mem_cons.mpr ⟨ht t rfl, hts⟩

theorem decodeFields_keyed_succ (h : KeepsKeyed fields strict fuel) (merged : Merged) (r : ρ)
    {done : List (String × Tree)} (hdone : AreKeyed done) (pairs : List (Node × Node))
    (mergeNode : Option (Node × List (Node × Node))) :
    DecodeEnsures (decodeFields fields strict merged (fuel + 1) r done pairs mergeNode)
      AreKeyed := by
  rw [decodeFields.eq_def]
  dsimp only
  split
  next =>
    split
    next => exact .pure hdone
    next => exact h.merging _ _ _ _ hdone
  next k v rest =>
    split
    next => exact h.record _ _ _ _ _ hdone
    next =>
      refine .after fun name => ?_
      split
      next name =>
        split
        next => exact h.record _ _ _ _ _ hdone
        next =>
          split
          next shape _ =>
            -- the value is read over what the name has so far, and takes its place
            have hold : ((done.lookup name).getD (.fresh shape)).IsKeyed :=
              hdone.lookup (isKeyed_fresh shape)
            refine .bind (h.value _ _ _ _ hold) fun t ht => h.record _ _ _ _ _ ?_
            cases t with
            | none => exact hdone
            | some t => exact hdone.setField name (ht t rfl)
          next =>
            split
            next => exact .after fun _ => h.record _ _ _ _ _ hdone
            next => exact h.record _ _ _ _ _ hdone
      next => exact h.record _ _ _ _ _ hdone

theorem decodeMerge_keyed_succ (h : KeepsKeyed fields strict fuel) (given : List String) (r : ρ)
    {done : List (String × Tree)} (hdone : AreKeyed done) (source : Node) :
    DecodeEnsures (decodeMerge fields strict given (fuel + 1) r done source) AreKeyed := by
  rw [decodeMerge.eq_def]
  dsimp only
  split
  next => exact .pure hdone
  next line tag n rest =>
    split
    next pairs _ =>
      refine .after fun repeated => ?_
      split
      next => exact h.merging _ _ _ _ hdone
      next =>
        exact .bind (h.record _ _ _ _ _ hdone) fun added hadded =>
          h.merging _ _ _ _ hadded
    next => exact .throw _
  next =>
    split
    next pairs _ =>
      refine .after fun repeated => ?_
      split
      next => exact .pure hdone
      next => exact h.record _ _ _ _ _ hdone
    next => exact .throw _

theorem decodeDict_keyed_succ (h : KeepsKeyed fields strict fuel) (shape : Shape ρ)
    {done : List (String × Tree)} (hdone : AreKeyed done) (pairs : List (Node × Node)) :
    DecodeEnsures (decodeDict fields strict (fuel + 1) shape done pairs) AreKeyed := by
  rw [decodeDict.eq_def]
  dsimp only
  split
  next => exact .pure hdone
  next k v rest =>
    split
    next =>
      refine .bind (h.dictionary _ _ _ hdone) fun inner hinner => ?_
      split
      next => exact h.dictionary _ _ _ hinner
      next => exact .throw _
    next =>
      refine .after fun name => ?_
      split
      next name =>
        refine .bind (h.value _ _ _ _ (isKeyed_fresh shape)) fun t ht => ?_
        apply h.dictionary
        cases t with
        | some t => exact hdone.setField name (ht t rfl)
        | none =>
          -- an entry that is null adds its name only where it is new
          dsimp only
          split
          next hnew =>
            have hnone : done.lookup name = none := by
              simpa using (Bool.and_eq_true_iff.mp hnew).2
            exact hdone.concat hnone (isKeyed_fresh shape)
          next => exact hdone
      next => exact h.dictionary _ _ _ hdone

theorem keepsKeyed (fields : ρ → List (String × Shape ρ)) (strict : Bool) (fuel : Nat) :
    KeepsKeyed fields strict fuel := by
  induction fuel with
  | zero =>
    -- without fuel nothing is read
    constructor
    · intro merged shape old node _
      rw [decode.eq_def]
      exact .throw _
    · intro shape nodes
      rw [decodeEntries.eq_def]
      exact .throw _
    · intro merged r done pairs mergeNode _
      rw [decodeFields.eq_def]
      exact .throw _
    · intro given r done source _
      rw [decodeMerge.eq_def]
      exact .throw _
    · intro shape done pairs _
      rw [decodeDict.eq_def]
      exact .throw _
  | succ fuel ih =>
    exact
      { value := fun merged shape _ node hold => decode_keyed_succ ih merged shape hold node
        entries := decodeEntries_keyed_succ ih
        record := fun merged r _ pairs mergeNode hdone =>
          decodeFields_keyed_succ ih merged r hdone pairs mergeNode
        merging := fun given r _ source hdone => decodeMerge_keyed_succ ih given r hdone source
        dictionary := fun shape _ pairs hdone => decodeDict_keyed_succ ih shape hdone pairs }

/-- Trees that are read have every name once. -/
theorem readRecord_keyed (fields : ρ → List (String × Shape ρ)) (strict : Bool) (r : ρ)
    (bytes : List UInt8) : Ensures (readRecord fields strict r bytes) FoundKeyed := by
  rw [readRecord.eq_def]
  refine .after fun root => ?_
  split
  next => exact .ok foundKeyed_none
  next root =>
    have hroot := (keepsKeyed fields strict (4 * root.weight + 16)).value none (.record r)
      (.record []) root areKeyed_nil.isKeyed {}
    refine .bind hroot fun result hresult => ?_
    obtain ⟨t, s⟩ := result
    dsimp only
    split
    next => exact .error _
    next =>
      refine .ok (foundKeyed_some ?_)
      cases t with
      | none => exact areKeyed_nil.isKeyed
      | some t => exact hresult t rfl

end Decoding

end Yaml

/-! ### Drafts -/

namespace Catalog

/-- A draft has each target once, and each target each row. -/
structure Draft.IsKeyed (d : Draft) : Prop where
  targets : (d.targets.map (·.1)).Nodup
  rows : ∀ entry ∈ d.targets, (entry.2.rows.map (·.1)).Nodup

instance (d : Draft) : Decidable d.IsKeyed :=
  decidable_of_iff
    ((d.targets.map (·.1)).Nodup ∧ ∀ entry ∈ d.targets, (entry.2.rows.map (·.1)).Nodup)
    ⟨fun h => ⟨h.1, h.2⟩, fun h => ⟨h.targets, h.rows⟩⟩

theorem draftOf_keyed {t : Data.Tree} (h : t.IsKeyed) : (draftOf t).IsKeyed := by
  have htargets := (h.field "targets").fields
  constructor
  · rw [draftOf, map_map]
    exact htargets.names
  · intro entry hentry
    obtain ⟨⟨key, target⟩, hmem, rfl⟩ := mem_map.mp hentry
    have hrows := ((htargets.trees _ hmem).field "types").fields
    change ((targetOf target).rows.map (·.1)).Nodup
    rw [targetOf, map_map]
    exact hrows.names

/-- The draft of a file has each target and each row once. -/
theorem readDraft_keyed (bytes : List UInt8) : Ensures (readDraft bytes) Draft.IsKeyed := by
  unfold readDraft
  split
  next => exact .error _
  next t ht =>
    refine .ok (draftOf_keyed ?_)
    cases t with
    | none => exact Data.Tree.areKeyed_nil.isKeyed
    | some t => exact Yaml.readRecord_keyed _ _ _ _ _ ht t rfl

end Catalog

end Schemata
