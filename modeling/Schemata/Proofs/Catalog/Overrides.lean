import Schemata.Proofs.Catalog.Builtin
import Schemata.Proofs.Document.Acceptance
import Schemata.Proofs.Reading.DistinctKeys

/-!
Drafts laid over others. A base that passes the check adds no fault to what is laid over it and
hides none: rows and targets of both stand in one order of names, but only those of the override
can fail, and each fails as it does by itself. So the first fault is that of the override, and
laying it over a second time finds everything in its place.
-/

namespace Schemata.Catalog

open Naming List
open Document (bind_eq_ok)

/-! ### Entries laid over entries -/

section Entries

variable {α : Type} {entries new : List (String × α)} {make : Option α → α → α} {key : String}
  {a : α}

theorem lookup_put_self (entries : List (String × α)) (key : String) (a : α) :
    (put entries key a).lookup key = some a := by
  induction entries with
  | nil => simp [put]
  | cons entry rest ih =>
    obtain ⟨k, b⟩ := entry
    rw [put]
    split
    next hk => simp [hk]
    next hk =>
      have hbeq : (key == k) = false := by simpa using Ne.symm hk
      rw [lookup_cons, hbeq]
      exact ih

theorem lookup_put_of_ne {other : String} (h : other ≠ key) :
    (put entries key a).lookup other = entries.lookup other := by
  have hbeq : (other == key) = false := by simpa using h
  induction entries with
  | nil => simp [put, lookup_cons, hbeq]
  | cons entry rest ih =>
    obtain ⟨k, b⟩ := entry
    rw [put]
    split
    next hk => simp [hk, lookup_cons, hbeq]
    next => rw [lookup_cons, lookup_cons, ih]

/-- Setting what is there changes nothing. -/
theorem put_eq_self (h : entries.lookup key = some a) : put entries key a = entries := by
  induction entries with
  | nil => cases h
  | cons entry rest ih =>
    obtain ⟨k, b⟩ := entry
    rw [put]
    split
    next hk =>
      subst hk
      rw [lookup_cons, BEq.rfl] at h
      cases h
      rfl
    next hk =>
      have hbeq : (key == k) = false := by simpa using Ne.symm hk
      rw [lookup_cons, hbeq] at h
      rw [ih h]

theorem ne_of_mem {other : String} (hother : other ∉ entries.map (·.1)) (h : (key, a) ∈ entries) :
    key ≠ other := by
  rintro rfl
  exact hother (mem_map.mpr ⟨_, h, rfl⟩)

theorem lookup_of_mem (hkeys : (entries.map (·.1)).Nodup) (h : (key, a) ∈ entries) :
    entries.lookup key = some a := by
  induction entries with
  | nil => cases h
  | cons entry rest ih =>
    obtain ⟨k, b⟩ := entry
    obtain ⟨hk, hrest⟩ := nodup_cons.mp hkeys
    rcases mem_cons.mp h with heq | h
    · cases heq
      simp
    · have hbeq : (key == k) = false := by simpa using ne_of_mem hk h
      rw [lookup_cons, hbeq]
      exact ih hrest h

/-- Sets entries one after the other, each made from the one that has its key so far. -/
def layOver (make : Option α → α → α) (entries new : List (String × α)) : List (String × α) :=
  new.foldl (fun done entry => put done entry.1 (make (done.lookup entry.1) entry.2)) entries

theorem layOver_cons (make : Option α → α → α) (entries new : List (String × α))
    (entry : String × α) : layOver make entries (entry :: new) =
      layOver make (put entries entry.1 (make (entries.lookup entry.1) entry.2)) new := rfl

theorem lookup_layOver_of_not_mem (hkey : key ∉ new.map (·.1)) :
    (layOver make entries new).lookup key = entries.lookup key := by
  induction new generalizing entries with
  | nil => rfl
  | cons entry new ih =>
    obtain ⟨hne, hkey⟩ := not_or.mp (mem_cons.not.mp hkey)
    rw [layOver_cons, ih hkey, lookup_put_of_ne hne]

theorem lookup_layOver_of_mem (hkeys : (new.map (·.1)).Nodup) (h : (key, a) ∈ new) :
    (layOver make entries new).lookup key = some (make (entries.lookup key) a) := by
  induction new generalizing entries with
  | nil => cases h
  | cons entry new ih =>
    obtain ⟨hentry, hnew⟩ := nodup_cons.mp hkeys
    rw [layOver_cons]
    rcases mem_cons.mp h with rfl | h
    · rw [lookup_layOver_of_not_mem hentry, lookup_put_self]
    · rw [ih hnew h, lookup_put_of_ne (ne_of_mem hentry h)]

/-- Each entry is an old one, or made from a new one. -/
theorem mem_of_mem_layOver (hkeys : (new.map (·.1)).Nodup)
    (h : (key, a) ∈ layOver make entries new) :
    (key, a) ∈ entries ∨ ∃ b, (key, b) ∈ new ∧ a = make (entries.lookup key) b := by
  induction new generalizing entries with
  | nil => exact .inl h
  | cons entry new ih =>
    obtain ⟨hentry, hnew⟩ := nodup_cons.mp hkeys
    rcases ih hnew h with h | ⟨b, hb, rfl⟩
    · rcases eq_or_mem_of_mem_put h with heq | h
      · obtain ⟨rfl, rfl⟩ := Prod.mk.inj heq
        exact .inr ⟨entry.2, mem_cons_self, rfl⟩
      · exact .inl h
    · rw [lookup_put_of_ne (ne_of_mem hentry hb)]
      exact .inr ⟨b, mem_cons_of_mem _ hb, rfl⟩

theorem mem_layOver (hkeys : (new.map (·.1)).Nodup) (h : (key, a) ∈ new) :
    (key, make (entries.lookup key) a) ∈ layOver make entries new :=
  mem_of_lookup (lookup_layOver_of_mem hkeys h)

/-- Entries that come out as they are there change nothing. -/
theorem layOver_eq_self
    (h : ∀ entry ∈ new,
      entries.lookup entry.1 = some (make (entries.lookup entry.1) entry.2)) :
    layOver make entries new = entries := by
  induction new with
  | nil => rfl
  | cons entry new ih =>
    obtain ⟨hentry, hnew⟩ := forall_mem_cons.mp h
    rw [layOver_cons, put_eq_self hentry, ih hnew]

theorem layOver_layOver (hkeys : (new.map (·.1)).Nodup)
    (hmake : ∀ entry ∈ new, ∀ old, make (some (make old entry.2)) entry.2 = make old entry.2) :
    layOver make (layOver make entries new) new = layOver make entries new := by
  apply layOver_eq_self
  intro entry hentry
  rw [lookup_layOver_of_mem hkeys hentry, hmake entry hentry]

end Entries

/-! ### First faults -/

section Faults

variable {α : Type} {check : String × α → Except Fault Unit} {entries new : List (String × α)}
  {key : String} {fault : Fault}

/-- An entry of a key does not pass. -/
def Fails (check : String × α → Except Fault Unit) (entries : List (String × α)) (key : String)
    (fault : Fault) : Prop :=
  ∃ a, (key, a) ∈ entries ∧ check (key, a) = .error fault

theorem Fails.unique {other : Fault} (hkeys : (entries.map (·.1)).Nodup)
    (h : Fails check entries key fault) (hother : Fails check entries key other) :
    fault = other := by
  obtain ⟨a, ha, hfault⟩ := h
  obtain ⟨b, hb, hfault'⟩ := hother
  have hab : some a = some b := by rw [← lookup_of_mem hkeys ha, lookup_of_mem hkeys hb]
  cases hab
  rw [hfault] at hfault'
  exact Except.error.inj hfault'

theorem forM_eq_error {xs : List α} {f : α → Except Fault Unit} (h : xs.forM f = .error fault) :
    ∃ before x after, xs = before ++ x :: after ∧ f x = .error fault ∧
      ∀ y ∈ before, f y = .ok () := by
  induction xs with
  | nil => cases h
  | cons x xs ih =>
    change (f x >>= fun _ => xs.forM f) = .error fault at h
    cases hx : f x with
    | error e =>
      rw [hx] at h
      cases h
      exact ⟨[], x, xs, rfl, hx, by simp⟩
    | ok u =>
      rw [hx] at h
      obtain ⟨before, y, after, rfl, hy, hbefore⟩ := ih h
      exact ⟨x :: before, y, after, rfl, hy, forall_mem_cons.mpr ⟨hx, hbefore⟩⟩

theorem pairwise_sorted (entries : List (String × α)) :
    (sorted entries).Pairwise fun x y => x.1 ≤ y.1 := by
  have h : (sorted entries).Pairwise fun x y => decide (x.1 ≤ y.1) = true := by
    apply pairwise_mergeSort
    · intro x y z hxy hyz
      exact decide_eq_true (le_trans (of_decide_eq_true hxy) (of_decide_eq_true hyz))
    · intro x y
      simpa using le_total x.1 y.1
  simpa using h

/-- The fault that is told is one of the least key that fails. -/
theorem fails_of_forM_sorted (h : (sorted entries).forM check = .error fault) :
    ∃ key, Fails check entries key fault ∧
      ∀ other fault', Fails check entries other fault' → key ≤ other := by
  obtain ⟨before, ⟨key, a⟩, after, hsorted, hfault, hbefore⟩ := forM_eq_error h
  have hmem : (key, a) ∈ entries := by rw [← mem_sorted, hsorted]; simp
  refine ⟨key, ⟨a, hmem, hfault⟩, ?_⟩
  rintro other fault' ⟨b, hb, hfault'⟩
  have hle := pairwise_sorted entries
  rw [hsorted, pairwise_append, pairwise_cons] at hle
  rw [← mem_sorted, hsorted] at hb
  rcases mem_append.mp hb with hb | hb
  · -- what stands before the first fault passes
    rw [hbefore _ hb] at hfault'
    cases hfault'
  · rcases mem_cons.mp hb with heq | hb
    · exact (Prod.mk.inj heq).1.ge
    · exact hle.2.1.1 _ hb

/-- Entries that fail alike, key by key, tell the same first fault. -/
theorem forM_sorted_congr (hkeys : (new.map (·.1)).Nodup)
    (h : ∀ key fault, Fails check entries key fault ↔ Fails check new key fault) :
    (sorted entries).forM check = (sorted new).forM check := by
  cases hnew : (sorted new).forM check with
  | ok u =>
    apply forM_eq_ok.mpr
    rintro ⟨key, a⟩ ha
    cases hcheck : check (key, a) with
    | ok u => rfl
    | error fault =>
      obtain ⟨b, hb, hfault⟩ := (h key fault).mp ⟨a, mem_sorted.mp ha, hcheck⟩
      rw [forM_eq_ok.mp hnew _ (mem_sorted.mpr hb)] at hfault
      cases hfault
  | error fault =>
    obtain ⟨key, hfails, hleast⟩ := fails_of_forM_sorted hnew
    cases hentries : (sorted entries).forM check with
    | ok u =>
      obtain ⟨a, ha, hfault⟩ := (h key fault).mpr hfails
      rw [forM_eq_ok.mp hentries _ (mem_sorted.mpr ha)] at hfault
      cases hfault
    | error other =>
      obtain ⟨key', hfails', hleast'⟩ := fails_of_forM_sorted hentries
      -- both orders find the least key that fails, and it has one fault only
      have hkey : key' = key :=
        le_antisymm (hleast' _ _ ((h _ _).mpr hfails)) (hleast _ _ ((h _ _).mp hfails'))
      subst hkey
      rw [((h _ _).mp hfails').unique hkeys hfails]

end Faults

/-! ### Targets -/

namespace TargetDraft

variable {t o : TargetDraft} {key : String}

def checkStyle (key : String) (role : String × Style) : Except Fault Unit :=
  if role.2.isValid then .ok () else .error (.unknownStyle key role.1 role.2.name)

/-- Under a key that is not empty, rows come before styles. -/
theorem check_of_ne (hkey : key.isEmpty = false) (t : TargetDraft) :
    t.check key = ((sorted t.rows).forM (checkRow key) >>= fun _ =>
      t.naming.roles.forM (checkStyle key)) := by
  rw [check, hkey]
  rfl

theorem isSound_of_check (h : t.check key = .ok ()) : t.IsSound key := by
  cases hkey : key.isEmpty with
  | true =>
    rw [check, hkey] at h
    cases h
  | false =>
    rw [check_of_ne hkey] at h
    obtain ⟨⟨⟩, hrows, hstyles⟩ := bind_eq_ok.mp h
    refine ⟨hkey, fun row hrow => forM_eq_ok.mp hrows row (mem_sorted.mpr hrow), ?_⟩
    intro role hrole
    have hstyle := forM_eq_ok.mp hstyles role hrole
    by_contra hinvalid
    rw [checkStyle, if_neg hinvalid] at hstyle
    cases hstyle

theorem rows_merge (t o : TargetDraft) :
    (t.merge o).rows = layOver (fun _ row => row) t.rows o.rows := rfl

theorem check_rows_merge (ht : t.IsSound key) (ho : (o.rows.map (·.1)).Nodup) :
    (sorted (t.merge o).rows).forM (checkRow key) = (sorted o.rows).forM (checkRow key) := by
  rw [rows_merge]
  apply forM_sorted_congr ho
  intro name fault
  constructor
  · rintro ⟨row, hrow, hfault⟩
    rcases mem_of_mem_layOver ho hrow with hrow | ⟨row, hrow, rfl⟩
    · rw [ht.rows _ hrow] at hfault
      cases hfault
    · exact ⟨row, hrow, hfault⟩
  · rintro ⟨row, hrow, hfault⟩
    exact ⟨row, mem_layOver ho hrow, hfault⟩

/-- Where a style is not given anew the old one passes, as one that is not given does. -/
theorem checkStyle_override {role : String} {old : Style} (hold : old.isValid = true)
    (new : Style) :
    checkStyle key (role, NamingStyles.override old new) = checkStyle key (role, new) := by
  rw [NamingStyles.override]
  split
  next hnew =>
    rw [hnew, checkStyle, if_pos hold]
    rfl
  next => rfl

theorem check_styles_merge (ht : t.IsSound key) :
    (t.merge o).naming.roles.forM (checkStyle key) = o.naming.roles.forM (checkStyle key) := by
  have hvalid := ht.naming
  simp only [NamingStyles.roles, forall_mem_cons] at hvalid
  obtain ⟨hstruct, hfield, hconstant, hnamespaces, hfile, -⟩ := hvalid
  simp only [merge, NamingStyles.merge, NamingStyles.roles, forM_eq_forM, forM_cons,
    checkStyle_override hstruct, checkStyle_override hfield, checkStyle_override hconstant,
    checkStyle_override hnamespaces, checkStyle_override hfile]

/-- Over a target that passes, a draft is checked as by itself. -/
theorem check_merge (ht : t.check key = .ok ()) (ho : (o.rows.map (·.1)).Nodup) :
    (t.merge o).check key = o.check key := by
  have hsound := isSound_of_check ht
  rw [check_of_ne hsound.key_ne, check_of_ne hsound.key_ne, check_rows_merge hsound ho,
    check_styles_merge hsound]

theorem override_override (old new : Style) :
    NamingStyles.override (NamingStyles.override old new) new = NamingStyles.override old new := by
  simp only [NamingStyles.override]
  split <;> simp [*]

theorem override_self (style : Style) : NamingStyles.override style style = style := ite_self style

/-- What a draft gives wins again when it is merged again. -/
theorem merge_merge (t : TargetDraft) (ho : (o.rows.map (·.1)).Nodup) :
    (t.merge o).merge o = t.merge o := by
  have hrows : ((t.merge o).merge o).rows = (t.merge o).rows := by
    rw [rows_merge, rows_merge]
    exact layOver_layOver ho fun _ _ _ => rfl
  have hnaming : (t.naming.merge o.naming).merge o.naming = t.naming.merge o.naming := by
    simp only [NamingStyles.merge, override_override]
  have htext (old new : String) : (if new.isEmpty then if new.isEmpty then old else new else new) =
      if new.isEmpty then old else new := by
    split <;> rfl
  have hoption {α : Type} (old new : Option α) : new.or (new.or old) = new.or old := by
    rw [← Option.or_assoc, Option.or_self]
  exact (TargetDraft.mk.injEq ..).mpr ⟨htext _ _, hoption _ _, htext _ _, hoption _ _, hoption _ _,
    hrows, hnaming⟩

theorem merge_self (ho : (o.rows.map (·.1)).Nodup) : o.merge o = o := by
  have hrows : (o.merge o).rows = o.rows := by
    rw [rows_merge]
    exact layOver_eq_self fun entry hentry => lookup_of_mem ho hentry
  have hnaming : o.naming.merge o.naming = o.naming := by
    simp only [NamingStyles.merge, override_self]
  exact (TargetDraft.mk.injEq ..).mpr ⟨ite_self _, Option.or_self, ite_self _, Option.or_self,
    Option.or_self, hrows, hnaming⟩

end TargetDraft

/-! ### Drafts -/

/-- A target laid over what its key has so far. -/
def mergeOver (old : Option TargetDraft) (o : TargetDraft) : TargetDraft :=
  match old with
  | some t => t.merge o
  | none => o

theorem mergeOver_again {o : TargetDraft} (ho : (o.rows.map (·.1)).Nodup)
    (old : Option TargetDraft) : mergeOver (some (mergeOver old o)) o = mergeOver old o := by
  cases old with
  | none => exact TargetDraft.merge_self ho
  | some t => exact TargetDraft.merge_merge t ho

namespace Draft

variable {b o : Draft}

theorem targets_merge (b o : Draft) :
    (b.merge o).targets = layOver mergeOver b.targets o.targets := rfl

theorem check_of_mem (hb : b.check = .ok ()) {key : String} {t : TargetDraft}
    (ht : (key, t) ∈ b.targets) : t.check key = .ok () :=
  forM_eq_ok.mp hb (key, t) (mem_sorted.mpr ht)

theorem check_mergeOver (hb : b.check = .ok ()) {key : String} {t : TargetDraft}
    (ht : (t.rows.map (·.1)).Nodup) :
    (mergeOver (b.targets.lookup key) t).check key = t.check key := by
  cases hold : b.targets.lookup key with
  | none => rfl
  | some old => exact TargetDraft.check_merge (check_of_mem hb (mem_of_lookup hold)) ht

/-- The first fault over a base that passes is the first fault. -/
theorem check_merge (hb : b.check = .ok ()) (ho : o.IsKeyed) : (b.merge o).check = o.check := by
  rw [check, targets_merge]
  apply forM_sorted_congr ho.targets
  intro key fault
  constructor
  · -- a target of the base passes, so the one that fails is made from one of the override
    rintro ⟨t, ht, hfault⟩
    change t.check key = .error fault at hfault
    rcases mem_of_mem_layOver ho.targets ht with hbase | ⟨u, hu, rfl⟩
    · rw [check_of_mem hb hbase] at hfault
      cases hfault
    · rw [check_mergeOver hb (ho.rows _ hu)] at hfault
      exact ⟨u, hu, hfault⟩
  · rintro ⟨u, hu, hfault⟩
    refine ⟨_, mem_layOver ho.targets hu, ?_⟩
    change (mergeOver (b.targets.lookup key) u).check key = .error fault
    rw [check_mergeOver hb (ho.rows _ hu)]
    exact hfault

theorem merge_again (b : Draft) (ho : o.IsKeyed) : (b.merge o).merge o = b.merge o := by
  have htargets : ((b.merge o).merge o).targets = (b.merge o).targets := by
    rw [targets_merge, targets_merge]
    exact layOver_layOver ho.targets fun entry hentry old =>
      mergeOver_again (ho.rows entry hentry) old
  exact (Draft.mk.injEq ..).mpr ⟨rfl, htargets⟩

end Draft

/-- The check alone decides whether there is a catalog, and why not. -/
theorem ofDraft_eq_error {d : Draft} {failure : Failure} :
    ofDraft d = .error failure ↔
      ∃ fault, d.check = .error fault ∧ failure = .other fault.message fault.hint := by
  rw [ofDraft, Draft.build]
  cases d.check with
  | ok u => simp [bind, Except.bind, pure, Except.pure]
  | error fault => simp [bind, Except.bind, eq_comm]

/-- Over a base that passes, an override has the first fault that it has by itself, and laying it
over again changes nothing. This holds of every file that can be read: over the base it is refused
when it is refused alone, for the same reason. -/
theorem override_checked_alone {b : Draft} (hb : b.check = .ok ()) :
    (∀ o : Draft, o.IsKeyed →
      (b.merge o).check = o.check ∧ (b.merge o).merge o = b.merge o) ∧
    ∀ (bytes : List UInt8) (o : Draft), readDraft bytes = .ok o →
      o.IsKeyed ∧ ∀ path failure,
        overlay b path (.ok bytes) = .error failure ↔ read bytes = .error failure := by
  refine ⟨fun o ho => ⟨Draft.check_merge hb ho, Draft.merge_again b ho⟩, ?_⟩
  intro bytes o hread
  have ho := readDraft_keyed bytes o hread
  refine ⟨ho, fun path failure => ?_⟩
  have hfile : fileDraft path (.ok bytes) = .ok o := by
    rw [fileDraft.eq_def]
    dsimp only
    rw [hread]
  have hoverlay : overlay b path (.ok bytes) = ofDraft (b.merge o) := by
    rw [overlay, hfile]
    rfl
  have halone : read bytes = ofDraft o := by
    rw [read, hread]
    rfl
  rw [hoverlay, halone, ofDraft_eq_error, ofDraft_eq_error, Draft.check_merge hb ho]

/-- A style nobody knows, and before it in the order of names a template that asks too much. -/
def faulty : Draft where
  targets :=
    [("zig", { naming := { field := .unrecognized "train" } }),
      ("go", { rows := [("tuple", { name := "t" }), ("int32", { name := "i{0}" })] })]

/-- A file with a target that has no key. -/
def keyless : List UInt8 := r"targets: {'': ~}".toUTF8.toList

theorem faulty_and_keyless_over_builtin :
    builtin.check = .ok () ∧ faulty.IsKeyed ∧
      (builtin.merge faulty).check = .error (.badTemplate "go" .int32 "i{0}" 0 0) ∧
      (builtin.merge faulty).merge faulty = builtin.merge faulty ∧
      readDraft keyless = .ok { targets := [("", {})] } ∧
      overlay builtin "targets.yaml" (.ok keyless) = .error (.other Fault.emptyKey.message) := by
  have hb : builtin.check = .ok () := Draft.check_eq_ok builtin_sound
  have hkeyed : faulty.IsKeyed := by decide
  have hfault : faulty.check = .error (.badTemplate "go" .int32 "i{0}" 0 0) := by cbv
  have hread : readDraft keyless = .ok { targets := [("", {})] } := by decide +kernel
  have hempty : Draft.check { targets := [("", {})] } = .error .emptyKey := by
    rw [Draft.check, sorted, List.mergeSort_singleton]
    rfl
  have halone : read keyless = .error (.other Fault.emptyKey.message) := by
    rw [read, hread]
    exact ofDraft_eq_error.mpr ⟨.emptyKey, hempty, rfl⟩
  obtain ⟨hdrafts, hfiles⟩ := override_checked_alone hb
  obtain ⟨hcheck, hagain⟩ := hdrafts faulty hkeyed
  obtain ⟨-, hrefused⟩ := hfiles keyless _ hread
  exact ⟨hb, hkeyed, hcheck.trans hfault, hagain, hread, (hrefused _ _).mpr halone⟩

end Schemata.Catalog
