/-
What a run of the command does to the disk.

Every step of a run may fail, and all but the last leave the disk alone, so there is one way to
change anything: all steps come out well, and the replacement as well (`run_cases`).  From
then on the steps can be read backwards.  The path is the canonical place of a file, the
replacement is the one of the guard that has just read it, and what it writes is what a
conversion of that file gives.

A call may have failed all the same.  Where a step finds something in spite of that, it would
have found the same if no call failed, with one exception: the search for settings passes over
files that it cannot open.  So the settings are those that are found under the same failure.  They
are what is found without it if it is none of that search (`Settings.Spares`), and also if it is one
of a kind of calls, whatever they are about (`Fault.ByKind`): the run has opened the document.
-/
import DirectiveFences.Proofs.Containment
import DirectiveFences.Proofs.ErrorOrder
import DirectiveFences.Command.Run

namespace DirectiveFences

open Files

/-! ## Steps in a row -/

section Steps

variable {ε ε' α β : Type} {first : Except ε α} {next : α → Except ε β}

theorem eq_ok_of_bind {b : β} (h : first >>= next = .ok b) :
    ∃ a, first = .ok a ∧ next a = .ok b := by
  cases first with
  | error e => cases h
  | ok a => exact ⟨a, rfl, h⟩

theorem eq_error_of_bind {e : ε} (h : first >>= next = .error e) :
    first = .error e ∨ ∃ a, first = .ok a ∧ next a = .error e := by
  cases first with
  | error e' =>
      cases h
      exact Or.inl rfl
  | ok a => exact Or.inr ⟨a, rfl, h⟩

theorem eq_ok_of_mapError {f : ε → ε'} {a : α} (h : first.mapError f = .ok a) : first = .ok a := by
  cases first with
  | error e => cases h
  | ok b =>
      cases h
      rfl

theorem eq_error_of_mapError {f : ε → ε'} {e' : ε'} (h : first.mapError f = .error e') :
    ∃ e, first = .error e ∧ f e = e' := by
  cases first with
  | error e => exact ⟨e, rfl, Except.error.inj h⟩
  | ok a => cases h

end Steps

/-! ## Failures that change nothing -/

namespace Files

variable {s : Disk} {fault : Option Fault}

/-- What a guard reads in spite of a fault it reads without it. -/
theorem Guard.read_none {g g' : Guard} {text : List Char}
    (h : g.read s fault = .ok (text, g')) : g.read s none = .ok (text, g') := by
  have hspells : s.Spells fault g.path g.maxSize text := Guard.read_eq_ok_iff.mp ⟨g', h⟩
  obtain ⟨place, f, hlook, hopen, hsize, hdecode⟩ := hspells
  rw [Guard.read_of_lstat hlook, hopen] at h
  rw [Guard.read_of_lstat (Disk.lstat_none hlook), failure?_none]
  exact h

theorem Guard.convert_none {g : Guard} {stage : Stage} {settings : Settings}
    {formatter : Option Formatter} {c : Converted}
    (h : g.convert s fault stage settings formatter = .ok c) :
    g.convert s none stage settings formatter = .ok c := by
  unfold Guard.convert at h ⊢
  split at h
  · cases h
  · split at h
    · cases h
    · rename_i hread
      rw [Guard.read_none hread]
      exact h

theorem Guard.read_of_convert {g : Guard} {stage : Stage} {settings : Settings}
    {formatter : Option Formatter} {c : Converted}
    (h : g.convert s fault stage settings formatter = .ok c) :
    ∃ text, g.read s fault = .ok (text, c.guard) := by
  unfold Guard.convert at h
  split at h
  · cases h
  · split at h
    · cases h
    · rename_i text g' hread
      split at h
      · cases h
      · cases h
        exact ⟨text, hread⟩

/-- Calls of a kind fail alike, whatever they are about. -/
structure Fault.ByKind (fault : Option Fault) : Prop where
  looks : ∀ purpose path purpose' path',
    failure? fault (.look purpose path) = failure? fault (.look purpose' path')
  follows : ∀ purpose path purpose' path',
    failure? fault (.follow purpose path) = failure? fault (.follow purpose' path')
  opens : ∀ path path', failure? fault (.openFile path) = failure? fault (.openFile path')

end Files

namespace Settings

variable {s : Disk} {fault : Option Fault} {start : Path}

/-- A fault leaves alone the search for settings that begins at a directory: the looks, and the
opening of the files that are asked. -/
structure Spares (s : Disk) (fault : Option Fault) (start : Path) : Prop where
  looks : ∀ path, failure? fault (.look .searching path) = none
  follows : ∀ path, failure? fault (.follow .searching path) = none
  opens : ∀ top, canonical s none false start = .ok top →
    ∀ file ∈ filesFrom top, failure? fault (.openFile file.1) = none

namespace Spares

theorem canonical_eq (h : Spares s fault start) :
    canonical s fault false start = canonical s none false start := by
  have hlinks : linkTarget? s fault false = linkTarget? s none false := by
    funext path
    simp only [linkTarget?, Bool.false_eq_true, if_false, Disk.lstat, h.looks, failure?_none]
  have hread := readWithin_congr hlinks fun hstrict => by cases hstrict
  simp only [canonical, hread, Disk.stat, h.follows, failure?_none]

theorem fromFirst_eq (h : Spares s fault start) {files : List (String × List (List String))}
    (hopens : ∀ file ∈ files, failure? fault (.openFile file.1) = none) :
    fromFirst s fault files = fromFirst s none files := by
  induction files with
  | nil => rfl
  | cons file files ih =>
      obtain ⟨hopen, hrest⟩ := List.forall_mem_cons.mp hopens
      have hfile : fromFile s fault file.1 file.2 = fromFile s none file.1 file.2 := by
        simp only [fromFile, documentAt, isThere, Disk.stat, Disk.read, h.follows, hopen,
          failure?_none]
      simp only [fromFirst, hfile, ih hrest]

theorem build_eq (h : Spares s fault start) (overrides : Overrides) :
    build s fault start overrides = build s none start overrides := by
  have hload : load s fault start = load s none start := by
    unfold load
    rw [h.canonical_eq]
    cases htop : canonical s none false start with
    | error e => cases e <;> rfl
    | ok top => exact h.fromFirst_eq (h.opens top htop)
  rw [build, build, hload]

end Spares

end Settings

namespace Command

variable {s after : Disk} {fault : Option Fault} {env : Environment} {given : List Given}
  {words rest : List String}

/-! ## Steps that come out well -/

theorem Failure.exitCode_outcome_ne (f : Failure) (before : List Char) :
    (f.outcome before).exitCode ≠ 0 := by
  unfold Failure.outcome
  simp only
  split <;> exact nofun

theorem argumentOf_eq_ok {argument : String} (h : argumentOf s fault given rest = .ok argument) :
    rest = [argument] := by
  unfold argumentOf at h
  simp only [bind, Except.bind] at h
  split at h
  · cases h
  · split at h
    · cases h
    · split at h
      · cases h
      · split at h
        · rename_i hempty
          cases h
          rw [List.isEmpty_iff.mp hempty]
        · cases h

theorem plan_eq_ok {p : Plan} (h : plan s fault env given rest = .ok p) :
    ∃ argument, rest = [argument] ∧
      documentPath s fault env.homes argument ⟨.slash, s.cwd⟩ = .ok p.path ∧
      Settings.build s fault p.path.parent (overrides given) = .ok p.settings ∧
      sizeLimit env.sizeLimit (limitIn p.settings) = .ok p.maxSize := by
  unfold plan at h
  obtain ⟨argument, hargument, h⟩ := eq_ok_of_bind h
  obtain ⟨level, -, h⟩ := eq_ok_of_bind h
  obtain ⟨path, hpath, h⟩ := eq_ok_of_bind h
  obtain ⟨settings, hsettings, h⟩ := eq_ok_of_bind h
  obtain ⟨maxSize, hsize, h⟩ := eq_ok_of_bind h
  cases h
  exact ⟨argument, argumentOf_eq_ok hargument, eq_ok_of_mapError hpath,
    eq_ok_of_mapError hsettings, eq_ok_of_mapError hsize⟩

/-! ## Runs -/

/-- All steps of a run have come out well up to a replacement, which leaves the disk `after`. -/
structure Replaces (s : Disk) (fault : Option Fault) (env : Environment) (given : List Given)
    (rest : List String) (p : Plan) (c : Converted) (after : Disk) : Prop where
  planned : plan s fault env given rest = .ok p
  converted : ({ path := p.path, maxSize := p.maxSize } : Guard).convert s fault (stageOf given)
    p.settings none = .ok c
  opens : c.guard.Opens s fault
  replaced : c.guard.Replaced s after c.text

/-- A plan that is carried out either leaves the disk as it was, and then it has failed if it was to
replace the document, or replaces the document. -/
theorem carryOut_cases {p : Plan} (hplan : plan s fault env given rest = .ok p) :
    (p.carryOut s fault given).2.tree = s.tree ∧
        (switch? .inPlace given = some true → (p.carryOut s fault given).1.exitCode ≠ 0) ∨
      ∃ c, switch? .inPlace given = some true ∧ (p.carryOut s fault given).1.exitCode = 0 ∧
        Replaces s fault env given rest p c (p.carryOut s fault given).2 := by
  unfold Plan.carryOut
  simp only
  cases hconvert : ({ path := p.path, maxSize := p.maxSize } : Guard).convert s fault
      (stageOf given) p.settings none with
  | error e => exact Or.inl ⟨rfl, fun _ => Failure.exitCode_outcome_ne _ _⟩
  | ok c =>
      simp only
      by_cases hplace : switch? .inPlace given = some true
      · rw [if_pos hplace, putBack]
        obtain ⟨e, after, heq, htree, -⟩ | ⟨refused, after, heq, hopens, -, hreplaced⟩ :=
          c.guard.replace_cases s fault c.text
        · rw [heq]
          exact Or.inl ⟨htree, fun _ => Failure.exitCode_outcome_ne _ _⟩
        · rw [heq]
          exact Or.inr ⟨c, hplace, rfl, hplan, hconvert, hopens, hreplaced⟩
      · rw [if_neg hplace]
        exact Or.inl ⟨rfl, fun h => absurd h hplace⟩

/-- A run either leaves the disk as it was, and then it has failed if it was to replace the
document, or it replaces the document. -/
theorem run_cases (s : Disk) (fault : Option Fault) (env : Environment) (words : List String) :
    (run s fault env words).2.tree = s.tree ∧
        (∀ given rest, read words = .ok (given, rest) → early? given = none →
          switch? .inPlace given = some true → (run s fault env words).1.exitCode ≠ 0) ∨
      ∃ given rest p c, read words = .ok (given, rest) ∧ switch? .inPlace given = some true ∧
        (run s fault env words).1.exitCode = 0 ∧
        Replaces s fault env given rest p c (run s fault env words).2 := by
  unfold run
  cases hread : read words with
  | error e => exact Or.inl ⟨rfl, nofun⟩
  | ok found =>
      obtain ⟨given, rest⟩ := found
      simp only
      cases hearly : early? given with
      | some outcome =>
          refine Or.inl ⟨rfl, fun given' rest' heq hnone => ?_⟩
          cases heq
          cases hearly.symm.trans hnone
      | none =>
          cases hplan : plan s fault env given rest with
          | error f => exact Or.inl ⟨rfl, fun _ _ _ _ _ => Failure.exitCode_outcome_ne f []⟩
          | ok p =>
              simp only
              rcases carryOut_cases hplan with ⟨htree, hfails⟩ | ⟨c, hplace, hexit, hreplaces⟩
              · refine Or.inl ⟨htree, fun given' rest' heq _ hplace => ?_⟩
                cases heq
                exact hfails hplace
              · exact Or.inr ⟨given, rest, p, c, rfl, hplace, hexit, hreplaces⟩

/-! ## What a run in place has written -/

theorem expand_of_documentPath {homes : Homes} {raw : String} {base p : Path}
    (h : documentPath s fault homes raw base = .ok p) :
    ∃ path, homes.expand (Path.parse raw) = .ok path := by
  unfold documentPath at h
  cases hexpand : homes.expand (Path.parse raw) with
  | error e =>
      rw [hexpand] at h
      cases h
  | ok path => exact ⟨path, rfl⟩

/-- The calls that a run has made for its document have not failed; if those of a kind fail alike,
the search for settings is spared. -/
theorem spares_of_byKind {p : Plan} {c : Converted} (hkind : Fault.ByKind fault)
    (hplan : plan s fault env given rest = .ok p)
    (hconvert : ({ path := p.path, maxSize := p.maxSize } : Guard).convert s fault (stageOf given)
      p.settings none = .ok c) : Settings.Spares s fault p.path.parent := by
  obtain ⟨argument, -, hpath, -⟩ := plan_eq_ok hplan
  obtain ⟨q, hexpand⟩ := expand_of_documentPath hpath
  obtain ⟨-, -, ⟨place, f, hstat⟩, -⟩ := (documentPath_eq_ok_iff hexpand).mp hpath
  obtain ⟨text, hread⟩ := Guard.read_of_convert hconvert
  obtain ⟨_, _, hlook, hopen, -⟩ := Guard.read_eq_ok_iff.mp ⟨_, hread⟩
  exact ⟨fun _ => (hkind.looks ..).trans (Disk.lstat_eq_ok_iff.mp hlook).1,
    fun _ => (hkind.follows ..).trans (Disk.stat_eq_ok_iff.mp hstat).1,
    fun _ _ _ _ => (hkind.opens ..).trans hopen⟩

/-- A run that converts its document has found the path of it, settings, and what a conversion
gives. -/
theorem found_of_convert {p : Plan} {c : Converted} (hplan : plan s fault env given rest = .ok p)
    (hconvert : ({ path := p.path, maxSize := p.maxSize } : Guard).convert s fault (stageOf given)
      p.settings none = .ok c) :
    ∃ argument, rest = [argument] ∧
      documentPath s none env.homes argument ⟨.slash, s.cwd⟩ = .ok p.path ∧
      Settings.build s fault p.path.parent (overrides given) = .ok p.settings ∧
      (Fault.ByKind fault ∨ Settings.Spares s fault p.path.parent →
        Settings.build s none p.path.parent (overrides given) = .ok p.settings) ∧
      convertFile s none env.sizeLimit p.path (stageOf given) p.settings none = .ok c.text := by
  obtain ⟨argument, hrest, hpath, hsettings, hsize⟩ := plan_eq_ok hplan
  obtain ⟨q, hexpand⟩ := expand_of_documentPath hpath
  refine ⟨argument, hrest, documentPath_none hexpand hpath, hsettings, fun hspared => ?_, ?_⟩
  · have hspares := hspared.elim (fun hkind => spares_of_byKind hkind hplan hconvert) id
    rw [← hspares.build_eq]
    exact hsettings
  · rw [convertFile, hsize]
    simp only [Guard.convert_none hconvert]
    rfl

theorem Replaces.found {p : Plan} {c : Converted} (h : Replaces s fault env given rest p c after) :
    ∃ argument, rest = [argument] ∧
      documentPath s none env.homes argument ⟨.slash, s.cwd⟩ = .ok p.path ∧
      Settings.build s fault p.path.parent (overrides given) = .ok p.settings ∧
      (Fault.ByKind fault ∨ Settings.Spares s fault p.path.parent →
        Settings.build s none p.path.parent (overrides given) = .ok p.settings) ∧
      convertFile s none env.sizeLimit p.path (stageOf given) p.settings none = .ok c.text :=
  found_of_convert h.planned h.converted

/-- The guard of a conversion that succeeds has the path of the document, and has seen the file
there. -/
theorem guard_of_convert {g : Guard} {stage : Stage} {settings : Settings}
    {formatter : Option Formatter} {c : Converted}
    (h : g.convert s fault stage settings formatter = .ok c) :
    c.guard.path = g.path ∧
      ∃ f, s.document g.path = some f ∧ c.guard.snapshot = some f.snapshot := by
  obtain ⟨text, hread⟩ := Guard.read_of_convert h
  obtain ⟨f, hf, -, -, hguard⟩ := Guard.read_eq_ok hread
  rw [hguard]
  exact ⟨rfl, f, hf, rfl⟩

/-- What has become of the document at the place to which its path leads. -/
theorem Replaces.written {p : Plan} {c : Converted} (h : Replaces s fault env given rest p c after)
    {f : File} (hlocates : s.Locates p.path f) :
    ∃ new, s.tree.get? p.path.parts = some (.file f) ∧
      after.tree.get? p.path.parts = some (.file new) ∧
      new.bytes = Text.Utf8.encode c.text ∧ permissions new.mode = permissions f.mode ∧
      ∀ q, q ≠ p.path.parts → after.tree.get? q = s.tree.get? q := by
  obtain ⟨seen, place, old, new, hseen, hbefore, hafter, hbytes, hrights, -, -, -, hothers⟩ :=
    h.replaced
  obtain ⟨hpath, g, hg, hsnapshot⟩ := guard_of_convert h.converted
  rw [hpath] at hbefore hafter
  cases hlocates.leads.symm.trans (Disk.stat_of_lstat hbefore)
  have hold : g = f := by
    rw [Disk.document, hbefore] at hg
    exact (Option.some.inj hg).symm
  have hmode : seen.mode = f.mode := by
    rw [hsnapshot, hold] at hseen
    exact congrArg Snapshot.mode (Option.some.inj hseen).symm
  rw [Disk.lstat_eq_look] at hbefore hafter
  exact ⟨new, Tree.get?_of_find (Tree.find_of_look hbefore),
    Tree.get?_of_find (Tree.find_of_look hafter), hbytes, hmode ▸ hrights, hothers⟩

end Command

end DirectiveFences
