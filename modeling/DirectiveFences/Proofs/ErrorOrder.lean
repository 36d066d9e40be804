/-
What a conversion gives, and how it fails.

The size variable, the settings and the formatter are asked before the file is looked at, so
what is wrong with them is told whatever the file is like.  After that only the file can fail,
and each of its failures names the path.  There is one failure that is not told as one of the
conversion: what is given as a path may have no encoding, and nobody catches what the system says of
that (`convertGiven_outcome`).

The one trap is the snapshot of a guard, which is kept in the middle: when the file has been
read, but before the stage is run.  So the calls are written out here with the guard as
each of them leaves it (`Guard.convertStep`).  That a failure leaves the guard alone then rests
on the order of the questions: the one stage that can fail has been asked for its formatter
before anything is read.
-/
import DirectiveFences.Proofs.Recording
import DirectiveFences.Proofs.Replacement
import DirectiveFences.Proofs.Utf8Sequences
import DirectiveFences.Proofs.ValidSettings
import DirectiveFences.Files.Conversion

namespace DirectiveFences.Files

/-! ## Guards, call by call -/

namespace Guard

/-- Read the document.  The snapshot is kept when all else is done. -/
def readStep (g : Guard) (s : Disk) (fault : Option Fault) :
    Except GuardError (List Char) × Guard :=
  match Snapshot.take s fault g.path with
  | .error e => (.error e, g)
  | .ok seen =>
    if seen.size > g.maxSize then (.error (.tooLarge g.path g.maxSize), g)
    else
      match s.read fault g.path.text with
      | .error e => (.error (.ofCall g.path e), g)
      | .ok bytes =>
        match Text.Utf8.decode bytes with
        | .error e => (.error (.undecodable e), g)
        | .ok text => (.ok text, { g with snapshot := some seen })

/-- Read the document and run a stage over it, and the guard as that leaves it. -/
def convertStep (g : Guard) (s : Disk) (fault : Option Fault) (stage : Stage)
    (settings : Settings) (formatter : Option Formatter) :
    Except DocumentError (List Char) × Guard :=
  match admits stage settings formatter with
  | .error e => (.error e, g)
  | .ok () =>
    match g.readStep s fault with
    | (.error e, g) => (.error (.ofGuard g.path e), g)
    | (.ok text, g) => ((stage.run settings.toggles formatter text).mapError .stage, g)

variable {g g' : Guard} {s : Disk} {fault : Option Fault} {stage : Stage} {settings : Settings}
  {formatter : Option Formatter} {text : List Char}

theorem readStep_eq (g : Guard) (s : Disk) (fault : Option Fault) :
    g.readStep s fault =
      match g.read s fault with
      | .error e => (.error e, g)
      | .ok (text, g') => (.ok text, g') := by
  unfold readStep read
  cases Snapshot.take s fault g.path with
  | error e => rfl
  | ok seen =>
      simp only
      split
      · rfl
      · cases s.read fault g.path.text with
        | error e => rfl
        | ok bytes =>
            simp only
            cases Text.Utf8.decode bytes with
            | error e => rfl
            | ok text => rfl

end Guard

theorem Stage.run_isOk {stage : Stage} {formatter : Option Formatter}
    (h : ¬ (stage = .roundtrip ∧ formatter = none)) (toggles : Toggles) (text : List Char) :
    ∃ converted, stage.run toggles formatter text = .ok converted := by
  cases stage with
  | preprocess => exact ⟨_, rfl⟩
  | postprocess => exact ⟨_, rfl⟩
  | roundtrip =>
      cases formatter with
      | none => exact absurd ⟨rfl, rfl⟩ h
      | some format => exact ⟨_, rfl⟩

section Admission

variable {stage : Stage} {settings : Settings} {formatter : Option Formatter}

theorem admits_of_not_valid (h : ¬ settings.Valid) :
    ∃ e, settings.check = .error e ∧ admits stage settings formatter = .error (.settings e) := by
  obtain ⟨e, he⟩ := Settings.check_of_not_valid h
  exact ⟨e, he, by rw [admits, he]⟩

theorem admits_of_no_formatter (h : settings.Valid)
    (hformatter : stage = .roundtrip ∧ formatter = none) :
    admits stage settings formatter = .error (.stage .formatterMissing) := by
  obtain ⟨rfl, rfl⟩ := hformatter
  rw [admits, Settings.check_eq_ok_iff.mpr h]
  rfl

theorem admits_eq_ok_iff : admits stage settings formatter = .ok () ↔
    settings.Valid ∧ ¬ (stage = .roundtrip ∧ formatter = none) := by
  rw [← Settings.check_eq_ok_iff, ← Option.isNone_iff_eq_none, admits]
  cases settings.check with
  | error e => simp
  | ok _ => by_cases hmissing : stage = .roundtrip ∧ formatter.isNone <;> simp [hmissing]

end Admission

namespace Guard

variable {g : Guard} {s : Disk} {fault : Option Fault} {stage : Stage} {settings : Settings}
  {formatter : Option Formatter}

/-- A guard that converts its document has seen it, and one that fails is as it was. -/
theorem convertStep_eq (g : Guard) (s : Disk) (fault : Option Fault) (stage : Stage)
    (settings : Settings) (formatter : Option Formatter) :
    g.convertStep s fault stage settings formatter =
      match g.convert s fault stage settings formatter with
      | .error e => (.error e, g)
      | .ok c => (.ok c.text, c.guard) := by
  unfold convertStep convert
  cases hadmits : admits stage settings formatter with
  | error e => rfl
  | ok _ =>
      simp only
      rw [readStep_eq]
      cases g.read s fault with
      | error e => rfl
      | ok found =>
          obtain ⟨text, g'⟩ := found
          obtain ⟨converted, hrun⟩ :=
            Stage.run_isOk (admits_eq_ok_iff.mp hadmits).2 settings.toggles text
          simp only [hrun]
          rfl

end Guard

/-! ## What is read -/

/-- The file at a path is a regular one and no link, it may be opened, it is no larger than a limit,
and it spells a text. -/
def Disk.Spells (s : Disk) (fault : Option Fault) (path : Path) (limit : Int)
    (text : List Char) : Prop :=
  ∃ place f, s.lstat fault path.text .reading = .ok (place, .file f) ∧
    failure? fault (.openFile path.text) = none ∧ f.bytes.length ≤ limit ∧
    Text.Utf8.decode f.bytes = .ok text

theorem Disk.Spells.unique {s : Disk} {fault : Option Fault} {path : Path} {limit limit' : Int}
    {text text' : List Char} (h : s.Spells fault path limit text)
    (h' : s.Spells fault path limit' text') : text = text' := by
  obtain ⟨place, f, hlook, -, -, hdecode⟩ := h
  obtain ⟨place', f', hlook', -, -, hdecode'⟩ := h'
  cases hlook.symm.trans hlook'
  exact Except.ok.inj (hdecode.symm.trans hdecode')

/-- The failures that are about the file at a path. -/
inductive DocumentError.About (path : Path) (limit : Int) : DocumentError → Prop
  | inaccessible (e : SystemError) : About path limit (.file (.inaccessible path e))
  | isLink : About path limit (.file (.isLink path))
  | notRegular : About path limit (.file (.notRegular path))
  | tooLarge : About path limit (.file (.tooLarge path limit))
  | undecodable (e : Text.Utf8.DecodeError) : About path limit (.undecodable path e)

namespace Guard

variable {g g' : Guard} {s : Disk} {fault : Option Fault} {text : List Char}

theorem read_of_lstat {place : Place} {f : File}
    (h : s.lstat fault g.path.text .reading = .ok (place, .file f)) :
    g.read s fault =
      if f.bytes.length > g.maxSize then .error (.tooLarge g.path g.maxSize)
      else
        match failure? fault (.openFile g.path.text) with
        | some e => .error (.inaccessible g.path ⟨e, none⟩)
        | none =>
          match Text.Utf8.decode f.bytes with
          | .error e => .error (.undecodable e)
          | .ok text => .ok (text, { g with snapshot := some f.snapshot }) := by
  have htake : Snapshot.take s fault g.path = .ok f.snapshot := by
    rw [Snapshot.take, h]
  have hstat := Disk.stat_of_lstat h
  cases hopen : failure? fault (.openFile g.path.text) with
  | some e =>
      simp only [read, htake, File.snapshot, Disk.read, hopen]
      rfl
  | none =>
      cases hdecode : Text.Utf8.decode f.bytes <;>
        simp only [read, htake, File.snapshot, Disk.read, hstat, hopen, hdecode]

theorem read_eq_ok_iff :
    (∃ g', g.read s fault = .ok (text, g')) ↔ s.Spells fault g.path g.maxSize text := by
  constructor
  · rintro ⟨g', h⟩
    obtain ⟨place, f, hlook⟩ :
        ∃ place f, s.lstat fault g.path.text .reading = .ok (place, .file f) := by
      cases htake : Snapshot.take s fault g.path with
      | ok seen =>
          obtain ⟨place, f, hlook, -⟩ := take_eq_ok_iff.mp htake
          exact ⟨place, f, hlook⟩
      | error e =>
          rw [read, htake] at h
          cases h
    rw [read_of_lstat hlook] at h
    split at h
    · cases h
    · rename_i hsize
      split at h
      · cases h
      · rename_i hopen
        split at h
        · cases h
        · rename_i text' hdecode
          cases h
          exact ⟨place, f, hlook, hopen, Int.not_lt.mp hsize, hdecode⟩
  · rintro ⟨place, f, hlook, hopen, hsize, hdecode⟩
    refine ⟨{ g with snapshot := some f.snapshot }, ?_⟩
    rw [read_of_lstat hlook, if_neg (Int.not_lt.mpr hsize), hopen]
    simp only [hdecode]

theorem about_of_read {e : GuardError} (hnull : '\x00' ∉ g.path.text.toList)
    (h : g.read s fault = .error e) : (DocumentError.ofGuard g.path e).About g.path g.maxSize := by
  cases hlook : s.lstat fault g.path.text .reading with
  | error e' =>
      rw [read, Snapshot.take, hlook] at h
      cases h
      cases e' with
      | embeddedNull => exact absurd (Disk.null_mem_of_lstat hlook) hnull
      | system e' => exact .inaccessible e'
  | ok found =>
      obtain ⟨place, node⟩ := found
      cases node with
      | link target =>
          rw [read, Snapshot.take, hlook] at h
          cases h
          exact .isLink
      | directory =>
          rw [read, Snapshot.take, hlook] at h
          cases h
          exact .notRegular
      | file f =>
          rw [read_of_lstat hlook] at h
          split at h
          · cases h
            exact .tooLarge
          · split at h
            · cases h
              exact .inaccessible _
            · split at h
              · cases h
                exact .undecodable _
              · cases h

end Guard

/-! ## The limit that counts -/

/-- The text of a size variable spells a positive integer. -/
def SpellsLimit (given : String) (n : Int) : Prop :=
  integer? given.toList = some n ∧ 0 < n

/-- The limit that counts: the one of the variable if that is set, and else the configured one. -/
inductive CountsAs (settings : Settings) (n : Int) : Option String → Prop
  | variable (given : String) (h : SpellsLimit given n) : CountsAs settings n (some given)
  | configured (h : settings.maxSize = .int n) : CountsAs settings n none

theorem sizeLimit_of_spells {given : String} {n : Int} (h : SpellsLimit given n)
    (configured : Int) : sizeLimit (some given) configured = .ok n := by
  simp only [sizeLimit, limitOf, h.1, if_neg (Int.not_le.mpr h.2)]
  rfl

theorem sizeLimit_of_not_spells {given : String} (h : ∀ n, ¬ SpellsLimit given n)
    (configured : Int) : sizeLimit (some given) configured = .error ⟨given⟩ := by
  cases hinteger : integer? given.toList with
  | none =>
      simp only [sizeLimit, limitOf, hinteger]
      rfl
  | some n =>
      have hle : n ≤ 0 := Int.not_lt.mp fun hpos => h n ⟨hinteger, hpos⟩
      simp only [sizeLimit, limitOf, hinteger, if_pos hle]
      rfl

theorem sizeLimit_isOk {limit : Option String} (settings : Settings)
    (h : ∀ given, limit = some given → ∃ n, SpellsLimit given n) :
    ∃ n, sizeLimit limit (limitIn settings) = .ok n ∧
      (settings.Valid → CountsAs settings n limit) := by
  cases limit with
  | some given =>
      obtain ⟨n, hn⟩ := h given rfl
      exact ⟨n, sizeLimit_of_spells hn _, fun _ => .variable given hn⟩
  | none =>
      refine ⟨limitIn settings, rfl, fun hvalid => .configured ?_⟩
      obtain ⟨n, hn, -⟩ := hvalid.maxSize
      rw [limitIn, hn]

/-! ## Conversions -/

namespace Guard

variable {g : Guard} {s : Disk} {fault : Option Fault} {stage : Stage} {settings : Settings}
  {formatter : Option Formatter}

/-- With settings that can be used, and a formatter where one is needed, a conversion gives what the
stage makes of the text that the file spells, or else a failure that is about the file. -/
theorem convert_of_valid (g : Guard) (s : Disk) (fault : Option Fault)
    (hnull : '\x00' ∉ g.path.text.toList) (h : settings.Valid)
    (hformatter : ¬ (stage = .roundtrip ∧ formatter = none)) :
    (∃ text converted, s.Spells fault g.path g.maxSize text ∧
        stage.run settings.toggles formatter text = .ok converted ∧
        (g.convert s fault stage settings formatter).map (·.text) = .ok converted) ∨
      (∀ text, ¬ s.Spells fault g.path g.maxSize text) ∧
        ∃ e, e.About g.path g.maxSize ∧
          g.convert s fault stage settings formatter = .error e := by
  have hadmits : admits stage settings formatter = .ok () := admits_eq_ok_iff.mpr ⟨h, hformatter⟩
  cases hread : g.read s fault with
  | error e =>
      refine Or.inr ⟨fun text hspells => ?_, _, about_of_read hnull hread, ?_⟩
      · obtain ⟨g', hok⟩ := read_eq_ok_iff.mpr hspells
        cases hread.symm.trans hok
      · simp only [convert, hadmits, hread]
  | ok found =>
      obtain ⟨text, g'⟩ := found
      obtain ⟨converted, hrun⟩ := Stage.run_isOk hformatter settings.toggles text
      refine Or.inl ⟨text, converted, read_eq_ok_iff.mp ⟨g', hread⟩, hrun, ?_⟩
      simp only [convert, hadmits, hread, hrun]
      rfl

end Guard

variable {s : Disk} {fault : Option Fault} {limit : Option String} {path : Path} {given : GivenPath}
  {stage : Stage} {settings : Settings} {formatter : Option Formatter}

theorem convertGiven_path (s : Disk) (fault : Option Fault) (limit : Option String) (path : Path)
    (stage : Stage) (settings : Settings) (formatter : Option Formatter) :
    convertGiven s fault limit (.path path) stage settings formatter =
      (convertFile s fault limit path stage settings formatter).mapError .failed := by
  unfold convertGiven convertFile Guard.convert
  cases sizeLimit limit (limitIn settings) with
  | error e => rfl
  | ok n =>
      cases admits stage settings formatter with
      | error e => rfl
      | ok _ => rfl

theorem convertGiven_of_no_limit {v : String} (hlimit : limit = some v)
    (hnot : ∀ n, ¬ SpellsLimit v n) :
    convertGiven s fault limit given stage settings formatter =
      .error (.failed (.sizeLimit ⟨v⟩)) := by
  rw [hlimit, convertGiven, sizeLimit_of_not_spells hnot]

theorem convertGiven_of_limit {n : Int} (hlimit : sizeLimit limit (limitIn settings) = .ok n) :
    convertGiven s fault limit given stage settings formatter =
      match admits stage settings formatter with
      | .error e => .error (.failed e)
      | .ok () => given.ask fun path => convertFile s fault limit path stage settings formatter := by
  rw [convertGiven, hlimit]
  cases admits stage settings formatter <;> rfl

theorem convertGiven_of_not_valid (hlimit : ∀ v, limit = some v → ∃ n, SpellsLimit v n)
    (h : ¬ settings.Valid) :
    ∃ e, settings.check = .error e ∧
      convertGiven s fault limit given stage settings formatter = .error (.failed (.settings e)) := by
  obtain ⟨n, hsize, -⟩ := sizeLimit_isOk settings hlimit
  obtain ⟨e, hcheck, hadmits⟩ := admits_of_not_valid h
  exact ⟨e, hcheck, by rw [convertGiven_of_limit hsize, hadmits]⟩

theorem convertGiven_of_no_formatter (hlimit : ∀ v, limit = some v → ∃ n, SpellsLimit v n)
    (h : settings.Valid) (hformatter : stage = .roundtrip ∧ formatter = none) :
    convertGiven s fault limit given stage settings formatter =
      .error (.failed (.stage .formatterMissing)) := by
  obtain ⟨n, hsize, -⟩ := sizeLimit_isOk settings hlimit
  rw [convertGiven_of_limit hsize, admits_of_no_formatter h hformatter]

theorem DocumentError.About.isTold {n : Int} {e : DocumentError} (h : e.About path n) :
    (GivenError.failed e).isTold = true := by
  cases h <;> rfl

/-- Nothing is wrong with what is asked before the file is looked at. -/
structure Admitted (limit : Option String) (stage : Stage) (settings : Settings)
    (formatter : Option Formatter) : Prop where
  limit : ∀ v, limit = some v → ∃ n, SpellsLimit v n
  settings : settings.Valid
  formatter : ¬ (stage = .roundtrip ∧ formatter = none)

theorem told_of_not_admitted (s : Disk) (fault : Option Fault) (given : GivenPath)
    (h : ¬ Admitted limit stage settings formatter) :
    ∃ e, convertGiven s fault limit given stage settings formatter = .error e ∧
      e.isTold = true := by
  by_cases hlimit : ∀ v, limit = some v → ∃ n, SpellsLimit v n
  · by_cases hvalid : settings.Valid
    · have hmissing : stage = .roundtrip ∧ formatter = none :=
        Classical.byContradiction fun hformatter => h ⟨hlimit, hvalid, hformatter⟩
      exact ⟨_, convertGiven_of_no_formatter hlimit hvalid hmissing, rfl⟩
    · obtain ⟨e, -, he⟩ := convertGiven_of_not_valid hlimit hvalid
      exact ⟨_, he, rfl⟩
  · obtain ⟨v, hv⟩ := not_forall.mp hlimit
    obtain ⟨hset, hnot⟩ := Classical.not_imp.mp hv
    exact ⟨_, convertGiven_of_no_limit hset (not_exists.mp hnot), rfl⟩

/-- What a conversion that is admitted comes to, with the limit that counts: for a path, what the stage
makes of the text that its file spells, or else a failure that is about the file; for what has no
encoding, that failure. -/
inductive ComesTo (s : Disk) (fault : Option Fault) (n : Int) (run : List Char → List Char → Prop) :
    GivenPath → Except (GivenError DocumentError) (List Char) → Prop
  | text (path : Path) (text converted : List Char) (hspells : s.Spells fault path n text)
      (hrun : run text converted) : ComesTo s fault n run (.path path) (.ok converted)
  | failure (path : Path) (e : DocumentError) (hno : ∀ text, ¬ s.Spells fault path n text)
      (habout : e.About path n) : ComesTo s fault n run (.path path) (.error (.failed e))
  | stray (e : EncodeError) : ComesTo s fault n run (.stray e) (.error (.unencodable e))

theorem convertGiven_comesTo (s : Disk) (fault : Option Fault)
    (hnull : ∀ path, given = .path path → '\x00' ∉ path.text.toList)
    (h : Admitted limit stage settings formatter) :
    ∃ n b c, CountsAs settings n limit ∧ settings.resolved.shortcodes = .bool b ∧
      settings.resolved.mathLabels = .bool c ∧
      ComesTo s fault n (fun text converted => stage.run ⟨b, c⟩ formatter text = .ok converted) given
        (convertGiven s fault limit given stage settings formatter) := by
  obtain ⟨n, hsize, hcounts⟩ := sizeLimit_isOk settings h.limit
  obtain ⟨b, hb⟩ := h.settings.shortcodes
  obtain ⟨c, hc⟩ := h.settings.mathLabels
  refine ⟨n, b, c, hcounts h.settings, hb, hc, ?_⟩
  rw [← Settings.toggles_eq hb hc, convertGiven_of_limit hsize,
    admits_eq_ok_iff.mpr ⟨h.settings, h.formatter⟩]
  cases given with
  | stray e => exact .stray e
  | path path =>
      simp only [GivenPath.ask, convertFile, hsize]
      rcases Guard.convert_of_valid { path, maxSize := n } s fault (hnull path rfl) h.settings
          h.formatter with ⟨text, converted, hspells, hrun, hok⟩ | ⟨hno, e, habout, he⟩
      · rw [hok]
        exact .text path text converted hspells hrun
      · rw [he]
        exact .failure path e hno habout

/-- The one failure that is not told is that of what has no encoding. -/
theorem untold_iff (s : Disk) (fault : Option Fault)
    (hnull : ∀ path, given = .path path → '\x00' ∉ path.text.toList) :
    (∃ e, convertGiven s fault limit given stage settings formatter = .error e ∧
        e.isTold = false) ↔
      Admitted limit stage settings formatter ∧ ∃ e, given = .stray e := by
  by_cases hadmitted : Admitted limit stage settings formatter
  · obtain ⟨n, b, c, -, -, -, hcomes⟩ := convertGiven_comesTo s fault hnull hadmitted
    generalize convertGiven s fault limit given stage settings formatter = result at hcomes
    cases hcomes with
    | text path text converted =>
        exact ⟨fun ⟨e, he, _⟩ => (nomatch he), fun ⟨_, e, he⟩ => (nomatch he)⟩
    | failure path e hno habout =>
        refine ⟨fun ⟨e', he, huntold⟩ => ?_, fun ⟨_, e, he⟩ => nomatch he⟩
        cases he
        cases habout.isTold.symm.trans huntold
    | stray e => exact ⟨fun _ => ⟨hadmitted, e, rfl⟩, fun _ => ⟨_, rfl, rfl⟩⟩
  · obtain ⟨e, he, htold⟩ := told_of_not_admitted s fault given hadmitted
    refine ⟨fun ⟨e', he', huntold⟩ => ?_, fun h => absurd h.1 hadmitted⟩
    cases he.symm.trans he'
    cases htold.symm.trans huntold

/-- **The order of failures.**  A size variable that spells no positive integer is told first, then
settings that cannot be used, then a formatter that is missing, whatever the file is like.  If
nothing of this is wrong, a conversion gives a text exactly if the path leads to a regular file, no
link, of at most the size that counts, and then the text is what the stage makes of the text that
the file spells, with the toggles of the resolved settings; or else it fails, and the failure is
about the file.  All these failures are told as those of the conversion; the one that is not is that
of what has no encoding, and it is met where nothing else is wrong.  A guard whose conversion fails
is as it was. -/
theorem convertGiven_outcome (s : Disk) (fault : Option Fault)
    (hnull : ∀ path, given = .path path → '\x00' ∉ path.text.toList) :
    (∀ v, limit = some v → (∀ n, ¬ SpellsLimit v n) →
      convertGiven s fault limit given stage settings formatter =
        .error (.failed (.sizeLimit ⟨v⟩))) ∧
    ((∀ v, limit = some v → ∃ n, SpellsLimit v n) →
      (¬ settings.Valid → ∃ e, settings.check = .error e ∧
        convertGiven s fault limit given stage settings formatter =
          .error (.failed (.settings e))) ∧
      (settings.Valid → stage = .roundtrip ∧ formatter = none →
        convertGiven s fault limit given stage settings formatter =
          .error (.failed (.stage .formatterMissing))) ∧
      (settings.Valid → ¬ (stage = .roundtrip ∧ formatter = none) →
        ∃ n b c, CountsAs settings n limit ∧ settings.resolved.shortcodes = .bool b ∧
          settings.resolved.mathLabels = .bool c ∧
          ComesTo s fault n
            (fun text converted => stage.run ⟨b, c⟩ formatter text = .ok converted) given
            (convertGiven s fault limit given stage settings formatter))) ∧
    ((∃ e, convertGiven s fault limit given stage settings formatter = .error e ∧
        e.isTold = false) ↔
      Admitted limit stage settings formatter ∧ ∃ e, given = .stray e) ∧
    ∀ g : Guard,
      (g.convertStep s fault stage settings formatter).1 =
        (g.convert s fault stage settings formatter).map (·.text) ∧
      ∀ e, (g.convertStep s fault stage settings formatter).1 = .error e →
        (g.convertStep s fault stage settings formatter).2 = g := by
  refine ⟨fun v => convertGiven_of_no_limit, fun hlimit => ⟨convertGiven_of_not_valid hlimit,
    convertGiven_of_no_formatter hlimit, fun hvalid hformatter => ?_⟩, untold_iff s fault hnull,
    fun g => ?_⟩
  · exact convertGiven_comesTo s fault hnull ⟨hlimit, hvalid, hformatter⟩
  · rw [Guard.convertStep_eq]
    cases g.convert s fault stage settings formatter with
    | error e => exact ⟨rfl, fun _ _ => rfl⟩
    | ok c => exact ⟨rfl, nofun⟩

/-! ## One document that is missing, and one that is there -/

def missing : Path :=
  ⟨.none, ["missing.md"]⟩

def doc : Path :=
  ⟨.none, ["doc.md"]⟩

def shortcodeText : List Char :=
  "\x7b\x7b< a >\x7d\x7d".toList

/-- A root directory with one document, a shortcode. -/
def shortcodeDocument : Disk :=
  { tree := ⟨[(["doc.md"], .file ⟨1, 0o644, 1, Text.Utf8.encode shortcodeText⟩)]⟩, nextInode := 2 }

theorem null_not_mem_of_path {path path' : Path} (h : '\x00' ∉ path.text.toList)
    (heq : GivenPath.path path = .path path') : '\x00' ∉ path'.text.toList :=
  GivenPath.path.inj heq ▸ h

theorem spells_shortcodeDocument : shortcodeDocument.Spells none doc 10 shortcodeText :=
  ⟨["doc.md"], ⟨1, 0o644, 1, Text.Utf8.encode shortcodeText⟩, rfl, rfl, by decide,
    Text.Utf8.decode_eq_ok_iff.mpr rfl⟩

theorem run_shortcodeText : Stage.preprocess.run ⟨true, true⟩ none shortcodeText =
    .ok "::shortcode\x7braw=\"a\"\x7d".toList := by
  change Except.ok (Stage.convert ⟨true, true⟩ shortcodeText) = _
  rw [Stage.convert, Scan.ranges_eq_recorded]
  exact congrArg _ (by decide +kernel)

theorem documents_outcome :
    (∀ path, GivenPath.path missing = .path path → '\x00' ∉ path.text.toList) ∧
      (∀ n, ¬ SpellsLimit "-1" n) ∧
      convertGiven {} (some .openDenied) (some "-1") (.path missing) .roundtrip
          { dialect := .null } none = .error (.failed (.sizeLimit ⟨"-1"⟩)) ∧
      (∃ e, convertGiven {} none (some "+1_0") (.path missing) .roundtrip { dialect := .null } none =
        .error (.failed (.settings e))) ∧
      (∀ path, GivenPath.path doc = .path path → '\x00' ∉ path.text.toList) ∧
      convertGiven shortcodeDocument none (some "+1_0") (.path doc) .preprocess {} none =
        .ok "::shortcode\x7braw=\"a\"\x7d".toList := by
  have hmissing : ∀ path, GivenPath.path missing = .path path → '\x00' ∉ path.text.toList :=
    fun _ => null_not_mem_of_path (by decide)
  have hdoc : ∀ path, GivenPath.path doc = .path path → '\x00' ∉ path.text.toList :=
    fun _ => null_not_mem_of_path (by decide)
  have hbad : ∀ n, ¬ SpellsLimit "-1" n := by
    rintro n ⟨hn, hpos⟩
    have heq : integer? "-1".toList = some (-1) := by decide
    cases heq.symm.trans hn
    exact absurd hpos (by decide)
  have hten : integer? "+1_0".toList = some 10 := by decide
  have hgood : ∀ v, some "+1_0" = some v → ∃ n, SpellsLimit v n := by
    rintro v heq
    cases heq
    exact ⟨10, hten, by decide⟩
  have hinvalid : ¬ Settings.Valid { dialect := .null } := fun h => by
    rcases h.dialect with h | h <;> cases h
  have hvalid : Settings.Valid {} :=
    ⟨Or.inl rfl, ⟨true, rfl⟩, ⟨true, rfl⟩, ⟨defaultMaxSize, rfl, by decide⟩⟩
  obtain ⟨e, -, he⟩ := ((convertGiven_outcome _ _ hmissing).2.1 hgood).1 hinvalid
  refine ⟨hmissing, hbad, (convertGiven_outcome _ _ hmissing).1 "-1" rfl hbad, ⟨e, he⟩, hdoc, ?_⟩
  obtain ⟨n, b, c, hcounts, hb, hc, hcomes⟩ :=
    ((convertGiven_outcome shortcodeDocument none hdoc).2.1 hgood).2.2 hvalid
      (fun h => nomatch (h.1 : Stage.preprocess = .roundtrip))
  cases hb
  cases hc
  generalize convertGiven shortcodeDocument none (some "+1_0") (.path doc) .preprocess {} none =
    result at hcomes
  cases hcomes with
  | text path text converted hspells hrun =>
      cases hspells.unique spells_shortcodeDocument
      exact congrArg _ (Except.ok.inj (hrun.symm.trans run_shortcodeText))
  | failure path e hno =>
      obtain ⟨given, hten', hpos⟩ := hcounts
      cases hten.symm.trans hten'
      exact absurd spells_shortcodeDocument (hno shortcodeText)

/-- What has no encoding ends a conversion with a failure that is not told as one of it. -/
theorem strayPath_untold :
    convertGiven {} none none (.stray ⟨0, 1, 0⟩) .preprocess {} none =
        .error (.unencodable ⟨0, 1, 0⟩) ∧
      (GivenError.unencodable ⟨0, 1, 0⟩).isTold = false :=
  ⟨rfl, rfl⟩

end DirectiveFences.Files
