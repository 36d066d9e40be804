/-
Files that a search passes over.

A file that cannot be opened, that is no UTF-8, or that is no document is to have no part in a
search, as if it did not exist.  That is meant literally here: the file is taken out of the tree.
Every walk then ends where it ended before, except that one that came to the file, or tried to go
on behind it, finds nothing (`Tree.Loses.walk`); so a lenient reading asks the same questions and
gets the same answers (`canonical_unlink`), and a file with settings is missed only where nothing
was found in it (`documentAt_unlink`).

All of this holds as long as the search comes to an end.  It breaks off at bytes that are no text,
although a file of such bytes is one of those to be passed over, and at a document that is not
malformed and yet not read: the search does what it should exactly if it does not break off
(`skipsUnusable_iff`).
-/
import DirectiveFences.Proofs.CanonicalPlaces
import DirectiveFences.Proofs.SettingsSearch

namespace DirectiveFences

/-! ## A tree without one of its files -/

namespace Files

namespace Tree

variable {t t' : Tree} {place : Place}

/-- The file at a place is gone, and nothing else has changed. -/
structure Loses (t t' : Tree) (place : Place) (f : File) : Prop where
  file : t.get? place = some (.file f)
  gone : t'.get? place = none
  others : ∀ p, p ≠ place → t'.get? p = t.get? p

variable {f : File} {follow : Bool} {dir cwd : Place} {names : List String} {path : String}

theorem loses_erase (h : t.get? place = some (.file f)) : t.Loses (t.erase place) place f := by
  have hne : place ≠ [] := fun heq => by
    rw [heq] at h
    cases h
  refine ⟨h, by rw [get?_erase t place place hne, if_pos rfl], fun p hp => ?_⟩
  cases p with
  | nil => rfl
  | cons a p => rw [get?_erase t place _ (List.cons_ne_nil a p), if_neg hp]

/-- Under a name that does not lead to the file the same is found as before. -/
theorem Loses.finds (h : t.Loses t' place f) {name : String} {found : Option Node}
    (hfinds : t.Finds dir name found) (hno : ∀ f', found ≠ some (.file f')) :
    t'.Finds dir name found := by
  refine { hfinds with get? := (h.others _ fun heq => ?_).trans hfinds.get? }
  exact hno f (hfinds.get?.symm.trans (heq ▸ h.file))

/-- Under a name that leads to a file there is the same file as before, or it was the one that is
gone. -/
theorem Loses.finds_file (h : t.Loses t' place f) {name : String} {f' : File}
    (hfinds : t.Finds dir name (some (.file f'))) :
    t'.Finds dir name (some (.file f')) ∨
      dir ++ [name] = place ∧ f' = f ∧ t'.Finds dir name none := by
  by_cases hat : dir ++ [name] = place
  · have hfile := hfinds.get?
    rw [hat, h.file] at hfile
    cases hfile
    exact Or.inr ⟨hat, rfl, { hfinds with get? := hat ▸ h.gone }⟩
  · exact Or.inl { hfinds with get? := (h.others _ hat).trans hfinds.get? }

/-- A leg is the same as before, or it came to the file, or it tried to go on behind a file. -/
theorem Loses.leg (h : t.Loses t' place f) :
    t'.leg follow dir names = t.leg follow dir names ∨
      (t.leg follow dir names = .arrives place (.file f) ∧
        t'.leg follow dir names = .misses place) ∨
      (t.leg follow dir names = .fails .notDirectory ∧
        t'.leg follow dir names = .fails .notFound) := by
  have hleg := t.legTo follow dir names
  generalize t.leg follow dir names = leg at hleg ⊢
  induction hleg with
  | nil => exact Or.inl rfl
  | skip hpart _ ih => rwa [leg_skip hpart]
  | up _ ih => rwa [leg_up]
  | enter hfinds _ ih => rwa [leg_enter (h.finds hfinds nofun)]
  | long hpart hup hlong => exact Or.inl (leg_long hpart hup hlong _)
  | misses hfinds => exact Or.inl (LegTo.misses (h.finds hfinds nofun)).leg_eq
  | absent hfinds hrest => exact Or.inl (LegTo.absent (h.finds hfinds nofun) hrest).leg_eq
  | link hfinds hfollow => exact Or.inl (LegTo.link (h.finds hfinds nofun) hfollow).leg_eq
  | follows hfinds hfollow => exact Or.inl (LegTo.follows (h.finds hfinds nofun) hfollow).leg_eq
  | file hfinds =>
      rcases h.finds_file hfinds with hsame | ⟨rfl, rfl, hgone⟩
      · exact Or.inl (LegTo.file hsame).leg_eq
      · exact Or.inr (Or.inl ⟨rfl, (LegTo.misses hgone).leg_eq⟩)
  | behindFile hfinds hrest =>
      rcases h.finds_file hfinds with hsame | ⟨-, -, hgone⟩
      · exact Or.inl (LegTo.behindFile hsame hrest).leg_eq
      · exact Or.inr (Or.inr ⟨rfl, (LegTo.absent hgone hrest).leg_eq⟩)

theorem Loses.walk (h : t.Loses t' place f) {links : Nat} :
    t'.walk follow links dir names = t.walk follow links dir names ∨
      (t.walk follow links dir names = .ok (.taken place (.file f)) ∧
        t'.walk follow links dir names = .ok (.free place)) ∨
      (t.walk follow links dir names = .error .notDirectory ∧
        t'.walk follow links dir names = .error .notFound) := by
  induction links generalizing dir names with
  | zero =>
      rw [Tree.walk, Tree.walk]
      rcases @Loses.leg t t' place f follow dir names h with heq | ⟨hleg, hleg'⟩ | ⟨hleg, hleg'⟩
      · exact Or.inl (by rw [heq])
      · exact Or.inr (Or.inl (by rw [hleg, hleg']; exact ⟨rfl, rfl⟩))
      · exact Or.inr (Or.inr (by rw [hleg, hleg']; exact ⟨rfl, rfl⟩))
  | succ links ih =>
      rw [Tree.walk, Tree.walk]
      rcases @Loses.leg t t' place f follow dir names h with heq | ⟨hleg, hleg'⟩ | ⟨hleg, hleg'⟩
      · rw [heq]
        cases t.leg follow dir names with
        | arrives | misses | fails => exact Or.inl rfl
        | follows dir' target rest => exact ih
      · exact Or.inr (Or.inl (by rw [hleg, hleg']; exact ⟨rfl, rfl⟩))
      · exact Or.inr (Or.inr (by rw [hleg, hleg']; exact ⟨rfl, rfl⟩))

/-- What a path leads to is the same as before, or there is nothing now where there was the file, or
nothing as well. -/
theorem Loses.look (h : t.Loses t' place f) :
    t'.look follow cwd path = t.look follow cwd path ∨
      t'.look follow cwd path = .error (.system ⟨.notFound, some path⟩) ∧
        (t.look follow cwd path = .ok (place, .file f) ∨
          t.look follow cwd path = .error (.system ⟨.notDirectory, some path⟩)) := by
  by_cases hcallable : Callable path
  · rw [Tree.look, Tree.look, find_of_callable hcallable, find_of_callable hcallable]
    rcases @Loses.walk t t' place f follow (startOf cwd path) (namesOf path) h linkLimit with
      heq | ⟨hwalk, hwalk'⟩ | ⟨hwalk, hwalk'⟩
    · exact Or.inl (by rw [heq])
    · exact Or.inr (by rw [hwalk, hwalk']; exact ⟨rfl, Or.inl rfl⟩)
    · exact Or.inr (by rw [hwalk, hwalk']; exact ⟨rfl, Or.inr rfl⟩)
  · obtain ⟨e, -, hfind⟩ := find_of_not_callable hcallable
    exact Or.inl (by rw [Tree.look, Tree.look, hfind, hfind])

end Tree

variable {s : Disk} {fault : Option Fault} {place : Place} {f : File}

theorem Disk.stat_unlink (h : s.tree.get? place = some (.file f)) (path : String)
    (fault : Option Fault) (purpose : Purpose) :
    (s.unlink place).stat path fault purpose = s.stat path fault purpose ∨
      (s.unlink place).stat path fault purpose = .error (.system ⟨.notFound, some path⟩) ∧
        (s.stat path fault purpose = .ok (place, .file f) ∨
          s.stat path fault purpose = .error (.system ⟨.notDirectory, some path⟩)) := by
  unfold Disk.stat
  cases failure? fault (.follow purpose path) with
  | none => exact (Tree.loses_erase h).look
  | some e => exact Or.inl rfl

theorem Disk.lstat_unlink (h : s.tree.get? place = some (.file f)) (path : String)
    (fault : Option Fault) (purpose : Purpose) :
    (s.unlink place).lstat fault path purpose = s.lstat fault path purpose ∨
      (s.unlink place).lstat fault path purpose = .error (.system ⟨.notFound, some path⟩) ∧
        (s.lstat fault path purpose = .ok (place, .file f) ∨
          s.lstat fault path purpose = .error (.system ⟨.notDirectory, some path⟩)) := by
  unfold Disk.lstat
  cases failure? fault (.look purpose path) with
  | none => exact (Tree.loses_erase h).look
  | some e => exact Or.inl rfl

theorem linkTarget?_unlink (h : s.tree.get? place = some (.file f)) :
    linkTarget? (s.unlink place) fault false = linkTarget? s fault false := by
  funext path
  unfold linkTarget?
  simp only [Bool.false_eq_true, if_false]
  rcases Disk.lstat_unlink h path fault .searching with heq | ⟨hgone, hfile | hbehind⟩
  · rw [heq]
  · rw [hgone, hfile]
  · rw [hgone, hbehind]

theorem canonical_unlink (h : s.tree.get? place = some (.file f)) (path : Path) :
    canonical (s.unlink place) fault false path = canonical s fault false path := by
  have hread : readWithin (s.unlink place) fault false (s.unlink place).linkRoom =
      readWithin s fault false s.linkRoom :=
    readWithin_congr (linkTarget?_unlink h) (fun hstrict => absurd hstrict Bool.false_ne_true) _
  have hcwd : (s.unlink place).cwd = s.cwd := rfl
  simp only [canonical, hread, hcwd, Bool.false_eq_true, if_false]
  split
  · rfl
  · rfl
  case h_3 found _ _ | h_4 found _ =>
    rcases Disk.stat_unlink h (found.absolute s.cwd).text fault .searching with
      heq | ⟨hgone, hfile | hbehind⟩
    · rw [heq]
    · rw [hgone, hfile]
    · rw [hgone, hbehind]

end Files

/-! ## Files without a document -/

namespace Settings

open Files

/-- Nothing can be learnt from the file at a place: it cannot be opened under any of its paths, its
bytes are no UTF-8, or its text is no document. -/
inductive NoDocument (s : Disk) (fault : Option Fault) (place : Place) (f : File) : Prop
  | closed (hclosed : ∀ path, s.stat path = .ok (place, .file f) →
      failure? fault (.openFile path) ≠ none)
  | undecodable (e : Text.Utf8.DecodeError) (hdecode : Text.Utf8.decode f.bytes = .error e)
  | unparsed (text : List Char) (e : Toml.Error) (hdecode : Text.Utf8.decode f.bytes = .ok text)
      (hparse : Toml.parse s.valueRoom text = .error e)

/-- A file with a document is there. -/
def isSource (s : Disk) (fault : Option Fault) (file : String) : Bool :=
  match documentAt s fault file with
  | .ok (some _) => true
  | _ => false

/-- A search ends with settings, or with a failure of settings. -/
def Ends (result : Except LoadError Settings) : Prop :=
  (∃ settings, result = .ok settings) ∨ ∃ e, result = .error (.refused e)

variable {s : Disk} {fault : Option Fault} {place : Place} {f : File} {file : String}
  {files : List (String × List (List String))}

theorem NoDocument.not_holds (h : NoDocument s fault place f)
    (hat : s.stat file = .ok (place, .file f)) (document : Table) :
    ¬ Holds s fault file document := by
  rintro ⟨f', text, ⟨⟨place', hfound⟩, hopened⟩, hdecode, hparse⟩
  cases hat.symm.trans (Disk.stat_none hfound)
  rcases h with hclosed | ⟨e, hdecode'⟩ | ⟨text', e, hdecode', hparse'⟩
  · exact hclosed file hat hopened
  · cases hdecode.symm.trans hdecode'
  · cases hdecode.symm.trans hdecode'
    cases hparse.symm.trans hparse'

theorem documentAt_of_error {s' : Disk} {e : CallError}
    (h : s.stat file fault .searching = .error e) (h' : s'.stat file fault .searching = .error e) :
    documentAt s' fault file = documentAt s fault file := by
  cases e with
  | embeddedNull => simp [documentAt, isThere, bind, Except.bind, h, h']
  | system e =>
      cases habsent : e.errno.saysAbsent <;>
        simp [documentAt, isThere, bind, Except.bind, h, h', habsent]

/-- What is found in a file with settings is the same as before, or the file was there, and nothing
is found now. -/
theorem documentAt_unlink (h : s.tree.get? place = some (.file f)) (file : String) :
    documentAt (s.unlink place) fault file = documentAt s fault file ∨
      s.stat file = .ok (place, .file f) ∧
        documentAt (s.unlink place) fault file = .ok none := by
  have hroom : (s.unlink place).valueRoom = s.valueRoom := rfl
  rcases Disk.stat_unlink h file fault .searching with heq | ⟨hgone, hfile | hbehind⟩
  · rcases Disk.stat_unlink h file none .locating with hplain | ⟨hgone, -⟩
    · exact Or.inl (by simp only [documentAt, isThere, Disk.read, heq, hplain, hroom])
    · -- the look is said to fail, so that the file is not opened
      cases hlook : s.stat file fault .searching with
      | ok found => cases hgone.symm.trans (Disk.stat_none (heq.trans hlook))
      | error e => exact Or.inl (documentAt_of_error hlook (heq.trans hlook))
  · refine Or.inr ⟨Disk.stat_none hfile, ?_⟩
    simp [documentAt, isThere, bind, Except.bind, hgone, Errno.saysAbsent]
  · exact Or.inl (by
      simp [documentAt, isThere, bind, Except.bind, hgone, hbehind, Errno.saysAbsent])

theorem ends_ofValue (file : String) (path : List String) (v : Value) :
    Ends (ofValue file path v) := by
  unfold ofValue Ends
  split
  · split
    · exact Or.inl ⟨_, rfl⟩
    · exact Or.inr ⟨_, rfl⟩
  · exact Or.inr ⟨_, rfl⟩

theorem documentAt_of_ends {tables : List (List String)}
    (h : Ends (fromFirst s fault ((file, tables) :: files))) :
    ∃ found, documentAt s fault file = .ok found := by
  cases hdocument : documentAt s fault file with
  | ok found => exact ⟨found, rfl⟩
  | error e =>
      have hfirst : fromFirst s fault ((file, tables) :: files) = .error e := by
        simp only [fromFirst, fromFile, bind, Except.bind, hdocument]
      rw [hfirst] at h
      rcases h with ⟨settings, heq⟩ | ⟨e', heq⟩
      · cases heq
      · cases heq
        cases documentAt_eq_error_iff.mp hdocument

theorem fromFirst_of_none {tables : List (List String)}
    (h : fromFile s fault file tables = .ok none) :
    fromFirst s fault ((file, tables) :: files) = fromFirst s fault files := by
  simp only [fromFirst, h]

theorem fromFirst_unlink (hfile : s.tree.get? place = some (.file f)) (hno : NoDocument s fault place f)
    (h : Ends (fromFirst s fault files)) :
    fromFirst (s.unlink place) fault files = fromFirst s fault files := by
  induction files with
  | nil => rfl
  | cons entry files ih =>
      obtain ⟨file, tables⟩ := entry
      obtain ⟨found, hfound⟩ := documentAt_of_ends h
      have hsame : documentAt (s.unlink place) fault file = documentAt s fault file := by
        rcases documentAt_unlink hfile file with heq | ⟨hat, hgone⟩
        · exact heq
        · cases found with
          | none => rw [hgone, hfound]
          | some document =>
              exact absurd (documentAt_eq_some_iff.mp hfound) (hno.not_holds hat document)
      have hfrom : fromFile (s.unlink place) fault file tables = fromFile s fault file tables := by
        simp only [fromFile, hsame]
      cases hresult : fromFile s fault file tables with
      | error e => simp only [fromFirst, hfrom, hresult]
      | ok settings =>
          cases settings with
          | some settings => simp only [fromFirst, hfrom, hresult]
          | none =>
              rw [fromFirst_of_none hresult] at h
              rw [fromFirst_of_none hresult, fromFirst_of_none (hfrom.trans hresult)]
              exact ih h

/-- A search that comes to an end need not ask files in which no document is found. -/
theorem fromFirst_filter (h : Ends (fromFirst s fault files)) :
    fromFirst s fault (files.filter fun entry => isSource s fault entry.1) =
      fromFirst s fault files := by
  induction files with
  | nil => rfl
  | cons entry files ih =>
      obtain ⟨file, tables⟩ := entry
      obtain ⟨found, hfound⟩ := documentAt_of_ends h
      cases found with
      | none =>
          have hresult : fromFile s fault file tables = .ok none := by
            simp only [fromFile, bind, Except.bind, hfound]
          have hskip : isSource s fault file = false := by rw [isSource, hfound]
          rw [fromFirst_of_none hresult] at h ⊢
          rw [List.filter_cons_of_neg (by simp [hskip]), ih h]
      | some document =>
          have hkeep : isSource s fault file = true := by rw [isSource, hfound]
          rw [List.filter_cons, if_pos hkeep]
          cases hresult : fromFile s fault file tables with
          | error e => simp only [fromFirst, hresult]
          | ok settings =>
              cases settings with
              | some settings => simp only [fromFirst, hresult]
              | none =>
                  rw [fromFirst_of_none hresult] at h
                  rw [fromFirst_of_none hresult, fromFirst_of_none hresult, ih h]

/-! ## The whole search -/

/-- A search that is given its directory ends with settings, or with a failure of settings. -/
def EndsGiven (result : Except (GivenError LoadError) Settings) : Prop :=
  (∃ settings, result = .ok settings) ∨ ∃ e, result = .error (.failed (.refused e))

/-- A search does what it should about files from which nothing can be learnt: it ends with settings
or a failure of settings, the result is the same when such a file is taken away, and it is that of
the other files. -/
structure SkipsUnusable (s : Disk) (fault : Option Fault) (start : GivenPath) : Prop where
  ends : EndsGiven (loadGiven s fault start)
  asIfAbsent : ∀ place f, s.tree.get? place = some (.file f) → NoDocument s fault place f →
    loadGiven (s.unlink place) fault start = loadGiven s fault start
  goesOn : ∀ dir top, start = .path dir → canonical s fault false dir = .ok top →
    load s fault dir =
      fromFirst s fault ((filesFrom top).filter fun entry => isSource s fault entry.1)

variable {start : GivenPath}

theorem ends_ofSource (source : Option ((String × List String) × Value)) : Ends (ofSource source) := by
  cases source with
  | none => exact Or.inl ⟨_, rfl⟩
  | some found => exact ends_ofValue _ _ _

theorem endsGiven_iff {dir : Path} :
    EndsGiven (loadGiven s fault (.path dir)) ↔ Ends (load s fault dir) := by
  rw [loadGiven, GivenPath.ask]
  cases load s fault dir with
  | ok settings => exact ⟨fun _ => Or.inl ⟨settings, rfl⟩, fun _ => Or.inl ⟨settings, rfl⟩⟩
  | error e =>
      show EndsGiven (.error (.failed e)) ↔ Ends (.error e)
      simp [EndsGiven, Ends]

theorem endsGiven_load_iff :
    EndsGiven (loadGiven s fault start) ↔ ∀ e, ¬ BreaksOff s fault start e := by
  constructor
  · intro hends e hbreaks
    obtain ⟨hload, hother⟩ := loadGiven_of_breaksOff hbreaks
    rw [hload] at hends
    rcases hends with ⟨settings, heq⟩ | ⟨e', heq⟩
    · cases heq
    · exact hother e' (Except.error.inj heq)
  · intro hwhole
    obtain ⟨dir, top, source, rfl, -, -, hload⟩ := load_of_not_breaksOff hwhole
    rw [endsGiven_iff, hload]
    exact ends_ofSource source

/-- A search breaks off where it fails for a reason that is none of the settings. -/
theorem breaksOff_iff {e : GivenError LoadError} :
    BreaksOff s fault start e ↔
      loadGiven s fault start = .error e ∧ ∀ e', e ≠ .failed (.refused e') := by
  refine ⟨loadGiven_of_breaksOff, fun ⟨hload, hother⟩ => Classical.byContradiction fun hnot => ?_⟩
  have hends : EndsGiven (loadGiven s fault start) := endsGiven_load_iff.mpr fun e' hbreaks => by
    cases hload.symm.trans (loadGiven_of_breaksOff hbreaks).1
    exact hnot hbreaks
  rw [hload] at hends
  rcases hends with ⟨settings, heq⟩ | ⟨e', heq⟩
  · cases heq
  · exact hother e' (Except.error.inj heq)

/-- **Files that are passed over.**  On every disk and from every directory, whatever the files with
settings hold: a search does what it should about the files that cannot be opened, are no UTF-8 or
are no document exactly if it does not break off, and it breaks off exactly where it fails for a
reason that is none of the settings. -/
theorem skipsUnusable_iff (s : Disk) (fault : Option Fault) (start : GivenPath) :
    (SkipsUnusable s fault start ↔ ∀ e, ¬ BreaksOff s fault start e) ∧
      ∀ e, BreaksOff s fault start e ↔
        loadGiven s fault start = .error e ∧ ∀ e', e ≠ .failed (.refused e') := by
  refine ⟨⟨fun h => endsGiven_load_iff.mp h.ends, fun hwhole => ?_⟩, fun e => breaksOff_iff⟩
  obtain ⟨dir, top, -, rfl, hcanonical, -, -⟩ := load_of_not_breaksOff hwhole
  have hends := endsGiven_iff.mp (endsGiven_load_iff.mpr hwhole)
  have hload : load s fault dir = fromFirst s fault (filesFrom top) := by rw [load, hcanonical]
  refine ⟨endsGiven_iff.mpr hends, fun place f hfile hno => ?_, fun dir' top' hdir htop' => ?_⟩
  · have hsame : load (s.unlink place) fault dir = load s fault dir := by
      rw [hload] at hends ⊢
      rw [load, canonical_unlink hfile, hcanonical]
      exact fromFirst_unlink hfile hno hends
    rw [loadGiven, loadGiven, GivenPath.ask, GivenPath.ask, hsame]
  · cases hdir
    cases hcanonical.symm.trans htop'
    rw [hload] at hends ⊢
    rw [fromFirst_filter hends]

/-! ## A disk with a byte that is no text -/

/-- A root directory with one file of settings, of a byte that begins no character. -/
def strayByteDisk : Disk :=
  rootDisk [0xFF]

/-- Without the file there are settings, and with it there are none: it is not passed over. -/
theorem strayByte_breaksOff :
    strayByteDisk.tree.get? ["pyproject.toml"] = some (.file ⟨1, 0o644, 0, [0xFF]⟩) ∧
      NoDocument strayByteDisk none ["pyproject.toml"] ⟨1, 0o644, 0, [0xFF]⟩ ∧
      loadGiven strayByteDisk none (.path ⟨.slash, []⟩) =
        .error (.failed (.undecodable ⟨0, 1, 0xFF, .start⟩)) ∧
      loadGiven (strayByteDisk.unlink ["pyproject.toml"]) none (.path ⟨.slash, []⟩) = .ok {} := by
  have hdecode : Text.Utf8.decode [0xFF] = .error ⟨0, 1, 0xFF, .start⟩ := rfl
  refine ⟨rfl, .undecodable _ hdecode, ?_, ?_⟩
  · exact (loadGiven_of_breaksOff
      (breaksOff_rootDisk (.undecodable _ _ (opens_rootDisk [0xFF]) hdecode))).1
  · have hpassed : ∀ place ∈ sourcePlaces ⟨.slash, []⟩,
        Passed (strayByteDisk.unlink ["pyproject.toml"]) none place := fun place hplace => by
      rcases sourcePlaces_root place hplace with hfile | hfile <;>
        exact passed_of_no_document (by rw [hfile]; rfl)
    rw [loadGiven, GivenPath.ask, load_of_chosen (canonical_root _) (.none hpassed)]
    rfl

end Settings

end DirectiveFences
