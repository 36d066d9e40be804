/-
Where settings are found.

A search asks one place after the other, a place being a file and a path of keys in it, and
stops at the first at which something stands (`Chosen`).  The files are read one by one, and
each file once for all its tables; that comes to the same as going through the places
(`fromFirst_filesFrom`), and there the first is split off by what comes before it.

A file that is not there, cannot be opened or is malformed is passed over, as it should be.  But
there are files on which a search breaks off with a failure of another kind (`Breaks`): one
that cannot be looked at, one that is no UTF-8, and one that is not malformed and yet not read, since
an integer in it has too many digits (`breaks_of_ones`) or its values lie too deep inside each other
(`breaks_of_brackets`).
-/
import DirectiveFences.Proofs.GuardedFile
import DirectiveFences.Proofs.UnreadDocuments
import DirectiveFences.Proofs.Utf8Sequences
import DirectiveFences.Settings.Sources

namespace DirectiveFences

namespace Files

/-- What is read is the content of a file that may be opened. -/
theorem Disk.read_eq_ok {s : Disk} {fault : Option Fault}
    {path : String} {bytes : List UInt8} (h : s.read fault path = .ok bytes) :
    ∃ place f, s.stat path = .ok (place, .file f) ∧ failure? fault (.openFile path) = none ∧
      bytes = f.bytes := by
  unfold Disk.read at h
  split at h
  · cases h
  · rename_i hopen
    split at h <;> cases h
    exact ⟨_, _, ‹_›, hopen, rfl⟩

end Files

namespace Settings

open Files

/-! ## Files -/

variable {s : Disk} {fault : Option Fault} {file : String} {path : List String}

/-- A file is opened: it is found, it is a file, and its opening does not fail. -/
structure Opens (s : Disk) (fault : Option Fault) (file : String) (f : File) : Prop where
  found : ∃ place, s.stat file fault .searching = .ok (place, .file f)
  opened : failure? fault (.openFile file) = none

/-- A file holds a document: it is opened, and its bytes spell a document. -/
def Holds (s : Disk) (fault : Option Fault) (file : String) (document : Table) : Prop :=
  ∃ f text, Opens s fault file f ∧ Text.Utf8.decode f.bytes = .ok text ∧
    Toml.parse s.valueRoom text = .ok document

/-- A search breaks off at a file. -/
inductive Breaks (s : Disk) (fault : Option Fault) (file : String) : LoadError → Prop
  /-- It cannot be looked at, though it may be there. -/
  | inaccessible (e : SystemError) (h : s.stat file fault .searching = .error (.system e))
      (hthere : e.errno.saysAbsent = false) : Breaks s fault file (.call (.system e))
  /-- Its bytes spell no text. -/
  | undecodable (f : File) (e : Text.Utf8.DecodeError) (hopen : Opens s fault file f)
      (hdecode : Text.Utf8.decode f.bytes = .error e) : Breaks s fault file (.undecodable e)
  /-- Its text has an integer of too many digits, or values too deep inside each other, before
  anything that is malformed. -/
  | unreadable (f : File) (text : List Char) (e : Toml.Error) (hopen : Opens s fault file f)
      (hdecode : Text.Utf8.decode f.bytes = .ok text)
      (hparse : Toml.parse s.valueRoom text = .error e) (hformed : e ≠ .malformed) :
      Breaks s fault file (.unreadable e)

theorem Opens.read_eq {f : File} (h : Opens s fault file f) : s.read fault file = .ok f.bytes := by
  obtain ⟨⟨place, hfound⟩, hopened⟩ := h
  simp only [Disk.read, hopened, Disk.stat_none hfound]

theorem isThere_eq_ok_true {place : Place} {node : Node}
    (h : s.stat file fault .searching = .ok (place, node)) : isThere s fault file = .ok true := by
  rw [isThere, h]

theorem Opens.documentAt_eq {f : File} (h : Opens s fault file f) :
    documentAt s fault file = documentIn s.valueRoom f.bytes := by
  obtain ⟨place, hfound⟩ := h.found
  simp only [documentAt, isThere_eq_ok_true hfound, bind, Except.bind, Bool.not_true,
    Bool.false_eq_true, if_false, h.read_eq]

/-- The content of a file spells a document, or nothing, or it is no text, or not read though it is
not malformed. -/
theorem documentIn_cases (room : Nat) (bytes : List UInt8) :
    (∃ e, Text.Utf8.decode bytes = .error e ∧ documentIn room bytes = .error (.undecodable e)) ∨
      ∃ text, Text.Utf8.decode bytes = .ok text ∧
        ((∃ t, Toml.parse room text = .ok t ∧ documentIn room bytes = .ok (some t)) ∨
          (Toml.parse room text = .error .malformed ∧ documentIn room bytes = .ok none) ∨
          ∃ e, Toml.parse room text = .error e ∧ e ≠ .malformed ∧
            documentIn room bytes = .error (.unreadable e)) := by
  unfold documentIn
  cases hdecode : Text.Utf8.decode bytes with
  | error e => exact Or.inl ⟨e, rfl, rfl⟩
  | ok text =>
      refine Or.inr ⟨text, rfl, ?_⟩
      simp only
      cases hparse : Toml.parse room text with
      | ok t => exact Or.inl ⟨t, rfl, rfl⟩
      | error e =>
          cases e with
          | malformed => exact Or.inr (Or.inl ⟨rfl, rfl⟩)
          | tooManyDigits | tooDeep => exact Or.inr (Or.inr ⟨_, rfl, nofun, rfl⟩)

theorem documentAt_cases (s : Disk) (fault : Option Fault) (file : String) :
    (∃ f, Opens s fault file f) ∨ documentAt s fault file = .ok none ∨
      ∃ e, s.stat file fault .searching = .error (.system e) ∧ e.errno.saysAbsent = false ∧
        documentAt s fault file = .error (.call (.system e)) := by
  cases hstat : s.stat file fault .searching with
  | error e =>
      cases e with
      | embeddedNull =>
          refine Or.inr (Or.inl ?_)
          simp [documentAt, isThere, bind, Except.bind, hstat]
      | system e =>
          cases habsent : e.errno.saysAbsent with
          | true =>
              refine Or.inr (Or.inl ?_)
              simp [documentAt, isThere, bind, Except.bind, hstat, habsent]
          | false =>
              refine Or.inr (Or.inr ⟨e, rfl, habsent, ?_⟩)
              simp [documentAt, isThere, bind, Except.bind, hstat, habsent]
  | ok found =>
      cases hread : s.read fault file with
      | error e =>
          refine Or.inr (Or.inl ?_)
          simp [documentAt, bind, Except.bind, isThere_eq_ok_true hstat, hread]
      | ok bytes =>
          obtain ⟨place, f, hplain, hopened, -⟩ := Disk.read_eq_ok hread
          cases (Disk.stat_none hstat).symm.trans hplain
          exact Or.inl ⟨f, ⟨place, hstat⟩, hopened⟩

theorem documentAt_eq_some_iff {t : Table} :
    documentAt s fault file = .ok (some t) ↔ Holds s fault file t := by
  constructor
  · intro h
    rcases documentAt_cases s fault file with ⟨f, hopen⟩ | hnone | ⟨e, -, -, herror⟩
    · rw [hopen.documentAt_eq] at h
      rcases documentIn_cases s.valueRoom f.bytes with ⟨e, -, herror⟩ |
        ⟨text, hdecode, ⟨t', hparse, hsome⟩ | ⟨-, hnone⟩ | ⟨e, -, -, herror⟩⟩
      · cases h.symm.trans herror
      · cases h.symm.trans hsome
        exact ⟨f, text, hopen, hdecode, hparse⟩
      · cases h.symm.trans hnone
      · cases h.symm.trans herror
    · cases h.symm.trans hnone
    · cases h.symm.trans herror
  · rintro ⟨f, text, hopen, hdecode, hparse⟩
    simp only [hopen.documentAt_eq, documentIn, hdecode, hparse]

theorem documentAt_eq_error_iff {e : LoadError} :
    documentAt s fault file = .error e ↔ Breaks s fault file e := by
  constructor
  · intro h
    rcases documentAt_cases s fault file with ⟨f, hopen⟩ | hnone | ⟨e', hstat, hthere, herror⟩
    · rw [hopen.documentAt_eq] at h
      rcases documentIn_cases s.valueRoom f.bytes with ⟨e', hdecode, herror⟩ |
        ⟨text, hdecode, ⟨t', -, hsome⟩ | ⟨-, hnone⟩ | ⟨e', hparse, hformed, herror⟩⟩
      · cases h.symm.trans herror
        exact .undecodable f e' hopen hdecode
      · cases h.symm.trans hsome
      · cases h.symm.trans hnone
      · cases h.symm.trans herror
        exact .unreadable f text e' hopen hdecode hparse hformed
    · cases h.symm.trans hnone
    · cases h.symm.trans herror
      exact .inaccessible e' hstat hthere
  · rintro (⟨e, hstat, hthere⟩ | ⟨f, e, hopen, hdecode⟩ |
      ⟨f, text, e, hopen, hdecode, hparse, hformed⟩)
    · simp [documentAt, isThere, bind, Except.bind, hstat, hthere]
    · simp only [hopen.documentAt_eq, documentIn, hdecode]
    · cases e with
      | malformed => exact absurd rfl hformed
      | tooManyDigits | tooDeep => simp only [hopen.documentAt_eq, documentIn, hdecode, hparse]

/-! ## The search -/

/-- The places in a directory at which settings may stand, in the order in which they are asked: a
file, and a path of keys in it. -/
def placesIn (dir : Path) : List (String × List String) :=
  [((dir.child "pyproject.toml").text, ["tool", "pandoc-directives"]),
    ((dir.child ".pandoc-directives.toml").text, ["pandoc-directives"]),
    ((dir.child ".pandoc-directives.toml").text, ["tool", "pandoc-directives"])]

/-- The places in all directories from one up to the root, the nearest first. -/
def sourcePlaces (top : Path) : List (String × List String) :=
  (top :: top.parents).flatMap placesIn

/-- Something stands at a place. -/
def StandsAt (s : Disk) (fault : Option Fault) (place : String × List String) (v : Value) : Prop :=
  ∃ document, Holds s fault place.1 document ∧ (Value.table document).at? place.2 = some v

/-- Nothing stands at a place, and its file does not break a search off. -/
def Passed (s : Disk) (fault : Option Fault) (place : String × List String) : Prop :=
  (∀ v, ¬ StandsAt s fault place v) ∧ ∀ e, ¬ Breaks s fault place.1 e

theorem passed_of_no_document {place : String × List String}
    (h : documentAt s fault place.1 = .ok none) : Passed s fault place := by
  refine ⟨?_, fun e hbreaks => ?_⟩
  · rintro v ⟨document, hholds, -⟩
    cases h.symm.trans (documentAt_eq_some_iff.mpr hholds)
  · cases h.symm.trans (documentAt_eq_error_iff.mpr hbreaks)

/-- The source of a search: what stands at the first place at which something does, or none if
nothing stands anywhere. -/
inductive Chosen (s : Disk) (fault : Option Fault) (places : List (String × List String)) :
    Option ((String × List String) × Value) → Prop
  | first (before after : List (String × List String)) (place : String × List String) (v : Value)
      (hplaces : places = before ++ place :: after) (hbefore : ∀ q ∈ before, Passed s fault q)
      (hat : StandsAt s fault place v) : Chosen s fault places (some (place, v))
  | none (hall : ∀ q ∈ places, Passed s fault q) : Chosen s fault places none

theorem StandsAt.unique {place : String × List String} {v v' : Value}
    (h : StandsAt s fault place v) (h' : StandsAt s fault place v') : v = v' := by
  obtain ⟨document, hholds, hat⟩ := h
  obtain ⟨document', hholds', hat'⟩ := h'
  cases (documentAt_eq_some_iff.mpr hholds).symm.trans (documentAt_eq_some_iff.mpr hholds')
  cases hat.symm.trans hat'
  rfl

/-- Two sources of one search are the same one. -/
theorem Chosen.unique {places : List (String × List String)}
    {source source' : Option ((String × List String) × Value)} (h : Chosen s fault places source)
    (h' : Chosen s fault places source') : source = source' := by
  rcases h with ⟨before, after, place, v, rfl, hbefore, hat⟩ | hall
  · rcases h' with ⟨before', after', place', v', hplaces, hbefore', hat'⟩ | hall
    · -- of two places, one would come before the other and would be passed
      rcases List.append_eq_append_iff.mp hplaces with ⟨more, rfl, hrest⟩ | ⟨more, rfl, hrest⟩
      · rcases List.cons_eq_append_iff.mp hrest with ⟨rfl, heq⟩ | ⟨more', rfl, -⟩
        · cases heq
          rw [hat.unique hat']
        · exact absurd hat ((hbefore' place (by simp)).1 v)
      · rcases List.cons_eq_append_iff.mp hrest with ⟨rfl, heq⟩ | ⟨more', rfl, -⟩
        · cases heq
          rw [hat.unique hat']
        · exact absurd hat' ((hbefore place' (by simp)).1 v')
    · exact absurd hat ((hall place (by simp)).1 v)
  · rcases h' with ⟨before', after', place', v', rfl, hbefore', hat'⟩ | hall'
    · exact absurd hat' ((hall place' (by simp)).1 v')
    · rfl

/-- The settings at the first place at which something stands, or the default ones. -/
def fromPlaces (s : Disk) (fault : Option Fault) :
    List (String × List String) → Except LoadError Settings
  | [] => .ok {}
  | (file, path) :: places =>
    match documentAt s fault file with
    | .error e => .error e
    | .ok none => fromPlaces s fault places
    | .ok (some document) =>
      match (Value.table document).at? path with
      | none => fromPlaces s fault places
      | some v => ofValue file path v

variable {place : String × List String} {places before : List (String × List String)} {v : Value}

theorem fromPlaces_of_no_document (h : documentAt s fault file = .ok none)
    (tables : List (List String)) (rest : List (String × List String)) :
    fromPlaces s fault (tables.map (file, ·) ++ rest) = fromPlaces s fault rest := by
  induction tables with
  | nil => rfl
  | cons path tables ih => simp only [List.map_cons, List.cons_append, fromPlaces, h, ih]

theorem fromPlaces_of_document {document : Table}
    (h : documentAt s fault file = .ok (some document)) (tables : List (List String))
    (rest : List (String × List String)) :
    fromPlaces s fault (tables.map (file, ·) ++ rest) =
      match tableIn? document tables with
      | none => fromPlaces s fault rest
      | some (path, v) => ofValue file path v := by
  induction tables with
  | nil => rfl
  | cons path tables ih =>
      simp only [List.map_cons, List.cons_append, fromPlaces, h, ih, tableIn?, List.findSome?_cons]
      cases (Value.table document).at? path <;> rfl

/-- The places of one file are those of its tables.  A file without tables would not be read at
all. -/
theorem fromPlaces_append (tables : List (List String)) (htables : tables ≠ [])
    (rest : List (String × List String)) :
    fromPlaces s fault (tables.map (file, ·) ++ rest) =
      match fromFile s fault file tables with
      | .error e => .error e
      | .ok (some settings) => .ok settings
      | .ok none => fromPlaces s fault rest := by
  obtain ⟨path, tables, rfl⟩ := List.exists_cons_of_ne_nil htables
  simp only [fromFile, bind, Except.bind]
  cases hdocument : documentAt s fault file with
  | error e => simp only [List.map_cons, List.cons_append, fromPlaces, hdocument]
  | ok found =>
      cases found with
      | none => exact fromPlaces_of_no_document hdocument _ rest
      | some document =>
          rw [fromPlaces_of_document hdocument]
          simp only
          cases tableIn? document (path :: tables) with
          | none => rfl
          | some found =>
              simp only
              cases ofValue file found.1 found.2 <;> rfl

/-- Going through files and their tables is going through places. -/
theorem fromFirst_filesFrom (s : Disk) (fault : Option Fault) (top : Path) :
    fromFirst s fault (filesFrom top) = fromPlaces s fault (sourcePlaces top) := by
  unfold filesFrom sourcePlaces
  induction top :: top.parents with
  | nil => rfl
  | cons dir dirs ih =>
      have hplaces : (dir :: dirs).flatMap placesIn =
          [["tool", "pandoc-directives"]].map ((dir.child "pyproject.toml").text, ·) ++
            ([["pandoc-directives"], ["tool", "pandoc-directives"]].map
              ((dir.child ".pandoc-directives.toml").text, ·) ++ dirs.flatMap placesIn) := rfl
      rw [hplaces, fromPlaces_append _ (List.cons_ne_nil _ _),
        fromPlaces_append _ (List.cons_ne_nil _ _), ← ih]
      rfl

theorem fromPlaces_of_passed (h : ∀ q ∈ before, Passed s fault q) :
    fromPlaces s fault (before ++ places) = fromPlaces s fault places := by
  induction before with
  | nil => rfl
  | cons q before ih =>
      rw [List.forall_mem_cons] at h
      obtain ⟨⟨hnone, hwhole⟩, htail⟩ := h
      rw [List.cons_append, fromPlaces]
      cases hdocument : documentAt s fault q.1 with
      | error e => exact absurd (documentAt_eq_error_iff.mp hdocument) (hwhole e)
      | ok found =>
          cases found with
          | none => exact ih htail
          | some document =>
              simp only
              cases hat : (Value.table document).at? q.2 with
              | none => exact ih htail
              | some v =>
                  exact absurd ⟨document, documentAt_eq_some_iff.mp hdocument, hat⟩ (hnone v)

theorem fromPlaces_of_stands (h : StandsAt s fault place v) :
    fromPlaces s fault (place :: places) = ofValue place.1 place.2 v := by
  obtain ⟨document, hholds, hat⟩ := h
  rw [fromPlaces, documentAt_eq_some_iff.mpr hholds]
  simp only [hat]

theorem fromPlaces_of_breaks {e : LoadError} (h : Breaks s fault place.1 e) :
    fromPlaces s fault (place :: places) = .error e := by
  rw [fromPlaces, documentAt_eq_error_iff.mpr h]

theorem passed_or_first (s : Disk) (fault : Option Fault) (places : List (String × List String)) :
    (∀ q ∈ places, Passed s fault q) ∨
      ∃ before place after, places = before ++ place :: after ∧
        (∀ q ∈ before, Passed s fault q) ∧ ¬ Passed s fault place := by
  induction places with
  | nil => exact Or.inl fun _ hq => absurd hq List.not_mem_nil
  | cons place places ih =>
      by_cases hpassed : Passed s fault place
      · rcases ih with hall | ⟨before, next, after, rfl, hbefore, hnext⟩
        · exact Or.inl (List.forall_mem_cons.mpr ⟨hpassed, hall⟩)
        · exact Or.inr ⟨place :: before, next, after, rfl,
            List.forall_mem_cons.mpr ⟨hpassed, hbefore⟩, hnext⟩
      · exact Or.inr ⟨[], place, places, rfl, fun _ hq => absurd hq List.not_mem_nil, hpassed⟩

/-- The settings cannot be looked for, since what is given has no encoding or the directory has no
canonical form, or the search breaks off at a file before anything was found. -/
inductive BreaksOff (s : Disk) (fault : Option Fault) : GivenPath → GivenError LoadError → Prop
  | stray (e : EncodeError) : BreaksOff s fault (.stray e) (.unencodable e)
  | call (start : Path) (e : CallError) (h : canonical s fault false start = .error (.call e)) :
      BreaksOff s fault (.path start) (.failed (.call e))
  | loop (start : Path) (link : Option String)
      (h : canonical s fault false start = .error (.loop link)) :
      BreaksOff s fault (.path start) (.failed (.loop link))
  | deep (start : Path) (h : canonical s fault false start = .error .tooDeep) :
      BreaksOff s fault (.path start) (.failed (.unreadable .tooDeep))
  | file (start top : Path) (before after : List (String × List String))
      (place : String × List String) (e : LoadError)
      (htop : canonical s fault false start = .ok top)
      (hplaces : sourcePlaces top = before ++ place :: after)
      (hbefore : ∀ q ∈ before, Passed s fault q) (hbreaks : Breaks s fault place.1 e) :
      BreaksOff s fault (.path start) (.failed e)

theorem load_of_canonical {start top : Path} (h : canonical s fault false start = .ok top) :
    load s fault start = fromPlaces s fault (sourcePlaces top) := by
  rw [load, h]
  exact fromFirst_filesFrom s fault top

/-- A search that breaks off fails, and not for a reason of the settings. -/
theorem loadGiven_of_breaksOff {start : GivenPath} {e : GivenError LoadError}
    (h : BreaksOff s fault start e) :
    loadGiven s fault start = .error e ∧ ∀ e', e ≠ .failed (.refused e') := by
  cases h with
  | stray e => exact ⟨rfl, nofun⟩
  | call start e hcanonical => exact ⟨by rw [loadGiven, GivenPath.ask, load, hcanonical]; rfl, nofun⟩
  | loop start link hcanonical =>
      exact ⟨by rw [loadGiven, GivenPath.ask, load, hcanonical]; rfl, nofun⟩
  | deep start hcanonical => exact ⟨by rw [loadGiven, GivenPath.ask, load, hcanonical]; rfl, nofun⟩
  | file start top before after place e htop hplaces hbefore hbreaks =>
      refine ⟨?_, fun e' heq => ?_⟩
      · rw [loadGiven, GivenPath.ask, load_of_canonical htop, hplaces, fromPlaces_of_passed hbefore,
          fromPlaces_of_breaks hbreaks]
        rfl
      · cases heq
        cases hbreaks

/-- The settings of a source, or the default ones. -/
def ofSource : Option ((String × List String) × Value) → Except LoadError Settings
  | none => .ok {}
  | some (place, v) => ofValue place.1 place.2 v

theorem load_of_chosen {start top : Path} {source : Option ((String × List String) × Value)}
    (htop : canonical s fault false start = .ok top)
    (h : Chosen s fault (sourcePlaces top) source) : load s fault start = ofSource source := by
  rw [load_of_canonical htop]
  cases h with
  | first before after place v hplaces hbefore hat =>
      rw [hplaces, fromPlaces_of_passed hbefore, fromPlaces_of_stands hat]
      rfl
  | none hall =>
      rw [← List.append_nil (sourcePlaces top), fromPlaces_of_passed hall]
      rfl

/-- A search that does not break off gives the settings of the chosen source. -/
theorem load_of_not_breaksOff {start : GivenPath} (h : ∀ e, ¬ BreaksOff s fault start e) :
    ∃ dir top source, start = .path dir ∧ canonical s fault false dir = .ok top ∧
      Chosen s fault (sourcePlaces top) source ∧ load s fault dir = ofSource source := by
  cases start with
  | stray e => exact absurd (.stray e) (h _)
  | path dir =>
      cases hcanonical : canonical s fault false dir with
      | error e =>
          cases e with
          | call e => exact absurd (.call dir e hcanonical) (h _)
          | loop link => exact absurd (.loop dir link hcanonical) (h _)
          | tooDeep => exact absurd (.deep dir hcanonical) (h _)
      | ok top =>
          have hchosen : ∃ source, Chosen s fault (sourcePlaces top) source := by
            rcases passed_or_first s fault (sourcePlaces top) with
              hall | ⟨before, place, after, hplaces, hbefore, hnot⟩
            · exact ⟨none, .none hall⟩
            · have hwhole : ∀ e, ¬ Breaks s fault place.1 e := fun e hbreaks =>
                h _ (.file dir top before after place e hcanonical hplaces hbefore hbreaks)
              obtain ⟨v, hv⟩ : ∃ v, StandsAt s fault place v :=
                Classical.byContradiction fun hnone => hnot ⟨fun v hv => hnone ⟨v, hv⟩, hwhole⟩
              exact ⟨some (place, v), .first before after place v hplaces hbefore hv⟩
          obtain ⟨source, hsource⟩ := hchosen
          exact ⟨dir, top, source, rfl, hcanonical, hsource, load_of_chosen hcanonical hsource⟩

/-! ## Disks with one file of settings -/

/-- A root directory with one file of settings. -/
def rootDisk (bytes : List UInt8) : Disk :=
  { tree := ⟨[(["pyproject.toml"], .file ⟨1, 0o644, 0, bytes⟩)]⟩ }

variable {bytes : List UInt8}

theorem opens_rootDisk (bytes : List UInt8) :
    Opens (rootDisk bytes) none "/pyproject.toml" ⟨1, 0o644, 0, bytes⟩ :=
  ⟨⟨["pyproject.toml"], rfl⟩, rfl⟩

theorem canonical_root (s : Disk) : canonical s none false ⟨.slash, []⟩ = .ok ⟨.slash, []⟩ := by
  have hread : readWithin s none false s.linkRoom ⟨.slash, []⟩ [] [] = .done ⟨.slash, []⟩ [] := by
    cases s.linkRoom <;> rfl
  have hstat : s.stat "/" none .searching = .ok ([], .directory) := rfl
  simp [canonical, hread, Path.absolute, Path.text, Path.collapse, Root.text, hstat]

theorem sourcePlaces_root : ∀ place ∈ sourcePlaces ⟨.slash, []⟩,
    place.1 = "/pyproject.toml" ∨ place.1 = "/.pandoc-directives.toml" := by
  decide

theorem breaksOff_rootDisk {e : LoadError} (h : Breaks (rootDisk bytes) none "/pyproject.toml" e) :
    BreaksOff (rootDisk bytes) none (.path ⟨.slash, []⟩) (.failed e) :=
  .file ⟨.slash, []⟩ ⟨.slash, []⟩ [] _ ("/pyproject.toml", ["tool", "pandoc-directives"]) _
    (canonical_root _) rfl (fun _ hq => absurd hq List.not_mem_nil) h

/-- The file of settings in which an integer is given by so many ones. -/
def onesFile (n : Nat) : List UInt8 :=
  Text.Utf8.encode ('x' :: '=' :: List.replicate n '1')

theorem breaks_of_ones {n : Nat} (h : Toml.digitLimit < n) :
    Breaks (rootDisk (onesFile n)) none "/pyproject.toml" (.unreadable (.tooManyDigits n)) :=
  .unreadable _ _ _ (opens_rootDisk _) (Text.Utf8.decode_eq_ok_iff.mpr rfl) (Toml.parse_ones h) nofun

/-- The file of settings in which so many arrays lie inside each other. -/
def bracketsFile (n : Nat) : List UInt8 :=
  Text.Utf8.encode ('x' :: '=' :: (List.replicate n '[' ++ List.replicate n ']'))

theorem breaks_of_brackets {n : Nat} (h : (rootDisk (bracketsFile n)).valueRoom + 1 < 2 * n) :
    Breaks (rootDisk (bracketsFile n)) none "/pyproject.toml" (.unreadable .tooDeep) :=
  .unreadable _ _ _ (opens_rootDisk _) (Text.Utf8.decode_eq_ok_iff.mpr rfl)
    (Toml.parse_brackets (by simp [List.mem_replicate]) h) nofun

end Settings

end DirectiveFences
