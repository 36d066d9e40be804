/-
Reading and replacing are exact.

A guard reads the bytes of a file as the one text that is written in them, and writes a text in
its bytes, so a text that goes back as it came changes no byte.  Nothing in between knows of line
breaks or of a byte order mark: those are characters as all others.

Whether a replacement is stopped on its way makes no difference to the content, which is the same
before and after it.  That takes in the calls that fail: the disk that they leave has the tree that
it had, and also the working directory, without which a relative path could lead elsewhere
(`document_of_replace_error`).
-/
import DirectiveFences.Proofs.ErrorOrder
import DirectiveFences.Proofs.Utf8Sequences

namespace DirectiveFences.Files

/-! ## The file at a path -/

/-- A file stands at a path, not behind a link, it can be looked at and opened, and it is no larger
than a limit. -/
structure Disk.Readable (s : Disk) (fault : Option Fault) (path : Path) (limit : Int)
    (f : File) : Prop where
  document : s.document path = some f
  looks : failure? fault (.look .reading path.text) = none
  opens : failure? fault (.openFile path.text) = none
  size : f.bytes.length ≤ limit

variable {s after : Disk} {fault : Option Fault} {path : Path} {f : File}

theorem Disk.lstat_of_document {purpose : Purpose} (h : s.document path = some f)
    (hlook : failure? fault (.look purpose path.text) = none) :
    ∃ place, s.lstat fault path.text purpose = .ok (place, .file f) := by
  unfold Disk.document at h
  split at h
  · rename_i place f' hfound
    cases h
    exact ⟨place, Disk.lstat_eq_ok_iff.mpr ⟨hlook, hfound⟩⟩
  · cases h

theorem Guard.document_of_readStep {g g' : Guard} {text : List Char}
    (h : g.readStep s fault = (.ok text, g')) :
    ∃ f, s.document g'.path = some f ∧ g'.snapshot = some f.snapshot := by
  rw [Guard.readStep_eq] at h
  split at h
  · cases h
  · rename_i hread
    obtain ⟨f, hf, -, -, rfl⟩ := Guard.read_eq_ok hread
    cases h
    exact ⟨f, hf, rfl⟩

namespace Guard

variable {g : Guard} {seen : File} {content : List Char}

/-- A guard after it has read a file. -/
def having (g : Guard) (f : File) : Guard :=
  { g with snapshot := some f.snapshot }

theorem readStep_of_readable (h : s.Readable fault g.path g.maxSize f) :
    g.readStep s fault =
      match Text.Utf8.decode f.bytes with
      | .error e => (.error (.undecodable e), g)
      | .ok text => (.ok text, g.having f) := by
  obtain ⟨place, hlook⟩ := Disk.lstat_of_document h.document h.looks
  rw [readStep_eq, read_of_lstat hlook, if_neg (Int.not_lt.mpr h.size), h.opens]
  cases Text.Utf8.decode f.bytes <;> rfl

/-! ## What a replacement leaves -/

/-- The file at the path is the one that was seen, up to its permission bits, and no call on the way
to its replacement fails. -/
structure Proceeds (g : Guard) (s : Disk) (fault : Option Fault) (seen : File) : Prop where
  same : ∃ present, s.document g.path = some present ∧ present.identity = seen.identity
  looks : failure? fault (.look .replacing g.path.text) = none
  opens : ∃ opened, g.openTemporary s fault = .ok opened
  goesOn : ¬ Fault.Stops fault

theorem proceeds_having (g : Guard) (s : Disk) (fault : Option Fault) (f seen : File) :
    (g.having f).Proceeds s fault seen ↔ g.Proceeds s fault seen :=
  ⟨fun ⟨hsame, hlooks, hopens, hgoesOn⟩ => ⟨hsame, hlooks, hopens, hgoesOn⟩,
    fun ⟨hsame, hlooks, hopens, hgoesOn⟩ => ⟨hsame, hlooks, hopens, hgoesOn⟩⟩

theorem replace_isOk_iff_proceeds (hseen : g.snapshot = some seen.snapshot) :
    (g.replace s fault content).1.isOk = true ↔ g.Proceeds s fault seen := by
  rw [replace_isOk_iff]
  constructor
  · rintro ⟨⟨⟨_, _, hsnap, htake, hsame⟩, hopened⟩, hstops⟩
    obtain rfl := Option.some.inj (hseen.symm.trans hsnap)
    obtain ⟨place, f, hlook, rfl⟩ := take_eq_ok_iff.mp htake
    exact ⟨⟨f, Disk.document_of_lstat hlook, (File.sameContent_snapshot_iff f seen).mp hsame⟩,
      (Disk.lstat_eq_ok_iff.mp hlook).1, hopened, hstops⟩
  · rintro ⟨⟨f, hdocument, hsame⟩, hlooks, hopened, hstops⟩
    obtain ⟨place, hlook⟩ := Disk.lstat_of_document hdocument hlooks
    exact ⟨⟨⟨seen.snapshot, f.snapshot, hseen, take_eq_ok_iff.mpr ⟨place, f, hlook, rfl⟩,
      (File.sameContent_snapshot_iff f seen).mpr hsame⟩, hopened⟩, hstops⟩

/-- A text with the bytes that the document has already changes nothing, whatever becomes of the
replacement. -/
theorem bytes_of_replace (hdocument : s.document g.path = some f)
    (hbytes : Text.Utf8.encode content = f.bytes) :
    ∃ new, (g.replace s fault content).2.document g.path = some new ∧ new.bytes = f.bytes := by
  cases hreplace : g.replace s fault content with
  | mk result after =>
      cases result with
      | error e => exact ⟨f, (document_of_replace_error hreplace _).trans hdocument, rfl⟩
      | ok refused =>
          obtain ⟨new, hnew, hsame, -⟩ := document_of_replace_ok hreplace
          exact ⟨new, hnew, hsame.trans hbytes⟩

/-- **Reading and replacing are byte-exact.**  Let a regular file stand at the path of a guard, of
any content within the limit.  If the bytes are valid UTF-8, then the guard reads the text that they
spell, and when that text goes back the document has the same bytes as before, whether the
replacement succeeds or any of its calls fails; and it succeeds if none does.  If they are not, then
the read says so and leaves the guard as it was: a later replacement is refused if nothing was read
before, and else it is judged by the file of the earlier read.  And after a replacement that
succeeds every guard on the path reads back its text, if the bytes of that are within the limit. -/
theorem read_replace_exact (g : Guard) :
    (∀ s fault f, s.Readable fault g.path g.maxSize f → f.bytes.toByteArray.IsValidUTF8 →
      ∃ text, g.readStep s fault = (.ok text, g.having f) ∧ Text.Utf8.encode text = f.bytes ∧
        ∀ later,
          (∃ new, ((g.having f).replace s later text).2.document g.path = some new ∧
            new.bytes = f.bytes) ∧
          (((g.having f).replace s later text).1.isOk = true ↔ g.Proceeds s later f)) ∧
    (∀ s fault f, s.Readable fault g.path g.maxSize f → ¬ f.bytes.toByteArray.IsValidUTF8 →
      (∃ e, g.readStep s fault = (.error (.undecodable e), g)) ∧
        ∀ s' later content,
          (g.snapshot = none →
            g.replace s' later content = (.error (.notRead g.path), s')) ∧
          ∀ (g₀ : Guard) s₀ earlier text, g₀.readStep s₀ earlier = (.ok text, g) →
            ∃ seen, s₀.document g.path = some seen ∧
              ((g.replace s' later content).1.isOk = true ↔ g.Proceeds s' later seen) ∧
              ∀ e after, g.replace s' later content = (.error e, after) →
                after.document g.path = s'.document g.path) ∧
    ∀ s fault content refused after, g.replace s fault content = (.ok refused, after) →
      ∀ (next : Guard) later, next.path = g.path →
        (Text.Utf8.encode content).length ≤ next.maxSize →
        failure? later (.look .reading next.path.text) = none →
        failure? later (.openFile next.path.text) = none →
          ∃ new, next.readStep after later = (.ok content, next.having new) := by
  refine ⟨fun s fault f hreadable hvalid => ?_, fun s fault f hreadable hinvalid => ?_, ?_⟩
  · obtain ⟨text, htext⟩ := Text.Utf8.isValidUTF8_iff.mp hvalid
    have hbytes : Text.Utf8.encode text = f.bytes := (Text.Utf8.decode_eq_ok_iff.mp htext).symm
    refine ⟨text, by rw [readStep_of_readable hreadable, htext], hbytes, fun later => ⟨?_, ?_⟩⟩
    · exact @bytes_of_replace s later f (g.having f) text hreadable.document hbytes
    · exact (@replace_isOk_iff_proceeds s later (g.having f) f text rfl).trans
        (proceeds_having g s later f f)
  · refine ⟨?_, fun s' later content => ⟨fun hnone => ?_, fun g₀ s₀ earlier text hread => ?_⟩⟩
    · rw [readStep_of_readable hreadable]
      cases hdecode : Text.Utf8.decode f.bytes with
      | error e => exact ⟨e, rfl⟩
      | ok text => exact absurd (Text.Utf8.isValidUTF8_iff.mpr ⟨text, hdecode⟩) hinvalid
    · rw [replace, hnone]
    · obtain ⟨seen, hseen, hsnapshot⟩ := document_of_readStep hread
      exact ⟨seen, hseen, replace_isOk_iff_proceeds hsnapshot,
        fun e after h => document_of_replace_error h g.path⟩
  · intro s fault content refused after hreplace next later hpath hsize hlooks hopens
    obtain ⟨new, hdocument, hbytes, -⟩ := document_of_replace_ok hreplace
    rw [← hbytes] at hsize
    rw [← hpath] at hdocument
    have hreadable : after.Readable later next.path next.maxSize new :=
      ⟨hdocument, hlooks, hopens, hsize⟩
    exact ⟨new, by rw [readStep_of_readable hreadable, Text.Utf8.decode_eq_ok_iff.mpr hbytes]⟩

/-- A guard that reads up to ten bytes. -/
def ofTenBytes : Guard where
  path := ⟨.none, ["doc.md"]⟩
  maxSize := 10

/-- A disk with one file. -/
def oneFile (bytes : List UInt8) : Disk :=
  ({} : Disk).create ["doc.md"] 0o644 bytes 5

theorem oneFile_readable {bytes : List UInt8}
    (h : (oneFile bytes).document ofTenBytes.path = some ⟨1, 0o644, 5, bytes⟩ ∧
      bytes.length ≤ 10) :
    (oneFile bytes).Readable none ofTenBytes.path ofTenBytes.maxSize ⟨1, 0o644, 5, bytes⟩ :=
  ⟨h.1, rfl, rfl, Int.ofNat_le.mpr h.2⟩

/-- A byte order mark, a NUL and line breaks of all kinds come back as they were.  Nothing is read
that is written in too many bytes, is a surrogate, lies above U+10FFFF or is cut off. -/
theorem read_replace_exact_samples :
    (∀ bytes ∈ [[0xEF, 0xBB, 0xBF, 0x61], [0x00, 0x0D, 0x0D, 0x0A, 0x0A]],
      ∃ text f, ofTenBytes.readStep (oneFile bytes) none = (.ok text, ofTenBytes.having f) ∧
        ∃ refused after,
          (ofTenBytes.having f).replace (oneFile bytes) none text = (.ok refused, after) ∧
            (after.document ofTenBytes.path).map (·.bytes) = some bytes ∧
            ∃ new, ofTenBytes.readStep after none = (.ok text, ofTenBytes.having new)) ∧
    ∀ bytes ∈ [[0xC0, 0x80], [0xED, 0xA0, 0x80], [0xF4, 0x90, 0x80, 0x80], [0xE2, 0x82]],
      (∃ e, ofTenBytes.readStep (oneFile bytes) none = (.error (.undecodable e), ofTenBytes)) ∧
        ofTenBytes.replace (oneFile bytes) none [] =
          (.error (.notRead ofTenBytes.path), oneFile bytes) := by
  obtain ⟨hvalidRead, hinvalidRead, -⟩ := read_replace_exact ofTenBytes
  constructor
  · intro bytes hbytes
    have hfile : (oneFile bytes).document ofTenBytes.path = some ⟨1, 0o644, 5, bytes⟩ ∧
        bytes.length ≤ 10 := by revert bytes; decide +kernel
    have hvalid : bytes.toByteArray.IsValidUTF8 := by revert bytes; decide +kernel
    have hopened : (ofTenBytes.openTemporary (oneFile bytes) none).isOk = true := by
      revert bytes; decide +kernel
    obtain ⟨text, hread, hsame, hreplace⟩ := hvalidRead _ none _ (oneFile_readable hfile) hvalid
    obtain ⟨⟨new, hnew, hnewBytes⟩, hok⟩ := hreplace none
    have hopens : ∃ opened, ofTenBytes.openTemporary (oneFile bytes) none = .ok opened := by
      cases hresult : ofTenBytes.openTemporary (oneFile bytes) none with
      | error e => rw [hresult] at hopened; cases hopened
      | ok opened => exact ⟨opened, rfl⟩
    have hproceeds : ofTenBytes.Proceeds (oneFile bytes) none ⟨1, 0o644, 5, bytes⟩ :=
      ⟨⟨_, hfile.1, rfl⟩, rfl, hopens, Fault.not_stops_none⟩
    obtain ⟨result, after, hreplaced⟩ : ∃ result after,
        (ofTenBytes.having ⟨1, 0o644, 5, bytes⟩).replace (oneFile bytes) none text =
          (result, after) := ⟨_, _, rfl⟩
    rw [hreplaced] at hnew hok
    cases result with
    | error e => cases hok.mpr hproceeds
    | ok refused =>
        obtain ⟨next, hnext⟩ := (read_replace_exact (ofTenBytes.having ⟨1, 0o644, 5, bytes⟩)).2.2
          _ none text refused after hreplaced ofTenBytes none rfl
          (Int.ofNat_le.mpr (by rw [hsame]; exact hfile.2)) rfl rfl
        exact ⟨text, _, hread, refused, after, hreplaced,
          by rw [hnew]; exact congrArg some hnewBytes, next, hnext⟩
  · intro bytes hbytes
    have hfile : (oneFile bytes).document ofTenBytes.path = some ⟨1, 0o644, 5, bytes⟩ ∧
        bytes.length ≤ 10 := by revert bytes; decide +kernel
    have hnot : ¬ bytes.toByteArray.IsValidUTF8 := by revert bytes; decide +kernel
    obtain ⟨hread, hrefused⟩ := hinvalidRead _ none _ (oneFile_readable hfile) hnot
    exact ⟨hread, (hrefused _ none []).1 rfl⟩

end Guard

end DirectiveFences.Files
