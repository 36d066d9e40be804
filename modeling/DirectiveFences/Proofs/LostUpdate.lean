/-
No lost update.

A guard compares identities only, that is inode, size and time.  The one assumption about the
world is that versions of the file can be told apart by them (`Run.Distinct`): files of one
identity are of one version, and a new file is none of those that are gone.  That a replacement
leaves another version than it has found is not assumed.  It makes a new file and moves it
there, and a new file has an inode that is not in use (`Run.Replaces.version_succ_ne`).

So a guard is refused wherever the file at the path is not of the version that it has read.
What it cannot see is a file that was another one in between.  No guard brings an old version
back; only others do, as by moving a file away and back again (`Run.PutBack`).
-/
import DirectiveFences.Proofs.Replacement

namespace DirectiveFences.Files

def Node.inode? : Node → Option Nat
  | .file f => some f.inode
  | _ => none

/-- The inode of the next new file is not in use. -/
def Disk.NextUnused (s : Disk) : Prop :=
  ∀ e ∈ s.tree.entries, e.2.inode? ≠ some s.nextInode

instance (s : Disk) : Decidable s.NextUnused :=
  inferInstanceAs (Decidable (∀ e ∈ s.tree.entries, e.2.inode? ≠ some s.nextInode))

theorem Disk.NextUnused.inode_ne {s : Disk} (h : s.NextUnused) {path : Path} {f : File}
    (hf : s.document path = some f) : f.inode ≠ s.nextInode := by
  obtain ⟨place, hget⟩ := s.exists_place_of_document hf
  exact fun heq => h _ (Tree.mem_entries_of_file hget) (congrArg some heq)

namespace Run

variable {ι : Type} [DecidableEq ι] (r : Run ι)

/-- The identity of the file that operation `n` makes, if it is a successful replacement. -/
def newIdentity? (n : Nat) : Option (Nat × Nat × Int) :=
  match r.actions[n]? with
  | some (.replace who fault content) =>
    match ((r.before n).guards who).replace (r.before n).disk fault content with
    | (.ok _, _) =>
      some ((r.before n).disk.nextInode, (Text.Utf8.encode content).length, (r.before n).disk.clock)
    | (.error _, _) => none
  | _ => none

/-- Files of one identity are of one version, before operation `m` and before operation `n`. -/
def Agree (m n : Nat) : Prop :=
  ∀ f ∈ r.document m, ∀ g ∈ r.document n, f.identity = g.identity → f.version = g.version

/-- The file that replacement `n` makes is not the one before operation `m`, if that is gone. -/
def MakesOther (n m : Nat) : Prop :=
  r.version n ≠ r.version m → ∀ new ∈ r.newIdentity? n, ∀ f ∈ r.document m, f.identity ≠ new

/-- Different versions of the file have different identities. -/
structure Distinct : Prop where
  versions : ∀ m n, r.Agree m n
  /-- A replacement makes its file with an inode that is not in use. -/
  unused : ∀ n, (r.newIdentity? n).isSome = true → (r.before n).disk.NextUnused
  /-- The inode may have been in use before, but then size or time are others. -/
  other : ∀ n m, m < n → r.MakesOther n m

/-- From `m` on and before `n` others have brought back to the path the version that stood there
before operation `v`, and that it is before operation `n`. -/
structure PutBack (v m n : Nat) : Prop where
  back : r.version n = r.version v
  byOthers : ∃ k disk, m ≤ k ∧ k < n ∧ r.actions[k]? = some (.others disk) ∧
    r.version k ≠ r.version v ∧ r.version (k + 1) = r.version v

variable {r} {m n : Nat} {who : ι}

/-! ## How the document changes -/

theorem document_succ_of_read {fault : Option Fault}
    (ha : r.actions[n]? = some (.read who fault)) : r.document (n + 1) = r.document n := by
  rw [document, before_succ ha, System.step]
  split <;> rfl

theorem document_succ_of_replace {fault : Option Fault} {content : List Char}
    (ha : r.actions[n]? = some (.replace who fault content)) :
    (r.newIdentity? n = none ∧ r.document (n + 1) = r.document n) ∨
      ∃ new, r.document (n + 1) = some new ∧ r.newIdentity? n = some new.identity := by
  have hdocument : r.document (n + 1) =
      (((r.before n).guards who).replace (r.before n).disk fault content).2.document r.path := by
    rw [document, before_succ ha, System.step]
  cases hrun : ((r.before n).guards who).replace (r.before n).disk fault content with
  | mk result after =>
      rw [hrun] at hdocument
      simp only [newIdentity?, ha, hrun]
      cases result with
      | error e =>
          exact Or.inl ⟨rfl, hdocument.trans (Guard.document_of_replace_error hrun r.path)⟩
      | ok refused =>
          obtain ⟨new, hnew, hbytes, hinode, htime⟩ := Guard.document_of_replace_ok hrun
          rw [path_guards] at hnew
          exact Or.inr ⟨new, hdocument.trans hnew, by rw [File.identity, hbytes, hinode, htime]⟩

theorem inode_of_newIdentity? {new : Nat × Nat × Int} (h : r.newIdentity? n = some new) :
    new.1 = (r.before n).disk.nextInode := by
  unfold newIdentity? at h
  split at h
  · split at h
    · exact congrArg (·.1) (Option.some.inj h).symm
    · cases h
  · cases h

theorem newIdentity?_of_replaces (h : r.Replaces n who) :
    ∃ new, r.document (n + 1) = some new ∧ r.newIdentity? n = some new.identity := by
  obtain ⟨fault, content, refused, disk, ha, hok⟩ := h
  refine (document_succ_of_replace ha).resolve_left fun hnone => ?_
  simp [newIdentity?, ha, hok] at hnone

/-! ## Versions -/

theorem identity_of_version {f g : File} (h : f.version = g.version) :
    f.identity = g.identity := by
  simp only [File.version, Prod.mk.injEq] at h
  simp only [File.identity, h]

/-- A replacement leaves another version than it has found. -/
theorem Replaces.version_succ_ne (h : r.Replaces n who) (hdistinct : r.Distinct) :
    r.version (n + 1) ≠ r.version n := by
  obtain ⟨new, hnew, hidentity⟩ := newIdentity?_of_replaces h
  have hunused := hdistinct.unused n (hidentity ▸ rfl)
  intro hsame
  rw [version, version, hnew] at hsame
  obtain ⟨old, hold, hversion⟩ := Option.map_eq_some_iff.mp hsame.symm
  have hinode : old.inode = new.inode := congrArg (·.1) hversion
  exact hunused.inode_ne hold (hinode.trans (inode_of_newIdentity? hidentity))

/-- It brings back none that is gone. -/
theorem Distinct.version_succ_ne (hdistinct : r.Distinct) {f : File} (hf : r.document m = some f)
    (hmn : m < n) (hgone : r.version n ≠ r.version m) {new : File}
    (hnew : r.document (n + 1) = some new) (hidentity : r.newIdentity? n = some new.identity) :
    r.version (n + 1) ≠ r.version m := by
  rw [version, version, hnew, hf]
  exact fun hsame => hdistinct.other n m hmn hgone _ hidentity f hf
    (identity_of_version (Option.some.inj hsame)).symm

/-- A version that was at the path, was not, and is again, was brought back by others. -/
theorem Distinct.putBack (hdistinct : r.Distinct) {f : File} {v p : Nat}
    (hf : r.document v = some f) (hvp : v ≤ p) (hpn : p ≤ n) (hleft : r.version p ≠ r.version v)
    (hback : r.version n = r.version v) : r.PutBack v p n := by
  refine ⟨hback, ?_⟩
  induction n with
  | zero => exact absurd (Nat.le_zero.mp hpn ▸ hback) hleft
  | succ n ih =>
      have hle : p ≤ n := Nat.le_of_lt_succ <| Nat.lt_of_le_of_ne hpn fun heq => hleft (heq ▸ hback)
      by_cases hn : r.version n = r.version v
      · obtain ⟨k, disk, hpk, hkn, hk⟩ := ih hle hn
        exact ⟨k, disk, hpk, Nat.lt_succ_of_lt hkn, hk⟩
      · -- the version comes back at this very operation, so it is none of a guard
        have hchange : r.document (n + 1) ≠ r.document n := fun hsame =>
          hn (by rw [← hback, version, version, hsame])
        cases ha : r.actions[n]? with
        | none => exact absurd (by rw [document, document, before_succ_of_none ha]) hchange
        | some a =>
            cases a with
            | read who fault => exact absurd (document_succ_of_read ha) hchange
            | replace who fault content =>
                obtain ⟨-, hsame⟩ | ⟨new, hnew, hidentity⟩ := document_succ_of_replace ha
                · exact absurd hsame hchange
                · have hvn : v < n := Nat.lt_of_le_of_ne (Nat.le_trans hvp hle) fun heq =>
                    hn (heq ▸ rfl)
                  exact absurd hback (hdistinct.version_succ_ne hf hvn hn hnew hidentity)
            | others disk => exact ⟨n, disk, hle, Nat.lt_succ_self n, ha, hn, hback⟩

/-! ## What is replaced -/

/-- A file with the identity of the one that was read is of its version. -/
theorem Distinct.version_eq (hdistinct : r.Distinct) {f g : File} (hf : r.document m = some f)
    (hg : r.document n = some g) (hsame : g.identity = f.identity) : r.version n = r.version m := by
  rw [version, version, hf, hg]
  exact congrArg some (hdistinct.versions n m g hg f hf hsame)

theorem read_of_replaces (hdistinct : r.Distinct) (h : r.Replaces n who) :
    ∃ m g text, r.LastRead m n who g.bytes text ∧ r.document n = some g ∧
      Text.Utf8.decode g.bytes = .ok text ∧ r.version n = r.version m := by
  obtain ⟨fault, content, refused, disk, -, hok⟩ := h
  obtain ⟨seen, g, hseen, hg, hsame⟩ := Guard.replace_eq_ok hok
  have hremembers := remembers (r := r) n who
  rw [hseen] at hremembers
  obtain ⟨m, f, text, hlast, hf, hdecode, rfl⟩ := hremembers
  rw [path_guards] at hg
  have hversion : r.version n = r.version m :=
    hdistinct.version_eq hf hg ((File.sameContent_snapshot_iff g f).mp hsame)
  have hbytes : g.bytes = f.bytes := by
    rw [version, version, hf, show r.document n = some g from hg] at hversion
    exact congrArg (·.2.2) (Option.some.inj hversion)
  exact ⟨m, g, text, hbytes ▸ hlast, hg, hbytes ▸ hdecode, hversion⟩

/-- A guard that is not refused finds the version that it has read last. -/
theorem refused_or_version_eq (hdistinct : r.Distinct) (fault : Option Fault)
    (content : List Char) (ha : r.actions[n]? = some (.replace who fault content))
    {bytes : List UInt8} {text : List Char} (hlast : r.LastRead m n who bytes text) :
    r.Refused n who fault content ∨
      ∃ f, r.document m = some f ∧ r.version n = r.version m := by
  by_cases h : ∃ f g, r.document m = some f ∧ r.document n = some g ∧ g.identity = f.identity
  · obtain ⟨f, g, hf, hg, hsame⟩ := h
    exact Or.inr ⟨f, hf, hdistinct.version_eq hf hg hsame⟩
  · refine Or.inl (refused_of_other fault content ha fun m' f g text' hlast' hf hg hsame => ?_)
    obtain rfl := hlast.unique hlast'
    exact h ⟨f, g, hf, hg, hsame⟩

theorem Touched.exists_version_ne (h : r.Touched m n) (hdistinct : r.Distinct) :
    ∃ p, m ≤ p ∧ p ≤ n ∧ r.version p ≠ r.version m := by
  obtain ⟨k, hmk, hkn, hk⟩ := h
  have hchange : r.version (k + 1) ≠ r.version k := by
    rcases hk with ⟨who, hreplaces⟩ | hchange
    · exact hreplaces.version_succ_ne hdistinct
    · exact hchange
  by_cases hsame : r.version k = r.version m
  · exact ⟨k + 1, Nat.le_succ_of_le hmk, hkn, hsame ▸ hchange⟩
  · exact ⟨k, hmk, Nat.le_of_lt hkn, hsame⟩

theorem PutBack.mono {v p : Nat} (h : r.PutBack v p n) (hmp : m ≤ p) : r.PutBack v m n := by
  obtain ⟨hback, k, disk, hpk, hk⟩ := h
  exact ⟨hback, k, disk, Nat.le_trans hmp hpk, hk⟩

/-- A guard whose document has changed since its last read is refused, unless others have brought
back what it has read. -/
theorem refused_of_touched (hdistinct : r.Distinct) (fault : Option Fault) (content : List Char)
    (ha : r.actions[n]? = some (.replace who fault content)) {bytes : List UInt8}
    {text : List Char} (hlast : r.LastRead m n who bytes text) (h : r.Touched m n) :
    r.Refused n who fault content ∨ r.PutBack m m n := by
  obtain hrefused | ⟨f, hf, hback⟩ := refused_or_version_eq hdistinct fault content ha hlast
  · exact Or.inl hrefused
  · obtain ⟨p, hmp, hpn, hleft⟩ := h.exists_version_ne hdistinct
    exact Or.inr ((hdistinct.putBack hf hmp hpn hleft hback).mono hmp)

/-- After a replacement a guard is refused until it reads again, unless others have brought back what
it has replaced. -/
theorem refused_after_replaces (hdistinct : r.Distinct) {k : Nat} (fault : Option Fault)
    (content : List Char) (hreplaces : r.Replaces k who) (hkn : k < n)
    (hnone : r.NoRead (k + 1) n who) (ha : r.actions[n]? = some (.replace who fault content)) :
    r.Refused n who fault content ∨ r.PutBack k (k + 1) n := by
  obtain ⟨m, g, text, hlast, hg, -, hversion⟩ := read_of_replaces hdistinct hreplaces
  have hreplace : ∀ bytes text, ¬ r.Reads k who bytes text := by
    rintro bytes text ⟨fault', g', hread, -⟩
    obtain ⟨_, _, _, _, hreplace, -⟩ := hreplaces
    cases hread.symm.trans hreplace
  -- the read before the replacement is still the last one
  have hstill : r.LastRead m n who g.bytes text := by
    refine ⟨Nat.lt_trans hlast.before hkn, hlast.reads, fun j bytes text' hmj hjn => ?_⟩
    rcases Nat.lt_trichotomy j k with hlt | rfl | hlt
    · exact hlast.last j bytes text' hmj hlt
    · exact hreplace bytes text'
    · exact hnone j bytes text' hlt hjn
  obtain hrefused | ⟨-, -, hback⟩ := refused_or_version_eq hdistinct fault content ha hstill
  · exact Or.inl hrefused
  · exact Or.inr <| hdistinct.putBack hg (Nat.le_succ k) hkn
      (hreplaces.version_succ_ne hdistinct) (hback.trans hversion.symm)

/-! ## Checking a run -/

theorem exists_replaces_iff : (∃ who, r.Replaces n who) ↔ (r.newIdentity? n).isSome = true := by
  constructor
  · rintro ⟨who, hreplaces⟩
    obtain ⟨new, -, hidentity⟩ := newIdentity?_of_replaces hreplaces
    rw [hidentity]
    rfl
  · intro h
    unfold newIdentity? at h
    split at h
    · rename_i who fault content ha
      split at h
      · rename_i refused disk hrun
        exact ⟨who, fault, content, refused, disk, ha, hrun⟩
      · cases h
    · cases h

/-- Whether an operation is a successful replacement can be computed. -/
instance (r : Run ι) (n : Nat) : Decidable (∃ who, r.Replaces n who) :=
  decidable_of_iff _ exists_replaces_iff.symm

theorem replaces_of_exists {fault : Option Fault} {content : List Char}
    (ha : r.actions[n]? = some (.replace who fault content)) (h : ∃ i, r.Replaces n i) :
    r.Replaces n who := by
  obtain ⟨i, fault', content', refused, disk, ha', hok⟩ := h
  cases ha.symm.trans ha'
  exact ⟨fault, content, refused, disk, ha, hok⟩

instance (r : Run ι) (m n : Nat) : Decidable (r.Touched m n) :=
  decidable_of_iff
    (∃ k < n, m ≤ k ∧ ((∃ who, r.Replaces k who) ∨ r.version (k + 1) ≠ r.version k))
    ⟨fun ⟨k, hkn, hmk, h⟩ => ⟨k, hmk, hkn, h⟩, fun ⟨k, hmk, hkn, h⟩ => ⟨k, hkn, hmk, h⟩⟩

theorem document_min (n : Nat) : r.document (min n r.actions.length) = r.document n := by
  rcases Nat.le_total n r.actions.length with hle | hle
  · rw [Nat.min_eq_left hle]
  · rw [Nat.min_eq_right hle, document, document, before, before, List.take_of_length_le hle,
      List.take_length]

instance (r : Run ι) (m n : Nat) : Decidable (r.Agree m n) :=
  inferInstanceAs (Decidable (∀ f ∈ r.document m, ∀ g ∈ r.document n,
    f.identity = g.identity → f.version = g.version))

theorem newIdentity?_eq_none (h : r.actions.length ≤ n) : r.newIdentity? n = none := by
  rw [newIdentity?, List.getElem?_eq_none h]

instance (r : Run ι) (n m : Nat) : Decidable (r.MakesOther n m) :=
  inferInstanceAs (Decidable (r.version n ≠ r.version m →
    ∀ new ∈ r.newIdentity? n, ∀ f ∈ r.document m, f.identity ≠ new))

theorem distinct_iff : r.Distinct ↔
    (∀ m < r.actions.length + 1, ∀ n < r.actions.length + 1, r.Agree m n) ∧
    ∀ n < r.actions.length,
      ((r.newIdentity? n).isSome = true → (r.before n).disk.NextUnused) ∧
        ∀ m < n, r.MakesOther n m := by
  constructor
  · rintro ⟨hversions, hunused, hother⟩
    exact ⟨fun m _ n _ => hversions m n, fun n _ => ⟨hunused n, hother n⟩⟩
  · rintro ⟨hversions, hmade⟩
    have hlt : ∀ {n}, (r.newIdentity? n).isSome = true → n < r.actions.length := fun hsome =>
      Nat.lt_of_not_le fun hle => by
        rw [newIdentity?_eq_none hle] at hsome
        cases hsome
    refine ⟨fun m n f hf g hg => ?_, fun n hsome => (hmade n (hlt hsome)).1 hsome,
      fun n m hmn hgone new hnew =>
        (hmade n (hlt (Option.isSome_of_mem hnew))).2 m hmn hgone new hnew⟩
    rw [← document_min] at hf hg
    exact hversions _ (Nat.lt_succ_of_le (Nat.min_le_right ..)) _
      (Nat.lt_succ_of_le (Nat.min_le_right ..)) f hf g hg

instance (r : Run ι) : Decidable r.Distinct :=
  decidable_of_iff _ distinct_iff.symm

end Run

/-- **No update is lost.**  Guards on one path and others take turns in any order.  What a guard
replaces are the bytes of its last successful read; a guard that never read a text, or whose
document anyone has changed since, is refused and changes nothing; so is a guard that has replaced the
document, until it reads again; and a failed read leaves all as it was.  The two refusals after a
change have one exception: others have put back the very version that was there. -/
theorem Run.no_lost_update {ι : Type} [DecidableEq ι] (r : Run ι) (hdistinct : r.Distinct) :
    (∀ n who, r.Replaces n who → ∃ m g text, r.LastRead m n who g.bytes text ∧
      r.document n = some g ∧ Text.Utf8.decode g.bytes = .ok text) ∧
    (∀ n who fault content, r.actions[n]? = some (.replace who fault content) →
      (r.NoRead 0 n who → r.Refused n who fault content) ∧
      ∀ m bytes text, r.LastRead m n who bytes text → r.Touched m n →
        r.Refused n who fault content ∨ r.PutBack m m n) ∧
    (∀ k n who fault content, r.Replaces k who → k < n → r.NoRead (k + 1) n who →
      r.actions[n]? = some (.replace who fault content) →
      r.Refused n who fault content ∨ r.PutBack k (k + 1) n) ∧
    (∀ n who fault e, r.actions[n]? = some (.read who fault) →
      ((r.before n).guards who).read (r.before n).disk fault = .error e →
      r.before (n + 1) = r.before n) := by
  refine ⟨fun n who hreplaces => ?_, fun n who fault content ha => ⟨?_, ?_⟩, ?_, ?_⟩
  · obtain ⟨m, g, text, hlast, hg, hdecode, -⟩ := read_of_replaces hdistinct hreplaces
    exact ⟨m, g, text, hlast, hg, hdecode⟩
  · exact refused_of_noRead fault content ha
  · intro m bytes text hlast htouched
    exact refused_of_touched hdistinct fault content ha hlast htouched
  · intro k n who fault content hreplaces hkn hnone ha
    exact refused_after_replaces hdistinct fault content hreplaces hkn hnone ha
  · intro n who fault e ha he
    exact before_succ_of_read_error ha he

/-- A disk with one document. -/
def oneDocument (text : String) (inode : Nat) (time : Int) : Disk where
  tree := ⟨[(["doc.md"], .file ⟨inode, 0o644, time, Text.Utf8.encode text.toList⟩)]⟩
  nextInode := inode + 1

/-- Two guards read a document, and the first one replaces it, twice.  The second one tries to, and
again when someone has written to the file and it has read what was written. -/
def twoGuards : Run Bool where
  path := ⟨.slash, ["doc.md"]⟩
  start := ⟨oneDocument "old" 1 5, fun _ => { path := ⟨.slash, ["doc.md"]⟩ }⟩
  actions :=
    [.read true none, .read false none, .replace true none "new".toList,
      .replace true none "again".toList, .replace false none "lost".toList,
      .others (oneDocument "theirs" 2 9), .read false none, .replace false none "newer".toList]
  onPath := fun _ => rfl
  unread := fun _ => rfl

/-- The second one replaces what it has read, and before that neither guard overwrites the new
text. -/
theorem twoGuards_keep_updates :
    twoGuards.Distinct ∧
    (∃ m g text, twoGuards.LastRead m 7 false g.bytes text ∧ twoGuards.document 7 = some g ∧
      Text.Utf8.decode g.bytes = .ok text) ∧
    twoGuards.Refused 3 true none "again".toList ∧
    twoGuards.Refused 4 false none "lost".toList := by
  have hdistinct : twoGuards.Distinct := by decide +kernel
  have hreplaces : twoGuards.Replaces 2 true ∧ twoGuards.Replaces 7 false :=
    ⟨Run.replaces_of_exists rfl (by decide +kernel), Run.replaces_of_exists rfl (by decide +kernel)⟩
  have hlast : twoGuards.LastRead 1 4 false (Text.Utf8.encode "old".toList) "old".toList := by
    refine ⟨by decide, ⟨none, ⟨⟨.slash, ["doc.md"]⟩, defaultMaxSize, some ⟨1, 3, 5, 0o644⟩⟩,
      rfl, rfl, rfl⟩, ?_⟩
    rintro k bytes text hk hk' ⟨_, _, ha, -⟩
    obtain rfl | rfl : k = 2 ∨ k = 3 := by omega
    · cases ha
    · cases ha
  -- what the guards have read never comes back
  have hgone : twoGuards.version 3 ≠ twoGuards.version 2 ∧
      twoGuards.version 4 ≠ twoGuards.version 1 := by decide +kernel
  obtain ⟨hread, hrefused, hafter, -⟩ := Run.no_lost_update twoGuards hdistinct
  refine ⟨hdistinct, hread 7 false hreplaces.2, ?_, ?_⟩
  · exact (hafter 2 3 true none _ hreplaces.1 (by decide)
      (fun k _ _ hk hk' => absurd hk' (Nat.not_lt_of_le hk)) rfl).resolve_right
      fun hback => hgone.1 hback.back
  · exact ((hrefused 4 false none _ rfl).2 1 _ _ hlast (by decide +kernel)).resolve_right
      fun hback => hgone.2 hback.back

/-- A guard reads a document; others take it away and bring it back, before the guard replaces it and
again afterwards. -/
def movedBack : Run Unit where
  path := ⟨.slash, ["doc.md"]⟩
  start := ⟨oneDocument "a" 1 5, fun _ => { path := ⟨.slash, ["doc.md"]⟩ }⟩
  actions :=
    [.read () none, .others {}, .others (oneDocument "a" 1 5), .replace () none "b".toList,
      .others { oneDocument "a" 1 5 with nextInode := 3 }, .replace () none "c".toList]
  onPath := fun _ => rfl
  unread := fun _ => rfl

/-- The guard is not refused, either time. -/
theorem movedBack_not_refused :
    movedBack.Distinct ∧
    (∃ bytes text, movedBack.LastRead 0 3 () bytes text ∧ movedBack.Touched 0 3 ∧
      ¬ movedBack.Refused 3 () none "b".toList) ∧
    movedBack.Replaces 3 () ∧ movedBack.NoRead 4 5 () ∧
    ¬ movedBack.Refused 5 () none "c".toList := by
  have hreplaces : movedBack.Replaces 3 () ∧ movedBack.Replaces 5 () :=
    ⟨Run.replaces_of_exists rfl (by decide +kernel), Run.replaces_of_exists rfl (by decide +kernel)⟩
  have hnot : ∀ {n content}, movedBack.actions[n]? = some (.replace () none content) →
      movedBack.Replaces n () → ¬ movedBack.Refused n () none content := by
    rintro n content ha ⟨_, _, _, _, ha', hok⟩ ⟨⟨e, he⟩, -⟩
    cases ha.symm.trans ha'
    cases he.symm.trans hok
  refine ⟨by decide +kernel, ⟨Text.Utf8.encode "a".toList, "a".toList, ⟨by decide, ?_, ?_⟩,
    by decide +kernel, hnot rfl hreplaces.1⟩, hreplaces.1, ?_, hnot rfl hreplaces.2⟩
  · exact ⟨none, ⟨⟨.slash, ["doc.md"]⟩, defaultMaxSize, some ⟨1, 1, 5, 0o644⟩⟩, rfl, rfl, rfl⟩
  · rintro k bytes text hk hk' ⟨_, _, ha, -⟩
    obtain rfl | rfl : k = 1 ∨ k = 2 := by omega
    · cases ha
    · cases ha
  · rintro k bytes text hk hk' ⟨_, _, ha, -⟩
    obtain rfl : k = 4 := by omega
    cases ha

end DirectiveFences.Files
