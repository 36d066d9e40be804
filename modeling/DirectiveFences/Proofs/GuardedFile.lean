/-
What a guard knows of the file that it guards.

A guard looks at its path twice: once without following a link, for the snapshot, and
once through the content.  When the first look finds a regular file, the second one finds
the same file, since the two walks differ only where a link is the last name.  So what a
guard has read is the content of the file of its snapshot; and what it has to do with the
file system up to the moment of a replacement is said by the file at the path alone.
-/
import DirectiveFences.Files.Guard
import DirectiveFences.Proofs.Legs

namespace DirectiveFences.Files

/-! ## Two walks to one file -/

/-- Two legs differ only where the last name is a link. -/
theorem Tree.LegTo.follow {t : Tree} {dir : Place} {names : List String} {leg : Leg}
    (h : t.LegTo false dir names leg) (hno : ∀ place target, leg ≠ .arrives place (.link target)) :
    t.LegTo true dir names leg := by
  induction h with
  | nil => exact .nil
  | skip hpart _ ih => exact .skip hpart (ih hno)
  | up _ ih => exact .up (ih hno)
  | enter hfinds _ ih => exact .enter hfinds (ih hno)
  | long hpart hup hlong => exact .long hpart hup hlong
  | misses hfinds => exact .misses hfinds
  | absent hfinds hrest => exact .absent hfinds hrest
  | file hfinds => exact .file hfinds
  | behindFile hfinds hrest => exact .behindFile hfinds hrest
  | @link dir name target _ _ => exact absurd rfl (hno (dir ++ [name]) target)
  | follows hfinds _ => exact .follows hfinds fun _ => rfl

theorem Tree.walk_true {t : Tree} {links : Nat} {dir place : Place} {names : List String}
    {node : Node} (hnode : ∀ target, node ≠ .link target)
    (h : t.walk false links dir names = .ok (.taken place node)) :
    t.walk true links dir names = .ok (.taken place node) := by
  rw [Tree.walk_eq_iff] at *
  generalize hend : Except.ok (Spot.taken place node) = result at h
  induction h with
  | arrives hleg =>
      cases hend
      refine .arrives ((Tree.leg_eq_iff.mp hleg).follow fun place' target heq => ?_).leg_eq
      cases heq
      exact hnode target rfl
  | follows hleg _ ih =>
      exact .follows ((Tree.leg_eq_iff.mp hleg).follow nofun).leg_eq (ih hend)
  | misses | fails | exhausted => cases hend

theorem Tree.find_true {t : Tree} {cwd place : Place} {path : String} {node : Node}
    (hnode : ∀ target, node ≠ .link target)
    (h : t.find false cwd path = .ok (.taken place node)) :
    t.find true cwd path = .ok (.taken place node) := by
  rw [Tree.find_eq_ok_iff] at *
  exact ⟨h.1, Tree.walk_true hnode h.2⟩

theorem Tree.find_of_look {t : Tree} {follow : Bool} {cwd place : Place} {path : String}
    {node : Node} (h : t.look follow cwd path = .ok (place, node)) :
    t.find follow cwd path = .ok (.taken place node) := by
  unfold Tree.look at h
  split at h <;> cases h
  assumption

theorem Tree.look_true {t : Tree} {cwd place : Place} {path : String} {node : Node}
    (hnode : ∀ target, node ≠ .link target) (h : t.look false cwd path = .ok (place, node)) :
    t.look true cwd path = .ok (place, node) := by
  rw [Tree.look, Tree.find_true hnode (Tree.find_of_look h)]

/-! ## The file at a path -/

/-- The regular file that stands at a path, not behind a link. -/
def Disk.document (s : Disk) (path : Path) : Option File :=
  match s.lstat none path.text with
  | .ok (_, .file f) => some f
  | _ => none

theorem Disk.document_congr {s after : Disk} (htree : after.tree = s.tree) (hcwd : after.cwd = s.cwd)
    (path : Path) : after.document path = s.document path := by
  simp only [Disk.document, Disk.lstat, htree, hcwd]

/-- What tells versions of a file apart for a guard: the inode (with its device), the size and the
time. -/
def File.identity (f : File) : Nat × Nat × Int :=
  (f.inode, f.bytes.length, f.time)

/-- A version of a file.  Permission bits may change within a version. -/
def File.version (f : File) : Nat × Int × List UInt8 :=
  (f.inode, f.time, f.bytes)

theorem File.sameContent_snapshot_iff (f g : File) :
    f.snapshot.sameContent g.snapshot = true ↔ f.identity = g.identity := by
  simp only [Snapshot.sameContent, File.snapshot, File.identity, Bool.and_eq_true, beq_iff_eq,
    Prod.mk.injEq, and_assoc]

theorem Disk.lstat_of_failure?_eq_none {s : Disk} {fault : Option Fault} {path : String}
    {purpose : Purpose} (h : failure? fault (.look purpose path) = none) :
    s.lstat fault path purpose = s.tree.look false s.cwd path := by
  rw [Disk.lstat, h]

theorem Disk.lstat_eq_look (s : Disk) (path : String) :
    s.lstat none path = s.tree.look false s.cwd path := rfl

theorem Disk.lstat_eq_ok_iff {s : Disk} {fault : Option Fault} {path : String} {purpose : Purpose}
    {found : Place × Node} : s.lstat fault path purpose = .ok found ↔
      failure? fault (.look purpose path) = none ∧ s.lstat none path = .ok found := by
  cases hfailure : failure? fault (.look purpose path) with
  | none => simp only [Disk.lstat_of_failure?_eq_none hfailure, Disk.lstat_eq_look, true_and]
  | some e => simp only [Disk.lstat, hfailure, reduceCtorEq, false_and]

theorem Disk.lstat_none {s : Disk} {fault : Option Fault} {path : String} {purpose : Purpose}
    {found : Place × Node} (h : s.lstat fault path purpose = .ok found) :
    s.lstat none path = .ok found :=
  (Disk.lstat_eq_ok_iff.mp h).2

theorem Disk.stat_eq_look (s : Disk) (path : String) :
    s.stat path = s.tree.look true s.cwd path := rfl

theorem Disk.stat_eq_ok_iff {s : Disk} {fault : Option Fault} {path : String} {purpose : Purpose}
    {found : Place × Node} : s.stat path fault purpose = .ok found ↔
      failure? fault (.follow purpose path) = none ∧ s.stat path = .ok found := by
  simp only [Disk.stat, failure?_none]
  cases failure? fault (.follow purpose path) with
  | none => simp only [true_and]
  | some e => simp only [reduceCtorEq, false_and]

theorem Disk.stat_none {s : Disk} {fault : Option Fault} {path : String} {purpose : Purpose}
    {found : Place × Node} (h : s.stat path fault purpose = .ok found) : s.stat path = .ok found :=
  (Disk.stat_eq_ok_iff.mp h).2

theorem Disk.stat_of_lstat {s : Disk} {fault : Option Fault} {path : String} {purpose : Purpose}
    {place : Place} {f : File} (h : s.lstat fault path purpose = .ok (place, .file f)) :
    s.stat path = .ok (place, .file f) :=
  Tree.look_true (fun target heq => by cases heq) (Disk.lstat_none h)

theorem Disk.document_of_lstat {s : Disk} {fault : Option Fault} {path : Path} {purpose : Purpose}
    {place : Place} {f : File} (h : s.lstat fault path.text purpose = .ok (place, .file f)) :
    s.document path = some f := by
  rw [Disk.document, Disk.lstat_none h]

theorem Snapshot.take_eq_ok {s : Disk} {fault : Option Fault} {path : Path} {purpose : Purpose}
    {seen : Snapshot} (h : Snapshot.take s fault path purpose = .ok seen) :
    ∃ f, s.document path = some f ∧ seen = f.snapshot := by
  unfold Snapshot.take at h
  split at h
  · cases h
  · cases h
  · cases h
  · rename_i place f hlook
    cases h
    exact ⟨f, Disk.document_of_lstat hlook, rfl⟩

theorem Disk.read_document {s : Disk} {fault : Option Fault} {path : Path} {f : File}
    {bytes : List UInt8} (hf : s.document path = some f)
    (h : s.read fault path.text = .ok bytes) : bytes = f.bytes := by
  unfold Disk.document at hf
  split at hf
  · rename_i place f' hlook
    cases hf
    have hstat : s.stat path.text = .ok (place, .file f) :=
      Tree.look_true (fun target heq => by cases heq) hlook
    unfold Disk.read at h
    split at h
    · cases h
    · rw [hstat] at h
      cases h
      rfl
  · cases hf

/-! ## Reading and replacing -/

namespace Guard

/-- A guard that has read a text keeps the snapshot of the file whose content spells it. -/
theorem read_eq_ok {g g' : Guard} {s : Disk} {fault : Option Fault} {text : List Char}
    (h : g.read s fault = .ok (text, g')) :
    ∃ f, s.document g.path = some f ∧ s.read fault g.path.text = .ok f.bytes ∧
      Text.Utf8.decode f.bytes = .ok text ∧ g' = { g with snapshot := some f.snapshot } := by
  unfold read at h
  split at h
  · cases h
  · rename_i seen htake
    obtain ⟨f, hf, rfl⟩ := Snapshot.take_eq_ok htake
    split at h
    · cases h
    · split at h
      · cases h
      · rename_i bytes hread
        obtain rfl := Disk.read_document hf hread
        split at h
        · cases h
        · rename_i text' hdecode
          cases h
          exact ⟨f, hf, hread, hdecode, rfl⟩

theorem replace_eq_ok {g : Guard} {s s' : Disk} {fault : Option Fault} {content : List Char}
    {refused : Bool} (h : g.replace s fault content = (.ok refused, s')) :
    ∃ seen f, g.snapshot = some seen ∧ s.document g.path = some f ∧
      f.snapshot.sameContent seen = true := by
  unfold replace at h
  split at h
  · cases h
  · rename_i seen hseen
    split at h
    · cases h
    · rename_i present htake
      obtain ⟨f, hf, rfl⟩ := Snapshot.take_eq_ok htake
      split at h
      · cases h
      · rename_i hsame
        rw [Bool.not_eq_true', Bool.not_eq_false] at hsame
        exact ⟨seen, f, hseen, hf, hsame⟩

/-- Without the file of its snapshot at the path a guard replaces nothing, and touches nothing. -/
theorem replace_eq_error {g : Guard} {s : Disk}
    (h : ∀ seen f, g.snapshot = some seen → s.document g.path = some f →
      f.snapshot.sameContent seen = false) (fault : Option Fault) (content : List Char) :
    ∃ e, g.replace s fault content = (.error e, s) := by
  unfold replace
  cases hseen : g.snapshot with
  | none => exact ⟨_, rfl⟩
  | some seen =>
      cases htake : Snapshot.take s fault g.path .replacing with
      | error e => exact ⟨e, rfl⟩
      | ok present =>
          obtain ⟨f, hf, rfl⟩ := Snapshot.take_eq_ok htake
          have hother := h seen f hseen hf
          exact ⟨.changed g.path, by simp only [hother, Bool.not_false, if_true]⟩

end Guard

end DirectiveFences.Files
