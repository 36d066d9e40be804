/-
The rights that a replacement leaves behind.

A guard gives the new file the rights of its snapshot, which are those that the document had
when its text was read.  Whether the document is still the one that was read is asked by inode,
size and time, and a change of the rights alters none of these.  So it goes unnoticed, and the
replacement undoes it.  From what a guard remembers (`Run.remembers`) and what a replacement
does (`Guard.replace_cases`) follows which runs keep the rights of what they replace: those
in which they are the same before each replacement as at the last read.
-/
import DirectiveFences.Proofs.LostUpdate

namespace DirectiveFences.Files

namespace Run

variable {ι : Type} [DecidableEq ι] (r : Run ι)

/-- The rights of the document before operation `n`, if there is one. -/
def rights (n : Nat) : Option Nat :=
  (r.document n).map fun f => permissions f.mode

/-- An operation from `m` on and before `n` has changed the rights of the document. -/
def RightsChanged (m n : Nat) : Prop :=
  ∃ k, m ≤ k ∧ k < n ∧ r.rights (k + 1) ≠ r.rights k

/-- After each replacement the document has the rights that it had right before. -/
def KeepsRights : Prop :=
  ∀ n who, r.Replaces n who → r.rights (n + 1) = r.rights n

variable {r} {m n : Nat} {who : ι}

theorem rights_of_not_changed (hmn : m ≤ n) (h : ¬ r.RightsChanged m n) :
    r.rights n = r.rights m := by
  refine eq_of_steps_eq r.rights hmn fun k hmk hkn => ?_
  by_contra hchange
  exact h ⟨k, hmk, hkn, hchange⟩

theorem rights_of_replaces (h : r.Replaces n who) :
    ∃ m f text, r.LastRead m n who f.bytes text ∧ r.document m = some f ∧
      r.rights (n + 1) = some (permissions f.mode) := by
  obtain ⟨fault, content, refused, disk, ha, hok⟩ := h
  obtain ⟨e, after, herror, -⟩ | ⟨refused', after, hdone, -, -, seen, place, old, new, hseen, -,
      hafter, -, hrights, -⟩ :=
    ((r.before n).guards who).replace_cases (r.before n).disk fault content
  · cases hok.symm.trans herror
  · have hremembers := remembers (r := r) n who
    rw [hseen] at hremembers
    obtain ⟨m, f, text, hlast, hf, -, rfl⟩ := hremembers
    have hdisk : (r.before (n + 1)).disk = after := by
      rw [before_succ ha, System.step, hdone]
    rw [path_guards] at hafter
    refine ⟨m, f, text, hlast, hf, ?_⟩
    rw [rights, document, hdisk, Disk.document, hafter]
    exact congrArg some hrights

theorem keepsRights_iff : r.KeepsRights ↔ ∀ m n who bytes text,
    r.LastRead m n who bytes text → r.Replaces n who → r.rights n = r.rights m := by
  -- the file of the last read is one and the same on both sides
  have hafter : ∀ m n who bytes text, r.LastRead m n who bytes text → r.Replaces n who →
      r.rights (n + 1) = r.rights m := by
    intro m n who bytes text hlast hreplaces
    obtain ⟨m', f, text', hlast', hf, hrights⟩ := rights_of_replaces hreplaces
    obtain rfl := hlast.unique hlast'
    rw [hrights, rights, hf]
    rfl
  constructor
  · intro hkeeps m n who bytes text hlast hreplaces
    rw [← hkeeps n who hreplaces, hafter m n who bytes text hlast hreplaces]
  · intro hsame n who hreplaces
    obtain ⟨m, f, text, hlast, -⟩ := rights_of_replaces hreplaces
    rw [hafter m n who _ _ hlast hreplaces, hsame m n who _ _ hlast hreplaces]

/-- **A replacement restores the rights of the last read.**  Guards on one path and others take
turns in any order.  After a successful replacement the document has the rights that it had when the
guard read it last.  So a run keeps the rights of what is replaced exactly if at each replacement
they are what they were at that read; it is enough that nobody changes them in between. -/
theorem rights_after_replacement {ι : Type} [DecidableEq ι] (r : Run ι) :
    (∀ n who, r.Replaces n who → ∃ m f text, r.LastRead m n who f.bytes text ∧
      r.document m = some f ∧ r.rights (n + 1) = some (permissions f.mode)) ∧
    (r.KeepsRights ↔ ∀ m n who bytes text,
      r.LastRead m n who bytes text → r.Replaces n who → r.rights n = r.rights m) ∧
    ((∀ m n who bytes text, r.LastRead m n who bytes text → r.Replaces n who →
      ¬ r.RightsChanged m n) → r.KeepsRights) := by
  refine ⟨fun n who => rights_of_replaces, keepsRights_iff, fun h => keepsRights_iff.mpr ?_⟩
  intro m n who bytes text hlast hreplaces
  exact rights_of_not_changed (Nat.le_of_lt hlast.before) (h m n who bytes text hlast hreplaces)

end Run

/-- A guard reads a document that all may read; its owner then keeps it for himself; and the guard
replaces it. -/
def tightened : Run Unit where
  path := ⟨.slash, ["doc.md"]⟩
  start := ⟨disk 0o644, fun _ => { path := ⟨.slash, ["doc.md"]⟩ }⟩
  actions := [.read () none, .others (disk 0o600), .replace () none "b".toList]
  onPath := fun _ => rfl
  unread := fun _ => rfl
where
  disk (mode : Nat) : Disk :=
    { tree := ⟨[(["doc.md"], .file ⟨1, mode, 5, Text.Utf8.encode "a".toList⟩)]⟩
      nextInode := 2 }

/-- All may read it again. -/
theorem tightened_loosened :
    tightened.Distinct ∧ tightened.Replaces 2 () ∧ tightened.rights 2 = some 0o600 ∧
      tightened.rights 3 = some 0o644 ∧ ¬ tightened.KeepsRights := by
  have hreplaces : tightened.Replaces 2 () := Run.replaces_of_exists rfl (by decide +kernel)
  have hbefore : tightened.rights 2 = some 0o600 := by decide +kernel
  have hafter : tightened.rights 3 = some 0o644 := by decide +kernel
  refine ⟨by decide +kernel, hreplaces, hbefore, hafter, fun hkeeps => ?_⟩
  have hsame := hkeeps 2 () hreplaces
  rw [hbefore, hafter] at hsame
  exact absurd hsame (by decide)

end DirectiveFences.Files
