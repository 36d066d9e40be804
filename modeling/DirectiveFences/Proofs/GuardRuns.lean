/-
Runs of guards.

Any number of guards work on one path, and others change the disk as they like between
the calls.  The invariant that carries a run relates each guard to the past: what it
remembers is the file that stood at the path when it last read a text, and it remembers
nothing if it never read one (`Run.remembers`).
-/
import DirectiveFences.Proofs.GuardedFile
import Mathlib.Tactic.ByContra

namespace DirectiveFences.Files

/-- A disk and the guards that work on it. -/
structure System (ι : Type) where
  disk : Disk
  guards : ι → Guard

/-- One whole operation. -/
inductive Action (ι : Type)
  | read (who : ι) (fault : Option Fault)
  | replace (who : ι) (fault : Option Fault) (content : List Char)
  /-- Others bring the disk into another state: a file is rewritten in place, moved over the path,
  taken away or made again, a link or a directory is put there, or whatever else. -/
  | others (disk : Disk)

/-- What an operation makes of the system. -/
def System.step {ι : Type} [DecidableEq ι] (s : System ι) : Action ι → System ι
  | .read who fault =>
    match (s.guards who).read s.disk fault with
    | .ok (_, g) => { s with guards := fun i => if i = who then g else s.guards i }
    | .error _ => s
  | .replace who fault content =>
    { s with disk := ((s.guards who).replace s.disk fault content).2 }
  | .others disk => { s with disk }

theorem System.guards_step {ι : Type} [DecidableEq ι] (s : System ι) (a : Action ι) (who : ι) :
    (∃ fault text g, a = .read who fault ∧ (s.guards who).read s.disk fault = .ok (text, g) ∧
        (s.step a).guards who = g) ∨
      ((∀ fault text g, a = .read who fault → (s.guards who).read s.disk fault ≠ .ok (text, g)) ∧
        (s.step a).guards who = s.guards who) := by
  cases a with
  | replace i fault content => exact Or.inr ⟨(fun _ _ _ h => by cases h), rfl⟩
  | others disk => exact Or.inr ⟨(fun _ _ _ h => by cases h), rfl⟩
  | read i fault =>
      cases hread : (s.guards i).read s.disk fault with
      | error e =>
          refine Or.inr ⟨?_, by simp only [step, hread]⟩
          rintro fault' text g h hok
          cases h
          cases hread.symm.trans hok
      | ok result =>
          obtain ⟨text, g⟩ := result
          by_cases hi : who = i
          · subst hi
            exact Or.inl ⟨fault, text, g, rfl, hread, by simp only [step, hread, if_true]⟩
          · refine Or.inr ⟨?_, by simp only [step, hread, if_neg hi]⟩
            rintro fault' text' g' h
            cases h
            exact absurd rfl hi

/-- A run of operations, from a system whose guards are all on one path and have not read. -/
structure Run (ι : Type) where
  path : Path
  start : System ι
  actions : List (Action ι)
  onPath : ∀ i, (start.guards i).path = path
  unread : ∀ i, (start.guards i).snapshot = none

namespace Run

variable {ι : Type} [DecidableEq ι] (r : Run ι)

/-- The system before operation `n`. -/
def before (n : Nat) : System ι :=
  (r.actions.take n).foldl System.step r.start

/-- The file at the path before operation `n`. -/
def document (n : Nat) : Option File :=
  (r.before n).disk.document r.path

/-- The version of the file at the path before operation `n`. -/
def version (n : Nat) : Option (Nat × Int × List UInt8) :=
  (r.document n).map File.version

/-- Operation `n` is a successful read of a guard: the bytes that were read, and the text that they
spell. -/
def Reads (n : Nat) (who : ι) (bytes : List UInt8) (text : List Char) : Prop :=
  ∃ fault g, r.actions[n]? = some (.read who fault) ∧
    (r.before n).disk.read fault r.path.text = .ok bytes ∧
    ((r.before n).guards who).read (r.before n).disk fault = .ok (text, g)

/-- Operation `n` is a successful replacement by a guard. -/
def Replaces (n : Nat) (who : ι) : Prop :=
  ∃ fault content refused disk, r.actions[n]? = some (.replace who fault content) ∧
    ((r.before n).guards who).replace (r.before n).disk fault content = (.ok refused, disk)

/-- No operation from `m` on and before `n` is a successful read of a guard. -/
def NoRead (m n : Nat) (who : ι) : Prop :=
  ∀ k bytes text, m ≤ k → k < n → ¬ r.Reads k who bytes text

/-- Operation `m` is the last successful read of a guard before operation `n`. -/
structure LastRead (m n : Nat) (who : ι) (bytes : List UInt8) (text : List Char) : Prop where
  before : m < n
  reads : r.Reads m who bytes text
  last : r.NoRead (m + 1) n who

/-- An operation from `m` on and before `n` has changed the document: it was replaced by a guard, or
another version of it, or none, stands at the path than before. -/
def Touched (m n : Nat) : Prop :=
  ∃ k, m ≤ k ∧ k < n ∧
    ((∃ who, r.Replaces k who) ∨ r.version (k + 1) ≠ r.version k)

/-- Operation `n` is a replacement by a guard that fails and leaves the whole system as it was. -/
def Refused (n : Nat) (who : ι) (fault : Option Fault) (content : List Char) : Prop :=
  (∃ e, ((r.before n).guards who).replace (r.before n).disk fault content =
    (.error e, (r.before n).disk)) ∧ r.before (n + 1) = r.before n

/-! ## One operation -/

variable {r} {m n : Nat} {who : ι}

theorem before_zero : r.before 0 = r.start := rfl

theorem before_succ {a : Action ι} (h : r.actions[n]? = some a) :
    r.before (n + 1) = (r.before n).step a := by
  rw [before, List.take_add_one, h, List.foldl_append]
  rfl

theorem before_succ_of_none (h : r.actions[n]? = none) : r.before (n + 1) = r.before n := by
  rw [before, List.take_add_one, h, Option.toList_none, List.append_nil]
  rfl

theorem guards_succ (n : Nat) (who : ι) :
    (∃ fault text g, r.actions[n]? = some (.read who fault) ∧
        ((r.before n).guards who).read (r.before n).disk fault = .ok (text, g) ∧
        (r.before (n + 1)).guards who = g) ∨
      ((∀ bytes text, ¬ r.Reads n who bytes text) ∧
        (r.before (n + 1)).guards who = (r.before n).guards who) := by
  cases ha : r.actions[n]? with
  | none =>
      refine Or.inr ⟨?_, by rw [before_succ_of_none ha]⟩
      rintro bytes text ⟨fault, g, hread, -⟩
      cases ha.symm.trans hread
  | some a =>
      rw [before_succ ha]
      rcases (r.before n).guards_step a who with ⟨fault, text, g, rfl, hread, hafter⟩ | ⟨hno, hsame⟩
      · exact Or.inl ⟨fault, text, g, rfl, hread, hafter⟩
      · refine Or.inr ⟨?_, hsame⟩
        rintro bytes text ⟨fault, g, hread, -, hok⟩
        exact hno fault text g (Option.some.inj (ha.symm.trans hread)) hok

theorem path_guards (n : Nat) (who : ι) : ((r.before n).guards who).path = r.path := by
  induction n with
  | zero => exact r.onPath who
  | succ n ih =>
      rcases guards_succ (r := r) n who with ⟨fault, text, g, -, hread, hafter⟩ | ⟨-, hsame⟩
      · obtain ⟨f, -, -, -, hg⟩ := Guard.read_eq_ok hread
        rw [hafter, hg]
        exact ih
      · rw [hsame, ih]

/-! ## What a guard remembers -/

/-- What a guard remembers before operation `n`: the file at the path when it last read a text. -/
def Remembers (r : Run ι) (n : Nat) (who : ι) : Option Snapshot → Prop
  | none => r.NoRead 0 n who
  | some seen => ∃ m f text, r.LastRead m n who f.bytes text ∧ r.document m = some f ∧
      Text.Utf8.decode f.bytes = .ok text ∧ seen = f.snapshot

theorem NoRead.succ (h : r.NoRead m n who) (hn : ∀ bytes text, ¬ r.Reads n who bytes text) :
    r.NoRead m (n + 1) who := by
  intro k bytes text hmk hkn
  rcases Nat.lt_or_eq_of_le (Nat.le_of_lt_succ hkn) with hlt | rfl
  · exact h k bytes text hmk hlt
  · exact hn bytes text

/-- At every operation, each guard remembers the file that it last read. -/
theorem remembers (n : Nat) (who : ι) :
    r.Remembers n who ((r.before n).guards who).snapshot := by
  induction n with
  | zero =>
      rw [before_zero, r.unread who]
      exact fun k _ _ _ hk => absurd hk (Nat.not_lt_zero k)
  | succ n ih =>
      rcases guards_succ (r := r) n who with ⟨fault, text, g, ha, hread, hafter⟩ | ⟨hnone, hsame⟩
      · obtain ⟨f, hf, hbytes, hdecode, hg⟩ := Guard.read_eq_ok hread
        rw [path_guards] at hf hbytes
        rw [hafter, hg]
        refine ⟨n, f, text, ⟨Nat.lt_succ_self n, ⟨fault, g, ha, hbytes, hread⟩, ?_⟩, hf, hdecode, rfl⟩
        exact fun k _ _ hnk hkn => absurd hkn (Nat.not_lt_of_le hnk)
      · rw [hsame]
        cases hseen : ((r.before n).guards who).snapshot with
        | none =>
            rw [hseen] at ih
            exact NoRead.succ ih hnone
        | some seen =>
            rw [hseen] at ih
            obtain ⟨m, f, text, hlast, hf, hdecode, hsnapshot⟩ := ih
            exact ⟨m, f, text, ⟨Nat.lt_succ_of_lt hlast.before, hlast.reads, hlast.last.succ hnone⟩,
              hf, hdecode, hsnapshot⟩

/-- There is but one last read. -/
theorem LastRead.unique {m' : Nat} {bytes bytes' : List UInt8} {text text' : List Char}
    (h : r.LastRead m n who bytes text) (h' : r.LastRead m' n who bytes' text') : m = m' := by
  rcases Nat.lt_trichotomy m m' with hlt | heq | hlt
  · exact absurd h'.reads (h.last m' bytes' text' hlt h'.before)
  · exact heq
  · exact absurd h.reads (h'.last m bytes text hlt h.before)

theorem eq_of_steps_eq {α : Type} (view : Nat → α) (hmn : m ≤ n)
    (h : ∀ k, m ≤ k → k < n → view (k + 1) = view k) : view n = view m := by
  induction n with
  | zero => rw [Nat.le_zero.mp hmn]
  | succ n ih =>
      rcases Nat.lt_or_eq_of_le hmn with hlt | rfl
      · have hle := Nat.le_of_lt_succ hlt
        rw [h n hle (Nat.lt_succ_self n), ih hle fun k hmk hkn => h k hmk (Nat.lt_succ_of_lt hkn)]
      · rfl

theorem refused_of_other (fault : Option Fault) (content : List Char)
    (ha : r.actions[n]? = some (.replace who fault content))
    (h : ∀ m f g text, r.LastRead m n who f.bytes text → r.document m = some f →
      r.document n = some g → g.identity ≠ f.identity) : r.Refused n who fault content := by
  have hremembers := remembers (r := r) n who
  obtain ⟨e, he⟩ : ∃ e, ((r.before n).guards who).replace (r.before n).disk fault content =
      (.error e, (r.before n).disk) := by
    refine Guard.replace_eq_error ?_ fault content
    intro seen g hseen hg
    rw [hseen] at hremembers
    obtain ⟨m, f, text, hlast, hf, -, rfl⟩ := hremembers
    rw [path_guards] at hg
    exact Bool.eq_false_iff.mpr fun hsame =>
      h m f g text hlast hf hg ((File.sameContent_snapshot_iff g f).mp hsame)
  refine ⟨⟨e, he⟩, ?_⟩
  rw [before_succ ha, System.step, he]

/-- A guard that never read a text is refused. -/
theorem refused_of_noRead (fault : Option Fault) (content : List Char)
    (ha : r.actions[n]? = some (.replace who fault content)) (h : r.NoRead 0 n who) :
    r.Refused n who fault content :=
  refused_of_other fault content ha fun m f _ text hlast _ _ _ =>
    h m f.bytes text (Nat.zero_le m) hlast.before hlast.reads

theorem before_succ_of_read_error {fault : Option Fault} {e : GuardError}
    (ha : r.actions[n]? = some (.read who fault))
    (he : ((r.before n).guards who).read (r.before n).disk fault = .error e) :
    r.before (n + 1) = r.before n := by
  rw [before_succ ha, System.step, he]

end Run

end DirectiveFences.Files
