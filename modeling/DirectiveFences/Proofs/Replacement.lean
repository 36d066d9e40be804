/-
A replacement is all or nothing.

The new content is written to a temporary file beside the document, and the document is
touched by the last call only.  So every disk on the way has one form: the tree as it was,
with some file at a place where nothing stood (`Disk.Staged`).  From there the tree goes
back to what it was when the temporary file is taken away, and the move makes it the tree
as it was with another file at the place of the document.

For the move to find the document again, a walk must not notice the temporary file.  It
does not, since it ends at a file, so it has looked at no place where nothing stands
(`Tree.Keeps.walk`).
-/
import DirectiveFences.Proofs.GuardRuns

namespace DirectiveFences.Files

/-! ## Entries that come and go -/

namespace Tree

variable {t : Tree} {place p : Place} {node node' : Node}

theorem set_set (t : Tree) (place : Place) (node node' : Node) :
    (t.set place node).set place node' = t.set place node' := by
  simp [set]

theorem filter_of_free (h : t.get? place = none) :
    t.entries.filter (·.1 != place) = t.entries := by
  refine List.filter_eq_self.mpr fun e he => bne_iff_ne.mpr fun heq => ?_
  have hlookup : t.entries.lookup place = none := by
    cases place with
    | nil => cases h
    | cons a place => exact h
  exact absurd (beq_self_eq_true place) (by simpa [heq] using List.lookup_eq_none_iff.mp hlookup e he)

theorem erase_set (h : t.get? place = none) (node : Node) : (t.set place node).erase place = t := by
  have hfilter := filter_of_free h
  simp [set, erase, hfilter]

theorem erase_of_free (h : t.get? place = none) : t.erase place = t := by
  rw [erase, filter_of_free h]

theorem get?_set_self (hne : place ≠ []) : (t.set place node).get? place = some node := by
  rw [get?_set t place node place hne, if_pos rfl]

theorem get?_set_ne (h : p ≠ place) : (t.set place node).get? p = t.get? p := by
  cases p with
  | nil => rfl
  | cons a p => rw [get?_set t place node _ (List.cons_ne_nil a p), if_neg h]

/-! ## Walks in a tree that has changed -/

/-- Whatever stands in the first tree stands in the second one too, where its files may be other
ones. -/
structure Keeps (t t' : Tree) (change : Place → File → File) : Prop where
  directory : ∀ p, t.get? p = some .directory → t'.get? p = some .directory
  link : ∀ p target, t.get? p = some (.link target) → t'.get? p = some (.link target)
  file : ∀ p f, t.get? p = some (.file f) → t'.get? p = some (.file (change p f))

theorem keeps_set_free (h : t.get? place = none) (node : Node) :
    t.Keeps (t.set place node) fun _ f => f := by
  have hne : ∀ {p n}, t.get? p = some n → p ≠ place := fun hp heq => by
    rw [heq, h] at hp
    cases hp
  exact ⟨fun p hp => (get?_set_ne (hne hp)).trans hp, fun p _ hp => (get?_set_ne (hne hp)).trans hp,
    fun p _ hp => (get?_set_ne (hne hp)).trans hp⟩

theorem keeps_set_file {old : File} (h : t.get? place = some (.file old)) (new : File) :
    t.Keeps (t.set place (.file new)) fun p f => if p = place then new else f := by
  have hne : ∀ {p n}, t.get? p = some n → (∀ f, n ≠ .file f) → p ≠ place := fun hp hn heq => by
    rw [heq, h] at hp
    exact hn old (Option.some.inj hp).symm
  refine ⟨fun p hp => ?_, fun p target hp => ?_, fun p f hp => ?_⟩
  · rw [get?_set_ne (hne hp nofun), hp]
  · rw [get?_set_ne (hne hp nofun), hp]
  · by_cases hp' : p = place
    · have hnil : place ≠ [] := fun heq => by
        rw [heq] at h
        cases h
      rw [if_pos hp', hp', get?_set_self hnil]
    · rw [if_neg hp', get?_set_ne hp', hp]

variable {t' : Tree} {change : Place → File → File}

variable {follow : Bool} {dir : Place} {names : List String}

theorem Keeps.leg_file (h : t.Keeps t' change) {f : File}
    (hleg : t.leg follow dir names = .arrives place (.file f)) :
    t'.leg follow dir names = .arrives place (.file (change place f)) := by
  rw [leg_eq_iff] at *
  generalize hend : Leg.arrives place (.file f) = leg at hleg
  induction hleg with
  | skip hpart _ ih => exact .skip hpart (ih hend)
  | up _ ih => exact .up (ih hend)
  | enter hfinds _ ih => exact .enter { hfinds with get? := h.directory _ hfinds.get? } (ih hend)
  | file hfinds =>
      cases hend
      exact .file { hfinds with get? := h.file _ f hfinds.get? }
  | nil | long | misses | absent | behindFile | link | follows => cases hend

theorem Keeps.leg_follows (h : t.Keeps t' change) {dir' : Place} {target : String}
    {rest : List String} (hleg : t.leg follow dir names = .follows dir' target rest) :
    t'.leg follow dir names = .follows dir' target rest := by
  rw [leg_eq_iff] at *
  generalize hend : Leg.follows dir' target rest = leg at hleg ⊢
  induction hleg with
  | skip hpart _ ih => exact .skip hpart (ih hend)
  | up _ ih => exact .up (ih hend)
  | enter hfinds _ ih => exact .enter { hfinds with get? := h.directory _ hfinds.get? } (ih hend)
  | follows hfinds hfollow =>
      exact .follows { hfinds with get? := h.link _ _ hfinds.get? } hfollow
  | nil | long | misses | absent | file | behindFile | link => cases hend

/-- A walk that ends at a file ends there in the changed tree. -/
theorem Keeps.walk (h : t.Keeps t' change) {links : Nat} {f : File}
    (hwalk : t.walk follow links dir names = .ok (.taken place (.file f))) :
    t'.walk follow links dir names = .ok (.taken place (.file (change place f))) := by
  rw [walk_eq_iff] at *
  generalize hend : Except.ok (Spot.taken place (.file f)) = result at hwalk
  induction hwalk with
  | arrives hleg =>
      cases hend
      exact .arrives (h.leg_file hleg)
  | follows hleg _ ih => exact .follows (h.leg_follows hleg) (ih hend)
  | misses | fails | exhausted => cases hend

theorem Keeps.find (h : t.Keeps t' change) {cwd : Place} {path : String} {f : File}
    (hfind : t.find follow cwd path = .ok (.taken place (.file f))) :
    t'.find follow cwd path = .ok (.taken place (.file (change place f))) := by
  rw [find_eq_ok_iff] at *
  exact ⟨hfind.1, h.walk hfind.2⟩

theorem look_of_find {cwd : Place} {path : String}
    (h : t.find follow cwd path = .ok (.taken place node)) :
    t.look follow cwd path = .ok (place, node) := by
  rw [Tree.look, h]

theorem get?_of_leg {f : File} (h : t.leg follow dir names = .arrives place (.file f)) :
    t.get? place = some (.file f) := by
  rw [leg_eq_iff] at h
  generalize hend : Leg.arrives place (.file f) = leg at h
  induction h with
  | skip _ _ ih | up _ ih | enter _ _ ih => exact ih hend
  | file hfinds =>
      cases hend
      exact hfinds.get?
  | nil | long | misses | absent | behindFile | link | follows => cases hend

theorem get?_of_walk {links : Nat} {f : File}
    (h : t.walk follow links dir names = .ok (.taken place (.file f))) :
    t.get? place = some (.file f) := by
  rw [walk_eq_iff] at h
  generalize hend : Except.ok (Spot.taken place (.file f)) = result at h
  induction h with
  | arrives hleg =>
      cases hend
      exact get?_of_leg hleg
  | follows _ _ ih => exact ih hend
  | misses | fails | exhausted => cases hend

theorem mem_entries_of_file {f : File} (h : t.get? place = some (.file f)) :
    (place, .file f) ∈ t.entries := by
  have hlookup : t.entries.lookup place = some (.file f) := by
    cases place with
    | nil => cases h
    | cons a place => exact h
  obtain ⟨before, after, heq, -⟩ := List.lookup_eq_some_iff.mp hlookup
  exact heq ▸ List.mem_append_right before List.mem_cons_self

theorem get?_of_find {cwd : Place} {path : String} {f : File}
    (h : t.find follow cwd path = .ok (.taken place (.file f))) :
    t.get? place = some (.file f) :=
  get?_of_walk (find_eq_ok_iff.mp h).2

end Tree

theorem Disk.exists_place_of_document {s : Disk} {path : Path} {f : File}
    (h : s.document path = some f) : ∃ place, s.tree.get? place = some (.file f) := by
  unfold Disk.document at h
  split at h
  · rename_i place f' hlook
    cases h
    exact ⟨place, Tree.get?_of_find (Tree.find_of_look hlook)⟩
  · cases h

/-! ## A disk with one file too many -/

/-- The rights to read, write and run a file, without the three bits above them. -/
def permissions (mode : Nat) : Nat :=
  mode % Nat.pow 2 9

theorem permissions_ownedMode (mode : Nat) :
    permissions (Disk.ownedMode mode) = permissions mode := by
  have hdrop : ∀ n k, 9 ≤ k →
      permissions (if n.testBit k then n - Nat.pow 2 k else n) = permissions n := by
    intro n k hk
    split
    · rename_i hbit
      obtain ⟨d, rfl⟩ := Nat.exists_eq_add_of_le hk
      have hle := Nat.ge_two_pow_of_testBit hbit
      rw [permissions, permissions, Nat.pow_eq, Nat.pow_add] at *
      exact Nat.sub_mul_mod hle
    · rfl
  unfold Disk.ownedMode
  simp only
  generalize hfirst : (if mode.testBit 11 then mode - Nat.pow 2 11 else mode) = first
  rw [← hdrop mode 11 (by decide), hfirst]
  cases hgroup : first.testBit 3 with
  | false => simp
  | true => simpa using hdrop first 10 (by decide)

namespace Disk

/-- A disk is as a first one was, with a file more at a place where nothing stood. -/
structure Staged (base : Disk) (temporary : Place) (s : Disk) (f : File) : Prop where
  free : base.tree.get? temporary = none
  tree : s.tree = base.tree.set temporary (.file f)
  cwd : s.cwd = base.cwd

namespace Staged

variable {base s : Disk} {temporary : Place} {f : File}

theorem ne_nil (h : Staged base temporary s f) : temporary ≠ [] := fun heq => by
  have hfree := h.free
  rw [heq] at hfree
  cases hfree

theorem get? (h : Staged base temporary s f) : s.tree.get? temporary = some (.file f) := by
  rw [h.tree, Tree.get?_set_self h.ne_nil]

/-- Whatever is done to the file, it is still the only one too many. -/
theorem update (h : Staged base temporary s f) (change : File → File) :
    Staged base temporary (s.update temporary change) (change f) := by
  have hupdate : s.update temporary change =
      { s with tree := s.tree.set temporary (.file (change f)) } := by
    rw [Disk.update, h.get?]
  refine ⟨h.free, ?_, ?_⟩
  · rw [hupdate, h.tree, Tree.set_set]
  · rw [hupdate, h.cwd]

/-- Without the file the tree is what it was. -/
theorem tree_unlink (h : Staged base temporary s f) : (s.unlink temporary).tree = base.tree := by
  rw [Disk.unlink, h.tree, Tree.erase_set h.free]

/-- The file is moved over another one as if that stood there alone. -/
theorem move (h : Staged base temporary s f) {fault : Option Fault} {path : String}
    {place : Place} {old : File}
    (hfind : base.tree.find false base.cwd path = .ok (.taken place (.file old))) :
    s.move fault temporary path =
      match failure? fault .move with
      | some e => .error ⟨e, none⟩
      | none => .ok { s with tree := base.tree.set place (.file f) } := by
  have hfind' : s.tree.find false s.cwd path = .ok (.taken place (.file old)) := by
    rw [h.tree, h.cwd]
    exact (Tree.keeps_set_free h.free _).find hfind
  unfold Disk.move
  cases failure? fault .move with
  | some e => rfl
  | none =>
      simp only [h.get?, hfind']
      rw [h.tree, Tree.erase_set h.free]

end Staged

end Disk

/-! ## The steps of a replacement -/

theorem Tree.null_mem_of_find {t : Tree} {follow : Bool} {cwd : Place} {path : String}
    (h : t.find follow cwd path = .error .embeddedNull) : '\x00' ∈ path.toList := by
  by_cases hcallable : Callable path
  · rw [find_of_callable hcallable] at h
    cases hwalk : t.walk follow linkLimit (startOf cwd path) (namesOf path) <;> rw [hwalk] at h <;>
      cases h
  · obtain ⟨e, hcause, hfind⟩ := find_of_not_callable hcallable
    cases (hfind t follow cwd).symm.trans h
    rcases hcause with ⟨-, hnull⟩ | heq | heq
    · exact hnull
    · cases heq
    · cases heq

theorem Disk.null_mem_of_lstat {s : Disk} {fault : Option Fault} {path : String}
    {purpose : Purpose} (h : s.lstat fault path purpose = .error .embeddedNull) :
    '\x00' ∈ path.toList := by
  unfold Disk.lstat Tree.look at h
  split at h
  · cases h
  · split at h
    · cases h
    · cases h
    · rename_i hfind
      cases h
      exact Tree.null_mem_of_find hfind

namespace Fault

/-- Whether an owner may not be set: there are owners, and a permission is lacking. -/
def refusesOwner (fault : Option Fault) : Bool :=
  Files.hasOwners fault && (failure? fault .setOwner).any Errno.isPermission

/-- Whether setting an owner fails for any other reason. -/
def breaksOwner (fault : Option Fault) : Bool :=
  Files.hasOwners fault && (failure? fault .setOwner).any (!·.isPermission)

/-- Whether the owner is asked for and refused. -/
def warns (fault : Option Fault) : Bool :=
  (failure? fault .sync).isNone && (failure? fault .setMode).isNone && refusesOwner fault

theorem refusesOwner_of_breaksOwner {fault : Option Fault} (h : breaksOwner fault = true) :
    refusesOwner fault = false := by
  unfold breaksOwner at h
  unfold refusesOwner
  cases hcall : failure? fault .setOwner with
  | none => simp
  | some e =>
      rw [hcall] at h
      have hpermission : e.isPermission = false := by
        simp only [Option.any_some, Bool.and_eq_true, Bool.not_eq_true'] at h
        exact h.2
      simp [hpermission]

/-- A call on the way from the temporary file to the document fails, and not only for an owner that
may not be set. -/
def Stops (fault : Option Fault) : Prop :=
  failure? fault .sync ≠ none ∨ failure? fault .setMode ≠ none ∨ breaksOwner fault = true ∨
    failure? fault .move ≠ none

theorem not_stops_none : ¬ Stops none := by
  simp [Stops, breaksOwner]

end Fault

namespace Guard

variable {g : Guard} {base s : Disk} {fault : Option Fault} {temporary place : Place}
  {f old : File}

theorem temporaryPlace_free (h : g.temporaryPlace s = .ok temporary) :
    s.tree.get? temporary = none := by
  unfold temporaryPlace at h
  simp only at h
  split at h
  · cases h
  · cases h
  all_goals
    split at h
    · rename_i n hfirst
      cases h
      simpa using List.find?_some hfirst
    · cases h

theorem staged_of_openTemporary {opened : Disk}
    (h : g.openTemporary s fault = .ok (temporary, opened)) :
    ∃ f, Disk.Staged s temporary opened f ∧ f.inode = s.nextInode ∧ f.time = s.clock := by
  unfold openTemporary at h
  split at h
  · cases h
  · split at h
    · cases h
    · rename_i hplace
      cases h
      exact ⟨_, ⟨temporaryPlace_free hplace, rfl, rfl⟩, rfl, rfl⟩

/-- The owner is not set, which may or may not be said, or it is set and leaves all but the bits above
the rights alone. -/
theorem setOwner_staged (fault : Option Fault) (h : Disk.Staged base temporary s f) :
    (Fault.breaksOwner fault = true ∧ ∃ e, setOwner s fault temporary = .error e) ∨
      (Fault.breaksOwner fault = false ∧ ∃ s' mode, Disk.Staged base temporary s' { f with mode } ∧
        setOwner s fault temporary = .ok (Fault.refusesOwner fault, s') ∧
        permissions mode = permissions f.mode) := by
  unfold setOwner Fault.breaksOwner Fault.refusesOwner
  cases hasOwners fault with
  | false => exact Or.inr ⟨rfl, s, f.mode, h, rfl, rfl⟩
  | true =>
      cases failure? fault .setOwner with
      | none => exact Or.inr ⟨rfl, _, _, h.update _, rfl, permissions_ownedMode f.mode⟩
      | some e =>
          cases hpermission : e.isPermission with
          | true => exact Or.inr ⟨by simp [hpermission], s, f.mode, h, by simp [hpermission], rfl⟩
          | false => exact Or.inl ⟨by simp [hpermission], ⟨e, none⟩, by simp [hpermission]⟩

/-- Once the temporary file is there, a replacement is stopped only by a call that fails, and says that
the owner was refused if it comes so far.  If it is not stopped, then the tree is as it was before, with
the new file at the place of the document. -/
theorem fillAndMove_staged (fault : Option Fault) (h : Disk.Staged base temporary s f) (mode : Nat)
    (bytes : List UInt8)
    (hfind : base.tree.find false base.cwd g.path.text = .ok (.taken place (.file old))) :
    ∃ result, g.fillAndMove s fault temporary mode bytes = (Fault.warns fault, result) ∧
      ((Fault.Stops fault ∧ ∃ e, result = .error e) ∨
        (¬ Fault.Stops fault ∧ ∃ moved mode', result = .ok moved ∧
          moved.tree = base.tree.set place (.file { f with bytes, mode := mode' }) ∧
          moved.cwd = base.cwd ∧ permissions mode' = permissions mode)) := by
  have hfilled := (h.update fun f => { f with bytes }).update fun f => { f with mode }
  unfold fillAndMove Fault.Stops Fault.warns
  cases failure? fault .sync with
  | some e => exact ⟨_, rfl, Or.inl ⟨Or.inl nofun, _, rfl⟩⟩
  | none =>
      cases failure? fault .setMode with
      | some e => exact ⟨_, rfl, Or.inl ⟨Or.inr (Or.inl nofun), _, rfl⟩⟩
      | none =>
          simp only
          obtain ⟨hbreaks, e, howner⟩ | ⟨hbreaks, s', mode', hstaged, howner, hrights⟩ :=
            setOwner_staged fault hfilled
          · rw [howner, Fault.refusesOwner_of_breaksOwner hbreaks]
            exact ⟨_, rfl, Or.inl ⟨Or.inr (Or.inr (Or.inl hbreaks)), e, rfl⟩⟩
          · rw [howner]
            simp only
            rw [hstaged.move hfind]
            refine ⟨_, rfl, ?_⟩
            cases failure? fault .move with
            | some e => exact Or.inl ⟨Or.inr (Or.inr (Or.inr nofun)), _, rfl⟩
            | none =>
                refine Or.inr ⟨?_, _, mode', rfl, rfl, hstaged.cwd, hrights⟩
                simp [hbreaks]

/-! ## The whole replacement -/

/-- The document has become the next new file, which holds a text and has the rights of the one that
the guard has seen, and nothing else has changed. -/
def Replaced (g : Guard) (before after : Disk) (content : List Char) : Prop :=
  ∃ seen place old new, g.snapshot = some seen ∧
    before.lstat none g.path.text = .ok (place, .file old) ∧
    after.lstat none g.path.text = .ok (place, .file new) ∧
    new.bytes = Text.Utf8.encode content ∧
    permissions new.mode = permissions seen.mode ∧
    new.inode = before.nextInode ∧ new.time = before.clock ∧
    after.cwd = before.cwd ∧
    ∀ p, p ≠ place → after.tree.get? p = before.tree.get? p

/-- A replacement comes to the opening of its temporary file, and that is opened. -/
def Opens (g : Guard) (s : Disk) (fault : Option Fault) : Prop :=
  (∃ seen present, g.snapshot = some seen ∧ Snapshot.take s fault g.path .replacing = .ok present ∧
    present.sameContent seen = true) ∧
  ∃ opened, g.openTemporary s fault = .ok opened

/-- The guards that there are: new ones, and those that a read leaves behind. -/
inductive Arises : Guard → Prop
  | new (path : Path) (maxSize : Int) : Arises { path, maxSize }
  | read {g g' : Guard} {s : Disk} {fault : Option Fault} {text : List Char} (h : Arises g)
      (hread : g.read s fault = .ok (text, g')) : Arises g'

end Guard

/-- Whether a failure is one of the system, or stands for one. -/
def GuardError.isSystem : GuardError → Bool
  | undecodable _ | embeddedNull => false
  | _ => true

namespace Guard

variable {g : Guard} {s : Disk} {fault : Option Fault} {content : List Char}

theorem take_eq_ok_iff {path : Path} {purpose : Purpose} {present : Snapshot} :
    Snapshot.take s fault path purpose = .ok present ↔
      ∃ place f, s.lstat fault path.text purpose = .ok (place, .file f) ∧
        present = f.snapshot := by
  unfold Snapshot.take
  constructor
  · intro h
    split at h <;> cases h
    exact ⟨_, _, ‹_›, rfl⟩
  · rintro ⟨place, f, hlook, rfl⟩
    rw [hlook]

theorem isSystem_of_take {path : Path} {purpose : Purpose} {e : GuardError}
    (h : Snapshot.take s fault path purpose = .error e) :
    e.isSystem = true ∨ e = .embeddedNull ∧ '\x00' ∈ path.text.toList := by
  unfold Snapshot.take at h
  split at h
  · rename_i e' hlook
    cases h
    cases e' with
    | system e' => exact Or.inl rfl
    | embeddedNull => exact Or.inr ⟨rfl, Disk.null_mem_of_lstat hlook⟩
  · cases h
    exact Or.inl rfl
  · cases h
    exact Or.inl rfl
  · cases h

theorem warnings_of_take {path : Path} {purpose : Purpose} {e : GuardError}
    (h : Snapshot.take s fault path purpose = .error e) : g.warnings (.error e) = [] := by
  unfold Snapshot.take at h
  split at h
  · rename_i e' hlook
    cases h
    cases e' <;> rfl
  all_goals cases h
  all_goals rfl

theorem Arises.no_null (h : g.Arises) (hseen : g.snapshot ≠ none) :
    '\x00' ∉ g.path.text.toList := by
  cases h with
  | new path maxSize => exact absurd rfl hseen
  | @read g g' s fault text h hread =>
      obtain ⟨f, hf, -, -, rfl⟩ := read_eq_ok hread
      unfold Disk.document at hf
      split at hf
      · rename_i hlook
        exact (Tree.find_eq_ok_iff.mp (Tree.find_of_look hlook)).1.no_null
      · cases hf

/-- A replacement whose temporary file is not opened fails, and the disk is as it was. -/
theorem replace_of_not_opens (h : ¬ g.Opens s fault) (content : List Char) :
    ∃ e, g.replace s fault content = (.error e, s) ∧ g.warnings (.error e) = [] ∧
      (e.isSystem = true ∨ e = .embeddedNull ∧ ¬ g.Arises) := by
  unfold replace
  split
  · exact ⟨_, rfl, rfl, Or.inl rfl⟩
  · rename_i seen hseen
    split
    · rename_i e htake
      have hcause := isSystem_of_take htake
      refine ⟨e, rfl, warnings_of_take htake,
        hcause.imp_right fun ⟨he, hnull⟩ => ⟨he, fun harises => ?_⟩⟩
      exact harises.no_null (by rw [hseen]; nofun) hnull
    · rename_i present htake
      split
      · exact ⟨_, rfl, rfl, Or.inl rfl⟩
      · rename_i hsame
        split
        · exact ⟨_, rfl, rfl, Or.inl rfl⟩
        · rename_i hopen
          rw [Bool.not_eq_true', Bool.not_eq_false] at hsame
          exact absurd ⟨⟨seen, present, hseen, htake, hsame⟩, _, hopen⟩ h

/-- A replacement whose temporary file is opened either is stopped, and the tree is as it was, or
replaces the document. -/
theorem replace_of_opens (h : g.Opens s fault) (content : List Char) :
    ∃ result after, g.replace s fault content = (result, after) ∧
      g.warnings result = (if Fault.warns fault then [g.ownerWarning] else []) ∧
      ((Fault.Stops fault ∧ ∃ e, result = .error e ∧ after.tree = s.tree ∧ after.cwd = s.cwd ∧
          e.isSystem = true) ∨
        (¬ Fault.Stops fault ∧ (∃ refused, result = .ok refused) ∧
          g.Replaced s after content)) := by
  obtain ⟨⟨seen, present, hseen, htake, hsame⟩, ⟨temporary, opened⟩, hopen⟩ := h
  obtain ⟨place, old, hlook, -⟩ := take_eq_ok_iff.mp htake
  obtain ⟨f, hstaged, hinode, htime⟩ := staged_of_openTemporary hopen
  have hlstat := Disk.lstat_none hlook
  have hfind : s.tree.find false s.cwd g.path.text = .ok (.taken place (.file old)) :=
    Tree.find_of_look hlstat
  have hplace := Tree.get?_of_find hfind
  obtain ⟨result, hmove, hresult⟩ :=
    fillAndMove_staged fault hstaged seen.mode (Text.Utf8.encode content) hfind
  simp only [replace, hseen, htake, hsame, hopen, hmove, Bool.not_true, Bool.false_eq_true,
    if_false]
  obtain ⟨hstops, e, rfl⟩ | ⟨hstops, moved, mode, rfl, htree, hcwd, hrights⟩ := hresult
  · exact ⟨_, _, rfl, rfl, Or.inl ⟨hstops, _, rfl, hstaged.tree_unlink, hstaged.cwd, rfl⟩⟩
  · generalize hnew : ({ f with bytes := Text.Utf8.encode content, mode } : File) = new at htree
    -- the temporary file is the document now, so there is nothing to take away
    have hne : temporary ≠ place := fun heq => by
      rw [← heq, hstaged.free] at hplace
      cases hplace
    have hafter : (moved.unlink temporary).tree = s.tree.set place (.file new) := by
      rw [Disk.unlink, htree, Tree.erase_of_free]
      rw [Tree.get?_set_ne hne, hstaged.free]
    have hfound := (Tree.keeps_set_file hplace new).find hfind
    rw [if_pos rfl, ← hafter, ← hcwd] at hfound
    subst hnew
    exact ⟨_, _, rfl, rfl, Or.inr ⟨hstops, ⟨_, rfl⟩, seen, place, old, _, hseen, hlstat,
      Tree.look_of_find hfound, rfl, hrights, hinode, htime, hcwd, fun p hp => by
        rw [hafter, Tree.get?_set_ne hp]⟩⟩

/-- A replacement either fails and leaves the tree and the working directory as they were, or replaces
the document. -/
theorem replace_cases (g : Guard) (s : Disk) (fault : Option Fault) (content : List Char) :
    (∃ e after, g.replace s fault content = (.error e, after) ∧ after.tree = s.tree ∧
        after.cwd = s.cwd ∧ ¬ (g.Opens s fault ∧ ¬ Fault.Stops fault) ∧
        (e.isSystem = true ∨ e = .embeddedNull ∧ ¬ g.Arises)) ∨
      ∃ refused after, g.replace s fault content = (.ok refused, after) ∧
        g.Opens s fault ∧ ¬ Fault.Stops fault ∧ g.Replaced s after content := by
  by_cases hopens : g.Opens s fault
  · obtain ⟨result, after, heq, -, ⟨hstops, e, rfl, htree, hcwd, hsystem⟩ |
      ⟨hstops, ⟨refused, rfl⟩, hreplaced⟩⟩ := replace_of_opens hopens content
    · exact Or.inl ⟨e, after, heq, htree, hcwd, fun h => h.2 hstops, Or.inl hsystem⟩
    · exact Or.inr ⟨refused, after, heq, hopens, hstops, hreplaced⟩
  · obtain ⟨e, heq, -, hsystem⟩ := replace_of_not_opens hopens content
    exact Or.inl ⟨e, s, heq, rfl, rfl, fun h => hopens h.1, hsystem⟩

theorem document_of_replace_error {e : GuardError} {after : Disk}
    (h : g.replace s fault content = (.error e, after)) (path : Path) :
    after.document path = s.document path := by
  obtain ⟨e', after', heq, htree, hcwd, -⟩ | ⟨refused, after', heq, -⟩ :=
    g.replace_cases s fault content
  · obtain rfl := (Prod.mk.inj (heq.symm.trans h)).2
    exact Disk.document_congr htree hcwd path
  · cases heq.symm.trans h

theorem document_of_replace_ok {refused : Bool} {after : Disk}
    (h : g.replace s fault content = (.ok refused, after)) :
    ∃ new, after.document g.path = some new ∧ new.bytes = Text.Utf8.encode content ∧
      new.inode = s.nextInode ∧ new.time = s.clock := by
  obtain ⟨e, after', heq, -⟩ | ⟨refused', after', heq, -, -, _, _, _, new, -, -, hlook, hbytes, -,
      hinode, htime, -⟩ := g.replace_cases s fault content
  · cases heq.symm.trans h
  · obtain rfl := (Prod.mk.inj (heq.symm.trans h)).2
    exact ⟨new, Disk.document_of_lstat hlook, hbytes, hinode, htime⟩

theorem replace_isOk_iff :
    (g.replace s fault content).1.isOk = true ↔ g.Opens s fault ∧ ¬ Fault.Stops fault := by
  obtain ⟨e, after, heq, -, -, hnot, -⟩ | ⟨refused, after, heq, hopens, hstops, -⟩ :=
    g.replace_cases s fault content
  · rw [heq]
    exact ⟨nofun, fun h => absurd h hnot⟩
  · rw [heq]
    exact ⟨fun _ => ⟨hopens, hstops⟩, fun _ => rfl⟩

end Guard

/-! ## Owners -/

namespace Fault.OnlyOwner

variable {fault : Option Fault}

end Fault.OnlyOwner

end DirectiveFences.Files
