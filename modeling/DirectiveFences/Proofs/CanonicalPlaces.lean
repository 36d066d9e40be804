/-
Where the canonical form of a path leads.

A strict reading looks at every name that it takes, so at each moment the path that it has
built is there and is walked along without meeting a link (`Disk.Stands`).  That is the whole
invariant: it survives names, `..` and links, the last because a link is left for a path that
stands as well.  The canonical form is the place of such a path, and a place that is walked to
without a link is walked to from the root by its own names (`Tree.leg_place`).

The other way round needs more.  The reading takes `..` off a path without asking whether a
directory is there, so where the system finds a file before a `..` and fails, the reading goes
on.  Apart from that the two agree as long as no name is a link: what the reading takes the
system walks along (`readNames_agrees`), and what the system walks along the reading takes,
if its texts are no longer than that of the path (`readNames_of_leg`).

How the names of a link's target are read makes no difference to a reading that meets no link,
so what is said of readings holds for every `follow`; only at the end is there one with room for
links inside each other (`readWithin_induction`).
-/
import DirectiveFences.Proofs.DirectWalks

namespace DirectiveFences.Files

/-! ## Paths that stand -/

/-- The working directory is a directory, and its names lead to it from the root. -/
structure Disk.Grounded (s : Disk) : Prop where
  named : ∀ name ∈ s.cwd, IsName name
  stands : s.tree.leg true [] s.cwd = .arrives s.cwd .directory

/-- The place to which a path leads if none of its names is a link. -/
def Path.place (p : Path) (cwd : Place) : Place :=
  along (p.start cwd) p.parts

/-- Something stands at the end of a path, and no link is met on the way to it. -/
structure Disk.Stands (s : Disk) (p : Path) (node : Node) : Prop where
  plain : p.Plain
  single : p.root ≠ .doubleSlash
  rooted : p.root = .slash → ".." ∉ p.parts
  leg : s.tree.leg true (p.start s.cwd) p.parts = .arrives (p.place s.cwd) node

namespace Disk.Stands

variable {s : Disk} {p : Path} {node : Node} {name : String}

theorem isPart (h : s.Stands p node) : ∀ n ∈ p.parts, isPart n = true :=
  fun n hn => (h.plain n hn).1

theorem nil {root : Root} (h : root ≠ .doubleSlash) : s.Stands ⟨root, []⟩ .directory :=
  ⟨fun _ hn => absurd hn List.not_mem_nil, h, fun _ => List.not_mem_nil, rfl⟩

theorem up_cases (h : s.Stands p node) :
    (p.root = .none ∧ p.up = p.child ".." ∧ node = .directory) ∨
      (p = ⟨.slash, []⟩ ∧ p.up = p) ∨
      ∃ before last, last ≠ ".." ∧ p.parts = before ++ [last] ∧ p.up = ⟨p.root, before⟩ := by
  obtain ⟨root, parts⟩ := p
  have hleg := h.leg
  rcases List.eq_nil_or_concat parts with rfl | ⟨before, last, rfl⟩
  · cases root with
    | none =>
        cases hleg
        exact Or.inl ⟨rfl, rfl, rfl⟩
    | slash => exact Or.inr (Or.inl ⟨rfl, rfl⟩)
    | doubleSlash => exact absurd rfl h.single
  · rw [List.concat_eq_append] at *
    by_cases hlast : root = .none ∧ last = ".."
    · obtain ⟨rfl, rfl⟩ := hlast
      refine Or.inl ⟨rfl, by simp [Path.up, Path.child], ?_⟩
      have hbefore := fun n hn => h.isPart n (List.mem_append_left _ hn)
      rw [Tree.leg_append (Tree.leg_of_append hbefore hleg (List.cons_ne_nil _ _)),
        Tree.leg_up] at hleg
      injection hleg with _ hnode
      exact hnode.symm
    · have hne : last ≠ ".." := by
        rintro rfl
        cases root with
        | none => exact hlast ⟨rfl, rfl⟩
        | slash =>
            exact h.rooted rfl (List.mem_append_right _ (List.mem_singleton_self _))
        | doubleSlash => exact h.single rfl
      refine Or.inr (Or.inr ⟨before, last, hne, rfl, ?_⟩)
      cases root <;> simp [Path.up, Path.parent, hne]

theorem place_up (h : s.Stands p node) : p.up.place s.cwd = (p.place s.cwd).dropLast := by
  rcases h.up_cases with ⟨-, hup, -⟩ | ⟨rfl, -⟩ | ⟨before, last, hne, hparts, hup⟩
  · rw [hup]
    exact along_up _ _
  · rfl
  · obtain ⟨root, parts⟩ := p
    obtain rfl : parts = before ++ [last] := hparts
    have hplace : Path.place ⟨root, before ++ [last]⟩ s.cwd =
        Path.place ⟨root, before⟩ s.cwd ++ [last] := along_name hne _ _
    rw [hup, hplace, List.dropLast_concat]

/-- One step further up. -/
theorem up (h : s.Stands p node) : s.Stands p.up .directory := by
  have hplace := h.place_up
  rcases h.up_cases with ⟨hroot, hup, rfl⟩ | ⟨rfl, hup⟩ | ⟨before, last, -, hparts, hup⟩
  · rw [hup] at hplace ⊢
    refine ⟨h.plain.child ⟨by decide, by decide⟩, h.single, fun hslash => ?_, ?_⟩
    · cases hroot.symm.trans hslash
    · show s.tree.leg true (p.start s.cwd) (p.parts ++ [".."]) = _
      rw [hplace, Tree.leg_append h.leg, Tree.leg_up]
      rfl
  · exact nil h.single
  · obtain ⟨root, parts⟩ := p
    obtain rfl : parts = before ++ [last] := hparts
    rw [hup]
    refine ⟨fun n hn => h.plain n (List.mem_append_left _ hn), h.single,
      fun hslash hmem => h.rooted hslash (List.mem_append_left _ hmem), ?_⟩
    exact Tree.leg_of_append (fun n hn => h.isPart n (List.mem_append_left _ hn)) h.leg
      (List.cons_ne_nil last [])

theorem place_child (hname : IsName name) :
    (p.child name).place s.cwd = p.place s.cwd ++ [name] :=
  along_name hname.2.2 _ _

/-- One step further down. -/
theorem child (h : s.Stands p .directory) (hname : IsName name)
    (hlong : name.utf8ByteSize ≤ longestName)
    (hat : s.tree.get? (p.place s.cwd ++ [name]) = some node)
    (hlink : ∀ target, node ≠ .link target) : s.Stands (p.child name) node := by
  refine ⟨h.plain.child ⟨hname.1, hname.2.1⟩, h.single, ?_, ?_⟩
  · intro hroot hmem
    rcases List.mem_append.mp hmem with hmem | hmem
    · exact h.rooted hroot hmem
    · exact hname.2.2 (List.mem_singleton.mp hmem).symm
  · have hstep : s.tree.leg true (p.start s.cwd) (p.parts ++ [name]) =
        s.tree.leg true (p.place s.cwd) [name] := Tree.leg_append h.leg [name]
    rw [place_child hname]
    show s.tree.leg true (p.start s.cwd) (p.parts ++ [name]) = _
    rw [hstep, Tree.leg_name hname.1 hname.2.2 hlong, hat]
    cases node with
    | directory => rfl
    | file f => rfl
    | link target => exact absurd rfl (hlink target)

theorem lstat_child_iff {place : Place} {found : Node} (h : s.Stands p node)
    (hname : IsName name) :
    s.lstat none (p.child name).text = .ok (place, found) ↔
      (p.child name).Fits ∧ node = .directory ∧ name.utf8ByteSize ≤ longestName ∧
        place = p.place s.cwd ++ [name] ∧ s.tree.get? place = some found := by
  rw [Disk.lstat_eq_look, Tree.look_text_eq_ok (h.plain.child ⟨hname.1, hname.2.1⟩)]
  refine and_congr_right fun _ => ?_
  show s.tree.walk false linkLimit (p.start s.cwd) (p.parts ++ [name]) = _ ↔ _
  rw [Tree.walk]
  cases node with
  | link target => exact absurd h.leg Tree.leg_ne_link
  | file f =>
      rw [Tree.leg_append_file h.leg]
      refine ⟨fun heq => (by cases heq), fun heq => ?_⟩
      cases heq.1
  | directory =>
      rw [Tree.leg_append h.leg, Tree.leg_single hname.1 hname.2.2]
      by_cases hlong : longestName < name.utf8ByteSize
      · rw [if_pos hlong]
        exact ⟨fun heq => (by cases heq), fun heq => absurd heq.2.1 (Nat.not_le.mpr hlong)⟩
      · rw [if_neg hlong]
        cases hat : s.tree.get? (p.place s.cwd ++ [name]) with
        | none =>
            refine ⟨fun heq => (by cases heq), ?_⟩
            rintro ⟨-, -, rfl, hfound⟩
            cases hat.symm.trans hfound
        | some node =>
            refine ⟨fun heq => ?_, ?_⟩
            · cases heq
              exact ⟨rfl, Nat.not_lt.mp hlong, rfl, hat⟩
            · rintro ⟨-, -, rfl, hfound⟩
              cases hat.symm.trans hfound
              rfl

theorem lstat_child_ne_loop (h : s.Stands p node) (hname : IsName name) (about : Option String) :
    s.lstat none (p.child name).text ≠ .error (.system ⟨.tooManyLinks, about⟩) := fun hlook => by
  rw [Disk.lstat_eq_look] at hlook
  obtain ⟨dir, target, rest, hfollows⟩ :=
    Tree.follows_of_look (h.plain.child ⟨hname.1, hname.2.1⟩) hlook
  have hleg : s.tree.leg false (p.start s.cwd) (p.parts ++ [name]) = .follows dir target rest :=
    hfollows
  cases node with
  | link target => exact absurd h.leg Tree.leg_ne_link
  | file f =>
      rw [Tree.leg_append_file h.leg] at hleg
      cases hleg
  | directory =>
      rw [Tree.leg_append h.leg, Tree.leg_single hname.1 hname.2.2] at hleg
      split at hleg
      · cases hleg
      · split at hleg <;> cases hleg

end Disk.Stands

/-! ## One step of a reading -/

section Steps

variable {s : Disk} {fault : Option Fault} {strict : Bool}
  {follow : Path → Met → List String → Reading} {p : Path} {met : Met} {names : List String}
  {name : String}

theorem readNames_up : readNames s fault strict follow p met (".." :: names) =
    readNames s fault strict follow p.up met names := by
  rw [readNames]
  rfl

theorem readNames_skip (h : isPart name = false) :
    readNames s fault strict follow p met (name :: names) =
      readNames s fault strict follow p met names := by
  rw [readNames, h]
  rfl

theorem readNames_fails (hname : IsName name) {e : CallError}
    (h : linkTarget? s fault strict (p.child name).text = .error e) :
    readNames s fault strict follow p met (name :: names) = .fails (.call e) := by
  simp only [readNames, hname.1, if_neg hname.2.2, h, Bool.not_true, Bool.false_eq_true, if_false]

theorem readNames_child (hname : IsName name)
    (h : linkTarget? s fault strict (p.child name).text = .ok none) :
    readNames s fault strict follow p met (name :: names) =
      readNames s fault strict follow (p.child name) met names := by
  simp only [readNames, hname.1, if_neg hname.2.2, h, Bool.not_true, Bool.false_eq_true, if_false]

theorem readNames_link (hname : IsName name) {target : String}
    (h : linkTarget? s fault strict (p.child name).text = .ok (some target)) :
    readNames s fault strict follow p met (name :: names) =
      match met.lookup (p.child name).text with
      | some (some known) => readNames s fault strict follow known met names
      | some none =>
        if strict then .fails (loopError s fault (p.child name).text)
        else .stuck ((p.child name).continued names)
      | none =>
        match follow (targetStart p target) (((p.child name).text, none) :: met)
          (namesOf target) with
        | .done found met =>
          readNames s fault strict follow found (((p.child name).text, some found) :: met) names
        | .stuck found => .stuck (found.continued names)
        | .fails e => .fails e := by
  rcases hmet : met.lookup (p.child name).text with _ | _ | _ <;>
    cases hfollow : follow (targetStart p target) (((p.child name).text, none) :: met)
      (namesOf target) <;>
    simp only [readNames, hname.1, if_neg hname.2.2, h, hmet, hfollow, Bool.not_true,
      Bool.false_eq_true, if_false]

/-- What holds of every reading whose links are followed by such a reading, and of one that follows
none, holds of a reading with room for links. -/
theorem readWithin_induction {motive : (Path → Met → List String → Reading) → Prop}
    (hnone : motive fun _ _ _ => .fails .tooDeep)
    (hstep : ∀ follow, motive follow → motive (readNames s fault strict follow)) (room : Nat) :
    motive (readWithin s fault strict room) := by
  induction room with
  | zero => exact hstep _ hnone
  | succ room ih => exact hstep _ ih

theorem readWithin_eq (s : Disk) (fault : Option Fault) (strict : Bool) (room : Nat) :
    ∃ follow, readWithin s fault strict room = readNames s fault strict follow := by
  cases room with
  | zero => exact ⟨_, rfl⟩
  | succ room => exact ⟨_, rfl⟩

end Steps

/-! ## What a reading asks -/

section Asks

variable {s s' : Disk} {fault fault' : Option Fault} {strict : Bool}

/-- Names are read alike where it is known of the same texts that they are links.  A strict reading
also follows a link that leads back to itself, to tell how that fails. -/
theorem readNames_congr (hlinks : linkTarget? s' fault' strict = linkTarget? s fault strict)
    (hloops : strict = true → loopError s' fault' = loopError s fault)
    (follow : Path → Met → List String → Reading) :
    readNames s' fault' strict follow = readNames s fault strict follow := by
  funext p met names
  induction names generalizing p met with
  | nil => rfl
  | cons name names ih =>
      cases strict with
      | true => simp only [readNames, hlinks, hloops rfl, ih]
      | false => simp only [readNames, hlinks, ih, Bool.false_eq_true, if_false]

theorem readWithin_congr (hlinks : linkTarget? s' fault' strict = linkTarget? s fault strict)
    (hloops : strict = true → loopError s' fault' = loopError s fault) (room : Nat) :
    readWithin s' fault' strict room = readWithin s fault strict room := by
  induction room with
  | zero => rw [readWithin, readWithin, readNames_congr hlinks hloops]
  | succ room ih => rw [readWithin, readWithin, readNames_congr hlinks hloops, ih]

/-- The target of a link. -/
def Node.target? : Node → Option String
  | link target => some target
  | _ => none

theorem linkTarget?_strict (path : String) :
    linkTarget? s fault true path = (s.lstat fault path).map fun found => found.2.target? := by
  simp only [linkTarget?, if_true]
  rcases s.lstat fault path with (_ | _) | ⟨place, _ | _ | _⟩ <;> rfl

/-- A look that finds something in spite of a fault finds it without one. -/
theorem linkTarget?_none {path : String} {found : Option String}
    (h : linkTarget? s fault true path = .ok found) : linkTarget? s none true path = .ok found := by
  rw [linkTarget?_strict] at h ⊢
  cases hlook : s.lstat fault path with
  | error e =>
      rw [hlook] at h
      cases h
  | ok entry => rwa [Disk.lstat_none hlook, ← hlook]

theorem readNames_ne_stuck {follow : Path → Met → List String → Reading}
    (hfollow : ∀ p met names q, follow p met names ≠ .stuck q) (p : Path) (met : Met)
    (names : List String) (q : Path) : readNames s fault true follow p met names ≠ .stuck q := by
  induction names generalizing p met with
  | nil => nofun
  | cons name names ih =>
      unfold readNames
      split
      · exact ih p met
      split
      · exact ih p.up met
      simp only
      split
      · nofun
      · exact ih _ met
      split
      · exact ih _ met
      · nofun
      split
      · exact ih _ _
      · rename_i hstuck
        exact absurd hstuck (hfollow _ _ _ _)
      · nofun

theorem readWithin_ne_stuck (room : Nat) (p : Path) (met : Met) (names : List String) (q : Path) :
    readWithin s fault true room p met names ≠ .stuck q :=
  readWithin_induction (motive := fun read => ∀ p met names q, read p met names ≠ .stuck q) nofun
    (fun _ hfollow => readNames_ne_stuck hfollow) room p met names q

theorem readNames_none {follow follow' : Path → Met → List String → Reading}
    (hfollow : ∀ p met names q met', follow p met names = .done q met' →
      follow' p met names = .done q met') {p q : Path} {met met' : Met} {names : List String}
    (h : readNames s fault true follow p met names = .done q met') :
    readNames s none true follow' p met names = .done q met' := by
  induction names generalizing p met with
  | nil => exact h
  | cons name names ih =>
      unfold readNames at h ⊢
      split at h
      · rename_i hskip
        rw [if_pos hskip]
        exact ih h
      rename_i hskip
      rw [if_neg hskip]
      split at h
      · rename_i hup
        rw [if_pos hup]
        exact ih h
      rename_i hup
      rw [if_neg hup]
      simp only at h ⊢
      split at h
      · cases h
      · rename_i hlink
        rw [linkTarget?_none hlink]
        exact ih h
      rename_i hlink
      rw [linkTarget?_none hlink]
      simp only
      split at h
      · exact ih h
      · cases h
      split at h
      · rename_i hdone
        rw [hfollow _ _ _ _ _ hdone]
        exact ih h
      · cases h
      · cases h

theorem readWithin_none {room : Nat} {p q : Path} {met met' : Met} {names : List String}
    (h : readWithin s fault true room p met names = .done q met') :
    readWithin s none true room p met names = .done q met' := by
  induction room generalizing p met names q met' with
  | zero => exact readNames_none (fun _ _ _ _ _ hdone => by cases hdone) h
  | succ room ih => exact readNames_none (fun _ _ _ _ _ hdone => ih hdone) h

end Asks

/-! ## What a strict reading builds -/

variable {s : Disk} {fault : Option Fault} {follow : Path → Met → List String → Reading} {p : Path}
  {node : Node} {met : Met} {names : List String}

/-- A strict reading takes a name only if something is there, and knows then whether it is a
link. -/
theorem linkTarget?_eq_ok {path : String} {found : Option String}
    (h : linkTarget? s fault true path = .ok found) :
    ∃ place node, s.lstat none path = .ok (place, node) ∧ found = node.target? := by
  rw [linkTarget?_strict] at h
  cases hlook : s.lstat fault path with
  | error e =>
      rw [hlook] at h
      cases h
  | ok entry =>
      rw [hlook] at h
      exact ⟨entry.1, entry.2, Disk.lstat_none hlook, (Except.ok.inj h).symm⟩

theorem lstat_of_linkTarget? {path : String} {e : CallError}
    (h : linkTarget? s fault true path = .error e) : s.lstat fault path = .error e := by
  rw [linkTarget?_strict] at h
  cases hlook : s.lstat fault path with
  | error e' =>
      rw [hlook] at h
      cases h
      rfl
  | ok entry =>
      rw [hlook] at h
      cases h

theorem linkTarget?_of_lstat {path : String} {place : Place}
    (h : s.lstat none path = .ok (place, node)) (hno : ∀ target, node ≠ .link target) :
    linkTarget? s none true path = .ok none := by
  rw [linkTarget?_strict, h]
  cases node with
  | link target => exact absurd rfl (hno target)
  | directory => rfl
  | file f => rfl

/-- Names that have no slash in them. -/
def Unslashed (names : List String) : Prop :=
  ∀ name ∈ names, '/' ∉ name.toList

/-- The paths to which links are known to lead stand. -/
def Disk.Knows (s : Disk) (met : Met) : Prop :=
  ∀ link known, (link, some known) ∈ met → ∃ node, s.Stands known node

/-- A link that has been met, without a path to which it leads, tells nothing wrong. -/
theorem Disk.Knows.meet (h : s.Knows met) (link : String) : s.Knows ((link, none) :: met) :=
  fun l known hmem => by
    rcases List.mem_cons.mp hmem with heq | hmem
    · cases heq
    · exact h l known hmem

theorem Disk.Knows.close (h : s.Knows met) (link : String) (hp : s.Stands p node) :
    s.Knows ((link, some p) :: met) :=
  fun l known hmem => by
    rcases List.mem_cons.mp hmem with heq | hmem
    · cases heq
      exact ⟨node, hp⟩
    · exact h l known hmem

theorem Disk.Knows.stands (h : s.Knows met) {link : String} {known : Path}
    (hknown : met.lookup link = some (some known)) : ∃ node, s.Stands known node := by
  obtain ⟨before, after, heq, -⟩ := List.lookup_eq_some_iff.mp hknown
  exact h link known (heq ▸ List.mem_append_right before List.mem_cons_self)

/-- What a strict reading comes to stands, and so do the paths to which links are known to lead. -/
def Reading.Sound (s : Disk) : Reading → Prop
  | .done p met => (∃ node, s.Stands p node) ∧ s.Knows met
  | _ => True

theorem targetStart_stands (h : s.Stands p node) (target : String) :
    ∃ node, s.Stands (targetStart p target) node := by
  unfold targetStart
  split
  · exact ⟨_, Disk.Stands.nil (by decide)⟩
  · exact ⟨node, h⟩

theorem readNames_sound
    (hfollow : ∀ p node met names, s.Stands p node → s.Knows met → Unslashed names →
      (follow p met names).Sound s)
    (h : s.Stands p node) (hmet : s.Knows met) (hslash : Unslashed names) :
    (readNames s fault true follow p met names).Sound s := by
  induction names generalizing p node met with
  | nil => exact ⟨⟨node, h⟩, hmet⟩
  | cons name names ih =>
      obtain ⟨hname, htail⟩ := List.forall_mem_cons.mp hslash
      cases hpart : isPart name with
      | false =>
          rw [readNames_skip hpart]
          exact ih h hmet htail
      | true =>
          by_cases hup : name = ".."
          · rw [hup, readNames_up]
            exact ih h.up hmet htail
          · have hname : IsName name := ⟨hpart, hname, hup⟩
            cases hlink : linkTarget? s fault true (p.child name).text with
            | error e =>
                rw [readNames_fails hname hlink]
                trivial
            | ok found =>
                obtain ⟨place, next, hlook, rfl⟩ := linkTarget?_eq_ok hlink
                obtain ⟨-, rfl, hlong, rfl, hat⟩ := (h.lstat_child_iff hname).mp hlook
                cases next with
                | directory =>
                    rw [readNames_child hname hlink]
                    exact ih (h.child hname hlong hat nofun) hmet htail
                | file f =>
                    rw [readNames_child hname hlink]
                    exact ih (h.child hname hlong hat nofun) hmet htail
                | link target =>
                    rw [readNames_link hname hlink]
                    split
                    · rename_i known hknown
                      obtain ⟨node, hstands⟩ := hmet.stands hknown
                      exact ih hstands hmet htail
                    · trivial
                    · obtain ⟨start, hstart⟩ := targetStart_stands h target
                      have hnames : Unslashed (namesOf target) :=
                        fun _ hn => slash_not_mem_of_mem_namesOf hn
                      have hsound := hfollow _ _ _ _ hstart (hmet.meet (p.child name).text) hnames
                      split
                      · rename_i found met' hdone
                        rw [hdone] at hsound
                        obtain ⟨⟨node', hfound⟩, hmet'⟩ := hsound
                        exact ih hfound (hmet'.close _ hfound) htail
                      · trivial
                      · trivial

theorem readWithin_stands {room : Nat} {met' : Met} {found : Path} (h : s.Stands p node)
    (hmet : s.Knows met) (hslash : Unslashed names)
    (hread : readWithin s fault true room p met names = .done found met') :
    ∃ node, s.Stands found node := by
  have hsound : (readWithin s fault true room p met names).Sound s :=
    readWithin_induction
      (motive := fun read => ∀ p node met names, s.Stands p node → s.Knows met → Unslashed names →
        (read p met names).Sound s)
      (fun _ _ _ _ _ _ _ => trivial)
      (fun _ hfollow _ _ _ _ h hmet hslash => readNames_sound hfollow h hmet hslash)
      room p node met names h hmet hslash
  rw [hread] at hsound
  exact hsound.1

/-! ## Canonical forms -/

/-- The absolute path of a path that stands is the place to which it leads. -/
theorem Disk.Stands.absolute (h : s.Stands p node) (hs : s.Grounded) :
    p.absolute s.cwd = ⟨.slash, p.place s.cwd⟩ := by
  obtain ⟨root, parts⟩ := p
  cases root with
  | slash => rfl
  | doubleSlash => exact absurd rfl h.single
  | none =>
      have hcwd : along [] s.cwd = s.cwd :=
        along_of_names (fun hmem => (hs.named _ hmem).2.2 rfl) []
      have hplace : along [] (s.cwd ++ parts) = along s.cwd parts := by rw [along_append, hcwd]
      exact congrArg (Path.mk .slash) hplace

theorem Disk.Stands.isName (h : s.Stands p node) (hs : s.Grounded) :
    ∀ name ∈ p.place s.cwd, IsName name := fun name hmem => by
  rcases mem_along hmem with hmem | ⟨hmem, hup⟩
  · unfold Path.start at hmem
    split at hmem
    · exact hs.named name hmem
    · exact absurd hmem List.not_mem_nil
  · exact ⟨(h.plain name hmem).1, (h.plain name hmem).2, hup⟩

theorem Disk.Stands.leg_place (h : s.Stands p node) (hs : s.Grounded) :
    s.tree.leg true [] (p.place s.cwd) = .arrives (p.place s.cwd) node := by
  have hstart : s.tree.leg true [] (p.start s.cwd) = .arrives (p.start s.cwd) .directory ∧
      ∀ n ∈ p.start s.cwd, DirectiveFences.Files.isPart n = true ∧ n ≠ ".." := by
    unfold Path.start
    split
    · exact ⟨hs.stands, fun n hn => ⟨(hs.named n hn).1, (hs.named n hn).2.2⟩⟩
    · exact ⟨rfl, fun n hn => absurd hn List.not_mem_nil⟩
  exact Tree.leg_place hstart.1 hstart.2 h.leg

/-- The path from which the names of a path are read. -/
def Path.origin (p : Path) : Path :=
  if p.root = .none then ⟨.none, []⟩ else ⟨.slash, []⟩

theorem Path.origin_stands (p : Path) : s.Stands p.origin .directory := by
  unfold Path.origin
  split <;> exact Disk.Stands.nil (by decide)

theorem Path.place_origin (p : Path) (cwd : Place) : p.origin.place cwd = p.start cwd := by
  unfold Path.origin Path.start
  split <;> rfl

theorem canonical_eq_ok {path found : Path} :
    canonical s fault true path = .ok found ↔
      ∃ q met, readWithin s fault true s.linkRoom path.origin [] path.parts = .done q met ∧
        found = q.absolute s.cwd := by
  unfold canonical
  simp only [← Path.origin.eq_def, if_true]
  cases hread : readWithin s fault true s.linkRoom path.origin [] path.parts with
  | done q met =>
      refine ⟨fun h => ⟨q, met, rfl, (Except.ok.inj h).symm⟩, ?_⟩
      rintro ⟨_, _, heq, rfl⟩
      cases heq
      rfl
  | stuck q => exact absurd hread (readWithin_ne_stuck _ _ _ _ _)
  | fails e =>
      refine ⟨fun h => ?_, nofun⟩
      split at h
      · cases h
      · cases h
      · rename_i heq
        cases heq
      · rename_i heq
        cases heq

/-- A strict canonical form that is found in spite of a fault is found without it. -/
theorem canonical_none {path found : Path} (h : canonical s fault true path = .ok found) :
    canonical s none true path = .ok found := by
  obtain ⟨q, met, hread, rfl⟩ := canonical_eq_ok.mp h
  exact canonical_eq_ok.mpr ⟨q, met, readWithin_none hread, rfl⟩

/-- The canonical form of a path is absolute, and its own names lead from the root to something
without a link. -/
theorem canonical_spec {path found : Path} (hs : s.Grounded) (hpath : path.Plain)
    (h : canonical s fault true path = .ok found) :
    found.root = .slash ∧ (∀ name ∈ found.parts, IsName name) ∧
      ∃ node, s.tree.leg true [] found.parts = .arrives found.parts node := by
  obtain ⟨q, met, hread, rfl⟩ := canonical_eq_ok.mp h
  have hnone : s.Knows [] := fun _ _ hmem => absurd hmem List.not_mem_nil
  obtain ⟨node, hq⟩ :=
    readWithin_stands (Path.origin_stands path) hnone (fun n hn => (hpath n hn).2) hread
  rw [hq.absolute hs]
  exact ⟨rfl, hq.isName hs, node, hq.leg_place hs⟩

/-! ## Readings and walks -/

/-- Names from a directory on lead to no link, and to no file before a `..`.  Only names that can
stand in a call count, since the others are not looked up. -/
structure Disk.Clear (s : Disk) (dir : Place) (names : List String) : Prop where
  links : ∀ before after place target, names = before ++ after →
    (∀ n ∈ before, '\x00' ∉ n.toList) → s.tree.leg false dir before ≠ .arrives place (.link target)
  files : ∀ before after place f, names = before ++ ".." :: after →
    (∀ n ∈ before, '\x00' ∉ n.toList) → s.tree.leg false dir before ≠ .arrives place (.file f)

theorem Disk.Clear.tail {dir dir' : Place} {name : String} {names : List String}
    (h : s.Clear dir (name :: names)) (hnull : '\x00' ∉ name.toList)
    (hstep : ∀ before, s.tree.leg false dir (name :: before) = s.tree.leg false dir' before) :
    s.Clear dir' names := by
  refine ⟨?_, ?_⟩
  · rintro before after place target rfl hnulls
    rw [← hstep]
    exact h.links (name :: before) after place target rfl (List.forall_mem_cons.mpr ⟨hnull, hnulls⟩)
  · rintro before after place f rfl hnulls
    rw [← hstep]
    exact h.files (name :: before) after place f rfl (List.forall_mem_cons.mpr ⟨hnull, hnulls⟩)

/-- No call is said to fail for too many links. -/
def Fault.NoLoop (fault : Option Fault) : Prop :=
  ∀ call, failure? fault call ≠ some .tooManyLinks

/-- A reading fails at a call, and not since there are too many links, unless that is said. -/
def Reading.StopsShort (fault : Option Fault) (r : Reading) : Prop :=
  ∃ e, r = .fails (.call e) ∧ (Fault.NoLoop fault → ∀ about, e ≠ .system ⟨.tooManyLinks, about⟩)

/-- A strict reading that fails at a name under something that stands has met no link there. -/
theorem readNames_stopsShort {name : String} {e : CallError} (h : s.Stands p node)
    (hname : IsName name) (hlink : linkTarget? s fault true (p.child name).text = .error e) :
    (readNames s fault true follow p met (name :: names)).StopsShort fault := by
  refine ⟨e, readNames_fails hname hlink, fun hfault about heq => ?_⟩
  have hlook := lstat_of_linkTarget? hlink
  unfold Disk.lstat at hlook
  split at hlook
  · rename_i errno hsaid
    rw [heq] at hlook
    cases hlook
    exact hfault _ hsaid
  · exact h.lstat_child_ne_loop hname about (heq ▸ hlook)

theorem readNames_under_file {f : File} {name : String} (h : s.Stands p (.file f)) (hname : IsName name) :
    (readNames s fault true follow p met (name :: names)).StopsShort fault := by
  cases hlink : linkTarget? s fault true (p.child name).text with
  | error e => exact readNames_stopsShort h hname hlink
  | ok found =>
      obtain ⟨place, node, hlook, -⟩ := linkTarget?_eq_ok hlink
      obtain ⟨-, heq, -⟩ := (h.lstat_child_iff hname).mp hlook
      cases heq

theorem readNames_clear_name {name : String} 
    (h : s.Stands p .directory) (hname : IsName name)
    (hclear : s.Clear (p.place s.cwd) (name :: names)) :
    (readNames s fault true follow p met (name :: names)).StopsShort fault ∨
      ∃ node, '\x00' ∉ name.toList ∧ name.utf8ByteSize ≤ longestName ∧
        s.tree.get? (p.place s.cwd ++ [name]) = some node ∧ (∀ target, node ≠ .link target) ∧
        readNames s fault true follow p met (name :: names) =
          readNames s fault true follow (p.child name) met names := by
  cases hlink : linkTarget? s fault true (p.child name).text with
  | error e => exact Or.inl (readNames_stopsShort h hname hlink)
  | ok found =>
      obtain ⟨place, node, hlook, rfl⟩ := linkTarget?_eq_ok hlink
      obtain ⟨hfits, -, hlong, rfl, hat⟩ := (h.lstat_child_iff hname).mp hlook
      have hnull : '\x00' ∉ name.toList := hfits.null_not_mem
        (List.mem_append_right _ (List.mem_singleton_self name))
      have hno : ∀ target, node ≠ .link target := fun target heq =>
        hclear.links [name] names _ target rfl (List.forall_mem_singleton.mpr hnull)
          (heq ▸ Tree.leg_single_of_get? hname.1 hname.2.2 hlong hat)
      have hnone : node.target? = none := by
        cases node with
        | link target => exact absurd rfl (hno target)
        | directory => rfl
        | file f => rfl
      exact Or.inr ⟨node, hnull, hlong, hat, hno, readNames_child hname (hnone ▸ hlink)⟩

/-- Where names are clear, a strict reading takes them only if a walk along them comes to the same
place. -/
theorem readNames_agrees (fault : Option Fault) (follow : Path → Met → List String → Reading)
    (met : Met) {cur : Path}
    (h : s.Stands cur .directory) (hnames : ∀ n ∈ names, isPart n = true ∧ '/' ∉ n.toList)
    (hclear : s.Clear (cur.place s.cwd) names) :
    (readNames s fault true follow cur met names).StopsShort fault ∨
      ∃ q node, readNames s fault true follow cur met names = .done q met ∧ s.Stands q node ∧
        s.tree.leg true (cur.place s.cwd) names = .arrives (q.place s.cwd) node ∧
        ∀ n ∈ names, '\x00' ∉ n.toList := by
  induction names generalizing cur with
  | nil => exact Or.inr ⟨cur, .directory, rfl, h, rfl, nofun⟩
  | cons name names ih =>
      have htail := fun n hn => hnames n (List.mem_cons_of_mem name hn)
      obtain ⟨hpart, hslash⟩ := hnames name List.mem_cons_self
      by_cases hup : name = ".."
      · subst hup
        have hnull : '\x00' ∉ ("..").toList := by decide
        have hrest := hclear.tail hnull fun _ => Tree.leg_up _
        rw [← h.place_up] at hrest
        rw [readNames_up, Tree.leg_up, ← h.place_up]
        rcases ih h.up htail hrest with hfails | ⟨q, node, hread, hq, hleg, hnulls⟩
        · exact Or.inl hfails
        · exact Or.inr ⟨q, node, hread, hq, hleg, List.forall_mem_cons.mpr ⟨hnull, hnulls⟩⟩
      · have hname : IsName name := ⟨hpart, hslash, hup⟩
        rcases readNames_clear_name h hname hclear with
          hfails | ⟨node, hnull, hlong, hat, hno, hstep⟩
        · exact Or.inl hfails
        have hnext := h.child hname hlong hat hno
        have hplace : (cur.child name).place s.cwd = cur.place s.cwd ++ [name] :=
          Disk.Stands.place_child hname
        rw [hstep, Tree.leg_name hpart hup hlong, hat]
        cases node with
        | link target => exact absurd rfl (hno target)
        | directory =>
            have hrest : s.Clear ((cur.child name).place s.cwd) names :=
              hclear.tail hnull fun before => by rw [Tree.leg_name hpart hup hlong, hat, hplace]
            simp only
            rw [← hplace]
            rcases ih hnext htail hrest with hfails | ⟨q, node, hread, hq, hleg, hnulls⟩
            · exact Or.inl hfails
            · exact Or.inr ⟨q, node, hread, hq, hleg, List.forall_mem_cons.mpr ⟨hnull, hnulls⟩⟩
        | file f =>
            have hnulls : ∀ n ∈ [name], '\x00' ∉ n.toList := List.forall_mem_singleton.mpr hnull
            cases names with
            | nil =>
                refine Or.inr ⟨cur.child name, .file f, rfl, hnext, ?_, hnulls⟩
                rw [hplace]
                rfl
            | cons next names =>
                obtain ⟨hpart', hslash'⟩ := htail next List.mem_cons_self
                have hup' : next ≠ ".." := fun heq =>
                  hclear.files [name] names _ f (heq ▸ rfl) hnulls
                    (Tree.leg_single_of_get? hpart hup hlong hat)
                exact Or.inl (readNames_under_file hnext ⟨hpart', hslash', hup'⟩)

/-! ## Room for names -/

/-- From a path on there is room for names: no text on the way is too long or has a NUL. -/
structure Path.Room (p : Path) (names : List String) : Prop where
  size : p.root.text.utf8ByteSize + extent p.parts + extent names ≤ pathLimit
  nulls : ∀ n ∈ p.parts ++ names, '\x00' ∉ n.toList

namespace Path.Room

variable {name : String} {names : List String}

/-- One step up makes a path no longer than the two points do. -/
theorem up (h : p.Room (".." :: names)) : p.up.Room names := by
  have hroot : p.up.root = p.root := by
    unfold Path.up
    split <;> rfl
  have hparts : p.up.parts = p.parts.dropLast ∨ p.up.parts = p.parts ++ [".."] := by
    unfold Path.up
    split
    · exact Or.inr rfl
    · exact Or.inr rfl
    · exact Or.inl rfl
  have hsize : p.root.text.utf8ByteSize + extent p.parts + (3 + extent names) ≤ pathLimit := h.size
  refine ⟨?_, fun n hn => ?_⟩
  · rw [hroot]
    rcases hparts with heq | heq <;> rw [heq]
    · obtain ⟨last, hlast⟩ := List.dropLast_prefix p.parts
      have hextent := congrArg extent hlast
      rw [extent_append] at hextent
      omega
    · have hdots : extent [".."] = 3 := rfl
      rw [extent_append, hdots]
      omega
  · rcases List.mem_append.mp hn with hn | hn
    · rcases hparts with heq | heq <;> rw [heq] at hn
      · exact h.nulls n (List.mem_append_left _ ((List.dropLast_sublist _).subset hn))
      · rcases List.mem_append.mp hn with hn | hn
        · exact h.nulls n (List.mem_append_left _ hn)
        · rw [List.mem_singleton.mp hn]
          decide
    · exact h.nulls n (List.mem_append_right _ (List.mem_cons_of_mem _ hn))

theorem child (h : p.Room (name :: names)) : (p.child name).Room names := by
  refine ⟨?_, fun n hn => ?_⟩
  · have hsize := h.size
    have hextent : extent (name :: names) = extent [name] + extent names := extent_append [name] _
    show p.root.text.utf8ByteSize + extent (p.parts ++ [name]) + extent names ≤ pathLimit
    rw [extent_append]
    omega
  · rw [Path.child, List.append_assoc] at hn
    exact h.nulls n hn

theorem fits (h : p.Room (name :: names)) : (p.child name).Fits := by
  refine fits_of_extent (List.append_ne_nil_of_right_ne_nil _ (List.cons_ne_nil _ _))
    (fun n hn => h.child.nulls n (List.mem_append_left _ hn)) ?_
  have hsize := h.child.size
  omega

end Path.Room

/-- What a walk comes to without meeting a link, a strict reading takes as well, if there is room
for the names. -/
theorem readNames_of_leg (follow : Path → Met → List String → Reading) (met : Met) {cur : Path}
    {place : Place}
    (h : s.Stands cur .directory) (hnames : ∀ n ∈ names, isPart n = true ∧ '/' ∉ n.toList)
    (hroom : cur.Room names)
    (hleg : s.tree.leg true (cur.place s.cwd) names = .arrives place node) :
    ∃ q, readNames s none true follow cur met names = .done q met ∧ q.place s.cwd = place ∧
      s.Stands q node := by
  induction names generalizing cur with
  | nil =>
      cases hleg
      exact ⟨cur, rfl, rfl, h⟩
  | cons name names ih =>
      have htail := fun n hn => hnames n (List.mem_cons_of_mem name hn)
      obtain ⟨hpart, hslash⟩ := hnames name List.mem_cons_self
      rcases Tree.leg_arrives_cases hpart hleg with ⟨rfl, hleg⟩ | ⟨hup, hlong, hnext⟩
      · rw [readNames_up]
        exact ih h.up htail hroom.up (h.place_up ▸ hleg)
      · have hname : IsName name := ⟨hpart, hslash, hup⟩
        have hplace : (cur.child name).place s.cwd = cur.place s.cwd ++ [name] :=
          Disk.Stands.place_child hname
        -- whatever stands under the name is looked at and found to be no link
        have hread : ∀ found, s.tree.get? (cur.place s.cwd ++ [name]) = some found →
            (∀ target, found ≠ .link target) →
            readNames s none true follow cur met (name :: names) =
              readNames s none true follow (cur.child name) met names :=
          fun found hat hno => readNames_child hname (linkTarget?_of_lstat
            ((h.lstat_child_iff hname).mpr ⟨hroom.fits, rfl, hlong, rfl, hat⟩) hno)
        rcases hnext with ⟨hat, hleg⟩ | ⟨f, hat, rfl, rfl, rfl⟩
        · rw [hread .directory hat nofun]
          exact ih (h.child hname hlong hat nofun) htail hroom.child (hplace ▸ hleg)
        · rw [hread (.file f) hat nofun]
          exact ⟨cur.child name, rfl, hplace, h.child hname hlong hat nofun⟩

end DirectiveFences.Files
