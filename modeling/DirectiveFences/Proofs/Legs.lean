/-
What a walk meets.

Along its names a leg passes over those that say nothing, goes up, enters directories, and is
ended by the first name that leads to no directory.  This is said here once, as a relation beside
the function (`Tree.LegTo`), and so is what a walk makes of its legs (`Tree.WalkTo`): a fact about
walks is then an induction with one case for each thing that a walk can meet, and a case that the
fact excludes is excluded by its result.  A call about a path asks for a walk, after three tests of
the text (`Callable`).

Whether a name is the last one matters for all that is no directory: at the last name nothing is a
free place, a file is an end, and a link need not be followed, while before other names the first two
are failures.  So each of these has two rules.
-/
import DirectiveFences.Files.Walk

namespace DirectiveFences.Files

namespace Tree

variable {t : Tree} {follow : Bool} {dir place : Place} {node : Node} {name : String}
  {names : List String}

/-! ## Legs -/

/-- What a directory has under a name that is looked up in it. -/
structure Finds (t : Tree) (dir : Place) (name : String) (found : Option Node) : Prop where
  part : isPart name = true
  ne_up : name ≠ ".."
  short : name.utf8ByteSize ≤ longestName
  get? : t.get? (dir ++ [name]) = found

/-- How a leg gets to its end. -/
inductive LegTo (t : Tree) (follow : Bool) : Place → List String → Leg → Prop
  | nil {dir : Place} : LegTo t follow dir [] (.arrives dir .directory)
  | skip {dir : Place} {name : String} {names : List String} {leg : Leg}
      (hpart : isPart name = false) (rest : LegTo t follow dir names leg) :
      LegTo t follow dir (name :: names) leg
  | up {dir : Place} {names : List String} {leg : Leg}
      (rest : LegTo t follow dir.dropLast names leg) : LegTo t follow dir (".." :: names) leg
  | enter {dir : Place} {name : String} {names : List String} {leg : Leg}
      (hfinds : t.Finds dir name (some .directory)) (rest : LegTo t follow (dir ++ [name]) names leg) :
      LegTo t follow dir (name :: names) leg
  | long {dir : Place} {name : String} {names : List String} (hpart : isPart name = true)
      (hup : name ≠ "..") (hlong : longestName < name.utf8ByteSize) :
      LegTo t follow dir (name :: names) (.fails .nameTooLong)
  | misses {dir : Place} {name : String} (hfinds : t.Finds dir name none) :
      LegTo t follow dir [name] (.misses (dir ++ [name]))
  | absent {dir : Place} {name : String} {names : List String} (hfinds : t.Finds dir name none)
      (hrest : names ≠ []) : LegTo t follow dir (name :: names) (.fails .notFound)
  | file {dir : Place} {name : String} {f : File} (hfinds : t.Finds dir name (some (.file f))) :
      LegTo t follow dir [name] (.arrives (dir ++ [name]) (.file f))
  | behindFile {dir : Place} {name : String} {names : List String} {f : File}
      (hfinds : t.Finds dir name (some (.file f))) (hrest : names ≠ []) :
      LegTo t follow dir (name :: names) (.fails .notDirectory)
  | link {dir : Place} {name : String} {target : String}
      (hfinds : t.Finds dir name (some (.link target))) (hfollow : follow = false) :
      LegTo t follow dir [name] (.arrives (dir ++ [name]) (.link target))
  | follows {dir : Place} {name : String} {names : List String} {target : String}
      (hfinds : t.Finds dir name (some (.link target))) (hfollow : names = [] → follow = true) :
      LegTo t follow dir (name :: names) (.follows dir target names)

theorem leg_skip (hpart : isPart name = false) (names : List String) :
    t.leg follow dir (name :: names) = t.leg follow dir names := by
  rw [Tree.leg, hpart]
  rfl

theorem leg_up (names : List String) : t.leg follow dir (".." :: names) =
    t.leg follow dir.dropLast names := by
  rw [Tree.leg]
  rfl

theorem leg_long (hpart : isPart name = true) (hup : name ≠ "..")
    (hlong : longestName < name.utf8ByteSize) (names : List String) :
    t.leg follow dir (name :: names) = .fails .nameTooLong := by
  rw [Tree.leg, hpart, if_neg (by decide), if_neg hup, if_pos hlong]

theorem leg_name (hpart : isPart name = true) (hup : name ≠ "..")
    (hlong : name.utf8ByteSize ≤ longestName) :
    t.leg follow dir (name :: names) =
      match t.get? (dir ++ [name]) with
      | none => if names.isEmpty then .misses (dir ++ [name]) else .fails .notFound
      | some .directory => t.leg follow (dir ++ [name]) names
      | some (.file f) =>
        if names.isEmpty then .arrives (dir ++ [name]) (.file f) else .fails .notDirectory
      | some (.link target) =>
        if names.isEmpty && !follow then .arrives (dir ++ [name]) (.link target)
        else .follows dir target names := by
  have hshort := Nat.not_lt.mpr hlong
  rcases hat : t.get? (dir ++ [name]) with _ | _ | _ | _ <;>
    simp only [Tree.leg, hpart, hup, hshort, hat, Bool.not_true, Bool.false_eq_true, if_false]

theorem leg_enter (h : t.Finds dir name (some .directory)) (names : List String) :
    t.leg follow dir (name :: names) = t.leg follow (dir ++ [name]) names := by
  rw [leg_name h.part h.ne_up h.short, h.get?]

theorem legTo (t : Tree) (follow : Bool) (dir : Place) (names : List String) :
    t.LegTo follow dir names (t.leg follow dir names) := by
  induction names generalizing dir with
  | nil => exact .nil
  | cons name names ih =>
      cases hpart : isPart name with
      | false =>
          rw [leg_skip hpart]
          exact .skip hpart (ih dir)
      | true =>
          by_cases hup : name = ".."
          · rw [hup, leg_up]
            exact .up (ih dir.dropLast)
          by_cases hlong : longestName < name.utf8ByteSize
          · rw [leg_long hpart hup hlong]
            exact .long hpart hup hlong
          have hfinds : t.Finds dir name (t.get? (dir ++ [name])) :=
            ⟨hpart, hup, Nat.not_lt.mp hlong, rfl⟩
          rw [leg_name hpart hup hfinds.short]
          cases hat : t.get? (dir ++ [name]) with
          | none =>
              rw [hat] at hfinds
              cases names with
              | nil => exact .misses hfinds
              | cons next names => exact .absent hfinds (List.cons_ne_nil next names)
          | some node =>
              rw [hat] at hfinds
              cases node with
              | directory => exact .enter hfinds (ih (dir ++ [name]))
              | file f =>
                  cases names with
                  | nil => exact .file hfinds
                  | cons next names => exact .behindFile hfinds (List.cons_ne_nil next names)
              | link target =>
                  cases names with
                  | nil =>
                      cases follow with
                      | false => exact .link hfinds rfl
                      | true => exact .follows hfinds fun _ => rfl
                  | cons next names => exact .follows hfinds nofun

theorem LegTo.leg_eq {leg : Leg} (h : t.LegTo follow dir names leg) :
    t.leg follow dir names = leg := by
  induction h with
  | nil => rfl
  | skip hpart _ ih => rw [leg_skip hpart, ih]
  | up _ ih => rw [leg_up, ih]
  | enter hfinds _ ih => rw [leg_enter hfinds, ih]
  | long hpart hup hlong => exact leg_long hpart hup hlong _
  | misses hfinds | file hfinds =>
      rw [leg_name hfinds.part hfinds.ne_up hfinds.short, hfinds.get?]
      rfl
  | absent hfinds hrest | behindFile hfinds hrest =>
      rw [leg_name hfinds.part hfinds.ne_up hfinds.short, hfinds.get?]
      exact if_neg fun hnil => hrest (List.isEmpty_iff.mp hnil)
  | link hfinds hfollow =>
      rw [leg_name hfinds.part hfinds.ne_up hfinds.short, hfinds.get?, hfollow]
      rfl
  | @follows dir name names target hfinds hfollow =>
      rw [leg_name hfinds.part hfinds.ne_up hfinds.short, hfinds.get?]
      cases names with
      | nil =>
          rw [hfollow rfl]
          rfl
      | cons next names => rfl

theorem leg_eq_iff {leg : Leg} : t.leg follow dir names = leg ↔ t.LegTo follow dir names leg :=
  ⟨fun h => h ▸ t.legTo follow dir names, LegTo.leg_eq⟩

/-! ## Walks -/

/-- What a walk makes of its legs, when it may follow so many links. -/
inductive WalkTo (t : Tree) (follow : Bool) : Nat → Place → List String → Except Errno Spot → Prop
  | arrives {links : Nat} {dir place : Place} {names : List String} {node : Node}
      (hleg : t.leg follow dir names = .arrives place node) :
      WalkTo t follow links dir names (.ok (.taken place node))
  | misses {links : Nat} {dir place : Place} {names : List String}
      (hleg : t.leg follow dir names = .misses place) :
      WalkTo t follow links dir names (.ok (.free place))
  | fails {links : Nat} {dir : Place} {names : List String} {e : Errno}
      (hleg : t.leg follow dir names = .fails e) : WalkTo t follow links dir names (.error e)
  | exhausted {dir dir' : Place} {names rest : List String} {target : String}
      (hleg : t.leg follow dir names = .follows dir' target rest) :
      WalkTo t follow 0 dir names (.error .tooManyLinks)
  | follows {links : Nat} {dir dir' : Place} {names rest : List String} {target : String}
      {result : Except Errno Spot} (hleg : t.leg follow dir names = .follows dir' target rest)
      (next : WalkTo t follow links (startOf dir' target) (namesOf target ++ rest) result) :
      WalkTo t follow (links + 1) dir names result

theorem walkTo (t : Tree) (follow : Bool) (links : Nat) (dir : Place) (names : List String) :
    t.WalkTo follow links dir names (t.walk follow links dir names) := by
  induction links generalizing dir names with
  | zero =>
      rw [Tree.walk]
      cases hleg : t.leg follow dir names with
      | arrives place node => exact .arrives hleg
      | misses place => exact .misses hleg
      | fails e => exact .fails hleg
      | follows dir' target rest => exact .exhausted hleg
  | succ links ih =>
      rw [Tree.walk]
      cases hleg : t.leg follow dir names with
      | arrives place node => exact .arrives hleg
      | misses place => exact .misses hleg
      | fails e => exact .fails hleg
      | follows dir' target rest => exact .follows hleg (ih _ _)

theorem WalkTo.walk_eq {links : Nat} {result : Except Errno Spot}
    (h : t.WalkTo follow links dir names result) : t.walk follow links dir names = result := by
  induction h with
  | arrives hleg | misses hleg | fails hleg =>
      rw [Tree.walk.eq_def]
      simp only [hleg]
  | exhausted hleg => rw [Tree.walk, hleg]
  | follows hleg _ ih => rw [Tree.walk, hleg, ← ih]

theorem walk_eq_iff {links : Nat} {result : Except Errno Spot} :
    t.walk follow links dir names = result ↔ t.WalkTo follow links dir names result :=
  ⟨fun h => h ▸ t.walkTo follow links dir names, WalkTo.walk_eq⟩

end Tree

/-! ## Calls -/

/-- A text that can be looked up: it is not empty, not too long, and has no NUL. -/
structure Callable (path : String) : Prop where
  no_null : '\x00' ∉ path.toList
  ne_empty : path ≠ ""
  short : path.utf8ByteSize < pathLimit

namespace Tree

variable {path : String}

theorem find_of_callable (h : Callable path) (t : Tree) (follow : Bool) (cwd : Place) :
    t.find follow cwd path =
      (t.walk follow linkLimit (startOf cwd path) (namesOf path)).mapError
        fun e => .system ⟨e, some path⟩ := by
  rw [Tree.find, if_neg h.no_null, if_neg h.ne_empty, if_neg (Nat.not_le.mpr h.short)]
  cases t.walk follow linkLimit (startOf cwd path) (namesOf path) <;> rfl

/-- A text that cannot be looked up is refused whatever the tree is. -/
theorem find_of_not_callable (h : ¬ Callable path) : ∃ e, (e = .embeddedNull ∧ '\x00' ∈ path.toList ∨
      e = .system ⟨.notFound, some path⟩ ∨ e = .system ⟨.nameTooLong, some path⟩) ∧
    ∀ (t : Tree) (follow : Bool) (cwd : Place), t.find follow cwd path = .error e := by
  by_cases hnull : '\x00' ∈ path.toList
  · exact ⟨.embeddedNull, Or.inl ⟨rfl, hnull⟩, fun t follow cwd => by rw [Tree.find, if_pos hnull]⟩
  by_cases hempty : path = ""
  · refine ⟨.system ⟨.notFound, some path⟩, Or.inr (Or.inl rfl), fun t follow cwd => ?_⟩
    rw [Tree.find, if_neg hnull, if_pos hempty]
  have hlong : path.utf8ByteSize ≥ pathLimit := Nat.not_lt.mp fun hshort =>
    h ⟨hnull, hempty, hshort⟩
  refine ⟨.system ⟨.nameTooLong, some path⟩, Or.inr (Or.inr rfl), fun t follow cwd => ?_⟩
  rw [Tree.find, if_neg hnull, if_neg hempty, if_pos hlong]

theorem find_eq_ok_iff {t : Tree} {follow : Bool} {cwd : Place} {spot : Spot} :
    t.find follow cwd path = .ok spot ↔
      Callable path ∧ t.walk follow linkLimit (startOf cwd path) (namesOf path) = .ok spot := by
  by_cases h : Callable path
  · rw [find_of_callable h]
    cases t.walk follow linkLimit (startOf cwd path) (namesOf path) with
    | ok found =>
        refine ⟨fun heq => ?_, fun ⟨_, heq⟩ => ?_⟩
        · cases heq
          exact ⟨h, rfl⟩
        · cases heq
          rfl
    | error e => exact ⟨nofun, fun hboth => nomatch hboth.2⟩
  · obtain ⟨e, -, hfind⟩ := find_of_not_callable h
    simp only [hfind, h, reduceCtorEq, false_and]

end Tree

end DirectiveFences.Files
