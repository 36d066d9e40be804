/-
How paths are refused.

A path that cannot be a document is refused with a reason, and the command tells the reason as a
mistake in its use.  That is not so of all paths.  Some have a failure that is none of the checks'
own (`Escapes`): no home directory is known for the tilde in front; the path, or the location to
which it leads, is too long to be looked at; the look at the location is denied; links lead in a
circle; or there are more links inside each other than can be followed.  On such a path the
command breaks off.

The links hide best.  A path on which no link was found should lead along none either, and a
reading of clear names never meets one (`readNames_agrees`).  But names are not clear where a
file stands before a `..`: nothing is found there, no link either, and the canonical form goes
on beside the file (`canonical_links`).
-/
import DirectiveFences.Proofs.CommandEffects

namespace DirectiveFences

namespace Files

/-! ## How the checks fail -/

variable {s : Disk} {fault : Option Fault} {homes : Homes} {raw : String} {path : Path}
  {e : PathError}

/-- No home directory is known for the tilde in front of a path: there is no such account, or what
is given for it begins with a tilde itself. -/
def Homes.Lacks (homes : Homes) (path : Path) : Prop :=
  path.root = .none ∧ ∃ first rest, path.parts = first :: rest ∧ first.toList.head? = some '~' ∧
    (homes.directory? first.toList = .ok none ∨
      ∃ dir, homes.directory? first.toList = .ok (some dir) ∧
        (trimSlashes dir).toList.head? = some '~')

theorem expand_error_cases (h : homes.expand path = .error e) :
    e = .noHome ∧ homes.Lacks path ∨ e = .embeddedNull := by
  unfold Homes.expand at h
  split at h
  · rename_i first rest hroot hparts
    split at h
    · rename_i htilde
      split at h
      · rename_i e' hdirectory
        cases h
        unfold Homes.directory? at hdirectory
        simp only at hdirectory
        split at hdirectory
        · cases hdirectory
        · split at hdirectory <;> cases hdirectory
          exact Or.inr rfl
      · rename_i hdirectory
        cases h
        exact Or.inl ⟨rfl, hroot, first, rest, hparts, htilde, Or.inl hdirectory⟩
      · rename_i dir hdirectory
        simp only at h
        split at h
        · rename_i hdir
          cases h
          exact Or.inl ⟨rfl, hroot, first, rest, hparts, htilde, Or.inr ⟨dir, hdirectory, hdir⟩⟩
        · cases h
    · cases h
  · cases h

theorem Homes.Lacks.expand (h : homes.Lacks path) : homes.expand path = .error .noHome := by
  obtain ⟨root, parts⟩ := path
  obtain ⟨rfl, first, rest, rfl, htilde, hnone | ⟨dir, hsome, hdir⟩⟩ := h
  · simp only [Homes.expand, htilde, if_true, hnone]
  · simp only [Homes.expand, htilde, if_true, hsome, hdir]

theorem answer_eq_error_iff {result : Except CallError (Place × Node)} {holds : Node → Bool} :
    answer result holds = .error e ↔
      ∃ e', result = .error (.system e') ∧ e'.errno.saysAbsent = false ∧ e = .inaccessible e' := by
  unfold answer
  split
  · exact ⟨nofun, nofun⟩
  · exact ⟨nofun, nofun⟩
  · rename_i e'
    cases habsent : e'.errno.saysAbsent with
    | true =>
        refine ⟨nofun, ?_⟩
        rintro ⟨_, heq, hthere, -⟩
        cases heq
        cases habsent.symm.trans hthere
    | false =>
        refine ⟨fun h => ?_, ?_⟩
        · cases h
          exact ⟨e', rfl, habsent, rfl⟩
        · rintro ⟨_, heq, -, rfl⟩
          cases heq
          rfl

/-- The failure of a call for a path that is too long, or has too long a name in it. -/
def tooLong (path : Path) : SystemError :=
  ⟨.nameTooLong, some path.text⟩

theorem answer_look_eq_error_iff {follow : Bool} {holds : Node → Bool} :
    answer (s.tree.look follow s.cwd path.text) holds = .error e ↔
      s.tree.look follow s.cwd path.text = .error (.system (tooLong path)) ∧
        e = .inaccessible (tooLong path) := by
  rw [answer_eq_error_iff]
  constructor
  · rintro ⟨e', hlook, hthere, rfl⟩
    cases Tree.look_error_of_there hlook hthere
    exact ⟨hlook, rfl⟩
  · rintro ⟨hlook, rfl⟩
    exact ⟨tooLong path, hlook, rfl, rfl⟩

theorem anyLink_append {before : List Path} (h : anyLink s before = .ok false) (ps : List Path) :
    anyLink s (before ++ ps) = anyLink s ps := by
  induction before with
  | nil => rfl
  | cons p before ih =>
      rw [anyLink_eq_false_iff, List.forall_mem_cons, ← anyLink_eq_false_iff] at h
      rw [List.cons_append, anyLink, h.1]
      exact ih h.2

theorem anyLink_eq_error_iff {ps : List Path} :
    anyLink s ps = .error e ↔
      ∃ before q after, ps = before ++ q :: after ∧ anyLink s before = .ok false ∧
        s.lstat none q.text = .error (.system (tooLong q)) ∧ e = .inaccessible (tooLong q) := by
  constructor
  · intro h
    induction ps with
    | nil => cases h
    | cons p ps ih =>
        rw [anyLink] at h
        cases hanswer : answer (s.lstat none p.text) Node.isLink with
        | error e' =>
            rw [hanswer] at h
            cases h
            exact ⟨[], p, ps, rfl, rfl, answer_look_eq_error_iff.mp hanswer⟩
        | ok linked =>
            rw [hanswer] at h
            cases linked with
            | true => cases h
            | false =>
                obtain ⟨before, q, after, rfl, hbefore, hlook⟩ := ih h
                refine ⟨p :: before, q, after, rfl, ?_, hlook⟩
                rw [anyLink, hanswer]
                exact hbefore
  · rintro ⟨before, q, after, rfl, hbefore, hlook⟩
    rw [anyLink_append hbefore, anyLink, Disk.lstat_eq_look,
      answer_look_eq_error_iff.mpr hlook]

theorem answer_stat_eq_error_iff {holds : Node → Bool} :
    answer (s.stat path.text fault) holds = .error e ↔
      (s.stat path.text fault = .error (.system (tooLong path)) ∧
          e = .inaccessible (tooLong path)) ∨
        ∃ errno, failure? fault (.follow .locating path.text) = some errno ∧
          errno.saysAbsent = false ∧ e = .inaccessible ⟨errno, none⟩ := by
  cases hsaid : failure? fault (.follow .locating path.text) with
  | none =>
      simp only [Disk.stat, hsaid, answer_look_eq_error_iff, reduceCtorEq, false_and, exists_false,
        or_false]
  | some errno =>
      have hstat : s.stat path.text fault = .error (.system ⟨errno, none⟩) := by
        rw [Disk.stat, hsaid]
      have hlong : (⟨errno, none⟩ : SystemError) ≠ tooLong path := fun heq => by cases heq
      rw [hstat, answer_eq_error_iff]
      constructor
      · rintro ⟨_, heq, hthere, rfl⟩
        cases heq
        exact Or.inr ⟨errno, rfl, hthere, rfl⟩
      · rintro (⟨heq, -⟩ | ⟨_, heq, hthere, rfl⟩)
        · exact absurd (CallError.system.inj (Except.error.inj heq)) hlong
        · cases heq
          exact ⟨_, rfl, hthere, rfl⟩

/-! ## Links that were not found -/

/-- Links are met only beside a file, if the path has been searched for links and nothing else is
said of a call. -/
theorem canonical_links {e : CanonicalError} (hplain : path.Plain)
    (hlinks : anyLink s (path :: path.parents) = .ok false)
    (h : canonical s fault true path = .error e) :
    (∃ e', e = .call e') ∨ s.PassesFile path ∨ ¬ Fault.NoLoop fault ∧ e ≠ .tooDeep := by
  by_cases hpass : s.PassesFile path
  · exact Or.inr (Or.inl hpass)
  obtain ⟨follow, hfollow⟩ := readWithin_eq s fault true s.linkRoom
  unfold canonical at h
  simp only [← Path.origin.eq_def, if_true, hfollow] at h
  rcases readNames_agrees fault follow [] (Path.origin_stands path) hplain
      (clear_of_anyLink hplain hlinks hpass) with
    ⟨e', hfails, hother⟩ | ⟨q, node, hdone, -⟩
  · rw [hfails] at h
    split at h
    · rename_i about heq
      cases heq
      cases h
      exact Or.inr (Or.inr ⟨fun hfault => hother hfault _ rfl, fun heq => by cases heq⟩)
    · rename_i heq
      cases heq
      cases h
      exact Or.inl ⟨e', rfl⟩
    · rename_i heq
      cases heq
    · rename_i heq
      cases heq
  · rw [hdone] at h
    cases h

/-! ## Paths on which the checks fail -/

/-- A path has a failure that is none of the checks' own. -/
inductive Escapes (s : Disk) (fault : Option Fault) (homes : Homes) (raw : String) :
    PathError → Prop
  /-- No home directory is known for the tilde in front. -/
  | home (h : homes.Lacks (Path.parse raw)) : Escapes s fault homes raw .noHome
  /-- The path, or one above it, is too long to be looked at, and none asked before is a link. -/
  | written (path q : Path) (before after : List Path)
      (hpath : homes.expand (Path.parse raw) = .ok path)
      (hparents : path :: path.parents = before ++ q :: after)
      (hbefore : anyLink s before = .ok false)
      (hlong : s.lstat none q.text = .error (.system (tooLong q))) :
      Escapes s fault homes raw (.inaccessible (tooLong q))
  /-- The location to which the path leads is too long to be looked at. -/
  | found (path found : Path) (hpath : homes.expand (Path.parse raw) = .ok path)
      (hlinks : anyLink s (path :: path.parents) = .ok false)
      (hfound : canonical s fault true path = .ok found)
      (hlong : s.stat found.text fault = .error (.system (tooLong found))) :
      Escapes s fault homes raw (.inaccessible (tooLong found))
  /-- The look at the location to which the path leads is denied, and not as if nothing were
  there. -/
  | denied (path found : Path) (hpath : homes.expand (Path.parse raw) = .ok path)
      (hlinks : anyLink s (path :: path.parents) = .ok false)
      (hfound : canonical s fault true path = .ok found) (errno : Errno)
      (hdenied : failure? fault (.follow .locating found.text) = some errno)
      (hthere : errno.saysAbsent = false) : Escapes s fault homes raw (.inaccessible ⟨errno, none⟩)
  /-- Beside a file, which stands before a `..`, links lead in a circle or are too many, or else that
  is said of a call. -/
  | circle (path : Path) (link : Option String) (hpath : homes.expand (Path.parse raw) = .ok path)
      (hlinks : anyLink s (path :: path.parents) = .ok false)
      (hcause : s.PassesFile path ∨ ¬ Fault.NoLoop fault)
      (hloop : canonical s fault true path = .error (.loop link)) :
      Escapes s fault homes raw (.loop link)
  /-- Beside a file there are more links inside each other than can be followed. -/
  | deep (path : Path) (hpath : homes.expand (Path.parse raw) = .ok path)
      (hlinks : anyLink s (path :: path.parents) = .ok false) (hpass : s.PassesFile path)
      (hdeep : canonical s fault true path = .error .tooDeep) : Escapes s fault homes raw .tooDeep

end Files

namespace Command

open Files

variable {s : Disk} {fault : Option Fault} {homes : Homes} {raw : String} {base : Path}
  {e : PathError}

theorem existing_error_cases {path : Path} (h : existing s fault path = .error e) :
    (∃ link, e = .loop link ∧ canonical s fault true path = .error (.loop link)) ∨
      (e = .tooDeep ∧ canonical s fault true path = .error .tooDeep) ∨
      pathTelling e = .usage := by
  unfold existing at h
  split at h
  · cases h
  · rename_i link hloop
    cases h
    exact Or.inl ⟨link, rfl, hloop⟩
  · rename_i hdeep
    cases h
    exact Or.inr (Or.inl ⟨rfl, hdeep⟩)
  · cases h
    exact Or.inr (Or.inr rfl)
  · split at h <;> cases h <;> exact Or.inr (Or.inr rfl)

theorem escapes_or_usage (h : documentPath s fault homes raw base = .error e) :
    Escapes s fault homes raw e ∨ pathTelling e = .usage := by
  unfold documentPath at h
  rcases eq_error_of_bind h with hexpand | ⟨path, hpath, h⟩
  · rcases expand_error_cases hexpand with ⟨rfl, hlacks⟩ | rfl
    · exact Or.inl (.home hlacks)
    · exact Or.inr rfl
  rcases eq_error_of_bind h with hlinks | ⟨linked, hlinks, h⟩
  · obtain ⟨before, q, after, hparents, hbefore, hlong, rfl⟩ := anyLink_eq_error_iff.mp hlinks
    exact Or.inl (.written path q before after hpath hparents hbefore hlong)
  cases linked with
  | true =>
      cases h
      exact Or.inr rfl
  | false =>
      rcases eq_error_of_bind h with hexisting | ⟨found, hexisting, h⟩
      · have hplain := expand_plain (Path.parse_plain raw) hpath
        rcases existing_error_cases hexisting with ⟨link, rfl, hloop⟩ | ⟨rfl, hdeep⟩ | husage
        · have hcause := (canonical_links hplain hlinks hloop).resolve_left nofun
          exact Or.inl (.circle path link hpath hlinks (hcause.imp_right And.left) hloop)
        · obtain ⟨e', heq⟩ | hpass | ⟨-, hne⟩ := canonical_links hplain hlinks hdeep
          · cases heq
          · exact Or.inl (.deep path hpath hlinks hpass hdeep)
          · exact absurd rfl hne
        · exact Or.inr husage
      rcases eq_error_of_bind h with hanswer | ⟨isFile, -, h⟩
      · have hfound := existing_eq_ok_iff.mp hexisting
        obtain ⟨hlong, rfl⟩ | ⟨errno, hdenied, hthere, rfl⟩ := answer_stat_eq_error_iff.mp hanswer
        · exact Or.inl (.found path found hpath hlinks hfound hlong)
        · exact Or.inl (.denied path found hpath hlinks hfound errno hdenied hthere)
      · split at h
        · cases h
          exact Or.inr rfl
        · split at h
          · cases h
            exact Or.inr rfl
          · split at h <;> cases h
            exact Or.inr rfl

/-- A path that has a failure of another kind is refused with it. -/
theorem documentPath_of_escapes (h : Escapes s fault homes raw e) (base : Path) :
    documentPath s fault homes raw base = .error e ∧ pathTelling e = .abort := by
  cases h with
  | home hlacks =>
      refine ⟨?_, rfl⟩
      simp only [documentPath, bind, Except.bind, hlacks.expand]
  | written path q before after hpath hparents hbefore hlong =>
      have hlinks : anyLink s (path :: path.parents) = .error (.inaccessible (tooLong q)) :=
        anyLink_eq_error_iff.mpr ⟨before, q, after, hparents, hbefore, hlong, rfl⟩
      refine ⟨?_, rfl⟩
      simp only [documentPath, bind, Except.bind, hpath, hlinks]
  | found path found hpath hlinks hfound hlong =>
      have hexisting : existing s fault path = .ok found := existing_eq_ok_iff.mpr hfound
      have hanswer : answer (s.stat found.text fault) Node.isFile =
          .error (.inaccessible (tooLong found)) := answer_stat_eq_error_iff.mpr (Or.inl ⟨hlong, rfl⟩)
      refine ⟨?_, rfl⟩
      simp only [documentPath, bind, Except.bind, hpath, hlinks, hexisting, hanswer,
        Bool.false_eq_true, if_false]
  | denied path found hpath hlinks hfound errno hdenied hthere =>
      have hexisting : existing s fault path = .ok found := existing_eq_ok_iff.mpr hfound
      have hanswer : answer (s.stat found.text fault) Node.isFile =
          .error (.inaccessible ⟨errno, none⟩) :=
        answer_stat_eq_error_iff.mpr (Or.inr ⟨errno, hdenied, hthere, rfl⟩)
      refine ⟨?_, rfl⟩
      simp only [documentPath, bind, Except.bind, hpath, hlinks, hexisting, hanswer,
        Bool.false_eq_true, if_false]
  | deep path hpath hlinks hpass hdeep =>
      have hexisting : existing s fault path = .error .tooDeep := by rw [existing, hdeep]
      refine ⟨?_, rfl⟩
      simp only [documentPath, bind, Except.bind, hpath, hlinks, hexisting,
        Bool.false_eq_true, if_false]
  | circle path link hpath hlinks hcause hloop =>
      have hexisting : existing s fault path = .error (.loop link) := by rw [existing, hloop]
      refine ⟨?_, rfl⟩
      simp only [documentPath, bind, Except.bind, hpath, hlinks, hexisting,
        Bool.false_eq_true, if_false]

theorem escapes_iff : Escapes s fault homes raw e ↔
    documentPath s fault homes raw base = .error e ∧ pathTelling e = .abort := by
  refine ⟨fun h => documentPath_of_escapes h base, fun ⟨h, habort⟩ => ?_⟩
  rcases escapes_or_usage h with hescapes | husage
  · exact hescapes
  · cases habort.symm.trans husage

/-- Beside a file a link is come to that leads back to itself. -/
example :
    documentPath
        { tree := ⟨[(["a.md"], .file ⟨1, 0o644, 0, []⟩), (["loop.md"], .link "loop.md")]⟩ }
        none ⟨"/", []⟩ "a.md/../loop.md" ⟨.slash, []⟩ =
      .error (.loop (some "loop.md")) := by
  decide +kernel

/-! ## Runs on such paths -/

variable {env : Environment} {given : List Given} {words rest : List String} {argument : String}

/-- A run comes to the path of its one argument. -/
def ComesTo (s : Disk) (fault : Option Fault) (env : Environment) (words : List String)
    (argument : String) : Prop :=
  ∃ given level, read words = .ok (given, [argument]) ∧ early? given = none ∧
    argumentOf s fault given [argument] = .ok argument ∧ logLevel given env = .ok level

theorem Failure.aborted_outcome (f : Failure) (before : List Char) :
    (f.outcome before).aborted = if f.telling = .abort then some f else none := by
  unfold Failure.outcome
  cases f.telling <;> rfl

theorem aborted_of_early? {outcome : Outcome} (h : early? given = some outcome) :
    outcome.aborted = none := by
  obtain ⟨g, -, hg⟩ := List.exists_of_findSome?_eq_some h
  split at hg <;> cases hg <;> rfl

theorem aborted_carryOut (p : Plan) (s : Disk) (fault : Option Fault) (given : List Given) :
    (p.carryOut s fault given).1.aborted = none := by
  unfold Plan.carryOut
  simp only
  split
  · exact Failure.aborted_outcome _ _
  · split
    · unfold putBack
      simp only
      split
      · exact Failure.aborted_outcome _ _
      · rfl
    · rfl

theorem argumentOf_ne_path : argumentOf s fault given rest ≠ .error (.path e) := fun h => by
  unfold argumentOf checkArgument at h
  simp only [bind, Except.bind] at h
  split at h
  · cases h
  · split at h
    · cases h
    · split at h
      · rename_i hcheck
        cases h
        split at hcheck <;> cases hcheck
      · split at h <;> cases h

theorem logLevel_ne_path : logLevel given env ≠ .error (.path e) := fun h => by
  unfold logLevel at h
  split at h
  · cases h
  · split at h
    · cases h
    · simp only at h
      split at h <;> cases h

theorem plan_path_error (h : plan s fault env given rest = .error (.path e)) :
    ∃ argument level, argumentOf s fault given rest = .ok argument ∧ logLevel given env = .ok level ∧
      documentPath s fault env.homes argument ⟨.slash, s.cwd⟩ = .error e := by
  unfold plan at h
  rcases eq_error_of_bind h with hargument | ⟨argument, hargument, h⟩
  · exact absurd hargument argumentOf_ne_path
  rcases eq_error_of_bind h with hlevel | ⟨level, hlevel, h⟩
  · exact absurd hlevel logLevel_ne_path
  rcases eq_error_of_bind h with hpath | ⟨path, -, h⟩
  · obtain ⟨_, hpath, heq⟩ := eq_error_of_mapError hpath
    cases heq
    exact ⟨argument, level, hargument, hlevel, hpath⟩
  rcases eq_error_of_bind h with hsettings | ⟨settings, -, h⟩
  · obtain ⟨_, -, heq⟩ := eq_error_of_mapError hsettings
    cases heq
  rcases eq_error_of_bind h with hsize | ⟨maxSize, -, h⟩
  · obtain ⟨_, -, heq⟩ := eq_error_of_mapError hsize
    cases heq
  · cases h

theorem run_of_refused (h : ComesTo s fault env words argument)
    (hpath : documentPath s fault env.homes argument ⟨.slash, s.cwd⟩ = .error e) :
    run s fault env words = ((Failure.path e).outcome [], s) := by
  obtain ⟨given, level, hread, hearly, hargument, hlevel⟩ := h
  have hplan : plan s fault env given [argument] = .error (.path e) := by
    simp only [plan, bind, Except.bind, hargument, hlevel, hpath, Except.mapError]
  simp only [run, hread, hearly, hplan]

theorem comesTo_of_aborted (h : (run s fault env words).1.aborted = some (.path e)) :
    ∃ argument, ComesTo s fault env words argument ∧
      documentPath s fault env.homes argument ⟨.slash, s.cwd⟩ = .error e := by
  unfold run at h
  split at h
  · rw [Failure.aborted_outcome] at h
    cases h
  · rename_i given rest hread
    split at h
    · rename_i outcome hearly
      rw [aborted_of_early? hearly] at h
      cases h
    · rename_i hearly
      split at h
      · rename_i f hplan
        rw [Failure.aborted_outcome] at h
        split at h <;> cases h
        obtain ⟨argument, level, hargument, hlevel, hpath⟩ := plan_path_error hplan
        cases argumentOf_eq_ok hargument
        exact ⟨argument, ⟨given, level, hread, hearly, hargument, hlevel⟩, hpath⟩
      · rw [aborted_carryOut] at h
        cases h

/-- What the command shows of a path that is refused: how it is used, and the reason. -/
def mistaken (e : PathError) : Outcome :=
  { exitCode := 2
    stderr := (usageLine ++ "Try '" ++ programName ++ " --help' for help.\n\n").toList ++
      plain ("Error: Invalid value: " ++ e.message ++ "\n").toList }

/-- **How paths are refused.**  A path is taken, or refused for a reason that is told as a mistake,
exactly if it has no failure of another kind; and that failure is then the one with which it is
refused.  A run breaks off at a path exactly if it comes to one with such a failure.  At any other
path that is refused it shows how the command is used, and the reason. -/
theorem refused_as_mistake_iff (s : Disk) (fault : Option Fault) :
    (∀ homes raw base,
      (((∃ p, documentPath s fault homes raw base = .ok p) ∨
          ∃ e, documentPath s fault homes raw base = .error e ∧ pathTelling e = .usage) ↔
        ∀ e, ¬ Escapes s fault homes raw e) ∧
      ∀ e, Escapes s fault homes raw e ↔
        documentPath s fault homes raw base = .error e ∧ pathTelling e = .abort) ∧
    ∀ env words,
      (∀ e, (run s fault env words).1.aborted = some (.path e) ↔
        ∃ argument, ComesTo s fault env words argument ∧ Escapes s fault env.homes argument e) ∧
      ∀ argument e, ComesTo s fault env words argument →
        documentPath s fault env.homes argument ⟨.slash, s.cwd⟩ = .error e →
        (∀ e', ¬ Escapes s fault env.homes argument e') →
        run s fault env words = (mistaken e, s) := by
  refine ⟨fun homes raw base => ⟨⟨?_, fun hnone => ?_⟩, fun e => escapes_iff⟩,
    fun env words => ⟨fun e => ⟨fun habort => ?_, ?_⟩, fun argument e hcomes hpath hnone => ?_⟩⟩
  · rintro htold e hescapes
    obtain ⟨herror, habort⟩ := escapes_iff.mp hescapes
    rcases htold with ⟨p, htaken⟩ | ⟨e', herror', husage⟩
    · cases herror.symm.trans htaken
    · cases herror.symm.trans herror'
      cases habort.symm.trans husage
  · cases hpath : documentPath s fault homes raw base with
    | ok p => exact Or.inl ⟨p, rfl⟩
    | error e => exact Or.inr ⟨e, rfl, (escapes_or_usage hpath).resolve_left (hnone e)⟩
  · obtain ⟨argument, hcomes, hpath⟩ := comesTo_of_aborted habort
    rw [run_of_refused hcomes hpath, Failure.aborted_outcome] at habort
    split at habort
    · exact ⟨argument, hcomes, escapes_iff.mpr ⟨hpath, ‹_›⟩⟩
    · cases habort
  · rintro ⟨argument, hcomes, hescapes⟩
    obtain ⟨hpath, habort⟩ := escapes_iff.mp hescapes
    rw [run_of_refused hcomes hpath, Failure.aborted_outcome]
    exact if_pos habort
  · have husage : (Failure.path e).telling = .usage :=
      (escapes_or_usage hpath).resolve_left (hnone e)
    rw [run_of_refused hcomes hpath, Failure.outcome, husage]
    rfl

/-- A link is refused with its reason. -/
theorem linkedNote_mistake :
    ComesTo shelf none { homes := ⟨"/", []⟩ } ["link.md"] "link.md" ∧
      documentPath shelf none ⟨"/", []⟩ "link.md" ⟨.slash, []⟩ =
        .error (.isLink ⟨.none, ["link.md"]⟩) ∧
      (∀ e, ¬ Escapes shelf none ⟨"/", []⟩ "link.md" e) ∧
      run shelf none { homes := ⟨"/", []⟩ } ["link.md"] =
        (mistaken (.isLink ⟨.none, ["link.md"]⟩), shelf) := by
  have hcomes : ComesTo shelf none { homes := ⟨"/", []⟩ } ["link.md"] "link.md" :=
    ⟨[], .warning, by decide +kernel, rfl, rfl, rfl⟩
  have hpath : documentPath shelf none ⟨"/", []⟩ "link.md" ⟨.slash, []⟩ =
      .error (.isLink ⟨.none, ["link.md"]⟩) := by decide +kernel
  obtain ⟨hpaths, hruns⟩ := refused_as_mistake_iff shelf none
  have hnone := (hpaths ⟨"/", []⟩ "link.md" ⟨.slash, []⟩).1.mp (Or.inr ⟨_, hpath, rfl⟩)
  exact ⟨hcomes, hpath, hnone, (hruns _ _).2 _ _ hcomes hpath hnone⟩

/-- A root directory with a document whose name begins with a tilde. -/
def tildeDisk : Disk :=
  { tree := ⟨[(["~notes.md"], .file ⟨1, 0o644, 0, []⟩)]⟩ }

/-- A document is there, and its name, which begins with a tilde, is taken for that of an account;
there is none, and a run breaks off. -/
theorem tilde_breaksOff :
    tildeDisk.stat "~notes.md" = .ok (["~notes.md"], .file ⟨1, 0o644, 0, []⟩) ∧
      documentPath tildeDisk none ⟨"/", []⟩ "~notes.md" ⟨.slash, []⟩ = .error .noHome ∧
      pathTelling .noHome = .abort ∧
      (run tildeDisk none { homes := ⟨"/", []⟩ } ["~notes.md"]).1.aborted =
        some (.path .noHome) := by
  have hcomes : ComesTo tildeDisk none { homes := ⟨"/", []⟩ } ["~notes.md"] "~notes.md" :=
    ⟨[], .warning, by decide +kernel, rfl, rfl, rfl⟩
  have hpath : documentPath tildeDisk none ⟨"/", []⟩ "~notes.md" ⟨.slash, []⟩ =
      .error .noHome := by decide +kernel
  refine ⟨by decide +kernel, hpath, rfl, ?_⟩
  rw [run_of_refused hcomes hpath, Failure.aborted_outcome]
  rfl

end Command

end DirectiveFences
