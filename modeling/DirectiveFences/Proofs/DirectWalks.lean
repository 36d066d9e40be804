/-
Walks that meet no link.

Such a walk is a single leg, and each of its names but the last leads to a directory.  So a
leg can be cut in two at any of them (`Tree.leg_append`, `Tree.leg_of_append`): the first part
leads where its names do as they are written, each `..` taking a name off (`along`).  What a
leg comes to from a directory that is known by its own names is known by its own names as well
(`Tree.leg_place`): such places are the canonical ones.
-/
import DirectiveFences.Proofs.WrittenPaths

namespace DirectiveFences.Files

/-- A name that an entry of a directory can have. -/
def IsName (name : String) : Prop :=
  isPart name = true ∧ '/' ∉ name.toList ∧ name ≠ ".."

/-! ## Where names lead -/

/-- The place to which names lead if none of them is a link. -/
def along (dir : Place) (names : List String) : Place :=
  names.foldl (fun place name => if name = ".." then place.dropLast else place ++ [name]) dir

theorem along_cons (dir : Place) (name : String) (names : List String) :
    along dir (name :: names) =
      along (if name = ".." then dir.dropLast else dir ++ [name]) names := rfl

theorem along_append (dir : Place) (names rest : List String) :
    along dir (names ++ rest) = along (along dir names) rest :=
  List.foldl_append

theorem along_up (dir : Place) (names : List String) :
    along dir (names ++ [".."]) = (along dir names).dropLast := by
  rw [along_append]
  rfl

theorem along_name {name : String} (h : name ≠ "..") (dir : Place) (names : List String) :
    along dir (names ++ [name]) = along dir names ++ [name] := by
  rw [along_append]
  exact if_neg h

theorem along_of_names {names : List String} (h : ".." ∉ names) (dir : Place) :
    along dir names = dir ++ names := by
  induction names generalizing dir with
  | nil => exact (List.append_nil dir).symm
  | cons name names ih =>
      rw [List.mem_cons, not_or] at h
      rw [along_cons, if_neg (Ne.symm h.1), ih h.2, List.append_assoc, List.singleton_append]

theorem mem_along {name : String} {dir : Place} {names : List String}
    (h : name ∈ along dir names) : name ∈ dir ∨ name ∈ names ∧ name ≠ ".." := by
  induction names generalizing dir with
  | nil => exact Or.inl h
  | cons first names ih =>
      rw [along_cons] at h
      rcases ih h with hmem | ⟨hmem, hne⟩
      · by_cases hup : first = ".."
        · rw [if_pos hup] at hmem
          exact Or.inl ((List.dropLast_sublist _).subset hmem)
        · rw [if_neg hup] at hmem
          rcases List.mem_append.mp hmem with hmem | hmem
          · exact Or.inl hmem
          · rw [List.mem_singleton.mp hmem]
            exact Or.inr ⟨List.mem_cons_self, hup⟩
      · exact Or.inr ⟨List.mem_cons_of_mem _ hmem, hne⟩

/-! ## Legs -/

namespace Tree

variable {t : Tree} {follow : Bool} {dir place : Place} {node : Node} {name : String}
  {names rest : List String}

theorem leg_single (hpart : isPart name = true) (hup : name ≠ "..") :
    t.leg false dir [name] =
      if longestName < name.utf8ByteSize then .fails .nameTooLong
      else
        match t.get? (dir ++ [name]) with
        | none => .misses (dir ++ [name])
        | some node => .arrives (dir ++ [name]) node := by
  split
  · rename_i hlong
    rw [leg_long hpart hup hlong]
  · rename_i hlong
    rw [leg_name hpart hup (Nat.not_lt.mp hlong)]
    cases t.get? (dir ++ [name]) with
    | none => rfl
    | some node => cases node <;> rfl

theorem leg_single_of_get? (hpart : isPart name = true) (hup : name ≠ "..")
    (hlong : name.utf8ByteSize ≤ longestName) (hat : t.get? (dir ++ [name]) = some node) :
    t.leg false dir [name] = .arrives (dir ++ [name]) node := by
  rw [leg_single hpart hup, if_neg (Nat.not_lt.mpr hlong), hat]

/-- How a leg that meets no link begins: with `..`, with the name of a directory, or with the name
of a file, which is then the last one. -/
theorem leg_arrives_cases (hpart : isPart name = true)
    (h : t.leg true dir (name :: names) = .arrives place node) :
    (name = ".." ∧ t.leg true dir.dropLast names = .arrives place node) ∨
      (name ≠ ".." ∧ name.utf8ByteSize ≤ longestName ∧
        (t.get? (dir ++ [name]) = some .directory ∧
            t.leg true (dir ++ [name]) names = .arrives place node ∨
          ∃ f, t.get? (dir ++ [name]) = some (.file f) ∧ names = [] ∧ place = dir ++ [name] ∧
            node = .file f)) := by
  cases leg_eq_iff.mp h with
  | skip hno _ => exact absurd (hpart.symm.trans hno) nofun
  | up rest => exact Or.inl ⟨rfl, rest.leg_eq⟩
  | enter hfinds rest =>
      exact Or.inr ⟨hfinds.ne_up, hfinds.short, Or.inl ⟨hfinds.get?, rest.leg_eq⟩⟩
  | file hfinds =>
      exact Or.inr ⟨hfinds.ne_up, hfinds.short, Or.inr ⟨_, hfinds.get?, rfl, rfl, rfl⟩⟩
  | link _ hfollow => cases hfollow

theorem leg_ne_link {target : String} : t.leg true dir names ≠ .arrives place (.link target) := by
  intro h
  rw [leg_eq_iff] at h
  generalize hend : Leg.arrives place (.link target) = leg at h
  induction h with
  | skip _ _ ih | up _ ih | enter _ _ ih => exact ih hend
  | link _ hfollow => cases hfollow
  | nil | long | misses | absent | file | behindFile | follows => cases hend

/-- A leg that comes to a directory without meeting a link goes on from there. -/
theorem leg_append (h : t.leg true dir names = .arrives place .directory) (rest : List String) :
    t.leg follow dir (names ++ rest) = t.leg follow place rest := by
  rw [leg_eq_iff] at h
  generalize hend : Leg.arrives place .directory = leg at h
  induction h with
  | nil =>
      cases hend
      rfl
  | skip hpart _ ih => rw [List.cons_append, leg_skip hpart, ih hend]
  | up _ ih => rw [List.cons_append, leg_up, ih hend]
  | enter hfinds _ ih => rw [List.cons_append, leg_enter hfinds, ih hend]
  | long | misses | absent | file | behindFile | link | follows => cases hend

theorem leg_append_file {f : File} (h : t.leg true dir names = .arrives place (.file f))
    (next : String) (rest : List String) :
    t.leg follow dir (names ++ next :: rest) = .fails .notDirectory := by
  rw [leg_eq_iff] at h
  generalize hend : Leg.arrives place (.file f) = leg at h
  induction h with
  | skip hpart _ ih => rw [List.cons_append, leg_skip hpart, ih hend]
  | up _ ih => rw [List.cons_append, leg_up, ih hend]
  | enter hfinds _ ih => rw [List.cons_append, leg_enter hfinds, ih hend]
  | file hfinds => exact (LegTo.behindFile hfinds (List.cons_ne_nil next rest)).leg_eq
  | nil | long | misses | absent | behindFile | link | follows => cases hend

/-- What a leg comes to without meeting a link it comes to as well if the last link is not to be
followed. -/
theorem leg_false (h : t.leg true dir names = .arrives place node) :
    t.leg false dir names = .arrives place node := by
  rw [leg_eq_iff] at *
  generalize hend : Leg.arrives place node = leg at h ⊢
  induction h with
  | nil => exact .nil
  | skip hpart _ ih => exact .skip hpart (ih hend)
  | up _ ih => exact .up (ih hend)
  | enter hfinds _ ih => exact .enter hfinds (ih hend)
  | file hfinds => exact .file hfinds
  | link _ hfollow => cases hfollow
  | long | misses | absent | behindFile | follows => cases hend

/-- All names of a leg but the last lead to directories. -/
theorem leg_of_append (hparts : ∀ n ∈ names, isPart n = true)
    (h : t.leg true dir (names ++ rest) = .arrives place node) (hrest : rest ≠ []) :
    t.leg true dir names = .arrives (along dir names) .directory := by
  induction names generalizing dir with
  | nil => rfl
  | cons name names ih =>
      have hname := hparts name List.mem_cons_self
      have htail := fun n hn => hparts n (List.mem_cons_of_mem name hn)
      rw [List.cons_append] at h
      rcases leg_arrives_cases hname h with ⟨rfl, h⟩ | ⟨hup, hlong, ⟨hat, h⟩ | ⟨f, -, hnil, -⟩⟩
      · rw [leg_up, ih htail h]
        rfl
      · rw [leg_name hname hup hlong, hat, along_cons, if_neg hup]
        exact ih htail h
      · exact absurd (List.append_eq_nil_iff.mp hnil).2 hrest

theorem link_of_follows {dir' : Place} {target : String}
    (h : t.leg true dir names = .follows dir' target rest) :
    ∃ before place, names = before ++ rest ∧
      t.leg false dir before = .arrives place (.link target) := by
  rw [leg_eq_iff] at h
  generalize hend : Leg.follows dir' target rest = leg at h
  induction h with
  | @skip dir name names leg hpart _ ih =>
      obtain ⟨before, place, rfl, hlink⟩ := ih hend
      exact ⟨name :: before, place, rfl, by rw [leg_skip hpart, hlink]⟩
  | up _ ih =>
      obtain ⟨before, place, rfl, hlink⟩ := ih hend
      exact ⟨".." :: before, place, rfl, by rw [leg_up, hlink]⟩
  | @enter dir name names leg hfinds _ ih =>
      obtain ⟨before, place, rfl, hlink⟩ := ih hend
      exact ⟨name :: before, place, rfl, by rw [leg_enter hfinds, hlink]⟩
  | @follows dir name names target' hfinds _ =>
      cases hend
      exact ⟨[name], dir' ++ [name], rfl, (LegTo.link hfinds rfl).leg_eq⟩
  | nil | long | misses | absent | file | behindFile | link => cases hend

theorem get?_of_leg_names (hparts : ∀ n ∈ names, isPart n = true) (hup : ".." ∉ names)
    (h : t.leg true [] names = .arrives place node) : t.get? names = some node := by
  rcases List.eq_nil_or_concat names with rfl | ⟨before, name, rfl⟩
  · cases h
    rfl
  · rw [List.concat_eq_append] at *
    have hbefore := fun n hn => hparts n (List.mem_append_left _ hn)
    have hname := hparts name (List.mem_append_right _ (List.mem_singleton_self name))
    have hne : name ≠ ".." := fun heq =>
      hup (List.mem_append_right _ (List.mem_singleton.mpr heq.symm))
    have hdir := leg_of_append hbefore h (List.cons_ne_nil name [])
    have hplace : along [] before = before :=
      along_of_names (fun hmem => hup (List.mem_append_left _ hmem)) []
    rw [leg_append hdir, hplace] at h
    rcases leg_arrives_cases hname h with ⟨heq, -⟩ | ⟨-, -, ⟨hat, hnil⟩ | ⟨f, hat, -, -, rfl⟩⟩
    · exact absurd heq hne
    · cases hnil
      exact hat
    · exact hat

/-- The directory above one to which its own names lead is such a directory. -/
theorem leg_dropLast (hdir : t.leg true [] dir = .arrives dir .directory)
    (hnamed : ∀ n ∈ dir, isPart n = true ∧ n ≠ "..") :
    t.leg true [] dir.dropLast = .arrives dir.dropLast .directory := by
  rcases List.eq_nil_or_concat dir with rfl | ⟨above, last, rfl⟩
  · exact hdir
  · rw [List.concat_eq_append] at *
    have habove := fun n hn => (hnamed n (List.mem_append_left _ hn)).1
    have hplace : along [] above = above :=
      along_of_names (fun hmem => (hnamed _ (List.mem_append_left _ hmem)).2 rfl) []
    have hleg := leg_of_append habove hdir (List.cons_ne_nil last [])
    rw [hplace] at hleg
    rw [List.dropLast_concat]
    exact hleg

/-- A place that is walked to without a link, from a directory to which its own names lead from the
root, is itself one to which its names lead. -/
theorem leg_place (hdir : t.leg true [] dir = .arrives dir .directory)
    (hnamed : ∀ n ∈ dir, isPart n = true ∧ n ≠ "..")
    (h : t.leg true dir names = .arrives place node) :
    t.leg true [] place = .arrives place node := by
  rw [leg_eq_iff] at h
  generalize hend : Leg.arrives place node = leg at h
  induction h with
  | nil =>
      cases hend
      exact hdir
  | skip _ _ ih => exact ih hdir hnamed hend
  | up _ ih =>
      refine ih (leg_dropLast hdir hnamed) (fun n hn => ?_) hend
      exact hnamed n ((List.dropLast_sublist _).subset hn)
  | enter hfinds _ ih =>
      refine ih ?_ (fun n hn => ?_) hend
      · rw [leg_append hdir, leg_enter hfinds]
        rfl
      · rcases List.mem_append.mp hn with hn | hn
        · exact hnamed n hn
        · rw [List.mem_singleton.mp hn]
          exact ⟨hfinds.part, hfinds.ne_up⟩
  | file hfinds =>
      cases hend
      rw [leg_append hdir, (LegTo.file hfinds).leg_eq]
  | link _ hfollow => cases hfollow
  | long | misses | absent | behindFile | follows => cases hend

theorem leg_of_walk {links : Nat} (h : t.walk follow links dir names = .ok (.taken place node))
    (hno : ∀ dir' target rest, t.leg follow dir names ≠ .follows dir' target rest) :
    t.leg follow dir names = .arrives place node := by
  cases walk_eq_iff.mp h with
  | arrives hleg => exact hleg
  | follows hleg _ => exact absurd hleg (hno _ _ _)

theorem leg_ne_follows {dir' : Place} {target : String} (hnames : ∀ n ∈ names, IsName n)
    (hdirect : ∀ parts, parts <+: names → ∀ target, t.get? (dir ++ parts) ≠ some (.link target)) :
    t.leg true dir names ≠ .follows dir' target rest := by
  intro h
  rw [leg_eq_iff] at h
  generalize hend : Leg.follows dir' target rest = leg at h
  induction h with
  | @skip dir name names leg hno _ _ =>
      exact absurd ((hnames name List.mem_cons_self).1.symm.trans hno) nofun
  | up _ _ => exact absurd rfl (hnames ".." List.mem_cons_self).2.2
  | @enter dir name names leg _ _ ih =>
      refine ih (fun n hn => hnames n (List.mem_cons_of_mem name hn)) (fun parts hparts => ?_) hend
      rw [List.append_assoc]
      exact hdirect (name :: parts) (List.cons_prefix_cons.mpr ⟨rfl, hparts⟩)
  | @follows dir name names target' hfinds _ =>
      have hprefix : [name] <+: name :: names :=
        List.cons_prefix_cons.mpr ⟨rfl, List.nil_prefix⟩
      exact hdirect [name] hprefix target' hfinds.get?
  | nil | long | misses | absent | file | behindFile | link => cases hend

/-! ## How a walk fails -/

theorem leg_fails_cases {e : Errno} (h : t.leg follow dir names = .fails e) :
    e = .nameTooLong ∨ e = .notFound ∨ e = .notDirectory := by
  rw [leg_eq_iff] at h
  generalize hend : Leg.fails e = leg at h
  induction h with
  | skip _ _ ih | up _ ih | enter _ _ ih => exact ih hend
  | long =>
      cases hend
      exact Or.inl rfl
  | absent =>
      cases hend
      exact Or.inr (Or.inl rfl)
  | behindFile =>
      cases hend
      exact Or.inr (Or.inr rfl)
  | nil | misses | file | link | follows => cases hend

theorem walk_error_cases {links : Nat} {e : Errno} (h : t.walk follow links dir names = .error e) :
    e = .nameTooLong ∨ e.saysAbsent = true := by
  rw [walk_eq_iff] at h
  generalize hend : Except.error e = result at h
  induction h with
  | fails hleg =>
      cases hend
      rcases leg_fails_cases hleg with rfl | rfl | rfl
      · exact Or.inl rfl
      · exact Or.inr rfl
      · exact Or.inr rfl
  | exhausted =>
      cases hend
      exact Or.inr rfl
  | follows _ _ ih => exact ih hend
  | arrives | misses => cases hend

/-- A walk that meets too many links has met one. -/
theorem follows_of_walk {links : Nat} (h : t.walk follow links dir names = .error .tooManyLinks) :
    ∃ dir' target rest, t.leg follow dir names = .follows dir' target rest := by
  cases walk_eq_iff.mp h with
  | fails hleg => rcases leg_fails_cases hleg with heq | heq | heq <;> cases heq
  | exhausted hleg => exact ⟨_, _, _, hleg⟩
  | follows hleg _ => exact ⟨_, _, _, hleg⟩

variable {cwd : Place} {path : String} {e : SystemError}

theorem look_error_cases (h : t.look follow cwd path = .error (.system e)) :
    e = ⟨.notFound, some path⟩ ∨ e = ⟨.nameTooLong, some path⟩ ∨
      ∃ errno, t.walk follow linkLimit (startOf cwd path) (namesOf path) = .error errno ∧
        e = ⟨errno, some path⟩ := by
  unfold Tree.look at h
  by_cases hcallable : Callable path
  · rw [find_of_callable hcallable] at h
    cases hwalk : t.walk follow linkLimit (startOf cwd path) (namesOf path) with
    | ok spot =>
        rw [hwalk] at h
        cases spot <;> cases h
        exact Or.inl rfl
    | error errno =>
        rw [hwalk] at h
        cases h
        exact Or.inr (Or.inr ⟨errno, rfl, rfl⟩)
  · obtain ⟨refusal, hcause, hfind⟩ := find_of_not_callable hcallable
    rw [hfind] at h
    cases h
    rcases hcause with ⟨heq, -⟩ | heq | heq <;> cases heq
    · exact Or.inl rfl
    · exact Or.inr (Or.inl rfl)

theorem look_error_of_there (h : t.look follow cwd path = .error (.system e))
    (hthere : e.errno.saysAbsent = false) : e = ⟨.nameTooLong, some path⟩ := by
  rcases look_error_cases h with rfl | rfl | ⟨errno, hwalk, rfl⟩
  · cases hthere
  · rfl
  · rcases walk_error_cases hwalk with rfl | habsent
    · rfl
    · exact absurd (habsent.symm.trans hthere) nofun

theorem follows_of_look {p : Path} (hp : p.Plain) {about : Option String}
    (h : t.look follow cwd p.text = .error (.system ⟨.tooManyLinks, about⟩)) :
    ∃ dir' target rest, t.leg follow (p.start cwd) p.parts = .follows dir' target rest := by
  rcases look_error_cases h with heq | heq | ⟨errno, hwalk, heq⟩
  · cases heq
  · cases heq
  · cases heq
    exact follows_of_walk (walk_text hp cwd ▸ hwalk)

end Tree

end DirectiveFences.Files
