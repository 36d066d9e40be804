/-
Which paths are taken as documents.

What is taken is always the canonical location of a regular Markdown file below the base, so
nothing outside is ever reached (`documentPath_locates`).  Whether a path is taken is meant
to be a matter of the path itself: no part of it is a link, and it leads to the file.  That
holds of every path but those on which a file stands before a `..`.  The system finds
nothing there, and so no link either, while the canonical form goes on beside the file
(`Disk.PassesFile`).
-/
import DirectiveFences.Proofs.CanonicalPlaces
import DirectiveFences.Text.Utf8
import Mathlib.Control.Monad.Basic

namespace DirectiveFences.Files

/-! ## Conditions on paths -/

/-- A path is the canonical location of a file: it is absolute, has no `..`, no part of it is a
link, and it leads to the file. -/
structure Disk.Locates (s : Disk) (p : Path) (f : File) : Prop where
  absolute : p.root = .slash
  named : ∀ name ∈ p.parts, IsName name
  direct : ∀ parts, parts <+: p.parts → ∀ target, s.tree.get? parts ≠ some (.link target)
  leads : s.stat p.text = .ok (p.parts, .file f)

/-- Neither a path nor any path above it is a link. -/
def Disk.LinkFree (s : Disk) (path : Path) : Prop :=
  ∀ q ∈ path :: path.parents, ∀ place target, s.lstat none q.text ≠ .ok (place, .link target)

/-- A path is that of a document below a base, whose canonical location is `p`. -/
structure Disk.Accepts (s : Disk) (path : Path) (base : Place) (p : Path) : Prop where
  linkFree : s.LinkFree path
  leads : ∃ f, s.stat path.text = .ok (p.parts, .file f) ∧ s.Locates p f
  inside : base <+: p.parts
  markdown : String.ofList (Text.lower p.suffix) ∈ markdownSuffixes

/-- A file stands before a `..` of a path. -/
def Disk.PassesFile (s : Disk) (path : Path) : Prop :=
  ∃ before after place f, path.parts = before ++ ".." :: after ∧
    s.stat (Path.text { path with parts := before }) = .ok (place, .file f)

/-! ## The checks -/

variable {s : Disk} {fault : Option Fault} {homes : Homes} {raw : String} {path p : Path} {base : Place}

theorem answer_isFile_iff {result : Except CallError (Place × Node)} :
    answer result Node.isFile = .ok true ↔ ∃ place f, result = .ok (place, .file f) := by
  unfold answer
  split
  · rename_i place node
    cases node with
    | file f => exact ⟨fun _ => ⟨place, f, rfl⟩, fun _ => rfl⟩
    | directory => exact ⟨nofun, nofun⟩
    | link target => exact ⟨nofun, nofun⟩
  · exact ⟨nofun, nofun⟩
  · split <;> exact ⟨nofun, nofun⟩

theorem answer_isLink_eq_false_iff {result : Except CallError (Place × Node)} :
    answer result Node.isLink = .ok false ↔
      (∀ place target, result ≠ .ok (place, .link target)) ∧
        ∀ e, result = .error (.system e) → e.errno.saysAbsent = true := by
  unfold answer
  split
  · rename_i place node
    cases node with
    | link target => exact ⟨nofun, fun h => absurd rfl (h.1 place target)⟩
    | directory => exact ⟨fun _ => ⟨nofun, nofun⟩, fun _ => rfl⟩
    | file f => exact ⟨fun _ => ⟨nofun, nofun⟩, fun _ => rfl⟩
  · exact ⟨fun _ => ⟨nofun, nofun⟩, fun _ => rfl⟩
  · rename_i e
    split
    · rename_i habsent
      refine ⟨fun _ => ⟨nofun, fun e' heq => ?_⟩, fun _ => rfl⟩
      cases heq
      exact habsent
    · rename_i habsent
      exact ⟨nofun, fun h => absurd (h.2 e rfl) habsent⟩

theorem anyLink_eq_false_iff {ps : List Path} :
    anyLink s ps = .ok false ↔
      ∀ q ∈ ps, answer (s.lstat none q.text) Node.isLink = .ok false := by
  induction ps with
  | nil => exact ⟨fun _ _ hq => absurd hq List.not_mem_nil, fun _ => rfl⟩
  | cons q ps ih =>
      rw [List.forall_mem_cons, ← ih, anyLink]
      cases hanswer : answer (s.lstat none q.text) Node.isLink with
      | error e => exact ⟨nofun, fun h => nomatch h.1⟩
      | ok linked =>
          cases linked with
          | true => exact ⟨nofun, fun h => nomatch h.1⟩
          | false => exact ⟨fun h => ⟨rfl, h⟩, fun h => h.2⟩

theorem existing_eq_ok_iff :
    existing s fault path = .ok p ↔ canonical s fault true path = .ok p := by
  unfold existing
  split
  · rename_i found hfound
    rw [hfound, Except.ok.injEq, Except.ok.injEq]
  · rename_i hloop
    rw [hloop]
    exact ⟨nofun, nofun⟩
  · rename_i hdeep
    rw [hdeep]
    exact ⟨nofun, nofun⟩
  · rename_i hnull
    rw [hnull]
    exact ⟨nofun, nofun⟩
  · rename_i hsystem
    rw [hsystem]
    split <;> exact ⟨nofun, nofun⟩

theorem documentPath_eq_ok_iff (hpath : homes.expand (Path.parse raw) = .ok path) :
    documentPath s fault homes raw ⟨.slash, base⟩ = .ok p ↔
      anyLink s (path :: path.parents) = .ok false ∧ canonical s fault true path = .ok p ∧
        (∃ place f, s.stat p.text fault = .ok (place, .file f)) ∧ p.isUnder ⟨.slash, base⟩ = true ∧
        isMarkdownSuffix p.suffix = true := by
  rw [← existing_eq_ok_iff, ← answer_isFile_iff]
  simp only [documentPath, hpath, bind, Except.bind]
  cases hlinks : anyLink s (path :: path.parents) with
  | error e => exact ⟨nofun, fun h => nomatch h.1⟩
  | ok linked =>
      cases linked with
      | true => exact ⟨nofun, fun h => nomatch h.1⟩
      | false =>
          cases hfound : existing s fault path with
          | error e => exact ⟨nofun, fun h => nomatch h.2.1⟩
          | ok found =>
              simp only [Bool.false_eq_true, if_false, true_and, Except.ok.injEq]
              constructor
              · intro h
                split at h
                · cases h
                · rename_i isFile hanswer
                  split at h
                  · cases h
                  · rename_i hfile
                    split at h
                    · cases h
                    · rename_i hunder
                      split at h
                      · cases h
                      · rename_i hsuffix
                        cases h
                        have hisFile : isFile = true := by simpa using hfile
                        exact ⟨rfl, hisFile ▸ hanswer, by simpa using hunder,
                          by simpa using hsuffix⟩
              · rintro ⟨rfl, hanswer, hunder, hsuffix⟩
                simp only [hanswer, hunder, hsuffix, Bool.not_true, Bool.false_eq_true, if_false]

theorem documentPath_none (hpath : homes.expand (Path.parse raw) = .ok path)
    (h : documentPath s fault homes raw ⟨.slash, base⟩ = .ok p) :
    documentPath s none homes raw ⟨.slash, base⟩ = .ok p := by
  obtain ⟨hlinks, hcanonical, ⟨place, f, hstat⟩, hrest⟩ := (documentPath_eq_ok_iff hpath).mp h
  exact (documentPath_eq_ok_iff hpath).mpr
    ⟨hlinks, canonical_none hcanonical, ⟨place, f, Disk.stat_none hstat⟩, hrest⟩

theorem isUnder_iff {base : Place} :
    p.isUnder ⟨.slash, base⟩ = true ↔ p.root = .slash ∧ base <+: p.parts := by
  rw [Path.isUnder, Bool.and_eq_true, decide_eq_true_eq, List.isPrefixOf_iff_prefix]

theorem isMarkdownSuffix_iff {suffix : List Char} :
    isMarkdownSuffix suffix = true ↔ String.ofList (Text.lower suffix) ∈ markdownSuffixes :=
  List.contains_iff_mem

theorem expand_plain {q : Path} (hq : q.Plain) (h : homes.expand q = .ok path) : path.Plain := by
  unfold Homes.expand at h
  split at h
  · rename_i first rest hroot hparts
    split at h
    · split at h
      · cases h
      · cases h
      · rename_i dir hdir
        simp only at h
        split at h
        · cases h
        · cases h
          intro name hname
          rcases List.mem_append.mp hname with hname | hname
          · exact Path.parse_plain _ name hname
          · exact hq name (hparts ▸ List.mem_cons_of_mem first hname)
    · cases h
      exact hq
  · cases h
    exact hq

/-! ## What is taken -/

/-- A path whose own names lead from the root to a file, and whose text leads to some file, is the
canonical location of that file. -/
theorem Disk.locates_of_leg {node : Node} {place : Place} {f : File} (hroot : p.root = .slash)
    (hnamed : ∀ name ∈ p.parts, IsName name)
    (hleg : s.tree.leg true [] p.parts = .arrives p.parts node)
    (hstat : s.stat p.text = .ok (place, .file f)) : s.Locates p f ∧ node = .file f := by
  have hplain : p.Plain := fun name hname => ⟨(hnamed name hname).1, (hnamed name hname).2.1⟩
  have hpart := fun name hname => (hnamed name hname).1
  have hstart : p.start s.cwd = [] := by rw [Path.start, hroot, if_neg nofun]
  obtain ⟨hfits, hwalk⟩ := (Tree.look_text_eq_ok hplain).mp hstat
  rw [hstart, Tree.walk_of_arrives hleg] at hwalk
  cases hwalk
  refine ⟨⟨hroot, hnamed, fun parts hinitial target hat => ?_, hstat⟩, rfl⟩
  obtain ⟨rest, hrest⟩ := hinitial
  have hup : ".." ∉ p.parts := fun hmem => (hnamed _ hmem).2.2 rfl
  have hup' : ".." ∉ parts := fun hmem => hup (hrest ▸ List.mem_append_left _ hmem)
  have hpart' : ∀ n ∈ parts, isPart n = true :=
    fun n hn => hpart n (hrest ▸ List.mem_append_left _ hn)
  by_cases hnil : rest = []
  · rw [hnil, List.append_nil] at hrest
    rw [hrest, Tree.get?_of_leg_names hpart hup hleg] at hat
    cases hat
  · have hdir := Tree.leg_of_append hpart' (hrest ▸ hleg) hnil
    rw [Tree.get?_of_leg_names hpart' hup' hdir] at hat
    cases hat

/-- What is taken is the canonical location of a Markdown file below the base. -/
theorem documentPath_locates (hs : s.Grounded) (hpath : homes.expand (Path.parse raw) = .ok path)
    (h : documentPath s none homes raw ⟨.slash, base⟩ = .ok p) :
    ∃ f, s.Locates p f ∧ base <+: p.parts ∧
      String.ofList (Text.lower p.suffix) ∈ markdownSuffixes := by
  obtain ⟨-, hcanonical, ⟨place, f, hstat⟩, hunder, hsuffix⟩ := (documentPath_eq_ok_iff hpath).mp h
  obtain ⟨hroot, hnamed, node, hleg⟩ :=
    canonical_spec hs (expand_plain (Path.parse_plain raw) hpath) hcanonical
  exact ⟨f, (Disk.locates_of_leg hroot hnamed hleg hstat).1, (isUnder_iff.mp hunder).2,
    isMarkdownSuffix_iff.mp hsuffix⟩

/-! ## Paths without links -/

theorem Disk.LinkFree.leg_ne_link (h : s.LinkFree path) (hplain : path.Plain)
    {before after : List String} (hparts : path.parts = before ++ after)
    (hfits : Path.Fits { path with parts := before }) (place : Place) (target : String) :
    s.tree.leg false (path.start s.cwd) before ≠ .arrives place (.link target) := fun hleg => by
  have hinitial : before <+: path.parts := ⟨after, hparts.symm⟩
  refine h { path with parts := before } (Path.self_mem_parents_of_prefix hinitial) place target ?_
  rw [Disk.lstat_eq_look, Tree.look_text_eq_ok (hplain.of_subset hinitial.subset)]
  exact ⟨hfits, Tree.walk_of_arrives hleg⟩

theorem Disk.LinkFree.leg_of_stat {place : Place} {node : Node} (h : s.LinkFree path)
    (hplain : path.Plain) (hstat : s.stat path.text = .ok (place, node)) :
    path.Fits ∧ s.tree.leg true (path.start s.cwd) path.parts = .arrives place node := by
  obtain ⟨hfits, hwalk⟩ := (Tree.look_text_eq_ok hplain).mp hstat
  refine ⟨hfits, Tree.leg_of_walk hwalk fun dir target rest hleg => ?_⟩
  obtain ⟨before, place', hparts, hlink⟩ := Tree.link_of_follows hleg
  have hbefore := hfits.of_prefix ⟨rest, hparts.symm⟩
  exact h.leg_ne_link hplain hparts hbefore place' target hlink

/-- Where a file stands before a `..` no document is accepted: behind a file there is nothing. -/
theorem Disk.PassesFile.not_accepts (h : s.PassesFile path) (hplain : path.Plain) :
    ¬ s.Accepts path base p := by
  rintro ⟨hfree, ⟨f, hstat, -⟩, -, -⟩
  obtain ⟨before, after, place, f', hparts, hfile⟩ := h
  obtain ⟨-, hleg⟩ := hfree.leg_of_stat hplain hstat
  have hinitial : before <+: path.parts := ⟨".." :: after, hparts.symm⟩
  have hpart : ∀ n ∈ before, isPart n = true := fun n hn => (hplain n (hinitial.subset hn)).1
  rw [hparts] at hleg
  have hdir := Tree.leg_of_append hpart hleg (List.cons_ne_nil ".." after)
  obtain ⟨-, hwalk⟩ := (Tree.look_text_eq_ok (hplain.of_subset hinitial.subset)).mp hfile
  rw [show Path.start { path with parts := before } s.cwd = path.start s.cwd from rfl,
    Tree.walk_of_arrives hdir] at hwalk
  cases hwalk

theorem linkFree_of_anyLink (h : anyLink s (path :: path.parents) = .ok false) :
    s.LinkFree path :=
  fun q hq => (answer_isLink_eq_false_iff.mp (anyLink_eq_false_iff.mp h q hq)).1

theorem fits_of_anyLink (hplain : path.Plain) (h : anyLink s (path :: path.parents) = .ok false)
    {parts : List String} (hinitial : parts <+: path.parts)
    (hnull : ∀ name ∈ parts, '\x00' ∉ name.toList) : Path.Fits { path with parts := parts } := by
  have htext := Path.null_not_mem_text (p := { path with parts := parts }) hnull
  refine ⟨htext, Nat.lt_of_not_le fun hlong => ?_⟩
  have hanswer := anyLink_eq_false_iff.mp h _ (Path.self_mem_parents_of_prefix hinitial)
  have hlook : s.lstat none (Path.text { path with parts := parts }) =
      .error (.system ⟨.nameTooLong, some (Path.text { path with parts := parts })⟩) := by
    rw [Disk.lstat_eq_look, Tree.look, Tree.find, if_neg htext,
      if_neg (hplain.of_subset hinitial.subset).text_ne_empty, if_pos hlong]
  exact absurd ((answer_isLink_eq_false_iff.mp hanswer).2 _ hlook) Bool.false_ne_true

theorem clear_of_anyLink (hplain : path.Plain) (h : anyLink s (path :: path.parents) = .ok false)
    (hpass : ¬ s.PassesFile path) : s.Clear (path.origin.place s.cwd) path.parts := by
  rw [Path.place_origin]
  refine ⟨fun before after place target hparts hnull => ?_,
    fun before after place f hparts hnull hleg => ?_⟩
  · exact (linkFree_of_anyLink h).leg_ne_link hplain hparts
      (fits_of_anyLink hplain h ⟨after, hparts.symm⟩ hnull) place target
  · have hinitial : before <+: path.parts := ⟨".." :: after, hparts.symm⟩
    refine hpass ⟨before, after, place, f, hparts, ?_⟩
    rw [Disk.stat_eq_look, Tree.look_text_eq_ok (hplain.of_subset hinitial.subset)]
    exact ⟨fits_of_anyLink hplain h hinitial hnull,
      Tree.walk_true nofun (Tree.walk_of_arrives hleg)⟩

theorem anyLink_of_leg {place : Place} {node : Node} (hplain : path.Plain) (hfits : path.Fits)
    (hleg : s.tree.leg true (path.start s.cwd) path.parts = .arrives place node) :
    anyLink s (path :: path.parents) = .ok false := by
  have hpart := fun name hname => (hplain name hname).1
  rw [anyLink_eq_false_iff]
  intro q hq
  obtain ⟨n, -, rfl⟩ := Path.mem_self_parents_iff.mp hq
  have hinitial := List.take_prefix n path.parts
  have hbefore := fun name hname => hpart name (hinitial.subset hname)
  obtain ⟨place', node', hat⟩ : ∃ place' node',
      s.tree.leg true (path.start s.cwd) (path.parts.take n) = .arrives place' node' := by
    obtain ⟨rest, hrest⟩ := hinitial
    by_cases hnil : rest = []
    · rw [hnil, List.append_nil] at hrest
      exact ⟨place, node, hrest.symm ▸ hleg⟩
    · rw [← hrest] at hleg
      exact ⟨_, _, Tree.leg_of_append hbefore hleg hnil⟩
  have hlook : s.lstat none (Path.text { path with parts := path.parts.take n }) =
      .ok (place', node') := by
    rw [Disk.lstat_eq_look, Tree.look_text_eq_ok (hplain.of_subset hinitial.subset)]
    exact ⟨hfits.of_prefix hinitial, Tree.walk_of_arrives (Tree.leg_false hat)⟩
  rw [hlook, answer_isLink_eq_false_iff]
  refine ⟨fun place target heq => ?_, nofun⟩
  cases heq
  exact Tree.leg_ne_link hat

/-! ## Paths that are taken and paths that are accepted -/

/-- A path that is taken is accepted, unless a file stands before a `..`. -/
theorem accepts_of_documentPath (hs : s.Grounded)
    (hpath : homes.expand (Path.parse raw) = .ok path)
    (h : documentPath s none homes raw ⟨.slash, base⟩ = .ok p) (hpass : ¬ s.PassesFile path) :
    s.Accepts path base p := by
  obtain ⟨hlinks, hcanonical, ⟨_, f, hstat⟩, hunder, hsuffix⟩ := (documentPath_eq_ok_iff hpath).mp h
  obtain ⟨q, met, hread, rfl⟩ := canonical_eq_ok.mp hcanonical
  obtain ⟨follow, hfollow⟩ := readWithin_eq s none true s.linkRoom
  rw [hfollow] at hread
  have hplain : path.Plain := expand_plain (Path.parse_plain raw) hpath
  have hfree := linkFree_of_anyLink hlinks
  rcases readNames_agrees _ _ [] (Path.origin_stands path) hplain
      (clear_of_anyLink hplain hlinks hpass) with
    ⟨e, hfails, -⟩ | ⟨q', node, hdone, hq, hleg, hnull⟩
  · cases hfails.symm.trans hread
  · cases hdone.symm.trans hread
    rw [hq.absolute hs] at *
    rw [Path.place_origin] at hleg
    obtain ⟨hlocates, rfl⟩ := Disk.locates_of_leg rfl (hq.isName hs) (hq.leg_place hs) hstat
    refine ⟨hfree, ⟨f, ?_, hlocates⟩, (isUnder_iff.mp hunder).2, isMarkdownSuffix_iff.mp hsuffix⟩
    rw [Disk.stat_eq_look, Tree.look_text_eq_ok hplain]
    exact ⟨fits_of_anyLink hplain hlinks List.prefix_rfl hnull, Tree.walk_of_arrives hleg⟩

/-- A path that is accepted is taken. -/
theorem documentPath_of_accepts (hs : s.Grounded)
    (hpath : homes.expand (Path.parse raw) = .ok path) (h : s.Accepts path base p) :
    documentPath s none homes raw ⟨.slash, base⟩ = .ok p := by
  obtain ⟨hfree, ⟨f, hstat, hlocates⟩, hinside, hsuffix⟩ := h
  have hplain : path.Plain := expand_plain (Path.parse_plain raw) hpath
  obtain ⟨hfits, hleg⟩ := hfree.leg_of_stat hplain hstat
  have horigin : path.origin.parts = [] ∧
      path.origin.root.text.utf8ByteSize ≤ path.root.text.utf8ByteSize := by
    unfold Path.origin
    cases path.root <;> exact ⟨rfl, by decide⟩
  have hroom : path.origin.Room path.parts := by
    refine ⟨?_, fun n hn => ?_⟩
    · have hextent := hfits.extent_le
      have hnil : Path.extent [] = 0 := rfl
      rw [horigin.1, hnil]
      omega
    · rw [horigin.1] at hn
      exact hfits.null_not_mem hn
  have hleg' :
      s.tree.leg true (path.origin.place s.cwd) path.parts = .arrives p.parts (.file f) := by
    rw [Path.place_origin]
    exact hleg
  obtain ⟨follow, hfollow⟩ := readWithin_eq s none true s.linkRoom
  obtain ⟨q, hdone, hplace, hq⟩ :=
    readNames_of_leg follow [] (Path.origin_stands path) hplain hroom hleg'
  have hp : q.absolute s.cwd = p := by
    rw [hq.absolute hs, hplace, ← hlocates.absolute]
  refine (documentPath_eq_ok_iff hpath).mpr ⟨anyLink_of_leg hplain hfits hleg,
    canonical_eq_ok.mpr ⟨q, [], hfollow ▸ hdone, hp.symm⟩, ⟨p.parts, f, hlocates.leads⟩,
    isUnder_iff.mpr ⟨hlocates.absolute, hinside⟩, isMarkdownSuffix_iff.mpr hsuffix⟩

/-- **Paths stay below the base.**  What is taken is the canonical location of a Markdown file below
the base: absolute, without `..`, no part of it a link, and leading to the file.  A path is taken
exactly if no part of it is a link, it leads to a regular file, and that file's location is below
the base and has a suffix of Markdown, unless a path is taken on which a file stands before a
`..`. -/
theorem documentPath_contained (hs : s.Grounded) (hpath : homes.expand (Path.parse raw) = .ok path)
    (base : Place) :
    (∀ p, documentPath s none homes raw ⟨.slash, base⟩ = .ok p →
      ∃ f, s.Locates p f ∧ base <+: p.parts ∧
        String.ofList (Text.lower p.suffix) ∈ markdownSuffixes) ∧
    ((∀ p, documentPath s none homes raw ⟨.slash, base⟩ = .ok p ↔ s.Accepts path base p) ↔
      ¬ (s.PassesFile path ∧ ∃ p, documentPath s none homes raw ⟨.slash, base⟩ = .ok p)) := by
  refine ⟨fun p h => documentPath_locates hs hpath h, ?_⟩
  constructor
  · rintro hall ⟨hpass, p, htaken⟩
    exact hpass.not_accepts (expand_plain (Path.parse_plain raw) hpath) ((hall p).mp htaken)
  · intro hnot p
    refine ⟨fun htaken => accepts_of_documentPath hs hpath htaken fun hpass => ?_,
      documentPath_of_accepts hs hpath⟩
    exact hnot ⟨hpass, p, htaken⟩

/-- A root directory with two documents and a link to one of them. -/
def shelf : Disk :=
  { tree := ⟨[(["a.md"], .file ⟨1, 0o644, 0, []⟩),
      (["doc.md"], .file ⟨2, 0o640, 0, Text.Utf8.encode "::: n\n:::\n".toList⟩),
      (["link.md"], .link "doc.md")]⟩
    nextInode := 3 }

theorem shelf_grounded : shelf.Grounded :=
  ⟨fun _ hname => absurd hname List.not_mem_nil, rfl⟩

theorem shelf_contained :
    shelf.Grounded ∧
      Homes.expand ⟨"/", []⟩ (Path.parse "doc.md") = .ok ⟨.none, ["doc.md"]⟩ ∧
      documentPath shelf none ⟨"/", []⟩ "doc.md" ⟨.slash, []⟩ = .ok ⟨.slash, ["doc.md"]⟩ ∧
      shelf.Accepts ⟨.none, ["doc.md"]⟩ [] ⟨.slash, ["doc.md"]⟩ ∧
      Homes.expand ⟨"/", []⟩ (Path.parse "a.md/../doc.md") = .ok ⟨.none, ["a.md", "..", "doc.md"]⟩ ∧
      ((∀ p, documentPath shelf none ⟨"/", []⟩ "a.md/../doc.md" ⟨.slash, []⟩ = .ok p ↔
          shelf.Accepts ⟨.none, ["a.md", "..", "doc.md"]⟩ [] p) ↔
        ¬ (shelf.PassesFile ⟨.none, ["a.md", "..", "doc.md"]⟩ ∧
          ∃ p, documentPath shelf none ⟨"/", []⟩ "a.md/../doc.md" ⟨.slash, []⟩ = .ok p)) := by
  have hdirect : Homes.expand ⟨"/", []⟩ (Path.parse "doc.md") = .ok ⟨.none, ["doc.md"]⟩ := by
    decide +kernel
  have hbeside : Homes.expand ⟨"/", []⟩ (Path.parse "a.md/../doc.md") =
      .ok ⟨.none, ["a.md", "..", "doc.md"]⟩ := by decide +kernel
  have htaken : documentPath shelf none ⟨"/", []⟩ "doc.md" ⟨.slash, []⟩ =
      .ok ⟨.slash, ["doc.md"]⟩ := by decide +kernel
  -- there is no `..` in the first path
  have hpass : ¬ shelf.PassesFile ⟨.none, ["doc.md"]⟩ := by
    rintro ⟨before, after, place, f, hparts, -⟩
    have hup : ".." ∈ before ++ ".." :: after := List.mem_append_right before List.mem_cons_self
    rw [← hparts] at hup
    exact absurd hup (by decide)
  have haccepts := (documentPath_contained shelf_grounded hdirect []).2.mpr fun h => hpass h.1
  exact ⟨shelf_grounded, hdirect, htaken, (haccepts _).mp htaken, hbeside,
    (documentPath_contained shelf_grounded hbeside []).2⟩

/-- Beside a file a document is taken though the system finds nothing there, and beside a file a
link is followed that is refused otherwise. -/
theorem besideFile_taken :
    documentPath shelf none ⟨"/", []⟩ "a.md/../doc.md" ⟨.slash, []⟩ = .ok ⟨.slash, ["doc.md"]⟩ ∧
      shelf.stat "a.md/../doc.md" =
        .error (.system ⟨.notDirectory, some "a.md/../doc.md"⟩) ∧
      ¬ shelf.Accepts ⟨.none, ["a.md", "..", "doc.md"]⟩ [] ⟨.slash, ["doc.md"]⟩ ∧
      documentPath shelf none ⟨"/", []⟩ "a.md/../link.md" ⟨.slash, []⟩ = .ok ⟨.slash, ["doc.md"]⟩ ∧
      documentPath shelf none ⟨"/", []⟩ "link.md" ⟨.slash, []⟩ =
        .error (.isLink ⟨.none, ["link.md"]⟩) := by
  have hstat : shelf.stat "a.md/../doc.md" =
      .error (.system ⟨.notDirectory, some "a.md/../doc.md"⟩) := by decide +kernel
  refine ⟨by decide +kernel, hstat, fun haccepts => ?_, by decide +kernel, by decide +kernel⟩
  obtain ⟨f, hleads, -⟩ := haccepts.leads
  have htext : Path.text ⟨.none, ["a.md", "..", "doc.md"]⟩ = "a.md/../doc.md" := by decide +kernel
  rw [htext, hstat] at hleads
  cases hleads

end DirectiveFences.Files
