/-
Written paths and the walks along them.

A path is looked up by its text, and the walk splits the text again.  What comes back are
the parts of the path behind a few names that say nothing: the empty ones of the slashes in
front, or the single point of an empty path.  A walk passes over those, so from here on a
path can be followed part by part (`Tree.find_text_eq_ok`).

The one trap is at the end of a text, where a name that says nothing does count: a slash
behind the last name asks for a directory.  The text of a path has none there.
-/
import DirectiveFences.Proofs.GuardedFile
import DirectiveFences.Files.Containment

namespace DirectiveFences.Files

/-! ## Splitting at slashes -/

theorem splitNames_ne_nil (cs : List Char) : splitNames cs ≠ [] := by
  cases cs with
  | nil => exact List.cons_ne_nil _ _
  | cons c cs =>
      unfold splitNames
      split
      · exact List.cons_ne_nil _ _
      · split <;> exact List.cons_ne_nil _ _

theorem splitNames_slash (cs : List Char) : splitNames ('/' :: cs) = [] :: splitNames cs := by
  obtain ⟨name, names, hcons⟩ := List.exists_cons_of_ne_nil (splitNames_ne_nil cs)
  rw [splitNames, hcons]
  rfl

theorem splitNames_of_not_mem {cs : List Char} (h : '/' ∉ cs) : splitNames cs = [cs] := by
  induction cs with
  | nil => rfl
  | cons c cs ih =>
      rw [List.mem_cons, not_or] at h
      rw [splitNames, ih h.2]
      simp only [if_neg (Ne.symm h.1)]

theorem splitNames_append_slash {cs : List Char} (h : '/' ∉ cs) (rest : List Char) :
    splitNames (cs ++ '/' :: rest) = cs :: splitNames rest := by
  induction cs with
  | nil => exact splitNames_slash rest
  | cons c cs ih =>
      rw [List.mem_cons, not_or] at h
      rw [List.cons_append, splitNames, ih h.2]
      simp only [if_neg (Ne.symm h.1)]

theorem slash_not_mem_of_mem_splitNames {cs name : List Char} (h : name ∈ splitNames cs) :
    '/' ∉ name := by
  induction cs generalizing name with
  | nil =>
      rw [List.mem_singleton.mp h]
      exact List.not_mem_nil
  | cons c cs ih =>
      by_cases hc : c = '/'
      · rw [hc, splitNames_slash] at h
        rcases List.mem_cons.mp h with rfl | h
        · exact List.not_mem_nil
        · exact ih h
      · obtain ⟨first, names, hnames⟩ := List.exists_cons_of_ne_nil (splitNames_ne_nil cs)
        simp only [splitNames, hnames, if_neg hc] at h
        rw [hnames] at ih
        rcases List.mem_cons.mp h with rfl | h
        · exact fun hmem => (List.mem_cons.mp hmem).elim (fun heq => hc heq.symm)
            (ih List.mem_cons_self)
        · exact ih (List.mem_cons_of_mem _ h)

theorem splitNames_intercalate {names : List (List Char)} (hne : names ≠ [])
    (h : ∀ name ∈ names, '/' ∉ name) : splitNames (['/'].intercalate names) = names := by
  induction names with
  | nil => exact absurd rfl hne
  | cons name names ih =>
      have hname := h name List.mem_cons_self
      cases names with
      | nil => rw [List.intercalate_singleton, splitNames_of_not_mem hname]
      | cons next names =>
          rw [List.intercalate_cons_cons, List.append_assoc, List.singleton_append,
            splitNames_append_slash hname, ih (List.cons_ne_nil _ _)]
          exact fun n hn => h n (List.mem_cons_of_mem _ hn)

theorem namesOf_intercalate {names : List String} (hne : names ≠ [])
    (h : ∀ name ∈ names, '/' ∉ name.toList) : namesOf ("/".intercalate names) = names := by
  have hsplit : splitNames ("/".intercalate names).toList = names.map String.toList := by
    rw [String.toList_intercalate]
    refine splitNames_intercalate (by simpa using hne) fun name hname => ?_
    obtain ⟨n, hn, rfl⟩ := List.mem_map.mp hname
    exact h n hn
  rw [namesOf, hsplit, List.map_map]
  exact (List.map_congr_left fun n _ => String.ofList_toList).trans (List.map_id names)

theorem slash_not_mem_of_mem_namesOf {text name : String} (h : name ∈ namesOf text) :
    '/' ∉ name.toList := by
  obtain ⟨cs, hcs, rfl⟩ := List.mem_map.mp h
  rw [String.toList_ofList]
  exact slash_not_mem_of_mem_splitNames hcs

theorem namesOf_slash (text : String) : namesOf ("/" ++ text) = "" :: namesOf text := by
  have hcons : ("/" ++ text).toList = '/' :: text.toList := by
    rw [String.toList_append]
    rfl
  rw [namesOf, hcons, splitNames_slash]
  rfl

/-! ## Paths whose parts say something -/

namespace Path

variable {p : Path} {name : String}

/-- The parts of a path all say something and hold no slash.  Every path that was read from a text
is so. -/
def Plain (p : Path) : Prop :=
  ∀ name ∈ p.parts, isPart name = true ∧ '/' ∉ name.toList

theorem parse_plain (text : String) : (parse text).Plain := fun _ hname =>
  have hmem := List.mem_filter.mp hname
  ⟨hmem.2, slash_not_mem_of_mem_namesOf hmem.1⟩

theorem Plain.child (h : p.Plain) (hname : isPart name = true ∧ '/' ∉ name.toList) :
    (p.child name).Plain := fun n hn => by
  rcases List.mem_append.mp hn with hn | hn
  · exact h n hn
  · rw [List.mem_singleton.mp hn]
    exact hname

theorem Plain.of_subset {q : Path} (h : p.Plain) (hsub : q.parts ⊆ p.parts) : q.Plain :=
  fun n hn => h n (hsub hn)

theorem mem_self_parents_iff {q : Path} :
    q ∈ p :: p.parents ↔ ∃ n ≤ p.parts.length, q = { p with parts := p.parts.take n } := by
  simp only [parents, List.mem_cons, List.mem_reverse, List.mem_map, List.mem_range]
  constructor
  · rintro (rfl | ⟨n, hn, rfl⟩)
    · exact ⟨q.parts.length, Nat.le_refl _, by rw [List.take_length]⟩
    · exact ⟨n, Nat.le_of_lt hn, rfl⟩
  · rintro ⟨n, hn, rfl⟩
    rcases Nat.lt_or_eq_of_le hn with hlt | rfl
    · exact Or.inr ⟨n, hlt, rfl⟩
    · exact Or.inl (by rw [List.take_length])

theorem self_mem_parents_of_prefix {parts : List String} (h : parts <+: p.parts) :
    { p with parts := parts } ∈ p :: p.parents :=
  mem_self_parents_iff.mpr ⟨parts.length, h.length_le, by
    rw [← List.prefix_iff_eq_take.mp h]⟩

theorem Plain.namesOf_text (h : p.Plain) :
    ∃ lead, namesOf p.text = lead ++ p.parts ∧ ∀ name ∈ lead, isPart name = false := by
  obtain ⟨root, parts⟩ := p
  have hbody : ∃ lead, namesOf ("/".intercalate parts) = lead ++ parts ∧
      ∀ name ∈ lead, isPart name = false := by
    cases parts with
    | nil => exact ⟨[""], rfl, by decide⟩
    | cons name parts =>
        refine ⟨[], namesOf_intercalate (List.cons_ne_nil _ _) fun n hn => (h n hn).2, ?_⟩
        exact fun _ hmem => absurd hmem List.not_mem_nil
  have hslash : ∀ text, (∃ lead, namesOf text = lead ++ parts ∧
        ∀ name ∈ lead, isPart name = false) →
      ∃ lead, namesOf ("/" ++ text) = lead ++ parts ∧ ∀ name ∈ lead, isPart name = false := by
    rintro text ⟨lead, hlead, hnone⟩
    refine ⟨"" :: lead, by rw [namesOf_slash, hlead, List.cons_append], fun name hname => ?_⟩
    rcases List.mem_cons.mp hname with rfl | hname
    · rfl
    · exact hnone name hname
  unfold text
  cases root with
  | none =>
      cases parts with
      | nil => exact ⟨["."], rfl, by decide⟩
      | cons name parts =>
          simpa only [Root.text, List.cons_ne_nil, and_false, if_false, String.empty_append] using
            hbody
  | slash =>
      simpa only [Root.text, reduceCtorEq, false_and, if_false] using hslash _ hbody
  | doubleSlash =>
      have htext : ("//" : String) = "/" ++ "/" := rfl
      simpa only [Root.text, reduceCtorEq, false_and, if_false, htext, String.append_assoc] using
        hslash _ (hslash _ hbody)

/-- The place at which a walk along a path begins. -/
def start (p : Path) (cwd : Place) : Place :=
  if p.root = .none then cwd else []

theorem Plain.startOf_text (h : p.Plain) (cwd : Place) : startOf cwd p.text = p.start cwd := by
  obtain ⟨root, parts⟩ := p
  unfold startOf start text
  cases root with
  | slash => simp [Root.text, String.toList_append]
  | doubleSlash => simp [Root.text, String.toList_append]
  | none =>
      cases parts with
      | nil => rfl
      | cons name parts =>
          obtain ⟨hpart, hslash⟩ := h name List.mem_cons_self
          have hne : name ≠ "" := fun heq => by
            rw [heq] at hpart
            exact absurd hpart (by decide)
          obtain ⟨c, cs, hcs⟩ := List.exists_cons_of_ne_nil
            (fun hnil => hne (String.toList_eq_nil_iff.mp hnil))
          have hhead : ("/".intercalate (name :: parts)).toList.head? = some c := by
            rw [String.toList_intercalate, List.map_cons]
            cases parts with
            | nil => rw [List.map_nil, List.intercalate_singleton, hcs, List.head?_cons]
            | cons next parts =>
                rw [List.map_cons, List.intercalate_cons_cons, hcs]
                rfl
          have hc : c ≠ '/' := fun heq => hslash (by rw [hcs, heq]; exact List.mem_cons_self)
          simp only [Root.text, List.cons_ne_nil, and_false, if_false, String.empty_append, hhead,
            Option.some.injEq, if_neg hc, if_true]

theorem Plain.text_ne_empty (h : p.Plain) : p.text ≠ "" := fun heq => by
  obtain ⟨lead, hlead, hnone⟩ := h.namesOf_text
  rw [heq] at hlead
  obtain ⟨root, parts⟩ := p
  cases parts with
  | nil => cases root <;> exact absurd heq (by decide)
  | cons name parts =>
      have hmem : name ∈ namesOf "" := by
        rw [hlead]
        exact List.mem_append_right _ List.mem_cons_self
      have hname : name = "" := List.mem_singleton.mp hmem
      exact absurd (h name List.mem_cons_self).1 (by rw [hname]; decide)

/-! ## Texts that can stand in a call -/

/-- The text has no NUL and is not too long. -/
def Fits (p : Path) : Prop :=
  '\x00' ∉ p.text.toList ∧ p.text.utf8ByteSize < pathLimit

theorem Plain.callable_iff (h : p.Plain) : Callable p.text ↔ p.Fits :=
  ⟨fun hcall => ⟨hcall.no_null, hcall.short⟩, fun hfits => ⟨hfits.1, h.text_ne_empty, hfits.2⟩⟩

/-- The bytes of some parts, each with a slash. -/
def extent : List String → Nat
  | [] => 0
  | name :: names => name.utf8ByteSize + 1 + extent names

theorem extent_append (parts more : List String) :
    extent (parts ++ more) = extent parts + extent more := by
  induction parts with
  | nil => exact (Nat.zero_add _).symm
  | cons name parts ih => rw [List.cons_append, extent, extent, ih, ← Nat.add_assoc]

theorem extent_singleton (name : String) : extent [name] = name.utf8ByteSize + 1 := rfl

theorem intercalate_cons_cons (first next : String) (parts : List String) :
    "/".intercalate (first :: next :: parts) =
      first ++ "/" ++ "/".intercalate (next :: parts) := by
  rw [← String.toList_inj, String.toList_append, String.toList_append, String.toList_intercalate,
    String.toList_intercalate]
  exact List.intercalate_cons_cons

theorem intercalate_singleton (name : String) : "/".intercalate [name] = name := by
  rw [← String.toList_inj, String.toList_intercalate]
  exact List.intercalate_singleton

theorem size_intercalate {parts : List String} (hne : parts ≠ []) :
    ("/".intercalate parts).utf8ByteSize + 1 = extent parts := by
  induction parts with
  | nil => exact absurd rfl hne
  | cons first parts ih =>
      cases parts with
      | nil => rw [intercalate_singleton, extent_singleton]
      | cons next parts =>
          have hslash : ("/" : String).utf8ByteSize = 1 := rfl
          have hcons : extent (first :: next :: parts) =
              first.utf8ByteSize + 1 + extent (next :: parts) := rfl
          have htail := ih (List.cons_ne_nil next parts)
          rw [intercalate_cons_cons, String.utf8ByteSize_append, String.utf8ByteSize_append, hcons]
          omega

theorem null_mem_intercalate {parts : List String}
    (h : '\x00' ∈ ("/".intercalate parts).toList) : ∃ name ∈ parts, '\x00' ∈ name.toList := by
  induction parts with
  | nil => exact absurd h (by decide)
  | cons first parts ih =>
      cases parts with
      | nil =>
          rw [intercalate_singleton] at h
          exact ⟨first, List.mem_cons_self, h⟩
      | cons next parts =>
          rw [intercalate_cons_cons, String.toList_append, String.toList_append,
            List.append_assoc, List.mem_append, List.mem_append] at h
          rcases h with h | h | h
          · exact ⟨first, List.mem_cons_self, h⟩
          · exact absurd h (by decide)
          · obtain ⟨name, hname, hnull⟩ := ih h
            exact ⟨name, List.mem_cons_of_mem _ hname, hnull⟩

theorem null_not_mem_text (h : ∀ name ∈ p.parts, '\x00' ∉ name.toList) :
    '\x00' ∉ p.text.toList := by
  unfold text
  simp only
  split
  · decide
  · rw [String.toList_append]
    intro hmem
    rcases List.mem_append.mp hmem with hmem | hmem
    · cases hroot : p.root <;> rw [hroot] at hmem <;> exact absurd hmem (by decide)
    · obtain ⟨name, hname, hnull⟩ := null_mem_intercalate hmem
      exact h name hname hnull

theorem text_of_ne_nil (h : p.parts ≠ []) : p.text = p.root.text ++ "/".intercalate p.parts :=
  if_neg fun hboth => h hboth.2

theorem fits_nil (root : Root) : Fits ⟨root, []⟩ := by
  cases root <;> exact ⟨by decide, by decide⟩

theorem fits_of_extent (hne : p.parts ≠ []) (hnull : ∀ name ∈ p.parts, '\x00' ∉ name.toList)
    (hroom : p.root.text.utf8ByteSize + extent p.parts ≤ pathLimit) : p.Fits := by
  refine ⟨null_not_mem_text hnull, ?_⟩
  have hsize := size_intercalate hne
  rw [text_of_ne_nil hne, String.utf8ByteSize_append]
  omega

theorem Fits.extent_le (h : p.Fits) : p.root.text.utf8ByteSize + extent p.parts ≤ pathLimit := by
  by_cases hne : p.parts = []
  · rw [hne]
    cases p.root <;> decide
  · have hlimit := h.2
    have hsize := size_intercalate hne
    rw [text_of_ne_nil hne, String.utf8ByteSize_append] at hlimit
    omega

theorem mem_intercalate {parts : List String} {name : String} (hname : name ∈ parts) {c : Char}
    (hc : c ∈ name.toList) : c ∈ ("/".intercalate parts).toList := by
  induction parts with
  | nil => exact absurd hname List.not_mem_nil
  | cons first parts ih =>
      cases parts with
      | nil =>
          rw [List.mem_singleton.mp hname] at hc
          rw [intercalate_singleton]
          exact hc
      | cons next parts =>
          rw [intercalate_cons_cons, String.toList_append, String.toList_append,
            List.append_assoc, List.mem_append, List.mem_append]
          rcases List.mem_cons.mp hname with rfl | hname
          · exact Or.inl hc
          · exact Or.inr (Or.inr (ih hname))

/-- No part of a path that fits has a NUL in it. -/
theorem Fits.null_not_mem (h : p.Fits) {name : String} (hname : name ∈ p.parts) :
    '\x00' ∉ name.toList := fun hnull => by
  refine h.1 ?_
  rw [text_of_ne_nil (List.ne_nil_of_mem hname), String.toList_append]
  exact List.mem_append_right _ (mem_intercalate hname hnull)

theorem Fits.of_prefix (h : p.Fits) {parts : List String} (hinitial : parts <+: p.parts) :
    Fits { p with parts := parts } := by
  by_cases hne : parts = []
  · rw [hne]
    exact fits_nil p.root
  · obtain ⟨more, hmore⟩ := hinitial
    refine fits_of_extent hne (fun name hname => h.null_not_mem ?_) ?_
    · rw [← hmore]
      exact List.mem_append_left _ hname
    · have hroom := h.extent_le
      rw [← hmore, extent_append] at hroom
      simp only
      omega

end Path

/-! ## Walks along paths -/

namespace Tree

variable {t : Tree} {follow : Bool} {dir : Place} {names : List String}

theorem leg_lead {lead : List String} (h : ∀ name ∈ lead, isPart name = false) :
    t.leg follow dir (lead ++ names) = t.leg follow dir names := by
  induction lead with
  | nil => rfl
  | cons name lead ih =>
      rw [List.cons_append, leg_skip (h name List.mem_cons_self)]
      exact ih fun n hn => h n (List.mem_cons_of_mem _ hn)

theorem walk_congr_leg {links : Nat} {dir' : Place} {names' : List String}
    (h : t.leg follow dir names = t.leg follow dir' names') :
    t.walk follow links dir names = t.walk follow links dir' names' := by
  cases links <;> rw [Tree.walk, Tree.walk, h]

theorem walk_of_arrives {links : Nat} {place : Place} {node : Node}
    (h : t.leg follow dir names = .arrives place node) :
    t.walk follow links dir names = .ok (.taken place node) := by
  cases links <;> rw [Tree.walk, h]

/-- The names in the text of a path lead where its parts do. -/
theorem walk_text {p : Path} (h : p.Plain) (cwd : Place) :
    t.walk follow linkLimit (startOf cwd p.text) (namesOf p.text) =
      t.walk follow linkLimit (p.start cwd) p.parts := by
  obtain ⟨lead, hlead, hnone⟩ := h.namesOf_text
  rw [h.startOf_text, hlead]
  exact walk_congr_leg (leg_lead hnone)

theorem find_text_eq_ok {p : Path} (h : p.Plain) {cwd : Place} {spot : Spot} :
    t.find follow cwd p.text = .ok spot ↔
      p.Fits ∧ t.walk follow linkLimit (p.start cwd) p.parts = .ok spot := by
  rw [find_eq_ok_iff, walk_text h]
  exact and_congr_left fun _ => h.callable_iff

/-- What stands at the end of a path is what a walk along its parts comes to. -/
theorem look_text_eq_ok {p : Path} (h : p.Plain) {cwd place : Place} {node : Node} :
    t.look follow cwd p.text = .ok (place, node) ↔
      p.Fits ∧ t.walk follow linkLimit (p.start cwd) p.parts = .ok (.taken place node) := by
  rw [← find_text_eq_ok h]
  refine ⟨find_of_look, fun hfind => ?_⟩
  rw [Tree.look, hfind]

end Tree

end DirectiveFences.Files
