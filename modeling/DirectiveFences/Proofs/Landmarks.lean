/-
The scan for protected ranges as a walk past landmarks.

Block by block and piece by piece, the scan comes upon things that it records or passes
over.  Here they stand in one list, each code span with the place where it really is; the
scan does not know these places, it looks for the spans again from where it has come to.
`found` is what it records, and `InSight` says when this is where the spans are: no run of
backticks that could be taken for a span stands between the scan and the span.  A span that
is missed may still lie in a range recorded for another one, but then some other backtick
touches a span (`covered_iff_inSight`).
-/
import DirectiveFences.Protected.Scan
import DirectiveFences.Proofs.Search

namespace DirectiveFences.Scan

open CodeSpan

/-- What the scan comes upon on its way through a document. -/
inductive Landmark
  /-- A block of literal text. -/
  | literal (r : Range)
  /-- A block of text. -/
  | prose (r : Range)
  /-- Raw HTML in a block of text that ends at `limit`. -/
  | html (limit : Nat) (content : List Char)
  | autolink (limit : Nat)
  /-- A code span with delimiters of length `n`, and where it stands. -/
  | code (n limit : Nat) (span : Range)
deriving DecidableEq, Repr

/-- Where the scan is after a landmark, and what it records there. -/
def Landmark.meet (source : Array Char) (c : Nat) : Landmark → Nat × Option Range
  | .literal r => (max c r.stop, some r)
  | .prose r => (max c r.start, none)
  | .html limit content => (skipHtml source limit content c, none)
  | .autolink limit => (skipAutolink source limit c (limit - c) c, none)
  | .code n limit _ =>
    match find? source (List.replicate n '`') c limit with
    | some r => (r.stop, some r)
    | none => (c, none)

/-- What the scan records on its way past some landmarks, from a place on. -/
def found (source : Array Char) : Nat → List Landmark → List Range
  | _, [] => []
  | c, m :: ms => (m.meet source c).2.toList ++ found source (m.meet source c).1 ms

/-- Where a landmark stands, if it has to be recorded. -/
def Landmark.place? : Landmark → Option Range
  | .literal r => some r
  | .code _ _ r => some r
  | _ => none

/-- The places of the landmarks that have to be recorded. -/
def places (ms : List Landmark) : List Range :=
  ms.filterMap Landmark.place?

/-- A code span as it stands in the source: the first run of exactly `n` backticks after its
opening one, which no backslash escapes, is its closing one.  Nothing is said of what stands before
the span and behind it. -/
structure Stands (source : Array Char) (n limit : Nat) (r : Range) : Prop where
  pos : 0 < n
  inside : r.start + n < r.stop - n
  within : r.stop ≤ limit
  limit_le : limit ≤ source.size
  opening : ∀ k, k < n → source[r.start + k]? = some '`'
  openEnd : source[r.start + n]? ≠ some '`'
  unescaped : isEscaped source r.start = false
  closing : ∀ k, k < n → source[r.stop - n + k]? = some '`'
  closeStart : source[r.stop - n - 1]? ≠ some '`'
  shortest : ∀ p, r.start + n ≤ p → p < r.stop - n → ¬ Delimits source n limit p

/-- Nothing between a place and a code span can be taken for it, and no other backtick touches
it. -/
structure Clear (source : Array Char) (n limit c : Nat) (r : Range) : Prop where
  ahead : c ≤ r.start
  freeBefore : r.start = 0 ∨ source[r.start - 1]? ≠ some '`'
  freeAfter : r.stop = limit ∨ source[r.stop]? ≠ some '`'
  noDecoy : ∀ p, c ≤ p → p < r.start → ¬ Opens source n limit p

/-- The search finds a code span from the places from which it is in clear sight, and from no
others. -/
theorem first_iff_clear {source : Array Char} {n limit c : Nat} {r : Range}
    (h : Stands source n limit r) : First source n limit c r ↔ Clear source n limit c r := by
  have hinside := h.inside
  have hend : r.stop - n + n = r.stop := by omega
  constructor
  · intro hfirst
    refine ⟨hfirst.from_, hfirst.opens.delimits.before, ?_, hfirst.leftmost⟩
    have := hfirst.closes.after
    rwa [hend] at this
  · intro hclear
    have hwithin := h.within
    refine ⟨hclear.ahead, ⟨⟨h.opening, by omega, hclear.freeBefore, Or.inr h.openEnd⟩, h.unescaped⟩,
      hclear.noDecoy, by omega, ⟨h.closing, by omega, Or.inr h.closeStart, ?_⟩, h.shortest⟩
    rw [hend]
    exact hclear.freeAfter

/-- A landmark that is as it should be. -/
def Landmark.Proper (source : Array Char) : Landmark → Prop
  | .literal r => r.start < r.stop
  | .code n limit r => Stands source n limit r
  | _ => True

/-- A landmark that comes before another one.  Two code spans may have a backtick in common. -/
def Landmark.Before : Landmark → Landmark → Prop
  | .literal r, .literal s => r.stop ≤ s.start
  | .literal r, .code _ _ s => r.stop ≤ s.start
  | .code _ limit _, .literal s => limit ≤ s.start
  | .code _ _ r, .code _ _ s => r.stop ≤ s.start + 1
  | _, _ => True

/-- Whether a landmark is found where it is. -/
def Landmark.InSight (source : Array Char) (c : Nat) : Landmark → Prop
  | .code n limit r => Clear source n limit c r
  | _ => True

/-- Where the scan is after a landmark that it finds where it is. -/
def Landmark.reach (source : Array Char) (c : Nat) : Landmark → Nat
  | .code _ _ r => r.stop
  | m => (m.meet source c).1

/-- Each code span on the way is in clear sight when the scan comes to it. -/
def InSight (source : Array Char) : Nat → List Landmark → Prop
  | _, [] => True
  | c, m :: ms => m.InSight source c ∧ InSight source (m.reach source c) ms

/-! ## One landmark -/

section

variable {source : Array Char} {c : Nat} {m : Landmark} {ms : List Landmark}

theorem meet_code_iff {n limit : Nat} {r : Range} (h : Stands source n limit r) :
    (Landmark.code n limit r).meet source c = (r.stop, some r) ↔ Clear source n limit c r := by
  rw [← first_iff_clear h, ← find?_eq_some_iff h.pos h.limit_le, Landmark.meet]
  cases find? source (List.replicate n '`') c limit with
  | none => exact ⟨fun heq => absurd (congrArg Prod.snd heq) nofun, nofun⟩
  | some s =>
      constructor
      · exact fun heq => (Prod.mk.inj heq).2
      · intro heq
        rw [Option.some.inj heq]

/-- A landmark is in sight when the scan records it and goes on behind it. -/
theorem inSight_iff_meet (h : m.Proper source) :
    m.InSight source c ↔ m.meet source c = (m.reach source c, m.place?) := by
  cases m with
  | code n limit r => exact (meet_code_iff h).symm
  | literal | prose | html | autolink => exact ⟨fun _ => rfl, fun _ => trivial⟩

theorem le_of_findText {cs : List Char} {room pos p : Nat}
    (h : findText source cs room pos = some p) : pos ≤ p := by
  induction room generalizing pos with
  | zero => cases h
  | succ room ih =>
      rw [findText] at h
      split at h
      · exact Nat.le_of_eq (Option.some.inj h)
      · exact Nat.le_of_succ_le (ih h)

theorem le_skipHtml (source : Array Char) (limit : Nat) (content : List Char) (pos : Nat) :
    pos ≤ skipHtml source limit content pos := by
  rw [skipHtml]
  generalize Text.split content = lines
  induction lines generalizing pos with
  | nil => exact Nat.le_refl pos
  | cons line lines ih =>
      rw [List.foldl_cons]
      refine Nat.le_trans ?_ (ih _)
      split
      · rename_i p hp
        exact Nat.le_trans (le_of_findText hp) (Nat.le_add_right ..)
      · exact Nat.le_refl pos

theorem lt_of_addressEnd {room pos p : Nat} (h : addressEnd source room pos = some p) :
    pos < p := by
  induction room generalizing pos with
  | zero => cases h
  | succ room ih =>
      rw [addressEnd] at h
      split at h
      · cases h
      · split at h
        · exact Nat.lt_of_succ_le (Nat.le_of_eq (Option.some.inj h))
        · split at h
          · cases h
          · exact Nat.lt_of_succ_lt (ih h)

theorem le_skipAutolink {limit start room pos : Nat} (h : start ≤ pos) :
    start ≤ skipAutolink source limit start room pos := by
  induction room generalizing pos with
  | zero => exact Nat.le_refl start
  | succ room ih =>
      rw [skipAutolink]
      split
      · rename_i stop hstop
        split at hstop
        · have := lt_of_addressEnd hstop
          omega
        · cases hstop
      · exact ih (Nat.le_succ_of_le h)

theorem le_meet (h : m.Proper source) : c ≤ (m.meet source c).1 := by
  cases m with
  | literal r => exact Nat.le_max_left ..
  | prose r => exact Nat.le_max_left ..
  | html limit content => exact le_skipHtml ..
  | autolink limit => exact le_skipAutolink (Nat.le_refl c)
  | code n limit r =>
      rw [Landmark.meet]
      split
      · rename_i s hs
        have hs := (find?_eq_some_iff h.pos h.limit_le).mp hs
        have := hs.from_
        have := hs.inside
        show c ≤ s.stop
        omega
      · exact Nat.le_refl c

/-- A code span that the scan records is the first one from where it was, and it goes on behind
it. -/
theorem of_meet_code {n limit : Nat} {r s : Range} (h : Stands source n limit r)
    (hs : ((Landmark.code n limit r).meet source c).2 = some s) :
    First source n limit c s ∧ ((Landmark.code n limit r).meet source c).1 = s.stop := by
  rw [Landmark.meet] at hs ⊢
  cases hf : find? source (List.replicate n '`') c limit with
  | none => rw [hf] at hs; cases hs
  | some s' =>
      rw [hf] at hs
      obtain rfl := Option.some.inj hs
      exact ⟨(find?_eq_some_iff h.pos h.limit_le).mp hf, rfl⟩

/-! ## All landmarks -/

theorem mem_found {s : Range} (hproper : ∀ m ∈ ms, m.Proper source) (h : s ∈ found source c ms) :
    Landmark.literal s ∈ ms ∨ c ≤ s.start := by
  induction ms generalizing c with
  | nil => cases h
  | cons m ms ih =>
      rw [List.forall_mem_cons] at hproper
      rw [found, List.mem_append, Option.mem_toList] at h
      rcases h with h | h
      · cases m with
        | literal r => exact Or.inl (Option.some.inj h ▸ List.mem_cons_self)
        | code n limit r => exact Or.inr (of_meet_code hproper.1 h).1.from_
        | prose | html | autolink => cases h
      · rcases ih hproper.2 h with hmem | hle
        · exact Or.inl (List.mem_cons_of_mem m hmem)
        · exact Or.inr (Nat.le_trans (le_meet hproper.1) hle)

theorem found_apart (hproper : ∀ m ∈ ms, m.Proper source)
    (hbefore : ms.Pairwise Landmark.Before) :
    (found source c ms).Pairwise (fun r s => r.stop ≤ s.start) ∧
      ∀ r ∈ found source c ms, r.start < r.stop := by
  induction ms generalizing c with
  | nil => exact ⟨.nil, nofun⟩
  | cons m ms ih =>
      rw [List.forall_mem_cons] at hproper
      obtain ⟨hlater, hbefore⟩ := List.pairwise_cons.mp hbefore
      obtain ⟨hapart, hproperFound⟩ := ih (c := (m.meet source c).1) hproper.2 hbefore
      rw [found]
      cases hrec : (m.meet source c).2 with
      | none => exact ⟨hapart, hproperFound⟩
      | some r =>
          rw [Option.toList_some, List.singleton_append, List.pairwise_cons, List.forall_mem_cons]
          refine ⟨⟨fun s hs => ?_, hapart⟩, ?_, hproperFound⟩
          · cases m with
            | literal r' =>
                obtain rfl := Option.some.inj hrec
                rcases mem_found hproper.2 hs with hmem | hle
                · exact hlater _ hmem
                · exact Nat.le_trans (Nat.le_max_right c _) hle
            | code n limit r' =>
                obtain ⟨hfirst, hnext⟩ := of_meet_code hproper.1 hrec
                have hlimit := hfirst.stop_le
                rcases mem_found hproper.2 hs with hmem | hle
                · exact Nat.le_trans hlimit (hlater _ hmem)
                · exact hnext ▸ hle
            | prose | html | autolink => cases hrec
          · cases m with
            | literal r' => exact Option.some.inj hrec ▸ hproper.1
            | code n limit r' => exact (of_meet_code hproper.1 hrec).1.start_lt hproper.1.pos
            | prose | html | autolink => cases hrec

theorem places_cons (m : Landmark) (ms : List Landmark) :
    places (m :: ms) = m.place?.toList ++ places ms := by
  rw [places, places, List.filterMap_cons]
  cases m.place? <;> rfl

theorem length_recorded_le (source : Array Char) (c : Nat) (m : Landmark) :
    (m.meet source c).2.toList.length ≤ m.place?.toList.length := by
  cases m with
  | literal | prose | html | autolink => exact Nat.le_refl _
  | code n limit r =>
      show _ ≤ 1
      cases ((Landmark.code n limit r).meet source c).2 with
      | none => exact Nat.zero_le 1
      | some s => exact Nat.le_refl 1

theorem length_found_le (source : Array Char) (c : Nat) (ms : List Landmark) :
    (found source c ms).length ≤ (places ms).length := by
  induction ms generalizing c with
  | nil => exact Nat.le_refl 0
  | cons m ms ih =>
      rw [found, places_cons, List.length_append, List.length_append]
      exact Nat.add_le_add (length_recorded_le source c m) (ih _)

theorem inSight_iff_found (hproper : ∀ m ∈ ms, m.Proper source) :
    InSight source c ms ↔ found source c ms = places ms := by
  induction ms generalizing c with
  | nil => exact ⟨fun _ => rfl, fun _ => trivial⟩
  | cons m ms ih =>
      rw [List.forall_mem_cons] at hproper
      rw [InSight, found, places_cons, inSight_iff_meet hproper.1]
      constructor
      · rintro ⟨hmeet, hrest⟩
        rw [hmeet, (ih hproper.2).mp hrest]
      · intro heq
        have hmeet : m.meet source c = (m.reach source c, m.place?) := by
          cases m with
          | literal | prose | html | autolink => rfl
          | code n limit r =>
              have hlen := length_found_le source ((Landmark.code n limit r).meet source c).1 ms
              cases hrec : ((Landmark.code n limit r).meet source c).2 with
              | none =>
                  -- with nothing recorded here, there are too few ranges for the places
                  rw [hrec] at heq
                  have hcount : (found source _ ms).length = (places ms).length + 1 :=
                    congrArg List.length heq
                  omega
              | some s =>
                  rw [hrec] at heq
                  have hs : s = r := (List.cons.inj heq).1
                  have hnext := (of_meet_code hproper.1 hrec).2
                  rw [hs] at hrec hnext
                  exact Prod.ext hnext hrec
        refine ⟨hmeet, (ih hproper.2).mpr ?_⟩
        rw [hmeet] at heq
        exact List.append_cancel_left heq

/-! ## Where the landmarks stand -/

theorem start_lt_of_before {m m' : Landmark} {r s : Range} (hm : m.Proper source)
    (h : m.Before m') (hr : m.place? = some r) (hs : m'.place? = some s) :
    r.start < s.start := by
  cases m with
  | prose | html | autolink => cases hr
  | literal r' =>
      obtain rfl := Option.some.inj hr
      have hlt : r'.start < r'.stop := hm
      cases m' with
      | prose | html | autolink => cases hs
      | literal s' => exact Option.some.inj hs ▸ Nat.lt_of_lt_of_le hlt h
      | code _ _ s' => exact Option.some.inj hs ▸ Nat.lt_of_lt_of_le hlt h
  | code n limit r' =>
      obtain rfl := Option.some.inj hr
      cases m' with
      | prose | html | autolink => cases hs
      | literal s' =>
          obtain rfl := Option.some.inj hs
          have hinside := hm.inside
          have hwithin := hm.within
          have hlimit : limit ≤ s'.start := h
          omega
      | code _ _ s' =>
          obtain rfl := Option.some.inj hs
          have hpos := hm.pos
          have hinside := hm.inside
          have hstop : r'.stop ≤ s'.start + 1 := h
          omega

theorem places_ordered (hproper : ∀ m ∈ ms, m.Proper source)
    (hbefore : ms.Pairwise Landmark.Before) :
    (places ms).Pairwise fun r s => r.start < s.start := by
  refine List.pairwise_filterMap.mpr (hbefore.imp_of_mem ?_)
  exact fun hm _ h r hr s hs => start_lt_of_before (hproper _ hm) h hr hs

theorem eq_of_ordered_of_subset {l l' : List Range}
    (h : l.Pairwise fun r s => r.start < s.start) (h' : l'.Pairwise fun r s => r.start < s.start)
    (hsub : l ⊆ l') (hlen : l'.length ≤ l.length) : l = l' := by
  have hnodup : ∀ {l : List Range}, l.Pairwise (fun r s => r.start < s.start) → l.Nodup :=
    fun h => List.Pairwise.imp (fun {r s} (hlt : r.start < s.start) (heq : r = s) =>
      Nat.ne_of_lt hlt (congrArg Range.start heq)) h
  have hsup : l' ⊆ l := by
    intro r hr
    refine Classical.byContradiction fun hnot => ?_
    have hcons : (r :: l) ⊆ l' := List.cons_subset.mpr ⟨hr, hsub⟩
    have := (List.nodup_cons.mpr ⟨hnot, hnodup h⟩).length_le_of_subset hcons
    rw [List.length_cons] at this
    omega
  have hperm : l.Perm l' := (List.perm_ext_iff_of_nodup (hnodup h) (hnodup h')).mpr
    fun r => ⟨fun hr => hsub hr, fun hr => hsup hr⟩
  exact hperm.eq_of_pairwise (fun r s _ _ hrs hsr => absurd hrs (Nat.lt_asymm hsr)) h h'

theorem places_subset_found_iff (hproper : ∀ m ∈ ms, m.Proper source)
    (hbefore : ms.Pairwise Landmark.Before) :
    places ms ⊆ found source c ms ↔ InSight source c ms := by
  rw [inSight_iff_found hproper]
  constructor
  · intro hsub
    obtain ⟨hapart, hpos⟩ := found_apart (c := c) hproper hbefore
    have hordered : (found source c ms).Pairwise fun r s => r.start < s.start :=
      hapart.imp_of_mem fun hr _ h => Nat.lt_of_lt_of_le (hpos _ hr) h
    exact (eq_of_ordered_of_subset (places_ordered hproper hbefore) hordered hsub
      (length_found_le source c ms)).symm
  · intro h
    rw [h]
    exact List.Subset.refl _

/-! ## Landmarks that are covered -/

/-- Whether one range holds all of another one. -/
def Covers (s r : Range) : Prop :=
  s.start ≤ r.start ∧ r.stop ≤ s.stop

theorem Covers.refl (r : Range) : Covers r r :=
  ⟨Nat.le_refl _, Nat.le_refl _⟩

/-- No backtick touches a range. -/
def Alone (source : Array Char) (r : Range) : Prop :=
  (r.start = 0 ∨ source[r.start - 1]? ≠ some '`') ∧ source[r.stop]? ≠ some '`'

theorem not_covers_of_before {m' : Landmark} {r s : Range} (hm : m.Proper source)
    (hm' : m'.Proper source) (h : m.Before m') (hr : m.place? = some r) (hs : m'.place? = some s) :
    ¬ Covers r s := by
  intro hcov
  have hle := hcov.2
  cases m with
  | prose | html | autolink => cases hr
  | literal r' =>
      obtain rfl := Option.some.inj hr
      cases m' with
      | prose | html | autolink => cases hs
      | literal s' =>
          obtain rfl := Option.some.inj hs
          have hlt : s'.start < s'.stop := hm'
          have hapart : r'.stop ≤ s'.start := h
          omega
      | code n limit s' =>
          obtain rfl := Option.some.inj hs
          have hinside := hm'.inside
          have hapart : r'.stop ≤ s'.start := h
          omega
  | code n limit r' =>
      obtain rfl := Option.some.inj hr
      have hwithin := hm.within
      cases m' with
      | prose | html | autolink => cases hs
      | literal s' =>
          obtain rfl := Option.some.inj hs
          have hlt : s'.start < s'.stop := hm'
          have hapart : limit ≤ s'.start := h
          omega
      | code n' limit' s' =>
          obtain rfl := Option.some.inj hs
          have hpos := hm'.pos
          have hinside := hm'.inside
          have hapart : r'.stop ≤ s'.start + 1 := h
          omega

theorem places_behind {r : Range} (hm : m.Proper source) (hproper : ∀ m ∈ ms, m.Proper source)
    (hlater : ∀ m' ∈ ms, m.Before m') (hr : m.place? = some r) :
    ∀ s ∈ places ms, r.start < s.start ∧ ¬ Covers r s := by
  intro s hs
  obtain ⟨m', hm', hs⟩ := List.mem_filterMap.mp hs
  exact ⟨start_lt_of_before hm (hlater m' hm') hr hs,
    not_covers_of_before hm (hproper m' hm') (hlater m' hm') hr hs⟩

/-- What the search takes for a code span that stands alone, when it misses it, ends with the
opening run of the span at the latest. -/
theorem stop_le_of_not_clear {n limit : Nat} {r s : Range} (h : Stands source n limit r)
    (halone : Alone source r) (hclear : ¬ Clear source n limit c r) (hc : c ≤ r.start)
    (hs : First source n limit c s) : s.stop ≤ r.start + n := by
  have hinside := h.inside
  have hwithin := h.within
  have hopens : Opens source n limit r.start :=
    ⟨⟨h.opening, by omega, halone.1, Or.inr h.openEnd⟩, h.unescaped⟩
  have hlt : s.start < r.start := by
    refine Nat.lt_of_not_le fun hle => hclear ?_
    refine ⟨hc, halone.1, Or.inr halone.2, fun p hp hlt => ?_⟩
    exact hs.leftmost p hp (Nat.lt_of_lt_of_le hlt hle)
  have hapart := hs.opens.delimits.add_le hopens.delimits hlt
  have hclose : s.stop - n ≤ r.start :=
    Nat.le_of_not_lt fun hgt => hs.shortest r.start hapart hgt hopens.delimits
  omega

theorem covered_of_cons
    (hcov : ∀ r ∈ places (m :: ms), ∃ s ∈ found source c (m :: ms), Covers s r)
    (hnot : ∀ s, (m.meet source c).2 = some s → ∀ r ∈ places ms, ¬ Covers s r) :
    ∀ r ∈ places ms, ∃ s ∈ found source (m.meet source c).1 ms, Covers s r := by
  intro r hr
  obtain ⟨s, hs, hsr⟩ := hcov r (by rw [places_cons]; exact List.mem_append_right _ hr)
  rw [found, List.mem_append, Option.mem_toList] at hs
  rcases hs with hs | hs
  · exact absurd hsr (hnot s hs r hr)
  · exact ⟨s, hs, hsr⟩

theorem not_covers_of_passed {n limit : Nat} {r s : Range} (hproper : ∀ m ∈ ms, m.Proper source)
    (hstands : Stands source n limit r) (hlater : ∀ m ∈ ms, (Landmark.code n limit r).Before m)
    (hpassed : r.start < c) (hs : s ∈ found source c (.code n limit r :: ms)) : ¬ Covers s r := by
  intro hcov
  have hle : s.start ≤ r.start := hcov.1
  have hinside := hstands.inside
  have hwithin := hstands.within
  have hall : ∀ m ∈ Landmark.code n limit r :: ms, m.Proper source := by
    rw [List.forall_mem_cons]
    exact ⟨hstands, hproper⟩
  rcases mem_found hall hs with hmem | hle'
  · rcases List.mem_cons.mp hmem with heq | hmem
    · cases heq
    · have hapart : limit ≤ s.start := hlater _ hmem
      omega
  · omega

/-- A code span that stands alone and is covered is in clear sight, if the later ones are in sight
when they are covered. -/
theorem clear_of_covered {n limit : Nat} {r : Range} (hproper : ∀ m ∈ ms, m.Proper source)
    (hstands : Stands source n limit r) (halone : Alone source r)
    (hlater : ∀ m ∈ ms, (Landmark.code n limit r).Before m)
    (hrest : ∀ c, (∀ t ∈ places ms, ∃ s ∈ found source c ms, Covers s t) → InSight source c ms)
    (hcov : ∀ t ∈ places (.code n limit r :: ms),
      ∃ s ∈ found source c (.code n limit r :: ms), Covers s t) : Clear source n limit c r := by
  refine Classical.byContradiction fun hclear => ?_
  obtain ⟨s, hs, hsr⟩ := hcov r List.mem_cons_self
  have hc : c ≤ r.start := Nat.le_of_not_lt fun hpassed =>
    not_covers_of_passed hproper hstands hlater hpassed hs hsr
  have hshort : ∀ q, ((Landmark.code n limit r).meet source c).2 = some q → q.stop < r.stop := by
    intro q hq
    have hstop := stop_le_of_not_clear hstands halone hclear hc (of_meet_code hstands hq).1
    have hinside := hstands.inside
    omega
  have hbehind := places_behind (m := .code n limit r) hstands hproper hlater rfl
  -- what is recorded instead of the span ends too early to cover anything
  have hinSight := hrest _ (covered_of_cons hcov fun q hq t ht hqt => by
    obtain ⟨hstart, hnot⟩ := hbehind t ht
    have hstop := Nat.lt_of_le_of_lt hqt.2 (hshort q hq)
    exact hnot ⟨Nat.le_of_lt hstart, Nat.le_of_lt hstop⟩)
  rw [found, (inSight_iff_found hproper).mp hinSight, List.mem_append, Option.mem_toList] at hs
  rcases hs with hs | hs
  · exact absurd (hshort s hs) (Nat.not_lt_of_le hsr.2)
  · exact absurd (hbehind s hs).1 (Nat.not_lt_of_le hsr.1)

theorem inSight_of_covered (hproper : ∀ m ∈ ms, m.Proper source)
    (hbefore : ms.Pairwise Landmark.Before)
    (halone : ∀ n limit r, .code n limit r ∈ ms → Alone source r)
    (hcov : ∀ r ∈ places ms, ∃ s ∈ found source c ms, Covers s r) : InSight source c ms := by
  induction ms generalizing c with
  | nil => trivial
  | cons m ms ih =>
      rw [List.forall_mem_cons] at hproper
      obtain ⟨hlater, hbefore⟩ := List.pairwise_cons.mp hbefore
      have hrest := fun c => ih (c := c) hproper.2 hbefore
        (fun n limit r hr => halone n limit r (List.mem_cons_of_mem m hr))
      have hnot : ∀ r, m.place? = some r → ∀ s ∈ places ms, ¬ Covers r s :=
        fun r hr s hs => (places_behind hproper.1 hproper.2 hlater hr s hs).2
      cases m with
      | prose | html | autolink => exact ⟨trivial, hrest _ (covered_of_cons hcov nofun)⟩
      | literal r => exact ⟨trivial, hrest _ (covered_of_cons hcov hnot)⟩
      | code n limit r =>
          have hclear := clear_of_covered hproper.2 hproper.1
            (halone n limit r List.mem_cons_self) hlater hrest hcov
          have hmeet := (meet_code_iff hproper.1).mpr hclear
          have hlaterInSight := hrest _ (covered_of_cons hcov (by rw [hmeet]; exact hnot))
          rw [hmeet] at hlaterInSight
          exact ⟨hclear, hlaterInSight⟩

/-- Code spans that stand alone are all covered exactly when each is in sight in its turn. -/
theorem covered_iff_inSight (hproper : ∀ m ∈ ms, m.Proper source)
    (hbefore : ms.Pairwise Landmark.Before)
    (halone : ∀ n limit r, .code n limit r ∈ ms → Alone source r) :
    (∀ r ∈ places ms, ∃ s ∈ found source c ms, Covers s r) ↔ InSight source c ms := by
  refine ⟨inSight_of_covered hproper hbefore halone, fun h r hr => ⟨r, ?_, Covers.refl r⟩⟩
  exact (places_subset_found_iff hproper hbefore).mpr h hr

end

end DirectiveFences.Scan
