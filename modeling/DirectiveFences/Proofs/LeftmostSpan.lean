/-
The code span that is found is the leftmost one.

The search is a loop: look for the next run of exactly `n` backticks; where a backslash escapes
it, go on behind it; else look for the run that closes it.  It is told here without a bound on
its steps (`Searches`).  A step that goes on leaves less of the text, so the loop comes to an
end (`exists_searches`), and what it ends with is what `find?` gives (`searches_iff`).

Which span that is, is a matter of least places alone (`IsSpan`).  The trap is that the two ends
are not alike.  A run that is escaped opens nothing but still closes, so the opening run is the
least one that is not escaped and the closing run the least one of all; and where the opening
run has no partner nothing is found, whatever stands behind it.
-/
import DirectiveFences.Proofs.Search
import Mathlib.Algebra.Group.Nat.Even
import Mathlib.Data.List.DropRight
import Mathlib.Order.Bounds.Basic

namespace DirectiveFences.CodeSpan

variable {text : Array Char} {n limit pos s e : Nat} {r : Option Range}

/-! ## Spans by least places -/

/-- The backslashes that end the text before a place. -/
def backslashRun (text : Array Char) (p : Nat) : List Char :=
  (text.toList.take p).rtakeWhile (· = '\\')

/-- The places from `pos` on at which a run of exactly `n` backticks stands. -/
def runsFrom (text : Array Char) (n limit pos : Nat) : Set Nat :=
  {p | pos ≤ p ∧ Delimits text n limit p}

/-- The places from `pos` on at which such a run stands behind an even number of backslashes. -/
def openingsFrom (text : Array Char) (n limit pos : Nat) : Set Nat :=
  {p | p ∈ runsFrom text n limit pos ∧ Even (backslashRun text p).length}

/-- The span from `s` to `e` is the leftmost one: it begins at the least place at which a span may
open, and ends behind the least run after its opening one. -/
structure IsSpan (text : Array Char) (n limit pos s e : Nat) : Prop where
  opens : IsLeast (openingsFrom text n limit pos) s
  closes : IsLeast (runsFrom text n limit (s + n)) (e - n)

theorem backslashesBefore_eq {p : Nat} (hp : p ≤ text.size) :
    backslashesBefore text p = (backslashRun text p).length := by
  induction p with
  | zero => rfl
  | succ p ih =>
      have hat : text[p]? = some text[p] := Array.getElem?_eq_getElem hp
      have htake : text.toList.take (p + 1) = text.toList.take p ++ [text[p]] :=
        List.take_succ_eq_append_getElem hp
      rw [backslashesBefore, backslashRun, htake, hat]
      by_cases hslash : text[p] = '\\'
      · rw [if_pos (congrArg some hslash), List.rtakeWhile_concat_pos _ _ _ (by simpa using hslash),
          List.length_append, ih (Nat.le_of_lt hp)]
        rfl
      · rw [if_neg fun h => hslash (Option.some.inj h),
          List.rtakeWhile_concat_neg _ _ _ (by simpa using hslash)]
        rfl

theorem isEscaped_eq_false_iff {p : Nat} (hp : p ≤ text.size) :
    isEscaped text p = false ↔ Even (backslashRun text p).length := by
  rw [isEscaped, backslashesBefore_eq hp, beq_eq_false_iff_ne, Nat.even_iff]
  omega

theorem mem_openingsFrom_iff (hlimit : limit ≤ text.size) {p : Nat} :
    p ∈ openingsFrom text n limit pos ↔ pos ≤ p ∧ Opens text n limit p := by
  constructor
  · rintro ⟨⟨hle, hdelimits⟩, heven⟩
    have hp : p ≤ text.size := by have := hdelimits.within; omega
    exact ⟨hle, hdelimits, (isEscaped_eq_false_iff hp).mpr heven⟩
  · rintro ⟨hle, hdelimits, hunescaped⟩
    have hp : p ≤ text.size := by have := hdelimits.within; omega
    exact ⟨⟨hle, hdelimits⟩, (isEscaped_eq_false_iff hp).mp hunescaped⟩

theorem first_iff_isSpan (hlimit : limit ≤ text.size) :
    First text n limit pos ⟨s, e⟩ ↔ IsSpan text n limit pos s e := by
  constructor
  · intro h
    refine ⟨⟨(mem_openingsFrom_iff hlimit).mpr ⟨h.from_, h.opens⟩, fun p hp => ?_⟩,
      ⟨h.inside, h.closes⟩, fun p hp => ?_⟩
    · obtain ⟨hle, hopens⟩ := (mem_openingsFrom_iff hlimit).mp hp
      exact Nat.le_of_not_lt fun hlt => h.leftmost p hle hlt hopens
    · exact Nat.le_of_not_lt fun hlt => h.shortest p hp.1 hlt hp.2
  · rintro ⟨⟨hopening, hleast⟩, ⟨hinside, hcloses⟩, hshortest⟩
    obtain ⟨hle, hopens⟩ := (mem_openingsFrom_iff hlimit).mp hopening
    refine ⟨hle, hopens, fun p hp hlt hopens' => ?_, hinside, hcloses, fun p hp hlt hrun => ?_⟩
    · exact Nat.not_le_of_lt hlt (hleast ((mem_openingsFrom_iff hlimit).mpr ⟨hp, hopens'⟩))
    · exact Nat.not_le_of_lt hlt (hshortest ⟨hp, hrun⟩)

/-! ## The loop -/

/-- How the search goes from a place on, and what it ends with. -/
inductive Searches (text : Array Char) (n limit : Nat) : Nat → Option Range → Prop
  /-- There is no run any more. -/
  | exhausted (pos : Nat) (hnone : runsFrom text n limit pos = ∅) : Searches text n limit pos none
  /-- The next run is escaped, so the search goes on behind it. -/
  | escaped (pos s : Nat) (r : Option Range) (hnext : IsLeast (runsFrom text n limit pos) s)
      (hescaped : ¬ Even (backslashRun text s).length) (hrest : Searches text n limit (s + n) r) :
      Searches text n limit pos r
  /-- The next run opens a span that nothing closes. -/
  | unclosed (pos s : Nat) (hnext : IsLeast (runsFrom text n limit pos) s)
      (hopens : Even (backslashRun text s).length) (hnone : runsFrom text n limit (s + n) = ∅) :
      Searches text n limit pos none
  /-- The next run opens a span, and the next one after it closes the span. -/
  | closed (pos s e : Nat) (hnext : IsLeast (runsFrom text n limit pos) s)
      (hopens : Even (backslashRun text s).length)
      (hcloses : IsLeast (runsFrom text n limit (s + n)) e) :
      Searches text n limit pos (some ⟨s, e + n⟩)

theorem runsFrom_cases (hn : 0 < n) (text : Array Char) (limit pos : Nat) :
    runsFrom text n limit pos = ∅ ∨ ∃ s, IsLeast (runsFrom text n limit pos) s := by
  cases hnext : nextDelimiter text (List.replicate n '`') limit (limit - pos) pos with
  | none =>
      refine Or.inl (Set.eq_empty_of_forall_notMem fun p hp => ?_)
      have hlt := hp.2.lt_limit hn
      have hle := hp.1
      exact nextDelimiter_eq_none_iff.mp hnext p hle (by omega) hp.2
  | some s =>
      obtain ⟨hle, -, hdelimits, hfirst⟩ := nextDelimiter_eq_some_iff.mp hnext
      exact Or.inr ⟨s, ⟨hle, hdelimits⟩, fun p hp =>
        Nat.le_of_not_lt fun hlt => hfirst p hp.1 hlt hp.2⟩

/-- The loop comes to an end: where it goes on, it does so behind a run, and less of the text is
left. -/
theorem exists_searches (hn : 0 < n) (text : Array Char) (limit pos : Nat) :
    ∃ r, Searches text n limit pos r := by
  induction hleft : limit - pos using Nat.strong_induction_on generalizing pos with
  | _ left ih =>
      rcases runsFrom_cases hn text limit pos with hnone | ⟨s, hnext⟩
      · exact ⟨none, .exhausted pos hnone⟩
      · have hle := hnext.1.1
        have hlt := hnext.1.2.lt_limit hn
        by_cases heven : Even (backslashRun text s).length
        · rcases runsFrom_cases hn text limit (s + n) with hnone | ⟨e, hcloses⟩
          · exact ⟨none, .unclosed pos s hnext heven hnone⟩
          · exact ⟨some ⟨s, e + n⟩, .closed pos s e hnext heven hcloses⟩
        · obtain ⟨r, hrest⟩ := ih (limit - (s + n)) (by omega) (s + n) rfl
          exact ⟨r, .escaped pos s r hnext heven hrest⟩

/-- An escaped run that is the next one changes nothing about where a span may open: no run begins
inside another one. -/
theorem openingsFrom_of_escaped (hnext : IsLeast (runsFrom text n limit pos) s)
    (hescaped : ¬ Even (backslashRun text s).length) :
    openingsFrom text n limit pos = openingsFrom text n limit (s + n) := by
  ext p
  constructor
  · rintro ⟨hp, heven⟩
    have hlt : s < p := by
      refine Nat.lt_of_le_of_ne (hnext.2 hp) ?_
      rintro rfl
      exact hescaped heven
    exact ⟨⟨hnext.1.2.add_le hp.2 hlt, hp.2⟩, heven⟩
  · rintro ⟨⟨hle, hdelimits⟩, heven⟩
    have := hnext.1.1
    exact ⟨⟨by omega, hdelimits⟩, heven⟩

theorem isLeast_openingsFrom (hnext : IsLeast (runsFrom text n limit pos) s)
    (heven : Even (backslashRun text s).length) : IsLeast (openingsFrom text n limit pos) s :=
  ⟨⟨hnext.1, heven⟩, fun _ hp => hnext.2 hp.1⟩

theorem IsSpan.le_stop (hn : 0 < n) (h : IsSpan text n limit pos s e) : n ≤ e := by
  have hinside := h.closes.1.1
  omega

theorem Searches.isSpan_iff (hn : 0 < n) (h : Searches text n limit pos r) :
    r = some ⟨s, e⟩ ↔ IsSpan text n limit pos s e := by
  induction h with
  | exhausted pos hnone =>
      refine ⟨nofun, fun hspan => ?_⟩
      have hmem := hspan.opens.1.1
      rw [hnone] at hmem
      exact absurd hmem (Set.notMem_empty s)
  | escaped pos s' r hnext hescaped hrest ih =>
      have hsame := openingsFrom_of_escaped hnext hescaped
      rw [ih]
      exact ⟨fun ⟨hopens, hcloses⟩ => ⟨hsame ▸ hopens, hcloses⟩,
        fun ⟨hopens, hcloses⟩ => ⟨hsame ▸ hopens, hcloses⟩⟩
  | unclosed pos s' hnext heven hnone =>
      refine ⟨nofun, fun hspan => ?_⟩
      obtain rfl := (isLeast_openingsFrom hnext heven).unique hspan.opens
      have hmem := hspan.closes.1
      rw [hnone] at hmem
      exact absurd hmem (Set.notMem_empty _)
  | closed pos s' e' hnext heven hcloses =>
      have hopens := isLeast_openingsFrom hnext heven
      constructor
      · intro heq
        cases heq
        exact ⟨hopens, by rwa [Nat.add_sub_cancel]⟩
      · intro hspan
        obtain rfl := hopens.unique hspan.opens
        rw [hcloses.unique hspan.closes, Nat.sub_add_cancel (hspan.le_stop hn)]

theorem find?_eq_some_iff_isSpan (hn : 0 < n) (hlimit : limit ≤ text.size) :
    find? text (List.replicate n '`') pos limit = some ⟨s, e⟩ ↔ IsSpan text n limit pos s e :=
  (find?_eq_some_iff hn hlimit).trans (first_iff_isSpan hlimit)

/-- The loop ends with what is found, and with nothing else. -/
theorem searches_iff (hn : 0 < n) (hlimit : limit ≤ text.size) :
    Searches text n limit pos r ↔ find? text (List.replicate n '`') pos limit = r := by
  have hends : ∀ r', Searches text n limit pos r' →
      find? text (List.replicate n '`') pos limit = r' := fun r' h => by
    refine Option.ext fun ⟨s, e⟩ => ?_
    rw [find?_eq_some_iff_isSpan hn hlimit, h.isSpan_iff hn]
  constructor
  · exact hends r
  · rintro rfl
    obtain ⟨r', h⟩ := exists_searches hn text limit pos
    rwa [hends r' h]

/-- **The search is the leftmost exact one.**  For every text, every number of backticks and all
places, the loop ends, with one result only.  This is the range from `s` to `e` exactly if `s` is
the least place from `pos` on at which a run of exactly `n` backticks stands behind an even number
of backslashes, and `e` the end of the least such run behind that one, escaped or not; and it is
none exactly if there are no two such places. -/
theorem find?_leftmost (text : Array Char) (hn : 0 < n) (hlimit : limit ≤ text.size) (pos : Nat) :
    (∀ r, Searches text n limit pos r ↔ find? text (List.replicate n '`') pos limit = r) ∧
    (∀ s e, find? text (List.replicate n '`') pos limit = some ⟨s, e⟩ ↔
      IsSpan text n limit pos s e) ∧
    (find? text (List.replicate n '`') pos limit = none ↔
      ∀ s e, ¬ IsSpan text n limit pos s e) := by
  refine ⟨fun r => searches_iff hn hlimit, fun s e => find?_eq_some_iff_isSpan hn hlimit, ?_⟩
  rw [Option.eq_none_iff_forall_ne_some]
  exact ⟨fun h s e hspan => h ⟨s, e⟩ ((find?_eq_some_iff_isSpan hn hlimit).mpr hspan),
    fun h ⟨s, e⟩ heq => h s e ((find?_eq_some_iff_isSpan hn hlimit).mp heq)⟩

/-- An escaped backtick, and a code span with two backticks in it. -/
def spanBehindEscape : Array Char :=
  "\\` `a``b` c".toList.toArray

theorem spanBehindEscape_leftmost :
    0 < 1 ∧ 11 ≤ spanBehindEscape.size ∧ Searches spanBehindEscape 1 11 0 (some ⟨3, 9⟩) ∧
      IsSpan spanBehindEscape 1 11 0 3 9 := by
  have hsize : 11 ≤ spanBehindEscape.size := by decide +kernel
  have hfound : find? spanBehindEscape (List.replicate 1 '`') 0 11 = some ⟨3, 9⟩ := by
    decide +kernel
  obtain ⟨hloop, hspan, -⟩ := find?_leftmost spanBehindEscape one_pos hsize 0
  exact ⟨one_pos, hsize, (hloop _).mpr hfound, (hspan 3 9).mp hfound⟩

end DirectiveFences.CodeSpan
