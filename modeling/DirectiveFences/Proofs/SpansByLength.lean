/-
Code spans found again from the lengths of their delimiters.

A block is read from left to right (`spans`): a backslash takes the next character along, a run
of backticks opens a span with the next run of the same length, and a run without such a partner
is literal.  The scan for protected ranges does not read the block.  It is told how long the
delimiters of each span are, in order, and looks for each length by itself, so it never sees the
other runs that the reading passes over.

Both come to the same places.  On the way to a span, the reading passes over runs that are escaped,
which the scan passes over too, and over runs that have no partner; among these none is as long as
the opening run of the span, which would be its partner (`Unpaired`).  The trap is the backslash.
The scan takes a run behind an odd number of backslashes for escaped as a whole, while the reading
loses only its first backtick and goes on inside the run.  So no longer run may be escaped.
-/
import DirectiveFences.Proofs.Backticks
import DirectiveFences.Proofs.LeftmostSpan

namespace DirectiveFences

namespace CodeSpan

open Markdown

/-! ## Reading from left to right -/

/-- A code span: the number of backticks on either side, and its place. -/
structure Span where
  ticks : Nat
  range : Range
deriving DecidableEq, Repr

/-- The number of backticks at the front of a text. -/
def leading (cs : List Char) : Nat :=
  (cs.takeWhile (· = '`')).length

/-- Whether a run of exactly `n` backticks stands at a distance from the front of a text. -/
def runAt (n : Nat) (cs : List Char) (d : Nat) : Bool :=
  (d == 0 || cs[d - 1]? != some '`') && leading (cs.drop d) == n

/-- How far from the front of a text the next run of exactly `n` backticks stands. -/
def partner? (n : Nat) (cs : List Char) : Option Nat :=
  (List.range cs.length).find? (runAt n cs)

/-- The code spans of a text that stands at a place.  A backslash escapes the next character; a run
of backticks opens a span that the next run of the same length closes, whatever stands before that
one; a run without a partner is literal. -/
def spans (place : Nat) : List Char → List Span
  | [] => []
  | c :: cs =>
    if c = '\\' then spans (place + 2) (cs.drop 1)
    else if c = '`' then
      let n := leading cs + 1
      let rest := cs.drop (leading cs)
      match partner? n rest with
      | some d => ⟨n, ⟨place, place + n + d + n⟩⟩ :: spans (place + n + d + n) (rest.drop (d + n))
      | none => spans (place + n) rest
    else spans (place + 1) cs
termination_by cs => cs.length
decreasing_by all_goals simp +zetaDelta only [List.length_drop, List.length_cons]; omega

/-- The characters of a text from a place up to a limit. -/
def cut (text : Array Char) (place limit : Nat) : List Char :=
  (text.toList.take limit).drop place

/-- The code spans of a text from a place up to a limit. -/
def spansBetween (text : Array Char) (place limit : Nat) : List Span :=
  spans place (cut text place limit)

section

variable {text : Array Char} {n limit place e : Nat} {c : Char} {cs : List Char}

/-! ## Runs by what stands in the text -/

theorem leading_of_ne (h : cs[0]? ≠ some '`') : leading cs = 0 := by
  cases cs with
  | nil => rfl
  | cons c cs =>
      have hc : c ≠ '`' := fun heq => h (congrArg some heq)
      rw [leading, List.takeWhile_cons_of_neg (by simpa using hc), List.length_nil]

theorem leading_eq_iff :
    leading cs = n ↔ (∀ k < n, cs[k]? = some '`') ∧ cs[n]? ≠ some '`' := by
  induction cs generalizing n with
  | nil =>
      cases n with
      | zero => exact ⟨fun _ => ⟨nofun, nofun⟩, fun _ => rfl⟩
      | succ n => exact ⟨nofun, fun h => nomatch h.1 0 (Nat.succ_pos n)⟩
  | cons c cs ih =>
      by_cases hc : c = '`'
      · have hlead : leading (c :: cs) = leading cs + 1 := hc ▸ rfl
        cases n with
        | zero => exact ⟨fun h => absurd (hlead.symm.trans h) (Nat.succ_ne_zero _),
            fun h => absurd (congrArg some hc) h.2⟩
        | succ n =>
            rw [hlead, Nat.succ_inj, ih, Nat.forall_lt_succ_left]
            simp only [List.getElem?_cons_zero, List.getElem?_cons_succ, hc, true_and]
      · have hfront : (c :: cs)[0]? ≠ some '`' := fun h => hc (Option.some.inj h)
        rw [leading_of_ne hfront]
        cases n with
        | zero => exact ⟨fun _ => ⟨nofun, hfront⟩, fun _ => rfl⟩
        | succ n => exact ⟨nofun, fun h => absurd (h.1 0 (Nat.succ_pos n)) hfront⟩

theorem getElem?_cut (text : Array Char) (place limit k : Nat) :
    (cut text place limit)[k]? = if place + k < limit then text[place + k]? else none := by
  rw [cut, List.getElem?_drop, List.getElem?_take, Array.getElem?_toList]

theorem drop_cut (text : Array Char) (place limit k : Nat) :
    (cut text place limit).drop k = cut text (place + k) limit :=
  List.drop_drop

theorem length_cut (text : Array Char) (place limit : Nat) :
    (cut text place limit).length = min limit text.size - place := by
  rw [cut, List.length_drop, List.length_take, Array.length_toList]

theorem cut_eq_cons (h : c :: cs = cut text place limit) :
    place < limit ∧ text[place]? = some c ∧ cs = cut text (place + 1) limit := by
  have hfront := getElem?_cut text place limit 0
  rw [← h, List.getElem?_cons_zero, Nat.add_zero] at hfront
  split at hfront
  · rename_i hlt
    refine ⟨hlt, hfront.symm, ?_⟩
    rw [← drop_cut, ← h, List.drop_succ_cons, List.drop_zero]
  · cases hfront

theorem drop_leading_eq (h : '`' :: cs = cut text place limit) :
    cs.drop (leading cs) = cut text (place + (leading cs + 1)) limit := by
  obtain ⟨-, -, hcs⟩ := cut_eq_cons h
  rw [Nat.add_comm (leading cs), ← Nat.add_assoc, ← drop_cut, ← hcs]

theorem leading_behind (h : '`' :: cs = cut text place limit) :
    leading (cut text (place + (leading cs + 1)) limit) = 0 := by
  rw [← drop_leading_eq h]
  refine leading_of_ne ?_
  rw [List.getElem?_drop]
  exact (leading_eq_iff.mp rfl).2

/-- A run of exactly `n` backticks: no backtick stands before it, and it has `n` backticks up to the
limit. -/
theorem delimits_iff (hn : 0 < n) : Delimits text n limit place ↔
    (place = 0 ∨ text[place - 1]? ≠ some '`') ∧ leading (cut text place limit) = n := by
  simp only [leading_eq_iff, getElem?_cut, Option.ite_none_right_eq_some, ne_eq, not_and]
  constructor
  · intro h
    have hwithin := h.within
    exact ⟨h.before, fun k hk => ⟨by omega, h.ticks k hk⟩,
      fun hlt => h.after.resolve_left (Nat.ne_of_lt hlt)⟩
  · rintro ⟨hbefore, hticks, hend⟩
    have hwithin : place + n ≤ limit := by
      have := (hticks (n - 1) (by omega)).1
      omega
    exact ⟨fun k hk => (hticks k hk).2, hwithin, hbefore,
      (Nat.eq_or_lt_of_le hwithin).imp id hend⟩

theorem cut_min (text : Array Char) (place limit : Nat) :
    cut text place (min limit text.size) = cut text place limit := by
  rw [cut, cut, List.take_eq_take_iff.mpr]
  rw [Array.length_toList, Nat.min_assoc, Nat.min_self]

theorem delimits_min_iff (hn : 0 < n) :
    Delimits text n (min limit text.size) place ↔ Delimits text n limit place := by
  rw [delimits_iff hn, delimits_iff hn, cut_min]

theorem find?_min (text : Array Char) (marker : List Char) (place limit : Nat) :
    find? text marker place (min limit text.size) = find? text marker place limit := by
  rw [find?, find?, Nat.min_assoc, Nat.min_self]

/-! ## The partner of a run -/

theorem runAt_iff (hn : 0 < n) (hend : leading (cut text place limit) = 0) {d : Nat}
    (hd : place + d < limit) :
    runAt n (cut text place limit) d = true ↔ Delimits text n limit (place + d) := by
  simp only [runAt, drop_cut, Bool.and_eq_true, Bool.or_eq_true, beq_iff_eq, bne_iff_ne,
    delimits_iff hn]
  cases d with
  | zero =>
      rw [Nat.add_zero, hend]
      exact ⟨fun h => absurd h.2 (Nat.ne_of_lt hn), fun h => absurd h.2 (Nat.ne_of_lt hn)⟩
  | succ d =>
      have hbefore : place + (d + 1) - 1 = place + d := rfl
      rw [Nat.add_sub_cancel, getElem?_cut, if_pos (by omega), hbefore]
      exact and_congr_left fun _ => or_congr_left ⟨nofun, fun h => by omega⟩

theorem Delimits.lt_size (hn : 0 < n) (h : Delimits text n limit place) : place < text.size :=
  (Array.getElem?_eq_some_iff.mp (h.ticks 0 hn)).1

theorem partner?_eq_some_iff (hn : 0 < n) (hend : leading (cut text place limit) = 0) {d : Nat} :
    partner? n (cut text place limit) = some d ↔
      IsLeast (runsFrom text n limit place) (place + d) := by
  rw [partner?, List.find?_range_eq_some, List.mem_range, length_cut]
  constructor
  · rintro ⟨hrun, hlt, hfirst⟩
    refine ⟨⟨Nat.le_add_right .., (runAt_iff hn hend (by omega)).mp hrun⟩, fun p ⟨hle, hp⟩ => ?_⟩
    by_contra hbefore
    have hrun := (runAt_iff hn hend (d := p - place) (by omega)).mpr
      (by rwa [Nat.add_sub_cancel' hle])
    have hnot := hfirst (p - place) (by omega)
    rw [hrun] at hnot
    cases hnot
  · rintro ⟨⟨-, hdelimits⟩, hleast⟩
    have hlimit := hdelimits.lt_limit hn
    have hsize := hdelimits.lt_size hn
    refine ⟨(runAt_iff hn hend hlimit).mpr hdelimits, by omega, fun j hj => ?_⟩
    rw [Bool.not_eq_true', ← Bool.not_eq_true, runAt_iff hn hend (by omega)]
    intro hrun
    have hle : place + d ≤ place + j := hleast ⟨Nat.le_add_right .., hrun⟩
    omega

theorem partner?_eq_none_iff (hn : 0 < n) (hend : leading (cut text place limit) = 0) :
    partner? n (cut text place limit) = none ↔ runsFrom text n limit place = ∅ := by
  rw [Option.eq_none_iff_forall_ne_some, Set.eq_empty_iff_forall_notMem]
  simp only [ne_eq, partner?_eq_some_iff hn hend]
  constructor
  · intro h p hp
    rcases runsFrom_cases hn text limit place with hnone | ⟨s, hs⟩
    · exact Set.notMem_empty p (hnone ▸ hp)
    · refine h (s - place) ?_
      rwa [Nat.add_sub_cancel' hs.1.1]
  · exact fun h d hd => h _ hd.1

/-! ## The reading and the scan -/

/-- No run of two or more backticks, from a place on, stands behind an odd number of backslashes. -/
def LongRunsUnescaped (text : Array Char) (limit start : Nat) : Prop :=
  ∀ n, 2 ≤ n → ∀ p ∈ runsFrom text n limit start, Even (backslashRun text p).length

theorem longRunsUnescaped_of_forall {start : Nat} (hlimit : limit ≤ text.size)
    (h : ∀ p < limit, text[p]? = some '`' → text[p + 1]? = some '`' → isEscaped text p = false) :
    LongRunsUnescaped text limit start := by
  rintro n hn p ⟨-, hrun⟩
  have hlt := hrun.lt_limit (by omega)
  exact (isEscaped_eq_false_iff (by omega)).mp
    (h p hlt (hrun.ticks 0 (by omega)) (hrun.ticks 1 (by omega)))

/-- No backslash escapes two backticks at the front of a run. -/
theorem LongRunsUnescaped.pair {start : Nat} (h : LongRunsUnescaped text limit start)
    (hlimit : limit ≤ text.size) (hfrom : start ≤ place)
    (hbefore : place = 0 ∨ text[place - 1]? ≠ some '`') (hlt : place + 1 < limit)
    (hfirst : text[place]? = some '`') (hsecond : text[place + 1]? = some '`') :
    isEscaped text place = false := by
  generalize hn : leading (cut text place limit) = n
  obtain ⟨-, hend⟩ := leading_eq_iff.mp hn
  have htwo : 2 ≤ n := by
    by_contra hless
    rw [getElem?_cut, if_pos (by omega)] at hend
    rcases (by omega : n = 0 ∨ n = 1) with rfl | rfl
    · exact hend hfirst
    · exact hend hsecond
  have hrun : Delimits text n limit place := (delimits_iff (by omega)).mpr ⟨hbefore, hn⟩
  exact (isEscaped_eq_false_iff (by omega)).mpr (h n htwo place ⟨hfrom, hrun⟩)

theorem longRunsUnescaped_min {start : Nat} (h : LongRunsUnescaped text limit start) :
    LongRunsUnescaped text (min limit text.size) start :=
  fun n hn p hp => h n hn p ⟨hp.1, (delimits_min_iff (by omega)).mp hp.2⟩

/-- The runs from `cursor` on and before a place have no partner, as far as they could open a span:
no run of as many backticks stands from that place on. -/
def Unpaired (text : Array Char) (limit cursor place : Nat) : Prop :=
  ∀ m p, 0 < m → cursor ≤ p → p < place → Opens text m limit p → runsFrom text m limit place = ∅

theorem runsFrom_eq_empty_of_le {next : Nat} (h : runsFrom text n limit place = ∅)
    (hle : place ≤ next) : runsFrom text n limit next = ∅ :=
  Set.eq_empty_of_forall_notMem fun p hp =>
    Set.notMem_empty p (h ▸ ⟨Nat.le_trans hle hp.1, hp.2⟩)

theorem Unpaired.refl (text : Array Char) (limit place : Nat) : Unpaired text limit place place :=
  fun _ _ _ hle hlt => absurd hle (Nat.not_le_of_lt hlt)

theorem Unpaired.trans {cursor next : Nat} (h : Unpaired text limit cursor place)
    (h' : Unpaired text limit place next) (hle : place ≤ next) :
    Unpaired text limit cursor next := by
  intro m p hm hp hlt hopens
  rcases Nat.lt_or_ge p place with hbefore | hfrom
  · exact runsFrom_eq_empty_of_le (h m p hm hp hbefore hopens) hle
  · exact h' m p hm hfrom hlt hopens

theorem unpaired_of_ne (h : text[place]? ≠ some '`') : Unpaired text limit place (place + 1) := by
  intro m p hm hle hlt hopens
  obtain rfl : p = place := by omega
  exact absurd (hopens.delimits.ticks 0 hm) h

theorem isEscaped_succ (hfresh : isEscaped text place = false) (hslash : text[place]? = some '\\') :
    isEscaped text (place + 1) = true := by
  rw [isEscaped, beq_eq_false_iff_ne] at hfresh
  rw [isEscaped, backslashesBefore, if_pos hslash, beq_iff_eq]
  omega

theorem unpaired_of_slash (hfresh : isEscaped text place = false)
    (hslash : text[place]? = some '\\') : Unpaired text limit place (place + 2) := by
  intro m p hm hle hlt hopens
  rcases (by omega : p = place ∨ p = place + 1) with rfl | rfl
  · exact absurd ((hopens.delimits.ticks 0 hm).symm.trans hslash) (by decide)
  · exact absurd ((isEscaped_succ hfresh hslash).symm.trans hopens.unescaped) Bool.noConfusion

theorem Delimits.length_unique {m : Nat} (hm : 0 < m) (hn : 0 < n) (h : Delimits text m limit place)
    (h' : Delimits text n limit place) : m = n :=
  ((delimits_iff hm).mp h).2.symm.trans ((delimits_iff hn).mp h').2

theorem unpaired_of_literal (hn : 0 < n) (h : Delimits text n limit place)
    (hnone : runsFrom text n limit (place + n) = ∅) :
    Unpaired text limit place (place + n) := by
  intro m p hm hle hlt hopens
  rcases Nat.lt_or_eq_of_le hle with hinside | rfl
  · have := h.add_le hopens.delimits hinside
    omega
  · obtain rfl := hopens.delimits.length_unique hm hn h
    exact hnone

/-- How the reading and the scan stand to each other.  Both began at `start`; the reading has come
to `place`, and the scan to `cursor`, behind the last span. -/
structure Reached (text : Array Char) (limit start cursor place : Nat) : Prop where
  from_ : start ≤ place
  behind : cursor ≤ place
  /-- The reading is not inside a run. -/
  begins : place < limit → text[place]? = some '`' → place = 0 ∨ text[place - 1]? ≠ some '`'
  unescaped : isEscaped text place = false
  unpaired : Unpaired text limit cursor place

section

variable {start cursor : Nat}

theorem Reached.begin
    (hapart : ¬ (0 < place ∧ text[place - 1]? = some '`' ∧ text[place]? = some '`'))
    (hslash : ¬ (0 < place ∧ text[place - 1]? = some '\\')) :
    Reached text limit place place place where
  from_ := Nat.le_refl place
  behind := Nat.le_refl place
  begins := fun _ htick => (Nat.eq_zero_or_pos place).imp id fun hpos hback =>
    hapart ⟨hpos, hback, htick⟩
  unescaped := Inline.fresh_of_ne <| (Nat.eq_zero_or_pos place).imp id fun hpos hback =>
    hslash ⟨hpos, Array.getElem?_toList.symm.trans hback⟩
  unpaired := Unpaired.refl text limit place

theorem Reached.other (h : Reached text limit start cursor place) (hplace : text[place]? = some c)
    (hslash : c ≠ '\\') (htick : c ≠ '`') : Reached text limit start cursor (place + 1) where
  from_ := Nat.le_succ_of_le h.from_
  behind := Nat.le_succ_of_le h.behind
  begins := fun _ _ => Or.inr fun heq => htick (Option.some.inj (hplace.symm.trans heq))
  unescaped := Inline.fresh_of_eq (Array.getElem?_toList.trans hplace) hslash
  unpaired := h.unpaired.trans
    (unpaired_of_ne fun heq => htick (Option.some.inj (hplace.symm.trans heq))) (Nat.le_succ place)

/-- A backslash takes one character along.  If this is a backtick it is a run of its own, so the
reading does not go on inside a run. -/
theorem Reached.escaped (hlimit : limit ≤ text.size) (hlong : LongRunsUnescaped text limit start)
    (h : Reached text limit start cursor place) (hslash : text[place]? = some '\\') :
    Reached text limit start cursor (place + 2) where
  from_ := Nat.le_add_right_of_le h.from_
  behind := Nat.le_add_right_of_le h.behind
  begins := fun hlt htick => Or.inr fun hback => by
    have hfresh := hlong.pair hlimit (Nat.le_succ_of_le h.from_)
      (Or.inr fun heq => absurd (hslash.symm.trans heq) (by decide)) hlt hback htick
    exact absurd ((isEscaped_succ h.unescaped hslash).symm.trans hfresh) Bool.noConfusion
  unescaped :=
    have hfresh : Inline.Fresh text.toList place := h.unescaped
    hfresh.skip (Array.getElem?_toList.trans hslash)
  unpaired := h.unpaired.trans (unpaired_of_slash h.unescaped hslash) (Nat.le_add_right ..)

/-- A run that the reading comes upon is a whole one, and no backslash escapes it. -/
theorem Reached.opens (h : Reached text limit start cursor place)
    (hcut : '`' :: cs = cut text place limit) : Opens text (leading cs + 1) limit place := by
  obtain ⟨hlt, htick, -⟩ := cut_eq_cons hcut
  refine ⟨(delimits_iff (Nat.succ_pos _)).mpr ⟨h.begins hlt htick, ?_⟩, h.unescaped⟩
  rw [← hcut]
  rfl

theorem Reached.behind_run (hn : 0 < n) (hfrom : start ≤ place)
    (hrun : Delimits text n limit place) (hle : cursor ≤ place + n)
    (hunpaired : Unpaired text limit cursor (place + n)) :
    Reached text limit start cursor (place + n) where
  from_ := Nat.le_add_right_of_le hfrom
  behind := hle
  begins := fun hlt htick => by
    rcases hrun.after with hend | hafter
    · omega
    · exact absurd htick hafter
  unescaped := by
    have hlast := hrun.ticks (n - 1) (by omega)
    rw [show place + (n - 1) = place + n - 1 by omega] at hlast
    exact Inline.fresh_of_eq (Array.getElem?_toList.trans hlast) (by decide)
  unpaired := hunpaired

theorem Reached.literal (hn : 0 < n) (h : Reached text limit start cursor place)
    (hrun : Delimits text n limit place) (hnone : runsFrom text n limit (place + n) = ∅) :
    Reached text limit start cursor (place + n) :=
  .behind_run hn h.from_ hrun (Nat.le_add_right_of_le h.behind)
    (h.unpaired.trans (unpaired_of_literal hn hrun hnone) (Nat.le_add_right ..))

theorem Reached.closed (hn : 0 < n) (h : Reached text limit start cursor place)
    (hcloses : e ∈ runsFrom text n limit (place + n)) :
    Reached text limit start (e + n) (e + n) :=
  .behind_run hn (Nat.le_trans h.from_ (Nat.le_of_add_right_le hcloses.1)) hcloses.2 (Nat.le_refl _)
    (Unpaired.refl text limit _)

/-- The scan finds the span that the reading comes upon: a run of the same length on the way there
would have had the opening run for a partner. -/
theorem Reached.first (hn : 0 < n) (h : Reached text limit start cursor place)
    (hopens : Opens text n limit place) (hcloses : IsLeast (runsFrom text n limit (place + n)) e) :
    First text n limit cursor ⟨place, e + n⟩ where
  from_ := h.behind
  opens := hopens
  leftmost := fun p hle hlt hopens' => by
    have hnone := h.unpaired n p hn hle hlt hopens'
    exact Set.notMem_empty place (hnone ▸ ⟨Nat.le_refl place, hopens.delimits⟩)
  inside := by
    rw [Nat.add_sub_cancel]
    exact hcloses.1.1
  closes := by
    rw [Nat.add_sub_cancel]
    exact hcloses.1.2
  shortest := fun p hle hlt hrun => by
    have hbefore : e ≤ p := hcloses.2 ⟨hle, hrun⟩
    rw [Nat.add_sub_cancel] at hlt
    omega

end

end

end CodeSpan

namespace Markdown

/-- The length of the delimiters of a piece that is a code span. -/
def Piece.ticks? : Piece → Option Nat
  | .code ticks _ _ _ => some ticks
  | _ => none

end Markdown

namespace Scan

open CodeSpan Markdown

/-- What the scan has come to when it finds some spans one after the other. -/
def Progress.record (p : Progress) (found : List Span) : Progress :=
  { p with
    cursor := (found.map (·.range.stop)).getLastD p.cursor
    ranges := (found.map (·.range)).reverse ++ p.ranges }

section

variable {source : Array Char} {r : Range} {start : Nat}

theorem record_cons (p : Progress) (s : Span) (found : List Span) :
    p.record (s :: found) =
      Progress.record { p with cursor := s.range.stop, ranges := s.range :: p.ranges } found := by
  simp only [Progress.record, List.map_cons, List.getLastD_cons, List.reverse_cons,
    List.append_assoc, List.singleton_append]

theorem piece_eq_of_first {n : Nat} {s : Range} {p : Progress} {q : Piece} (hn : 0 < n)
    (hq : q.ticks? = some n) (h : First source n (min r.stop source.size) p.cursor s) :
    piece source r p q = { p with cursor := s.stop, ranges := s :: p.ranges } := by
  cases q with
  | html | autolink => cases hq
  | code ticks content i j =>
      obtain rfl := Option.some.inj hq
      have hfound := (find?_eq_some_iff hn (Nat.min_le_right ..)).mpr h
      rw [piece, ← find?_min, hfound]

/-- The scan goes the way of the reading: it stays where it is while the reading passes over what is
literal, and moves on with each span. -/
theorem foldl_piece_of_reached
    (hlong : LongRunsUnescaped source (min r.stop source.size) start) (place : Nat)
    (cs : List Char) : ∀ (p : Progress) (pieces : List Piece),
      cs = cut source place (min r.stop source.size) →
      Reached source (min r.stop source.size) start p.cursor place →
      pieces.map Piece.ticks? = (spans place cs).map (some ·.ticks) →
      pieces.foldl (piece source r) p = p.record (spans place cs) := by
  fun_induction spans place cs with
  | case1 place =>
      intro p pieces _ _ hpieces
      obtain rfl := List.map_eq_nil_iff.mp hpieces
      rfl
  | case2 place cs ih =>
      intro p pieces hcs h
      obtain ⟨-, hslash, rfl⟩ := cut_eq_cons hcs
      exact ih p pieces (drop_cut ..) (h.escaped (Nat.min_le_right ..) hlong hslash)
  | case3 place cs n rest d hpartner _ ih =>
      intro p pieces hcs h hpieces
      obtain ⟨q, later, rfl, hq, hlater⟩ := List.map_eq_cons_iff.mp hpieces
      have hn : 0 < n := Nat.succ_pos _
      have hrest : rest = cut source (place + n) (min r.stop source.size) := drop_leading_eq hcs
      have hend : leading (cut source (place + n) _) = 0 := leading_behind hcs
      have hcloses := (partner?_eq_some_iff hn hend).mp (hrest ▸ hpartner)
      -- the only step of the reading in which the scan moves
      rw [record_cons, List.foldl_cons, piece_eq_of_first hn hq (h.first hn (h.opens hcs) hcloses)]
      refine ih _ later ?_ (h.closed hn hcloses.1) hlater
      rw [hrest, drop_cut, Nat.add_assoc (place + n)]
  | case4 place cs n rest hpartner _ ih =>
      intro p pieces hcs h
      have hn : 0 < n := Nat.succ_pos _
      have hrest : rest = cut source (place + n) (min r.stop source.size) := drop_leading_eq hcs
      have hend : leading (cut source (place + n) _) = 0 := leading_behind hcs
      have hnone := (partner?_eq_none_iff hn hend).mp (hrest ▸ hpartner)
      exact ih p pieces hrest (h.literal hn (h.opens hcs).delimits hnone)
  | case5 place c cs hslash htick ih =>
      intro p pieces hcs h
      obtain ⟨-, hplace, hcs⟩ := cut_eq_cons hcs
      exact ih p pieces hcs (h.other hplace hslash htick)

/-- **Spans are found again from the lengths of their delimiters alone.**  Let the scan come to a
block and go on at `start`, a place that is neither between two backticks nor right behind a
backslash, and let no run of two or more backticks from there on stand behind an odd number of
backslashes.  If the pieces of the block are one code span for each that is read from `start` on,
with delimiters of the same length and in the same order, and nothing else, then the scan records
these spans at their places, loses none, and has come to the end of the last one, or to `start` when
there is none. -/
theorem spans_found_from_lengths {lines : Array Range} {first last : Nat} {p : Progress}
    {pieces : List Piece} (hblock : blockRange? lines first last = some r)
    (hstart : start = max p.cursor r.start)
    (hapart : ¬ (0 < start ∧ source[start - 1]? = some '`' ∧ source[start]? = some '`'))
    (hslash : ¬ (0 < start ∧ source[start - 1]? = some '\\'))
    (hlong : LongRunsUnescaped source r.stop start)
    (hpieces : pieces.map Piece.ticks? =
      (spansBetween source start r.stop).map (some ·.ticks)) :
    region source lines p (.prose first last pieces) =
      { p with
        cursor := ((spansBetween source start r.stop).map (·.range.stop)).getLastD start
        ranges := ((spansBetween source start r.stop).map (·.range)).reverse ++ p.ranges } := by
  rw [region, hblock]
  show pieces.foldl (piece source r) { p with cursor := max p.cursor r.start } = _
  rw [← hstart]
  exact foldl_piece_of_reached (longRunsUnescaped_min hlong) start _ { p with cursor := start }
    pieces (cut_min ..).symm (Reached.begin hapart hslash) hpieces

/-- Behind a code span: an escaped backtick, a run without a partner, a span with a backslash before
its closing run, a span with a backtick in it, and another backtick without a partner. -/
def mixedRuns : List Char :=
  "`a` \\` ```\n`b\\` ``c ` d`` e`".toList

theorem spansBetween_mixedRuns :
    spansBetween mixedRuns.toArray 3 28 = [⟨1, ⟨11, 15⟩⟩, ⟨2, ⟨16, 25⟩⟩] := by
  decide +kernel

/-- What the parser takes out of it behind its first span. -/
def mixedPieces : List Piece :=
  [.code 1 "b\\".toList 11 15, .code 2 "c ` d".toList 16 25]

theorem mixedRuns_found_from_lengths :
    blockRange? (lineRanges mixedRuns) 0 2 = some ⟨0, 28⟩ ∧
    3 = max 3 0 ∧
    ¬ (0 < 3 ∧ mixedRuns.toArray[3 - 1]? = some '`' ∧ mixedRuns.toArray[3]? = some '`') ∧
    ¬ (0 < 3 ∧ mixedRuns.toArray[3 - 1]? = some '\\') ∧
    LongRunsUnescaped mixedRuns.toArray 28 3 ∧
    mixedPieces.map Piece.ticks? = (spansBetween mixedRuns.toArray 3 28).map (some ·.ticks) ∧
    region mixedRuns.toArray (lineRanges mixedRuns) ⟨3, [⟨0, 3⟩], []⟩ (.prose 0 2 mixedPieces) =
      ⟨25, [⟨16, 25⟩, ⟨11, 15⟩, ⟨0, 3⟩], []⟩ := by
  have hblock : blockRange? (lineRanges mixedRuns) 0 2 = some ⟨0, 28⟩ := by decide +kernel
  have hstart : 3 = max 3 0 := rfl
  have hapart : ¬ (0 < 3 ∧ mixedRuns.toArray[3 - 1]? = some '`' ∧
    mixedRuns.toArray[3]? = some '`') := by decide +kernel
  have hslash : ¬ (0 < 3 ∧ mixedRuns.toArray[3 - 1]? = some '\\') := by decide +kernel
  have hlong : LongRunsUnescaped mixedRuns.toArray 28 3 :=
    longRunsUnescaped_of_forall (by decide +kernel) (by decide +kernel)
  have hpieces : mixedPieces.map Piece.ticks? =
      (spansBetween mixedRuns.toArray 3 28).map (some ·.ticks) := by
    rw [spansBetween_mixedRuns]
    rfl
  refine ⟨hblock, hstart, hapart, hslash, hlong, hpieces, ?_⟩
  rw [spans_found_from_lengths (p := ⟨3, [⟨0, 3⟩], []⟩) hblock hstart hapart hslash hlong hpieces,
    spansBetween_mixedRuns]
  rfl

/-- Where a longer run is escaped, the reading goes on inside it, and the search goes elsewhere. -/
example : spansBetween "\\``a` b`".toList.toArray 0 8 = [⟨1, ⟨2, 5⟩⟩] ∧
    find? "\\``a` b`".toList.toArray (List.replicate 1 '`') 0 8 = some ⟨4, 8⟩ := by
  decide +kernel

end

end Scan

end DirectiveFences
