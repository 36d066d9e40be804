/-
Code spans on the lines of constructs.

A rule asks whether the first character of a line is protected, and then rewrites the whole line;
so a code span further on is in the hands of the rule.  It is carried over to the output, unless the
rule drops what it stands in (`Dropped.opener`, `Dropped.tail`), it covers the end of a part of the
line (`Dropped.across`), or it holds a double quote that a shortcode has to spell in another way
(`Dropped.quote`).  None of the four can be left out: a span that is dropped is not carried over,
because the character at which it fails goes nowhere (`Carried.not_dropped`).  The spans that are
carried over keep their order, except that a label is written before the directive that it labels
(`Labels`).

A span that begins on a line that is kept runs on over lines that are kept: they are blank, or
begin inside the span and so are protected themselves.
-/
import DirectiveFences.Proofs.Carried
import DirectiveFences.Proofs.CodeSpans

namespace DirectiveFences

namespace Convert

open Text Shape

/-! ## Stretches of a text that are carried over -/

/-- What a text says in a range. -/
def slice (t : List Char) (r : Range) : List Char :=
  (t.drop r.start).take (r.stop - r.start)

/-- The range of the same length at another offset. -/
def moveTo (r : Range) (a : Nat) : Range :=
  ⟨a, a + (r.stop - r.start)⟩

/-- The characters of a range go on side by side, from an offset of the output on. -/
def Carried (toggles : Toggles) (ranges : Array Range) (t : List Char) (r : Range) (a : Nat) :
    Prop :=
  ∀ m < r.stop - r.start, ∃ i c q, r.start + m = lineStart (split t) i + c ∧
    Goes toggles ranges t i c q ∧ q.offset (groupsOf toggles ranges t) = a + m

section

variable {toggles : Toggles} {ranges : Array Range} {t : List Char} {r r' : Range} {a a' i c : Nat}
  {s : Site} {k : Kind} {p : Part}

/-- What is carried over is found again. -/
theorem Carried.slice_eq (h : Carried toggles ranges t r a) (hr : r.stop ≤ t.length) :
    slice (text toggles ranges t) (moveTo r a) = slice t r := by
  refine List.ext_getElem? fun m => ?_
  rw [slice, slice, moveTo, Nat.add_sub_cancel_left]
  by_cases hm : m < r.stop - r.start
  · obtain ⟨i, c, q, hx, hgoes, hoffset⟩ := h m hm
    rw [List.getElem?_take_of_lt hm, List.getElem?_take_of_lt hm, List.getElem?_drop,
      List.getElem?_drop, hx, ← hgoes.getElem? (by omega), hoffset]
  · rw [List.getElem?_take_eq_none (Nat.le_of_not_lt hm),
      List.getElem?_take_eq_none (Nat.le_of_not_lt hm)]

/-- Two stretches that are carried over do not meet, and a label changes places with what it is
written before. -/
theorem Carried.apart (h : Carried toggles ranges t r a) (h' : Carried toggles ranges t r' a')
    (hr : r.start < r.stop) (hr' : r'.start < r'.stop) (hle : r.stop ≤ r'.start) :
    (Labels toggles ranges t r.start r'.start → (moveTo r' a').stop ≤ a) ∧
      (¬ Labels toggles ranges t r.start r'.start → (moveTo r a).stop ≤ a') := by
  have horder : ∀ m < r.stop - r.start, ∀ m' < r'.stop - r'.start,
      (Labels toggles ranges t (r.start + m) (r'.start + m') → a' + m' < a + m) ∧
        (¬ Labels toggles ranges t (r.start + m) (r'.start + m') → a + m < a' + m') := by
    intro m hm m' hm'
    obtain ⟨i, c, q, hx, hgoes, hoffset⟩ := h m hm
    obtain ⟨i', c', q', hx', hgoes', hoffset'⟩ := h' m' hm'
    obtain ⟨l, hon⟩ := hgoes.on
    obtain ⟨l', hon'⟩ := hgoes'.on
    rw [hx, hx', ← hoffset, ← hoffset']
    refine ⟨fun hlabels => ?_, fun hnot => ?_⟩
    · exact Spot.offset_lt hon' (hgoes.after hgoes' hlabels)
    · exact Spot.offset_lt hon (hgoes.before hgoes' (by omega) hnot)
  have hne : ∀ m < r.stop - r.start, ∀ m' < r'.stop - r'.start, a + m ≠ a' + m' := by
    intro m hm m' hm'
    by_cases hlabels : Labels toggles ranges t (r.start + m) (r'.start + m')
    · exact Nat.ne_of_gt ((horder m hm m' hm').1 hlabels)
    · exact Nat.ne_of_lt ((horder m hm m' hm').2 hlabels)
  have hstart := horder 0 (by omega) 0 (by omega)
  simp only [Nat.add_zero] at hstart
  refine ⟨fun hlabels => ?_, fun hnot => ?_⟩
  · have hlt := hstart.1 hlabels
    refine Nat.le_of_not_lt fun hlap => hne 0 (by omega) (a - a') ?_ (by omega)
    simp only [moveTo] at hlap
    omega
  · have hlt := hstart.2 hnot
    refine Nat.le_of_not_lt fun hlap => hne (a' - a) ?_ 0 (by omega) (by omega)
    simp only [moveTo] at hlap
    omega

/-! ## Stretches of lines that are kept -/

theorem lineStart_of_kept {j : Nat} (hij : i ≤ j) (hj : j < (split t).length)
    (hkept : ∀ l, i ≤ l → l < j → Kept toggles ranges t l) :
    lineStart (groupsOf toggles ranges t).flatten (groupStart (groupsOf toggles ranges t) j) +
        lineStart (split t) i =
      lineStart (groupsOf toggles ranges t).flatten (groupStart (groupsOf toggles ranges t) i) +
        lineStart (split t) j := by
  induction j, hij using Nat.le_induction with
  | base => rfl
  | succ j hij ih =>
      have hlt := Nat.lt_of_succ_lt hj
      have ih := ih hlt fun l hil hlj => hkept l hil (Nat.lt_succ_of_lt hlj)
      obtain ⟨s, k, hmet⟩ := exists_met toggles ranges hlt
      have hgroup := (hkept j hij (Nat.lt_succ_self j)).group hmet
      have hline : (groupsOf toggles ranges t).flatten[groupStart (groupsOf toggles ranges t) j]? =
          some s.line.toList := getElem?_flatten hgroup (d := 0) Nat.one_pos
      obtain ⟨hj', hraw'⟩ := List.getElem?_eq_some_iff.mp hline
      obtain ⟨hj'', hraw⟩ := List.getElem?_eq_some_iff.mp hmet.raw
      rw [groupStart_succ hgroup, List.length_singleton, lineStart_succ hj', lineStart_succ hj'',
        hraw, hraw']
      omega

theorem exists_met_of_le (toggles : Toggles) (ranges : Array Range) {x : Nat}
    (hx : x ≤ t.length) : ∃ s k, Met toggles ranges t (lineOf t x) s k ∧
      lineStart (split t) (lineOf t x) ≤ x ∧
      x ≤ lineStart (split t) (lineOf t x) + s.line.toList.length := by
  obtain ⟨hi, hle, hlt⟩ := exists_line hx
  obtain ⟨s, k, hmet⟩ := exists_met toggles ranges hi
  obtain ⟨_, hraw⟩ := List.getElem?_eq_some_iff.mp hmet.raw
  rw [hraw] at hlt
  exact ⟨s, k, hmet, hle, hlt⟩

theorem carried_of_kept (hr : r.start < r.stop) (hstop : r.stop ≤ t.length)
    (hkept : ∀ x, r.start ≤ x → x < r.stop → Kept toggles ranges t (lineOf t x)) :
    ∃ a, Carried toggles ranges t r a := by
  obtain ⟨s, k, hmet, hle, hlt⟩ := exists_met_of_le (t := t) toggles ranges (x := r.start) (by omega)
  refine ⟨(Spot.mk (lineOf t r.start) 0 (r.start - lineStart (split t) (lineOf t r.start))).offset
    (groupsOf toggles ranges t), fun m hm => ?_⟩
  obtain ⟨s', k', hmet', hle', hlt'⟩ :=
    exists_met_of_le (t := t) toggles ranges (x := r.start + m) (by omega)
  refine ⟨lineOf t (r.start + m), r.start + m - lineStart (split t) (lineOf t (r.start + m)), _,
    by omega, .kept hmet' (hkept _ (by omega) (by omega)) (by omega), ?_⟩
  have hline : lineOf t r.start ≤ lineOf t (r.start + m) :=
    hmet'.line_le (c := r.start + m - lineStart (split t) (lineOf t (r.start + m))) (by omega)
      (by omega)
  have hlast : lineOf t (r.start + m) < (split t).length :=
    (List.getElem?_eq_some_iff.mp hmet'.raw).1
  have htogether := @lineStart_of_kept toggles ranges t _ _ hline hlast ?_
  · simp only [Spot.offset, Nat.add_zero]
    omega
  · intro l hil hlj
    rcases Nat.lt_or_eq_of_le hil with hil | rfl
    · have hl := Nat.lt_trans hlj hlast
      have hfrom := hmet.lt_lineStart (c := r.start - lineStart (split t) (lineOf t r.start))
        (by omega) hil
      have hto := lineStart_mono (split t) (Nat.le_of_lt hlj)
      have hkept := hkept (lineStart (split t) l) (by omega) (by omega)
      rwa [lineOf_eq hl (Nat.le_refl _) (Nat.le_add_right ..)] at hkept
    · exact hkept r.start (Nat.le_refl _) hr

/-! ## Stretches of parts -/

theorem length_flatMap_take_add {f : Char → List Char} {cs : List Char} {d m : Nat}
    (h : ∀ j < m, ∃ x, cs[d + j]? = some x ∧ f x = [x]) :
    ((cs.take (d + m)).flatMap f).length = ((cs.take d).flatMap f).length + m := by
  induction m with
  | zero => rfl
  | succ m ih =>
      obtain ⟨x, hx, hf⟩ := h m (Nat.lt_succ_self m)
      rw [← Nat.add_assoc, List.take_add_one, hx, Option.toList_some, List.flatMap_append,
        List.length_append, ih fun j hj => h j (Nat.lt_succ_of_lt hj), List.flatMap_singleton, hf]
      rfl

theorem Met.getElem?_part (hmet : Met toggles ranges t i s k) (hin : p.In s.line.body)
    (hle : p.column ≤ c) (hlt : c < p.stop) :
    t[lineStart (split t) i + c]? = p.text[c - p.column]? := by
  rw [hmet.getElem? (Nat.lt_of_lt_of_le hlt hin.stop_le_toList), hin.getElem?_toList hle hlt]

theorem carried_of_content (hmet : Met toggles ranges t i s k)
    (hp : k.content? s.line.body = some p) (hstart : lineStart (split t) i + p.column ≤ r.start)
    (hstop : r.stop ≤ lineStart (split t) i + p.stop)
    (hspell : ∀ m < r.stop - r.start, ∀ x, t[r.start + m]? = some x → k.spell x = [x]) :
    ∃ a, Carried toggles ranges t r a := by
  have hin := hmet.part_in (Or.inl hp)
  obtain ⟨c, hc⟩ : ∃ c, r.start = lineStart (split t) i + c := Nat.exists_eq_add_of_le (by omega)
  have hchars : ∀ m < r.stop - r.start,
      ∃ x, p.text[c - p.column + m]? = some x ∧ k.spell x = [x] := by
    intro m hm
    have hcolumn : c + m - p.column = c - p.column + m := by omega
    have hx := hmet.getElem?_part hin (c := c + m) (by omega) (by omega)
    rw [hcolumn] at hx
    have hlen : c - p.column + m < p.text.length := by
      rw [Part.stop] at hstop
      omega
    refine ⟨_, List.getElem?_eq_getElem hlen, hspell m hm _ ?_⟩
    rw [hc, Nat.add_assoc, hx, List.getElem?_eq_getElem hlen]
  refine ⟨(Spot.mk i k.contentLine (k.contentColumn (stateAt toggles ranges t i) p c)).offset
    (groupsOf toggles ranges t), fun m hm => ?_⟩
  obtain ⟨x, hx, hf⟩ := hchars m hm
  have hcolumn : c + m - p.column = c - p.column + m := by omega
  refine ⟨i, c + m, _, by omega, .content hmet hp (by omega) (by rwa [hcolumn]) hf, ?_⟩
  simp only [Spot.offset, Kind.contentColumn, hcolumn,
    length_flatMap_take_add fun j hj => hchars j (Nat.lt_trans hj hm)]
  omega

theorem carried_of_label (hmet : Met toggles ranges t i s k)
    (hp : k.label? s.line.body = some p) (hstart : lineStart (split t) i + p.column ≤ r.start)
    (hstop : r.stop ≤ lineStart (split t) i + p.stop) : ∃ a, Carried toggles ranges t r a := by
  obtain ⟨h, hh⟩ := exists_heads hmet hp
  obtain ⟨c, hc⟩ : ∃ c, r.start = lineStart (split t) i + c := Nat.exists_eq_add_of_le (by omega)
  refine ⟨(Spot.mk h 0 (labelBefore.length + (c - p.column))).offset
    (groupsOf toggles ranges t), fun m hm => ?_⟩
  refine ⟨i, c + m, _, by omega, .label hmet hp hh (by omega) (by omega), ?_⟩
  simp only [Spot.offset]
  omega

end

/-! ## Ranges behind the first character of their line -/

/-- The range begins behind the first character of its line that is not blank. -/
def AfterInk (t : List Char) (r : Range) : Prop :=
  ∃ o, firstInk? t (lineOf t r.start) = some o ∧ o < r.start

end Convert

namespace Scan

open CodeSpan Markdown
open Text (split lineStart lineOf lineOf_eq)

theorem found_first {source : Array Char} {c : Nat} {ms : List Landmark} {r : Range}
    (hproper : ∀ m ∈ ms, m.Proper source) (h : r ∈ found source c ms) :
    .literal r ∈ ms ∨ ∃ n limit c', 0 < n ∧ First source n limit c' r := by
  induction ms generalizing c with
  | nil => cases h
  | cons m ms ih =>
      rw [List.forall_mem_cons] at hproper
      rw [found, List.mem_append, Option.mem_toList] at h
      rcases h with h | h
      · cases m with
        | literal r' => exact Or.inl (Option.some.inj h ▸ List.mem_cons_self)
        | code n limit r' =>
            exact Or.inr ⟨n, limit, c, hproper.1.pos, (of_meet_code hproper.1 h).1⟩
        | prose | html | autolink => cases h
      · exact (ih hproper.2 h).imp (List.mem_cons_of_mem m) id

theorem start_of_literal {text : List Char} {r : Range} (h : .literal r ∈ marks text) :
    ∃ i, i < (split text).length ∧ r.start = lineStart (split text) i := by
  obtain ⟨leaf, -, hm⟩ := List.mem_flatMap.mp h
  cases leaf with
  | literal kind first last =>
      obtain ⟨r', hr', heq⟩ := Option.map_eq_some_iff.mp (Option.mem_toList.mp hm)
      obtain rfl := Landmark.literal.inj heq
      obtain ⟨k, a, b, -, -, ha, -, rfl⟩ := of_blockRange? hr'
      obtain ⟨hi, rfl⟩ := exists_of_lineRanges ha
      exact ⟨first, hi, rfl⟩
  | prose first last content =>
      rcases mem_leafMarks_prose hm with ⟨r', hr'⟩ | ⟨limit, q, -, hq⟩
      · cases hr'
      · cases q <;> cases hq

theorem tick_of_sourceOf {text : List Char} {x : Nat} (h : (sourceOf text)[x]? = some '`') :
    text[x]? = some '`' := by
  rw [getElem?_sourceOf] at h
  obtain ⟨c, hc, heq⟩ := Option.map_eq_some_iff.mp h
  split at heq
  · exact absurd heq (by decide)
  · rw [hc, heq]

/-- A range that begins behind the first character of its line is one of a code span: it begins and
ends with a backtick. -/
theorem ticks_of_afterInk {text : List Char} {r : Range} (hr : r ∈ ranges text)
    (hink : Convert.AfterInk text r) :
    text[r.start]? = some '`' ∧ text[r.stop - 1]? = some '`' := by
  rw [ranges_eq_found] at hr
  rcases found_first (marks_proper text) hr with hliteral | ⟨n, limit, c, hn, hfirst⟩
  · obtain ⟨i, hi, hstart⟩ := start_of_literal hliteral
    obtain ⟨o, ho, hlt⟩ := hink
    rw [hstart, lineOf_eq hi (Nat.le_refl _) (Nat.le_add_right ..)] at ho
    obtain ⟨raw, -, -, rfl⟩ := Convert.firstInk?_eq_some_iff.mp ho
    omega
  · have hinside := hfirst.inside
    have hopen := hfirst.opens.delimits.ticks 0 hn
    have hclose := hfirst.closes.ticks (n - 1) (by omega)
    rw [Nat.add_zero] at hopen
    rw [show r.stop - n + (n - 1) = r.stop - 1 by omega] at hclose
    exact ⟨tick_of_sourceOf hopen, tick_of_sourceOf hclose⟩

end Scan

namespace Convert

open Text Shape

/-- A range of a line that is rewritten, which is not carried over. -/
inductive Dropped (toggles : Toggles) (ranges : Array Range) (t : List Char) (r : Range) : Prop
  /-- It begins on the opening line of a math block that is closed: the label there is dropped. -/
  | opener {j : Nat} {label : List Char} :
      (kindsOf toggles ranges t)[lineOf t r.start]? = some .mathOpen → lineOf t r.start < j →
      (kindsOf toggles ranges t)[j]? = some (.mathClose label) → Dropped toggles ranges t r
  /-- It begins in the tail of the opening line of a div. -/
  | tail {s : Site} {o : Opener} : Met toggles ranges t (lineOf t r.start) s (.divOpen o) →
      s.offset + s.line.body.length ≤ r.start + (openerTail s.line.body).length →
      Dropped toggles ranges t r
  /-- It begins in a part of its line and ends behind that part. -/
  | across {s : Site} {k : Kind} {p : Part} : Met toggles ranges t (lineOf t r.start) s k →
      k.content? s.line.body = some p ∨ k.label? s.line.body = some p →
      s.offset + p.column ≤ r.start → r.start < s.offset + p.stop → s.offset + p.stop < r.stop →
      Dropped toggles ranges t r
  /-- It begins on the line of a shortcode and holds a double quote. -/
  | quote {s : Site} {code : Shortcode} :
      Met toggles ranges t (lineOf t r.start) s (.shortcode code) → '"' ∈ slice t r →
      Dropped toggles ranges t r

section

variable {toggles : Toggles} {t : List Char} {r : Range}

theorem indent_le_of_ink {raw : List Char} {d : Nat} {x : Char} (hx : raw[d]? = some x)
    (hink : isBlank x = false) : (raw.takeWhile isBlank).length ≤ d := by
  refine Nat.le_of_not_lt fun hlt => ?_
  rw [← List.takeWhile_append_dropWhile (p := isBlank) (l := raw),
    List.getElem?_append_left hlt] at hx
  have hblank := List.all_eq_true.mp List.all_takeWhile x (List.mem_of_getElem? hx)
  rw [hink] at hblank
  cases hblank

theorem kept_of_blank {ranges : Array Range} {i : Nat} {s : Site} {k : Kind}
    (hmet : Met toggles ranges t i s k) (hblank : ∀ c ∈ s.line.toList, isBlank c = true) :
    Kept toggles ranges t i := by
  have hkind := kind_of_blank toggles (s := s) (fun c hc => hblank c (List.mem_append_left _ hc))
    (stateAt toggles ranges t i).inMath
  rw [hmet.kind_eq] at hkind
  cases hm : (stateAt toggles ranges t i).inMath with
  | true => exact Or.inr (Or.inl (by rw [hmet.kind, hkind, hm]; rfl))
  | false => exact Or.inl (by rw [hmet.kind, hkind, hm]; rfl)

/-- A code span that begins on a line that is kept touches only lines that are kept. -/
theorem kept_of_span {ranges : Array Range} {x : Nat} (hordered : Range.Ordered ranges.toList)
    (hr : r ∈ ranges.toList) (hstop : r.stop ≤ t.length) (htick : t[r.stop - 1]? = some '`')
    (hkept : Kept toggles ranges t (lineOf t r.start)) (hx : r.start ≤ x) (hx' : x < r.stop) :
    Kept toggles ranges t (lineOf t x) := by
  obtain ⟨s₀, k₀, hmet₀, hle₀, hlt₀⟩ :=
    exists_met_of_le (t := t) toggles ranges (x := r.start) (by omega)
  obtain ⟨s, k, hmet, hle, hlt⟩ := exists_met_of_le (t := t) toggles ranges (x := x) (by omega)
  have hline := hmet.line_le (j := lineOf t r.start)
    (c := x - lineStart (split t) (lineOf t x)) (by omega) (by omega)
  rcases Nat.lt_or_eq_of_le hline with hline | hline
  · have hfrom := hmet₀.lt_lineStart (c := r.start - lineStart (split t) (lineOf t r.start))
      (by omega) hline
    by_cases hink : (s.line.toList.takeWhile isBlank).length < s.line.toList.length
    · -- the line begins in the span, and the span does not end before ink
      have hspan : lineStart (split t) (lineOf t x) + (s.line.toList.takeWhile isBlank).length <
          r.stop := by
        by_cases hlast : r.stop - 1 < lineStart (split t) (lineOf t x) + s.line.toList.length
        · have hcolumn := hmet.getElem? (c := r.stop - 1 - lineStart (split t) (lineOf t x))
            (by omega)
          rw [show lineStart (split t) (lineOf t x) +
            (r.stop - 1 - lineStart (split t) (lineOf t x)) = r.stop - 1 by omega, htick] at hcolumn
          have := indent_le_of_ink hcolumn.symm (by decide)
          omega
        · omega
      have hinert := isInert_of_holds hordered hr hmet.raw
        (firstInk?_eq_some_iff.mpr ⟨_, hmet.raw, hink, rfl⟩) ⟨by omega, hspan⟩
      rcases kept_of_isInert toggles hmet.site (by rwa [← hmet.site_eq] at hinert) with hk | hk
      · exact Or.inl hk
      · exact Or.inr (Or.inl hk)
    · refine kept_of_blank hmet fun c hc => ?_
      have hall := (List.takeWhile_prefix isBlank).eq_of_length_le (Nat.le_of_not_lt hink)
      rw [← hall] at hc
      exact List.all_eq_true.mp List.all_takeWhile c hc
  · rwa [← hline]

theorem tick_of_line {ranges : Array Range} {i c : Nat} {s : Site} {k : Kind}
    (hmet : Met toggles ranges t i s k) (htick : s.line.toList[c]? = some '`') :
    s.line.body[c]? = some '`' := by
  by_cases hc : c < s.line.body.length
  · rwa [Line.toList, List.getElem?_append_left hc] at htick
  · rw [Line.toList, List.getElem?_append_right (Nat.le_of_not_lt hc), hmet.site_eq] at htick
    exact absurd (ending_blank _ _ (List.mem_of_getElem? htick)) (by decide)

theorem spell_eq (k : Kind) {x : Char} (h : ∀ code, k = .shortcode code → x ≠ '"') :
    k.spell x = [x] := by
  cases k with
  | shortcode code => exact if_neg (h code rfl)
  | plain | inMath | mathClose | mathOpen | formula | divClose | divOpen => rfl

theorem carried_of_part {ranges : Array Range} {s : Site} {k : Kind} {p : Part}
    (hnot : ¬ Dropped toggles ranges t r) (hmet : Met toggles ranges t (lineOf t r.start) s k)
    (hp : k.content? s.line.body = some p ∨ k.label? s.line.body = some p)
    (hle : s.offset + p.column ≤ r.start) (hlt : r.start < s.offset + p.stop) :
    ∃ a, Carried toggles ranges t r a := by
  have hstop : r.stop ≤ s.offset + p.stop :=
    Nat.le_of_not_lt fun hacross => hnot (.across hmet hp hle hlt hacross)
  have hoffset := hmet.offset
  rcases hp with hp | hp
  · refine carried_of_content hmet hp (by omega) (by omega) fun m hm x hx => spell_eq k ?_
    rintro code rfl rfl
    refine hnot (.quote hmet (List.mem_of_getElem? (i := m) ?_))
    rw [slice, List.getElem?_take_of_lt hm, List.getElem?_drop, hx]
  · exact carried_of_label hmet hp (by omega) (by omega)

/-- A protected range behind the first character of its line begins with a backtick in the body of
that line. -/
theorem exists_tick_of_afterInk (toggles : Toggles) (hr : r ∈ Scan.ranges t)
    (hink : AfterInk t r) : ∃ s k c,
      Met toggles (Scan.ranges t).toArray t (lineOf t r.start) s k ∧
      r.start = s.offset + c ∧ s.line.body[c]? = some '`' := by
  obtain ⟨hpos, hstop⟩ :=
    (Scan.sorted_locate_tidy (Scan.regions_outlined t)).within r hr
  have hfirst := (Scan.ticks_of_afterInk hr hink).1
  obtain ⟨s, k, hmet, hle, hlt⟩ :=
    exists_met_of_le (t := t) toggles (Scan.ranges t).toArray (x := r.start) (by omega)
  obtain ⟨c, hc⟩ := Nat.exists_eq_add_of_le hle
  have hlt' : c < s.line.toList.length := by
    refine Nat.lt_of_le_of_ne (by omega) ?_
    rintro rfl
    have hfeed := (hmet.getElem?_lineFeed (by omega)).2
    rw [← hc, hfirst] at hfeed
    exact absurd (Option.some.inj hfeed) (by decide)
  have hchar := hmet.getElem? hlt'
  rw [← hc, hfirst] at hchar
  have hoffset := hmet.offset
  exact ⟨s, k, c, hmet, by omega, tick_of_line hmet hchar.symm⟩

/-- A protected range behind the first character of its line is carried over, unless it is
dropped. -/
theorem exists_carried (hr : r ∈ Scan.ranges t) (hink : AfterInk t r)
    (hnot : ¬ Dropped toggles (Scan.ranges t).toArray t r) :
    ∃ a, Carried toggles (Scan.ranges t).toArray t r a := by
  obtain ⟨hpos, hstop⟩ :=
    (Scan.sorted_locate_tidy (Scan.regions_outlined t)).within r hr
  have hlast := (Scan.ticks_of_afterInk hr hink).2
  have hkept : Kept toggles (Scan.ranges t).toArray t (lineOf t r.start) →
      ∃ a, Carried toggles (Scan.ranges t).toArray t r a := fun hkept =>
    carried_of_kept hpos hstop fun x hx hx' =>
      kept_of_span (Scan.ranges_ordered t) hr hstop hlast hkept hx hx'
  obtain ⟨s, k, c, hmet, hc, htick⟩ := exists_tick_of_afterInk toggles hr hink
  rcases exists_part_of_tick hmet.kind_eq htick with (rfl | rfl | rfl) | ⟨p, hp, hle, hlt⟩ |
    ⟨o, rfl, htail⟩
  · exact hkept (Or.inl hmet.kind)
  · exact hkept (Or.inr (Or.inl hmet.kind))
  · refine hkept (Or.inr (Or.inr ⟨hmet.kind, fun j k hj hk => ?_⟩))
    cases k with
    | mathClose label => exact absurd (.opener hmet.kind hj hk) hnot
    | plain | inMath | mathOpen | formula | shortcode | divClose | divOpen => rfl
  · exact carried_of_part hnot hmet hp (by omega) (by omega)
  · exact absurd (.tail hmet (by omega)) hnot

/-! ## Nothing else is carried over -/

/-- What is carried over goes somewhere character by character, each from its line. -/
theorem Carried.goes {ranges : Array Range} {s : Site} {k : Kind} {a i c : Nat}
    (h : Carried toggles ranges t r a) (hmet : Met toggles ranges t i s k)
    (hc : c ≤ s.line.toList.length) (hle : r.start ≤ lineStart (split t) i + c)
    (hlt : lineStart (split t) i + c < r.stop) : ∃ q, Goes toggles ranges t i c q := by
  obtain ⟨i', c', q, hx, hgoes, -⟩ := h (lineStart (split t) i + c - r.start) (by omega)
  obtain ⟨s', k', hmet', hc'⟩ := hgoes.met
  obtain rfl : i = i' := Nat.le_antisymm (hmet'.line_le hc' (by omega)) (hmet.line_le hc (by omega))
  obtain rfl : c = c' := by omega
  exact ⟨q, hgoes⟩

theorem Met.not_kept {ranges : Array Range} {s : Site} {k : Kind} {p : Part} {i : Nat}
    (hmet : Met toggles ranges t i s k)
    (hp : k.content? s.line.body = some p ∨ k.label? s.line.body = some p) :
    ¬ Kept toggles ranges t i := by
  intro hkept
  obtain ⟨hcontent, hlabel⟩ := hkept.no_parts hmet s.line.body
  rw [hcontent, hlabel] at hp
  rcases hp with hp | hp <;> cases hp

theorem not_goes_stop {ranges : Array Range} {s : Site} {k : Kind} {p : Part} {i : Nat} {q : Spot}
    (hmet : Met toggles ranges t i s k)
    (hp : k.content? s.line.body = some p ∨ k.label? s.line.body = some p) :
    ¬ Goes toggles ranges t i p.stop q := by
  intro hgoes
  rcases hgoes.kept_or_part hmet with hkept | ⟨p', x, hp', hle, hx, -⟩ | ⟨p', hp', hle, hlt⟩
  · exact hmet.not_kept hp hkept
  · have hlt := Part.lt_stop hle hx
    rcases hp with hp | hp
    · obtain rfl := Option.some.inj (hp.symm.trans hp')
      exact Nat.lt_irrefl _ hlt
    · have hbefore := content?_before_label? hmet.kind_eq hp' hp
      have hwidth : p.column ≤ p.stop := Nat.le_add_right ..
      omega
  · rcases hp with hp | hp
    · have hbefore := content?_before_label? hmet.kind_eq hp hp'
      omega
    · obtain rfl := Option.some.inj (hp.symm.trans hp')
      exact Nat.lt_irrefl _ hlt

/-- A range that ends behind the part in which it begins is not carried over. -/
theorem Carried.stop_le {ranges : Array Range} {s : Site} {k : Kind} {p : Part} {a i : Nat}
    (h : Carried toggles ranges t r a) (hmet : Met toggles ranges t i s k)
    (hp : k.content? s.line.body = some p ∨ k.label? s.line.body = some p)
    (hlt : r.start < s.offset + p.stop) : r.stop ≤ s.offset + p.stop := by
  refine Nat.le_of_not_lt fun hacross => ?_
  rw [hmet.offset] at hlt hacross
  obtain ⟨q, hgoes⟩ := h.goes hmet (hmet.part_in hp).stop_le_toList (Nat.le_of_lt hlt) hacross
  exact not_goes_stop hmet hp hgoes

/-- What a shortcode has to spell in another way is not carried over. -/
theorem Carried.quote_not_mem {ranges : Array Range} {s : Site} {code : Shortcode} {p : Part}
    {a i : Nat} (h : Carried toggles ranges t r a) (hmet : Met toggles ranges t i s (.shortcode code))
    (hp : (Kind.shortcode code).content? s.line.body = some p) (hle : s.offset + p.column ≤ r.start)
    (hlt : r.start < s.offset + p.stop) : '"' ∉ slice t r := by
  intro hquote
  obtain ⟨m, hm⟩ := List.mem_iff_getElem?.mp hquote
  have hlong : m < r.stop - r.start := by
    have hwidth := (List.getElem?_eq_some_iff.mp hm).1
    rw [slice, List.length_take] at hwidth
    omega
  rw [slice, List.getElem?_take_of_lt hlong, List.getElem?_drop] at hm
  obtain ⟨c, hc⟩ := Nat.exists_eq_add_of_le (Nat.le_of_add_right_le hle)
  have hoffset := hmet.offset
  have hstop := h.stop_le hmet (Or.inl hp) hlt
  have hin := hmet.part_in (Or.inl hp)
  have hfits := hin.stop_le_toList
  have hchar := hmet.getElem?_part hin (c := c + m) (by omega) (by omega)
  rw [← hoffset, ← Nat.add_assoc, ← hc, hm] at hchar
  obtain ⟨q, hgoes⟩ := h.goes hmet (c := c + m) (by omega) (by omega) (by omega)
  rcases hgoes.kept_or_part hmet with hkept | ⟨p', x, hp', -, hx, hspell⟩ | ⟨p', hp', -⟩
  · exact hmet.not_kept (Or.inl hp) hkept
  · obtain rfl := Option.some.inj (hp.symm.trans hp')
    obtain rfl := Option.some.inj (hchar.trans hx)
    cases hspell
  · cases hp'

/-- What is dropped is not carried over. -/
theorem Carried.not_dropped {a : Nat} (h : Carried toggles (Scan.ranges t).toArray t r a)
    (hr : r ∈ Scan.ranges t) (hink : AfterInk t r) :
    ¬ Dropped toggles (Scan.ranges t).toArray t r := by
  have hpos := ((Scan.sorted_locate_tidy (Scan.regions_outlined t)).within r hr).1
  obtain ⟨s, k, c, hmet, hc, htick⟩ := exists_tick_of_afterInk toggles hr hink
  have hoffset := hmet.offset
  have hwidth : c < s.line.body.length := (List.getElem?_eq_some_iff.mp htick).1
  have hlength : s.line.toList.length = s.line.body.length + s.line.ending.length := by
    rw [Line.toList, List.length_append]
  obtain ⟨q, hgoes⟩ := h.goes hmet (c := c) (by omega) (by omega) (by omega)
  have hstart := hgoes.kept_or_part hmet
  rintro (⟨hkind, hj, hclose⟩ | ⟨hmet', htail⟩ | ⟨hmet', hp, hle, hlt, hacross⟩ | ⟨hmet', hquote⟩)
  · -- no part of the line, and it is not kept
    obtain rfl := Option.some.inj (hkind.symm.trans hmet.kind)
    rcases hstart with hkept | ⟨p, x, hp, -⟩ | ⟨p, hp, -⟩
    · rcases hkept with hkept | hkept | ⟨-, hopen⟩
      · cases hkind.symm.trans hkept
      · cases hkind.symm.trans hkept
      · exact Bool.noConfusion (hopen _ _ hj hclose)
    · cases hp
    · cases hp
  · obtain ⟨rfl, rfl⟩ := hmet.unique hmet'
    rcases hstart with hkept | ⟨p, x, hp, hle, hx, -⟩ | ⟨p, hp, -⟩
    · rcases hkept with hkept | hkept | ⟨hkept, -⟩ <;>
        cases hmet.kind.symm.trans hkept
    · have hbefore := content?_before_tail hmet.kind_eq hp
      have hlt := Part.lt_stop hle hx
      omega
    · cases hp
  · obtain ⟨rfl, rfl⟩ := hmet.unique hmet'
    exact Nat.not_lt_of_le (h.stop_le hmet hp hlt) hacross
  · obtain ⟨rfl, rfl⟩ := hmet.unique hmet'
    obtain ⟨p, hp, hle, hlt⟩ := content?_of_tick hmet.kind_eq htick
    exact h.quote_not_mem hmet hp (by omega) (by omega) hquote

end

/-- Ranges of a text are found again in another one: each says the same at its place, and the places
come in the order of the ranges and do not overlap, where some pairs change places. -/
structure Survive (out t : List Char) (rs : Range → Prop) (swapped : Nat → Nat → Prop)
    (place : Range → Nat) : Prop where
  same : ∀ r, rs r → slice out (moveTo r (place r)) = slice t r
  order : ∀ r r', rs r → rs r' → r.start < r'.start → ¬ swapped r.start r'.start →
    (moveTo r (place r)).stop ≤ place r'
  swap : ∀ r r', rs r → rs r' → r.start < r'.start → swapped r.start r'.start →
    (moveTo r' (place r')).stop ≤ place r

/-- **Code spans that share a line with a construct survive, unless they are dropped.**  A protected
range that begins behind the first character of its line is carried over to the output exactly if
it is not dropped.  Those that are carried over are found again with all they say.  They keep their
order, but for those in a label, which come before what the directive stands for, and they do not
overlap. -/
theorem shared_line_spans_survive (toggles : Toggles) (t : List Char) :
    (∀ r ∈ Scan.ranges t, AfterInk t r →
      ((∃ a, Carried toggles (Scan.ranges t).toArray t r a) ↔
        ¬ Dropped toggles (Scan.ranges t).toArray t r)) ∧
    ∃ place, Survive (Stage.convert toggles t) t
      (fun r => r ∈ Scan.ranges t ∧ AfterInk t r ∧
        ¬ Dropped toggles (Scan.ranges t).toArray t r)
      (Labels toggles (Scan.ranges t).toArray t) place := by
  refine ⟨fun r hr hink => ⟨fun ⟨_, ha⟩ => ha.not_dropped hr hink, exists_carried hr hink⟩, ?_⟩
  have htidy := Scan.sorted_locate_tidy (Scan.regions_outlined t)
  have hplaces : ∀ r, ∃ a, r ∈ Scan.ranges t ∧ AfterInk t r ∧
      ¬ Dropped toggles (Scan.ranges t).toArray t r →
      Carried toggles (Scan.ranges t).toArray t r a := by
    intro r
    by_cases h : r ∈ Scan.ranges t ∧ AfterInk t r ∧ ¬ Dropped toggles (Scan.ranges t).toArray t r
    · obtain ⟨a, ha⟩ := exists_carried h.1 h.2.1 h.2.2
      exact ⟨a, fun _ => ha⟩
    · exact ⟨0, fun h' => absurd h' h⟩
  obtain ⟨place, hplace⟩ := Classical.skolem.mp hplaces
  have hapart : ∀ r ∈ Scan.ranges t, ∀ r' ∈ Scan.ranges t, r.start < r'.start →
      r.stop ≤ r'.start := fun r hr r' hr' => (Scan.ranges_ordered t).stop_le hr hr'
  refine ⟨place, fun r hr => ?_, fun r r' hr hr' hlt hnot => ?_, fun r r' hr hr' hlt hswap => ?_⟩
  · exact (hplace r hr).slice_eq (htidy.within r hr.1).2
  · exact ((hplace r hr).apart (hplace r' hr') (htidy.within r hr.1).1 (htidy.within r' hr'.1).1
      (hapart r hr.1 r' hr'.1 hlt)).2 hnot
  · exact ((hplace r hr).apart (hplace r' hr') (htidy.within r hr.1).1 (htidy.within r' hr'.1).1
      (hapart r hr.1 r' hr'.1 hlt)).1 hswap

/-! ## Spans that do not survive -/

/-- All protected ranges that begin behind the first character of their line are found again, in
their order. -/
def SpansSurvive (toggles : Toggles) (t : List Char) : Prop :=
  ∃ place, Survive (Stage.convert toggles t) t (fun r => r ∈ Scan.ranges t ∧ AfterInk t r)
    (fun _ _ => False) place

section

variable {toggles : Toggles} {t : List Char} {rs : List Range} {r s : Range}

theorem not_spansSurvive_of_not_infix (hranges : Scan.ranges t = rs) (hr : r ∈ rs)
    (hink : AfterInk t r) (h : ¬ slice t r <:+: text toggles rs.toArray t) :
    ¬ SpansSurvive toggles t := by
  rintro ⟨place, hsurvive⟩
  have hsame := hsurvive.same r ⟨hranges ▸ hr, hink⟩
  rw [Stage.convert, hranges] at hsame
  refine h ?_
  rw [← hsame, slice]
  exact (List.take_prefix ..).isInfix.trans (List.drop_suffix ..).isInfix

theorem start_lt_of_slice (h : slice t r ≠ []) : r.start < t.length := by
  refine Nat.lt_of_not_le fun hle => h ?_
  rw [slice, List.drop_eq_nil_of_le hle, List.take_nil]

theorem not_spansSurvive_of_swapped (hranges : Scan.ranges t = rs) (hr : r ∈ rs) (hs : s ∈ rs)
    (hink : AfterInk t r ∧ AfterInk t s) (hlt : r.start < s.start)
    (hne : slice t r ≠ [] ∧ slice t s ≠ [])
    (h : ∀ a < (text toggles rs.toArray t).length, ∀ b < (text toggles rs.toArray t).length,
      slice (text toggles rs.toArray t) (moveTo r a) = slice t r →
      slice (text toggles rs.toArray t) (moveTo s b) = slice t s → b < (moveTo r a).stop) :
    ¬ SpansSurvive toggles t := by
  rintro ⟨place, hsurvive⟩
  have hr : r ∈ Scan.ranges t ∧ AfterInk t r := ⟨hranges ▸ hr, hink.1⟩
  have hs : s ∈ Scan.ranges t ∧ AfterInk t s := ⟨hranges ▸ hs, hink.2⟩
  have hsame := hsurvive.same r hr
  have hsame' := hsurvive.same s hs
  rw [Stage.convert, hranges] at hsame hsame'
  have hin := start_lt_of_slice (r := moveTo r (place r)) (hsame ▸ hne.1)
  have hin' := start_lt_of_slice (r := moveTo s (place s)) (hsame' ▸ hne.2)
  exact Nat.not_le_of_lt (h _ hin _ hin' hsame hsame') (hsurvive.order r s hr hs hlt id)

end

/-- Code spans that are not found again: one with a double quote, in a shortcode; one in the label
of an opening line; one behind the name of a div; one that covers the end of a formula; and two that
change places. -/
theorem shared_line_spans_changed :
    ¬ SpansSurvive {} "\x7b\x7b< `\"` >\x7d\x7d".toList ∧
      ¬ SpansSurvive {} "$$ \x7b`b`\x7d\n$$".toList ∧
      ¬ SpansSurvive {} "::: a `b`".toList ∧
      ¬ SpansSurvive {} "$$`a$$\x7bb`\x7d".toList ∧
      ¬ SpansSurvive {} "$$`a`$$\x7b`b`\x7d".toList := by
  have hquote : Scan.ranges "\x7b\x7b< `\"` >\x7d\x7d".toList = [⟨4, 7⟩] :=
    (Scan.ranges_eq_recorded _).trans (by decide +kernel)
  have hlabel : Scan.ranges "$$ \x7b`b`\x7d\n$$".toList = [⟨4, 7⟩] :=
    (Scan.ranges_eq_recorded _).trans (by decide +kernel)
  have htail : Scan.ranges "::: a `b`".toList = [⟨6, 9⟩] :=
    (Scan.ranges_eq_recorded _).trans (by decide +kernel)
  have hacross : Scan.ranges "$$`a$$\x7bb`\x7d".toList = [⟨2, 9⟩] :=
    (Scan.ranges_eq_recorded _).trans (by decide +kernel)
  have hswap : Scan.ranges "$$`a`$$\x7b`b`\x7d".toList = [⟨2, 5⟩, ⟨8, 11⟩] :=
    (Scan.ranges_eq_recorded _).trans (by decide +kernel)
  refine ⟨?_, ?_, ?_, ?_, ?_⟩
  · exact not_spansSurvive_of_not_infix hquote List.mem_cons_self
      ⟨0, by decide +kernel, by decide⟩ (by decide +kernel)
  · exact not_spansSurvive_of_not_infix hlabel List.mem_cons_self
      ⟨0, by decide +kernel, by decide⟩ (by decide +kernel)
  · exact not_spansSurvive_of_not_infix htail List.mem_cons_self
      ⟨0, by decide +kernel, by decide⟩ (by decide +kernel)
  · exact not_spansSurvive_of_not_infix hacross List.mem_cons_self
      ⟨0, by decide +kernel, by decide⟩ (by decide +kernel)
  · exact not_spansSurvive_of_swapped hswap List.mem_cons_self
      (List.mem_cons_of_mem _ List.mem_cons_self)
      ⟨⟨0, by decide +kernel, by decide⟩, ⟨0, by decide +kernel, by decide⟩⟩ (by decide)
      (by decide +kernel) (by decide +kernel)

end Convert

end DirectiveFences
