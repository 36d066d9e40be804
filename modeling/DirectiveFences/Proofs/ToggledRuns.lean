/-
Two runs over one text.

A toggle decides whether a rule is asked at all, and a line that one rule leaves alone goes to
the rules after it, which change the state.  So it has to be shown that no rule after it takes
the line.  For shortcodes this is a matter of shape: a line that is a shortcode is no fence, and
where the rule is not asked the line is kept.  From the same state both runs come to the same
state and note the same; they go through the text in lockstep (`trace_agrees`), and differ in
what they write for these lines only (`group_agrees`).  For math a text without a formula or
block to be found is assumed, and then the runs are equal step by step.
-/
import DirectiveFences.Proofs.Carried

namespace DirectiveFences.Convert

open Text Shape

/-- Line `i` of a text is a shortcode that nothing keeps from being converted: it is not protected,
and no math block is open before it. -/
structure ShortcodeAt (toggles : Toggles) (ranges : Array Range) (t : List Char) (i : Nat)
    (s : Site) (code : Shortcode) : Prop where
  site : (sitesOf ranges t)[i]? = some s
  bare : s.isInert = false
  outside : (stateAt toggles ranges t i).inMath = false
  shape : shortcode? s.line.body = some code

/-- On every line of a text that begins with `$$`, but for blanks, the `$$` is protected. -/
def MathProtected (ranges : Array Range) (t : List Char) : Prop :=
  ∀ s ∈ sitesOf ranges t, mathMark <+: stripFront s.line.body → s.isInert = true

instance (ranges : Array Range) (t : List Char) : Decidable (MathProtected ranges t) :=
  inferInstanceAs (Decidable (∀ s ∈ sitesOf ranges t, _))

variable {a b : Toggles} {ranges : Array Range} {t : List Char}

/-! ## Shortcodes -/

theorem kind_of_shortcode (toggles : Toggles) {s : Site} {code : Shortcode}
    (hcode : shortcode? s.line.body = some code) (hi : s.isInert = false) :
    kind toggles s false = if toggles.shortcodes then .shortcode code else .plain := by
  have hmark : ∀ rest, after? mathMark (strip s.line.body) ≠ some rest := fun rest hrest => by
    cases hcode.symm.trans (no_shape_of_mathMark hrest).1
  have hcolon : ∀ ds, s.line.body ≠ ':' :: ds := fun ds hds => by
    cases hcode.symm.trans (shortcode?_of_colon hds)
  obtain ⟨hstart, hfence⟩ := no_math_of_no_mark hmark
  obtain ⟨hcloser, hopener⟩ := no_fence_of_no_colon hcolon
  cases htoggle : toggles.shortcodes <;>
    simp [kind, shapeKind, hi, hstart, hfence, hcloser, hopener, hcode, htoggle]

/-- Only a shortcode outside of math, which is not protected, may be of two kinds. -/
theorem kind_agrees (h : a.mathLabels = b.mathLabels) (s : Site) (inMath : Bool) :
    kind a s inMath = kind b s inMath ∨
      inMath = false ∧ s.isInert = false ∧ ∃ code, shortcode? s.line.body = some code := by
  cases inMath with
  | true => exact Or.inl (by simp only [kind, h, if_true])
  | false =>
      cases hi : s.isInert with
      | true => exact Or.inl (by rw [kind_of_isInert a hi, kind_of_isInert b hi])
      | false =>
          cases hcode : shortcode? s.line.body with
          | none => exact Or.inl (by simp [kind, shapeKind, h, hcode])
          | some code => exact Or.inr ⟨rfl, rfl, code, rfl⟩

/-- Neither what a shortcode becomes nor a line that is kept changes the state. -/
theorem step_agrees (h : a.mathLabels = b.mathLabels) (s : Site) (st : State) :
    (step a s st).state = (step b s st).state ∧ (step a s st).notes = (step b s st).notes := by
  have hidle : ∀ toggles : Toggles, ∀ code, st.inMath = false → s.isInert = false →
      shortcode? s.line.body = some code →
      (step toggles s st).state = st ∧ (step toggles s st).notes = [] := by
    intro toggles code hmath hi hcode
    rw [step_eq_act, hmath, kind_of_shortcode toggles hcode hi]
    cases toggles.shortcodes <;> exact ⟨rfl, rfl⟩
  rcases kind_agrees h s st.inMath with heq | ⟨hmath, hi, code, hcode⟩
  · rw [step_eq_act, step_eq_act, heq]
    exact ⟨rfl, rfl⟩
  · obtain ⟨hstate, hnotes⟩ := hidle a code hmath hi hcode
    obtain ⟨hstate', hnotes'⟩ := hidle b code hmath hi hcode
    exact ⟨hstate.trans hstate'.symm, hnotes.trans hnotes'.symm⟩

theorem trace_agrees (h : a.mathLabels = b.mathLabels) (st : State) (ss : List Site) :
    (trace a st ss).map (fun r => (r.state, r.notes)) =
      (trace b st ss).map (fun r => (r.state, r.notes)) := by
  induction ss generalizing st with
  | nil => rfl
  | cons s ss ih =>
      obtain ⟨hstate, hnotes⟩ := step_agrees h s st
      rw [trace, trace, List.map_cons, List.map_cons, hstate, hnotes, ih]

theorem after_agrees (h : a.mathLabels = b.mathLabels) (st : State) (ss : List Site) :
    after a st ss = after b st ss := by
  induction ss generalizing st with
  | nil => rfl
  | cons s ss ih => rw [after_cons, after_cons, (step_agrees h s st).1, ih]

theorem notes_agree (h : a.mathLabels = b.mathLabels) :
    notes a ranges t = notes b ranges t := by
  have hnotes := congrArg (fun rs => rs.flatMap Prod.snd) (trace_agrees h {} (sitesOf ranges t))
  simp only [List.flatMap_map] at hnotes
  rw [notes_eq_trace, notes_eq_trace, hnotes, after_agrees h]

theorem closing?_agrees (h : a.mathLabels = b.mathLabels) (ss : List Site) :
    closing? a ss = closing? b ss := by
  induction ss with
  | nil => rfl
  | cons s ss ih =>
      have hkind : kind a s true = kind b s true := by
        rcases kind_agrees h s true with heq | ⟨hmath, -⟩
        · exact heq
        · cases hmath
      rw [closing?, closing?, hkind, ih]

theorem group_agrees (h : a.mathLabels = b.mathLabels) {i : Nat}
    (hnot : ∀ s code, ¬ ShortcodeAt a ranges t i s code) :
    (groupsOf a ranges t)[i]? = (groupsOf b ranges t)[i]? := by
  cases hs : (sitesOf ranges t)[i]? with
  | none =>
      have hlength : (split t).length ≤ i := by
        rw [← length_sitesOf ranges t]
        exact List.getElem?_eq_none_iff.mp hs
      rw [List.getElem?_eq_none (by rwa [length_groupsOf]),
        List.getElem?_eq_none (by rwa [length_groupsOf])]
  | some s =>
      have hstate : stateAt a ranges t i = stateAt b ranges t i := after_agrees h {} _
      rw [getElem?_groupsOf hs, getElem?_groupsOf hs, ← hstate]
      rcases kind_agrees h s (stateAt a ranges t i).inMath with heq | ⟨hmath, hi, code, hcode⟩
      · rw [heq]
        cases hk : kind b s (stateAt a ranges t i).inMath with
        | mathOpen => rw [Kind.group, Kind.group, closing?_agrees h]
        | plain | inMath | mathClose | formula | shortcode | divClose | divOpen => rfl
      · exact absurd ⟨hs, hi, hmath, hcode⟩ (hnot s code)

/-- What stands for a shortcode. -/
theorem ShortcodeAt.group {i : Nat} {s : Site} {code : Shortcode}
    (h : ShortcodeAt a ranges t i s code) :
    (groupsOf a ranges t)[i]? =
      some [if a.shortcodes then s.ended (leafDirective code) else s.line.toList] := by
  rw [getElem?_groupsOf h.site, h.outside, kind_of_shortcode a h.shape h.bare]
  cases a.shortcodes <;> rfl

theorem ShortcodeAt.congr {i : Nat} {s : Site} {code : Shortcode}
    (h : ShortcodeAt a ranges t i s code) (hmath : a.mathLabels = b.mathLabels) :
    ShortcodeAt b ranges t i s code :=
  ⟨h.site, h.bare, by rw [← h.outside, stateAt, stateAt, after_agrees hmath], h.shape⟩

/-! ## Where the lines come out -/

theorem exists_group {gs : List (List (List Char))} {j : Nat} (hj : j < gs.flatten.length) :
    ∃ i g d, gs[i]? = some g ∧ d < g.length ∧ j = groupStart gs i + d := by
  induction gs generalizing j with
  | nil => exact absurd hj (Nat.not_lt_zero j)
  | cons g gs ih =>
      rcases Nat.lt_or_ge j g.length with hlt | hge
      · exact ⟨0, g, j, rfl, hlt, (Nat.zero_add j).symm⟩
      · rw [List.flatten_cons, List.length_append] at hj
        obtain ⟨i, g', d, hg', hd, hjd⟩ := ih (j := j - g.length) (by omega)
        refine ⟨i + 1, g', d, hg', hd, ?_⟩
        rw [groupStart] at hjd ⊢
        rw [List.take_succ_cons, List.flatten_cons, List.length_append]
        omega

theorem map_length_groupsOf (h : a.mathLabels = b.mathLabels) :
    (groupsOf a ranges t).map List.length = (groupsOf b ranges t).map List.length := by
  refine List.ext_getElem? fun i => ?_
  rw [List.getElem?_map, List.getElem?_map]
  by_cases hcode : ∃ s code, ShortcodeAt a ranges t i s code
  · obtain ⟨s, code, hcode⟩ := hcode
    rw [hcode.group, (hcode.congr h).group]
    rfl
  · rw [group_agrees h fun s code hcode' => hcode ⟨s, code, hcode'⟩]

theorem groupStart_agrees (h : a.mathLabels = b.mathLabels) (i : Nat) :
    groupStart (groupsOf a ranges t) i = groupStart (groupsOf b ranges t) i := by
  rw [groupStart, groupStart, List.length_flatten, List.length_flatten, List.map_take,
    List.map_take, map_length_groupsOf h]

theorem length_split_agrees (h : a.mathLabels = b.mathLabels) :
    (split (text a ranges t)).length = (split (text b ranges t)).length := by
  rw [split_text_eq_groups, split_text_eq_groups, List.length_flatten, List.length_flatten,
    map_length_groupsOf h]

theorem line_agrees (h : a.mathLabels = b.mathLabels) {j : Nat}
    (hj : ∀ i s code, ShortcodeAt a ranges t i s code → j ≠ groupStart (groupsOf a ranges t) i) :
    (split (text a ranges t))[j]? = (split (text b ranges t))[j]? := by
  rcases Nat.lt_or_ge j (split (text a ranges t)).length with hlt | hge
  · rw [split_text_eq_groups] at hlt ⊢
    obtain ⟨i, g, d, hg, hd, rfl⟩ := exists_group hlt
    have hnot : ∀ s code, ¬ ShortcodeAt a ranges t i s code := by
      intro s code hcode
      obtain rfl := Option.some.inj (hg.symm.trans hcode.group)
      obtain rfl : d = 0 := Nat.lt_one_iff.mp hd
      exact hj i s code hcode rfl
    rw [getElem?_flatten hg hd, split_text_eq_groups, groupStart_agrees h,
      getElem?_flatten ((group_agrees h hnot).symm.trans hg) hd]
  · rw [List.getElem?_eq_none hge, List.getElem?_eq_none (by rwa [← length_split_agrees h])]

theorem ShortcodeAt.line {i : Nat} {s : Site} {code : Shortcode}
    (h : ShortcodeAt a ranges t i s code) :
    (split (text a ranges t))[groupStart (groupsOf a ranges t) i]? =
      some (if a.shortcodes then s.ended (leafDirective code) else s.line.toList) := by
  rw [split_text_eq_groups, ← Nat.add_zero (groupStart _ i),
    getElem?_flatten h.group (Nat.lt_one_iff.mpr rfl)]
  rfl

/-! ## Math -/

/-- A line without `$$` at its front is of the same kind whether math is wanted or not, and so is
one whose `$$` is protected. -/
theorem kind_of_mathProtected (h : a.shortcodes = b.shortcodes) {s : Site}
    (hs : mathMark <+: stripFront s.line.body → s.isInert = true) (inMath : Bool) :
    kind a s inMath = kind b s inMath := by
  cases hi : s.isInert with
  | true => rw [kind_of_isInert a hi, kind_of_isInert b hi]
  | false =>
      have hmark : ∀ rest, after? mathMark (strip s.line.body) ≠ some rest := by
        intro rest hrest
        have hprefix : mathMark <+: stripFront s.line.body :=
          (after?_eq_some_iff.mp hrest ▸ List.prefix_append mathMark rest).trans
            (stripBack_append (stripFront s.line.body))
        exact Bool.noConfusion (hi.symm.trans (hs hprefix))
      obtain ⟨hstart, hfence⟩ := no_math_of_no_mark hmark
      simp [kind, shapeKind, hi, hstart, hfence, h]

theorem trace_of_mathProtected (h : a.shortcodes = b.shortcodes) (st : State) {ss : List Site}
    (hss : ∀ s ∈ ss, mathMark <+: stripFront s.line.body → s.isInert = true) :
    trace a st ss = trace b st ss := by
  induction ss generalizing st with
  | nil => rfl
  | cons s ss ih =>
      have hstep : step a s st = step b s st := by
        rw [step_eq_act, step_eq_act,
          kind_of_mathProtected h (hss s List.mem_cons_self) st.inMath]
      rw [trace, trace, hstep, ih _ fun s' hs' => hss s' (List.mem_cons_of_mem s hs')]

/-- **A toggle acts on its own construct only.**  Of two runs over a text, one with and one without
shortcodes, the outputs have equally many lines.  They differ in the lines that stand for shortcodes
that nothing keeps from being converted: the one has the directive, the other the line of the
source.  After each line of the source both runs are in the same state and have noted the same.
Where math is wanted in one of the runs only, and every `$$` at the front of a line is protected,
nothing differs. -/
theorem toggles_act_alone (ranges : Array Range) (t : List Char) :
    (∀ math : Bool,
      let on : Toggles := ⟨true, math⟩
      let off : Toggles := ⟨false, math⟩
      let start := groupStart (groupsOf on ranges t)
      (split (text on ranges t)).length = (split (text off ranges t)).length ∧
      (∀ j, (∀ i s code, ShortcodeAt on ranges t i s code → j ≠ start i) →
        (split (text on ranges t))[j]? = (split (text off ranges t))[j]?) ∧
      (∀ i s code, ShortcodeAt on ranges t i s code →
        (split (text on ranges t))[start i]? = some (s.ended (leafDirective code)) ∧
        (split (text off ranges t))[start i]? = some s.line.toList) ∧
      (steps on ranges 0 {} (split t)).map (fun r => (r.state, r.notes)) =
        (steps off ranges 0 {} (split t)).map (fun r => (r.state, r.notes)) ∧
      notes on ranges t = notes off ranges t) ∧
    (MathProtected ranges t → ∀ codes : Bool,
      text ⟨codes, true⟩ ranges t = text ⟨codes, false⟩ ranges t ∧
      notes ⟨codes, true⟩ ranges t = notes ⟨codes, false⟩ ranges t) := by
  constructor
  · intro math on off start
    have h : on.mathLabels = off.mathLabels := rfl
    refine ⟨length_split_agrees h, fun j => line_agrees h, fun i s code hcode => ⟨hcode.line, ?_⟩,
      ?_, notes_agree h⟩
    · show (split (text off ranges t))[groupStart (groupsOf on ranges t) i]? = _
      rw [groupStart_agrees h]
      exact (hcode.congr h).line
    · rw [steps_eq_trace, steps_eq_trace]
      exact trace_agrees h {} _
  · intro hmath codes
    have htrace := @trace_of_mathProtected ⟨codes, true⟩ ⟨codes, false⟩ rfl {} _ hmath
    have hafter : after ⟨codes, true⟩ {} (sitesOf ranges t) =
        after ⟨codes, false⟩ {} (sitesOf ranges t) := by
      rw [← lastState_trace, htrace, lastState_trace]
    constructor
    · rw [text, text, lines_eq_trace, lines_eq_trace, htrace, hafter]
    · rw [notes_eq_trace, notes_eq_trace, htrace, hafter]

/-- A `$$` inside a code span is not looked at, and the shortcode and the div after it are converted
with or without math. -/
theorem dollarsInSpan_alike :
    let t := "`a\n$$\n` b\n\x7b\x7b< x >\x7d\x7d\n::: n".toList
    let ranges : Array Range := #[⟨0, 7⟩]
    MathProtected ranges t ∧ text ⟨true, true⟩ ranges t = text ⟨true, false⟩ ranges t ∧
      text ⟨true, true⟩ ranges t ≠ t := by
  intro t ranges
  have hmath : MathProtected ranges t := by decide +kernel
  exact ⟨hmath, ((toggles_act_alone ranges t).2 hmath true).1, by decide +kernel⟩

end DirectiveFences.Convert
