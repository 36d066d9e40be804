/-
How a line can be read, and how many constructs it then holds.

A line of display math can often be read in more than one way, since `$$` and braces may stand in
a formula and in a label as well.  `IsFormula` says what a reading is, and the conversion takes the
one with the longest formula (`mathLine?_eq_some_iff`): a formula goes on up to the last `$$` that
nothing but a label follows, and a label from its first brace to the end of the line.  The body of
a shortcode goes on in the same way up to the last `>}}`.

So a line is rewritten as one construct only if it cannot be read as anything else.  For formulas
that is a condition on all readings, not on the longest one alone, since a formula in which no `$$`
stands leaves no room for another one (`IsFormula.eq_of_not_infix`).
-/
import DirectiveFences.Proofs.ToggledRuns
import DirectiveFences.Proofs.Recording
import DirectiveFences.Stage

namespace DirectiveFences

namespace Shape

open Text

/-! ## Labels -/

/-- A label of display math: none, or what stands between an opening brace and a closing one.  There
may be braces in between. -/
def IsLabel (label : List Char) : Prop :=
  label = [] ∨ ∃ inner, label = '{' :: (inner ++ ['}']) ∧ '\n' ∉ inner

/-- A label is one pair of braces, if it is any. -/
def IsOneGroup (label : List Char) : Prop :=
  '}' ∉ label.dropLast

instance : DecidablePred IsOneGroup := fun _ => inferInstanceAs (Decidable (_ ∉ _))

theorem stripFront_append {gap cs : List Char} (hgap : gap.all isBlank = true) :
    stripFront (gap ++ cs) = stripFront cs :=
  List.dropWhile_append_of_pos (List.all_eq_true.mp hgap)

theorem mathLabel?_eq_some_iff {cs label : List Char} :
    mathLabel? cs = some label ↔
      ∃ gap, cs = gap ++ label ∧ gap.all isBlank = true ∧ IsLabel label := by
  constructor
  · intro h
    obtain ⟨gap, rfl, hgap⟩ := eq_of_mathLabel? h
    refine ⟨gap, rfl, hgap, ?_⟩
    rw [mathLabel?, stripFront_append hgap] at h
    split at h
    · exact Or.inl (Option.some.inj h).symm
    · obtain ⟨⟨hlast, hline⟩, heq⟩ := Option.ite_none_right_eq_some.mp h
      obtain ⟨inner, rfl⟩ := List.getLast?_eq_some_iff.mp hlast
      exact Or.inr ⟨inner, (Option.some.inj heq).symm, fun hmem =>
        hline (List.mem_append_left _ hmem)⟩
    · cases h
  · rintro ⟨gap, rfl, hgap, hlabel⟩
    rw [mathLabel?, stripFront_append hgap]
    rcases hlabel with rfl | ⟨inner, rfl, hinner⟩
    · rfl
    · have hline : '\n' ∉ inner ++ ['}'] := by simpa using hinner
      simp only [stripFront, List.dropWhile_cons_of_neg (show ¬ isBlank '{' = true by decide)]
      rw [if_pos ⟨List.getLast?_concat, hline⟩]

/-! ## Formulas -/

/-- A way to read a line as a formula with its label: the mark, one character or more, the mark
again, blanks, and the label. -/
structure IsFormula (line content label : List Char) : Prop where
  parts : ∃ gap, line = mathMark ++ (content ++ (mathMark ++ (gap ++ label))) ∧
    gap.all isBlank = true
  content : content ≠ [] ∧ '\n' ∉ content
  label : IsLabel label

/-- The mark does not stand in the formula, and the label is one pair of braces, if it is any. -/
structure IsSingle (content label : List Char) : Prop where
  content : ¬ mathMark <:+: content
  label : IsOneGroup label

variable {line content content' label label' : List Char}

/-- Of a line two readings with formulas of one length are the same. -/
theorem IsFormula.unique (h : IsFormula line content label) (h' : IsFormula line content' label')
    (hlength : content'.length = content.length) : content' = content ∧ label' = label := by
  obtain ⟨gap, rfl, hgap⟩ := h.parts
  obtain ⟨gap', hline, hgap'⟩ := h'.parts
  obtain ⟨hcontent, hback⟩ :=
    List.append_inj (List.append_cancel_left hline).symm hlength
  have hrest := mathLabel?_eq_some_iff.mpr ⟨gap, rfl, hgap, h.label⟩
  rw [← List.append_cancel_left hback] at hrest
  have hrest' := mathLabel?_eq_some_iff.mpr ⟨gap', rfl, hgap', h'.label⟩
  exact ⟨hcontent, Option.some.inj (hrest'.symm.trans hrest)⟩

theorem IsFormula.eq_of_not_infix (h : IsFormula line content label)
    (hmark : ¬ mathMark <:+: content) (h' : IsFormula line content' label')
    (hlength : content'.length ≤ content.length) : content' = content ∧ label' = label := by
  obtain ⟨gap, hline, -⟩ := h.parts
  obtain ⟨gap', hline', hgap'⟩ := h'.parts
  obtain ⟨rest, rfl⟩ : content' <+: content := by
    have hsame := List.append_cancel_left (hline.symm.trans hline')
    refine List.prefix_of_prefix_length_le ?_
      (List.prefix_append content (mathMark ++ (gap ++ label))) hlength
    exact hsame ▸ List.prefix_append content' _
  have hback : rest ++ (mathMark ++ (gap ++ label)) = mathMark ++ (gap' ++ label') := by
    have hparts : (mathMark ++ content') ++ (rest ++ (mathMark ++ (gap ++ label))) =
        (mathMark ++ content') ++ (mathMark ++ (gap' ++ label')) := by
      simpa using hline.symm.trans hline'
    exact List.append_cancel_left hparts
  match rest, hback with
  | [], _ => exact h.unique h' (by simp)
  | [c], hback =>
      -- the mark would end inside the other one, and a dollar sign stand before the label
      have hdollar : gap' ++ label' = '$' :: (gap ++ label) := by
        simpa [mathMark, eq_comm] using congrArg (List.drop 2) hback
      have hlabel := mathLabel?_eq_some_iff.mpr ⟨gap', rfl, hgap', h'.label⟩
      rw [hdollar] at hlabel
      cases hlabel
  | c :: d :: rest, hback =>
      have hmarked : [c, d] = mathMark := congrArg (List.take 2) hback
      refine absurd ⟨content', rest, ?_⟩ hmark
      rw [← hmarked, List.append_assoc]
      rfl

theorem newline_not_mem_formulaFrom {cs : List Char}
    (h : formulaFrom cs = some (content, label)) : '\n' ∉ content := by
  induction cs generalizing content with
  | nil => cases h
  | cons c cs ih =>
      unfold formulaFrom at h
      split at h
      · rename_i formula' label' hlater
        cases h
        split at hlater
        · cases hlater
        · rename_i hc
          exact List.not_mem_cons_of_ne_of_not_mem (Ne.symm hc) (ih hlater)
      · split at h
        · cases h
        · obtain ⟨_, -, hpair⟩ := Option.map_eq_some_iff.mp h
          cases hpair
          exact List.not_mem_nil

theorem formulaFrom_longest {rest : List Char} (hline : '\n' ∉ content)
    (hlabel : mathLabel? rest = some label) :
    ∃ formula label', formulaFrom (content ++ (mathMark ++ rest)) = some (formula, label') ∧
      content.length ≤ formula.length := by
  induction content with
  | nil =>
      rw [List.nil_append, mathMark, List.cons_append, formulaFrom]
      split
      · exact ⟨_, _, rfl, Nat.zero_le _⟩
      · refine ⟨[], label, ?_, Nat.zero_le _⟩
        rw [← List.cons_append, ← mathMark, after?_eq_some_iff.mpr rfl]
        simp only [hlabel, Option.map_some]
  | cons c content ih =>
      obtain ⟨hc, hline⟩ := List.ne_and_not_mem_of_not_mem_cons hline
      obtain ⟨formula, label', hformula, hle⟩ := ih hline
      refine ⟨c :: formula, label', ?_, Nat.succ_le_succ hle⟩
      rw [List.cons_append, formulaFrom, if_neg (Ne.symm hc), hformula]

theorem isFormula_of_mathLine? (h : mathLine? line = some (content, label)) :
    IsFormula line content label := by
  obtain ⟨rest, hparts, hrest⟩ := eq_of_mathLine? h
  obtain ⟨gap, rfl, hgap, hlabel⟩ := mathLabel?_eq_some_iff.mp hrest
  refine ⟨⟨gap, hparts, hgap⟩, ?_, hlabel⟩
  unfold mathLine? at h
  split at h
  · split at h
    · cases h
    · rename_i hc
      obtain ⟨⟨formula, _⟩, hfrom, hpair⟩ := Option.map_eq_some_iff.mp h
      cases hpair
      exact ⟨List.cons_ne_nil _ _, List.not_mem_cons_of_ne_of_not_mem (Ne.symm hc)
        (newline_not_mem_formulaFrom hfrom)⟩
  · cases h

theorem mathLine?_longest (h : IsFormula line content label) :
    ∃ formula label', mathLine? line = some (formula, label') ∧
      content.length ≤ formula.length := by
  obtain ⟨gap, rfl, hgap⟩ := h.parts
  obtain ⟨hne, hline⟩ := h.content
  obtain ⟨c, cs, rfl⟩ := List.exists_cons_of_ne_nil hne
  obtain ⟨hc, hline⟩ := List.ne_and_not_mem_of_not_mem_cons hline
  obtain ⟨formula, label', hfrom, hle⟩ :=
    formulaFrom_longest hline (mathLabel?_eq_some_iff.mpr ⟨gap, rfl, hgap, h.label⟩)
  refine ⟨c :: formula, label', ?_, Nat.succ_le_succ hle⟩
  rw [mathLine?, after?_eq_some_iff.mpr rfl]
  simp only [List.cons_append]
  rw [if_neg (Ne.symm hc), hfrom]
  rfl

/-- A line is taken for the formula of its longest reading, and for none only if it has none. -/
theorem mathLine?_eq_some_iff :
    mathLine? line = some (content, label) ↔ IsFormula line content label ∧
      ∀ content' label', IsFormula line content' label' → content'.length ≤ content.length := by
  constructor
  · refine fun h => ⟨isFormula_of_mathLine? h, fun content' label' h' => ?_⟩
    obtain ⟨formula, _, hformula, hle⟩ := mathLine?_longest h'
    obtain ⟨rfl, -⟩ := Prod.mk.inj (Option.some.inj (hformula.symm.trans h))
    exact hle
  · rintro ⟨h, hlongest⟩
    obtain ⟨formula, label', hformula, hle⟩ := mathLine?_longest h
    have h' := isFormula_of_mathLine? hformula
    obtain ⟨rfl, rfl⟩ := h.unique h' (Nat.le_antisymm (hlongest _ _ h') hle)
    exact hformula

theorem mathLine?_eq_none_iff :
    mathLine? line = none ↔ ∀ content label, ¬ IsFormula line content label := by
  constructor
  · intro hnone content label h
    obtain ⟨_, _, hformula, -⟩ := mathLine?_longest h
    cases hnone.symm.trans hformula
  · refine fun h => Option.eq_none_iff_forall_ne_some.mpr fun found hfound => ?_
    exact h _ _ (isFormula_of_mathLine? hfound)

/-- The longest reading is of one construct exactly if every reading is. -/
theorem isSingle_iff_of_mathLine? (h : mathLine? line = some (content, label)) :
    IsSingle content label ↔
      ∀ content' label', IsFormula line content' label' → IsSingle content' label' := by
  obtain ⟨hreading, hlongest⟩ := mathLine?_eq_some_iff.mp h
  refine ⟨fun hsingle content' label' h' => ?_, fun hall => hall _ _ hreading⟩
  obtain ⟨rfl, rfl⟩ := hreading.eq_of_not_infix hsingle.content h' (hlongest _ _ h')
  exact hsingle

/-! ## Fences of math blocks -/

/-- A way to read a line as the fence of a math block. -/
def IsMathFence (line label : List Char) : Prop :=
  ∃ gap, line = mathMark ++ (gap ++ label) ∧ gap.all isBlank = true ∧ IsLabel label

theorem mathFence?_eq_some_iff : mathFence? line = some label ↔ IsMathFence line label := by
  constructor
  · intro h
    obtain ⟨rest, rfl, hrest⟩ := eq_of_mathFence? h
    obtain ⟨gap, rfl, hgap, hlabel⟩ := mathLabel?_eq_some_iff.mp hrest
    exact ⟨gap, rfl, hgap, hlabel⟩
  · rintro ⟨gap, rfl, hgap, hlabel⟩
    rw [mathFence?, after?_eq_some_iff.mpr rfl, Option.bind_some]
    exact mathLabel?_eq_some_iff.mpr ⟨gap, rfl, hgap, hlabel⟩

/-- The label of a fence is one pair of braces exactly if no brace is closed before the end of the
line. -/
theorem IsMathFence.isOneGroup_iff (h : IsMathFence line label) :
    IsOneGroup label ↔ '}' ∉ line.dropLast := by
  obtain ⟨gap, rfl, hgap, -⟩ := h
  have hfront : '}' ∉ mathMark ++ gap := by
    rw [List.mem_append, not_or]
    exact ⟨by decide, fun hmem => absurd (List.all_eq_true.mp hgap _ hmem) (by decide)⟩
  rw [← List.append_assoc, IsOneGroup]
  cases label with
  | nil =>
      rw [List.append_nil]
      exact iff_of_true List.not_mem_nil fun hmem => hfront (List.dropLast_subset _ hmem)
  | cons c label =>
      rw [List.dropLast_append_of_ne_nil (List.cons_ne_nil c label), List.mem_append]
      exact not_congr (or_iff_right hfront).symm

/-! ## Shortcodes -/

/-- A way to read a line as a shortcode: blanks, the mark, a blank, the body of one character or
more, a blank, the end mark, and blanks. -/
structure IsShortcode (line : List Char) (code : Shortcode) : Prop where
  parts : ∃ first last, line = code.indent ++ (shortcodeMark ++ (first :: (code.body ++
    (last :: (shortcodeEnd ++ code.trailing))))) ∧ isBlank first = true ∧ isBlank last = true
  around : code.indent.all isBlank = true ∧ code.trailing.all isBlank = true
  body : code.body ≠ [] ∧ '\n' ∉ code.body

theorem shortcodeBody?_eq_some_iff {cs body : List Char} :
    shortcodeBody? cs = some body ↔ ∃ first last, cs = first :: (body ++ [last]) ∧
      isBlank first = true ∧ isBlank last = true ∧ body ≠ [] ∧ '\n' ∉ body := by
  have hcond (first last : Char) (body : List Char) :
      (isBlank first && isBlank last && !body.isEmpty && !body.contains '\n') = true ↔
        isBlank first = true ∧ isBlank last = true ∧ body ≠ [] ∧ '\n' ∉ body := by
    simp [and_assoc]
  constructor
  · intro h
    obtain ⟨first, last, rfl, -⟩ := eq_of_shortcodeBody? h
    rw [shortcodeBody?, List.getLast?_concat] at h
    simp only [List.dropLast_concat] at h
    exact ⟨first, last, rfl, (hcond first last body).mp (Option.ite_none_right_eq_some.mp h).1⟩
  · rintro ⟨first, last, rfl, h⟩
    rw [shortcodeBody?, List.getLast?_concat]
    simp only [List.dropLast_concat]
    exact if_pos ((hcond first last body).mpr h)

theorem shortcode?_eq_some_iff {code : Shortcode} :
    shortcode? line = some code ↔ IsShortcode line code := by
  constructor
  · intro h
    obtain ⟨first, last, hparts, hfirst, hlast, hindent, htrailing⟩ := eq_of_shortcode? h
    refine ⟨⟨first, last, hparts, hfirst, hlast⟩, ⟨hindent, htrailing⟩, ?_⟩
    unfold shortcode? at h
    split at h
    · cases h
    · split at h
      · cases h
      · obtain ⟨body, hbody, rfl⟩ := Option.map_eq_some_iff.mp h
        obtain ⟨_, _, -, -, -, hbody⟩ := shortcodeBody?_eq_some_iff.mp hbody
        exact hbody
  · rintro ⟨⟨first, last, rfl, hfirst, hlast⟩, ⟨hindent, htrailing⟩, hbody⟩
    -- the blanks around are cut off, from the front and from the back
    have hfront : ∀ inner,
        (code.indent ++ (shortcodeMark ++ inner)).takeWhile isBlank = code.indent ∧
          (code.indent ++ (shortcodeMark ++ inner)).dropWhile isBlank = shortcodeMark ++ inner := by
      intro inner
      rw [List.takeWhile_append_of_pos (List.all_eq_true.mp hindent),
        List.dropWhile_append_of_pos (List.all_eq_true.mp hindent)]
      exact ⟨by rw [shortcodeMark, List.cons_append, List.takeWhile_cons_of_neg (by decide),
        List.append_nil], rfl⟩
    have hback : ∀ inner, ((inner ++ (shortcodeEnd ++ code.trailing)).reverse.takeWhile
          isBlank).reverse = code.trailing ∧
        (stripBack (inner ++ (shortcodeEnd ++ code.trailing))).reverse =
          shortcodeEnd.reverse ++ inner.reverse := by
      intro inner
      have hreverse : (inner ++ (shortcodeEnd ++ code.trailing)).reverse =
          code.trailing.reverse ++ (shortcodeEnd.reverse ++ inner.reverse) := by simp
      have hblank : ∀ c ∈ code.trailing.reverse, isBlank c = true := fun c hc =>
        List.all_eq_true.mp htrailing c (List.mem_reverse.mp hc)
      rw [stripBack, hreverse, List.takeWhile_append_of_pos hblank,
        List.dropWhile_append_of_pos hblank, List.reverse_reverse]
      exact ⟨by simp [shortcodeEnd, show isBlank '}' = false by decide], rfl⟩
    have hinner : first :: (code.body ++ (last :: (shortcodeEnd ++ code.trailing))) =
        first :: (code.body ++ [last]) ++ (shortcodeEnd ++ code.trailing) := by simp
    unfold shortcode?
    simp only [hfront, hinner, after?_eq_some_iff.mpr rfl, hback]
    rw [List.reverse_reverse,
      shortcodeBody?_eq_some_iff.mpr ⟨first, last, rfl, hfirst, hlast, hbody⟩]
    rfl

/-- A text falls into what stands before a blank with the end mark of a shortcode, and what stands
behind that. -/
def EndsBetween (cs front back : List Char) : Prop :=
  ∃ b, isBlank b = true ∧ cs = front ++ b :: (shortcodeEnd ++ back)

theorem ne_of_isBlank {c : Char} (h : isBlank c = true) : c ≠ '>' ∧ c ≠ '}' := by
  constructor
  all_goals
    rintro rfl
    exact absurd h (by decide)

theorem not_suffix_of_blank {b : Char} {back trailing : List Char} (hb : isBlank b = true)
    (htrailing : trailing.all isBlank = true) :
    ¬ b :: (shortcodeEnd ++ back) <:+ shortcodeEnd ++ trailing := by
  obtain ⟨hangle, hbrace⟩ := ne_of_isBlank hb
  intro h
  rcases List.suffix_cons_iff.mp h with h | h
  · exact hangle (List.cons.inj h).1
  rcases List.suffix_cons_iff.mp h with h | h
  · exact hbrace (List.cons.inj h).1
  rcases List.suffix_cons_iff.mp h with h | h
  · exact hbrace (List.cons.inj h).1
  · have hmem : '>' ∈ trailing := h.subset (by simp [shortcodeEnd])
    exact absurd (List.all_eq_true.mp htrailing _ hmem) (by decide)

/-- Where a body goes on to the end of a shortcode, there is no end but that one and those in the
body itself. -/
theorem endsBetween_append {body trailing front back : List Char} {last : Char}
    (hlast : isBlank last = true) (htrailing : trailing.all isBlank = true)
    (h : EndsBetween (body ++ last :: (shortcodeEnd ++ trailing)) front back) :
    back = trailing ∨ ∃ back', EndsBetween body front back' := by
  obtain ⟨b, hb, h⟩ := h
  obtain ⟨hangle, hbrace⟩ := ne_of_isBlank hlast
  rcases List.append_eq_append_iff.mp h with ⟨between, -, hends⟩ | ⟨between, hbody, hends⟩
  · cases between with
    | nil => exact Or.inl (List.append_cancel_left (List.cons.inj hends).2).symm
    | cons c between =>
        exact absurd ⟨between, (List.cons.inj hends).2.symm⟩ (not_suffix_of_blank hb htrailing)
  · -- the mark begins in the body, and the blank behind the body is no part of it
    match between, hends with
    | [], hends => exact Or.inl (List.append_cancel_left (List.cons.inj hends).2)
    | [_], hends => exact absurd (List.cons.inj (List.cons.inj hends).2).1.symm hangle
    | [_, _], hends =>
        exact absurd (List.cons.inj (List.cons.inj (List.cons.inj hends).2).2).1.symm hbrace
    | [_, _, _], hends =>
        have := (List.cons.inj (List.cons.inj (List.cons.inj hends).2).2).2
        exact absurd (List.cons.inj this).1.symm hbrace
    | c :: d :: e :: f :: between, hends =>
        have hmark : [c, d, e, f] = b :: shortcodeEnd := (congrArg (List.take 4) hends).symm
        refine Or.inr ⟨between, b, hb, ?_⟩
        rw [hbody, ← List.cons_append, ← hmark]
        rfl

/-- No end stands in the body of a shortcode exactly if the first end in its line is the last one.
(The end mark may stand directly behind the blank that the mark is followed by.) -/
theorem IsShortcode.no_end_iff {code : Shortcode} (h : IsShortcode line code) :
    (∀ front back, ¬ EndsBetween code.body front back) ↔
      ∀ front back, (code.indent ++ shortcodeMark).length < front.length →
        EndsBetween line front back → back.all isBlank = true := by
  obtain ⟨⟨first, last, rfl, -, hlast⟩, ⟨-, htrailing⟩, -⟩ := h
  have hline : code.indent ++ (shortcodeMark ++ (first :: (code.body ++ (last ::
      (shortcodeEnd ++ code.trailing))))) = (code.indent ++ shortcodeMark ++ [first]) ++
        (code.body ++ last :: (shortcodeEnd ++ code.trailing)) := by simp
  rw [hline]
  constructor
  · rintro hbody front back hlength ⟨b, hb, hends⟩
    obtain ⟨front', rfl⟩ : code.indent ++ shortcodeMark ++ [first] <+: front := by
      refine List.prefix_of_prefix_length_le (List.prefix_append _ _)
        (hends ▸ List.prefix_append front _) ?_
      rw [List.length_append, List.length_singleton]
      exact hlength
    rw [List.append_assoc _ front'] at hends
    rcases endsBetween_append hlast htrailing ⟨b, hb, List.append_cancel_left hends⟩ with
      rfl | ⟨back', hback'⟩
    · exact htrailing
    · exact absurd hback' (hbody _ _)
  · rintro hline front back ⟨b, hb, hends⟩
    have hall := hline (code.indent ++ shortcodeMark ++ [first] ++ front)
      (back ++ last :: (shortcodeEnd ++ code.trailing)) (by simp) ⟨b, hb, by rw [hends]; simp⟩
    have hmem : '>' ∈ back ++ last :: (shortcodeEnd ++ code.trailing) := by simp [shortcodeEnd]
    exact absurd (List.all_eq_true.mp hall _ hmem) (by decide)

end Shape

namespace Convert

open Text Shape

variable {toggles : Toggles} {s : Site} {inMath : Bool}

theorem kind_eq_formula_iff_longest {content label : List Char} :
    kind toggles s inMath = .formula content label ↔
      (inMath = false ∧ s.isInert = false ∧ toggles.mathLabels = true) ∧
        IsFormula (strip s.line.body) content label ∧
        ∀ content' label', IsFormula (strip s.line.body) content' label' →
          content'.length ≤ content.length := by
  rw [kind_eq_formula_iff, mathLine?_eq_some_iff, and_assoc, and_assoc]

theorem kind_eq_mathClose_iff {label : List Char} :
    kind toggles s inMath = .mathClose label ↔
      (inMath = true ∧ s.isInert = false ∧ toggles.mathLabels = true) ∧
        IsMathFence (strip s.line.body) label := by
  rw [← mathFence?_eq_some_iff, and_assoc, and_assoc]
  refine ⟨fits_of_kind_eq, ?_⟩
  rintro ⟨rfl, hi, hm, hfence⟩
  simp [kind, hi, hm, hfence]

theorem kind_eq_shortcode_iff {code : Shortcode} :
    kind toggles s inMath = .shortcode code ↔
      (inMath = false ∧ s.isInert = false ∧ toggles.shortcodes = true) ∧
        IsShortcode s.line.body code := by
  rw [← shortcode?_eq_some_iff, and_assoc, and_assoc]
  refine ⟨fits_of_kind_eq, ?_⟩
  rintro ⟨rfl, hi, ht, hcode⟩
  rw [kind_of_shortcode toggles hcode hi, if_pos ht]

theorem step_of_no_shape (toggles : Toggles) {s : Site} {st : State} (hmath : st.inMath = false)
    (hformula : mathLine? (strip s.line.body) = none)
    (hfence : startsMathLine (strip s.line.body) = true ∨
      mathFence? (strip s.line.body) = none)
    (hcode : shortcode? s.line.body = none) (hcloser : isCloser s.line.body = false)
    (hopener : opener? s.line.body = none) :
    step toggles s st = ⟨st, [s.line.toList], []⟩ := by
  rw [step_eq_act, hmath]
  cases hk : kind toggles s false with
  | plain => rfl
  | inMath => exact absurd hk (kind_false toggles s).1
  | mathClose label => exact absurd hk ((kind_false toggles s).2 label)
  | mathOpen =>
      obtain ⟨-, -, -, hstart, hopens⟩ := fits_of_kind_eq hk
      rcases hfence with hstarts | hnone
      · cases hstarts.symm.trans hstart
      · rw [hnone] at hopens
        cases hopens
  | formula content label => cases hformula.symm.trans (fits_of_kind_eq hk).2.2.2
  | shortcode code => cases hcode.symm.trans (fits_of_kind_eq hk).2.2.2
  | divClose => cases hcloser.symm.trans (fits_of_kind_eq hk).2.2
  | divOpen o => cases hopener.symm.trans (fits_of_kind_eq hk).2.2.2

theorem step_of_no_formula (toggles : Toggles) {s : Site} {st : State} (hmath : st.inMath = false)
    {rest : List Char} (hmark : strip s.line.body = mathMark ++ rest)
    (hformula : ∀ content label, ¬ IsFormula (strip s.line.body) content label)
    (hfence : startsMathLine (strip s.line.body) = true ∨
      ∀ label, ¬ IsMathFence (strip s.line.body) label) :
    step toggles s st = ⟨st, [s.line.toList], []⟩ := by
  obtain ⟨hcode, hcloser, hopener⟩ := no_shape_of_mathMark (after?_eq_some_iff.mpr hmark)
  refine step_of_no_shape toggles hmath (mathLine?_eq_none_iff.mpr hformula)
    (hfence.imp_right fun hno => ?_) hcode hcloser hopener
  exact Option.eq_none_iff_forall_ne_some.mpr fun label hlabel =>
    hno label (mathFence?_eq_some_iff.mp hlabel)

theorem step_of_no_shortcode (toggles : Toggles) {s : Site} {st : State}
    (hmath : st.inMath = false) {rest : List Char}
    (hmark : s.line.body.dropWhile isBlank = shortcodeMark ++ rest)
    (hcode : ∀ code, ¬ IsShortcode s.line.body code) :
    step toggles s st = ⟨st, [s.line.toList], []⟩ := by
  have hno : ∀ {c : Char} {ds : List Char}, c ≠ '{' → s.line.body.dropWhile isBlank ≠ c :: ds :=
    fun hc heq => hc (List.cons.inj (heq.symm.trans hmark)).1
  have hmathMark : ∀ rest, after? mathMark (strip s.line.body) ≠ some rest := fun _ hrest =>
    (dropWhile_of_mathMark hrest).elim fun _ => hno (by decide)
  have hcolon : ∀ ds, s.line.body ≠ ':' :: ds := fun _ heq =>
    hno (by decide) (dropWhile_of_colon heq)
  obtain ⟨hstart, hfence⟩ := no_math_of_no_mark hmathMark
  obtain ⟨hcloser, hopener⟩ := no_fence_of_no_colon hcolon
  refine step_of_no_shape toggles hmath ?_ (Or.inr hfence) ?_ hcloser hopener
  · refine Option.eq_none_iff_forall_ne_some.mpr fun m hm => ?_
    cases hstart.symm.trans (startsMathLine_of_mathLine? hm)
  · exact Option.eq_none_iff_forall_ne_some.mpr fun code hfound =>
      hcode code (shortcode?_eq_some_iff.mp hfound)

/-- **A rewritten line is read as far as it goes.**  The lines that are rewritten are those that can
be read as a formula, as the fence that closes a block, or as a shortcode; of the readings as a
formula the longest one is taken.  What is written is one construct, that is a formula without `$$`
and a label of one pair of braces, exactly if every reading of the line is one construct.  The label
of a fence is one pair of braces exactly if no brace is closed before the end of the line, and no
end stands in the body of a shortcode exactly if the first end in the line is the last one.  A line
of display math, or one that begins like a shortcode, that has no reading is written as it is. -/
theorem constructs_of_rewritten_line (toggles : Toggles) (s : Site) (st : State) :
    (∀ content label,
      (kind toggles s st.inMath = .formula content label ↔
        (st.inMath = false ∧ s.isInert = false ∧ toggles.mathLabels = true) ∧
          IsFormula (strip s.line.body) content label ∧
          ∀ content' label', IsFormula (strip s.line.body) content' label' →
            content'.length ≤ content.length) ∧
      (kind toggles s st.inMath = .formula content label →
        (step toggles s st).lines = mathDirective s label [s.ended (strip content)] ∧
        (IsSingle content label ↔
          ∀ content' label', IsFormula (strip s.line.body) content' label' →
            IsSingle content' label'))) ∧
    (∀ label,
      (kind toggles s st.inMath = .mathClose label ↔
        (st.inMath = true ∧ s.isInert = false ∧ toggles.mathLabels = true) ∧
          IsMathFence (strip s.line.body) label) ∧
      (kind toggles s st.inMath = .mathClose label →
        (step toggles s st).lines = mathDirective s label st.mathLines ∧
        (IsOneGroup label ↔ '}' ∉ (strip s.line.body).dropLast))) ∧
    (∀ code,
      (kind toggles s st.inMath = .shortcode code ↔
        (st.inMath = false ∧ s.isInert = false ∧ toggles.shortcodes = true) ∧
          IsShortcode s.line.body code) ∧
      (kind toggles s st.inMath = .shortcode code →
        (step toggles s st).lines = [s.ended (leafDirective code)] ∧
        ((∀ front back, ¬ EndsBetween code.body front back) ↔
          ∀ front back, (code.indent ++ shortcodeMark).length < front.length →
            EndsBetween s.line.body front back → back.all isBlank = true))) ∧
    (st.inMath = false →
      ((∃ rest, strip s.line.body = mathMark ++ rest) ∧
          (∀ content label, ¬ IsFormula (strip s.line.body) content label) ∧
          (startsMathLine (strip s.line.body) = true ∨
            ∀ label, ¬ IsMathFence (strip s.line.body) label)) ∨
        ((∃ rest, s.line.body.dropWhile isBlank = shortcodeMark ++ rest) ∧
          ∀ code, ¬ IsShortcode s.line.body code) →
      step toggles s st = ⟨st, [s.line.toList], []⟩) := by
  refine ⟨fun content label => ⟨kind_eq_formula_iff_longest, fun hk => ?_⟩,
    fun label => ⟨kind_eq_mathClose_iff, fun hk => ?_⟩,
    fun code => ⟨kind_eq_shortcode_iff, fun hk => ?_⟩, fun hmath => ?_⟩
  · have hline := (kind_eq_formula_iff.mp hk).2.2.2
    exact ⟨by rw [step_eq_act, hk]; rfl, isSingle_iff_of_mathLine? hline⟩
  · exact ⟨by rw [step_eq_act, hk]; rfl, (kind_eq_mathClose_iff.mp hk).2.isOneGroup_iff⟩
  · exact ⟨by rw [step_eq_act, hk]; rfl, (kind_eq_shortcode_iff.mp hk).2.no_end_iff⟩
  · rintro (⟨⟨rest, hmark⟩, hformula, hfence⟩ | ⟨⟨rest, hmark⟩, hcode⟩)
    · exact step_of_no_formula toggles hmath hmark hformula hfence
    · exact step_of_no_shortcode toggles hmath hmark hcode

/-- Two formulas on a line become one, prose between two pairs of braces part of the label, and two
shortcodes one, each with what stands between. -/
theorem severalConstructs_rewritten :
    Stage.convert {} "$$ a $$ and $$ b $$".toList = ":::math\na $$ and $$ b\n:::".toList ∧
      mathMark <:+: " a $$ and $$ b ".toList ∧
      Stage.convert {} "$$ a $$ \x7b#x\x7d and \x7by\x7d".toList =
        ":::math\x7b#x\x7d and \x7by\x7d\na\n:::".toList ∧
      ¬ IsOneGroup "\x7b#x\x7d and \x7by\x7d".toList ∧
      Stage.convert {} "$$\na\n$$ \x7b#x\x7d and \x7by\x7d".toList =
        ":::math\x7b#x\x7d and \x7by\x7d\na\n:::".toList ∧
      Stage.convert {} "\x7b\x7b< a >\x7d\x7d and \x7b\x7b< b >\x7d\x7d".toList =
        "::shortcode\x7braw=\"a >\x7d\x7d and \x7b\x7b< b\"\x7d".toList ∧
      EndsBetween "a >\x7d\x7d and \x7b\x7b< b".toList "a".toList
        " and \x7b\x7b< b".toList := by
  refine ⟨?_, ⟨" a ".toList, " and $$ b ".toList, by decide⟩, ?_, by decide, ?_, ?_,
    ⟨' ', by decide, by decide⟩⟩
  · rw [Stage.convert, Scan.ranges_eq_recorded]
    decide +kernel
  · rw [Stage.convert, Scan.ranges_eq_recorded]
    decide +kernel
  · rw [Stage.convert, Scan.ranges_eq_recorded]
    decide +kernel
  · rw [Stage.convert, Scan.ranges_eq_recorded]
    decide +kernel

end Convert

end DirectiveFences
