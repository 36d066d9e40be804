/-
What a line is to the conversion, and what becomes of it.

The rules of `Convert.step` are asked one after the other, and each may change the
state.  But which rule takes a line does not depend on the fences of the open divs,
nor on the lines collected in an open math block: it depends on the shape of the line,
on whether its first character that is not blank is protected, and on whether a math
block is open.  `kind` says so in one place, by shapes alone, and `step_eq_act` is the
one proof that opens the rules; what follows from a rule is read off `Kind.act` from
there on.
-/
import DirectiveFences.Directive.Convert
import DirectiveFences.Proofs.Shapes

namespace DirectiveFences

namespace Convert

open Text Shape

/-- What a line is to the conversion. -/
inductive Kind
  /-- No rule rewrites the line. -/
  | plain
  /-- A line of the open math block that does not close it. -/
  | inMath
  /-- A line that closes the open math block, with its label. -/
  | mathClose (label : List Char)
  /-- A line that opens a math block. -/
  | mathOpen
  /-- A whole formula on one line, and its label. -/
  | formula (content label : List Char)
  | shortcode (code : Shortcode)
  | divClose
  | divOpen (opener : Opener)
deriving DecidableEq, Repr

/-- The kind of a line that is no line of display math and is not protected. -/
def shapeKind (toggles : Toggles) (s : Site) : Kind :=
  match (if toggles.shortcodes then shortcode? s.line.body else none) with
  | some code => .shortcode code
  | none =>
    if isCloser s.line.body then .divClose
    else
      match opener? s.line.body with
      | some opener => .divOpen opener
      | none => .plain

/-- The kind of a line.  A protected line is of no kind that is rewritten. -/
def kind (toggles : Toggles) (s : Site) (inMath : Bool) : Kind :=
  let stripped := strip s.line.body
  if inMath then
    match (if toggles.mathLabels && !s.isInert then mathFence? stripped else none) with
    | some label => .mathClose label
    | none => .inMath
  else if s.isInert then .plain
  else if toggles.mathLabels && startsMathLine stripped then
    match mathLine? stripped with
    | some (content, label) => .formula content label
    | none => .plain
  else if toggles.mathLabels && (mathFence? stripped).isSome then .mathOpen
  else shapeKind toggles s

/-- The leaf directive of a shortcode. -/
def leafDirective (code : Shortcode) : List Char :=
  code.indent ++ [':', ':'] ++ shortcodeName ++
    '{' :: ("raw=\"".toList ++ escapeQuotes code.body ++ ['"', '}']) ++ code.trailing

/-- The name and the attributes of a div's directive. -/
def divDirective (o : Opener) : List Char :=
  o.name.getD genericName ++
    match o.attributes with
    | none => []
    | some body => '{' :: (strip body ++ ['}'])

/-- What becomes of a line of a kind. -/
def Kind.act (s : Site) (st : State) : Kind → Step
  | .plain => ⟨st, [s.line.toList], []⟩
  | .inMath => keepInMath s st
  | .mathClose label =>
    ⟨{ st with inMath := false, mathLines := [], mathOpener := none },
      mathDirective s label st.mathLines, []⟩
  | .mathOpen => ⟨{ st with inMath := true, mathOpener := some s.line.toList }, [], []⟩
  | .formula content label => ⟨st, mathDirective s label [s.ended (strip content)], []⟩
  | .shortcode code => ⟨st, [s.ended (leafDirective code)], []⟩
  | .divClose =>
    ⟨{ st with fences := st.fences.tail },
      [s.ended (List.replicate (st.fences.headD 3) ':')],
      if st.fences.isEmpty then [.unmatchedCloser s.offset] else []⟩
  | .divOpen o =>
    ⟨{ st with fences := fenceLength st.fences.length :: st.fences },
      [s.ended (List.replicate (fenceLength st.fences.length) ':' ++ divDirective o)], []⟩

/-! ## The first character of a shape

Each shape begins with a character of its own, and only blanks may stand before it.  So a line has
at most one of the shapes, and the rules ask whether the same character is protected: the first one
of the line that is not blank. -/

theorem dropWhile_of_mathMark {body rest : List Char}
    (h : after? mathMark (strip body) = some rest) :
    ∃ ds, body.dropWhile isBlank = '$' :: ds := by
  obtain ⟨back, hback⟩ := stripBack_append (stripFront body)
  have hstrip : strip body = '$' :: '$' :: rest := after?_eq_some_iff.mp h
  exact ⟨'$' :: rest ++ back, by rw [← stripFront, ← hback, ← strip, hstrip]; rfl⟩

theorem dropWhile_of_shortcode {body : List Char} {code : Shortcode}
    (h : shortcode? body = some code) : ∃ ds, body.dropWhile isBlank = '{' :: ds := by
  unfold shortcode? at h
  split at h
  · cases h
  · rename_i inner hmark
    exact ⟨'{' :: '<' :: inner, after?_eq_some_iff.mp hmark⟩

theorem head_of_isCloser {body : List Char} (h : isCloser body = true) :
    ∃ ds, body = ':' :: ds := by
  obtain ⟨rest, hbody, -⟩ := eq_of_isCloser h
  exact ⟨':' :: ':' :: rest, hbody⟩

theorem head_of_opener {body : List Char} {o : Opener} (h : opener? body = some o) :
    ∃ ds, body = ':' :: ds := by
  obtain ⟨rest, hbody, -⟩ := eq_of_opener? h
  exact ⟨':' :: ':' :: rest, hbody⟩

theorem dropWhile_of_colon {body ds : List Char} (h : body = ':' :: ds) :
    body.dropWhile isBlank = ':' :: ds := by
  rw [h, List.dropWhile_cons_of_neg (by decide)]

theorem isInert_eq_of_colon {s : Site} {ds : List Char} (h : s.line.body = ':' :: ds) :
    s.isInert = s.isProtected 0 := by
  simp [Site.isInert, h, show isBlank ':' = false from by decide]

theorem no_shape_of_mathMark {body rest : List Char}
    (h : after? mathMark (strip body) = some rest) :
    shortcode? body = none ∧ isCloser body = false ∧ opener? body = none := by
  obtain ⟨ds, hds⟩ := dropWhile_of_mathMark h
  refine ⟨?_, ?_, ?_⟩
  · refine Option.eq_none_iff_forall_ne_some.mpr fun code hcode => ?_
    obtain ⟨es, hes⟩ := dropWhile_of_shortcode hcode
    exact absurd (List.cons.inj (hds.symm.trans hes)).1 (by decide)
  · refine Bool.eq_false_iff.mpr fun hcl => ?_
    obtain ⟨es, hes⟩ := head_of_isCloser hcl
    exact absurd (List.cons.inj (hds.symm.trans (dropWhile_of_colon hes))).1 (by decide)
  · refine Option.eq_none_iff_forall_ne_some.mpr fun o ho => ?_
    obtain ⟨es, hes⟩ := head_of_opener ho
    exact absurd (List.cons.inj (hds.symm.trans (dropWhile_of_colon hes))).1 (by decide)

theorem mark_of_startsMathLine {stripped : List Char} (h : startsMathLine stripped = true) :
    ∃ rest, after? mathMark stripped = some rest := by
  cases hmark : after? mathMark stripped with
  | none => simp [startsMathLine, hmark] at h
  | some rest => exact ⟨rest, rfl⟩

theorem mark_of_mathFence? {stripped label : List Char} (h : mathFence? stripped = some label) :
    ∃ rest, after? mathMark stripped = some rest := by
  obtain ⟨rest, hrest, -⟩ := Option.bind_eq_some_iff.mp h
  exact ⟨rest, hrest⟩

theorem no_math_of_no_mark {stripped : List Char}
    (h : ∀ rest, after? mathMark stripped ≠ some rest) :
    startsMathLine stripped = false ∧ mathFence? stripped = none := by
  constructor
  · refine Bool.eq_false_iff.mpr fun hstart => ?_
    exact (mark_of_startsMathLine hstart).elim h
  · refine Option.eq_none_iff_forall_ne_some.mpr fun label hlabel => ?_
    exact (mark_of_mathFence? hlabel).elim h

theorem no_fence_of_no_colon {line : List Char} (h : ∀ ds, line ≠ ':' :: ds) :
    isCloser line = false ∧ opener? line = none := by
  constructor
  · refine Bool.eq_false_iff.mpr fun hcloser => ?_
    exact (head_of_isCloser hcloser).elim h
  · refine Option.eq_none_iff_forall_ne_some.mpr fun o ho => ?_
    exact (head_of_opener ho).elim h

theorem mentionsMath_of_formulaFrom {cs : List Char} (h : (formulaFrom cs).isSome = true) :
    mentionsMath cs = true := by
  induction cs with
  | nil => exact absurd h (by decide)
  | cons c cs ih =>
      simp only [mentionsMath, Bool.or_eq_true, Bool.and_eq_true, bne_iff_ne, ne_eq]
      unfold formulaFrom at h
      split at h
      · rename_i formula label hlater
        split at hlater
        · cases hlater
        · rename_i hc
          exact Or.inr ⟨hc, ih (by rw [hlater]; rfl)⟩
      · split at h
        · exact absurd h (by decide)
        · rename_i rest hmark
          exact Or.inl (by rw [hmark]; rfl)

theorem startsMathLine_of_mathLine? {stripped : List Char} {m : List Char × List Char}
    (h : mathLine? stripped = some m) : startsMathLine stripped = true := by
  unfold mathLine? at h
  unfold startsMathLine
  split at h
  · rename_i c cs hmark
    split at h
    · cases h
    · rename_i hc
      obtain ⟨pair, hpair, -⟩ := Option.map_eq_some_iff.mp h
      simp only [Bool.and_eq_true, bne_iff_ne, ne_eq]
      exact ⟨hc, mentionsMath_of_formulaFrom (by rw [hpair]; rfl)⟩
  · cases h

theorem shortcode?_of_colon {body ds : List Char} (h : body = ':' :: ds) :
    shortcode? body = none := by
  refine Option.eq_none_iff_forall_ne_some.mpr fun code hcode => ?_
  obtain ⟨es, hes⟩ := dropWhile_of_shortcode hcode
  exact absurd (List.cons.inj ((dropWhile_of_colon h).symm.trans hes)).1 (by decide)

/-! ## Every step is the act of a kind

Each rule is the act of its kind on the lines that it takes.  Inside a math block a line closes it
or is kept.  Outside of one a line is taken by the first rule that accepts its shape, where the math
rule comes first and also takes lines only to leave them alone. -/

theorem close_eq (s : Site) (st : State) :
    close s st = if isCloser s.line.body && !s.isInert then some (Kind.divClose.act s st)
      else none := by
  unfold close
  cases hcl : isCloser s.line.body with
  | false => rfl
  | true =>
      obtain ⟨ds, hds⟩ := head_of_isCloser hcl
      rw [isInert_eq_of_colon hds]
      cases s.isProtected 0 with
      | true => rfl
      | false =>
          cases st with
          | mk inMath fences mathLines mathOpener => cases fences <;> rfl

theorem opening_eq (s : Site) (st : State) :
    opening s st = if s.isInert then none
      else (opener? s.line.body).map fun o => Kind.act s st (.divOpen o) := by
  unfold opening
  cases ho : opener? s.line.body with
  | none => simp
  | some o =>
      obtain ⟨ds, hds⟩ := head_of_opener ho
      rw [isInert_eq_of_colon hds]
      cases s.isProtected 0 with
      | true => simp
      | false =>
          simp only [Bool.false_eq_true, if_false, Option.map_some, List.append_assoc]
          rfl

theorem shortcode_eq (s : Site) (st : State) :
    shortcode s st = if s.isInert then none
      else (shortcode? s.line.body).map fun code => Kind.act s st (.shortcode code) := by
  unfold shortcode
  cases shortcode? s.line.body with
  | none => simp
  | some code => cases s.isInert <;> simp [Kind.act, leafDirective]

theorem math_of_inMath (s : Site) {st : State} (h : st.inMath = true) :
    (math s st).getD (keepInMath s st) =
      (match (if s.isInert then none else mathFence? (strip s.line.body)) with
        | some label => Kind.mathClose label
        | none => Kind.inMath).act s st := by
  unfold math
  cases hmark : after? mathMark (strip s.line.body) with
  | none =>
      have hnone : mathFence? (strip s.line.body) = none := by simp [mathFence?, hmark]
      simp [hmark, hnone, Kind.act]
  | some rest =>
      cases s.isInert with
      | true => simp [Kind.act]
      | false => cases hf : mathFence? (strip s.line.body) <;> simp [hmark, hf, h, Kind.act]

theorem step_of_inMath (toggles : Toggles) (s : Site) {st : State} (h : st.inMath = true) :
    step toggles s st = (kind toggles s true).act s st := by
  have hstep : step toggles s st
      = (if toggles.mathLabels then math s st else none).getD (keepInMath s st) := by
    unfold step
    cases (if toggles.mathLabels then math s st else none) <;> simp [h]
  rw [hstep]
  unfold kind
  cases toggles.mathLabels with
  | false => simp [Kind.act]
  | true => cases hi : s.isInert <;> simpa [hi] using math_of_inMath s h

theorem step_of_math_eq_none {toggles : Toggles} {s : Site} {st : State} (h : st.inMath = false)
    (hi : s.isInert = false) (hm : (if toggles.mathLabels then math s st else none) = none) :
    step toggles s st = (shapeKind toggles s).act s st := by
  unfold step shapeKind
  rw [hm, shortcode_eq, close_eq, opening_eq, hi, h]
  cases toggles.shortcodes <;> cases shortcode? s.line.body <;>
    cases isCloser s.line.body <;> cases opener? s.line.body <;> rfl

theorem step_of_not_inMath (toggles : Toggles) (s : Site) {st : State} (h : st.inMath = false) :
    step toggles s st = (kind toggles s false).act s st := by
  cases hi : s.isInert with
  | true =>
      unfold step kind
      rw [shortcode_eq, close_eq, opening_eq, hi]
      cases toggles.mathLabels <;> cases toggles.shortcodes <;> simp [math, h, hi, Kind.act]
  | false =>
      cases hm : toggles.mathLabels with
      | false =>
          have hkind : kind toggles s false = shapeKind toggles s := by simp [kind, hi, hm]
          rw [hkind]
          exact step_of_math_eq_none h hi (by simp [hm])
      | true =>
          cases hstart : startsMathLine (strip s.line.body) with
          | true =>
              obtain ⟨rest, hmark⟩ := mark_of_startsMathLine hstart
              unfold step kind
              cases hline : mathLine? (strip s.line.body) <;>
                simp [math, hmark, hi, h, hm, hstart, hline, Kind.act]
          | false =>
              cases hfence : mathFence? (strip s.line.body) with
              | none =>
                  have hkind : kind toggles s false = shapeKind toggles s := by
                    simp [kind, hi, hstart, hfence]
                  rw [hkind]
                  exact step_of_math_eq_none h hi (by simp [math, hi, h, hstart, hfence])
              | some label =>
                  obtain ⟨rest, hrest⟩ := mark_of_mathFence? hfence
                  unfold step kind
                  simp [math, hrest, hi, h, hm, hstart, hfence, Kind.act]

theorem step_eq_act (toggles : Toggles) (s : Site) (st : State) :
    step toggles s st = (kind toggles s st.inMath).act s st := by
  cases h : st.inMath with
  | true => exact step_of_inMath toggles s h
  | false => exact step_of_not_inMath toggles s h

/-! ## When a line is of a kind

A line is like what its kind asks for (`Kind.Fits`).  For the kinds that are rewritten outside math
blocks the converse holds as well: it is enough that no math block is open, that the line is not
protected, and that it has the shape. -/

/-- What a line has to be like to be of a kind. -/
def Kind.Fits (toggles : Toggles) (s : Site) (inMath : Bool) : Kind → Prop
  | .plain => inMath = false
  | .inMath => inMath = true
  | .mathClose label => inMath = true ∧ s.isInert = false ∧ toggles.mathLabels = true ∧
      mathFence? (strip s.line.body) = some label
  | .mathOpen => inMath = false ∧ s.isInert = false ∧ toggles.mathLabels = true ∧
      startsMathLine (strip s.line.body) = false ∧ (mathFence? (strip s.line.body)).isSome = true
  | .formula content label => inMath = false ∧ s.isInert = false ∧ toggles.mathLabels = true ∧
      mathLine? (strip s.line.body) = some (content, label)
  | .shortcode code => inMath = false ∧ s.isInert = false ∧ toggles.shortcodes = true ∧
      shortcode? s.line.body = some code
  | .divClose => inMath = false ∧ s.isInert = false ∧ isCloser s.line.body = true
  | .divOpen o => inMath = false ∧ s.isInert = false ∧ isCloser s.line.body = false ∧
      opener? s.line.body = some o

theorem shapeKind_fits (toggles : Toggles) {s : Site} (hi : s.isInert = false) :
    (shapeKind toggles s).Fits toggles s false := by
  unfold shapeKind
  split
  · rename_i code hcode
    split at hcode
    · exact ⟨rfl, hi, ‹_›, hcode⟩
    · cases hcode
  · split
    · exact ⟨rfl, hi, ‹_›⟩
    · rename_i hcl
      split
      · rename_i o ho
        exact ⟨rfl, hi, Bool.eq_false_iff.mpr hcl, ho⟩
      · exact rfl

theorem kind_fits (toggles : Toggles) (s : Site) (inMath : Bool) :
    (kind toggles s inMath).Fits toggles s inMath := by
  unfold kind
  cases inMath with
  | true =>
      simp only [if_true]
      split
      · rename_i label hlabel
        split at hlabel
        · rename_i hcond
          rw [Bool.and_eq_true, Bool.not_eq_true'] at hcond
          exact ⟨rfl, hcond.2, hcond.1, hlabel⟩
        · cases hlabel
      · exact rfl
  | false =>
      simp only [Bool.false_eq_true, if_false]
      split
      · exact rfl
      · rename_i hi
        rw [Bool.not_eq_true] at hi
        split
        · rename_i hstart
          rw [Bool.and_eq_true] at hstart
          split
          · exact ⟨rfl, hi, hstart.1, ‹_›⟩
          · exact rfl
        · rename_i hstart
          split
          · rename_i hfence
            rw [Bool.and_eq_true] at hfence
            rw [hfence.1, Bool.true_and, Bool.not_eq_true] at hstart
            exact ⟨rfl, hi, hfence.1, hstart, hfence.2⟩
          · exact shapeKind_fits toggles hi

theorem fits_of_kind_eq {toggles : Toggles} {s : Site} {inMath : Bool} {k : Kind}
    (h : kind toggles s inMath = k) : k.Fits toggles s inMath :=
  h ▸ kind_fits toggles s inMath

/-- Inside a math block, a line is kept or closes it. -/
theorem kind_true (toggles : Toggles) (s : Site) :
    kind toggles s true = .inMath ∨ ∃ label, kind toggles s true = .mathClose label := by
  cases hk : kind toggles s true with
  | inMath => exact Or.inl rfl
  | mathClose label => exact Or.inr ⟨label, rfl⟩
  | plain => exact Bool.noConfusion (fits_of_kind_eq hk)
  | mathOpen | formula | shortcode | divClose | divOpen =>
      exact Bool.noConfusion (fits_of_kind_eq hk).1

/-- Outside a math block, no line is kept in one or closes one. -/
theorem kind_false (toggles : Toggles) (s : Site) :
    kind toggles s false ≠ .inMath ∧ ∀ label, kind toggles s false ≠ .mathClose label :=
  ⟨fun hk => Bool.noConfusion (fits_of_kind_eq hk),
    fun _ hk => Bool.noConfusion (fits_of_kind_eq hk).1⟩

/-- A protected line is kept, inside math blocks and outside. -/
theorem kind_of_isInert (toggles : Toggles) {s : Site} (hi : s.isInert = true) (inMath : Bool) :
    kind toggles s inMath = if inMath then .inMath else .plain := by
  cases inMath <;> simp [kind, hi]

/-- A line of blanks is kept as well. -/
theorem kind_of_blank (toggles : Toggles) {s : Site}
    (h : ∀ c ∈ s.line.body, isBlank c = true) (inMath : Bool) :
    kind toggles s inMath = if inMath then .inMath else .plain := by
  have hfront : s.line.body.dropWhile isBlank = [] := by
    simpa using @List.dropWhile_append_of_pos Char isBlank _ [] h
  have hstrip : strip s.line.body = [] := by
    rw [strip, stripFront, hfront]
    rfl
  have hcolon : ∀ ds, s.line.body ≠ ':' :: ds := by
    intro ds hbody
    rw [dropWhile_of_colon hbody] at hfront
    cases hfront
  have hcode : shortcode? s.line.body = none := by
    refine Option.eq_none_iff_forall_ne_some.mpr fun code hcode => ?_
    obtain ⟨ds, hds⟩ := dropWhile_of_shortcode hcode
    rw [hfront] at hds
    cases hds
  obtain ⟨hcloser, hopener⟩ := no_fence_of_no_colon hcolon
  have hmath : startsMathLine ([] : List Char) = false ∧ mathFence? ([] : List Char) = none :=
    ⟨rfl, rfl⟩
  cases inMath <;>
    simp [kind, shapeKind, hstrip, hmath, hcode, hcloser, hopener]

theorem kind_of_colon {toggles : Toggles} {s : Site} {ds : List Char}
    (h : s.line.body = ':' :: ds) (hi : s.isInert = false) :
    kind toggles s false = if isCloser s.line.body then .divClose
      else match opener? s.line.body with
        | some o => .divOpen o
        | none => .plain := by
  have hmark : ∀ rest, after? mathMark (strip s.line.body) ≠ some rest := by
    intro rest hrest
    obtain ⟨es, hes⟩ := dropWhile_of_mathMark hrest
    exact absurd (List.cons.inj (hes.symm.trans (dropWhile_of_colon h))).1 (by decide)
  obtain ⟨hstart, hfence⟩ := no_math_of_no_mark hmark
  simp only [kind, shapeKind, hi, hstart, hfence, shortcode?_of_colon h, Bool.false_eq_true,
    if_false, Bool.and_false, Option.isSome_none, ite_self]

theorem kind_eq_formula_iff {toggles : Toggles} {s : Site} {inMath : Bool}
    {content label : List Char} :
    kind toggles s inMath = .formula content label ↔ inMath = false ∧ s.isInert = false ∧
      toggles.mathLabels = true ∧ mathLine? (strip s.line.body) = some (content, label) := by
  refine ⟨fits_of_kind_eq, ?_⟩
  rintro ⟨rfl, hi, hm, hline⟩
  simp [kind, hi, hm, startsMathLine_of_mathLine? hline, hline]

theorem kind_eq_divClose_iff (toggles : Toggles) {s : Site} {inMath : Bool} :
    kind toggles s inMath = .divClose ↔
      inMath = false ∧ s.isInert = false ∧ isCloser s.line.body = true := by
  refine ⟨fits_of_kind_eq, ?_⟩
  rintro ⟨rfl, hi, hcl⟩
  obtain ⟨ds, hds⟩ := head_of_isCloser hcl
  rw [kind_of_colon hds hi, if_pos hcl]

theorem kind_eq_divOpen_iff (toggles : Toggles) {s : Site} {inMath : Bool} {o : Opener} :
    kind toggles s inMath = .divOpen o ↔ inMath = false ∧ s.isInert = false ∧
      isCloser s.line.body = false ∧ opener? s.line.body = some o := by
  refine ⟨fits_of_kind_eq, ?_⟩
  rintro ⟨rfl, hi, hcl, ho⟩
  obtain ⟨ds, hds⟩ := head_of_opener ho
  rw [kind_of_colon hds hi, hcl, ho]
  rfl

end Convert

end DirectiveFences
