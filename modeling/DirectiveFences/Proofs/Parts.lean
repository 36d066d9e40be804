/-
What a rewritten line carries over.

Of a line that is rewritten two parts may be found again in the output: the label of display
math, which goes to the opening fence of the directive, and what the directive is about, which
stands in the middle of it.  The text of a formula and the attributes of a div lose the blanks
around them; the body of a shortcode keeps its blanks, and has a backslash put before each of
its double quotes.

A part is known by its column in the body of the line, so that it can be asked which offsets of
the source lie in it.
-/
import DirectiveFences.Proofs.Groups

namespace DirectiveFences

namespace Text

theorem exists_strip (text : List Char) : ∃ back, text = text.takeWhile isBlank ++
    (strip text ++ back) ∧ back.all isBlank = true := by
  refine ⟨((stripFront text).reverse.takeWhile isBlank).reverse, ?_, ?_⟩
  · have hback : stripFront text = strip text ++
        ((stripFront text).reverse.takeWhile isBlank).reverse := by
      rw [strip, stripBack, ← List.reverse_append, List.takeWhile_append_dropWhile,
        List.reverse_reverse]
    rw [← hback, stripFront, List.takeWhile_append_dropWhile]
  · rw [List.all_reverse]
    exact List.all_takeWhile

end Text

namespace Convert

open Text Shape

/-- A stretch of the body of a line: the column where it begins, and what it says. -/
structure Part where
  column : Nat
  text : List Char
deriving DecidableEq, Repr

/-- The column after a part. -/
def Part.stop (p : Part) : Nat :=
  p.column + p.text.length

/-- A part of a body. -/
def Part.In (p : Part) (body : List Char) : Prop :=
  ∃ front back, body = front ++ (p.text ++ back) ∧ p.column = front.length

/-- A text that begins at a column, without the blanks around it. -/
def Part.trimmed (column : Nat) (text : List Char) : Part :=
  ⟨column + (text.takeWhile isBlank).length, strip text⟩

/-- The label of display math, with its braces: the last characters of the line but for blanks. -/
def Kind.label? (body : List Char) : Kind → Option Part
  | .formula _ label | .mathClose label =>
    some ⟨(body.takeWhile isBlank).length + (strip body).length - label.length, label⟩
  | _ => none

/-- What a directive is about: a formula, the body of a shortcode, or the attributes of a div. -/
def Kind.content? (body : List Char) : Kind → Option Part
  | .formula content _ =>
    some (.trimmed ((body.takeWhile isBlank).length + mathMark.length) content)
  | .shortcode code => some ⟨code.indent.length + shortcodeMark.length + 1, code.body⟩
  | .divOpen o => o.attributes.map (.trimmed ((body.takeWhile (· != '{')).length + 1))
  | _ => none

/-- How a character of the content is written. -/
def Kind.spell : Kind → Char → List Char
  | .shortcode _ => fun c => if c = '"' then ['\\', '"'] else [c]
  | _ => fun c => [c]

/-- What stands before the content in its line of the output, where a div opened there gets a fence
of the given length. -/
def Kind.contentBefore (length : Nat) : Kind → List Char
  | .shortcode code => code.indent ++ [':', ':'] ++ shortcodeName ++ '{' :: "raw=\"".toList
  | .divOpen o => List.replicate length ':' ++ o.name.getD genericName ++ ['{']
  | _ => []

/-- What stands before a label. -/
def labelBefore : List Char :=
  fence ++ mathName

/-- The line of its group to which the content of a line goes. -/
def Kind.contentLine (k : Kind) : Nat :=
  if k.isFormula then 1 else 0

/-! ## Parts stand where they are said to -/

theorem Part.In.stop_le {p : Part} {body : List Char} (h : p.In body) : p.stop ≤ body.length := by
  obtain ⟨front, back, rfl, hcolumn⟩ := h
  rw [Part.stop, hcolumn, List.length_append, List.length_append]
  omega

theorem Part.In.getElem? {p : Part} {body : List Char} (h : p.In body) {c : Nat}
    (hc : p.column ≤ c) (hc' : c < p.stop) : body[c]? = p.text[c - p.column]? := by
  obtain ⟨front, back, rfl, hcolumn⟩ := h
  rw [Part.stop] at hc'
  rw [List.getElem?_append_right (by omega), List.getElem?_append_left (by omega), hcolumn]

theorem Part.trimmed_in {body front text back : List Char} (h : body = front ++ (text ++ back)) :
    (Part.trimmed front.length text).In body := by
  obtain ⟨behind, htext, -⟩ := exists_strip text
  refine ⟨front ++ text.takeWhile isBlank, behind ++ back, ?_, ?_⟩
  · conv => lhs; rw [h, htext]
    simp [Part.trimmed]
  · simp [Part.trimmed]

theorem tick_not_mem_of_blank {cs : List Char} (h : cs.all isBlank = true) : '`' ∉ cs := by
  intro hmem
  exact absurd (List.all_eq_true.mp h _ hmem) (by decide)

/-- The parts of a formula.  There is no backtick outside of them. -/
theorem formula_parts {body content label : List Char}
    (h : mathLine? (strip body) = some (content, label)) :
    ∃ front gap back, body = front ++ (content ++ (mathMark ++ gap ++ (label ++ back))) ∧
      front.length = (body.takeWhile isBlank).length + mathMark.length ∧
      (body.takeWhile isBlank).length + (strip body).length =
        (front ++ (content ++ (mathMark ++ gap))).length + label.length ∧
      '`' ∉ front ∧ '`' ∉ mathMark ++ gap ∧ '`' ∉ back := by
  obtain ⟨rest, hstrip, hlabel⟩ := eq_of_mathLine? h
  obtain ⟨gap, rfl, hgap⟩ := eq_of_mathLabel? hlabel
  obtain ⟨back, hbody, hback⟩ := exists_strip body
  have hmark : '`' ∉ mathMark := by decide
  refine ⟨body.takeWhile isBlank ++ mathMark, gap, back, ?_, ?_, ?_, ?_, ?_, ?_⟩
  · conv => lhs; rw [hbody, hstrip]
    simp
  · simp
  · rw [hstrip]
    simp only [List.length_append]
    omega
  · rw [List.mem_append, not_or]
    exact ⟨tick_not_mem_of_blank List.all_takeWhile, hmark⟩
  · rw [List.mem_append, not_or]
    exact ⟨hmark, tick_not_mem_of_blank hgap⟩
  · exact tick_not_mem_of_blank hback

theorem mathFence_parts {body label : List Char} (h : mathFence? (strip body) = some label) :
    ∃ front back, body = front ++ (label ++ back) ∧
      (body.takeWhile isBlank).length + (strip body).length = front.length + label.length ∧
      '`' ∉ front ∧ '`' ∉ back := by
  obtain ⟨rest, hstrip, hlabel⟩ := eq_of_mathFence? h
  obtain ⟨gap, rfl, hgap⟩ := eq_of_mathLabel? hlabel
  obtain ⟨back, hbody, hback⟩ := exists_strip body
  refine ⟨body.takeWhile isBlank ++ (mathMark ++ gap), back, ?_, ?_, ?_, ?_⟩
  · conv => lhs; rw [hbody, hstrip]
    simp
  · rw [hstrip]
    simp only [List.length_append]
    omega
  · simp only [List.mem_append, not_or]
    exact ⟨tick_not_mem_of_blank List.all_takeWhile, by decide, tick_not_mem_of_blank hgap⟩
  · exact tick_not_mem_of_blank hback

theorem opener_parts {body attributes : List Char} {o : Opener} (h : opener? body = some o)
    (ha : o.attributes = some attributes) :
    ∃ back, body = body.takeWhile (· != '{') ++ ['{'] ++ (attributes ++ back) ∧
      body.length = (body.takeWhile (· != '{')).length + attributes.length + 2 +
        (openerTail body).length := by
  obtain ⟨front, hbody, hfront⟩ := exists_front_of_opener h
  have hsplit : body = front ++ '{' :: (attributes ++ '}' :: openerTail body) := by
    conv => lhs; rw [hbody, ha]
    simp [braces]
  have htake : body.takeWhile (· != '{') = front := by
    conv => lhs; rw [hsplit]
    rw [List.takeWhile_append_of_pos fun c hc => ?_]
    · simp
    · rw [bne_iff_ne]
      rintro rfl
      exact absurd (hfront '{' hc) (by decide)
  refine ⟨'}' :: openerTail body, ?_, ?_⟩
  · conv => lhs; rw [hsplit]
    rw [htake, List.append_assoc, List.singleton_append]
  · conv => lhs; rw [hsplit]
    rw [htake]
    simp only [List.length_append, List.length_cons]
    omega

section

variable {toggles : Toggles} {s : Site} {inMath : Bool} {k : Kind} {p q : Part}

theorem label?_in (hk : kind toggles s inMath = k) (hp : k.label? s.line.body = some p) :
    p.In s.line.body := by
  have hfits := fits_of_kind_eq hk
  cases k with
  | formula content label =>
      obtain ⟨-, -, -, hline⟩ := hfits
      obtain ⟨front, gap, back, hbody, -, hlength, -⟩ := formula_parts hline
      obtain rfl := Option.some.inj hp
      refine ⟨front ++ (content ++ (mathMark ++ gap)), back, ?_, ?_⟩
      · conv => lhs; rw [hbody]
        simp
      · simp only [hlength, Nat.add_sub_cancel]
  | mathClose label =>
      obtain ⟨-, -, -, hfence⟩ := hfits
      obtain ⟨front, back, hbody, hlength, -⟩ := mathFence_parts hfence
      obtain rfl := Option.some.inj hp
      exact ⟨front, back, hbody, by simp only [hlength, Nat.add_sub_cancel]⟩
  | plain | inMath | mathOpen | shortcode | divClose | divOpen => cases hp

theorem content?_in (hk : kind toggles s inMath = k) (hp : k.content? s.line.body = some p) :
    p.In s.line.body := by
  have hfits := fits_of_kind_eq hk
  cases k with
  | formula content label =>
      obtain ⟨-, -, -, hline⟩ := hfits
      obtain ⟨front, gap, back, hbody, hlength, -⟩ := formula_parts hline
      obtain rfl := Option.some.inj hp
      rw [← hlength]
      exact Part.trimmed_in hbody
  | shortcode code =>
      obtain ⟨-, -, -, hcode⟩ := hfits
      obtain ⟨first, last, hbody, -⟩ := eq_of_shortcode? hcode
      obtain rfl := Option.some.inj hp
      refine ⟨code.indent ++ (shortcodeMark ++ [first]), last :: (shortcodeEnd ++ code.trailing),
        ?_, ?_⟩
      · rw [hbody]
        simp
      · simp [Nat.add_assoc]
  | divOpen o =>
      obtain ⟨-, -, -, ho⟩ := hfits
      obtain ⟨attributes, ha, rfl⟩ := Option.map_eq_some_iff.mp hp
      obtain ⟨back, hbody, -⟩ := opener_parts ho ha
      rw [← List.length_singleton (a := '{'), ← List.length_append]
      exact Part.trimmed_in hbody
  | plain | inMath | mathOpen | mathClose | divClose => cases hp

theorem content?_before_label? (hk : kind toggles s inMath = k)
    (hp : k.content? s.line.body = some p) (hq : k.label? s.line.body = some q) :
    p.stop < q.column := by
  have hfits := fits_of_kind_eq hk
  cases k with
  | formula content label =>
      obtain ⟨-, -, -, hline⟩ := hfits
      obtain ⟨front, gap, back, -, hfront, hlength, -⟩ := formula_parts hline
      obtain ⟨behind, hcontent, -⟩ := exists_strip content
      have hstrip := congrArg List.length hcontent
      have hmark : mathMark.length = 2 := rfl
      obtain rfl := Option.some.inj hp
      obtain rfl := Option.some.inj hq
      simp only [Part.stop, Part.trimmed, List.length_append] at *
      omega
  | mathClose => cases hp
  | plain | inMath | mathOpen | shortcode | divClose | divOpen => cases hq

theorem content?_before_tail {o : Opener} (hk : kind toggles s inMath = .divOpen o)
    (hp : (Kind.divOpen o).content? s.line.body = some p) :
    p.stop + (openerTail s.line.body).length < s.line.body.length := by
  obtain ⟨-, -, -, ho⟩ := fits_of_kind_eq hk
  obtain ⟨attributes, ha, rfl⟩ := Option.map_eq_some_iff.mp hp
  obtain ⟨back, -, hlength⟩ := opener_parts ho ha
  obtain ⟨behind, hattributes, -⟩ := exists_strip attributes
  have hstrip := congrArg List.length hattributes
  simp only [Part.stop, Part.trimmed, List.length_append] at hstrip ⊢
  omega

/-! ## Backticks stand in parts -/

theorem between_of_not_mem {front middle back : List Char} {x : Char} {c : Nat}
    (hx : (front ++ (middle ++ back))[c]? = some x) (hfront : x ∉ front) (hback : x ∉ back) :
    front.length ≤ c ∧ c < front.length + middle.length := by
  have hle : front.length ≤ c := by
    refine Nat.le_of_not_lt fun hlt => hfront ?_
    rw [List.getElem?_append_left hlt] at hx
    exact List.mem_of_getElem? hx
  refine ⟨hle, Nat.lt_of_not_le fun hle' => hback ?_⟩
  rw [List.getElem?_append_right hle, List.getElem?_append_right (by omega)] at hx
  exact List.mem_of_getElem? hx

theorem label?_of_tick {label : List Char} {c : Nat} (hk : kind toggles s inMath = .mathClose label)
    (htick : s.line.body[c]? = some '`') :
    ∃ p, (Kind.mathClose label).label? s.line.body = some p ∧ p.column ≤ c ∧ c < p.stop := by
  obtain ⟨-, -, -, hfence⟩ := fits_of_kind_eq hk
  obtain ⟨front, back, hbody, hlength, hfront, hback⟩ := mathFence_parts hfence
  rw [hbody] at htick
  have hin := between_of_not_mem htick hfront hback
  refine ⟨_, rfl, ?_⟩
  simp only [Part.stop]
  omega

theorem content?_of_tick {code : Shortcode} {c : Nat} (hk : kind toggles s inMath = .shortcode code)
    (htick : s.line.body[c]? = some '`') :
    ∃ p, (Kind.shortcode code).content? s.line.body = some p ∧ p.column ≤ c ∧ c < p.stop := by
  obtain ⟨-, -, -, hcode⟩ := fits_of_kind_eq hk
  obtain ⟨first, last, hbody, hfirst, hlast, hindent, htrailing⟩ := eq_of_shortcode? hcode
  have hsplit : s.line.body = code.indent ++ (shortcodeMark ++ [first]) ++
      (code.body ++ ([last] ++ (shortcodeEnd ++ code.trailing))) := by
    rw [hbody]
    simp
  have hfront : '`' ∉ code.indent ++ (shortcodeMark ++ [first]) := by
    simp only [List.mem_append, not_or]
    exact ⟨tick_not_mem_of_blank hindent, by decide,
      tick_not_mem_of_blank (by rw [List.all_cons, hfirst]; rfl)⟩
  have hback : '`' ∉ [last] ++ (shortcodeEnd ++ code.trailing) := by
    simp only [List.mem_append, not_or]
    exact ⟨tick_not_mem_of_blank (by rw [List.all_cons, hlast]; rfl), by decide,
      tick_not_mem_of_blank htrailing⟩
  rw [hsplit] at htick
  have hin := between_of_not_mem htick hfront hback
  refine ⟨_, rfl, ?_⟩
  simp only [Part.stop, List.length_append, List.length_singleton] at hin ⊢
  omega

theorem tick_not_mem_of_divClose (hk : kind toggles s inMath = .divClose) : '`' ∉ s.line.body := by
  obtain ⟨-, -, hcloser⟩ := fits_of_kind_eq hk
  obtain ⟨rest, hbody, -, hrest⟩ := eq_of_isCloser hcloser
  rw [hbody, List.mem_append, not_or]
  exact ⟨by decide, tick_not_mem_of_blank hrest⟩

theorem formula_part_of_tick {content label : List Char} {c : Nat}
    (hk : kind toggles s inMath = .formula content label) (htick : s.line.body[c]? = some '`') :
    ∃ p, ((Kind.formula content label).content? s.line.body = some p ∨
      (Kind.formula content label).label? s.line.body = some p) ∧ p.column ≤ c ∧ c < p.stop := by
  obtain ⟨-, -, -, hline⟩ := fits_of_kind_eq hk
  obtain ⟨front, gap, back, hbody, hfront, hlength, hticks, hgap, hback⟩ := formula_parts hline
  obtain ⟨behind, hcontent, hbehind⟩ := exists_strip content
  have hblank := tick_not_mem_of_blank (List.all_takeWhile (l := content) (p := isBlank))
  have hsplit : s.line.body = front ++ content.takeWhile isBlank ++ (strip content ++
      (behind ++ (mathMark ++ gap) ++ label) ++ back) := by
    conv => lhs; rw [hbody, hcontent]
    simp
  have hbefore : '`' ∉ front ++ content.takeWhile isBlank := by
    rw [List.mem_append, not_or]
    exact ⟨hticks, hblank⟩
  have hbetween : '`' ∉ behind ++ (mathMark ++ gap) := by
    rw [List.mem_append, not_or]
    exact ⟨tick_not_mem_of_blank hbehind, hgap⟩
  rw [hsplit] at htick
  have hin := between_of_not_mem htick hbefore hback
  have hwidth := congrArg List.length hcontent
  by_cases hc : c < (front ++ content.takeWhile isBlank).length + (strip content).length
  · refine ⟨_, Or.inl rfl, ?_⟩
    simp only [Part.stop, Part.trimmed, List.length_append] at *
    omega
  · refine ⟨_, Or.inr rfl, ?_⟩
    rw [List.getElem?_append_right (by omega), List.append_assoc,
      List.getElem?_append_right (by omega), List.append_assoc] at htick
    have hin' := between_of_not_mem htick hbetween hback
    simp only [Part.stop, List.length_append] at *
    omega

theorem opener_part_of_tick {o : Opener} {c : Nat} (hk : kind toggles s inMath = .divOpen o)
    (htick : s.line.body[c]? = some '`') :
    (∃ p, (Kind.divOpen o).content? s.line.body = some p ∧ p.column ≤ c ∧ c < p.stop) ∨
      s.line.body.length ≤ c + (openerTail s.line.body).length := by
  obtain ⟨-, -, -, ho⟩ := fits_of_kind_eq hk
  obtain ⟨front, hbody, hfront⟩ := exists_front_of_opener ho
  have hticks : '`' ∉ front := fun hmem => absurd (hfront _ hmem) (by decide)
  have hwidth := congrArg List.length hbody
  refine Classical.or_iff_not_imp_right.mpr fun htail => ?_
  have hlt : c < (front ++ braces o.attributes).length := by
    simp only [List.length_append] at hwidth ⊢
    omega
  rw [hbody, ← List.append_assoc, List.getElem?_append_left hlt] at htick
  cases ha : o.attributes with
  | none =>
      rw [ha, braces, List.append_nil] at htick
      exact absurd (List.mem_of_getElem? htick) hticks
  | some attributes =>
      obtain ⟨back, -, hlength⟩ := opener_parts ho ha
      obtain ⟨behind, hattributes, hbehind⟩ := exists_strip attributes
      have hstrip := congrArg List.length hattributes
      have hbraces : front ++ braces (some attributes) =
          (front ++ '{' :: attributes.takeWhile isBlank) ++ (strip attributes ++
            (behind ++ ['}'])) := by
        conv => lhs; rw [hattributes]
        simp [braces]
      have hbefore : '`' ∉ front ++ '{' :: attributes.takeWhile isBlank := by
        rw [List.mem_append, List.mem_cons, not_or, not_or]
        exact ⟨hticks, by decide, tick_not_mem_of_blank List.all_takeWhile⟩
      have hafter : '`' ∉ behind ++ ['}'] := by
        rw [List.mem_append, not_or]
        exact ⟨tick_not_mem_of_blank hbehind, by decide⟩
      rw [ha, hbraces] at htick
      have hin := between_of_not_mem htick hbefore hafter
      refine ⟨_, by rw [Kind.content?, ha]; rfl, ?_⟩
      simp only [ha, braces, Part.stop, Part.trimmed, List.length_append, List.length_cons,
        List.length_nil] at *
      omega

/-- A backtick on a line that is rewritten stands in one of its parts, but for the opening lines of
math blocks, and the tails of those of divs. -/
theorem exists_part_of_tick {c : Nat} (hk : kind toggles s inMath = k)
    (htick : s.line.body[c]? = some '`') :
    (k = .plain ∨ k = .inMath ∨ k = .mathOpen) ∨
      (∃ p, (k.content? s.line.body = some p ∨ k.label? s.line.body = some p) ∧
        p.column ≤ c ∧ c < p.stop) ∨
      ∃ o, k = .divOpen o ∧ s.line.body.length ≤ c + (openerTail s.line.body).length := by
  cases k with
  | plain => exact Or.inl (Or.inl rfl)
  | inMath => exact Or.inl (Or.inr (Or.inl rfl))
  | mathOpen => exact Or.inl (Or.inr (Or.inr rfl))
  | divClose => exact absurd (List.mem_of_getElem? htick) (tick_not_mem_of_divClose hk)
  | formula content label => exact Or.inr (Or.inl (formula_part_of_tick hk htick))
  | mathClose label =>
      obtain ⟨p, hp, hin⟩ := label?_of_tick hk htick
      exact Or.inr (Or.inl ⟨p, Or.inr hp, hin⟩)
  | shortcode code =>
      obtain ⟨p, hp, hin⟩ := content?_of_tick hk htick
      exact Or.inr (Or.inl ⟨p, Or.inl hp, hin⟩)
  | divOpen o =>
      rcases opener_part_of_tick hk htick with ⟨p, hp, hin⟩ | htail
      · exact Or.inr (Or.inl ⟨p, Or.inl hp, hin⟩)
      · exact Or.inr (Or.inr ⟨o, rfl, htail⟩)

/-! ## Where parts go -/

/-- The content of a line stands in its group. -/
theorem group_content (toggles : Toggles) (s : Site) (st : State) (later : List Site)
    (hp : k.content? s.line.body = some p) :
    ∃ back, (k.group toggles s st later)[k.contentLine]? =
      some (k.contentBefore (fenceLength st.fences.length) ++ (p.text.flatMap k.spell ++ back)) := by
  cases k with
  | formula content label =>
      obtain rfl := Option.some.inj hp
      refine ⟨s.line.ending, ?_⟩
      simp only [Kind.spell, List.flatMap_singleton']
      rfl
  | shortcode code =>
      obtain rfl := Option.some.inj hp
      refine ⟨['"', '}'] ++ (code.trailing ++ s.line.ending), ?_⟩
      simp [Kind.contentLine, Kind.isFormula, Kind.group, Kind.act, Kind.contentBefore, Site.ended,
        leafDirective, escapeQuotes, Kind.spell]
  | divOpen o =>
      obtain ⟨attributes, ha, rfl⟩ := Option.map_eq_some_iff.mp hp
      refine ⟨'}' :: s.line.ending, ?_⟩
      simp [Kind.contentLine, Kind.isFormula, Kind.group, Kind.act, Kind.contentBefore, Site.ended,
        divDirective, ha, Kind.spell, Part.trimmed]
  | plain | inMath | mathOpen | mathClose | divClose => cases hp

end

end Convert

end DirectiveFences
