/-
What a recognised line is made of.

Each recogniser of `Shape` answers with parts of the line.  The lemmas here put the
parts together again: the line is those parts, in their order, with the marks of its
shape and blanks between them.  So whatever the conversion writes comes from the line,
and a line without a line feed gives lines without one.  The other way round, a name and an
attribute group that are written behind each other are read again.
-/
import DirectiveFences.Directive.Shape

namespace DirectiveFences.Shape

open DirectiveFences.Text

/-! ## Blanks at the ends -/

theorem stripFront_suffix (cs : List Char) : stripFront cs <:+ cs :=
  List.dropWhile_suffix _

theorem stripBack_append (cs : List Char) : stripBack cs <+: cs := by
  have h : (stripBack cs).reverse <:+ cs.reverse := by
    simpa [stripBack] using List.dropWhile_suffix (l := cs.reverse) isBlank
  exact List.reverse_suffix.mp h

theorem append_strip_append (cs : List Char) : strip cs <:+: cs :=
  (stripBack_append _).isInfix.trans (stripFront_suffix cs).isInfix

theorem mem_of_mem_strip {c : Char} {cs : List Char} (h : c ∈ strip cs) : c ∈ cs :=
  (append_strip_append cs).subset h

/-! ## Marks -/

theorem after?_eq_some_iff {ms cs rest : List Char} :
    after? ms cs = some rest ↔ cs = ms ++ rest := by
  induction ms generalizing cs with
  | nil => simp [after?, eq_comm]
  | cons m ms ih =>
      cases cs with
      | nil => simp [after?]
      | cons c cs =>
          by_cases h : m = c
          · subst h; simp [after?, ih]
          · simp [after?, h, Ne.symm h]

/-! ## Display math -/

theorem eq_of_mathLabel? {cs label : List Char} (h : mathLabel? cs = some label) :
    ∃ gap, cs = gap ++ label ∧ gap.all isBlank = true := by
  have hlabel : stripFront cs = label := by
    unfold mathLabel? at h
    split at h
    · rename_i hfront
      rw [hfront, Option.some.inj h]
    · rename_i ds hfront
      obtain ⟨-, heq⟩ := Option.ite_none_right_eq_some.mp h
      rw [hfront, Option.some.inj heq]
    · cases h
  refine ⟨cs.takeWhile isBlank, ?_, List.all_takeWhile⟩
  rw [← hlabel, stripFront, List.takeWhile_append_dropWhile]

theorem suffix_of_mathLabel? {cs label : List Char} (h : mathLabel? cs = some label) :
    label <:+ cs := by
  obtain ⟨gap, rfl, -⟩ := eq_of_mathLabel? h
  exact List.suffix_append gap label

theorem eq_of_mathFence? {cs label : List Char} (h : mathFence? cs = some label) :
    ∃ rest, cs = mathMark ++ rest ∧ mathLabel? rest = some label := by
  obtain ⟨rest, hrest, hlabel⟩ := Option.bind_eq_some_iff.mp h
  exact ⟨rest, after?_eq_some_iff.mp hrest, hlabel⟩

theorem eq_of_formulaFrom {cs formula label : List Char}
    (h : formulaFrom cs = some (formula, label)) :
    ∃ rest, cs = formula ++ (mathMark ++ rest) ∧ mathLabel? rest = some label := by
  induction cs generalizing formula with
  | nil => cases h
  | cons c cs ih =>
      unfold formulaFrom at h
      split at h
      · rename_i formula' label' hlater
        cases h
        split at hlater
        · cases hlater
        · obtain ⟨rest, hcs, hlabel⟩ := ih hlater
          exact ⟨rest, by rw [hcs]; rfl, hlabel⟩
      · split at h
        · cases h
        · rename_i rest hmark
          obtain ⟨label', hlabel, hpair⟩ := Option.map_eq_some_iff.mp h
          cases hpair
          exact ⟨rest, by rw [List.nil_append, ← after?_eq_some_iff.mp hmark], hlabel⟩

/-- A formula on one line: the mark, the formula, the mark again, and what the label follows. -/
theorem eq_of_mathLine? {cs formula label : List Char}
    (h : mathLine? cs = some (formula, label)) :
    ∃ rest, cs = mathMark ++ (formula ++ (mathMark ++ rest)) ∧
      mathLabel? rest = some label := by
  unfold mathLine? at h
  split at h
  · rename_i c ds hmark
    split at h
    · cases h
    · obtain ⟨⟨formula', label'⟩, hfrom, hpair⟩ := Option.map_eq_some_iff.mp h
      cases hpair
      obtain ⟨rest, hds, hlabel⟩ := eq_of_formulaFrom hfrom
      exact ⟨rest, by rw [after?_eq_some_iff.mp hmark, hds]; rfl, hlabel⟩
  · cases h

/-! ## Shortcodes -/

theorem eq_of_shortcodeBody? {cs body : List Char} (h : shortcodeBody? cs = some body) :
    ∃ first last, cs = first :: (body ++ [last]) ∧ isBlank first = true ∧
      isBlank last = true := by
  unfold shortcodeBody? at h
  split at h
  · rename_i first ds
    split at h
    · cases h
    · rename_i last hlast
      simp only at h
      split at h
      · rename_i hcond
        simp only [Bool.and_eq_true] at hcond
        cases h
        obtain ⟨ys, rfl⟩ := List.getLast?_eq_some_iff.mp hlast
        exact ⟨first, last, by simp, hcond.1.1.1, hcond.1.1.2⟩
      · cases h
  · cases h

/-- A shortcode on a line of its own: its body between blanks and the marks, and blanks around. -/
theorem eq_of_shortcode? {line : List Char} {code : Shortcode}
    (h : shortcode? line = some code) :
    ∃ first last, line = code.indent ++ (shortcodeMark ++ (first :: (code.body ++ (last ::
      (shortcodeEnd ++ code.trailing))))) ∧ isBlank first = true ∧ isBlank last = true ∧
      code.indent.all isBlank = true ∧ code.trailing.all isBlank = true := by
  unfold shortcode? at h
  split at h
  · cases h
  · rename_i inner hmark
    split at h
    · cases h
    · rename_i front hend
      obtain ⟨body, hbody, rfl⟩ := Option.map_eq_some_iff.mp h
      obtain ⟨first, last, hfront, hfirst, hlast⟩ := eq_of_shortcodeBody? hbody
      have hinner : inner = stripBack inner ++ (inner.reverse.takeWhile isBlank).reverse := by
        rw [stripBack, ← List.reverse_append, List.takeWhile_append_dropWhile,
          List.reverse_reverse]
      have hback : stripBack inner = front.reverse ++ shortcodeEnd := by
        have := congrArg List.reverse (after?_eq_some_iff.mp hend)
        simpa using this
      have hline : line = line.takeWhile isBlank ++ (shortcodeMark ++ inner) := by
        rw [← after?_eq_some_iff.mp hmark, List.takeWhile_append_dropWhile]
      refine ⟨first, last, ?_, hfirst, hlast, ?_, ?_⟩
      · calc line = line.takeWhile isBlank ++ (shortcodeMark ++ inner) := hline
          _ = line.takeWhile isBlank ++ (shortcodeMark ++ ((front.reverse ++ shortcodeEnd) ++
                (inner.reverse.takeWhile isBlank).reverse)) := by rw [← hback, ← hinner]
          _ = _ := by rw [hfront]; simp
      · exact List.all_takeWhile
      · rw [List.all_reverse]; exact List.all_takeWhile

/-! ## Divs -/

theorem eq_of_name? {cs name rest : List Char} (h : name? cs = some (name, rest)) :
    cs = name ++ rest := by
  unfold name? at h
  split at h
  · split at h
    · cases h
      simp
    · cases h
  · cases h

theorem eq_of_attributes? {cs body : List Char} (h : attributes? cs = some body) :
    ∃ rest, cs = '{' :: (body ++ '}' :: rest) := by
  unfold attributes? at h
  split at h
  · rename_i ds
    simp only at h
    split at h
    · cases h
    · rename_i hcond
      cases h
      simp only [Bool.or_eq_true, beq_iff_eq, not_or] at hcond
      have hsplit := List.takeWhile_append_dropWhile (p := (· != '}')) (l := ds)
      cases hdrop : ds.dropWhile (· != '}') with
      | nil =>
          rw [hdrop, List.append_nil] at hsplit
          exact absurd (congrArg List.length hsplit) hcond.2
      | cons d rest =>
          have hd : d = '}' := by
            have := List.head?_dropWhile_not (· != '}') ds
            simpa [hdrop] using this
          subst hd
          exact ⟨rest, by rw [← hdrop, hsplit]⟩
  · cases h

/-- A closing line: three colons, and then no fourth, nor anything else that is not blank. -/
theorem eq_of_isCloser {line : List Char} (h : isCloser line = true) :
    ∃ rest, line = fence ++ rest ∧ rest.head? ≠ some ':' ∧ rest.all isBlank = true := by
  unfold isCloser at h
  split at h
  · rename_i rest hmark
    refine ⟨rest, after?_eq_some_iff.mp hmark, fun hc => ?_, h⟩
    obtain ⟨cs, rfl⟩ := List.head?_eq_some_iff.mp hc
    exact absurd (List.all_eq_true.mp h ':' List.mem_cons_self) (by decide)
  · cases h

/-- An opening line: three colons, no fourth, and then the name and the attributes, each perhaps
missing, after blanks. -/
theorem eq_of_opener? {line : List Char} {o : Opener} (h : opener? line = some o) :
    ∃ rest, line = fence ++ rest ∧ rest.head? ≠ some ':' ∧
      ((∃ name after, o.name = some name ∧ name? (stripFront rest) = some (name, after) ∧
          o.attributes = attributes? (stripFront after)) ∨
        (o.name = none ∧ name? (stripFront rest) = none ∧
          o.attributes = attributes? (stripFront rest))) := by
  unfold opener? at h
  split at h
  · cases h
  · cases h
  · rename_i rest hcolon hmark
    have hhead : rest.head? ≠ some ':' := by
      intro hc
      obtain ⟨cs, rfl⟩ := List.head?_eq_some_iff.mp hc
      exact hcolon cs rfl
    refine ⟨rest, after?_eq_some_iff.mp hmark, hhead, ?_⟩
    split at h
    · rename_i name after hname
      cases h
      exact Or.inl ⟨name, after, rfl, hname, rfl⟩
    · rename_i hname
      cases h
      exact Or.inr ⟨rfl, hname, rfl⟩

/-! ## Names and attributes, read and written -/

/-- A name of a div: a word character, then word characters and hyphens. -/
def IsName (name : List Char) : Prop :=
  ∃ c cs, name = c :: cs ∧ isWord c = true ∧ cs.all (fun d => isWord d || d == '-') = true

/-- What may stand between the braces of an attribute group. -/
def IsBody (body : List Char) : Prop :=
  body ≠ [] ∧ '}' ∉ body

instance : DecidablePred IsName
  | [] => isFalse fun ⟨_, _, hnil, _⟩ => by cases hnil
  | c :: cs => decidable_of_iff
      (isWord c = true ∧ cs.all (fun d => isWord d || d == '-') = true)
      ⟨fun h => ⟨c, cs, rfl, h⟩, fun ⟨_, _, hcons, h⟩ => by cases hcons; exact h⟩

instance (body : List Char) : Decidable (IsBody body) :=
  inferInstanceAs (Decidable (_ ∧ _))

/-- An attribute group, if there is one, as it is written. -/
def braces : Option (List Char) → List Char
  | none => []
  | some body => '{' :: (body ++ ['}'])

theorem isName_of_name? {cs name rest : List Char} (h : name? cs = some (name, rest)) :
    IsName name := by
  unfold name? at h
  split at h
  · split at h
    · rename_i c ds hc
      cases h
      exact ⟨c, _, rfl, hc, List.all_takeWhile⟩
    · cases h
  · cases h

theorem IsName.head {name : List Char} (h : IsName name) (tail : List Char) :
    ∃ c cs, name ++ tail = c :: cs ∧ isWord c = true := by
  obtain ⟨c, cs, rfl, hc, -⟩ := h
  exact ⟨c, cs ++ tail, rfl, hc⟩

theorem IsName.name?_append_braces {name : List Char} (h : IsName name)
    (attributes : Option (List Char)) :
    name? (name ++ braces attributes) = some (name, braces attributes) := by
  obtain ⟨c, cs, rfl, hc, hcs⟩ := h
  rw [List.all_eq_true] at hcs
  have hstop : (braces attributes).takeWhile (fun d => isWord d || d == '-') = [] ∧
      (braces attributes).dropWhile (fun d => isWord d || d == '-') = braces attributes := by
    cases attributes with
    | none => exact ⟨rfl, rfl⟩
    | some body =>
        have hbrace : ¬ (isWord '{' || '{' == '-') = true := by decide
        exact ⟨List.takeWhile_cons_of_neg hbrace, List.dropWhile_cons_of_neg hbrace⟩
  rw [List.cons_append, name?, if_pos hc, List.takeWhile_append_of_pos hcs,
    List.dropWhile_append_of_pos hcs, hstop.1, hstop.2, List.append_nil]

theorem getLast?_braces (body : List Char) : (braces (some body)).getLast? = some '}' := by
  rw [braces, ← List.cons_append, List.getLast?_concat]

theorem IsName.getLast?_append_braces {name : List Char} (h : IsName name)
    (attributes : Option (List Char)) : (name ++ braces attributes).getLast? ≠ some '\r' := by
  cases attributes with
  | some body =>
      rw [List.getLast?_append, getLast?_braces, Option.some_or]
      decide
  | none =>
      intro hlast
      obtain ⟨c, cs, rfl, hc, hcs⟩ := h
      rw [braces, List.append_nil] at hlast
      rcases List.mem_cons.mp (List.mem_of_getLast? hlast) with rfl | hmem
      · exact absurd hc (by decide)
      · exact absurd (List.all_eq_true.mp hcs _ hmem) (by decide)

theorem name?_of_not_isWord {c : Char} (hc : isWord c = false) (cs : List Char) :
    name? (c :: cs) = none := by
  rw [name?, if_neg (Bool.eq_false_iff.mp hc)]

theorem isBody_of_attributes? {cs body : List Char} (h : attributes? cs = some body) :
    IsBody body := by
  unfold attributes? at h
  split at h
  · simp only at h
    split at h
    · cases h
    · rename_i ds hcond
      cases h
      rw [Bool.or_eq_true, not_or] at hcond
      refine ⟨fun hnil => hcond.1 (List.isEmpty_iff.mpr hnil), fun hmem => ?_⟩
      have := List.all_eq_true.mp (List.all_takeWhile (p := (· != '}')) (l := ds)) _ hmem
      exact absurd this (by decide)
  · cases h

theorem IsBody.attributes?_braces {body : List Char} (h : IsBody body) :
    attributes? (braces (some body)) = some body := by
  have hall : ∀ c ∈ body, (c != '}') = true := by
    intro c hc
    rw [bne_iff_ne]
    rintro rfl
    exact h.2 hc
  have htake : (body ++ ['}']).takeWhile (· != '}') = body := by
    rw [List.takeWhile_append_of_pos hall]
    exact List.append_nil body
  have hne : body.isEmpty = false := Bool.eq_false_iff.mpr fun he => h.1 (List.isEmpty_iff.mp he)
  have hlen : (body.length == (body ++ ['}']).length) = false := by simp
  simp only [braces, attributes?, htake, hne, hlen, Bool.or_self, Bool.false_eq_true, if_false]

theorem attributes?_braces_nil : attributes? (braces (some [])) = none := rfl

/-! ## What follows the front of an opening line -/

/-- What follows the attribute group at the front of a text, if there is one. -/
def afterAttributes (cs : List Char) : List Char :=
  match attributes? cs with
  | some body => cs.drop (body.length + 2)
  | none => cs

/-- What follows the fence, the name and the attributes of an opening line. -/
def openerTail (line : List Char) : List Char :=
  let rest := stripFront (line.drop fence.length)
  match name? rest with
  | some (_, rest) => afterAttributes (stripFront rest)
  | none => afterAttributes rest

theorem braces_append_afterAttributes (cs : List Char) :
    braces (attributes? cs) ++ afterAttributes cs = cs := by
  unfold afterAttributes
  cases h : attributes? cs with
  | none => rfl
  | some body =>
      obtain ⟨rest, rfl⟩ := eq_of_attributes? h
      simp [braces]

/-- An opening line is the part that is carried over, with blanks between, and the tail. -/
theorem eq_append_openerTail {line : List Char} {o : Opener} (h : opener? line = some o) :
    ∃ gap gap', line = fence ++ (gap ++ (o.name.getD [] ++ (gap' ++
        (braces o.attributes ++ openerTail line)))) ∧
      gap.all isBlank = true ∧ gap'.all isBlank = true := by
  obtain ⟨rest, rfl, -, ⟨name, after, ho, hname, ha⟩ | ⟨ho, hname, ha⟩⟩ := eq_of_opener? h
  · have htail : openerTail (fence ++ rest) = afterAttributes (stripFront after) := by
      simp only [openerTail, List.drop_left, hname]
    refine ⟨rest.takeWhile isBlank, after.takeWhile isBlank, ?_, List.all_takeWhile,
      List.all_takeWhile⟩
    rw [htail, ho, ha, braces_append_afterAttributes, stripFront, List.takeWhile_append_dropWhile,
      Option.getD_some, ← eq_of_name? hname, stripFront, List.takeWhile_append_dropWhile]
  · have htail : openerTail (fence ++ rest) = afterAttributes (stripFront rest) := by
      simp only [openerTail, List.drop_left, hname]
    refine ⟨rest.takeWhile isBlank, [], ?_, List.all_takeWhile, rfl⟩
    rw [htail, ho, ha, braces_append_afterAttributes, Option.getD_none, List.nil_append,
      List.nil_append, stripFront, List.takeWhile_append_dropWhile]

theorem exists_front_of_opener {line : List Char} {o : Opener} (h : opener? line = some o) :
    ∃ front, line = front ++ (braces o.attributes ++ openerTail line) ∧
      ∀ c ∈ front, (c == ':' || isBlank c || isWord c || c == '-') = true := by
  obtain ⟨gap, gap', hline, hgap, hgap'⟩ := eq_append_openerTail h
  refine ⟨fence ++ (gap ++ (o.name.getD [] ++ gap')), ?_, fun c hc => ?_⟩
  · conv => lhs; rw [hline]
    simp only [List.append_assoc]
  · have hname : ∀ d ∈ o.name.getD [], (isWord d || d == '-') = true := by
      obtain ⟨rest, -, -, ⟨name, after, ho, hname, -⟩ | ⟨ho, -, -⟩⟩ := eq_of_opener? h
      · obtain ⟨d, ds, rfl, hd, hds⟩ := isName_of_name? hname
        rw [ho]
        refine List.forall_mem_cons.mpr ⟨by rw [hd, Bool.true_or], List.all_eq_true.mp hds⟩
      · rw [ho]
        exact fun d hd => absurd hd List.not_mem_nil
    have hfence : fence.all (· == ':') = true := rfl
    simp only [List.mem_append] at hc
    simp only [Bool.or_eq_true]
    rcases hc with hc | hc | hc | hc
    · exact Or.inl (Or.inl (Or.inl (List.all_eq_true.mp hfence c hc)))
    · exact Or.inl (Or.inl (Or.inr (List.all_eq_true.mp hgap c hc)))
    · exact (Bool.or_eq_true_iff.mp (hname c hc)).imp Or.inr id
    · exact Or.inl (Or.inl (Or.inr (List.all_eq_true.mp hgap' c hc)))

end DirectiveFences.Shape
