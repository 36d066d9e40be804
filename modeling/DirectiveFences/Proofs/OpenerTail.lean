/-
What an opening fence leaves behind.

An opening fence is recognised by its front: three colons, perhaps a name, perhaps attributes.
These are carried over to the directive, and what follows them, the tail, is not looked at.  So
a line is taken whatever its tail says, and the tail is lost.  To account for it, the characters
of the line and of what is written for it are compared, all but the blanks and colons
(`filter_directive`): both have the part that is carried over, the line has the tail behind it,
and the directive of a div without a name has the placeholder `div` before it.
-/
import DirectiveFences.Proofs.Parts
import DirectiveFences.Proofs.Returned
import DirectiveFences.Proofs.Recording
import DirectiveFences.Stage

namespace DirectiveFences

namespace Text

/-- A character that says nothing: a blank or a colon. -/
def isFiller (c : Char) : Bool :=
  isBlank c || c == ':'

/-- What a text says, without the blanks and colons. -/
def ink (cs : List Char) : List Char :=
  cs.filter fun c => !isFiller c

theorem isFiller_of_isBlank {c : Char} (h : isBlank c = true) : isFiller c = true := by
  rw [isFiller, h, Bool.true_or]

theorem isWord_of_isFiller {c : Char} (h : isFiller c = true) : isWord c = false := by
  refine Bool.eq_false_iff.mpr fun hword => ?_
  rcases Bool.or_eq_true_iff.mp h with hblank | hcolon
  · exact Bool.noConfusion ((isBlank_of_isWord hword).symm.trans hblank)
  · rw [beq_iff_eq.mp hcolon] at hword
    exact absurd hword (by decide)

theorem ink_eq_nil_iff {cs : List Char} : ink cs = [] ↔ cs.all isFiller = true := by
  simp [ink, List.filter_eq_nil_iff]

section

variable {p : Char → Bool}

theorem filter_of_filler (hp : ∀ c, isFiller c = true → p c = false) {cs : List Char}
    (h : cs.all isFiller = true) : cs.filter p = [] :=
  List.filter_eq_nil_iff.mpr fun c hc => Bool.eq_false_iff.mp (hp c (List.all_eq_true.mp h c hc))

theorem filter_of_blank (hp : ∀ c, isFiller c = true → p c = false) {cs : List Char}
    (h : cs.all isBlank = true) : cs.filter p = [] :=
  filter_of_filler hp (List.all_eq_true.mpr fun c hc =>
    isFiller_of_isBlank (List.all_eq_true.mp h c hc))

theorem filter_strip (hp : ∀ c, isFiller c = true → p c = false) (cs : List Char) :
    (strip cs).filter p = cs.filter p := by
  obtain ⟨back, hcs, hback⟩ := exists_strip cs
  conv => rhs; rw [hcs]
  rw [List.filter_append, List.filter_append, filter_of_blank hp List.all_takeWhile,
    filter_of_blank hp hback, List.nil_append, List.append_nil]

end

end Text

namespace Shape

open Text

theorem opener?_isSome_iff (line : List Char) :
    (opener? line).isSome = true ↔ ∃ rest, line = fence ++ rest ∧ rest.head? ≠ some ':' := by
  constructor
  · intro h
    obtain ⟨o, ho⟩ := Option.isSome_iff_exists.mp h
    obtain ⟨rest, hline, hhead, -⟩ := eq_of_opener? ho
    exact ⟨rest, hline, hhead⟩
  · rintro ⟨rest, rfl, hhead⟩
    rw [opener?_fence_append hhead]
    split <;> rfl

theorem isCloser_of_openerTail {line : List Char} {o : Opener} (h : opener? line = some o)
    (htail : (openerTail line).all isFiller = false) : isCloser line = false := by
  refine Bool.eq_false_iff.mpr fun hcloser => ?_
  obtain ⟨gap, gap', hline, -, -⟩ := eq_append_openerTail h
  obtain ⟨rest, hrest, -, hblank⟩ := eq_of_isCloser hcloser
  rw [hrest, List.append_cancel_left_eq] at hline
  refine Bool.eq_false_iff.mp htail (List.all_eq_true.mpr fun c hc => ?_)
  refine isFiller_of_isBlank (List.all_eq_true.mp hblank c ?_)
  rw [hline]
  simp only [List.mem_append]
  exact Or.inr (Or.inr (Or.inr (Or.inr (by rwa [hrest] at hc))))

end Shape

namespace Convert

open Text Shape

/-- What the directive of a div says before the part that is carried over. -/
def placeholder (o : Opener) : List Char :=
  if o.name.isNone then genericName else []

/-- The directive that is written for an opening line. -/
def openingDirective (st : State) (o : Opener) : List Char :=
  List.replicate (fenceLength st.fences.length) ':' ++ divDirective o

/-! ## The line and its directive -/

section

variable {s : Site} {st : State} {o : Opener} {p : Char → Bool}

/-- The directive lacks the tail of the line, and has the placeholder before the rest of it. -/
theorem filter_directive (hp : ∀ c, isFiller c = true → p c = false) {line : List Char}
    (ho : opener? line = some o) (st : State) :
    (openingDirective st o).filter p ++ (openerTail line).filter p =
      (placeholder o).filter p ++ line.filter p := by
  obtain ⟨gap, gap', hline, hgap, hgap'⟩ := eq_append_openerTail ho
  have hcolons : ∀ n, (List.replicate n ':').all isFiller = true := fun n =>
    List.all_eq_true.mpr fun c hc => by rw [List.eq_of_mem_replicate hc]; decide
  have hline' : line.filter p = (o.name.getD []).filter p ++
      ((braces o.attributes).filter p ++ (openerTail line).filter p) := by
    conv => lhs; rw [hline]
    rw [List.filter_append, List.filter_append, List.filter_append, List.filter_append,
      List.filter_append, filter_of_filler hp (show fence.all isFiller = true by decide),
      filter_of_blank hp hgap, filter_of_blank hp hgap', List.nil_append, List.nil_append,
      List.nil_append]
  have hname : (o.name.getD genericName).filter p =
      (placeholder o).filter p ++ (o.name.getD []).filter p := by
    unfold placeholder
    cases o.name <;> simp
  have hbraces : (braces (o.attributes.map strip)).filter p = (braces o.attributes).filter p := by
    cases o.attributes with
    | none => rfl
    | some body => simp [braces, List.filter_cons, filter_strip hp]
  rw [hline', openingDirective, divDirective_eq, List.filter_append, List.filter_append,
    filter_of_filler hp (hcolons _), hname, hbraces]
  simp only [List.nil_append, List.append_assoc]

theorem ink_directive {line : List Char} (ho : opener? line = some o) (st : State) :
    ink (openingDirective st o) ++ ink (openerTail line) = placeholder o ++ ink line := by
  have hplaceholder : ink (placeholder o) = placeholder o := by
    unfold placeholder
    cases o.name with
    | none => decide
    | some name => rfl
  rw [← hplaceholder]
  exact filter_directive (fun c hc => by rw [hc]; rfl) ho st

theorem ink_directive_iff {line : List Char} (ho : opener? line = some o) (st : State) :
    ink (openingDirective st o) = placeholder o ++ ink line ↔
      (openerTail line).all isFiller = true := by
  rw [← ink_eq_nil_iff, ← ink_directive ho st, List.self_eq_append_right]

theorem words_directive {line : List Char} (ho : opener? line = some o) (st : State)
    (h : (openerTail line).all isFiller = true) :
    (line.filter isWord).Sublist ((openingDirective st o).filter isWord) := by
  have hwords := filter_directive (fun c hc => isWord_of_isFiller hc) ho st
  rw [filter_of_filler (fun c hc => isWord_of_isFiller hc) h, List.append_nil] at hwords
  rw [hwords]
  exact List.sublist_append_right ..

/-- A line with a tail is not written as it stands. -/
theorem directive_ne {line : List Char} (ho : opener? line = some o) (st : State)
    (h : (openerTail line).all isFiller = false) : openingDirective st o ≠ line := by
  intro heq
  have hink := ink_directive ho st
  rw [heq] at hink
  obtain ⟨rest, hline, -, ⟨name, after, hname, -⟩ | ⟨hnone, hname, -⟩⟩ := eq_of_opener? ho
  · have hplaceholder : placeholder o = [] := by rw [placeholder, hname]; rfl
    rw [hplaceholder, List.nil_append, List.append_right_eq_self, ink_eq_nil_iff, h] at hink
    cases hink
  · -- a directive has a name, and read as an opening line it still has one
    have hlength := colons_of_opener ho
    rw [← heq, openingDirective, colons_replicate_append, ← List.append_nil (divDirective o),
      colons_divDirective ho] at hlength
    have hrest : rest = divDirective o := by
      rw [← heq, openingDirective, show fenceLength st.fences.length = 3 by omega] at hline
      exact (List.append_cancel_left hline).symm
    obtain ⟨c, cs, hcons, hc, -⟩ := divDirective_eq_cons ho
    rw [hrest, hcons, stripFront, List.dropWhile_cons_of_neg (by simp [isBlank_of_isWord hc]),
      name?, if_pos hc] at hname
    cases hname

end

/-- **An opening fence loses its tail.**  The rule takes the lines of three colons and no fourth
that are not protected, whatever else they say.  The directive that it writes, in place of the whole
line, says all that the line says exactly if nothing but blanks and colons follows the name and the
attributes; then all words of the line are in it.  Any other tail is lost, and nothing else is: the
directive and the tail together say what the line says.  No such line is written unchanged. -/
theorem opening_keeps_text_iff (s : Site) (st : State) :
    ((opening s st).isSome = true ↔ s.isInert = false ∧
      ∃ rest, s.line.body = fence ++ rest ∧ rest.head? ≠ some ':') ∧
    ∀ r, opening s st = some r → ∃ o, opener? s.line.body = some o ∧
      let line := s.line.body
      let directive := openingDirective st o
      let tail := openerTail line
      r.lines = [s.ended directive] ∧
      (∃ gap gap', line = fence ++ (gap ++ (o.name.getD [] ++ (gap' ++
          (braces o.attributes ++ tail)))) ∧
        gap.all isBlank = true ∧ gap'.all isBlank = true) ∧
      (ink directive = placeholder o ++ ink line ↔ tail.all isFiller = true) ∧
      (tail.all isFiller = true → (line.filter isWord).Sublist (directive.filter isWord)) ∧
      (tail.all isFiller = false →
        ink directive ++ ink tail = placeholder o ++ ink line ∧
        r.lines ≠ [s.line.toList] ∧
        ∀ toggles, st.inMath = false → step toggles s st = r) := by
  constructor
  · rw [opening_eq, ← opener?_isSome_iff]
    cases s.isInert <;> simp
  · intro r hr
    rw [opening_eq] at hr
    split at hr
    · cases hr
    · rename_i hi
      rw [Bool.not_eq_true] at hi
      obtain ⟨o, ho, rfl⟩ := Option.map_eq_some_iff.mp hr
      refine ⟨o, ho, rfl, eq_append_openerTail ho, ink_directive_iff ho st, words_directive ho st,
        fun htail => ⟨ink_directive ho st, fun hsame => ?_, fun toggles hmath => ?_⟩⟩
      · exact directive_ne ho st htail (List.append_cancel_right (List.singleton_inj.mp hsame))
      · rw [step_eq_act, hmath, (kind_eq_divOpen_iff toggles).mpr
          ⟨rfl, hi, isCloser_of_openerTail ho htail, ho⟩]

/-- Prose behind the name of a div is no part of the directive, nor is a second pair of braces. -/
theorem proseAfterName_dropped :
    Stage.convert {} "::: note Some prose".toList = ":::::note".toList ∧
      Stage.convert {} "::: \x7b.a\x7d\x7b.b\x7d".toList = ":::::div\x7b.a\x7d".toList ∧
      openerTail "::: note Some prose".toList = "Some prose".toList ∧
      ¬ ∀ c ∈ "::: note Some prose".toList, isWord c = true → c ∈ ":::::note".toList := by
  refine ⟨?_, ?_, by decide +kernel, fun hwords => ?_⟩
  · rw [Stage.convert, Scan.ranges_eq_recorded]
    decide +kernel
  · rw [Stage.convert, Scan.ranges_eq_recorded]
    decide +kernel
  · exact absurd (hwords 'S' (by decide) (by decide +kernel)) (by decide)

end Convert

end DirectiveFences
