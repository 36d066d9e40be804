/-
What the round trip keeps of the div structure.

Each line opens a div, closes one, or does neither; the rules `close` and `opening` say which, and
neither of them takes a line that begins in a protected range.  Not every line keeps its class.
Restoring reads every fence of four colons or more, also one that the document had before it was
converted, and it leaves a generic name out, so of a generic opener without attributes nothing
remains but the fence, which closes.  `classBack` tells the class that a line comes back with, and
for all other lines this is the class that it had.

The text that comes back has protected ranges of its own, and it may have some where the document
had none: what a div loses behind its name may have been half of an HTML tag, in which a backtick
delimits nothing (`brokenTag`).
-/
import DirectiveFences.Proofs.Returned
import DirectiveFences.Proofs.Recording
import DirectiveFences.Stage

namespace DirectiveFences

open Text Shape Nesting

namespace Convert

/-- What the rules for divs make of a line.  Of the two the one for closers is asked first. -/
def lineClass (s : Site) : Mark :=
  if (close s {}).isSome then .closer
  else if (opening s {}).isSome then .opener
  else .other

/-- The classes of the lines of a text, where they stand in it and with its protected ranges. -/
def classesOf (t : List Char) : List Mark :=
  (sitesOf (Scan.ranges t).toArray t).map lineClass

/-- Line `i` of a text begins in one of the protected ranges of the text. -/
def BeginsProtected (t : List Char) (i : Nat) : Prop :=
  Range.isProtected (Scan.ranges t).toArray (lineStart (split t) i : Nat) = true

instance (t : List Char) (i : Nat) : Decidable (BeginsProtected t i) :=
  inferInstanceAs (Decidable (_ = _))

/-- A div that has no name, or one that stands for having none, and no attributes: its group is
missing, or holds nothing but blanks. -/
def Bare (o : Opener) : Prop :=
  Restore.IsGeneric (o.name.getD genericName) ∧ strip (o.attributes.getD []) = []

instance (o : Opener) : Decidable (Bare o) :=
  inferInstanceAs (Decidable (_ ∧ _))

/-- The class with which a line of class `c` comes back from the round trip, when `n` divs are open
before it. -/
def classBack (c : Mark) (n : Nat) (raw : List Char) : Mark :=
  let body := (Line.ofList raw).body
  match directiveOpener? body with
  | some (name, attributes) =>
    if Restore.IsGeneric name ∧ attributes = none then .closer else .opener
  | none =>
    if isDirectiveCloser body then .closer
    else if c = .opener ∧ n < 2 ∧ ∃ o ∈ opener? body, Bare o then .closer
    else c

/-! ## Classes by shape -/

/-- The class of a line by its shape. -/
def shapeClass (body : List Char) : Mark :=
  if isCloser body then .closer
  else if (opener? body).isSome then .opener
  else .other

theorem lineClass_eq (s : Site) :
    lineClass s = if s.isProtected 0 then .other else shapeClass s.line.body := by
  unfold lineClass close opening shapeClass
  cases isCloser s.line.body <;> cases s.isProtected 0 <;> cases opener? s.line.body <;> rfl

theorem getElem?_classesOf (t : List Char) (i : Nat) :
    (classesOf t)[i]? = (split t)[i]?.map fun raw =>
      if BeginsProtected t i then .other else shapeClass (Line.ofList raw).body := by
  rw [classesOf, List.getElem?_map, getElem?_sitesOf, Option.map_map]
  refine congrArg (fun f => Option.map f (split t)[i]?) (funext fun raw => ?_)
  rw [Function.comp_apply, lineClass_eq]
  rfl

theorem isInert_of_no_ranges {s : Site} (h : s.ranges = #[]) : s.isInert = false := by
  rw [Site.isInert, Site.isProtected, h]
  rfl

theorem not_beginsProtected {t : List Char} (h : Scan.ranges t = []) (i : Nat) :
    ¬ BeginsProtected t i := by
  rw [BeginsProtected, h]
  exact Bool.false_ne_true

theorem shapeClass_fence : shapeClass fence = .closer := rfl

theorem shapeClass_of_not_blank {rest : List Char} {c : Char} (hhead : rest.head? ≠ some ':')
    (hc : c ∈ rest) (hblank : isBlank c = false) : shapeClass (fence ++ rest) = .opener := by
  have hcloser : isCloser (fence ++ rest) = false := by
    rw [isCloser_fence_append]
    refine Bool.eq_false_iff.mpr fun hall => ?_
    rw [List.all_eq_true.mp hall c hc] at hblank
    exact Bool.noConfusion hblank
  have hopener : (opener? (fence ++ rest)).isSome = true := by
    rw [opener?_fence_append hhead]
    cases name? (stripFront rest) <;> rfl
  rw [shapeClass, hcloser, hopener]
  rfl

theorem shapeClass_divOpener {name : List Char} (h : IsName name)
    (attributes : Option (List Char)) :
    shapeClass (Restore.divOpener name attributes) =
      if Restore.IsGeneric name ∧ attributes = none then .closer else .opener := by
  rw [Restore.divOpener_eq]
  by_cases hname : Restore.IsGeneric name
  · cases attributes with
    | none => simp only [hname, if_true, true_and, shapeClass_fence]
    | some body =>
        simp only [hname, if_true, true_and, reduceCtorEq, if_false]
        exact shapeClass_of_not_blank (c := '{') (by simp)
          (List.mem_cons_of_mem _ List.mem_cons_self) (by decide)
  · obtain ⟨c, cs, hcons, hc⟩ := h.head (braces attributes)
    simp only [hname, if_false, false_and, hcons]
    exact shapeClass_of_not_blank (by simp) (List.mem_cons_of_mem _ List.mem_cons_self)
      (isBlank_of_isWord hc)

theorem shapeClass_divDirective {line : List Char} {o : Opener} (h : opener? line = some o) :
    shapeClass (fence ++ divDirective o) = .opener := by
  obtain ⟨c, cs, hcons, hc, -⟩ := divDirective_eq_cons h
  refine shapeClass_of_not_blank (head_divDirective h) ?_ (isBlank_of_isWord hc)
  rw [hcons]
  exact List.mem_cons_self

/-! ## Three colons and four -/

theorem longFence?_of_isCloser {body : List Char} (h : isCloser body = true) :
    longFence? body = none := by
  obtain ⟨rest, rfl, hhead, -⟩ := eq_of_isCloser h
  exact longFence?_of_head_ne hhead

theorem longFence?_of_opener {body : List Char} {o : Opener} (h : opener? body = some o) :
    longFence? body = none := by
  obtain ⟨rest, rfl, hhead, -⟩ := eq_of_opener? h
  exact longFence?_of_head_ne hhead

theorem classBack_of_longFence? {raw : List Char} (h : longFence? (Line.ofList raw).body = none)
    (c : Mark) (n : Nat) : classBack c n raw =
      if c = .opener ∧ n < 2 ∧ ∃ o ∈ opener? (Line.ofList raw).body, Bare o then .closer else c := by
  have hopener : directiveOpener? (Line.ofList raw).body = none := by rw [directiveOpener?, h]; rfl
  have hcloser : isDirectiveCloser (Line.ofList raw).body = false := by rw [isDirectiveCloser, h]
  simp only [classBack, hopener, hcloser, Bool.false_eq_true, if_false]

theorem keptAttributes_eq_none_iff (o : Opener) :
    keptAttributes o = none ↔ strip (o.attributes.getD []) = [] := by
  unfold keptAttributes
  cases ha : o.attributes with
  | none => exact ⟨fun _ => rfl, fun _ => rfl⟩
  | some body =>
      rw [Option.map_some, Option.getD_some]
      cases hstrip : strip body with
      | nil => exact ⟨fun _ => rfl, fun _ => rfl⟩
      | cons c cs =>
          refine ⟨fun h => ?_, fun h => absurd h (List.cons_ne_nil c cs)⟩
          cases h

/-! ## The class of what comes back -/

theorem isName_of_directiveOpener? {body name : List Char} {attributes : Option (List Char)}
    (h : directiveOpener? body = some (name, attributes)) : IsName name := by
  obtain ⟨⟨name', rest⟩, hbind, hpair⟩ := Option.map_eq_some_iff.mp h
  obtain ⟨long, -, hname⟩ := Option.bind_eq_some_iff.mp hbind
  cases hpair
  exact isName_of_name? hname

theorem shapeClass_body {raw : List Char} (hcl : isCloser (Line.ofList raw).body = false)
    (ho : opener? (Line.ofList raw).body = none) (n : Nat) :
    shapeClass (Restore.body (Line.ofList raw).body) =
      classBack (shapeClass (Line.ofList raw).body) n raw := by
  have hother : shapeClass (Line.ofList raw).body = .other := by
    rw [shapeClass, hcl, ho]
    rfl
  cases hdir : directiveOpener? (Line.ofList raw).body with
  | some parts =>
      obtain ⟨name, attributes⟩ := parts
      rw [Restore.body_of_opener hdir, shapeClass_divOpener (isName_of_directiveOpener? hdir)]
      simp only [classBack, hdir]
  | none =>
      cases hdcl : isDirectiveCloser (Line.ofList raw).body with
      | true =>
          rw [Restore.body_of_closer hdir hdcl, shapeClass_fence]
          simp only [classBack, hdir, hdcl, if_true]
      | false =>
          rw [Restore.body_of_other hdir hdcl, hother]
          simp only [classBack, hdir, hdcl, Bool.false_eq_true, reduceCtorEq, false_and, if_false]

/-- The class of what comes back of a line is the one that `classBack` tells. -/
theorem shapeClass_returned {s : Site} {raw : List Char} (hline : s.line = Line.ofList raw)
    (hranges : s.ranges = #[]) (n : Nat) :
    shapeClass ((kind .off s false).returned n s.line.body) =
      classBack (shapeClass (Line.ofList raw).body) n raw := by
  rw [kind_off, isInert_of_no_ranges hranges, hline]
  cases hcl : isCloser (Line.ofList raw).body with
  | true =>
      have hcloses : shapeClass (Line.ofList raw).body = .closer := by rw [shapeClass, hcl]; rfl
      rw [classBack_of_longFence? (longFence?_of_isCloser hcl), hcloses]
      rfl
  | false =>
      cases ho : opener? (Line.ofList raw).body with
      | none => exact shapeClass_body hcl ho n
      | some o =>
          have hopens : shapeClass (Line.ofList raw).body = .opener := by
            rw [shapeClass, hcl, ho]
            rfl
          rw [classBack_of_longFence? (longFence?_of_opener ho), hopens, ho]
          show shapeClass ((Kind.divOpen o).returned n _) = _
          rw [Kind.returned]
          by_cases hn : n < 2
          · rw [if_pos hn, shapeClass_divOpener (isName_of_opener ho)]
            simp only [keptAttributes_eq_none_iff, hn, Option.mem_some, exists_eq_left', Bare,
              true_and]
          · rw [if_neg hn, if_neg fun hbare => hn hbare.2.1, shapeClass_divDirective ho]

/-! ## Line endings -/

theorem getLast?_divOpener {name : List Char} (h : IsName name) (attributes : Option (List Char)) :
    (Restore.divOpener name attributes).getLast? ≠ some '\r' := by
  rw [Restore.divOpener_eq]
  split
  · cases attributes with
    | none => decide
    | some body =>
        rw [if_neg (Option.some_ne_none body), List.getLast?_append, List.getLast?_cons,
          getLast?_braces, Option.some_or]
        decide
  · obtain ⟨c, cs, hcons, -⟩ := h.head (braces attributes)
    have hlast := h.getLast?_append_braces attributes
    rw [hcons] at hlast ⊢
    rwa [List.getLast?_append, List.getLast?_cons_cons, List.getLast?_cons, Option.some_or,
      ← List.getLast?_cons]

theorem getLast?_body {b : List Char} (h : (Restore.body b).getLast? = some '\r') :
    Restore.body b = b := by
  cases hdir : directiveOpener? b with
  | some parts =>
      obtain ⟨name, attributes⟩ := parts
      rw [Restore.body_of_opener hdir] at h
      exact absurd h (getLast?_divOpener (isName_of_directiveOpener? hdir) attributes)
  | none =>
      cases hdcl : isDirectiveCloser b with
      | true =>
          rw [Restore.body_of_closer hdir hdcl] at h
          exact absurd h (by decide)
      | false => exact Restore.body_of_other hdir hdcl

theorem getLast?_returned (s : Site) (n : Nat)
    (h : ((kind .off s false).returned n s.line.body).getLast? = some '\r') :
    (kind .off s false).returned n s.line.body = s.line.body := by
  cases hk : kind .off s false with
  | plain | inMath | mathClose | mathOpen | formula | shortcode =>
      rw [hk] at h
      exact getLast?_body h
  | divClose =>
      rw [hk, Kind.returned] at h
      exact absurd h (by decide)
  | divOpen o =>
      obtain ⟨-, -, -, ho⟩ := fits_of_kind_eq hk
      rw [hk, Kind.returned] at h
      split at h
      · exact absurd h (getLast?_divOpener (isName_of_opener ho) _)
      · exact absurd h (getLast?_append_divDirective ho fence)

/-! ## The classes of a text -/

theorem marksOf_eq_classesOf {t : List Char} (h : Scan.ranges t = []) :
    marksOf .off #[] t = classesOf t := by
  rw [marksOf_off]
  refine List.ext_getElem? fun i => ?_
  rw [List.getElem?_map, getElem?_sitesOf, Option.map_map, getElem?_classesOf]
  refine congrArg (fun f => Option.map f (split t)[i]?) (funext fun raw => ?_)
  rw [Function.comp_apply, kind_off, isInert_of_no_ranges rfl, if_neg (not_beginsProtected h i),
    shapeClass]
  cases isCloser (Line.ofList raw).body <;> cases opener? (Line.ofList raw).body <;> rfl

/-- **What the round trip keeps of the div structure.**  Of a text without protected ranges every
line comes back in its place, and with the class that it had, except for the fences of four colons
or more, which are read as fences of directives, for bare openers with fewer than two open divs
before them, which come back as closers, and for lines that begin in a protected range of what comes
back. -/
theorem roundTrip_classes (t : List Char) (h : Scan.ranges t = []) :
    ∃ t', Stage.run .roundtrip .off (some id) t = .ok t' ∧
      (split t').length = (split t).length ∧
      ∀ i raw c, (split t)[i]? = some raw → (classesOf t)[i]? = some c →
        (classesOf t')[i]? = some (if BeginsProtected t' i then .other
          else classBack c (depth (classesOf t) i) raw) := by
  refine ⟨Restore.text (text .off #[] t), ?_, ?_, fun i raw c hraw hc => ?_⟩
  · show Except.ok (Restore.text (Stage.convert .off t)) = _
    rw [Stage.convert, h]
  · rw [split_roundTrip, List.length_mapIdx, length_sitesOf]
  · rw [getElem?_classesOf, hraw, Option.map_some, if_neg (not_beginsProtected h i)] at hc
    rw [getElem?_classesOf, split_roundTrip, marksOf_eq_classesOf h, List.getElem?_mapIdx,
      getElem?_sitesOf, hraw]
    simp only [Option.map_some, Option.some.injEq] at hc ⊢
    rw [Site.ended, ofList_append_ending (getLast?_returned _ _), ← hc]
    exact congrArg _ (shapeClass_returned rfl rfl _)

/-- A named div that holds two bare ones, and fences of directives. -/
def bareDivs : List Char :=
  "::: tip\n::: qmd { }\n::: div\nx\n:::::\n::::note{.b}\r\n::::div".toList

/-- Only the inner one of the bare divs comes back as an opener. -/
theorem bareDivs_classes :
    Scan.ranges bareDivs = [] ∧
    classesOf bareDivs = [.opener, .opener, .opener, .other, .other, .other, .other] ∧
    ∃ t', Stage.run .roundtrip .off (some id) bareDivs = .ok t' ∧
      (classesOf t')[1]? = some .closer ∧ (classesOf t')[2]? = some .opener ∧
      (classesOf t')[4]? = some .closer ∧ (classesOf t')[5]? = some .opener := by
  have hranges : Scan.ranges bareDivs = [] :=
    (Scan.ranges_eq_recorded _).trans (by decide +kernel)
  have hbefore : classesOf bareDivs =
      [.opener, .opener, .opener, .other, .other, .other, .other] := by
    rw [classesOf, hranges]
    decide +kernel
  have hback : Restore.text (Stage.convert .off bareDivs) =
      "::: tip\n:::\n:::div\nx\n:::\n::: note\x7b.b\x7d\r\n:::".toList := by
    rw [Stage.convert, hranges]
    decide +kernel
  obtain ⟨t', hrun, -, hclasses⟩ := roundTrip_classes bareDivs hranges
  have hfree : Scan.ranges t' = [] := by
    rw [← Except.ok.inj hrun]
    show Scan.ranges (Restore.text (Stage.convert .off bareDivs)) = []
    rw [hback, Scan.ranges_eq_recorded]
    decide +kernel
  have hat : ∀ i raw c, (split bareDivs)[i]? = some raw → (classesOf bareDivs)[i]? = some c →
      (classesOf t')[i]? = some (classBack c (depth (classesOf bareDivs) i) raw) :=
    fun i raw c hraw hc => (hclasses i raw c hraw hc).trans
      (congrArg some (if_neg (not_beginsProtected hfree i)))
  rw [hbefore] at hat
  refine ⟨hranges, hbefore, t', hrun, ?_, ?_, ?_, ?_⟩
  · exact (hat 1 "::: qmd \x7b \x7d".toList _ (by decide +kernel) rfl).trans (by decide +kernel)
  · exact (hat 2 "::: div".toList _ (by decide +kernel) rfl).trans (by decide +kernel)
  · exact (hat 4 ":::::".toList _ (by decide +kernel) rfl).trans (by decide +kernel)
  · exact (hat 5 "::::note\x7b.b\x7d\r".toList _ (by decide +kernel) rfl).trans (by decide +kernel)

/-- A div that is open before a line of four colons. -/
def genericDiv : List Char :=
  "::: div\nx\n:::\n\n::::".toList

/-- A div whose opening line ends an HTML tag with a backtick in it. -/
def brokenTag : List Char :=
  "x <a title='`\n::: n '>\n` y".toList

/-- The opener of a bare div comes back as a closer, and so does a line that was no fence.  Where a
tag is broken its backtick begins a code span, and the opener in that comes back as neither. -/
theorem genericDiv_classes_changed :
    (Scan.ranges genericDiv = [] ∧
      classesOf genericDiv = [.opener, .other, .closer, .other, .other] ∧
      ∃ t', Stage.run .roundtrip .off (some id) genericDiv = .ok t' ∧
        classesOf t' = [.closer, .other, .closer, .other, .closer]) ∧
    Scan.ranges brokenTag = [] ∧ classesOf brokenTag = [.other, .opener, .other] ∧
      ∃ t', Stage.run .roundtrip .off (some id) brokenTag = .ok t' ∧ BeginsProtected t' 1 ∧
        classesOf t' = [.other, .other, .other] := by
  have hdiv : Scan.ranges genericDiv = [] :=
    (Scan.ranges_eq_recorded _).trans (by decide +kernel)
  have hdivBack : Restore.text (Stage.convert .off genericDiv) = ":::\nx\n:::\n\n:::".toList := by
    rw [Stage.convert, hdiv]
    decide +kernel
  have hdivFree : Scan.ranges ":::\nx\n:::\n\n:::".toList = [] :=
    (Scan.ranges_eq_recorded _).trans (by decide +kernel)
  have htag : Scan.ranges brokenTag = [] :=
    (Scan.ranges_eq_recorded _).trans (by decide +kernel)
  have htagBack : Restore.text (Stage.convert .off brokenTag) =
      "x <a title='`\n::: n\n` y".toList := by
    rw [Stage.convert, htag]
    decide +kernel
  have hspan : Scan.ranges "x <a title='`\n::: n\n` y".toList = [⟨12, 21⟩] :=
    (Scan.ranges_eq_recorded _).trans (by decide +kernel)
  refine ⟨⟨hdiv, ?_, _, congrArg Except.ok hdivBack, ?_⟩, htag, ?_, _, congrArg Except.ok htagBack,
    ?_, ?_⟩
  · rw [classesOf, hdiv]
    decide +kernel
  · rw [classesOf, hdivFree]
    decide +kernel
  · rw [classesOf, htag]
    decide +kernel
  · rw [BeginsProtected, hspan]
    decide +kernel
  · rw [classesOf, hspan]
    decide +kernel

end Convert

end DirectiveFences
