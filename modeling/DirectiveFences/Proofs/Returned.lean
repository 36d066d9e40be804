/-
What comes back of a line.

When neither math nor shortcodes are wanted, the conversion rewrites the lines of divs
only, and writes one line for each.  Restoring looks at every line by itself.  So the
round trip is a map over the lines of a text: what comes back of a line depends on the
line and on the number of divs that are open before it, and on nothing else.

The depth is written down in the length of a fence and is lost again.  Only a div that is
opened inside two others keeps a trace of it: its directive has three colons, and lines of
three colons are not restored.
-/
import DirectiveFences.Directive.Restore
import DirectiveFences.Proofs.Fences

namespace DirectiveFences

open Text

/-- Neither shortcodes nor math are converted. -/
def Toggles.off : Toggles := ⟨false, false⟩

/-- No character of a word is blank. -/
theorem Text.isBlank_of_isWord {c : Char} (h : isWord c = true) : isBlank c = false := by
  have hcodes : ∀ n ∈ List.range' 0x9 5 ++ List.range' 0x1C 5 ++ List.range' 0x2000 11 ++
      [0x85, 0xA0, 0x1680, 0x2028, 0x2029, 0x202F, 0x205F, 0x3000],
      isWord (Char.ofNat n) = false := by
    decide +kernel
  refine Bool.eq_false_iff.mpr fun hblank => ?_
  simp only [isBlank, Bool.or_eq_true, Bool.and_eq_true, decide_eq_true_eq, beq_iff_eq] at hblank
  have hword := hcodes c.toNat (by
    simp only [List.mem_append, List.mem_range'_1, List.mem_cons, List.not_mem_nil]
    omega)
  rw [Char.ofNat_toNat, h] at hword
  exact Bool.noConfusion hword

namespace Shape

/-! ## What stands behind a fence -/

theorem after?_fence (rest : List Char) : after? fence (fence ++ rest) = some rest :=
  after?_eq_some_iff.mpr rfl

theorem isCloser_fence_append (rest : List Char) :
    isCloser (fence ++ rest) = rest.all isBlank := by
  rw [isCloser, after?_fence]

theorem opener?_fence_append {rest : List Char} (h : rest.head? ≠ some ':') :
    opener? (fence ++ rest) =
      match name? (stripFront rest) with
      | some (name, after) => some ⟨some name, attributes? (stripFront after)⟩
      | none => some ⟨none, attributes? (stripFront rest)⟩ := by
  unfold opener?
  rw [after?_fence]
  cases rest with
  | nil => rfl
  | cons c rest =>
      split
      · rename_i heq
        cases heq
      · rename_i heq
        cases heq
        exact absurd rfl h
      · rename_i heq
        cases heq
        rfl

theorem longFence?_of_head_ne {rest : List Char} (h : rest.head? ≠ some ':') :
    longFence? (fence ++ rest) = none := by
  cases rest with
  | nil => rfl
  | cons c rest =>
      have hc : ¬ ':' = c := fun heq => h (heq ▸ rfl)
      simp [longFence?, after?, fence, hc]

theorem longFence?_replicate {n : Nat} (hn : 4 ≤ n) {rest : List Char}
    (h : rest.head? ≠ some ':') : longFence? (List.replicate n ':' ++ rest) = some rest := by
  obtain ⟨k, rfl⟩ : ∃ k, n = 4 + k := ⟨n - 4, by omega⟩
  have hsplit : List.replicate (4 + k) ':' ++ rest =
      (':' :: fence) ++ (List.replicate k ':' ++ rest) := by
    rw [← List.replicate_append_replicate, List.append_assoc]
    rfl
  have hdrop : (List.replicate k ':' ++ rest).dropWhile (· == ':') = rest := by
    rw [List.dropWhile_append_of_pos fun c hc => by rw [List.eq_of_mem_replicate hc]; rfl]
    cases rest with
    | nil => rfl
    | cons c rest =>
        refine List.dropWhile_cons_of_neg fun heq => h ?_
        rw [eq_of_beq heq]
        rfl
  rw [hsplit, longFence?, after?_eq_some_iff.mpr rfl, Option.map_some, hdrop]

end Shape

namespace Restore

open Shape

/-- A name that stands for having none. -/
def IsGeneric (name : List Char) : Prop :=
  name = "div".toList ∨ name = "qmd".toList

instance (name : List Char) : Decidable (IsGeneric name) :=
  inferInstanceAs (Decidable (_ ∨ _))

theorem mem_genericNames_iff {name : List Char} : name ∈ genericNames ↔ IsGeneric name := by
  rw [genericNames, List.mem_cons, List.mem_singleton]
  rfl

/-- The body of a line in fenced div syntax. -/
def body (b : List Char) : List Char :=
  (line ⟨b, []⟩).body

theorem line_eq (l : Line) : line l = ⟨body l.body, l.ending⟩ := by
  unfold body line
  cases directiveOpener? l.body with
  | some o => rfl
  | none => cases isDirectiveCloser l.body <;> rfl

theorem divOpener_eq (name : List Char) (attributes : Option (List Char)) :
    divOpener name attributes =
      if IsGeneric name then
        if attributes = none then fence else fence ++ ' ' :: braces attributes
      else fence ++ ' ' :: (name ++ braces attributes) := by
  simp only [← mem_genericNames_iff]
  cases attributes <;> rfl

/-! ## The three ways of a line -/

theorem body_of_opener {b name : List Char} {attributes : Option (List Char)}
    (h : directiveOpener? b = some (name, attributes)) : body b = divOpener name attributes := by
  simp only [body, line, h]

theorem body_of_closer {b : List Char} (h : directiveOpener? b = none)
    (hcl : isDirectiveCloser b = true) : body b = fence := by
  simp only [body, line, h, hcl, if_true]

theorem body_of_other {b : List Char} (h : directiveOpener? b = none)
    (hcl : isDirectiveCloser b = false) : body b = b := by
  simp only [body, line, h, hcl, Bool.false_eq_true, if_false]

theorem body_of_longFence? {b : List Char} (h : longFence? b = none) : body b = b :=
  body_of_other (by rw [directiveOpener?, h]; rfl) (by rw [isDirectiveCloser, h])

theorem body_replicate {n : Nat} (hn : 3 ≤ n) : body (List.replicate n ':') = fence := by
  rcases Nat.lt_or_eq_of_le hn with h | rfl
  · have hlong : longFence? (List.replicate n ':') = some [] := by
      have := @longFence?_replicate n h [] (by decide)
      rwa [List.append_nil] at this
    refine body_of_closer ?_ ?_
    · rw [directiveOpener?, hlong]
      rfl
    · rw [isDirectiveCloser, hlong]
      rfl
  · exact body_of_longFence? rfl

/-! ## Restoring line by line -/

theorem newline_not_mem_body {b : List Char} (h : '\n' ∉ b) : '\n' ∉ body b := by
  cases ho : directiveOpener? b with
  | none =>
      cases hcl : isDirectiveCloser b with
      | false => rwa [body_of_other ho hcl]
      | true =>
          rw [body_of_closer ho hcl]
          decide
  | some o =>
      obtain ⟨name, attributes⟩ := o
      obtain ⟨⟨_, rest⟩, hbind, hpair⟩ := Option.map_eq_some_iff.mp ho
      obtain ⟨long, hlong, hname⟩ := Option.bind_eq_some_iff.mp hbind
      cases hpair
      obtain ⟨rest', hrest', rfl⟩ := Option.map_eq_some_iff.mp hlong
      -- the name and the attributes are parts of the line
      have hmem : '\n' ∉ name ++ rest := by
        rw [← eq_of_name? hname]
        intro hmem
        refine h ?_
        rw [after?_eq_some_iff.mp hrest']
        exact List.mem_append_right _ ((List.dropWhile_suffix _).subset hmem)
      rw [List.mem_append, not_or] at hmem
      have hbraces : '\n' ∉ braces (attributes? rest) := by
        cases ha : attributes? rest with
        | none => exact List.not_mem_nil
        | some inner =>
            obtain ⟨tail, rfl⟩ := eq_of_attributes? ha
            simp only [List.mem_cons, List.mem_append, not_or] at hmem
            simp only [braces, List.mem_cons, List.mem_append, not_or]
            exact ⟨by decide, hmem.2.2.1, by decide, List.not_mem_nil⟩
      rw [body_of_opener ho, divOpener_eq]
      split
      · split
        · decide
        · simp only [List.mem_append, List.mem_cons, not_or]
          exact ⟨by decide, by decide, hbraces⟩
      · simp only [List.mem_append, List.mem_cons, not_or]
        exact ⟨by decide, by decide, hmem.1, hbraces⟩

theorem split_text (t : List Char) :
    split (text t) = (split t).map fun raw => (line (Line.ofList raw)).toList := by
  refine split_join (fun hnil => split_ne_nil t (List.map_eq_nil_iff.mp hnil)) ?_
  intro l hl
  obtain ⟨raw, hraw, rfl⟩ := List.mem_map.mp hl
  have hnot := newline_not_mem_of_mem_split hraw
  rw [← Line.toList_ofList raw, Line.toList, List.mem_append, not_or] at hnot
  rw [line_eq, Line.toList, List.mem_append, not_or]
  exact ⟨newline_not_mem_body hnot.1, hnot.2⟩

end Restore

namespace Convert

open Shape Nesting

/-! ## A run with both conversions off -/

section Off

variable {ranges : Array Range} {t : List Char} {s : Site}

theorem kind_off (s : Site) : kind .off s false =
    if s.isInert then .plain
    else if isCloser s.line.body then .divClose
    else match opener? s.line.body with
      | some o => .divOpen o
      | none => .plain := by
  cases hi : s.isInert with
  | true => exact kind_of_isInert .off hi false
  | false =>
      have hkind : kind .off s false = shapeKind .off s := by
        simp only [kind, hi, Toggles.off, Bool.false_and, Bool.false_eq_true, if_false]
      rw [hkind]
      rfl

theorem mathAfter_off (s : Site) : (kind .off s false).mathAfter false = false := by
  rw [kind_off]
  cases s.isInert <;> cases isCloser s.line.body <;> cases opener? s.line.body <;> rfl

theorem inMath_off {i : Nat} (hi : i ≤ (split t).length) :
    (stateAt .off ranges t i).inMath = false := by
  induction i with
  | zero => rw [stateAt_zero]
  | succ i ih =>
      obtain ⟨s, hs⟩ := exists_site ranges hi
      rw [stateAt_succ hs, step_inMath, ih (Nat.le_of_succ_le hi), mathAfter_off]

theorem le_of_site {i : Nat} (hs : (sitesOf ranges t)[i]? = some s) : i ≤ (split t).length :=
  Nat.le_of_lt (List.getElem?_eq_some_iff.mp (split_of_site hs).1).1

theorem marksOf_off (ranges : Array Range) (t : List Char) :
    marksOf .off ranges t = (sitesOf ranges t).map fun s => (kind .off s false).mark := by
  refine List.ext_getElem? fun i => ?_
  rw [List.getElem?_map]
  cases hs : (sitesOf ranges t)[i]? with
  | none =>
      refine List.getElem?_eq_none ?_
      rw [marksOf, List.length_map, length_kindsOf, ← length_sitesOf ranges t]
      exact List.getElem?_eq_none_iff.mp hs
  | some s =>
      rw [getElem?_marksOf hs, inMath_off (le_of_site hs)]
      rfl

/-- What is written for a line of a kind when `n` divs are open, without its ending. -/
def Kind.written (n : Nat) (body : List Char) : Kind → List Char
  | .divClose => List.replicate ((ladder n).headD 3) ':'
  | .divOpen o => List.replicate (fenceLength n) ':' ++ divDirective o
  | _ => body

theorem group_off {st : State} {n : Nat} (h : st.fences = ladder n) (later : List Site) :
    (kind .off s false).group .off s st later =
      [s.ended ((kind .off s false).written n s.line.body)] := by
  cases hk : kind .off s false with
  | divClose =>
      show [s.ended (List.replicate (st.fences.headD 3) ':')] = _
      rw [h]
      rfl
  | divOpen o =>
      show [s.ended (List.replicate (fenceLength st.fences.length) ':' ++ divDirective o)] = _
      rw [h, length_ladder]
      rfl
  | plain => rfl
  | inMath | mathClose | mathOpen | formula | shortcode =>
      rw [kind_off] at hk
      revert hk
      cases s.isInert <;> cases isCloser s.line.body <;> cases opener? s.line.body <;>
        exact fun hk => nomatch hk

theorem split_text_off (ranges : Array Range) (t : List Char) :
    split (text .off ranges t) = (sitesOf ranges t).mapIdx fun i s =>
      s.ended ((kind .off s false).written (depth (marksOf .off ranges t) i) s.line.body) := by
  have hgroups : groupsOf .off ranges t = ((sitesOf ranges t).mapIdx fun i s =>
      s.ended ((kind .off s false).written (depth (marksOf .off ranges t) i)
        s.line.body)).map ([·]) := by
    refine List.ext_getElem? fun i => ?_
    rw [List.getElem?_map, List.getElem?_mapIdx]
    cases hs : (sitesOf ranges t)[i]? with
    | none =>
        rw [groupsOf, getElem?_groups, hs]
        rfl
    | some s =>
        have hi := le_of_site hs
        rw [getElem?_groupsOf hs, inMath_off hi, group_off (fences_eq_ladder hi)]
        rfl
  rw [split_text_eq_groups, hgroups, ← List.flatMap_def, List.flatMap_singleton']

end Off

/-! ## What restoring makes of a written line -/

/-- The attributes of a div that survive: those of a blank group do not. -/
def keptAttributes (o : Opener) : Option (List Char) :=
  match o.attributes.map strip with
  | some [] => none
  | kept => kept

/-- What comes back of a line of a kind that is met with `n` divs open, without its ending. -/
def Kind.returned (n : Nat) (body : List Char) : Kind → List Char
  | .divClose => fence
  | .divOpen o =>
    if n < 2 then Restore.divOpener (o.name.getD genericName) (keptAttributes o)
    else fence ++ divDirective o
  | _ => Restore.body body

theorem isBody_of_opener {line body : List Char} {o : Opener} (h : opener? line = some o)
    (hbody : o.attributes = some body) : IsBody body := by
  obtain ⟨rest, -, -, ⟨_, _, -, -, ha⟩ | ⟨-, -, ha⟩⟩ := eq_of_opener? h
  · exact isBody_of_attributes? (ha.symm.trans hbody)
  · exact isBody_of_attributes? (ha.symm.trans hbody)

theorem attributes?_divDirective {line : List Char} {o : Opener} (h : opener? line = some o) :
    attributes? (braces (o.attributes.map strip)) = keptAttributes o := by
  unfold keptAttributes
  cases ha : o.attributes with
  | none => rfl
  | some body =>
      rw [Option.map_some]
      have hclose : '}' ∉ strip body := fun hmem =>
        (isBody_of_opener h ha).2 (mem_of_mem_strip hmem)
      cases hstrip : strip body with
      | nil => exact attributes?_braces_nil
      | cons c cs =>
          rw [hstrip] at hclose
          exact IsBody.attributes?_braces ⟨List.cons_ne_nil c cs, hclose⟩

theorem head_divDirective {line : List Char} {o : Opener} (h : opener? line = some o) :
    (divDirective o).head? ≠ some ':' := by
  obtain ⟨c, cs, hcons, -, hc⟩ := divDirective_eq_cons h
  rw [hcons]
  exact fun heq => hc (Option.some.inj heq)

theorem body_directive {line : List Char} {o : Opener} (h : opener? line = some o) (n : Nat) :
    Restore.body (List.replicate (fenceLength n) ':' ++ divDirective o) =
      (Kind.divOpen o).returned n line := by
  rw [fenceLength_eq, Kind.returned]
  split
  · rename_i hn
    refine Restore.body_of_opener ?_
    rw [directiveOpener?, longFence?_replicate (by omega) (head_divDirective h),
      Option.bind_some, divDirective_eq, (isName_of_opener h).name?_append_braces, Option.map_some,
      ← attributes?_divDirective h]
  · rename_i hn
    rw [show max 3 (5 - n) = 3 by omega]
    exact Restore.body_of_longFence? (longFence?_of_head_ne (head_divDirective h))

theorem three_le_headD_ladder (n : Nat) : 3 ≤ (ladder n).headD 3 := by
  rw [headD_ladder]
  split
  · exact Nat.le_refl 3
  · exact three_le_fenceLength _

theorem body_written (s : Site) (n : Nat) :
    Restore.body ((kind .off s false).written n s.line.body) =
      (kind .off s false).returned n s.line.body := by
  cases hk : kind .off s false with
  | divClose => exact Restore.body_replicate (three_le_headD_ladder n)
  | divOpen o => exact body_directive (fits_of_kind_eq hk).2.2.2 n
  | plain | inMath | mathClose | mathOpen | formula | shortcode => rfl

/-! ## The round trip line by line -/

/-- Text with the ending of a line is cut where the line was, when it does not itself end in a
carriage return. -/
theorem ofList_append_ending {raw w : List Char}
    (h : w.getLast? = some '\r' → w = (Line.ofList raw).body) :
    Line.ofList (w ++ (Line.ofList raw).ending) = ⟨w, (Line.ofList raw).ending⟩ := by
  by_cases hr : raw.getLast? = some '\r'
  · have hraw : Line.ofList raw = ⟨raw.dropLast, ['\r']⟩ := if_pos hr
    rw [hraw, Line.ofList, if_pos List.getLast?_concat, List.dropLast_concat]
  · have hraw : Line.ofList raw = ⟨raw, []⟩ := if_neg hr
    rw [hraw] at h ⊢
    rw [List.append_nil, Line.ofList, if_neg]
    intro hw
    exact hr ((congrArg List.getLast? (h hw)).symm.trans hw)

theorem getLast?_append_divDirective {line : List Char} {o : Opener} (h : opener? line = some o)
    (l : List Char) : (l ++ divDirective o).getLast? ≠ some '\r' := by
  obtain ⟨c, cs, hcons, -⟩ := divDirective_eq_cons h
  have hlast := (isName_of_opener h).getLast?_append_braces (o.attributes.map strip)
  rw [← divDirective_eq, hcons, List.getLast?_cons] at hlast
  rwa [hcons, List.getLast?_append, List.getLast?_cons, Option.some_or]

theorem getLast?_written (s : Site) (n : Nat)
    (h : ((kind .off s false).written n s.line.body).getLast? = some '\r') :
    (kind .off s false).written n s.line.body = s.line.body := by
  cases hk : kind .off s false with
  | plain | inMath | mathClose | mathOpen | formula | shortcode => rfl
  | divClose =>
      rw [hk] at h
      exact absurd (List.eq_of_mem_replicate (List.mem_of_getLast? h)) (by decide)
  | divOpen o =>
      rw [hk] at h
      exact absurd h (getLast?_append_divDirective (fits_of_kind_eq hk).2.2.2 _)

/-- **The round trip is a map over the lines.**  Each line comes back as one line with its own
ending, and what comes back of it depends on the number of open divs before it only. -/
theorem split_roundTrip (ranges : Array Range) (t : List Char) :
    split (Restore.text (text .off ranges t)) = (sitesOf ranges t).mapIdx fun i s =>
      s.ended ((kind .off s false).returned (depth (marksOf .off ranges t) i) s.line.body) := by
  rw [Restore.split_text, split_text_off]
  refine List.ext_getElem? fun i => ?_
  rw [List.getElem?_map, List.getElem?_mapIdx, List.getElem?_mapIdx]
  cases hs : (sitesOf ranges t)[i]? with
  | none => rfl
  | some s =>
      have hs' := hs
      rw [getElem?_sitesOf] at hs'
      obtain ⟨raw, -, hsite⟩ := Option.map_eq_some_iff.mp hs'
      have hline : s.line = Line.ofList raw := hsite ▸ rfl
      have hcut := @ofList_append_ending raw _
        (hline ▸ getLast?_written s (depth (marksOf .off ranges t) i))
      rw [← hline] at hcut
      rw [Option.map_some, Option.map_some, Option.map_some, Site.ended, hcut, Restore.line_eq,
        body_written]
      rfl

end Convert

end DirectiveFences
