/-
Which lines of the output stand for which line of the source.

Lines do not leave a run in the order of their steps.  A line of a math block is held
back until the block is closed, and comes out with the step that closes it, or, when
nothing closes the block, after the last step.  `groups` says what stands in the end for
each line of the source, one group of lines each; only for the opener of a math block does
it look ahead, to the line that closes the block.

`lines_eq_groups` is the alignment: what a run writes, from any state on, is what its open
math block still owes, and then the groups of its lines in their order.
-/
import DirectiveFences.Proofs.Run
import DirectiveFences.Proofs.Shapes

namespace DirectiveFences.Convert

open Text Shape

/-- The opening line of the directive that a math block becomes, when the block is open before these
lines and one of them closes it. -/
def closing? (toggles : Toggles) : List Site → Option (List Char)
  | [] => none
  | s :: ss =>
    match kind toggles s true with
    | .mathClose label => some (s.ended (fence ++ mathName ++ label))
    | _ => closing? toggles ss

/-- The lines that stand for a line of a kind, given the lines after it. -/
def Kind.group (toggles : Toggles) (s : Site) (st : State) (later : List Site) :
    Kind → List (List Char)
  | .inMath => [s.line.toList]
  | .mathOpen => [(closing? toggles later).getD s.line.toList]
  | .mathClose _ => [s.ended fence]
  | k => (k.act s st).lines

/-- The groups of lines that stand for the lines of a run. -/
def groups (toggles : Toggles) : State → List Site → List (List (List Char))
  | _, [] => []
  | st, s :: ss =>
    (kind toggles s st.inMath).group toggles s st ss ::
      groups toggles (step toggles s st).state ss

/-- The groups of lines that stand for the lines of a text. -/
def groupsOf (toggles : Toggles) (ranges : Array Range) (t : List Char) :
    List (List (List Char)) :=
  groups toggles {} (sitesOf ranges t)

/-- Whether a line of a kind closes a math block. -/
def Kind.closesMath : Kind → Bool
  | .mathClose _ => true
  | _ => false

/-- Whether a line of a kind is a whole formula. -/
def Kind.isFormula : Kind → Bool
  | .formula _ _ => true
  | _ => false

/-! ## What an open math block owes -/

/-- A state that a run can reach: an open math block has an opener, and a closed one no lines. -/
structure Sound (st : State) : Prop where
  opener : st.inMath = true → ∃ o, st.mathOpener = some o ∧ o ≠ []
  idle : st.inMath = false → st.mathLines = []

/-- The lines that an open math block still has to write, given the lines to come. -/
def pending (toggles : Toggles) (st : State) (ss : List Site) : List (List Char) :=
  if st.inMath then (closing? toggles ss).getD (st.mathOpener.getD []) :: st.mathLines else []

theorem sound_initial : Sound {} :=
  ⟨fun h => absurd h Bool.false_ne_true, fun _ => rfl⟩

theorem line_ne_nil_of_mathOpen {toggles : Toggles} {s : Site}
    (h : kind toggles s false = .mathOpen) : s.line.toList ≠ [] := by
  intro hnil
  have hbody : s.line.body = [] := (List.append_eq_nil_iff.mp hnil).1
  rw [kind_of_blank toggles (by rw [hbody]; nofun)] at h
  cases h

theorem Sound.step {toggles : Toggles} {s : Site} {st : State} (h : Sound st) :
    Sound (step toggles s st).state := by
  rw [step_eq_act]
  cases hm : st.inMath with
  | true =>
      rcases kind_true toggles s with hk | ⟨label, hk⟩
      · rw [hk]
        exact ⟨fun _ => h.opener hm, fun hf => Bool.noConfusion (hm.symm.trans hf)⟩
      · rw [hk]
        exact ⟨fun hf => Bool.noConfusion hf, fun _ => rfl⟩
  | false =>
      cases hk : kind toggles s false with
      | mathOpen =>
          exact ⟨fun _ => ⟨_, rfl, line_ne_nil_of_mathOpen hk⟩, fun hf => Bool.noConfusion hf⟩
      | inMath => exact absurd hk (kind_false toggles s).1
      | mathClose label => exact absurd hk ((kind_false toggles s).2 label)
      | plain | formula | shortcode | divClose | divOpen =>
          exact ⟨fun hf => Bool.noConfusion (hm.symm.trans hf), fun _ => h.idle hm⟩

/-- One line: what it writes, and what is owed after it, is what was owed before it, and its
group. -/
theorem step_lines_append_pending {toggles : Toggles} {s : Site} {st : State} (h : Sound st)
    (ss : List Site) :
    (step toggles s st).lines ++ pending toggles (step toggles s st).state ss =
      pending toggles st (s :: ss) ++ (kind toggles s st.inMath).group toggles s st ss := by
  rw [step_eq_act]
  cases hm : st.inMath with
  | true =>
      rcases kind_true toggles s with hk | ⟨label, hk⟩
      · simp [hk, Kind.act, keepInMath, Kind.group, pending, hm, closing?]
      · simp [hk, Kind.act, Kind.group, pending, hm, closing?, mathDirective]
  | false =>
      cases hk : kind toggles s false with
      | mathOpen => simp [Kind.act, Kind.group, pending, hm, h.idle hm]
      | inMath => exact absurd hk (kind_false toggles s).1
      | mathClose label => exact absurd hk ((kind_false toggles s).2 label)
      | plain | formula | shortcode | divClose | divOpen =>
          simp [Kind.act, Kind.group, pending, hm]

theorem trace_lines_eq_groups {toggles : Toggles} {st : State} (h : Sound st) (ss : List Site) :
    (trace toggles st ss).flatMap (·.lines) ++ flush (after toggles st ss) =
      pending toggles st ss ++ (groups toggles st ss).flatten := by
  induction ss generalizing st with
  | nil =>
      cases hm : st.inMath with
      | false => simp [trace, groups, flush, pending, hm]
      | true =>
          obtain ⟨o, ho, hne⟩ := h.opener hm
          cases o with
          | nil => exact absurd rfl hne
          | cons c o => simp [trace, groups, flush, pending, hm, ho, closing?]
  | cons s ss ih =>
      rw [trace, List.flatMap_cons, after_cons, List.append_assoc, ih h.step, ← List.append_assoc,
        step_lines_append_pending h, groups, List.flatten_cons, List.append_assoc]

theorem lines_eq_groups (toggles : Toggles) (ranges : Array Range) (t : List Char) :
    lines toggles ranges t = (groupsOf toggles ranges t).flatten := by
  rw [lines_eq_trace, trace_lines_eq_groups sound_initial]
  simp [pending, groupsOf]

/-! ## One group a line -/

theorem length_groups (toggles : Toggles) (st : State) (ss : List Site) :
    (groups toggles st ss).length = ss.length := by
  induction ss generalizing st with
  | nil => rfl
  | cons s ss ih => simp [groups, ih]

@[simp] theorem length_groupsOf (toggles : Toggles) (ranges : Array Range) (t : List Char) :
    (groupsOf toggles ranges t).length = (split t).length := by
  rw [groupsOf, length_groups, length_sitesOf]

theorem getElem?_groups (toggles : Toggles) (st : State) (ss : List Site) (i : Nat) :
    (groups toggles st ss)[i]? = ss[i]?.map fun s =>
      (kind toggles s (after toggles st (ss.take i)).inMath).group toggles s
        (after toggles st (ss.take i)) (ss.drop (i + 1)) := by
  induction ss generalizing st i with
  | nil => rfl
  | cons s ss ih =>
      cases i with
      | zero => rfl
      | succ i => simp [groups, ih]

/-- The group of line `i`. -/
theorem getElem?_groupsOf {toggles : Toggles} {ranges : Array Range} {t : List Char} {i : Nat}
    {s : Site} (hs : (sitesOf ranges t)[i]? = some s) :
    (groupsOf toggles ranges t)[i]? =
      some ((kind toggles s (stateAt toggles ranges t i).inMath).group toggles s
        (stateAt toggles ranges t i) ((sitesOf ranges t).drop (i + 1))) := by
  rw [groupsOf, getElem?_groups, hs]
  rfl

theorem length_group (toggles : Toggles) (s : Site) (st : State) (later : List Site) (k : Kind) :
    (k.group toggles s st later).length = if k.isFormula then 3 else 1 := by
  cases k <;> rfl

theorem length_flatten_groups (toggles : Toggles) (st : State) (ss : List Site) :
    (groups toggles st ss).flatten.length =
      ss.length + 2 * (kinds toggles st.inMath ss).countP Kind.isFormula := by
  induction ss generalizing st with
  | nil => rfl
  | cons s ss ih =>
      rw [groups, List.flatten_cons, List.length_append, ih, length_group, step_inMath, kinds,
        List.countP_cons, List.length_cons]
      split <;> omega

/-! ## No group breaks a line

All that is written comes from the line itself, from the line that closes its block, or from the
marks of directives; so there is no line feed in it. -/

section NoNewline

variable {toggles : Toggles} {s : Site}

theorem newline_not_mem_body (hs : '\n' ∉ s.line.toList) : '\n' ∉ s.line.body :=
  fun h => hs (List.mem_append_left _ h)

theorem newline_not_mem_ended (hs : '\n' ∉ s.line.toList) {text : List Char}
    (h : '\n' ∉ text) : '\n' ∉ s.ended text := by
  simp only [Line.toList, Site.ended, List.mem_append, not_or] at hs ⊢
  exact ⟨h, hs.2⟩

theorem newline_not_mem_label (hs : '\n' ∉ s.line.toList) {label : List Char}
    (h : kind toggles s true = .mathClose label) : '\n' ∉ fence ++ mathName ++ label := by
  obtain ⟨-, -, -, hlabel⟩ := fits_of_kind_eq h
  obtain ⟨rest, hrest, hsuffix⟩ := eq_of_mathFence? hlabel
  intro hmem
  rcases List.mem_append.mp hmem with hmem | hmem
  · exact absurd hmem (by decide)
  · refine newline_not_mem_body hs (mem_of_mem_strip ?_)
    rw [hrest]
    exact List.mem_append_right _ ((suffix_of_mathLabel? hsuffix).subset hmem)

theorem newline_not_mem_closing? {ss : List Site} (hss : ∀ s ∈ ss, '\n' ∉ s.line.toList)
    {l : List Char} (h : closing? toggles ss = some l) : '\n' ∉ l := by
  induction ss with
  | nil => cases h
  | cons s ss ih =>
      unfold closing? at h
      split at h
      · rename_i label hlabel
        cases h
        have hs := hss s List.mem_cons_self
        exact newline_not_mem_ended hs (newline_not_mem_label hs hlabel)
      · exact ih (fun s' hs' => hss s' (List.mem_cons_of_mem _ hs')) h

theorem newline_not_mem_leafDirective {body : List Char} (hbody : '\n' ∉ body)
    {code : Shortcode} (h : shortcode? body = some code) : '\n' ∉ leafDirective code := by
  obtain ⟨first, last, hline, -⟩ := eq_of_shortcode? h
  simp only [hline, List.mem_append, List.mem_cons, not_or] at hbody
  obtain ⟨hindent, -, -, hcode, -, -, htrailing⟩ := hbody
  have hescape : '\n' ∉ escapeQuotes code.body := by
    intro hmem
    obtain ⟨c, hc, hcmem⟩ := List.mem_flatMap.mp hmem
    split at hcmem
    · simp at hcmem
    · exact hcode (List.mem_singleton.mp hcmem ▸ hc)
  have hmarks : '\n' ∉ shortcodeName ∧ '\n' ∉ "raw=\"".toList := by decide
  simp only [leafDirective, List.mem_append, List.mem_cons, not_or]
  simp [hindent, htrailing, hescape, hmarks]

theorem newline_not_mem_divDirective {body : List Char} (hbody : '\n' ∉ body) {o : Opener}
    (h : opener? body = some o) : '\n' ∉ divDirective o := by
  obtain ⟨rest, hline, -, hparts⟩ := eq_of_opener? h
  have hrest : '\n' ∉ stripFront rest := fun hmem =>
    hbody (hline ▸ List.mem_append_right _ ((stripFront_suffix rest).subset hmem))
  have hattributes : ∀ {cs braces : List Char}, '\n' ∉ cs → attributes? cs = some braces →
      '\n' ∉ braces := by
    intro cs braces hcs hb hmem
    obtain ⟨tail, rfl⟩ := eq_of_attributes? hb
    exact hcs (List.mem_cons_of_mem _ (List.mem_append_left _ hmem))
  have hbraces : ∀ braces, o.attributes = some braces → '\n' ∉ braces := by
    intro braces hb
    rcases hparts with ⟨name, after, -, hname, hattr⟩ | ⟨-, -, hattr⟩
    · refine hattributes (fun hmem => hrest ?_) (hattr.symm.trans hb)
      rw [eq_of_name? hname]
      exact List.mem_append_right _ ((stripFront_suffix after).subset hmem)
    · exact hattributes hrest (hattr.symm.trans hb)
  have hname : '\n' ∉ o.name.getD genericName := by
    rcases hparts with ⟨name, after, honame, hname, -⟩ | ⟨honame, -⟩
    · rw [honame]
      exact fun hmem => hrest (eq_of_name? hname ▸ List.mem_append_left _ hmem)
    · rw [honame]
      decide
  intro hmem
  rcases List.mem_append.mp hmem with hmem | hmem
  · exact hname hmem
  · cases hb : o.attributes with
    | none => simp [hb] at hmem
    | some braces =>
        simp only [hb, List.mem_cons, List.mem_append, List.not_mem_nil, or_false] at hmem
        rcases hmem with hmem | hmem | hmem
        · exact absurd hmem (by decide)
        · exact hbraces braces hb (mem_of_mem_strip hmem)
        · exact absurd hmem (by decide)

theorem newline_not_mem_group {st : State} {later : List Site} (hs : '\n' ∉ s.line.toList)
    (hlater : ∀ s' ∈ later, '\n' ∉ s'.line.toList) {l : List Char}
    (h : l ∈ (kind toggles s st.inMath).group toggles s st later) : '\n' ∉ l := by
  have hbody := newline_not_mem_body hs
  have hended := @newline_not_mem_ended s hs
  have hcolons : ∀ n, '\n' ∉ List.replicate n ':' := fun n hmem =>
    absurd (List.eq_of_mem_replicate hmem) (by decide)
  cases hk : kind toggles s st.inMath with
  | plain =>
      rw [hk] at h
      exact List.mem_singleton.mp h ▸ hs
  | inMath =>
      rw [hk] at h
      exact List.mem_singleton.mp h ▸ hs
  | mathClose label =>
      rw [hk] at h
      exact List.mem_singleton.mp h ▸ hended (by decide)
  | mathOpen =>
      rw [hk] at h
      rw [List.mem_singleton.mp h]
      cases hc : closing? toggles later with
      | none => exact hs
      | some l' => exact newline_not_mem_closing? hlater hc
  | formula content label =>
      obtain ⟨-, -, -, hline⟩ := fits_of_kind_eq hk
      obtain ⟨rest, hstrip, hlabel⟩ := eq_of_mathLine? hline
      have hmem : '\n' ∉ mathMark ++ (content ++ (mathMark ++ rest)) := fun hmem =>
        hbody (mem_of_mem_strip (hstrip ▸ hmem))
      simp only [List.mem_append, not_or] at hmem
      have hclean : '\n' ∉ fence ++ mathName ++ label := by
        rw [List.mem_append, not_or]
        exact ⟨by decide, fun hl => hmem.2.2.2 ((suffix_of_mathLabel? hlabel).subset hl)⟩
      rw [hk] at h
      simp only [Kind.group, Kind.act, mathDirective, List.mem_cons, List.not_mem_nil, or_false,
        List.cons_append, List.nil_append] at h
      rcases h with rfl | rfl | rfl
      · exact hended hclean
      · exact hended fun hl => hmem.2.1 (mem_of_mem_strip hl)
      · exact hended (by decide)
  | shortcode code =>
      obtain ⟨-, -, -, hcode⟩ := fits_of_kind_eq hk
      rw [hk] at h
      exact List.mem_singleton.mp h ▸ hended (newline_not_mem_leafDirective hbody hcode)
  | divClose =>
      rw [hk] at h
      exact List.mem_singleton.mp h ▸ hended (hcolons _)
  | divOpen o =>
      obtain ⟨-, -, -, ho⟩ := fits_of_kind_eq hk
      rw [hk] at h
      refine List.mem_singleton.mp h ▸ hended ?_
      rw [List.mem_append, not_or]
      exact ⟨hcolons _, newline_not_mem_divDirective hbody ho⟩

end NoNewline

theorem newline_not_mem_groupsOf {toggles : Toggles} {ranges : Array Range} {t l : List Char}
    (h : l ∈ (groupsOf toggles ranges t).flatten) : '\n' ∉ l := by
  obtain ⟨g, hg, hl⟩ := List.mem_flatten.mp h
  obtain ⟨i, hi⟩ := List.mem_iff_getElem?.mp hg
  have hsites : ∀ s ∈ sitesOf ranges t, '\n' ∉ s.line.toList := fun s hs =>
    newline_not_mem_of_mem_split (toList_mem_split hs)
  cases hs : (sitesOf ranges t)[i]? with
  | none =>
      rw [groupsOf, getElem?_groups, hs] at hi
      cases hi
  | some s =>
      rw [getElem?_groupsOf hs] at hi
      cases hi
      exact newline_not_mem_group (hsites s (List.mem_of_getElem? hs))
        (fun s' hs' => hsites s' (List.mem_of_mem_drop hs')) hl

/-- The lines of the output, cut at its line feeds, are the groups in their order. -/
theorem split_text_eq_groups (toggles : Toggles) (ranges : Array Range) (t : List Char) :
    split (text toggles ranges t) = (groupsOf toggles ranges t).flatten := by
  rw [text, lines_eq_groups]
  refine split_join (fun hnil => ?_) fun l hl => newline_not_mem_groupsOf hl
  have hlength := length_flatten_groups toggles {} (sitesOf ranges t)
  rw [← groupsOf, hnil, length_sitesOf] at hlength
  have := List.length_pos_iff.mpr (split_ne_nil t)
  simp only [List.length_nil] at hlength
  omega

/-! ## Lines inside math blocks -/

section Blocks

variable {toggles : Toggles} {ranges : Array Range} {t : List Char}

theorem inMath_of_mathOpen {o i : Nat} (ho : (kindsOf toggles ranges t)[o]? = some .mathOpen)
    (hoi : o < i) (hi : i ≤ (split t).length)
    (hopen : ∀ j k, o < j → j < i → (kindsOf toggles ranges t)[j]? = some k →
      k.closesMath = false) : (stateAt toggles ranges t i).inMath = true := by
  induction i with
  | zero => exact absurd hoi (Nat.not_lt_zero o)
  | succ i ih =>
      obtain ⟨s, hs⟩ := exists_site ranges hi
      have hk := getElem?_kindsOf toggles hs
      rw [stateAt_succ hs, step_inMath]
      rcases Nat.lt_or_eq_of_le (Nat.le_of_lt_succ hoi) with hlt' | rfl
      · have hbefore := ih hlt' (Nat.le_of_succ_le hi)
          fun j k hoj hji => hopen j k hoj (Nat.lt_succ_of_lt hji)
        have hnot := hopen i _ hlt' (Nat.lt_succ_self i) hk
        rw [hbefore] at hnot ⊢
        rcases kind_true toggles s with h | ⟨label, h⟩
        · rw [h]; rfl
        · rw [h] at hnot; exact Bool.noConfusion hnot
      · rw [ho] at hk
        rw [← Option.some.inj hk]
        rfl

theorem kind_inMath_of_mathOpen {o i : Nat} {k : Kind}
    (ho : (kindsOf toggles ranges t)[o]? = some .mathOpen) (hoi : o < i)
    (hopen : ∀ j k, o < j → j ≤ i → (kindsOf toggles ranges t)[j]? = some k →
      k.closesMath = false) (hk : (kindsOf toggles ranges t)[i]? = some k) : k = .inMath := by
  obtain ⟨s, -, hkind, hi⟩ := site_of_kind hk
  have hin := inMath_of_mathOpen ho hoi (Nat.le_of_lt hi) fun j k hoj hji =>
    hopen j k hoj (Nat.le_of_lt hji)
  rw [hin] at hkind
  have hnot := hopen i k hoi (Nat.le_refl i) hk
  rcases kind_true toggles s with h | ⟨label, h⟩
  · exact hkind.symm.trans h
  · rw [← hkind, h] at hnot
    exact Bool.noConfusion hnot

theorem closing?_eq_none {ss : List Site}
    (h : ∀ k ∈ kinds toggles true ss, k.closesMath = false) : closing? toggles ss = none := by
  induction ss with
  | nil => rfl
  | cons s ss ih =>
      rcases kind_true toggles s with hk | ⟨label, hk⟩
      · rw [closing?, hk]
        refine ih fun k hmem => h k ?_
        rw [kinds, hk]
        exact List.mem_cons_of_mem _ hmem
      · exact Bool.noConfusion (h (.mathClose label) (by rw [kinds, hk]; exact List.mem_cons_self))

theorem drop_kindsOf (i : Nat) : (kindsOf toggles ranges t).drop i =
    kinds toggles (stateAt toggles ranges t i).inMath ((sitesOf ranges t).drop i) := by
  refine List.ext_getElem? fun j => ?_
  rw [getElem?_kinds, List.getElem?_drop, List.getElem?_drop]
  show (kinds toggles (State.inMath {}) (sitesOf ranges t))[i + j]? = _
  rw [getElem?_kinds, stateAt, ← after_append, List.take_add]

/-- A math block that nothing closes has its opener written as it stands. -/
theorem group_of_mathOpen {o : Nat} {s : Site} (hs : (sitesOf ranges t)[o]? = some s)
    (ho : (kindsOf toggles ranges t)[o]? = some .mathOpen)
    (hopen : ∀ j k, o < j → (kindsOf toggles ranges t)[j]? = some k → k.closesMath = false) :
    (groupsOf toggles ranges t)[o]? = some [s.line.toList] := by
  have hk := getElem?_kindsOf toggles hs
  have hin : (stateAt toggles ranges t (o + 1)).inMath = true := by
    rw [stateAt_succ hs, step_inMath, ← Option.some.inj (ho.symm.trans hk)]
    rfl
  have hnone : closing? toggles ((sitesOf ranges t).drop (o + 1)) = none := by
    refine closing?_eq_none fun k hmem => ?_
    rw [← hin, ← drop_kindsOf] at hmem
    obtain ⟨j, hj⟩ := List.mem_iff_getElem?.mp hmem
    rw [List.getElem?_drop] at hj
    exact hopen _ k (by omega) hj
  rw [getElem?_groupsOf hs, ← Option.some.inj (ho.symm.trans hk), Kind.group, hnone]
  rfl

theorem group_of_kept {i : Nat} {s : Site} (hs : (sitesOf ranges t)[i]? = some s)
    (hk : (kindsOf toggles ranges t)[i]? = some .plain ∨
      (kindsOf toggles ranges t)[i]? = some .inMath) :
    (groupsOf toggles ranges t)[i]? = some [s.line.toList] := by
  have hkind := getElem?_kindsOf toggles hs
  rw [getElem?_groupsOf hs]
  rcases hk with hk | hk <;>
  · rw [← Option.some.inj (hk.symm.trans hkind)]
    rfl

end Blocks

/-- **No line is lost, doubled or moved.**  The lines of the output are the groups of the source
lines, in their order: three lines for a formula of its own line, outside math blocks and not
protected, and one line for any other.  Lines inside a math block, lines from an opener on that
nothing closes, and lines that no rule rewrites stand for themselves. -/
theorem output_lines_aligned (toggles : Toggles) (ranges : Array Range) (t : List Char) :
    let raws := split t
    let ks := kindsOf toggles ranges t
    let gs := groupsOf toggles ranges t
    split (text toggles ranges t) = gs.flatten ∧
    gs.length = raws.length ∧
    (split (text toggles ranges t)).length = raws.length + 2 * ks.countP Kind.isFormula ∧
    -- the kinds are those of the run, and formulas are what they are said to be
    (∀ (i : Nat) (s : Site), (sitesOf ranges t)[i]? = some s →
      ∃ k, ks[i]? = some k ∧
        step toggles s (stateAt toggles ranges t i) = k.act s (stateAt toggles ranges t i) ∧
        ∀ content label, k = .formula content label ↔
          (stateAt toggles ranges t i).inMath = false ∧ s.isInert = false ∧
            toggles.mathLabels = true ∧ mathLine? (strip s.line.body) = some (content, label)) ∧
    (∀ (i : Nat) (k : Kind), ks[i]? = some k →
      ∃ g, gs[i]? = some g ∧ g.length = if k.isFormula then 3 else 1) ∧
    -- a line after an opener, up to which nothing closes the block
    (∀ o i : Nat, ks[o]? = some .mathOpen → o < i →
      (∀ j k, o < j → j ≤ i → ks[j]? = some k → k.closesMath = false) →
      gs[i]? = raws[i]?.map ([·])) ∧
    -- an opener that nothing closes
    (∀ o : Nat, ks[o]? = some .mathOpen →
      (∀ j k, o < j → ks[j]? = some k → k.closesMath = false) → gs[o]? = raws[o]?.map ([·])) ∧
    (∀ i : Nat, ks[i]? = some .plain ∨ ks[i]? = some .inMath →
      gs[i]? = raws[i]?.map ([·])) := by
  intro raws ks gs
  have hsplit := split_text_eq_groups toggles ranges t
  refine ⟨hsplit, length_groupsOf toggles ranges t, ?_, ?_, ?_, ?_, ?_, ?_⟩
  · rw [hsplit, groupsOf, length_flatten_groups, length_sitesOf]
    rfl
  · intro i s hs
    exact ⟨_, getElem?_kindsOf toggles hs, step_eq_act .., fun content label => kind_eq_formula_iff⟩
  · intro i k hk
    obtain ⟨s, hs, rfl, -⟩ := site_of_kind hk
    exact ⟨_, getElem?_groupsOf hs, length_group ..⟩
  · intro o i ho hoi hopen
    cases hk : ks[i]? with
    | none =>
        have hlen : raws.length ≤ i := by
          simpa [ks, raws] using hk
        rw [List.getElem?_eq_none (by simpa [gs] using hlen), List.getElem?_eq_none hlen]
        rfl
    | some k =>
        obtain ⟨s, hs, -⟩ := site_of_kind hk
        have hin := kind_inMath_of_mathOpen ho hoi hopen hk
        rw [group_of_kept hs (Or.inr (hin ▸ hk)), (split_of_site hs).1]
        rfl
  · intro o ho hopen
    obtain ⟨s, hs, -⟩ := site_of_kind ho
    rw [group_of_mathOpen hs ho hopen, (split_of_site hs).1]
    rfl
  · intro i hk
    obtain ⟨s, hs⟩ : ∃ s, (sitesOf ranges t)[i]? = some s := by
      rcases hk with hk | hk <;>
      · obtain ⟨s, hs, -⟩ := site_of_kind hk
        exact ⟨s, hs⟩
    rw [group_of_kept hs hk, (split_of_site hs).1]
    rfl

end DirectiveFences.Convert
