/-
Where a text of CRLF lines stays one.

Every line that is written takes its ending from some line of the source, so only the last
line of the source can bring a bare line feed in: it may have no ending, and needs none as
long as one line stands for it.  It must not write two.  It does so in two cases, when it is a
whole formula and when it closes a math block, because the opening fence of a block takes the
ending of the line that closes it and not of the line that it stands for.

The run is followed step by step here and not group by group, since a line that closes a block
writes the opening fence in the same step.
-/
import DirectiveFences.Proofs.Returned
import DirectiveFences.Proofs.Recording
import DirectiveFences.Stage

namespace DirectiveFences

/-- Every line feed of a text follows a carriage return. -/
def IsCrlf (t : List Char) : Prop :=
  ∀ front back, t = front ++ '\n' :: back → front.getLast? = some '\r'

/-- A raw line ends in a carriage return. -/
def Ended (raw : List Char) : Prop :=
  raw.getLast? = some '\r'

instance (raw : List Char) : Decidable (Ended raw) :=
  inferInstanceAs (Decidable (_ = _))

namespace Text

/-! ## By lines -/

theorem isCrlf_of_not_mem {l : List Char} (h : '\n' ∉ l) : IsCrlf l := by
  rintro front back rfl
  exact absurd (List.mem_append_right _ List.mem_cons_self) h

theorem isCrlf_append_newline_iff {l t : List Char} (h : '\n' ∉ l) :
    IsCrlf (l ++ '\n' :: t) ↔ Ended l ∧ IsCrlf t := by
  have hlast : ∀ front, (l ++ '\n' :: front).getLast? = front.getLast?.or (some '\n') := by
    intro front
    rw [List.getLast?_append, List.getLast?_cons]
    cases front.getLast? <;> rfl
  constructor
  · intro hcrlf
    refine ⟨hcrlf l t rfl, fun front back heq => ?_⟩
    have hwhole := hcrlf (l ++ '\n' :: front) back (by rw [heq]; simp)
    rw [hlast] at hwhole
    cases hfront : front.getLast? with
    | none =>
        rw [hfront] at hwhole
        exact absurd (Option.some.inj hwhole) (by decide)
    | some c => rwa [hfront] at hwhole
  · rintro ⟨hl, ht⟩ front back heq
    rcases List.append_eq_append_iff.mp heq with ⟨more, rfl, hmore⟩ | ⟨more, rfl, hmore⟩
    · cases more with
      | nil =>
          rw [List.append_nil]
          exact hl
      | cons c more =>
          obtain ⟨rfl, hback⟩ := List.cons.inj hmore
          rw [hlast, ht more back hback]
          rfl
    · cases more with
      | nil => simpa [Ended] using hl
      | cons c more =>
          obtain ⟨rfl, -⟩ := List.cons.inj hmore
          exact absurd (List.mem_append_right _ List.mem_cons_self) h

theorem isCrlf_join_iff {ls : List (List Char)} (hne : ls ≠ []) (h : ∀ l ∈ ls, '\n' ∉ l) :
    IsCrlf (join ls) ↔ ∀ l ∈ ls.dropLast, Ended l := by
  induction ls with
  | nil => exact absurd rfl hne
  | cons l ls ih =>
      have hl := h l List.mem_cons_self
      cases ls with
      | nil => simpa [join, List.intercalate] using isCrlf_of_not_mem hl
      | cons l' ls =>
          rw [join_cons l (List.cons_ne_nil l' ls), isCrlf_append_newline_iff hl,
            ih (List.cons_ne_nil l' ls) fun m hm => h m (List.mem_cons_of_mem _ hm),
            List.dropLast_cons_of_ne_nil (List.cons_ne_nil l' ls), List.forall_mem_cons]

theorem isCrlf_iff (t : List Char) : IsCrlf t ↔ ∀ l ∈ (split t).dropLast, Ended l := by
  conv => lhs; rw [← join_split t]
  exact isCrlf_join_iff (split_ne_nil t) fun l => newline_not_mem_of_mem_split

instance (t : List Char) : Decidable (IsCrlf t) :=
  decidable_of_iff _ (isCrlf_iff t).symm

theorem getLast?_join_concat (raws : List (List Char)) (raw : List Char) :
    (join (raws ++ [raw])).getLast? = raw.getLast?.or (if raws = [] then none else some '\n') := by
  induction raws with
  | nil => simp [join, List.intercalate]
  | cons l raws ih =>
      rw [List.cons_append, join_cons l (List.append_ne_nil_of_right_ne_nil raws (by simp)),
        List.getLast?_append, List.getLast?_cons, ih, if_neg (List.cons_ne_nil l raws)]
      cases raw.getLast? with
      | some c => rfl
      | none => by_cases hraws : raws = [] <;> simp [hraws]

end Text

open Text Shape

theorem Restore.isCrlf_text {t : List Char} (h : IsCrlf t) : IsCrlf (Restore.text t) := by
  rw [isCrlf_iff] at h ⊢
  rw [Restore.split_text, ← List.map_dropLast]
  intro l hl
  obtain ⟨raw, hraw, rfl⟩ := List.mem_map.mp hl
  have hofList : Line.ofList raw = ⟨raw.dropLast, ['\r']⟩ := if_pos (h raw hraw)
  rw [Restore.line_eq, hofList]
  exact List.getLast?_concat

namespace Convert

/-! ## One step -/

theorem ended_append {s : Site} (h : s.line.ending = ['\r']) (body : List Char) :
    Ended (s.ended body) := by
  rw [Ended, Site.ended, h]
  exact List.getLast?_concat

theorem ended_toList {s : Site} (h : s.line.ending = ['\r']) : Ended s.line.toList :=
  ended_append h s.line.body

/-- Whatever is held back for a math block has its ending. -/
structure HoldsEnded (st : State) : Prop where
  opener : st.inMath = true → ∃ o, st.mathOpener = some o ∧ Ended o
  lines : ∀ l ∈ st.mathLines, Ended l

theorem holdsEnded_initial : HoldsEnded {} :=
  ⟨fun h => Bool.noConfusion h, nofun⟩

theorem ended_mathDirective {s : Site} (h : s.line.ending = ['\r']) (label : List Char)
    {body : List (List Char)} (hbody : ∀ l ∈ body, Ended l) :
    ∀ l ∈ mathDirective s label body, Ended l := by
  intro l hl
  rcases List.mem_cons.mp hl with rfl | hl
  · exact ended_append h _
  · rcases List.mem_append.mp hl with hl | hl
    · exact hbody l hl
    · exact List.mem_singleton.mp hl ▸ ended_append h _

/-- A line with an ending writes lines with endings only, and holds only such lines back. -/
theorem HoldsEnded.step {s : Site} {st : State} (toggles : Toggles) (hst : HoldsEnded st)
    (h : s.line.ending = ['\r']) :
    HoldsEnded (step toggles s st).state ∧ ∀ l ∈ (Convert.step toggles s st).lines, Ended l := by
  have hone : ∀ body, ∀ l ∈ [s.ended body], Ended l := fun body l hl =>
    List.mem_singleton.mp hl ▸ ended_append h body
  rw [step_eq_act]
  cases kind toggles s st.inMath with
  | plain => exact ⟨hst, hone s.line.body⟩
  | inMath =>
      refine ⟨⟨hst.opener, fun l hl => ?_⟩, nofun⟩
      rcases List.mem_append.mp hl with hl | hl
      · exact hst.lines l hl
      · exact hone s.line.body l hl
  | mathClose label =>
      exact ⟨⟨fun hf => Bool.noConfusion hf, nofun⟩, ended_mathDirective h label hst.lines⟩
  | mathOpen => exact ⟨⟨fun _ => ⟨_, rfl, ended_toList h⟩, hst.lines⟩, nofun⟩
  | formula content label => exact ⟨hst, ended_mathDirective h label (hone (strip content))⟩
  | shortcode code => exact ⟨hst, hone _⟩
  | divClose => exact ⟨⟨hst.opener, hst.lines⟩, hone _⟩
  | divOpen o => exact ⟨⟨hst.opener, hst.lines⟩, hone _⟩

/-! ## The last line -/

/-- Whether a line of a kind writes the two fences of a math directive. -/
def Kind.endsMath (k : Kind) : Bool :=
  k.isFormula || k.closesMath

theorem getLast?_of_mathLabel? {cs label : List Char} (h : mathLabel? cs = some label) :
    label = [] ∨ label.getLast? = some '}' := by
  unfold mathLabel? at h
  split at h
  · cases h
    exact Or.inl rfl
  · split at h
    · rename_i hclose
      cases h
      refine Or.inr ?_
      rw [List.getLast?_cons, hclose.1]
      rfl
    · cases h
  · cases h

theorem getLast?_append_label {label : List Char} (h : label = [] ∨ label.getLast? = some '}') :
    (fence ++ mathName ++ label).getLast? ≠ some '\r' := by
  rw [List.getLast?_append]
  rcases h with rfl | h
  · decide
  · rw [h]
    decide

/-- The opening fence ends as the line that it is written for. -/
theorem ended_opening_iff {s : Site} {label : List Char}
    (h : label = [] ∨ label.getLast? = some '}') (hs : s.line.ending = ['\r'] ∨ s.line.ending = []) :
    Ended (s.ended (fence ++ mathName ++ label)) ↔ s.line.ending = ['\r'] := by
  rcases hs with hs | hs
  · exact iff_of_true (ended_append hs _) hs
  · refine iff_of_false (fun hended => ?_) (by rw [hs]; decide)
    rw [Ended, Site.ended, hs, List.append_nil] at hended
    exact getLast?_append_label h hended

theorem ended_dropLast_mathDirective_iff {s : Site} {label : List Char}
    {body : List (List Char)} (h : label = [] ∨ label.getLast? = some '}')
    (hs : s.line.ending = ['\r'] ∨ s.line.ending = [])
    (hbody : s.line.ending = ['\r'] → ∀ l ∈ body, Ended l) :
    (∀ l ∈ (mathDirective s label body).dropLast, Ended l) ↔ s.line.ending = ['\r'] := by
  have hdrop : (mathDirective s label body).dropLast =
      s.ended (fence ++ mathName ++ label) :: body := by
    rw [mathDirective, List.dropLast_cons_of_ne_nil (by simp), List.dropLast_concat]
  rw [hdrop, List.forall_mem_cons, ended_opening_iff h hs]
  exact ⟨And.left, fun hr => ⟨hr, hbody hr⟩⟩

/-- The last line, and what is held back then: all that is written but the last line has an ending
unless the last line would have had to give one to two fences. -/
theorem ended_last_iff {toggles : Toggles} {s : Site} {st : State} (hsound : Sound st)
    (hst : HoldsEnded st) (hs : s.line.ending = ['\r'] ∨ s.line.ending = []) :
    (∀ l ∈ ((step toggles s st).lines ++ flush (step toggles s st).state).dropLast, Ended l) ↔
      ((kind toggles s st.inMath).endsMath = true → s.line.ending = ['\r']) := by
  rw [step_eq_act]
  cases hm : st.inMath with
  | true =>
      rcases kind_true toggles s with hk | ⟨label, hk⟩
      · rw [hk]
        obtain ⟨o, ho, hended⟩ := hst.opener hm
        have hflush : flush (keepInMath s st).state = (o :: st.mathLines) ++ [s.line.toList] := by
          cases o with
          | nil => cases hended
          | cons c o => simp [flush, keepInMath, hm, ho]
        refine iff_of_true ?_ fun hf => absurd hf Bool.false_ne_true
        show ∀ l ∈ ([] ++ flush (keepInMath s st).state).dropLast, Ended l
        rw [hflush, List.nil_append, List.dropLast_concat]
        exact List.forall_mem_cons.mpr ⟨hended, hst.lines⟩
      · rw [hk]
        obtain ⟨-, -, -, hfence⟩ := fits_of_kind_eq hk
        obtain ⟨rest, -, hlabel⟩ := eq_of_mathFence? hfence
        have hend := getLast?_of_mathLabel? hlabel
        have hdirective := ended_dropLast_mathDirective_iff hend hs fun _ => hst.lines
        simpa [Kind.act, flush, Kind.endsMath, Kind.closesMath] using hdirective
  | false =>
      have hidle := hsound.idle hm
      cases hk : kind toggles s false with
      | inMath => exact absurd hk (kind_false toggles s).1
      | mathClose label => exact absurd hk ((kind_false toggles s).2 label)
      | formula content label =>
          obtain ⟨-, -, -, hline⟩ := fits_of_kind_eq hk
          obtain ⟨rest, -, hlabel⟩ := eq_of_mathLine? hline
          have hend := getLast?_of_mathLabel? hlabel
          have hdirective := ended_dropLast_mathDirective_iff hend hs fun hr l hl =>
            List.mem_singleton.mp hl ▸ ended_append hr (strip content)
          simpa [Kind.act, flush, hm, Kind.endsMath, Kind.isFormula] using hdirective
      | mathOpen =>
          refine iff_of_true ?_ fun hf => absurd hf Bool.false_ne_true
          cases hline : s.line.toList <;> simp [Kind.act, flush, hline, hidle]
      | plain | shortcode | divClose | divOpen =>
          refine iff_of_true ?_ fun hf => absurd hf Bool.false_ne_true
          simp [Kind.act, flush, hm]

/-! ## A whole run -/

theorem written_ne_nil (toggles : Toggles) {st : State} (h : Sound st) {ss : List Site}
    (hne : ss ≠ []) :
    (trace toggles st ss).flatMap (·.lines) ++ flush (after toggles st ss) ≠ [] := by
  rw [trace_lines_eq_groups h]
  intro hnil
  have hlength := length_flatten_groups toggles st ss
  rw [(List.append_eq_nil_iff.mp hnil).2] at hlength
  have := List.length_pos_iff.mpr hne
  rw [List.length_nil] at hlength
  omega

/-- What a run writes has endings up to the last line, if its lines have, unless the last line ends a
math directive and has none. -/
theorem ended_written_iff (toggles : Toggles) {st : State} (hsound : Sound st) (hst : HoldsEnded st)
    {ss : List Site} {s : Site} (hss : ∀ s' ∈ ss, s'.line.ending = ['\r'])
    (hs : s.line.ending = ['\r'] ∨ s.line.ending = []) :
    (∀ l ∈ ((trace toggles st (ss ++ [s])).flatMap (·.lines) ++
        flush (after toggles st (ss ++ [s]))).dropLast, Ended l) ↔
      ((kind toggles s (after toggles st ss).inMath).endsMath = true → s.line.ending = ['\r']) := by
  induction ss generalizing st with
  | nil => simpa [trace] using ended_last_iff hsound hst hs
  | cons s' ss ih =>
      have hsound' : Sound (step toggles s' st).state := hsound.step
      obtain ⟨hnext, hlines⟩ := hst.step toggles (hss s' List.mem_cons_self)
      have hrest := ih hsound' hnext fun s'' hs'' => hss s'' (List.mem_cons_of_mem _ hs'')
      have hne := written_ne_nil toggles hsound'
        (List.append_ne_nil_of_right_ne_nil ss (List.cons_ne_nil s []))
      rw [List.cons_append, trace, List.flatMap_cons, after_cons, after_cons, List.append_assoc,
        List.dropLast_append_of_ne_nil hne, List.forall_mem_append, hrest]
      exact and_iff_right hlines

/-! ## The whole text -/

theorem ending_ofList (raw : List Char) :
    (Line.ofList raw).ending = if Ended raw then ['\r'] else [] := by
  rw [Line.ofList, apply_ite Line.ending]
  rfl

theorem ending_eq_return_iff {raw : List Char} : (Line.ofList raw).ending = ['\r'] ↔ Ended raw := by
  rw [ending_ofList]
  split <;> simp [*]

/-- The last line of a text is a whole formula or closes a math block. -/
def EndsMath (toggles : Toggles) (ranges : Array Range) (t : List Char) : Prop :=
  ∃ k, (kindsOf toggles ranges t).getLast? = some k ∧ k.endsMath = true

theorem exists_last_site (ranges : Array Range) (t : List Char) :
    ∃ ss s raws raw, sitesOf ranges t = ss ++ [s] ∧ split t = raws ++ [raw] ∧
      (∀ s' ∈ ss, ∃ raw' ∈ raws, s'.line = Line.ofList raw') ∧ s.line = Line.ofList raw := by
  have hne := split_ne_nil t
  have hmap := map_line_sites ranges 0 (split t)
  obtain ⟨raws, raw, hsplit⟩ := (List.eq_nil_or_concat (split t)).resolve_left hne
  rw [List.concat_eq_append] at hsplit
  rw [hsplit, List.map_append, ← hsplit] at hmap
  obtain ⟨ss, last, hsites, hss, hlast⟩ := List.map_eq_append_iff.mp hmap
  obtain ⟨s, rfl, hs⟩ := List.map_eq_singleton_iff.mp hlast
  refine ⟨ss, s, raws, raw, hsites, hsplit, fun s' hs' => ?_, hs⟩
  have hmem : s'.line ∈ raws.map Line.ofList := hss ▸ List.mem_map_of_mem hs'
  obtain ⟨raw', hraw', heq⟩ := List.mem_map.mp hmem
  exact ⟨raw', hraw', heq.symm⟩

theorem endsMath_iff {toggles : Toggles} {ranges : Array Range} {t : List Char} {ss : List Site}
    {s : Site} (h : sitesOf ranges t = ss ++ [s]) :
    EndsMath toggles ranges t ↔ (kind toggles s (after toggles {} ss).inMath).endsMath = true := by
  have hk := getElem?_kinds toggles {} (ss ++ [s]) ss.length
  rw [List.getElem?_concat_length, List.take_left] at hk
  have hlast : (kindsOf toggles ranges t).getLast? =
      some (kind toggles s (after toggles {} ss).inMath) := by
    rw [kindsOf, h, List.getLast?_eq_getElem?, length_kinds, List.length_append,
      List.length_singleton, Nat.add_sub_cancel]
    exact hk
  constructor
  · rintro ⟨k, hk', hends⟩
    cases hlast.symm.trans hk'
    exact hends
  · exact fun hends => ⟨_, hlast, hends⟩

theorem endsMath_of_nil {toggles : Toggles} {s : Site} (h : s.line.body = []) (inMath : Bool) :
    (kind toggles s inMath).endsMath = false := by
  rw [kind_of_blank toggles (by rw [h]; nofun)]
  cases inMath <;> rfl

/-- **Where CRLF lines stay CRLF lines.**  The output has no other line feeds than those after a
carriage return, unless the last line of the text has no ending and is a whole formula or closes a
math block.  A text that ends in a line break has no such last line.  Restoring keeps every
ending. -/
theorem crlf_kept_iff (toggles : Toggles) (ranges : Array Range) {t : List Char}
    (h : IsCrlf t) :
    (IsCrlf (text toggles ranges t) ↔ (EndsMath toggles ranges t → t.getLast? = some '\r')) ∧
      (t.getLast? = some '\n' → ¬ EndsMath toggles ranges t) ∧
      IsCrlf (Restore.text t) := by
  obtain ⟨ss, s, raws, raw, hsites, hsplit, hss, hs⟩ := exists_last_site ranges t
  rw [endsMath_iff hsites]
  have hgetLast : t.getLast? = raw.getLast?.or (if raws = [] then none else some '\n') := by
    rw [← getLast?_join_concat, ← hsplit, join_split]
  have hlast : Ended raw ↔ t.getLast? = some '\r' := by
    rw [hgetLast, Ended]
    cases raw.getLast? with
    | some c => rfl
    | none => by_cases hraws : raws = [] <;> simp [hraws]
  refine ⟨?_, fun hbreak => ?_, Restore.isCrlf_text h⟩
  · have hended : ∀ s' ∈ ss, s'.line.ending = ['\r'] := by
      rw [isCrlf_iff, hsplit, List.dropLast_concat] at h
      intro s' hs'
      obtain ⟨raw', hraw', heq⟩ := hss s' hs'
      exact heq ▸ ending_eq_return_iff.mpr (h raw' hraw')
    have hending : s.line.ending = ['\r'] ∨ s.line.ending = [] := by
      rw [hs, ending_ofList]
      split
      · exact Or.inl rfl
      · exact Or.inr rfl
    have hwritten := ended_written_iff toggles sound_initial holdsEnded_initial hended
      hending
    have hne := written_ne_nil toggles sound_initial
      (List.append_ne_nil_of_right_ne_nil ss (List.cons_ne_nil s []))
    rw [← hsites, ← lines_eq_trace] at hwritten hne
    rw [text, isCrlf_join_iff hne fun l hl => ?_, hwritten, hs, ending_eq_return_iff, hlast]
    rw [lines_eq_groups] at hl
    exact newline_not_mem_groupsOf hl
  · -- what follows the last line feed is an empty line
    have hnil : raw = [] := by
      cases hraw : raw.getLast? with
      | none => exact List.getLast?_eq_none_iff.mp hraw
      | some c =>
          rw [hgetLast, hraw] at hbreak
          have hmem : raw ∈ split t := hsplit ▸ List.mem_append_right _ List.mem_cons_self
          cases hbreak
          exact absurd (List.mem_of_getLast? hraw) (newline_not_mem_of_mem_split hmem)
    rw [endsMath_of_nil (by rw [hs, hnil]; rfl)]
    exact Bool.false_ne_true

/-- A block of display math in a text without a line break at its end. -/
def openEnd : List Char :=
  "$$\r\nx\r\n$$".toList

/-- With a line break at its end, the lines of the block keep their endings. -/
theorem closedEnd_kept :
    IsCrlf (openEnd ++ ['\r', '\n']) ∧
      IsCrlf (Stage.convert {} (openEnd ++ ['\r', '\n'])) ∧
      IsCrlf (Restore.text (openEnd ++ ['\r', '\n'])) := by
  have hcrlf : IsCrlf (openEnd ++ ['\r', '\n']) := by decide
  obtain ⟨hiff, hbreak, hrestore⟩ :=
    crlf_kept_iff {} (Scan.ranges (openEnd ++ ['\r', '\n'])).toArray hcrlf
  exact ⟨hcrlf, hiff.mpr fun h => absurd h (hbreak (by decide)), hrestore⟩

/-- Without one, the opening fence of the block loses its own. -/
theorem openEnd_not_kept :
    IsCrlf openEnd ∧ ¬ IsCrlf (Stage.convert {} openEnd) ∧
      Stage.convert {} openEnd = ":::math\nx\r\n:::".toList := by
  have hconvert : Stage.convert {} openEnd = ":::math\nx\r\n:::".toList := by
    rw [Stage.convert, Scan.ranges_eq_recorded]
    decide +kernel
  rw [hconvert]
  decide

end Convert

end DirectiveFences
