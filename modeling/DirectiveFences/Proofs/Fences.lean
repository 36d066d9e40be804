/-
Fences follow the nesting.

The state of the conversion keeps no record of which divs are open, only the lengths of
their fences.  Here these lengths are compared with the nesting of the lines that open
and close divs, as `Nesting` defines it: at every line they are the lengths for the
depths 0, 1, 2 and so on up to the number of open divs.  From this follow the lengths of
the fences that are written, and what is noted about a document that does not balance.
-/
import DirectiveFences.Log
import DirectiveFences.Proofs.Groups
import DirectiveFences.Proofs.Nesting

namespace DirectiveFences.Convert

open Text Shape Nesting

/-- What a line of a kind is to the nesting of divs. -/
def Kind.mark : Kind → Mark
  | .divOpen _ => .opener
  | .divClose => .closer
  | _ => .other

/-- The marks of the lines of a text. -/
def marksOf (toggles : Toggles) (ranges : Array Range) (t : List Char) : List Mark :=
  (kindsOf toggles ranges t).map Kind.mark

/-- The number of colons at the front of a line. -/
def colons (l : List Char) : Nat :=
  (l.takeWhile (· == ':')).length

/-- The fences among the lines that stand for a line of a kind. -/
def Kind.fencesIn (group : List (List Char)) : Kind → List (List Char)
  | .plain | .inMath | .shortcode _ => []
  | .formula _ _ => group.head?.toList ++ group.getLast?.toList
  | .mathClose _ | .mathOpen | .divClose | .divOpen _ => group

/-- How a note appears in the log. -/
def logged (n : Note) : Log.Level × String :=
  ((Log.Record.imbalance n).level, (Log.Record.imbalance n).message)

/-! ## Counting colons -/

theorem colons_of_head_ne {l : List Char} (h : l.head? ≠ some ':') : colons l = 0 := by
  cases l with
  | nil => rfl
  | cons c l =>
      have hc : c ≠ ':' := fun heq => h (heq ▸ rfl)
      simp [colons, hc]

theorem colons_replicate_append (n : Nat) (l : List Char) :
    colons (List.replicate n ':' ++ l) = n + colons l := by
  rw [colons, List.takeWhile_append_of_pos (fun c hc => by rw [List.eq_of_mem_replicate hc]; rfl),
    List.length_append, List.length_replicate, colons]

theorem colons_fence_append (l : List Char) : colons (fence ++ l) = 3 + colons l :=
  colons_replicate_append 3 l

theorem colons_math (s : Site) (label : List Char) :
    colons (s.ended (fence ++ mathName ++ label)) = 3 := by
  rw [Site.ended, List.append_assoc, List.append_assoc, colons_fence_append]
  rfl

theorem divDirective_eq (o : Opener) :
    divDirective o = o.name.getD genericName ++ braces (o.attributes.map strip) := by
  unfold divDirective
  cases o.attributes <;> rfl

theorem isName_of_opener {line : List Char} {o : Opener} (h : opener? line = some o) :
    IsName (o.name.getD genericName) := by
  obtain ⟨rest, -, -, ⟨name, after, ho, hname, -⟩ | ⟨ho, -, -⟩⟩ := eq_of_opener? h
  · rw [ho]
    exact isName_of_name? hname
  · rw [ho]
    exact ⟨'d', ['i', 'v'], rfl, by decide, by decide⟩

/-- A directive begins with its name. -/
theorem divDirective_eq_cons {line : List Char} {o : Opener} (h : opener? line = some o) :
    ∃ c cs, divDirective o = c :: cs ∧ isWord c = true ∧ c ≠ ':' := by
  obtain ⟨c, cs, hcons, hc⟩ := (isName_of_opener h).head (braces (o.attributes.map strip))
  refine ⟨c, cs, (divDirective_eq o).trans hcons, hc, ?_⟩
  rintro rfl
  exact absurd hc (by decide)

theorem colons_divDirective {line : List Char} {o : Opener} (h : opener? line = some o)
    (l : List Char) : colons (divDirective o ++ l) = 0 := by
  obtain ⟨c, cs, hcons, -, hc⟩ := divDirective_eq_cons h
  rw [hcons]
  exact colons_of_head_ne fun heq => hc (Option.some.inj heq)

theorem colons_of_isCloser {body : List Char} (h : isCloser body = true) : colons body = 3 := by
  obtain ⟨rest, rfl, hhead, -⟩ := eq_of_isCloser h
  rw [colons_fence_append, colons_of_head_ne hhead]

theorem colons_of_opener {body : List Char} {o : Opener} (h : opener? body = some o) :
    colons body = 3 := by
  obtain ⟨rest, rfl, hhead, -⟩ := eq_of_opener? h
  rw [colons_fence_append, colons_of_head_ne hhead]

/-! ## The lengths of the open divs' fences -/

/-- The fence lengths of `n` nested divs, innermost first. -/
def ladder (n : Nat) : List Nat :=
  (List.range n).reverse.map fun k : Nat => fenceLength k

theorem fenceLength_eq (n : Nat) : fenceLength n = max 3 (5 - n) := by
  rw [fenceLength]
  omega

theorem ladder_succ (n : Nat) : ladder (n + 1) = fenceLength n :: ladder n := by
  rw [ladder, List.range_succ, List.reverse_append]
  rfl

theorem length_ladder (n : Nat) : (ladder n).length = n := by
  rw [ladder, List.length_map, List.length_reverse, List.length_range]

variable {toggles : Toggles} {ranges : Array Range} {t : List Char}

theorem getElem?_marksOf {i : Nat} {s : Site} (hs : (sitesOf ranges t)[i]? = some s) :
    (marksOf toggles ranges t)[i]? =
      some (kind toggles s (stateAt toggles ranges t i).inMath).mark := by
  rw [marksOf, List.getElem?_map, getElem?_kindsOf toggles hs]
  rfl

theorem act_fences {s : Site} {st : State} {n : Nat} (h : st.fences = ladder n) (k : Kind) :
    (k.act s st).state.fences = ladder (k.mark.depthAfter n) := by
  cases k with
  | divOpen o =>
      show fenceLength st.fences.length :: st.fences = ladder (n + 1)
      rw [h, length_ladder, ladder_succ]
  | divClose =>
      show st.fences.tail = ladder (n - 1)
      rw [h]
      cases n with
      | zero => rfl
      | succ n => rw [ladder_succ]; rfl
  | plain | inMath | mathClose | mathOpen | formula | shortcode => exact h

/-- At every line the fences are those for the depths of the open divs. -/
theorem fences_eq_ladder {i : Nat} (hi : i ≤ (split t).length) :
    (stateAt toggles ranges t i).fences = ladder (depth (marksOf toggles ranges t) i) := by
  induction i with
  | zero => rw [stateAt_zero]; rfl
  | succ i ih =>
      obtain ⟨s, hs⟩ := exists_site ranges hi
      rw [stateAt_succ hs, step_eq_act, act_fences (ih (Nat.le_of_succ_le hi)),
        depth_succ (getElem?_marksOf hs)]

theorem length_fences {i : Nat} (hi : i ≤ (split t).length) :
    (stateAt toggles ranges t i).fences.length = depth (marksOf toggles ranges t) i := by
  rw [fences_eq_ladder hi, length_ladder]

theorem headD_ladder (n : Nat) :
    (ladder n).headD 3 = if n = 0 then 3 else fenceLength ↑(n - 1) := by
  cases n with
  | zero => rfl
  | succ n => rw [ladder_succ]; rfl

/-! ## The fences that are written -/

theorem colons_ending {s : Site} (hs : s ∈ sitesOf ranges t) : colons s.line.ending = 0 := by
  obtain ⟨i, hi⟩ := List.mem_iff_getElem?.mp hs
  rw [getElem?_sitesOf] at hi
  obtain ⟨raw, -, rfl⟩ := Option.map_eq_some_iff.mp hi
  show colons (Line.ofList raw).ending = 0
  unfold Line.ofList
  split <;> rfl

theorem colons_closing? {ss : List Site} {l : List Char} (h : closing? toggles ss = some l) :
    colons l = 3 := by
  induction ss with
  | nil => cases h
  | cons s ss ih =>
      rw [closing?] at h
      split at h
      · cases h
        exact colons_math s _
      · exact ih h

theorem colons_of_mathOpen {s : Site} (h : kind toggles s false = .mathOpen) :
    colons s.line.toList = 0 := by
  obtain ⟨-, -, -, -, hfence⟩ := fits_of_kind_eq h
  obtain ⟨label, hlabel⟩ := Option.isSome_iff_exists.mp hfence
  obtain ⟨rest, hmark⟩ := mark_of_mathFence? hlabel
  obtain ⟨ds, hds⟩ := dropWhile_of_mathMark hmark
  refine colons_of_head_ne fun hc => ?_
  cases hbody : s.line.body with
  | nil => rw [hbody] at hds; cases hds
  | cons c cs =>
      have hcolon : c = ':' := by
        rw [Line.toList, hbody] at hc
        exact Option.some.inj hc
      rw [hcolon] at hbody
      rw [dropWhile_of_colon hbody] at hds
      exact absurd (List.cons.inj hds).1 (by decide)

theorem group_divOpen (toggles : Toggles) {s : Site} (st : State) (later : List Site) {o : Opener}
    (ho : opener? s.line.body = some o) :
    ∃ l, (Kind.divOpen o).group toggles s st later = [l] ∧
      colons l = fenceLength st.fences.length := by
  refine ⟨_, rfl, ?_⟩
  rw [Site.ended, List.append_assoc, colons_replicate_append, colons_divDirective ho]
  rfl

theorem group_divClose (toggles : Toggles) {s : Site} (st : State) (later : List Site)
    (hs : s ∈ sitesOf ranges t) :
    ∃ l, Kind.divClose.group toggles s st later = [l] ∧ colons l = st.fences.headD 3 := by
  refine ⟨_, rfl, ?_⟩
  rw [Site.ended, colons_replicate_append, colons_ending hs]
  rfl

theorem three_le_fenceLength (n : Nat) : 3 ≤ fenceLength n := by
  rw [fenceLength_eq]
  exact Nat.le_max_left ..

theorem fenceLength_anti {m n : Nat} (h : m ≤ n) : fenceLength n ≤ fenceLength m := by
  rw [fenceLength_eq, fenceLength_eq]
  omega

theorem colons_fencesIn {s : Site} {st : State} {later : List Site} {n : Nat} {f : List Char}
    (hs : s ∈ sitesOf ranges t) (hst : st.fences = ladder n)
    (hf : f ∈ (kind toggles s st.inMath).fencesIn
      ((kind toggles s st.inMath).group toggles s st later)) :
    colons f ≤ fenceLength ↑(n - 1) := by
  have hthree := three_le_fenceLength (n - 1)
  have hmath : ∀ {l : List Char}, colons l = 3 → colons l ≤ fenceLength ↑(n - 1) :=
    fun h => h ▸ hthree
  have hplain : colons (s.ended fence) = 3 := by
    rw [Site.ended, colons_fence_append, colons_ending hs]
  cases hk : kind toggles s st.inMath with
  | plain | inMath | shortcode => rw [hk] at hf; cases hf
  | mathClose label =>
      rw [hk] at hf
      rw [List.mem_singleton.mp hf]
      exact hmath hplain
  | formula content label =>
      rw [hk] at hf
      rcases List.mem_cons.mp hf with rfl | hf
      · exact hmath (colons_math s label)
      · rw [List.mem_singleton.mp hf]
        exact hmath hplain
  | mathOpen =>
      have hin : st.inMath = false := (fits_of_kind_eq hk).1
      rw [hk] at hf
      rw [List.mem_singleton.mp hf]
      cases hc : closing? toggles later with
      | some l => exact hmath (colons_closing? hc)
      | none =>
          rw [hin] at hk
          show colons s.line.toList ≤ _
          rw [colons_of_mathOpen hk]
          exact Nat.zero_le _
  | divClose =>
      obtain ⟨l, hl, hcolons⟩ := group_divClose toggles st later hs
      rw [hk] at hf
      rw [Kind.fencesIn, hl] at hf
      rw [List.mem_singleton.mp hf, hcolons, hst, headD_ladder]
      split
      · exact hthree
      · exact Nat.le_refl _
  | divOpen o =>
      obtain ⟨-, -, -, ho⟩ := fits_of_kind_eq hk
      obtain ⟨l, hl, hcolons⟩ :=
        group_divOpen toggles st later ho
      rw [hk] at hf
      rw [Kind.fencesIn, hl] at hf
      rw [List.mem_singleton.mp hf, hcolons, hst, length_ladder]
      exact fenceLength_anti (Nat.sub_le n 1)

/-! ## What is noted -/

theorem act_notes (s : Site) (st : State) (k : Kind) : (k.act s st).notes =
    if k.mark = .closer ∧ st.fences = [] then [.unmatchedCloser s.offset] else [] := by
  cases k with
  | divClose =>
      show (if st.fences.isEmpty then _ else _) = _
      simp only [List.isEmpty_iff, Kind.mark, true_and]
  | plain | inMath | mathClose | mathOpen | formula | shortcode | divOpen => rfl

theorem fences_eq_nil_iff {i : Nat} (hi : i ≤ (split t).length) :
    (stateAt toggles ranges t i).fences = [] ↔ stackAt (marksOf toggles ranges t) i = [] := by
  rw [← List.length_eq_zero_iff, ← List.length_eq_zero_iff, length_fences hi, length_stackAt]

theorem notes_take {i : Nat} (hi : i ≤ (split t).length) :
    ((trace toggles {} (sitesOf ranges t)).take i).flatMap (·.notes) =
      ((List.range i).filter fun j => Unmatched (marksOf toggles ranges t) j).map
        fun j => .unmatchedCloser (lineStart (split t) j) := by
  induction i with
  | zero => rfl
  | succ i ih =>
      obtain ⟨s, hs⟩ := exists_site ranges hi
      have hstep : (trace toggles {} (sitesOf ranges t))[i]? =
          some (step toggles s (stateAt toggles ranges t i)) := by
        rw [getElem?_trace, hs]
        rfl
      have hle := Nat.le_of_succ_le hi
      have hunmatched : Unmatched (marksOf toggles ranges t) i ↔
          (kind toggles s (stateAt toggles ranges t i).inMath).mark = .closer ∧
            (stateAt toggles ranges t i).fences = [] := by
        rw [unmatched_iff, getElem?_marksOf hs, fences_eq_nil_iff hle, Option.some.injEq]
      rw [List.take_add_one, hstep, List.flatMap_append, ih hle, List.range_succ,
        List.filter_append, List.map_append]
      refine congrArg _ ?_
      show (step toggles _ _).notes ++ [] = _
      rw [List.append_nil, step_eq_act, act_notes, (split_of_site hs).2]
      by_cases hu : Unmatched (marksOf toggles ranges t) i
      · rw [if_pos (hunmatched.mp hu)]
        simp [hu]
      · rw [if_neg (fun h => hu (hunmatched.mpr h))]
        simp [hu]

/-- All that is noted about a document. -/
theorem notes_eq_nesting (toggles : Toggles) (ranges : Array Range) (t : List Char) :
    let ms := marksOf toggles ranges t
    let n := (split t).length
    notes toggles ranges t =
      (((List.range n).filter fun j => Unmatched ms j).map
        fun j => .unmatchedCloser (lineStart (split t) j)) ++
      ((if depth ms n = 0 then [] else [.divsLeftOpen (depth ms n)]) ++
        if (stateAt toggles ranges t n).inMath then [.mathLeftOpen] else []) := by
  intro ms n
  have htake : (trace toggles {} (sitesOf ranges t)).take n = trace toggles {} (sitesOf ranges t) :=
    List.take_of_length_le (Nat.le_of_eq (by rw [length_trace, length_sitesOf]))
  have hcount := @length_fences toggles ranges t _ (Nat.le_refl (split t).length)
  rw [notes_eq_trace, ← stateAt_length, ← htake, notes_take (Nat.le_refl _), flushNotes, hcount]
  refine congrArg _ (congrArg (· ++ _) ?_)
  simp only [List.isEmpty_iff, ← List.length_eq_zero_iff, hcount]
  rfl

/-- Line `i` is written as one line, with `n` colons at its front. -/
def WrittenWith (toggles : Toggles) (ranges : Array Range) (t : List Char) (i n : Nat) : Prop :=
  ∃ l, (groupsOf toggles ranges t)[i]? = some [l] ∧ colons l = n

theorem site_of_mark {i : Nat} {m : Mark} (h : (marksOf toggles ranges t)[i]? = some m) :
    ∃ s, (sitesOf ranges t)[i]? = some s ∧
      (kind toggles s (stateAt toggles ranges t i).inMath).mark = m ∧ i < (split t).length := by
  obtain ⟨k, hk, hkm⟩ : ∃ k, (kindsOf toggles ranges t)[i]? = some k ∧ k.mark = m := by
    rw [marksOf, List.getElem?_map] at h
    exact Option.map_eq_some_iff.mp h
  obtain ⟨s, hs, hkind, hi⟩ := site_of_kind hk
  exact ⟨s, hs, by rw [hkind, hkm], hi⟩

theorem writtenWith_of_opener {i : Nat} (h : (marksOf toggles ranges t)[i]? = some .opener) :
    WrittenWith toggles ranges t i (fenceLength (depth (marksOf toggles ranges t) i)) := by
  obtain ⟨s, hs, hmark, hi⟩ := site_of_mark h
  cases hk : kind toggles s (stateAt toggles ranges t i).inMath with
  | divOpen o =>
      obtain ⟨-, -, -, ho⟩ := fits_of_kind_eq hk
      obtain ⟨l, hl, hcolons⟩ := group_divOpen toggles (stateAt toggles ranges t i)
        ((sitesOf ranges t).drop (i + 1)) ho
      refine ⟨l, by rw [getElem?_groupsOf hs, hk, hl], ?_⟩
      rw [hcolons, length_fences (Nat.le_of_lt hi)]
  | plain | inMath | mathClose | mathOpen | formula | shortcode | divClose =>
      rw [hk] at hmark
      cases hmark

theorem writtenWith_of_closer {j : Nat} (h : (marksOf toggles ranges t)[j]? = some .closer) :
    WrittenWith toggles ranges t j
      ((ladder (depth (marksOf toggles ranges t) j)).headD 3) := by
  obtain ⟨s, hs, hmark, hj⟩ := site_of_mark h
  cases hk : kind toggles s (stateAt toggles ranges t j).inMath with
  | divClose =>
      obtain ⟨l, hl, hcolons⟩ := group_divClose toggles (stateAt toggles ranges t j)
        ((sitesOf ranges t).drop (j + 1)) (List.mem_of_getElem? hs)
      refine ⟨l, by rw [getElem?_groupsOf hs, hk, hl], ?_⟩
      rw [hcolons, fences_eq_ladder (Nat.le_of_lt hj)]
  | plain | inMath | mathClose | mathOpen | formula | shortcode | divOpen =>
      rw [hk] at hmark
      cases hmark

theorem marks_iff (toggles : Toggles) {i : Nat} {s : Site} (hs : (sitesOf ranges t)[i]? = some s) :
    ((marksOf toggles ranges t)[i]? = some .closer ↔ (stateAt toggles ranges t i).inMath = false ∧
      s.isInert = false ∧ isCloser s.line.body = true) ∧
    ((marksOf toggles ranges t)[i]? = some .opener ↔ (stateAt toggles ranges t i).inMath = false ∧
      s.isInert = false ∧ isCloser s.line.body = false ∧ (opener? s.line.body).isSome = true) := by
  rw [getElem?_marksOf hs, Option.some.injEq, Option.some.injEq]
  constructor
  · rw [← kind_eq_divClose_iff toggles]
    cases kind toggles s (stateAt toggles ranges t i).inMath <;> simp [Kind.mark]
  · simp only [Option.isSome_iff_exists, ← exists_and_left]
    simp only [← kind_eq_divOpen_iff toggles]
    cases kind toggles s (stateAt toggles ranges t i).inMath <;> simp [Kind.mark]

theorem colons_of_mark (toggles : Toggles) {i : Nat} {s : Site}
    (hs : (sitesOf ranges t)[i]? = some s) (hne : (marksOf toggles ranges t)[i]? ≠ some .other) :
    colons s.line.body = 3 := by
  obtain ⟨hclose, hopen⟩ := marks_iff toggles hs
  have hmark := @getElem?_marksOf toggles ranges t i s hs
  cases hm : (kind toggles s (stateAt toggles ranges t i).inMath).mark with
  | other => exact absurd (hmark.trans (congrArg some hm)) hne
  | closer => exact colons_of_isCloser (hclose.mp (hmark.trans (congrArg some hm))).2.2
  | opener =>
      obtain ⟨o, ho⟩ := Option.isSome_iff_exists.mp
        (hopen.mp (hmark.trans (congrArg some hm))).2.2.2
      exact colons_of_opener ho

theorem colons_le_of_isOpen {i o : Nat} {k : Kind} {g : List (List Char)} {f : List Char}
    (hopen : IsOpen (marksOf toggles ranges t) i o)
    (hk : (kindsOf toggles ranges t)[i]? = some k) (hg : (groupsOf toggles ranges t)[i]? = some g)
    (hf : f ∈ k.fencesIn g) :
    ∃ l, (groupsOf toggles ranges t)[o]? = some [l] ∧ colons f ≤ colons l := by
  obtain ⟨l, hl, hcolons⟩ := writtenWith_of_opener hopen.opener
  obtain ⟨s, hs, rfl, hi⟩ := site_of_kind hk
  refine ⟨l, hl, ?_⟩
  rw [getElem?_groupsOf hs] at hg
  obtain rfl := Option.some.inj hg
  have hle := colons_fencesIn (List.mem_of_getElem? hs) (fences_eq_ladder (Nat.le_of_lt hi)) hf
  have hdepth := depth_lt_of_isOpen hopen
  exact hcolons ▸ Nat.le_trans hle (fenceLength_anti (Nat.le_sub_one_of_lt hdepth))

/-- **Fences follow the nesting of the divs.**  At every line the fences of the state are those for
the depths of the divs that are open by bracket matching.  So a div at depth `k` is opened and
closed with `max 3 (5 - k)` colons, and a closer without a div gets three; no fence is longer than
those of the divs around it; and the log has a record for each closer without a div, and one for
the divs that are left open. -/
theorem fences_follow_nesting (toggles : Toggles) (ranges : Array Range) (t : List Char) :
    let raws := split t
    let ks := kindsOf toggles ranges t
    let ms := marksOf toggles ranges t
    let gs := groupsOf toggles ranges t
    split (text toggles ranges t) = gs.flatten ∧ ms.length = raws.length ∧
    -- the marks are those of the lines that the rules accept, which have three colons
    (∀ (i : Nat) (s : Site), (sitesOf ranges t)[i]? = some s →
      let inMath := (stateAt toggles ranges t i).inMath
      (ms[i]? = some .closer ↔
        inMath = false ∧ s.isInert = false ∧ isCloser s.line.body = true) ∧
      (ms[i]? = some .opener ↔ inMath = false ∧ s.isInert = false ∧
        isCloser s.line.body = false ∧ (opener? s.line.body).isSome = true) ∧
      (ms[i]? ≠ some .other → colons s.line.body = 3)) ∧
    (∀ i, i ≤ raws.length → (stateAt toggles ranges t i).fences.reverse =
      (List.range (depth ms i)).map fun k : Nat => fenceLength k) ∧
    (∀ i, ms[i]? = some .opener → WrittenWith toggles ranges t i (max 3 (5 - depth ms i))) ∧
    (∀ i j, Matches ms i j → WrittenWith toggles ranges t j (max 3 (5 - depth ms i))) ∧
    (∀ j, Unmatched ms j → WrittenWith toggles ranges t j 3) ∧
    -- every fence, of a div or of math, and the opening fences of the divs around it
    (∀ i o k g f, IsOpen ms i o → ks[i]? = some k → gs[i]? = some g → f ∈ k.fencesIn g →
      ∃ l, gs[o]? = some [l] ∧ colons f ≤ colons l) ∧
    (notes toggles ranges t).map logged =
      (((List.range raws.length).filter fun j => Unmatched ms j).map fun j =>
        (.debug, "Unmatched closing fence at offset " ++ toString (lineStart raws j))) ++
      (if depth ms raws.length = 0 then [] else
        [(.debug, toString (depth ms raws.length) ++
          " fenced div(s) left open at end of document")]) ++
      (if (stateAt toggles ranges t raws.length).inMath then
        [(.debug, "Math block left open at end of document; emitting it unchanged")] else []) := by
  intro raws ks ms gs
  have hsplit := split_text_eq_groups toggles ranges t
  have hlen : ms.length = raws.length :=
    (List.length_map ..).trans (length_kindsOf toggles ranges t)
  refine ⟨hsplit, hlen, ?_, ?_, ?_, ?_, ?_, fun i o k g f => colons_le_of_isOpen, ?_⟩
  · intro i s hs inMath
    obtain ⟨hclose, hopen⟩ := marks_iff toggles hs
    exact ⟨hclose, hopen, colons_of_mark toggles hs⟩
  · intro i hi
    rw [fences_eq_ladder hi, ladder, ← List.map_reverse, List.reverse_reverse]
  · intro i hi
    rw [← fenceLength_eq]
    exact writtenWith_of_opener hi
  · intro i j hij
    have := writtenWith_of_closer hij.closer
    rwa [depth_of_matches hij, ladder_succ, List.headD_cons, fenceLength_eq] at this
  · intro j hj
    have := writtenWith_of_closer hj.closer
    rwa [depth_of_unmatched hj] at this
  · rw [notes_eq_nesting, List.map_append, List.map_append, List.map_map, ← List.append_assoc]
    refine congr (congrArg _ (congrArg _ ?_)) ?_
    · split <;> rfl
    · split <;> rfl

end DirectiveFences.Convert
