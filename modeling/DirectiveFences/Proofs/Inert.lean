/-
Protected lines are inert.

A line is protected when its first character that is not blank lies in one of the
ranges.  The rules find that character in the body of the line, and look for its range
by bisection; here both are traced back to the text and to the list of the ranges.
Such a line is of no kind that is rewritten, so it stands for itself in the output and
leaves the fences of the open divs and the math block as they are.
-/
import DirectiveFences.Proofs.Bisection
import DirectiveFences.Proofs.Groups

namespace DirectiveFences.Convert

open Text

/-- The place in a text of the first character of line `i` that is not blank, if there is one. -/
def firstInk? (t : List Char) (i : Nat) : Option Nat :=
  (split t)[i]?.bind fun raw =>
    let indent := (raw.takeWhile isBlank).length
    if indent < raw.length then some (lineStart (split t) i + indent) else none

theorem firstInk?_eq_some_iff {t : List Char} {i o : Nat} :
    firstInk? t i = some o ↔ ∃ raw, (split t)[i]? = some raw ∧
      (raw.takeWhile isBlank).length < raw.length ∧
      o = lineStart (split t) i + (raw.takeWhile isBlank).length := by
  rw [firstInk?, Option.bind_eq_some_iff]
  refine exists_congr fun raw => and_congr_right fun _ => ?_
  dsimp only
  rw [Option.ite_none_right_eq_some, Option.some.injEq, eq_comm (b := o)]

theorem ending_blank (raw : List Char) : ∀ c ∈ (Line.ofList raw).ending, isBlank c = true := by
  unfold Line.ofList
  split <;> simp [show isBlank '\r' = true from by decide]

theorem takeWhile_body {raw : List Char} (h : (raw.takeWhile isBlank).length < raw.length) :
    (Line.ofList raw).body.takeWhile isBlank = raw.takeWhile isBlank := by
  have hraw : raw = (Line.ofList raw).body ++ (Line.ofList raw).ending :=
    (Line.toList_ofList raw).symm
  have hending : (Line.ofList raw).ending.takeWhile isBlank = (Line.ofList raw).ending := by
    simpa using @List.takeWhile_append_of_pos Char isBlank _ [] (ending_blank raw)
  have happend := congrArg (List.takeWhile isBlank) hraw
  rw [List.takeWhile_append, hending] at happend
  split at happend
  · rw [happend, ← hraw] at h
    exact absurd h (Nat.lt_irrefl _)
  · exact happend.symm

/-- A range over the first character of a line that is not blank makes the line inert. -/
theorem isInert_of_holds {ranges : Array Range} {t raw : List Char} {r : Range} {i o : Nat}
    (h : Range.Ordered ranges.toList) (hr : r ∈ ranges.toList)
    (hraw : (split t)[i]? = some raw) (ho : firstInk? t i = some o)
    (hin : r.start ≤ o ∧ o < r.stop) :
    (⟨lineStart (split t) i, Line.ofList raw, ranges⟩ : Site).isInert = true := by
  obtain ⟨raw', hraw', hlt, rfl⟩ := firstInk?_eq_some_iff.mp ho
  obtain rfl := Option.some.inj (hraw'.symm.trans hraw)
  show Range.isProtected ranges _ = true
  rw [takeWhile_body hlt, Range.isProtected_iff_exists h]
  refine ⟨r, hr, ?_⟩
  simp only [Range.holds, Bool.and_eq_true, decide_eq_true_eq]
  omega

theorem kept_of_isInert (toggles : Toggles) {ranges : Array Range} {t : List Char} {i : Nat}
    {s : Site} (hs : (sitesOf ranges t)[i]? = some s) (h : s.isInert = true) :
    (kindsOf toggles ranges t)[i]? = some .plain ∨
      (kindsOf toggles ranges t)[i]? = some .inMath := by
  rw [getElem?_kindsOf toggles hs, kind_of_isInert toggles h]
  cases (stateAt toggles ranges t i).inMath with
  | true => exact Or.inr rfl
  | false => exact Or.inl rfl

theorem length_flatten_take_groupsOf (toggles : Toggles) (ranges : Array Range) (t : List Char)
    (i : Nat) (hi : i ≤ (split t).length) :
    ((groupsOf toggles ranges t).take i).flatten.length =
      i + 2 * ((kindsOf toggles ranges t).take i).countP Kind.isFormula := by
  induction i with
  | zero => rfl
  | succ i ih =>
      obtain ⟨s, hs⟩ := exists_site ranges hi
      rw [List.take_add_one, List.take_add_one, getElem?_groupsOf hs, getElem?_kindsOf toggles hs,
        List.flatten_append, List.length_append, List.countP_append, ih (Nat.le_of_succ_le hi)]
      simp only [Option.toList_some, List.flatten_cons, List.flatten_nil, List.append_nil,
        length_group, List.countP_singleton]
      split <;> omega

theorem split_text_of_isInert (toggles : Toggles) {ranges : Array Range} {t raw : List Char}
    {i : Nat} (hraw : (split t)[i]? = some raw)
    (h : (⟨lineStart (split t) i, Line.ofList raw, ranges⟩ : Site).isInert = true) :
    split (text toggles ranges t) = ((groupsOf toggles ranges t).take i).flatten ++
      raw :: ((groupsOf toggles ranges t).drop (i + 1)).flatten := by
  have hs : (sitesOf ranges t)[i]? = some ⟨lineStart (split t) i, Line.ofList raw, ranges⟩ := by
    rw [getElem?_sitesOf, hraw]
    rfl
  have hgroup := group_of_kept hs (kept_of_isInert toggles hs h)
  rw [split_text_eq_groups]
  conv => lhs; rw [← List.take_append_drop i (groupsOf toggles ranges t)]
  rw [List.flatten_append, List.drop_eq_getElem?_toList_append, hgroup]
  simp only [Option.toList_some, List.singleton_append, List.flatten_cons, Line.toList_ofList]

/-- **Protected lines are inert.**  When the first character of a line that is not blank lies in one
of the ranges, the line is written as it stands, after the lines that the lines before it stand for.
No div is opened or closed by it, and no math block: at most it is added to the open one. -/
theorem protected_line_kept {toggles : Toggles} {ranges : Array Range} {t raw : List Char}
    {r : Range} {i o : Nat} (h : Range.Ordered ranges.toList) (hr : r ∈ ranges.toList)
    (hraw : (split t)[i]? = some raw) (ho : firstInk? t i = some o)
    (hin : r.start ≤ o ∧ o < r.stop) :
    let ks := kindsOf toggles ranges t
    let gs := groupsOf toggles ranges t
    let st := stateAt toggles ranges t i
    let next := stateAt toggles ranges t (i + 1)
    split (text toggles ranges t) = (gs.take i).flatten ++ raw :: (gs.drop (i + 1)).flatten ∧
    (gs.take i).flatten.length = i + 2 * (ks.take i).countP Kind.isFormula ∧
    next.fences = st.fences ∧ next.inMath = st.inMath ∧ next.mathOpener = st.mathOpener ∧
    next.mathLines = if st.inMath then st.mathLines ++ [raw] else st.mathLines := by
  intro ks gs st next
  have hs : (sitesOf ranges t)[i]? = some ⟨lineStart (split t) i, Line.ofList raw, ranges⟩ := by
    rw [getElem?_sitesOf, hraw]
    rfl
  have hinert := isInert_of_holds h hr hraw ho hin
  have hi : i < (split t).length := (List.getElem?_eq_some_iff.mp hraw).1
  refine ⟨split_text_of_isInert toggles hraw hinert,
    length_flatten_take_groupsOf toggles ranges t i (Nat.le_of_lt hi), ?_⟩
  · have hnext : next = ((if st.inMath then Kind.inMath else .plain).act
        ⟨lineStart (split t) i, Line.ofList raw, ranges⟩ st).state := by
      rw [← kind_of_isInert toggles hinert, ← step_eq_act]
      exact stateAt_succ hs
    rw [hnext]
    cases hm : st.inMath with
    | true =>
        refine ⟨rfl, hm, rfl, ?_⟩
        show st.mathLines ++ [(Line.ofList raw).toList] = st.mathLines ++ [raw]
        rw [Line.toList_ofList]
    | false => exact ⟨rfl, hm, rfl, rfl⟩

/-- A line of a code span that looks like the opening fence of a div opens none. -/
theorem protected_fence_kept :
    let t := "`a\n::: {.n}\n` b".toList
    let ranges : Array Range := #[⟨0, 14⟩]
    split (text {} ranges t) = ["`a".toList, "::: {.n}".toList, "` b".toList] ∧
      (stateAt {} ranges t 2).fences = (stateAt {} ranges t 1).fences := by
  intro t ranges
  have hordered : Range.Ordered ranges.toList := ⟨by decide, by decide⟩
  have hkept := @protected_line_kept {} ranges t "::: {.n}".toList ⟨0, 14⟩ 1 3 hordered
    (List.mem_singleton.mpr rfl) (by decide) (by decide) (by decide)
  exact ⟨hkept.1.trans (by decide), hkept.2.2.1⟩

end DirectiveFences.Convert
