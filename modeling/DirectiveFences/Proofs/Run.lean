/-
A run of the conversion, line by line.

`Convert.steps` carries the offset and the state along.  Here the offsets are taken
apart from the states: `sites` are the lines with the places where they stand, known
before the run begins, and `stateAt` is the state that line `i` meets.  The kinds of the
lines of a run need no state but whether a math block is open.
-/
import DirectiveFences.Proofs.Kinds
import DirectiveFences.Proofs.LineStarts

namespace DirectiveFences.Convert

open Text

/-- The lines of a text from an offset on, each where it stands. -/
def sites (ranges : Array Range) : Nat → List (List Char) → List Site
  | _, [] => []
  | offset, raw :: raws =>
    ⟨offset, Line.ofList raw, ranges⟩ :: sites ranges (offset + raw.length + 1) raws

/-- The lines of a text, each where it stands. -/
def sitesOf (ranges : Array Range) (t : List Char) : List Site :=
  sites ranges 0 (split t)

/-- The steps of a run over some lines. -/
def trace (toggles : Toggles) : State → List Site → List Step
  | _, [] => []
  | st, s :: ss => step toggles s st :: trace toggles (step toggles s st).state ss

/-- The state after some lines. -/
def after (toggles : Toggles) (st : State) (ss : List Site) : State :=
  ss.foldl (fun st s => (step toggles s st).state) st

/-- The state that line `i` of a text meets. -/
def stateAt (toggles : Toggles) (ranges : Array Range) (t : List Char) (i : Nat) : State :=
  after toggles {} ((sitesOf ranges t).take i)

/-! ## Lines and their places -/

theorem getElem?_sites (ranges : Array Range) (offset : Nat) (raws : List (List Char)) (i : Nat) :
    (sites ranges offset raws)[i]? =
      raws[i]?.map fun raw => ⟨offset + lineStart raws i, Line.ofList raw, ranges⟩ := by
  induction raws generalizing offset i with
  | nil => rfl
  | cons raw raws ih =>
      cases i with
      | zero => simp [sites]
      | succ i =>
          simp only [sites, List.getElem?_cons_succ, ih, lineStart_cons_succ]
          congr 2
          funext l
          rw [show offset + raw.length + 1 + lineStart raws i
            = offset + (raw.length + 1 + lineStart raws i) by omega]

theorem length_sites (ranges : Array Range) (offset : Nat) (raws : List (List Char)) :
    (sites ranges offset raws).length = raws.length := by
  induction raws generalizing offset with
  | nil => rfl
  | cons raw raws ih => simp [sites, ih]

@[simp] theorem length_sitesOf (ranges : Array Range) (t : List Char) :
    (sitesOf ranges t).length = (split t).length :=
  length_sites ranges 0 _

theorem getElem?_sitesOf (ranges : Array Range) (t : List Char) (i : Nat) :
    (sitesOf ranges t)[i]? = (split t)[i]?.map fun raw =>
      ⟨lineStart (split t) i, Line.ofList raw, ranges⟩ := by
  simp [sitesOf, getElem?_sites]

/-- Each line of a text is a line of its run. -/
theorem exists_site (ranges : Array Range) {t : List Char} {i : Nat} (hi : i < (split t).length) :
    ∃ s, (sitesOf ranges t)[i]? = some s :=
  ⟨_, List.getElem?_eq_getElem (by rwa [length_sitesOf])⟩

/-- A line of a run is a line of the text, at its place. -/
theorem split_of_site {ranges : Array Range} {t : List Char} {i : Nat} {s : Site}
    (hs : (sitesOf ranges t)[i]? = some s) :
    (split t)[i]? = some s.line.toList ∧ s.offset = lineStart (split t) i := by
  rw [getElem?_sitesOf] at hs
  obtain ⟨raw, hraw, rfl⟩ := Option.map_eq_some_iff.mp hs
  exact ⟨hraw.trans (congrArg some (Line.toList_ofList raw).symm), rfl⟩

theorem map_line_sites (ranges : Array Range) (offset : Nat) (raws : List (List Char)) :
    (sites ranges offset raws).map (·.line) = raws.map Line.ofList := by
  induction raws generalizing offset with
  | nil => rfl
  | cons raw raws ih => rw [sites, List.map_cons, ih, List.map_cons]

theorem toList_mem_split {ranges : Array Range} {t : List Char} {s : Site}
    (h : s ∈ sitesOf ranges t) : s.line.toList ∈ split t := by
  obtain ⟨i, hi⟩ := List.mem_iff_getElem?.mp h
  exact List.mem_of_getElem? (split_of_site hi).1

/-! ## Steps and states -/

theorem steps_eq_trace (toggles : Toggles) (ranges : Array Range) (offset : Nat) (st : State)
    (raws : List (List Char)) :
    steps toggles ranges offset st raws = trace toggles st (sites ranges offset raws) := by
  induction raws generalizing offset st with
  | nil => rfl
  | cons raw raws ih => simp only [steps, sites, trace, ih]

@[simp] theorem after_nil (toggles : Toggles) (st : State) : after toggles st [] = st := rfl

@[simp] theorem after_cons (toggles : Toggles) (st : State) (s : Site) (ss : List Site) :
    after toggles st (s :: ss) = after toggles (step toggles s st).state ss := rfl

theorem after_append (toggles : Toggles) (st : State) (ss ss' : List Site) :
    after toggles st (ss ++ ss') = after toggles (after toggles st ss) ss' :=
  List.foldl_append

theorem lastState_cons (st : State) (r : Step) (rs : List Step) :
    lastState st (r :: rs) = lastState r.state rs := by
  simp only [lastState, List.getLast?_cons]
  cases rs.getLast? <;> rfl

theorem lastState_trace (toggles : Toggles) (st : State) (ss : List Site) :
    lastState st (trace toggles st ss) = after toggles st ss := by
  induction ss generalizing st with
  | nil => rfl
  | cons s ss ih => rw [trace, lastState_cons, ih, after_cons]

theorem length_trace (toggles : Toggles) (st : State) (ss : List Site) :
    (trace toggles st ss).length = ss.length := by
  induction ss generalizing st with
  | nil => rfl
  | cons s ss ih => rw [trace, List.length_cons, List.length_cons, ih]

theorem getElem?_trace (toggles : Toggles) (st : State) (ss : List Site) (i : Nat) :
    (trace toggles st ss)[i]? =
      ss[i]?.map fun s => step toggles s (after toggles st (ss.take i)) := by
  induction ss generalizing st i with
  | nil => rfl
  | cons s ss ih =>
      cases i with
      | zero => rfl
      | succ i => simp [trace, ih]

theorem lines_eq_trace (toggles : Toggles) (ranges : Array Range) (t : List Char) :
    lines toggles ranges t = (trace toggles {} (sitesOf ranges t)).flatMap (·.lines) ++
      flush (after toggles {} (sitesOf ranges t)) := by
  rw [← lastState_trace, sitesOf, ← steps_eq_trace]
  rfl

theorem notes_eq_trace (toggles : Toggles) (ranges : Array Range) (t : List Char) :
    notes toggles ranges t = (trace toggles {} (sitesOf ranges t)).flatMap (·.notes) ++
      flushNotes (after toggles {} (sitesOf ranges t)) := by
  rw [← lastState_trace, sitesOf, ← steps_eq_trace]
  rfl

@[simp] theorem stateAt_zero (toggles : Toggles) (ranges : Array Range) (t : List Char) :
    stateAt toggles ranges t 0 = {} := by
  simp [stateAt]

theorem stateAt_succ {toggles : Toggles} {ranges : Array Range} {t : List Char} {i : Nat}
    {s : Site} (hs : (sitesOf ranges t)[i]? = some s) :
    stateAt toggles ranges t (i + 1) = (step toggles s (stateAt toggles ranges t i)).state := by
  simp [stateAt, List.take_add_one, hs, after_append]

theorem stateAt_length (toggles : Toggles) (ranges : Array Range) (t : List Char) :
    stateAt toggles ranges t (split t).length = after toggles {} (sitesOf ranges t) := by
  rw [stateAt, ← length_sitesOf ranges t, List.take_length]

/-! ## Kinds -/

/-- Whether a math block is open after a line of a kind. -/
def Kind.mathAfter (inMath : Bool) : Kind → Bool
  | .mathOpen => true
  | .mathClose _ => false
  | _ => inMath

/-- The kinds of the lines of a run. -/
def kinds (toggles : Toggles) : Bool → List Site → List Kind
  | _, [] => []
  | inMath, s :: ss =>
    let k := kind toggles s inMath
    k :: kinds toggles (k.mathAfter inMath) ss

/-- The kinds of the lines of a text. -/
def kindsOf (toggles : Toggles) (ranges : Array Range) (t : List Char) : List Kind :=
  kinds toggles false (sitesOf ranges t)

theorem act_inMath (s : Site) (st : State) (k : Kind) :
    (k.act s st).state.inMath = k.mathAfter st.inMath := by
  cases k <;> rfl

theorem step_inMath (toggles : Toggles) (s : Site) (st : State) :
    (step toggles s st).state.inMath = (kind toggles s st.inMath).mathAfter st.inMath := by
  rw [step_eq_act, act_inMath]

theorem getElem?_kinds (toggles : Toggles) (st : State) (ss : List Site) (i : Nat) :
    (kinds toggles st.inMath ss)[i]? =
      ss[i]?.map fun s => kind toggles s (after toggles st (ss.take i)).inMath := by
  induction ss generalizing st i with
  | nil => rfl
  | cons s ss ih =>
      cases i with
      | zero => rfl
      | succ i => simp [kinds, ← step_inMath, ih]

theorem length_kinds (toggles : Toggles) (inMath : Bool) (ss : List Site) :
    (kinds toggles inMath ss).length = ss.length := by
  induction ss generalizing inMath with
  | nil => rfl
  | cons s ss ih => simp [kinds, ih]

@[simp] theorem length_kindsOf (toggles : Toggles) (ranges : Array Range) (t : List Char) :
    (kindsOf toggles ranges t).length = (split t).length := by
  rw [kindsOf, length_kinds, length_sitesOf]

/-- The kind of a line in a run is the one that its step acts out. -/
theorem getElem?_kindsOf (toggles : Toggles) {ranges : Array Range} {t : List Char} {i : Nat}
    {s : Site} (hs : (sitesOf ranges t)[i]? = some s) :
    (kindsOf toggles ranges t)[i]? =
      some (kind toggles s (stateAt toggles ranges t i).inMath) := by
  have h := getElem?_kinds toggles {} (sitesOf ranges t) i
  rw [hs] at h
  exact h

/-- The line that has a kind. -/
theorem site_of_kind {toggles : Toggles} {ranges : Array Range} {t : List Char} {i : Nat} {k : Kind}
    (hk : (kindsOf toggles ranges t)[i]? = some k) :
    ∃ s, (sitesOf ranges t)[i]? = some s ∧
      kind toggles s (stateAt toggles ranges t i).inMath = k ∧ i < (split t).length := by
  have hi : i < (split t).length := by
    rw [← length_kindsOf toggles ranges t]
    exact (List.getElem?_eq_some_iff.mp hk).1
  obtain ⟨s, hs⟩ := exists_site ranges hi
  exact ⟨s, hs, Option.some.inj ((getElem?_kindsOf toggles hs).symm.trans hk), hi⟩

end DirectiveFences.Convert
