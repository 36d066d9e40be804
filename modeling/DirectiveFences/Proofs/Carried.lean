/-
Where the characters of a text go.

A character of a line that is kept goes to the line that stands for it.  On a line that is
rewritten only the characters of its parts go anywhere: those of the content to the group of
the line, and those of a label to the group of the line that heads the directive.  For the
closing line of a math block this is the opener, so a label is written before the lines that
stand before it in the source.  `Goes` says where a character goes, as a column of a line of a
group; among characters that go somewhere, only a label and what it is written before
change places (`Goes.before`, `Goes.after`).

A double quote in a shortcode goes nowhere: what is written for it is another text.
-/
import DirectiveFences.Proofs.Inert
import DirectiveFences.Proofs.Parts

namespace DirectiveFences

namespace Convert

open Text Shape

/-! ## Places in the groups -/

/-- The number of the first line that stands for line `i` of the source. -/
def groupStart (gs : List (List (List Char))) (i : Nat) : Nat :=
  (gs.take i).flatten.length

/-- A place in the output: a column of one of the lines that stand for a line of the source. -/
structure Spot where
  group : Nat
  line : Nat
  column : Nat
deriving DecidableEq, Repr

/-- The offset of a place. -/
def Spot.offset (gs : List (List (List Char))) (p : Spot) : Nat :=
  lineStart gs.flatten (groupStart gs p.group + p.line) + p.column

/-- The place is on the given line. -/
def Spot.On (gs : List (List (List Char))) (p : Spot) (l : List Char) : Prop :=
  ∃ g, gs[p.group]? = some g ∧ g[p.line]? = some l ∧ p.column ≤ l.length

/-- The order of places: by group, then by line, then by column. -/
def Spot.Before (p q : Spot) : Prop :=
  p.group < q.group ∨
    p.group = q.group ∧ (p.line < q.line ∨ p.line = q.line ∧ p.column < q.column)

section

variable {gs : List (List (List Char))} {i j d : Nat} {g : List (List Char)} {p q : Spot}
  {l : List Char}

theorem groupStart_succ (hg : gs[i]? = some g) :
    groupStart gs (i + 1) = groupStart gs i + g.length := by
  simp [groupStart, List.take_add_one, hg]

theorem groupStart_mono (gs : List (List (List Char))) (hij : i ≤ j) :
    groupStart gs i ≤ groupStart gs j := by
  obtain ⟨d, rfl⟩ := Nat.exists_eq_add_of_le hij
  rw [groupStart, groupStart, List.take_add, List.flatten_append, List.length_append]
  exact Nat.le_add_right _ _

theorem getElem?_flatten (hg : gs[i]? = some g) (hd : d < g.length) :
    gs.flatten[groupStart gs i + d]? = g[d]? := by
  have hsplit : gs.flatten = (gs.take i).flatten ++ (g ++ (gs.drop (i + 1)).flatten) := by
    conv => lhs; rw [← List.take_append_drop i gs]
    rw [List.flatten_append, List.drop_eq_getElem?_toList_append, hg, Option.toList_some,
      List.singleton_append, List.flatten_cons]
  rw [hsplit, groupStart, List.getElem?_append_right (Nat.le_add_right ..),
    Nat.add_sub_cancel_left, List.getElem?_append_left hd]

theorem Spot.On.getElem?_line (hp : p.On gs l) :
    gs.flatten[groupStart gs p.group + p.line]? = some l := by
  obtain ⟨g, hg, hl, -⟩ := hp
  rw [getElem?_flatten hg (List.getElem?_eq_some_iff.mp hl).1, hl]

theorem Spot.On.getElem? (hp : p.On gs l) (hc : p.column < l.length) :
    (join gs.flatten)[p.offset gs]? = l[p.column]? := by
  obtain ⟨hlt, rfl⟩ := List.getElem?_eq_some_iff.mp hp.getElem?_line
  rw [Spot.offset, getElem?_join_lineStart_add hlt hc, List.getElem?_eq_getElem hc]

theorem Spot.offset_lt (hp : p.On gs l) (h : p.Before q) :
    p.offset gs < q.offset gs := by
  obtain ⟨hlt, hl⟩ := List.getElem?_eq_some_iff.mp hp.getElem?_line
  obtain ⟨g, hg, hline, hcolumn⟩ := hp
  have hlater : ∀ n, groupStart gs p.group + p.line < n →
      p.offset gs < lineStart gs.flatten n := by
    intro n hn
    have hend := lineStart_add_length_lt hn hlt
    rw [hl] at hend
    rw [Spot.offset]
    omega
  have hfits := (List.getElem?_eq_some_iff.mp hline).1
  rcases h with hgroup | ⟨hgroup, hline' | ⟨hline', hcol⟩⟩
  · have hsucc := groupStart_succ hg
    have hmono := groupStart_mono gs (show p.group + 1 ≤ q.group from hgroup)
    have := hlater (groupStart gs q.group + q.line) (by omega)
    exact Nat.lt_of_lt_of_le this (Nat.le_add_right ..)
  · have := hlater (groupStart gs q.group + q.line) (by rw [hgroup]; omega)
    exact Nat.lt_of_lt_of_le this (Nat.le_add_right ..)
  · rw [Spot.offset, Spot.offset, hgroup, hline']
    omega

end

/-! ## Heads of directives -/

/-- The run meets line `i` as the given line, which is of the given kind. -/
structure Met (toggles : Toggles) (ranges : Array Range) (t : List Char) (i : Nat) (s : Site)
    (k : Kind) : Prop where
  site : (sitesOf ranges t)[i]? = some s
  kind : (kindsOf toggles ranges t)[i]? = some k

/-- The math block that is open before line `i` was opened by line `o`. -/
structure OpenFrom (toggles : Toggles) (ranges : Array Range) (t : List Char) (o i : Nat) :
    Prop where
  lt : o < i
  opener : (kindsOf toggles ranges t)[o]? = some .mathOpen
  inside : ∀ j, o < j → j < i → (kindsOf toggles ranges t)[j]? = some .inMath

/-- Line `h` is the one for which the opening fence with the label of line `j` is written: a
formula itself, and the opener of the math block that line `j` closes. -/
inductive Heads (toggles : Toggles) (ranges : Array Range) (t : List Char) (h : Nat) : Nat → Prop
  | formula {content label : List Char} :
      (kindsOf toggles ranges t)[h]? = some (.formula content label) →
      Heads toggles ranges t h h
  | block {j : Nat} {label : List Char} :
      OpenFrom toggles ranges t h j → (kindsOf toggles ranges t)[j]? = some (.mathClose label) →
      Heads toggles ranges t h j

/-- A line that is written as it stands: no rule rewrites it, or it is in a math block, or it opens
one that nothing closes. -/
def Kept (toggles : Toggles) (ranges : Array Range) (t : List Char) (i : Nat) : Prop :=
  (kindsOf toggles ranges t)[i]? = some .plain ∨ (kindsOf toggles ranges t)[i]? = some .inMath ∨
    (kindsOf toggles ranges t)[i]? = some .mathOpen ∧
      ∀ j k, i < j → (kindsOf toggles ranges t)[j]? = some k → k.closesMath = false

section

variable {toggles : Toggles} {ranges : Array Range} {t : List Char} {i j h h' o o' : Nat}
  {s : Site} {k : Kind} {p : Part}

theorem Met.kind_eq (hmet : Met toggles ranges t i s k) :
    Convert.kind toggles s (stateAt toggles ranges t i).inMath = k :=
  Option.some.inj ((getElem?_kindsOf toggles hmet.site).symm.trans hmet.kind)

theorem Met.raw (hmet : Met toggles ranges t i s k) : (split t)[i]? = some s.line.toList :=
  (split_of_site hmet.site).1

theorem Met.offset (hmet : Met toggles ranges t i s k) : s.offset = lineStart (split t) i :=
  (split_of_site hmet.site).2

theorem Met.site_eq (hmet : Met toggles ranges t i s k) :
    s = ⟨lineStart (split t) i, Line.ofList s.line.toList, ranges⟩ := by
  have hsite := hmet.site
  rw [getElem?_sitesOf] at hsite
  obtain ⟨raw, -, rfl⟩ := Option.map_eq_some_iff.mp hsite
  rw [Line.toList_ofList]

theorem Met.group (hmet : Met toggles ranges t i s k) :
    (groupsOf toggles ranges t)[i]? = some (k.group toggles s (stateAt toggles ranges t i)
      ((sitesOf ranges t).drop (i + 1))) := by
  rw [getElem?_groupsOf hmet.site, hmet.kind_eq]

theorem met_of_kind (hk : (kindsOf toggles ranges t)[i]? = some k) :
    ∃ s, Met toggles ranges t i s k := by
  obtain ⟨s, hs, -⟩ := site_of_kind hk
  exact ⟨s, hs, hk⟩

theorem exists_met (toggles : Toggles) (ranges : Array Range) (hi : i < (split t).length) :
    ∃ s k, Met toggles ranges t i s k := by
  obtain ⟨s, hs⟩ := exists_site ranges hi
  exact ⟨s, _, hs, getElem?_kindsOf toggles hs⟩

theorem exists_openFrom (hi : i ≤ (split t).length)
    (hin : (stateAt toggles ranges t i).inMath = true) : ∃ o, OpenFrom toggles ranges t o i := by
  induction i with
  | zero =>
      rw [stateAt_zero] at hin
      cases hin
  | succ i ih =>
      obtain ⟨s, k, hmet⟩ := exists_met toggles ranges (show i < (split t).length from hi)
      have hkind := hmet.kind_eq
      rw [stateAt_succ hmet.site, step_inMath, hkind] at hin
      cases hm : (stateAt toggles ranges t i).inMath with
      | true =>
          rw [hm] at hkind hin
          rcases kind_true toggles s with hk | ⟨label, hk⟩
          · obtain ⟨o, ho⟩ := ih (Nat.le_of_succ_le hi) hm
            refine ⟨o, Nat.lt_succ_of_lt ho.lt, ho.opener, fun j hoj hji => ?_⟩
            rcases Nat.lt_or_eq_of_le (Nat.le_of_lt_succ hji) with hlt | rfl
            · exact ho.inside j hoj hlt
            · rw [hmet.kind, ← hkind, hk]
          · rw [← hkind, hk] at hin
            cases hin
      | false =>
          rw [hm] at hkind hin
          refine ⟨i, Nat.lt_succ_self i, ?_, fun j hij hji => by omega⟩
          rw [hmet.kind]
          cases k with
          | mathOpen => rfl
          | mathClose => cases hin
          | plain | inMath | formula | shortcode | divClose | divOpen => cases hin

theorem OpenFrom.unique (ho : OpenFrom toggles ranges t o i)
    (ho' : OpenFrom toggles ranges t o' i) : o = o' := by
  have hnot : ∀ {a b : Nat}, OpenFrom toggles ranges t a i → OpenFrom toggles ranges t b i →
      ¬ a < b := by
    intro a b ha hb hlt
    have hinside := ha.inside b hlt hb.lt
    rw [hb.opener] at hinside
    cases hinside
  exact Nat.le_antisymm (Nat.le_of_not_lt (hnot ho' ho)) (Nat.le_of_not_lt (hnot ho ho'))

theorem Heads.le (hh : Heads toggles ranges t h j) : h ≤ j := by
  cases hh with
  | formula => exact Nat.le_refl _
  | block ho => exact Nat.le_of_lt ho.lt

theorem Heads.unique (hh : Heads toggles ranges t h j) (hh' : Heads toggles ranges t h' j) :
    h = h' := by
  cases hh with
  | formula hk =>
      cases hh' with
      | formula => rfl
      | block ho' hk' =>
          rw [hk] at hk'
          cases hk'
  | block ho hk =>
      cases hh' with
      | formula hk' =>
          rw [hk] at hk'
          cases hk'
      | block ho' => exact ho.unique ho'

/-- A directive ends before the head of a later one. -/
theorem Heads.apart {j' : Nat} (hh : Heads toggles ranges t h j)
    (hh' : Heads toggles ranges t h' j') (hlt : j < j') : j < h' := by
  have hkind : ∃ k, (kindsOf toggles ranges t)[j]? = some k ∧ k ≠ .mathOpen ∧ k ≠ .inMath := by
    cases hh with
    | formula hk => exact ⟨_, hk, nofun, nofun⟩
    | block _ hk => exact ⟨_, hk, nofun, nofun⟩
  obtain ⟨k, hk, hopen, hin⟩ := hkind
  cases hh' with
  | formula => exact hlt
  | block ho' =>
      refine Nat.lt_of_not_le fun hle => ?_
      rcases Nat.lt_or_eq_of_le hle with hlt' | rfl
      · exact hin (Option.some.inj (hk.symm.trans (ho'.inside j hlt' hlt)))
      · exact hopen (Option.some.inj (hk.symm.trans ho'.opener))

theorem exists_heads (hmet : Met toggles ranges t i s k)
    (hp : k.label? s.line.body = some p) : ∃ h, Heads toggles ranges t h i := by
  have hfits := fits_of_kind_eq hmet.kind_eq
  cases k with
  | formula content label => exact ⟨i, .formula hmet.kind⟩
  | mathClose label =>
      have hi : i < (split t).length := by
        rw [← length_sitesOf ranges t]
        exact (List.getElem?_eq_some_iff.mp hmet.site).1
      obtain ⟨o, ho⟩ := exists_openFrom (Nat.le_of_lt hi) hfits.1
      exact ⟨o, .block ho hmet.kind⟩
  | plain | inMath | mathOpen | shortcode | divClose | divOpen => cases hp

theorem closing?_eq_some {ss : List Site} {m : Nat} {label : List Char} (hs : ss[m]? = some s)
    (hclose : (kinds toggles true ss)[m]? = some (.mathClose label))
    (hinside : ∀ j < m, (kinds toggles true ss)[j]? = some .inMath) :
    closing? toggles ss = some (s.ended (labelBefore ++ label)) := by
  induction ss generalizing m with
  | nil => cases hs
  | cons s' ss ih =>
      cases m with
      | zero =>
          obtain rfl := Option.some.inj hs
          have hk : Convert.kind toggles s' true = .mathClose label := Option.some.inj hclose
          rw [closing?, hk]
          rfl
      | succ m =>
          have hk : Convert.kind toggles s' true = .inMath :=
            Option.some.inj (hinside 0 (Nat.succ_pos m))
          have htail : kinds toggles true (s' :: ss) = .inMath :: kinds toggles true ss := by
            rw [kinds, hk]
            rfl
          rw [htail] at hclose hinside
          rw [closing?, hk]
          exact ih hs hclose fun j hj => hinside (j + 1) (Nat.succ_lt_succ hj)

theorem group_head (hmet : Met toggles ranges t j s k) (hp : k.label? s.line.body = some p)
    (hh : Heads toggles ranges t h j) :
    ∃ g, (groupsOf toggles ranges t)[h]? = some g ∧
      g[0]? = some (labelBefore ++ (p.text ++ s.line.ending)) := by
  cases hh with
  | @formula content label hk =>
      obtain rfl := Option.some.inj (hk.symm.trans hmet.kind)
      obtain rfl := Option.some.inj hp
      refine ⟨_, hmet.group, ?_⟩
      rw [← List.append_assoc]
      rfl
  | @block _ label ho hk =>
      obtain rfl := Option.some.inj (hk.symm.trans hmet.kind)
      obtain rfl := Option.some.inj hp
      obtain ⟨so, hopener⟩ := met_of_kind ho.opener
      have hin : (stateAt toggles ranges t (h + 1)).inMath = true := by
        rw [stateAt_succ hopener.site, step_inMath, hopener.kind_eq]
        rfl
      have hkinds : ∀ n, (kinds toggles true ((sitesOf ranges t).drop (h + 1)))[n]? =
          (kindsOf toggles ranges t)[h + 1 + n]? := by
        intro n
        rw [← hin, ← drop_kindsOf, List.getElem?_drop]
      have hlt := ho.lt
      have hj : h + 1 + (j - (h + 1)) = j := by omega
      have hclosing : closing? toggles ((sitesOf ranges t).drop (h + 1)) =
          some (s.ended (labelBefore ++ label)) := by
        refine closing?_eq_some (m := j - (h + 1)) ?_ ?_ fun n hn => ?_
        · rw [List.getElem?_drop, hj, hmet.site]
        · rw [hkinds, hj, hk]
        · rw [hkinds]
          exact ho.inside _ (by omega) (by omega)
      refine ⟨_, hopener.group, ?_⟩
      rw [Kind.group, hclosing, ← List.append_assoc]
      rfl

/-! ## Lines that are kept -/

theorem Kept.group (hmet : Met toggles ranges t i s k) (hkept : Kept toggles ranges t i) :
    (groupsOf toggles ranges t)[i]? = some [s.line.toList] := by
  rcases hkept with hk | hk | ⟨hk, hopen⟩
  · exact group_of_kept hmet.site (Or.inl hk)
  · exact group_of_kept hmet.site (Or.inr hk)
  · exact group_of_mathOpen hmet.site hk hopen

theorem Kept.no_parts (hmet : Met toggles ranges t i s k) (hkept : Kept toggles ranges t i)
    (body : List Char) : k.content? body = none ∧ k.label? body = none := by
  rcases hkept with hk | hk | ⟨hk, -⟩ <;>
  · obtain rfl := Option.some.inj (hk.symm.trans hmet.kind)
    exact ⟨rfl, rfl⟩

theorem Heads.not_kept (hh : Heads toggles ranges t h j) : ¬ Kept toggles ranges t h := by
  intro hkept
  cases hh with
  | formula hk =>
      rcases hkept with hk' | hk' | ⟨hk', -⟩ <;>
      · rw [hk] at hk'
        cases hk'
  | block ho hk =>
      rcases hkept with hk' | hk' | ⟨-, hopen⟩
      · rw [ho.opener] at hk'
        cases hk'
      · rw [ho.opener] at hk'
        cases hk'
      · exact Bool.noConfusion (hopen j _ ho.lt hk)

/-! ## Where a character goes -/

/-- The column to which the character of a line's content goes that stands at column `c`. -/
def Kind.contentColumn (k : Kind) (st : State) (p : Part) (c : Nat) : Nat :=
  (k.contentBefore (fenceLength st.fences.length)).length +
    ((p.text.take (c - p.column)).flatMap k.spell).length

/-- A character of the text, given by its line and its column, goes to a place in the output. -/
inductive Goes (toggles : Toggles) (ranges : Array Range) (t : List Char) : Nat → Nat → Spot → Prop
  /-- A character of a line that is kept, or the line feed behind it. -/
  | kept {i c : Nat} {s : Site} {k : Kind} : Met toggles ranges t i s k →
      Kept toggles ranges t i → c ≤ s.line.toList.length → Goes toggles ranges t i c ⟨i, 0, c⟩
  /-- A character of the content of a line, which is not spelled in another way. -/
  | content {i c : Nat} {s : Site} {k : Kind} {p : Part} {x : Char} : Met toggles ranges t i s k →
      k.content? s.line.body = some p → p.column ≤ c → p.text[c - p.column]? = some x →
      k.spell x = [x] →
      Goes toggles ranges t i c
        ⟨i, k.contentLine, k.contentColumn (stateAt toggles ranges t i) p c⟩
  /-- A character of the label of a line. -/
  | label {i c h : Nat} {s : Site} {k : Kind} {p : Part} : Met toggles ranges t i s k →
      k.label? s.line.body = some p → Heads toggles ranges t h i → p.column ≤ c → c < p.stop →
      Goes toggles ranges t i c ⟨h, 0, labelBefore.length + (c - p.column)⟩

/-- Offset `x'` lies in the label of a directive, and `x` in the lines that the directive stands
for, before the label. -/
def Labels (toggles : Toggles) (ranges : Array Range) (t : List Char) (x x' : Nat) : Prop :=
  ∃ h j s k p, Met toggles ranges t j s k ∧ k.label? s.line.body = some p ∧
    Heads toggles ranges t h j ∧
    lineStart (split t) j + p.column ≤ x' ∧ x' < lineStart (split t) j + p.stop ∧
    lineStart (split t) h ≤ x ∧ x < lineStart (split t) j + p.column

variable {c c' i' : Nat} {s' : Site} {k' : Kind} {q q' : Spot}

theorem Met.unique (hmet : Met toggles ranges t i s k) (hmet' : Met toggles ranges t i s' k') :
    s = s' ∧ k = k' :=
  ⟨Option.some.inj (hmet.site.symm.trans hmet'.site),
    Option.some.inj (hmet.kind.symm.trans hmet'.kind)⟩

theorem Part.In.stop_le_toList (hp : p.In s.line.body) : p.stop ≤ s.line.toList.length := by
  have := hp.stop_le
  rw [Line.toList, List.length_append]
  omega

theorem Met.lt_lineStart (hmet : Met toggles ranges t i s k) (hc : c ≤ s.line.toList.length)
    (hij : i < j) : lineStart (split t) i + c < lineStart (split t) j := by
  obtain ⟨hi, hraw⟩ := List.getElem?_eq_some_iff.mp hmet.raw
  have := lineStart_add_length_lt hij hi
  rw [hraw] at this
  omega

theorem Met.line_le (hmet : Met toggles ranges t i s k) (hc : c ≤ s.line.toList.length)
    (hle : lineStart (split t) j ≤ lineStart (split t) i + c) : j ≤ i :=
  Nat.le_of_not_lt fun hij => Nat.not_lt_of_le hle (hmet.lt_lineStart hc hij)

theorem Kind.spell_ne_nil (k : Kind) (x : Char) : k.spell x ≠ [] := by
  cases k with
  | shortcode code =>
      show (if x = '"' then ['\\', '"'] else [x]) ≠ []
      split <;> exact List.cons_ne_nil _ _
  | plain | inMath | mathClose | mathOpen | formula | divClose | divOpen =>
      exact List.cons_ne_nil _ _

theorem length_flatMap_take_lt {f : Char → List Char} (hf : ∀ x, f x ≠ []) {cs : List Char}
    {m n : Nat} (hmn : m < n) (hm : m < cs.length) :
    ((cs.take m).flatMap f).length < ((cs.take n).flatMap f).length := by
  obtain ⟨d, rfl⟩ := Nat.exists_eq_add_of_lt hmn
  have hpos := List.length_pos_iff.mpr (hf cs[m])
  rw [Nat.add_assoc, List.take_add, List.drop_eq_getElem_cons hm, List.take_succ_cons,
    List.flatMap_append, List.flatMap_cons, List.length_append, List.length_append]
  omega

theorem Part.lt_stop {n : Nat} {x : Char} (hle : p.column ≤ n)
    (hx : p.text[n - p.column]? = some x) : n < p.stop := by
  have := (List.getElem?_eq_some_iff.mp hx).1
  rw [Part.stop]
  omega

theorem Met.part_in (hmet : Met toggles ranges t i s k)
    (hp : k.content? s.line.body = some p ∨ k.label? s.line.body = some p) : p.In s.line.body := by
  rcases hp with hp | hp
  · exact content?_in hmet.kind_eq hp
  · exact label?_in hmet.kind_eq hp

/-- A character that goes somewhere stands on a line of the text. -/
theorem Goes.met (h : Goes toggles ranges t i c q) :
    ∃ s k, Met toggles ranges t i s k ∧ c ≤ s.line.toList.length := by
  cases h with
  | @kept s k hmet hkept hc => exact ⟨s, k, hmet, hc⟩
  | @content s k p x hmet hp hle hx hspell =>
      have hstop := (hmet.part_in (Or.inl hp)).stop_le_toList
      exact ⟨s, k, hmet, Nat.le_of_lt (Nat.lt_of_lt_of_le (Part.lt_stop hle hx) hstop)⟩
  | @label h s k p hmet hp hh hle hlt =>
      have hstop := (hmet.part_in (Or.inr hp)).stop_le_toList
      exact ⟨s, k, hmet, Nat.le_of_lt (Nat.lt_of_lt_of_le hlt hstop)⟩

theorem Goes.kept_or_part (h : Goes toggles ranges t i c q) (hmet : Met toggles ranges t i s k) :
    Kept toggles ranges t i ∨
      (∃ p x, k.content? s.line.body = some p ∧ p.column ≤ c ∧ p.text[c - p.column]? = some x ∧
        k.spell x = [x]) ∨
      ∃ p, k.label? s.line.body = some p ∧ p.column ≤ c ∧ c < p.stop := by
  cases h with
  | kept _ hkept => exact Or.inl hkept
  | content hmet' hp hle hx hspell =>
      obtain ⟨rfl, rfl⟩ := hmet.unique hmet'
      exact Or.inr (Or.inl ⟨_, _, hp, hle, hx, hspell⟩)
  | label hmet' hp _ hle hlt =>
      obtain ⟨rfl, rfl⟩ := hmet.unique hmet'
      exact Or.inr (Or.inr ⟨_, hp, hle, hlt⟩)

theorem content_line (hmet : Met toggles ranges t i s k) (hp : k.content? s.line.body = some p) :
    ∃ g back, (groupsOf toggles ranges t)[i]? = some g ∧ g[k.contentLine]? =
      some (k.contentBefore (fenceLength (stateAt toggles ranges t i).fences.length) ++
        (p.text.flatMap k.spell ++ back)) := by
  obtain ⟨back, hline⟩ := group_content toggles s (stateAt toggles ranges t i)
    ((sitesOf ranges t).drop (i + 1)) hp
  exact ⟨_, back, hmet.group, hline⟩

/-- What is spelled of a text is what is spelled of its beginning, of the next character, and of
the rest. -/
theorem flatMap_split (f : Char → List Char) {cs : List Char} {m : Nat} {x : Char}
    (hx : cs[m]? = some x) :
    cs.flatMap f = (cs.take m).flatMap f ++ (f x ++ (cs.drop (m + 1)).flatMap f) := by
  conv => lhs; rw [← List.take_append_drop m cs]
  rw [List.flatMap_append, List.drop_eq_getElem?_toList_append, hx, Option.toList_some,
    List.singleton_append, List.flatMap_cons]

/-- The place of a character is there. -/
theorem Goes.on (h : Goes toggles ranges t i c q) :
    ∃ l, q.On (groupsOf toggles ranges t) l := by
  cases h with
  | kept hmet hkept hc => exact ⟨_, _, hkept.group hmet, rfl, hc⟩
  | @content s k p x hmet hp hle hx hspell =>
      obtain ⟨g, back, hg, hline⟩ := content_line hmet hp
      refine ⟨_, g, hg, hline, ?_⟩
      show k.contentColumn (stateAt toggles ranges t i) p c ≤ _
      rw [flatMap_split k.spell hx, Kind.contentColumn]
      simp only [List.length_append]
      omega
  | @label h s k p hmet hp hh hle hlt =>
      obtain ⟨g, hg, hline⟩ := group_head hmet hp hh
      refine ⟨_, g, hg, hline, ?_⟩
      show labelBefore.length + (c - p.column) ≤ _
      rw [Part.stop] at hlt
      simp only [List.length_append]
      omega

theorem text_eq_join (toggles : Toggles) (ranges : Array Range) (t : List Char) :
    text toggles ranges t = join (groupsOf toggles ranges t).flatten := by
  rw [text, lines_eq_groups]

theorem Met.getElem? (hmet : Met toggles ranges t i s k) (hc : c < s.line.toList.length) :
    t[lineStart (split t) i + c]? = s.line.toList[c]? := by
  obtain ⟨hi, hraw⟩ := List.getElem?_eq_some_iff.mp hmet.raw
  have h := getElem?_join_lineStart_add hi (k := c) (by rwa [hraw])
  rw [join_split] at h
  simp only [hraw] at h
  rw [h, List.getElem?_eq_getElem hc]

theorem Part.In.getElem?_toList (hp : p.In s.line.body) (hle : p.column ≤ c) (hlt : c < p.stop) :
    s.line.toList[c]? = p.text[c - p.column]? := by
  rw [Line.toList, List.getElem?_append_left (Nat.lt_of_lt_of_le hlt hp.stop_le),
    hp.getElem? hle hlt]

theorem Met.getElem?_lineFeed (hmet : Met toggles ranges t i s k)
    (hlt : lineStart (split t) i + s.line.toList.length < t.length) :
    i + 1 < (split t).length ∧ t[lineStart (split t) i + s.line.toList.length]? = some '\n' := by
  obtain ⟨hi, hraw⟩ := List.getElem?_eq_some_iff.mp hmet.raw
  have hnext : i + 1 < (split t).length := by
    refine Nat.lt_of_not_le fun hle => ?_
    have hlast : (split t).length = i + 1 := by omega
    have hlength := length_join (split_ne_nil t)
    rw [join_split, hlast, lineStart_succ hi, hraw] at hlength
    omega
  have h := getElem?_join_lineFeed hmet.raw hnext
  rw [join_split] at h
  exact ⟨hnext, h⟩

theorem Kept.getElem?_lineFeed (hmet : Met toggles ranges t i s k)
    (hkept : Kept toggles ranges t i) (hnext : i + 1 < (split t).length) :
    (text toggles ranges t)[(Spot.mk i 0 s.line.toList.length).offset
      (groupsOf toggles ranges t)]? = some '\n' := by
  have hgroup := hkept.group hmet
  have hline : (groupsOf toggles ranges t).flatten[groupStart (groupsOf toggles ranges t) i]? =
      some s.line.toList := getElem?_flatten hgroup (d := 0) Nat.one_pos
  obtain ⟨s', k', hmet'⟩ := exists_met toggles ranges hnext
  have hpos : 0 < (k'.group toggles s' (stateAt toggles ranges t (i + 1))
      ((sitesOf ranges t).drop (i + 1 + 1))).length := by
    rw [length_group]
    split <;> exact Nat.succ_pos _
  have hline' := getElem?_flatten hmet'.group hpos
  rw [List.getElem?_eq_getElem hpos, groupStart_succ hgroup] at hline'
  rw [text_eq_join]
  exact getElem?_join_lineFeed hline (List.getElem?_eq_some_iff.mp hline').1

/-- A character goes where it can be found again. -/
theorem Goes.getElem? (h : Goes toggles ranges t i c q)
    (hlt : lineStart (split t) i + c < t.length) :
    (text toggles ranges t)[q.offset (groupsOf toggles ranges t)]? =
      t[lineStart (split t) i + c]? := by
  cases h with
  | @kept s k hmet hkept hc =>
      rcases Nat.lt_or_eq_of_le hc with hc | rfl
      · have hon : (Spot.mk i 0 c).On (groupsOf toggles ranges t) s.line.toList :=
          ⟨_, hkept.group hmet, rfl, Nat.le_of_lt hc⟩
        rw [text_eq_join, hon.getElem? hc, hmet.getElem? hc]
      · obtain ⟨hnext, hfeed⟩ := hmet.getElem?_lineFeed hlt
        rw [hkept.getElem?_lineFeed hmet hnext, hfeed]
  | @content s k p x hmet hp hle hx hspell =>
      obtain ⟨g, back, hg, hline⟩ := content_line hmet hp
      have hin := hmet.part_in (Or.inl hp)
      have hstop := Part.lt_stop hle hx
      rw [hmet.getElem? (Nat.lt_of_lt_of_le hstop hin.stop_le_toList),
        hin.getElem?_toList hle hstop, hx, text_eq_join]
      rw [flatMap_split k.spell hx, hspell] at hline
      have hcolumn : k.contentColumn (stateAt toggles ranges t i) p c <
          (k.contentBefore (fenceLength (stateAt toggles ranges t i).fences.length) ++
            ((p.text.take (c - p.column)).flatMap k.spell ++
              ([x] ++ (p.text.drop (c - p.column + 1)).flatMap k.spell) ++ back)).length := by
        rw [Kind.contentColumn]
        simp only [List.length_append, List.length_singleton]
        omega
      rw [Spot.On.getElem? ⟨g, hg, hline, Nat.le_of_lt hcolumn⟩ hcolumn]
      simp [Kind.contentColumn]
  | @label h s k p hmet hp hh hle hstop =>
      obtain ⟨g, hg, hline⟩ := group_head hmet hp hh
      have hin := hmet.part_in (Or.inr hp)
      rw [hmet.getElem? (Nat.lt_of_lt_of_le hstop hin.stop_le_toList),
        hin.getElem?_toList hle hstop, text_eq_join]
      rw [Part.stop] at hstop
      have htext : c - p.column < p.text.length := by omega
      have hcolumn : labelBefore.length + (c - p.column) <
          (labelBefore ++ (p.text ++ s.line.ending)).length := by
        simp only [List.length_append]
        omega
      rw [Spot.On.getElem? ⟨g, hg, hline, Nat.le_of_lt hcolumn⟩ hcolumn,
        List.getElem?_append_right (Nat.le_add_right ..), Nat.add_sub_cancel_left,
        List.getElem?_append_left htext]

/-! ## In which order characters go -/

/-- Where an offset on a line stands in the label of a directive, it is the label of the line. -/
theorem Labels.part {x : Nat} (hlabels : Labels toggles ranges t x (lineStart (split t) i + c))
    (hmet : Met toggles ranges t i s k) (hc : c ≤ s.line.toList.length) :
    ∃ h p, k.label? s.line.body = some p ∧ Heads toggles ranges t h i ∧ p.column ≤ c ∧
      c < p.stop ∧ lineStart (split t) h ≤ x ∧ x < lineStart (split t) i + p.column := by
  obtain ⟨h, j, s', k', p, hmet', hp, hh, hle, hlt, hfrom, hto⟩ := hlabels
  have hstop := (hmet'.part_in (Or.inr hp)).stop_le_toList
  have hline : i = j := by
    obtain ⟨hi, hraw⟩ := List.getElem?_eq_some_iff.mp hmet.raw
    obtain ⟨hj, hraw'⟩ := List.getElem?_eq_some_iff.mp hmet'.raw
    rw [← lineOf_eq hi (Nat.le_add_right _ c) (by rw [hraw]; omega),
      ← lineOf_eq hj (x := lineStart (split t) i + c) (by omega) (by rw [hraw']; omega)]
  subst hline
  obtain ⟨rfl, rfl⟩ := hmet.unique hmet'
  exact ⟨h, p, hp, hh, by omega, by omega, hfrom, hto⟩

theorem Met.content_lt_label {p' : Part} {x : Char} {n m : Nat} (hmet : Met toggles ranges t i s k)
    (hp : k.content? s.line.body = some p) (hp' : k.label? s.line.body = some p')
    (hle : p.column ≤ n) (hx : p.text[n - p.column]? = some x) (hm : p'.column ≤ m) : n < m := by
  have hbefore := content?_before_label? hmet.kind_eq hp hp'
  have := Part.lt_stop hle hx
  omega

theorem Heads.contentLine_pos (hh : Heads toggles ranges t h j) (hmet : Met toggles ranges t h s k)
    (hp : k.content? s.line.body = some p) : 0 < k.contentLine := by
  cases hh with
  | formula hk =>
      obtain rfl := Option.some.inj (hk.symm.trans hmet.kind)
      exact Nat.one_pos
  | block ho =>
      obtain rfl := Option.some.inj (ho.opener.symm.trans hmet.kind)
      cases hp

theorem Goes.group_le (h : Goes toggles ranges t i c q) : q.group ≤ i := by
  cases h with
  | kept | content => exact Nat.le_refl i
  | label _ _ hh => exact hh.le

/-- A label goes before what it is written over. -/
theorem Goes.after (h : Goes toggles ranges t i c q) (h' : Goes toggles ranges t i' c' q')
    (hlabels : Labels toggles ranges t (lineStart (split t) i + c) (lineStart (split t) i' + c')) :
    q'.Before q := by
  obtain ⟨s', k', hmet', hc'⟩ := h'.met
  obtain ⟨head, p', hp', hh', hle', hlt', hfrom, hto⟩ := hlabels.part hmet' hc'
  have hhead : ∃ column, q' = ⟨head, 0, column⟩ := by
    cases h' with
    | @kept s k hmet hkept =>
        obtain ⟨rfl, rfl⟩ := hmet.unique hmet'
        exact absurd ((hkept.no_parts hmet _).2.symm.trans hp') nofun
    | @content s k p x hmet hp hle hx =>
        obtain ⟨rfl, rfl⟩ := hmet.unique hmet'
        exact absurd (hmet.content_lt_label hp hp' hle hx hle') (Nat.lt_irrefl _)
    | @label h s k p hmet hp hh =>
        obtain rfl := hh.unique hh'
        exact ⟨_, rfl⟩
  obtain ⟨column, rfl⟩ := hhead
  obtain ⟨s, k, hmet, hc⟩ := h.met
  have hle := hmet.line_le hc hfrom
  cases h with
  | kept _ hkept =>
      rcases Nat.lt_or_eq_of_le hle with hlt | rfl
      · exact Or.inl hlt
      · exact absurd hkept hh'.not_kept
  | content hmet₀ hp₀ =>
      rcases Nat.lt_or_eq_of_le hle with hlt | rfl
      · exact Or.inl hlt
      · exact Or.inr ⟨rfl, Or.inl (hh'.contentLine_pos hmet₀ hp₀)⟩
  | label hmet₀ hp₀ hh₀ hle₀ =>
      -- a label of the same line is this one, and one of an earlier line ends before the head
      rcases Nat.lt_or_eq_of_le (hmet'.line_le hc' (j := i) (by omega)) with hlt | rfl
      · exact absurd (hh₀.apart hh' hlt) (Nat.not_lt_of_le hle)
      · obtain ⟨rfl, rfl⟩ := hmet₀.unique hmet'
        obtain rfl := Option.some.inj (hp₀.symm.trans hp')
        omega

theorem Goes.before_of_line (h : Goes toggles ranges t i c q) (h' : Goes toggles ranges t i c' q')
    (hlt : c < c') (hnot : ¬ Labels toggles ranges t (lineStart (split t) i + c)
      (lineStart (split t) i + c')) : q.Before q' := by
  cases h with
  | @kept s k hmet hkept =>
      cases h' with
      | kept => exact Or.inr ⟨rfl, Or.inr ⟨rfl, hlt⟩⟩
      | content hmet' hp' =>
          obtain ⟨rfl, rfl⟩ := hmet.unique hmet'
          exact absurd ((hkept.no_parts hmet _).1.symm.trans hp') nofun
      | label hmet' hp' =>
          obtain ⟨rfl, rfl⟩ := hmet.unique hmet'
          exact absurd ((hkept.no_parts hmet _).2.symm.trans hp') nofun
  | @content s k p x hmet hp hle hx =>
      cases h' with
      | kept _ hkept => exact absurd ((hkept.no_parts hmet _).1.symm.trans hp) nofun
      | content hmet' hp' =>
          obtain ⟨rfl, rfl⟩ := hmet.unique hmet'
          obtain rfl := Option.some.inj (hp.symm.trans hp')
          refine Or.inr ⟨rfl, Or.inr ⟨rfl, Nat.add_lt_add_left ?_ _⟩⟩
          exact length_flatMap_take_lt k.spell_ne_nil (by omega)
            (List.getElem?_eq_some_iff.mp hx).1
      | label hmet' hp' hh' hle' hlt' =>
          obtain ⟨rfl, rfl⟩ := hmet.unique hmet'
          have hmono := lineStart_mono (split t) hh'.le
          have hcolumn := hmet.content_lt_label hp hp' hle hx (Nat.le_refl _)
          exact absurd ⟨_, _, _, _, _, hmet', hp', hh', by omega, by omega, by omega, by omega⟩ hnot
  | @label head s k p hmet hp hh hle =>
      cases h' with
      | kept _ hkept => exact absurd ((hkept.no_parts hmet _).2.symm.trans hp) nofun
      | content hmet' hp' hle' hx' =>
          obtain ⟨rfl, rfl⟩ := hmet.unique hmet'
          exact absurd (hmet.content_lt_label hp' hp hle' hx' hle) (Nat.not_lt_of_gt hlt)
      | label hmet' hp' hh' =>
          obtain ⟨rfl, rfl⟩ := hmet.unique hmet'
          obtain rfl := Option.some.inj (hp.symm.trans hp')
          obtain rfl := hh.unique hh'
          exact Or.inr ⟨rfl, Or.inr ⟨rfl, by show _ + _ < _ + _; omega⟩⟩

/-- Characters go on in the order in which they stand, but for labels. -/
theorem Goes.before (h : Goes toggles ranges t i c q) (h' : Goes toggles ranges t i' c' q')
    (hlt : lineStart (split t) i + c < lineStart (split t) i' + c')
    (hnot : ¬ Labels toggles ranges t (lineStart (split t) i + c)
      (lineStart (split t) i' + c')) : q.Before q' := by
  obtain ⟨s, k, hmet, hc⟩ := h.met
  obtain ⟨s', k', hmet', hc'⟩ := h'.met
  rcases Nat.lt_or_eq_of_le (hmet'.line_le hc' (j := i) (by omega)) with hline | rfl
  · -- of a later line only the label goes before that line
    cases h' with
    | kept | content => exact Or.inl (Nat.lt_of_le_of_lt h.group_le hline)
    | @label head s₁ k₁ p hmet₁ hp hh hle hstop =>
        rcases Nat.lt_or_ge i head with hi | hi
        · exact Or.inl (Nat.lt_of_le_of_lt h.group_le hi)
        · have hmono := lineStart_mono (split t) hi
          have hbefore := hmet.lt_lineStart hc hline
          exact absurd ⟨head, i', s₁, k₁, p, hmet₁, hp, hh, by omega, by omega, by omega, by omega⟩
            hnot
  · exact h.before_of_line h' (by omega) hnot

end

end Convert

end DirectiveFences
