/-
Runs of backticks as the inline parser reads them.

The parser reads a run no further than the end of the text it is in, and looks for a
closing run even behind that end.  A text of its own ends at the end of the content or
before a closing bracket, so no run is cut in two, and what the parser takes for a code
span is one: its opening run and its closing run are whole runs, except that behind the
end of the text a closing backtick may be the first of several.
-/
import DirectiveFences.Markdown.Inline
import DirectiveFences.Proofs.Landmarks

namespace DirectiveFences.Markdown.Inline

open CodeSpan
open Scan (Stands)

/-! ## Places that no backslash escapes -/

/-- An even number of backslashes stands directly before a place. -/
def Fresh (cs : List Char) (place : Nat) : Prop :=
  isEscaped cs.toArray place = false

theorem fresh_of_ne {cs : List Char} {place : Nat}
    (h : place = 0 ∨ cs[place - 1]? ≠ some '\\') : Fresh cs place := by
  cases place with
  | zero => rfl
  | succ p =>
      have hne : cs[p]? ≠ some '\\' := h.resolve_left (Nat.succ_ne_zero p)
      rw [Fresh, isEscaped, backslashesBefore, List.getElem?_toArray, if_neg hne]
      rfl

theorem fresh_of_eq {cs : List Char} {place : Nat} {c : Char} (h : cs[place - 1]? = some c)
    (hc : c ≠ '\\') : Fresh cs place :=
  fresh_of_ne (Or.inr fun heq => hc (Option.some.inj (h.symm.trans heq)))

/-- A backslash takes the character after it along. -/
theorem Fresh.skip {cs : List Char} {place : Nat} (h : Fresh cs place)
    (hslash : cs[place]? = some '\\') : Fresh cs (place + 2) := by
  by_cases hnext : cs[place + 1]? = some '\\'
  · rw [Fresh, isEscaped, backslashesBefore, List.getElem?_toArray, if_pos hnext,
      backslashesBefore, List.getElem?_toArray, if_pos hslash]
    rw [Fresh, isEscaped] at h
    simp only [beq_eq_false_iff_ne, ne_eq] at h ⊢
    omega
  · exact fresh_of_ne (Or.inr hnext)

/-! ## One run -/

theorem ticks_le (most : Nat) (cs : List Char) : ticks most cs ≤ most := by
  fun_induction ticks most cs with
  | case1 most cs ih => exact Nat.succ_le_succ ih
  | case2 => exact Nat.zero_le _

theorem getElem?_of_lt_ticks {most k : Nat} {cs : List Char} (hk : k < ticks most cs) :
    cs[k]? = some '`' := by
  fun_induction ticks most cs generalizing k with
  | case1 most cs ih =>
      cases k with
      | zero => rfl
      | succ k => exact ih (Nat.lt_of_succ_lt_succ hk)
  | case2 => exact absurd hk (Nat.not_lt_zero k)

theorem ticks_end (most : Nat) (cs : List Char) :
    ticks most cs = most ∨ cs[ticks most cs]? ≠ some '`' := by
  fun_induction ticks most cs with
  | case1 most cs ih => exact ih.imp (congrArg Nat.succ) id
  | case2 most cs hnot =>
      cases most with
      | zero => exact Or.inl rfl
      | succ most =>
          refine Or.inr fun h => ?_
          cases cs with
          | nil => cases h
          | cons c cs => exact hnot most cs rfl (Option.some.inj h ▸ rfl)

section

variable {cs : List Char} {n stop : Nat}

theorem drop_eq_cons {place : Nat} {c : Char} {ds : List Char} (h : c :: ds = cs.drop place) :
    cs[place]? = some c ∧ ds = cs.drop (place + 1) := by
  constructor
  · rw [← List.head?_drop, ← h]
    rfl
  · rw [← List.drop_drop, ← h]
    rfl

theorem run_end (hstop : cs[stop]? ≠ some '`') {place : Nat} (hplace : place < stop) :
    cs[place + (1 + ticks (stop - (place + 1)) (cs.drop (place + 1)))]? ≠ some '`' := by
  rcases ticks_end (stop - (place + 1)) (cs.drop (place + 1)) with h | h
  · rw [h, show place + (1 + (stop - (place + 1))) = stop by omega]
    exact hstop
  · rwa [List.getElem?_drop, Nat.add_assoc] at h

theorem run_ticks (stop : Nat) {place k : Nat} (hplace : cs[place]? = some '`')
    (hk : k < 1 + ticks (stop - (place + 1)) (cs.drop (place + 1))) :
    cs[place + k]? = some '`' := by
  cases k with
  | zero => exact hplace
  | succ k =>
      have := getElem?_of_lt_ticks
        (show k < ticks (stop - (place + 1)) (cs.drop (place + 1)) by omega)
      rwa [List.getElem?_drop, show place + 1 + k = place + (k + 1) by omega] at this

/-! ## The closing run -/

/-- Of the characters before `j`, none from `hi` on is a backtick, the last one apart. -/
def BareFrom (cs : List Char) (hi j : Nat) : Prop :=
  ∀ p, hi ≤ p → p + 1 < j → cs[p]? ≠ some '`'

theorem bareFrom_of_le {hi j : Nat} (h : j ≤ hi) : BareFrom cs hi j :=
  fun _ hp hlt => absurd (Nat.lt_of_succ_lt hlt) (Nat.not_lt_of_le (Nat.le_trans h hp))

theorem BareFrom.mono {hi hi' j : Nat} (h : BareFrom cs hi j) (hle : hi ≤ hi') :
    BareFrom cs hi' j :=
  fun p hp hlt => h p (Nat.le_trans hle hp) hlt

/-- A closing run of `n` backticks at `e`, the first one from `start` on; when it lies behind the end
of the text, it is the first backtick there. -/
structure Closes (cs : List Char) (n stop start e : Nat) : Prop where
  from_ : start ≤ e
  ticks : ∀ k, k < n → cs[e + k]? = some '`'
  before : cs[e - 1]? ≠ some '`'
  shortest : ∀ p, start ≤ p → p < e → ¬ Delimits cs.toArray n cs.length p
  bare : ∀ p, start ≤ p → stop ≤ p → p + 1 < e + n → cs[p]? ≠ some '`'

/-- What is known of the text from `start` up to `q`, where the parser looks for a run next. -/
structure Passed (cs : List Char) (n stop start q : Nat) : Prop where
  from_ : start ≤ q
  /-- A backtick at `q` begins a run, or cannot close anything. -/
  begins : cs[q]? = some '`' → cs[q - 1]? ≠ some '`' ∨ (n ≠ 1 ∧ stop < q)
  /-- No run of `n` backticks has been missed. -/
  none_ : ∀ p, start ≤ p → p < q → p < stop ∨ n = 1 → ¬ Delimits cs.toArray n cs.length p
  /-- Behind the end of the text, a single backtick would have been taken. -/
  bare : n = 1 → ∀ p, start ≤ p → p < q → stop ≤ p → cs[p]? ≠ some '`'

theorem Passed.other {start place : Nat} (h : Passed cs n stop start place) (hn : 0 < n)
    (hplace : cs[place]? ≠ some '`') : Passed cs n stop start (place + 1) := by
  refine ⟨Nat.le_succ_of_le h.from_, fun _ => Or.inl hplace, fun p hp hlt hor hdel => ?_,
    fun hone p hp hlt hstop => ?_⟩
  · rcases Nat.lt_or_eq_of_le (Nat.le_of_lt_succ hlt) with hlt | rfl
    · exact h.none_ p hp hlt hor hdel
    · have := hdel.ticks 0 hn
      rw [List.getElem?_toArray] at this
      exact hplace this
  · rcases Nat.lt_or_eq_of_le (Nat.le_of_lt_succ hlt) with hlt | rfl
    · exact h.bare hone p hp hlt hstop
    · exact hplace

/-- A run of another length is passed over as a whole. -/
theorem Passed.run {start place : Nat} (h : Passed cs n stop start place)
    (hstop : cs[stop]? ≠ some '`') (hplace : cs[place]? = some '`')
    (hrun : 1 + ticks (stop - (place + 1)) (cs.drop (place + 1)) ≠ n) :
    Passed cs n stop start
      (place + (1 + ticks (stop - (place + 1)) (cs.drop (place + 1)))) := by
  have hbeyond : ¬ place < stop → ticks (stop - (place + 1)) (cs.drop (place + 1)) = 0 :=
    fun hge => Nat.le_zero.mp (Nat.le_trans (ticks_le ..) (by omega))
  refine ⟨by have := h.from_; omega, fun hq => ?_, fun p hp hlt hor hdel => ?_,
    fun hone p hp hlt hbeyondStop => ?_⟩
  · by_cases hlt : place < stop
    · exact absurd hq (run_end hstop hlt)
    · rw [hbeyond hlt] at hrun ⊢
      exact Or.inr ⟨fun h => hrun h.symm, by omega⟩
  · rcases Nat.lt_trichotomy p place with hpp | rfl | hpp
    · exact h.none_ p hp hpp hor hdel
    · -- the run at `p` itself has `n` backticks, unless the text ends inside it
      by_cases hlt : p < stop
      · have hend := run_end hstop hlt
        rcases Nat.lt_or_ge (1 + ticks (stop - (p + 1)) (cs.drop (p + 1))) n with hlt' | hge
        · have := hdel.ticks _ hlt'
          rw [List.getElem?_toArray] at this
          exact hend this
        · have htick : cs[p + n]? = some '`' := run_ticks stop hplace (by omega)
          rcases hdel.after with heq | hne
          · rw [heq, List.getElem?_eq_none (Nat.le_refl _)] at htick
            cases htick
          · rw [List.getElem?_toArray] at hne
            exact hne htick
      · rw [hbeyond hlt] at hrun
        exact hrun (hor.resolve_left hlt).symm
    · -- a place inside the run has a backtick before it
      have htick : cs[p - 1]? = some '`' := by
        rw [show p - 1 = place + (p - 1 - place) by omega]
        exact run_ticks stop hplace (by omega)
      rcases hdel.before with h0 | hne
      · omega
      · rw [List.getElem?_toArray] at hne
        exact hne htick
  · rcases Nat.lt_or_ge place stop with hlt' | hge
    · have := ticks_le (stop - (place + 1)) (cs.drop (place + 1))
      exact h.bare hone p hp (by omega) hbeyondStop
    · rw [hbeyond (Nat.not_lt_of_le hge)] at hrun
      exact absurd hone.symm hrun

theorem closing?_spec (hn : 0 < n) (hstop : cs[stop]? ≠ some '`') {start : Nat} :
    ∀ (hold place : Nat) {rest : List Char} {e : Nat}, rest = cs.drop place →
      Passed cs n stop start (place + hold) → closing? n stop hold place rest = some e →
        Closes cs n stop start e := by
  intro hold place rest
  fun_induction closing? n stop hold place rest with
  | case1 => exact fun _ _ h => nomatch h
  | case2 hold place c ds ih =>
      intro e hrest hpassed h
      refine ih (drop_eq_cons hrest).2 ?_ h
      rwa [show place + 1 + hold = place + (hold + 1) by omega]
  | case3 place ds run =>
      rename_i hrun
      intro e hrest hpassed h
      obtain rfl := Option.some.inj h
      obtain ⟨hplace, rfl⟩ := drop_eq_cons hrest
      have hle := ticks_le (stop - (place + 1)) (cs.drop (place + 1))
      have hone : n ≠ 1 → place + 1 < stop := fun hne => by omega
      refine ⟨hpassed.from_, fun k hk => run_ticks stop hplace (by omega), ?_, ?_, ?_⟩
      · rcases hpassed.begins hplace with hne | ⟨hne, hlt⟩
        · exact hne
        · have := hone hne
          omega
      · intro p hp hlt
        refine hpassed.none_ p hp hlt ?_
        by_cases h1 : n = 1
        · exact Or.inr h1
        · have := hone h1
          exact Or.inl (by omega)
      · intro p hp hbeyond hlt
        by_cases h1 : n = 1
        · exact hpassed.bare h1 p hp (by omega) hbeyond
        · have := hone h1
          omega
  | case4 place ds run hrun =>
      rename_i ih
      intro e hrest hpassed h
      obtain ⟨hplace, hds⟩ := drop_eq_cons hrest
      refine ih hds ?_ h
      have := hpassed.run hstop hplace (by rw [← hds]; exact hrun)
      rw [← hds] at this
      rwa [show place + 1 + (run - 1) = place + (1 + ticks (stop - (place + 1)) ds) by omega]
  | case5 place c ds hc ih =>
      intro e hrest hpassed h
      obtain ⟨hplace, hds⟩ := drop_eq_cons hrest
      have hpassed : Passed cs n stop start place := hpassed
      exact ih hds (hpassed.other hn fun h => hc (Option.some.inj (hplace.symm.trans h))) h

/-! ## The code span -/

/-- What a run of backticks is read as: a code span that stands in the content, or itself. -/
theorem backticks_spec {place : Nat} (hplace : place < stop)
    (hstop : cs[stop]? ≠ some '`') (htick : cs[place]? = some '`') (hfresh : Fresh cs place) :
    place < (backticks stop place (cs.drop place)).1 ∧
      Fresh cs (backticks stop place (cs.drop place)).1 ∧
      ∀ p, (backticks stop place (cs.drop place)).2 = some p → ∃ n t j, p = .code n t place j ∧
        j = (backticks stop place (cs.drop place)).1 ∧ BareFrom cs stop j ∧
          Stands cs.toArray n cs.length ⟨place, j⟩ := by
  have hopening : ∀ k, k < 1 + ticks (stop - (place + 1)) (cs.drop (place + 1)) →
      cs[place + k]? = some '`' := fun k hk => run_ticks stop htick hk
  have hend := run_end hstop hplace
  have hpos : 0 < 1 + ticks (stop - (place + 1)) (cs.drop (place + 1)) := by omega
  have hroom : place + (1 + ticks (stop - (place + 1)) (cs.drop (place + 1))) ≤ stop := by
    have := ticks_le (stop - (place + 1)) (cs.drop (place + 1))
    omega
  simp only [backticks, List.drop_drop]
  generalize 1 + ticks (stop - (place + 1)) (cs.drop (place + 1)) = n at hopening hend hpos hroom ⊢
  have hlast := hopening (n - 1) (by omega)
  have hwithin := (List.getElem?_eq_some_iff.mp hlast).1
  cases hclosing : closing? n stop 0 (place + n) (cs.drop (place + n)) with
  | none =>
      refine ⟨by show place < place + n; omega, fresh_of_eq (c := '`') ?_ (by decide), nofun⟩
      rwa [show place + n - 1 = place + (n - 1) by omega]
  | some e =>
      have hpassed : Passed cs n stop (place + n) (place + n) :=
        ⟨Nat.le_refl _, fun h => absurd h hend, fun p hp hlt => absurd hp (Nat.not_le_of_lt hlt),
          fun _ p hp hlt => absurd hp (Nat.not_le_of_lt hlt)⟩
      have hcloses := closing?_spec hpos hstop 0 (place + n) rfl hpassed hclosing
      have hfrom := hcloses.from_
      have hlastEnd := hcloses.ticks (n - 1) (by omega)
      have hlen' := (List.getElem?_eq_some_iff.mp hlastEnd).1
      have hne : e ≠ place + n := fun heq => hend (heq ▸ hcloses.ticks 0 hpos)
      refine ⟨by show place < e + n; omega, fresh_of_eq (c := '`') ?_ (by decide), ?_⟩
      · show cs[e + n - 1]? = some '`'
        rwa [show e + n - 1 = e + (n - 1) by omega]
      · intro p hp
        refine ⟨n, _, e + n, (Option.some.inj hp).symm, rfl,
          fun q hq hlt => hcloses.bare q (Nat.le_trans hroom hq) hq hlt, ?_⟩
        have hback : e + n - n = e := Nat.add_sub_cancel ..
        refine ⟨hpos, ?_, ?_, ?_, fun k hk => ?_, ?_, hfresh, fun k hk => ?_, ?_, ?_⟩
        · show place + n < e + n - n
          omega
        · show e + n ≤ cs.length
          omega
        · exact Nat.le_refl _
        · rw [List.getElem?_toArray]
          exact hopening k hk
        · rw [List.getElem?_toArray]
          exact hend
        · show cs.toArray[e + n - n + k]? = some '`'
          rw [hback, List.getElem?_toArray]
          exact hcloses.ticks k hk
        · show cs.toArray[e + n - n - 1]? ≠ some '`'
          rw [hback, List.getElem?_toArray]
          exact hcloses.before
        · intro q hq hlt
          refine hcloses.shortest q hq ?_
          have hlt : q < e + n - n := hlt
          omega

end

end DirectiveFences.Markdown.Inline
