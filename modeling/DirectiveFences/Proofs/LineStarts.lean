/-
The lines of a text, and the offsets at which they start.

`Text.split` and `Text.join` are inverse to each other once no line holds a line
feed.  A line's start is counted from the lengths of the lines before it, each
with its line feed; this is the offset at which the line stands in the text, and
the one that the conversion carries along.
-/
import DirectiveFences.Text.Blank
import DirectiveFences.Text.Lines

namespace DirectiveFences

namespace Text

/-! ## Splitting and joining -/

theorem split_nil : split [] = [[]] := rfl

theorem split_newline (t : List Char) : split ('\n' :: t) = [] :: split t := by
  show breakBefore '\n' (split t) = _
  cases h : split t with
  | nil => exact absurd h (split_ne_nil t)
  | cons l ls => simp [breakBefore]

theorem split_cons {c : Char} (hc : c ≠ '\n') {t l : List Char} {ls : List (List Char)}
    (h : split t = l :: ls) : split (c :: t) = (c :: l) :: ls := by
  show breakBefore c (split t) = _
  rw [h]
  simp [breakBefore, hc]

/-- No line holds a line feed. -/
theorem newline_not_mem_of_mem_split {t l : List Char} (hl : l ∈ split t) : '\n' ∉ l := by
  induction t generalizing l with
  | nil => simp_all [split_nil]
  | cons c t ih =>
      by_cases hc : c = '\n'
      · subst hc
        rw [split_newline] at hl
        rcases List.mem_cons.mp hl with rfl | hl
        · exact List.not_mem_nil
        · exact ih hl
      · cases h : split t with
        | nil => exact absurd h (split_ne_nil t)
        | cons l₀ ls =>
            rw [split_cons hc h] at hl
            rw [h] at ih
            rcases List.mem_cons.mp hl with rfl | hl
            · intro hmem
              rcases List.mem_cons.mp hmem with heq | hmem
              · exact hc heq.symm
              · exact ih List.mem_cons_self hmem
            · exact ih (List.mem_cons_of_mem _ hl)

theorem split_of_not_mem {l : List Char} (h : '\n' ∉ l) : split l = [l] := by
  induction l with
  | nil => rfl
  | cons c l ih =>
      simp only [List.mem_cons, not_or] at h
      exact split_cons (Ne.symm h.1) (ih h.2)

theorem split_append_newline {l : List Char} (h : '\n' ∉ l) (t : List Char) :
    split (l ++ '\n' :: t) = l :: split t := by
  induction l with
  | nil => exact split_newline t
  | cons c l ih =>
      simp only [List.mem_cons, not_or] at h
      exact split_cons (Ne.symm h.1) (ih h.2)

theorem split_append_break (a b : List Char) : split (a ++ '\n' :: b) = split a ++ split b := by
  induction a with
  | nil => exact split_newline b
  | cons c a ih =>
      by_cases hc : c = '\n'
      · rw [hc, List.cons_append, split_newline, split_newline, ih, List.cons_append]
      · cases hsplit : split a with
        | nil => exact absurd hsplit (split_ne_nil a)
        | cons l ls =>
            rw [hsplit] at ih
            rw [List.cons_append, split_cons hc ih, split_cons hc hsplit]
            rfl

theorem join_cons (l : List Char) {ls : List (List Char)} (h : ls ≠ []) :
    join (l :: ls) = l ++ '\n' :: join ls := by
  cases ls with
  | nil => exact absurd rfl h
  | cons l' ls => simp [join, List.intercalate]

theorem split_join {ls : List (List Char)} (hne : ls ≠ []) (h : ∀ l ∈ ls, '\n' ∉ l) :
    split (join ls) = ls := by
  induction ls with
  | nil => exact absurd rfl hne
  | cons l ls ih =>
      have hl : '\n' ∉ l := h l List.mem_cons_self
      cases ls with
      | nil => simpa [join, List.intercalate] using split_of_not_mem hl
      | cons l' ls =>
          rw [join_cons l (List.cons_ne_nil l' ls), split_append_newline hl,
            ih (List.cons_ne_nil _ _) fun m hm => h m (List.mem_cons_of_mem _ hm)]

/-! ## Where lines start -/

/-- The offset at which line `i` starts. -/
def lineStart : List (List Char) → Nat → Nat
  | l :: ls, i + 1 => l.length + 1 + lineStart ls i
  | _, _ => 0

@[simp] theorem lineStart_zero (ls : List (List Char)) : lineStart ls 0 = 0 := by
  cases ls <;> rfl

theorem lineStart_cons_succ (l : List Char) (ls : List (List Char)) (i : Nat) :
    lineStart (l :: ls) (i + 1) = l.length + 1 + lineStart ls i := rfl

theorem lineStart_succ {ls : List (List Char)} {i : Nat} (hi : i < ls.length) :
    lineStart ls (i + 1) = lineStart ls i + ls[i].length + 1 := by
  induction ls generalizing i with
  | nil => exact absurd hi (Nat.not_lt_zero i)
  | cons l ls ih =>
      cases i with
      | zero =>
          rw [lineStart_cons_succ, lineStart_zero, lineStart_zero, List.getElem_cons_zero]
          omega
      | succ i =>
          rw [lineStart_cons_succ, lineStart_cons_succ, ih (Nat.lt_of_succ_lt_succ hi),
            List.getElem_cons_succ]
          omega

theorem lineStart_mono (ls : List (List Char)) {i j : Nat} (hij : i ≤ j) :
    lineStart ls i ≤ lineStart ls j := by
  induction ls generalizing i j with
  | nil => exact Nat.zero_le _
  | cons l ls ih =>
      cases i with
      | zero => exact Nat.zero_le _
      | succ i =>
          cases j with
          | zero => exact absurd hij (Nat.not_succ_le_zero i)
          | succ j =>
              have := ih (Nat.le_of_succ_le_succ hij)
              rw [lineStart_cons_succ, lineStart_cons_succ]
              omega

theorem lineStart_add_length_lt {ls : List (List Char)} {i j : Nat} (hij : i < j)
    (hi : i < ls.length) : lineStart ls i + ls[i].length < lineStart ls j := by
  have hnext := lineStart_succ hi
  have hmono := lineStart_mono ls (show i + 1 ≤ j from hij)
  omega

theorem getElem?_join_lineStart_add {ls : List (List Char)} {i : Nat} (hi : i < ls.length)
    {k : Nat} (hk : k < ls[i].length) : (join ls)[lineStart ls i + k]? = some ls[i][k] := by
  induction ls generalizing i with
  | nil => exact absurd hi (Nat.not_lt_zero i)
  | cons l ls ih =>
      cases ls with
      | nil =>
          obtain rfl : i = 0 := by simpa using hi
          simp [join, List.intercalate]
      | cons l' ls =>
          rw [join_cons l (List.cons_ne_nil l' ls)]
          cases i with
          | zero =>
              simp only [lineStart_zero, Nat.zero_add, List.getElem_cons_zero] at hk ⊢
              rw [List.getElem?_append_left hk, List.getElem?_eq_getElem hk]
          | succ i =>
              have hshift : lineStart (l :: l' :: ls) (i + 1) + k - l.length
                  = lineStart (l' :: ls) i + k + 1 := by
                rw [lineStart_cons_succ]; omega
              rw [List.getElem?_append_right (by rw [lineStart_cons_succ]; omega), hshift,
                List.getElem?_cons_succ]
              exact ih (by simpa using hi) (by simpa using hk)

/-! ## Where lines end -/

theorem length_join {ls : List (List Char)} (h : ls ≠ []) :
    (join ls).length + 1 = lineStart ls ls.length := by
  induction ls with
  | nil => exact absurd rfl h
  | cons l ls ih =>
      cases ls with
      | nil => simp [join, List.intercalate, lineStart]
      | cons l' ls =>
          have := ih (List.cons_ne_nil l' ls)
          have hnext := lineStart_cons_succ l (l' :: ls) (l' :: ls).length
          rw [join_cons l (List.cons_ne_nil l' ls), List.length_append, List.length_cons]
          show _ = lineStart (l :: l' :: ls) ((l' :: ls).length + 1)
          omega

theorem lineStart_add_length_le {ls : List (List Char)} {i : Nat} (hi : i < ls.length) :
    lineStart ls i + ls[i].length ≤ (join ls).length := by
  have := length_join (List.ne_nil_of_length_pos (Nat.zero_lt_of_lt hi))
  have := lineStart_add_length_lt hi hi
  omega

theorem getElem?_join_lineEnd {ls : List (List Char)} {i : Nat} (hi : i < ls.length) {c : Char}
    (hc : (join ls)[lineStart ls i + ls[i].length]? = some c) : c = '\n' := by
  induction ls generalizing i with
  | nil => exact absurd hi (Nat.not_lt_zero i)
  | cons l ls ih =>
      cases ls with
      | nil =>
          obtain rfl : i = 0 := by simpa using hi
          simp [join, List.intercalate] at hc
      | cons l' ls =>
          rw [join_cons l (List.cons_ne_nil l' ls)] at hc
          cases i with
          | zero =>
              simp only [lineStart_zero, Nat.zero_add, List.getElem_cons_zero] at hc
              rw [List.getElem?_append_right (Nat.le_refl _), Nat.sub_self] at hc
              exact (Option.some.inj hc).symm
          | succ i =>
              have hi' : i < (l' :: ls).length := by simpa using hi
              refine ih hi' ?_
              rw [← hc, lineStart_cons_succ, List.getElem_cons_succ,
                List.getElem?_append_right (by omega),
                show l.length + 1 + lineStart (l' :: ls) i + (l' :: ls)[i].length - l.length =
                  lineStart (l' :: ls) i + (l' :: ls)[i].length + 1 by omega,
                List.getElem?_cons_succ]

theorem getElem?_join_lineFeed {ls : List (List Char)} {i : Nat} {l : List Char}
    (hl : ls[i]? = some l) (hi : i + 1 < ls.length) :
    (join ls)[lineStart ls i + l.length]? = some '\n' := by
  obtain ⟨hlt, rfl⟩ := List.getElem?_eq_some_iff.mp hl
  have hnext := lineStart_succ hlt
  have hle := lineStart_add_length_le hi
  have hbound : lineStart ls i + ls[i].length < (join ls).length := by omega
  rw [List.getElem?_eq_getElem hbound]
  exact congrArg some (getElem?_join_lineEnd hlt (List.getElem?_eq_getElem hbound))

/-! ## The line of an offset -/

/-- The number of the line on which an offset stands. -/
def lineOf (t : List Char) (x : Nat) : Nat :=
  (t.take x).count '\n'

theorem lineOf_join {ls : List (List Char)} (h : ∀ l ∈ ls, '\n' ∉ l) {i x : Nat}
    (hi : i < ls.length) (hle : lineStart ls i ≤ x) (hlt : x ≤ lineStart ls i + ls[i].length) :
    lineOf (join ls) x = i := by
  induction ls generalizing i x with
  | nil => exact absurd hi (Nat.not_lt_zero i)
  | cons l ls ih =>
      have hl : '\n' ∉ l := h l List.mem_cons_self
      have htake : ∀ n, (l.take n).count '\n' = 0 := by
        intro n
        exact List.count_eq_zero.mpr fun hmem => hl (List.mem_of_mem_take hmem)
      cases ls with
      | nil =>
          obtain rfl : i = 0 := by simpa using hi
          simpa [lineOf, join, List.intercalate] using htake x
      | cons l' ls =>
          rw [lineOf, join_cons l (List.cons_ne_nil l' ls)]
          cases i with
          | zero =>
              rw [lineStart_zero, Nat.zero_add, List.getElem_cons_zero] at hlt
              rw [List.take_append_of_le_length hlt, htake]
          | succ i =>
              rw [lineStart_cons_succ] at hle hlt
              obtain ⟨y, rfl⟩ : ∃ y, x = l.length + (y + 1) := ⟨x - l.length - 1, by omega⟩
              rw [List.getElem_cons_succ] at hlt
              have hrest := ih (fun m hm => h m (List.mem_cons_of_mem l hm))
                (Nat.lt_of_succ_lt_succ hi) (by omega) (show y ≤ _ by omega)
              rw [lineOf] at hrest
              rw [List.take_length_add_append, List.count_append, List.take_succ_cons,
                List.count_cons_self, hrest, List.count_eq_zero.mpr hl, Nat.zero_add]

/-- An offset between the start and the end of a line stands on it. -/
theorem lineOf_eq {t : List Char} {i x : Nat} (hi : i < (split t).length)
    (hle : lineStart (split t) i ≤ x) (hlt : x ≤ lineStart (split t) i + (split t)[i].length) :
    lineOf t x = i := by
  have h := lineOf_join (fun l => newline_not_mem_of_mem_split) hi hle hlt
  rwa [join_split] at h

theorem exists_line {t : List Char} {x : Nat} (hx : x ≤ t.length) :
    ∃ hi : lineOf t x < (split t).length, lineStart (split t) (lineOf t x) ≤ x ∧
      x ≤ lineStart (split t) (lineOf t x) + (split t)[lineOf t x].length := by
  have hjoin : ∀ ls : List (List Char), ls ≠ [] → ∀ y ≤ (join ls).length,
      ∃ i, ∃ hi : i < ls.length, lineStart ls i ≤ y ∧ y ≤ lineStart ls i + ls[i].length := by
    intro ls
    induction ls with
    | nil => exact fun hne => absurd rfl hne
    | cons l ls ih =>
        intro _ y hy
        by_cases hyl : y ≤ l.length
        · exact ⟨0, Nat.succ_pos _, by simp, by simpa using hyl⟩
        · cases ls with
          | nil =>
              simp only [join, List.intercalate, List.intersperse, List.flatten_cons,
                List.flatten_nil, List.append_nil] at hy
              exact absurd hy hyl
          | cons l' ls =>
              rw [join_cons l (List.cons_ne_nil l' ls), List.length_append, List.length_cons] at hy
              obtain ⟨i, hi, hle, hlt⟩ := ih (List.cons_ne_nil l' ls) (y - l.length - 1) (by omega)
              refine ⟨i + 1, Nat.succ_lt_succ hi, ?_, ?_⟩
              · rw [lineStart_cons_succ]
                omega
              · rw [lineStart_cons_succ, List.getElem_cons_succ]
                omega
  obtain ⟨i, hi, hle, hlt⟩ := hjoin (split t) (split_ne_nil t) x (by rwa [join_split])
  obtain rfl := lineOf_eq hi hle hlt
  exact ⟨hi, hle, hlt⟩

end Text

end DirectiveFences
