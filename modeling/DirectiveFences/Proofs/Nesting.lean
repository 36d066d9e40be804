/-
Nested divs as matched brackets.

To the nesting of a document only the lines that open a div and the lines that close one
count.  Which of them belong together is said by `Matches` without any stack: an opener
and a later closer match when what stands between them is balanced.  `stackAt` is the
usual way to find this out in one pass, and the results here say that it does: its top
is the opener that a closer matches, and its members are the openers that are still open.
-/
namespace DirectiveFences.Nesting

/-- What a line is to the nesting of divs. -/
inductive Mark
  | opener
  | closer
  | other
deriving DecidableEq, Repr

/-- Every opener has its closer, and every closer its opener. -/
inductive Balanced : List Mark → Prop
  | nil : Balanced []
  | other {ms : List Mark} : Balanced ms → Balanced (.other :: ms)
  | div {inner ms : List Mark} :
      Balanced inner → Balanced ms → Balanced (.opener :: (inner ++ .closer :: ms))

/-- The marks after place `i` and before place `j`. -/
def between (ms : List Mark) (i j : Nat) : List Mark :=
  (ms.take j).drop (i + 1)

/-- The closer at `j` closes the div that the opener at `i` opens. -/
structure Matches (ms : List Mark) (i j : Nat) : Prop where
  opener : ms[i]? = some .opener
  closer : ms[j]? = some .closer
  before : i < j
  balanced : Balanced (between ms i j)

/-- The opener at `o` stands before `p`, and no closer before `p` closes its div. -/
structure IsOpen (ms : List Mark) (p o : Nat) : Prop where
  before : o < p
  opener : ms[o]? = some .opener
  open_ : ∀ j, j < p → ¬ Matches ms o j

/-- The closer at `j` closes no div. -/
structure Unmatched (ms : List Mark) (j : Nat) : Prop where
  closer : ms[j]? = some .closer
  alone : ∀ i, ¬ Matches ms i j

/-! ## One pass with a stack -/

/-- The stack after the mark at a place. -/
def push (stack : List Nat) (p : Nat) : Mark → List Nat
  | .opener => p :: stack
  | .closer => stack.tail
  | .other => stack

/-- The stack before place `p`: the places of openers, innermost first. -/
def stackAt (ms : List Mark) : Nat → List Nat
  | 0 => []
  | p + 1 =>
    match ms[p]? with
    | some m => push (stackAt ms p) p m
    | none => stackAt ms p

variable {ms : List Mark} {i j o p : Nat}

theorem stackAt_succ {m : Mark} (h : ms[p]? = some m) :
    stackAt ms (p + 1) = push (stackAt ms p) p m := by
  rw [stackAt, h]

theorem stackAt_succ_none (h : ms[p]? = none) : stackAt ms (p + 1) = stackAt ms p := by
  rw [stackAt, h]

/-! ## Parts of a list of marks -/

theorem Balanced.append {as bs : List Mark} (ha : Balanced as) (hb : Balanced bs) :
    Balanced (as ++ bs) := by
  induction ha with
  | nil => exact hb
  | other _ ih => exact .other ih
  | div hinner _ _ ih =>
      rw [List.cons_append, List.append_assoc]
      exact .div hinner ih

theorem drop_eq_cons {m : Mark} {l : List Mark} (h : ms.drop p = m :: l) :
    ms[p]? = some m ∧ ms.drop (p + 1) = l := by
  constructor
  · rw [← List.head?_drop, h]
    rfl
  · rw [← List.drop_drop, h]
    rfl

@[simp] theorem between_self_succ (ms : List Mark) (p : Nat) : between ms p (p + 1) = [] := by
  refine List.drop_eq_nil_of_le ?_
  rw [List.length_take]
  exact Nat.min_le_left ..

theorem between_succ {m : Mark} (h : ms[p]? = some m) (hop : o < p) :
    between ms o (p + 1) = between ms o p ++ [m] := by
  have hp : p < ms.length := (List.getElem?_eq_some_iff.mp h).1
  rw [between, List.take_add_one, h, Option.toList_some, List.drop_append_of_le_length]
  · rfl
  · rw [List.length_take, Nat.min_eq_left (Nat.le_of_lt hp)]
    exact hop

theorem between_split {m : Mark} (h : ms[i]? = some m) (hoi : o < i) (hij : i < j) :
    between ms o j = between ms o i ++ m :: between ms i j := by
  have hi : i < ms.length := (List.getElem?_eq_some_iff.mp h).1
  have hm : (ms.take j)[i]? = some m := by rw [List.getElem?_take_of_lt hij, h]
  have hlen : o + 1 ≤ ((ms.take j).take i).length := by
    rw [List.length_take, List.length_take]
    omega
  have htake : (ms.take j).take i = ms.take i := by
    rw [List.take_take, Nat.min_eq_left (Nat.le_of_lt hij)]
  calc between ms o j
      = ((ms.take j).take i ++ (ms.take j).drop i).drop (o + 1) := by
        rw [List.take_append_drop, between]
    _ = between ms o i ++ (ms.take j).drop i := by
        rw [List.drop_append_of_le_length hlen, htake, between]
    _ = between ms o i ++ m :: between ms i j := by
        rw [List.drop_eq_getElem?_toList_append, hm]
        rfl

theorem drop_eq_between_append (hij : i < j) (hj : j ≤ ms.length) :
    ms.drop (i + 1) = between ms i j ++ ms.drop j := by
  have hlen : i + 1 ≤ (ms.take j).length := by rw [List.length_take]; omega
  rw [between, ← List.drop_append_of_le_length hlen, List.take_append_drop]

/-! ## What the stack is -/

theorem stackAt_of_balanced {seg rest : List Mark} (h : Balanced seg)
    (hdrop : ms.drop p = seg ++ rest) : stackAt ms (p + seg.length) = stackAt ms p := by
  induction h generalizing p rest with
  | nil => rfl
  | @other seg _ ih =>
      obtain ⟨hm, hrest⟩ := drop_eq_cons hdrop
      rw [List.length_cons, show p + (seg.length + 1) = p + 1 + seg.length by omega, ih hrest,
        stackAt_succ hm]
      rfl
  | @div inner seg _ _ ihinner ih =>
      rw [List.cons_append, List.append_assoc] at hdrop
      obtain ⟨hopen, hinner⟩ := drop_eq_cons hdrop
      have hclose : ms.drop (p + 1 + inner.length) = .closer :: (seg ++ rest) := by
        rw [← List.drop_drop, hinner, List.drop_left]
        rfl
      obtain ⟨hcl, hseg⟩ := drop_eq_cons hclose
      have hlen : p + (Mark.opener :: (inner ++ .closer :: seg)).length
          = p + 1 + inner.length + 1 + seg.length := by
        simp only [List.length_cons, List.length_append]
        omega
      rw [hlen, ih hseg, stackAt_succ hcl, ihinner hinner, stackAt_succ hopen]
      rfl

/-- Below the top of the stack lies the stack that the top was put on, and since the top was put on
it only whole divs have passed. -/
theorem of_stackAt_eq_cons {os : List Nat} (h : stackAt ms p = o :: os) :
    o < p ∧ ms[o]? = some .opener ∧ Balanced (between ms o p) ∧ os = stackAt ms o := by
  induction p using Nat.strongRecOn generalizing o os with
  | ind p ih =>
      cases p with
      | zero => cases h
      | succ p =>
          cases hm : ms[p]? with
          | none =>
              rw [stackAt_succ_none hm] at h
              obtain ⟨hlt, hopen, hbal, hos⟩ := ih p (Nat.lt_succ_self p) h
              have hp : ms.length ≤ p := List.getElem?_eq_none_iff.mp hm
              refine ⟨Nat.lt_succ_of_lt hlt, hopen, ?_, hos⟩
              rwa [between, List.take_of_length_le (Nat.le_succ_of_le hp),
                ← List.take_of_length_le hp]
          | some m =>
              rw [stackAt_succ hm] at h
              cases m with
              | opener =>
                  obtain ⟨rfl, rfl⟩ := List.cons.inj h
                  exact ⟨Nat.lt_succ_self _, hm, by rw [between_self_succ]; exact .nil, rfl⟩
              | other =>
                  obtain ⟨hlt, hopen, hbal, hos⟩ := ih p (Nat.lt_succ_self p) h
                  refine ⟨Nat.lt_succ_of_lt hlt, hopen, ?_, hos⟩
                  rw [between_succ hm hlt]
                  exact hbal.append (.other .nil)
              | closer =>
                  -- the div of the old top `o'` is now a whole one, after the new top
                  cases hst : stackAt ms p with
                  | nil => rw [hst] at h; cases h
                  | cons o' os' =>
                      obtain ⟨hlt', hopen', hbal', hos'⟩ := ih p (Nat.lt_succ_self p) hst
                      rw [hst] at h
                      have htop : stackAt ms o' = o :: os := hos' ▸ h
                      obtain ⟨hlt, hopen, hbal, hos⟩ := ih o' (Nat.lt_succ_of_lt hlt') htop
                      refine ⟨Nat.lt_succ_of_lt (Nat.lt_trans hlt hlt'), hopen, ?_, hos⟩
                      rw [between_succ hm (Nat.lt_trans hlt hlt'), between_split hopen' hlt hlt',
                        List.append_assoc, List.cons_append]
                      exact hbal.append (.div hbal' .nil)

theorem stackAt_of_matches (h : Matches ms i j) : stackAt ms j = i :: stackAt ms i := by
  have hj : j < ms.length := (List.getElem?_eq_some_iff.mp h.closer).1
  have hdrop := drop_eq_between_append h.before (Nat.le_of_lt hj)
  have hlen : i + 1 + (between ms i j).length = j := by
    have := h.before
    rw [between, List.length_drop, List.length_take]
    omega
  have hstack := stackAt_of_balanced h.balanced hdrop
  rw [hlen, stackAt_succ h.opener] at hstack
  exact hstack

/-- A closer closes the div at the top of the stack. -/
theorem matches_iff : Matches ms i j ↔
    ms[j]? = some .closer ∧ (stackAt ms j).head? = some i := by
  refine ⟨fun h => ⟨h.closer, by rw [stackAt_of_matches h]; rfl⟩, ?_⟩
  rintro ⟨hcl, hhead⟩
  obtain ⟨os, hos⟩ := List.head?_eq_some_iff.mp hhead
  obtain ⟨hlt, hopen, hbal, -⟩ := of_stackAt_eq_cons hos
  exact ⟨hopen, hcl, hlt, hbal⟩

theorem unmatched_iff : Unmatched ms j ↔ ms[j]? = some .closer ∧ stackAt ms j = [] := by
  constructor
  · rintro ⟨hcl, halone⟩
    refine ⟨hcl, ?_⟩
    cases hst : stackAt ms j with
    | nil => rfl
    | cons o os => exact absurd (matches_iff.mpr ⟨hcl, by rw [hst]; rfl⟩) (halone o)
  · rintro ⟨hcl, hst⟩
    refine ⟨hcl, fun i h => ?_⟩
    have := (matches_iff.mp h).2
    rw [hst] at this
    cases this

instance (ms : List Mark) (j : Nat) : Decidable (Unmatched ms j) :=
  decidable_of_iff _ unmatched_iff.symm

theorem pairwise_stackAt (ms : List Mark) (p : Nat) :
    (stackAt ms p).Pairwise (· > ·) ∧ ∀ o ∈ stackAt ms p, o < p := by
  induction p using Nat.strongRecOn with
  | ind p ih =>
      cases hst : stackAt ms p with
      | nil => exact ⟨.nil, fun _ h => absurd h List.not_mem_nil⟩
      | cons o os =>
          obtain ⟨hlt, -, -, rfl⟩ := of_stackAt_eq_cons hst
          obtain ⟨hpair, hbelow⟩ := ih o hlt
          refine ⟨List.pairwise_cons.mpr ⟨hbelow, hpair⟩, ?_⟩
          rintro o' (_ | ⟨_, h⟩)
          · exact hlt
          · exact Nat.lt_trans (hbelow o' h) hlt

theorem isOpen_succ : IsOpen ms (p + 1) o ↔
    (IsOpen ms p o ∧ ¬ Matches ms o p) ∨ (o = p ∧ ms[p]? = some .opener) := by
  constructor
  · rintro ⟨hlt, hopen, hnone⟩
    rcases Nat.lt_or_eq_of_le (Nat.le_of_lt_succ hlt) with h | rfl
    · exact Or.inl ⟨⟨h, hopen, fun j hj => hnone j (Nat.lt_succ_of_lt hj)⟩,
        hnone p (Nat.lt_succ_self p)⟩
    · exact Or.inr ⟨rfl, hopen⟩
  · rintro (⟨⟨hlt, hopen, hnone⟩, hp⟩ | ⟨rfl, hopen⟩)
    · refine ⟨Nat.lt_succ_of_lt hlt, hopen, fun j hj => ?_⟩
      rcases Nat.lt_or_eq_of_le (Nat.le_of_lt_succ hj) with h | rfl
      · exact hnone j h
      · exact hp
    · exact ⟨Nat.lt_succ_self _, hopen, fun j hj h =>
        absurd h.before (Nat.not_lt_of_le (Nat.le_of_lt_succ hj))⟩

theorem mem_stackAt_iff : o ∈ stackAt ms p ↔ IsOpen ms p o := by
  induction p generalizing o with
  | zero =>
      exact ⟨fun h => absurd h List.not_mem_nil, fun h => absurd h.before (Nat.not_lt_zero o)⟩
  | succ p ih =>
      rw [isOpen_succ, ← ih, matches_iff]
      cases hm : ms[p]? with
      | none => simp [stackAt_succ_none hm]
      | some m =>
          rw [stackAt_succ hm]
          cases m with
          | opener => simp [push, or_comm]
          | other => simp [push]
          | closer =>
              cases hst : stackAt ms p with
              | nil => simp [push]
              | cons o' os =>
                  have hpair := (pairwise_stackAt ms p).1
                  rw [hst] at hpair
                  have hne : o ∈ os → o' ≠ o := fun h =>
                    Nat.ne_of_gt (List.rel_of_pairwise_cons hpair h)
                  simp only [push, List.tail_cons, List.mem_cons, List.head?_cons,
                    Option.some.injEq, true_and, reduceCtorEq, and_false, or_false]
                  constructor
                  · exact fun h => ⟨Or.inr h, hne h⟩
                  · rintro ⟨rfl | h, hnot⟩
                    · exact absurd rfl hnot
                    · exact h

instance (ms : List Mark) (p o : Nat) : Decidable (IsOpen ms p o) :=
  decidable_of_iff _ mem_stackAt_iff

/-! ## Depth -/

/-- How many divs are open before place `p`. -/
def depth (ms : List Mark) (p : Nat) : Nat :=
  (List.range p).countP fun o => IsOpen ms p o

theorem length_stackAt (ms : List Mark) (p : Nat) : (stackAt ms p).length = depth ms p := by
  have hnodup : (stackAt ms p).Nodup :=
    (pairwise_stackAt ms p).1.imp fun h => Nat.ne_of_gt h
  rw [depth, List.countP_eq_length_filter]
  refine List.Perm.length_eq ((List.perm_ext_iff_of_nodup hnodup ?_).mpr fun o => ?_)
  · exact List.nodup_range.filter _
  · rw [mem_stackAt_iff, List.mem_filter, List.mem_range, decide_eq_true_eq]
    exact ⟨fun h => ⟨h.before, h⟩, And.right⟩

theorem depth_lt_of_isOpen (h : IsOpen ms p o) : depth ms o < depth ms p := by
  induction p using Nat.strongRecOn with
  | ind p ih =>
      have hmem := mem_stackAt_iff.mpr h
      cases hst : stackAt ms p with
      | nil => rw [hst] at hmem; cases hmem
      | cons o' os =>
          obtain ⟨hlt, -, -, hos⟩ := of_stackAt_eq_cons hst
          have hdepth : depth ms p = depth ms o' + 1 := by
            rw [← length_stackAt, hst, List.length_cons, hos, length_stackAt]
          rw [hst, hos, List.mem_cons] at hmem
          rcases hmem with rfl | hmem
          · omega
          · have := ih o' hlt (mem_stackAt_iff.mp hmem)
            omega

theorem depth_of_matches (h : Matches ms i j) : depth ms j = depth ms i + 1 := by
  rw [← length_stackAt, stackAt_of_matches h, List.length_cons, length_stackAt]

theorem depth_of_unmatched (h : Unmatched ms j) : depth ms j = 0 := by
  rw [← length_stackAt, (unmatched_iff.mp h).2]
  rfl

/-- The depth after a mark. -/
def Mark.depthAfter (n : Nat) : Mark → Nat
  | .opener => n + 1
  | .closer => n - 1
  | .other => n

theorem depth_succ {m : Mark} (h : ms[p]? = some m) :
    depth ms (p + 1) = m.depthAfter (depth ms p) := by
  rw [← length_stackAt, stackAt_succ h, ← length_stackAt]
  cases m with
  | opener => rfl
  | closer => exact List.length_tail
  | other => rfl

end DirectiveFences.Nesting
