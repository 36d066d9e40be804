/-
The content of headings and of the cells of a table.

Both are parts of one line.  A heading loses its hash signs.  A row is cut at its bars; a
bar after a backslash belongs to its cell without the backslash, which is the one mark
that content ever loses.  It is lost before a bar, so no run is torn apart.
-/
import DirectiveFences.Proofs.Rows

namespace DirectiveFences.Markdown

section

variable {source : Array Char} {l l' : List Placed} {p b : Placed}

/-- Content may be cut in two at a character that is no mark. -/
theorem Laid.cut (h : Laid source (l ++ p :: l')) (hp : ¬ IsMark p.1) :
    Laid source l ∧ Laid source l' := by
  refine ⟨h.left_of_append fun q hq => ?_, ?_⟩
  · rwa [← Option.some.inj hq]
  · rw [← List.singleton_append, ← List.append_assoc] at h
    refine h.right_of_append fun q hq => ?_
    rw [List.getLast?_concat] at hq
    rwa [← Option.some.inj hq]

theorem Laid.dropSlash (h : Laid source (l ++ b :: p :: l')) (hb : b.1 = '\\') (hp : p.1 = '|')
    (hplace : p.2 = b.2 + 1) (hfeed : ∀ y ∈ l, y.1 ≠ '\n') : Laid source (l ++ p :: l') := by
  have hright : (p :: l').IsChain (Follows source) := h.chain.right_of_append.tail
  refine ⟨fun q hq => h.reads q ?_, ?_, fun q hq => ?_, fun q hq => ?_⟩
  · rcases List.mem_append.mp hq with hq | hq
    · exact List.mem_append_left _ hq
    · exact List.mem_append_right l (List.mem_cons_of_mem b hq)
  · refine h.chain.left_of_append.append hright fun y hy q hq => ?_
    obtain rfl := Option.some.inj hq
    have hslash : source[b.2]? = some '\\' :=
      (h.reads b (List.mem_append_right l List.mem_cons_self)).slash.mp hb
    -- a backslash follows nothing but its neighbour, since the row has no line feed
    have hyb : b.2 = y.2 + 1 := by
      cases (List.isChain_append.mp h.chain).2.2 y hy b rfl with
      | next place => exact place
      | tab _ hspace _ => exact absurd (hb.symm.trans hspace) (by decide)
      | line hnew _ _ => exact absurd hnew (hfeed y (List.mem_of_getLast? hy))
      | bar hbar _ _ => exact absurd (hb.symm.trans hbar) (by decide)
    exact Follows.bar hp (by omega) (hyb ▸ hslash)
  · cases l with
    | nil =>
        obtain rfl := Option.some.inj hq
        intro hmark
        exact absurd hp (ne_of_isMark hmark (by decide))
    | cons y l => exact h.front q hq
  · refine h.back q ?_
    rw [List.getLast?_append, List.getLast?_cons_cons, ← List.getLast?_append]
    exact hq

end

theorem exists_stripPlaced (c : List Placed) :
    ∃ front back, c = front ++ (stripPlaced c ++ back) := by
  refine ⟨c.takeWhile fun p => Text.isBlank p.1,
    ((c.dropWhile fun p => Text.isBlank p.1).reverse.takeWhile fun p => Text.isBlank p.1).reverse,
    ?_⟩
  rw [stripPlaced, ← List.reverse_append, List.takeWhile_append_dropWhile, List.reverse_reverse,
    List.takeWhile_append_dropWhile]

theorem stripPlaced_sublist (c : List Placed) : (stripPlaced c).Sublist c := by
  obtain ⟨front, back, heq⟩ := exists_stripPlaced c
  have h : (stripPlaced c).Sublist (front ++ (stripPlaced c ++ back)) :=
    (List.sublist_append_left ..).trans (List.sublist_append_right ..)
  rwa [← heq] at h

namespace Table

variable {source : Array Char}

theorem cellsFrom_sublist (cell ps : List Placed) :
    (cellsFrom cell ps).flatten.Sublist (cell.reverse ++ ps) := by
  fun_induction cellsFrom cell ps with
  | case1 cell => simp
  | case2 p ps hp b cell hb ih =>
      refine ih.trans ?_
      simp only [List.reverse_cons, List.append_assoc, List.singleton_append]
      exact (List.sublist_cons_self b _).append_left _
  | case3 p ps hp b cell hb ih =>
      rw [List.flatten_cons]
      exact (ih.trans (List.sublist_cons_self p ps)).append_left _
  | case4 p ps hp ih => exact ih.trans (List.sublist_cons_self p ps)
  | case5 cell p ps hp ih =>
      rw [List.reverse_cons, List.append_assoc] at ih
      exact ih

theorem not_isMark_bar {p : Placed} (hp : p.1 = '|') : ¬ IsMark p.1 :=
  fun hmark => ne_of_isMark hmark (by decide) hp

theorem cellsFrom_laid (cell ps : List Placed) (h : Laid source (cell.reverse ++ ps))
    (hnext : (cell.head?.toList ++ ps).IsChain fun p q => q.2 = p.2 + 1)
    (hfeed : ∀ p ∈ cell.reverse ++ ps, p.1 ≠ '\n') :
    ∀ c ∈ cellsFrom cell ps, Laid source c := by
  fun_induction cellsFrom cell ps with
  | case1 cell =>
      intro c hc
      obtain rfl := List.mem_singleton.mp hc
      rwa [List.append_nil] at h
  | case2 p ps hp b cell hb ih =>
      simp only [List.reverse_cons, List.append_assoc, List.singleton_append] at h hfeed ih
      have hplace : p.2 = b.2 + 1 := (List.isChain_cons_cons.mp hnext).1
      have hfeed' : ∀ y ∈ cell.reverse, y.1 ≠ '\n' := fun y hy =>
        hfeed y (List.mem_append_left _ hy)
      refine ih (h.dropSlash hb hp hplace hfeed') (List.isChain_cons_cons.mp hnext).2
        fun q hq => hfeed q ?_
      rcases List.mem_append.mp hq with hq | hq
      · exact List.mem_append_left _ hq
      · exact List.mem_append_right _ (List.mem_cons_of_mem b hq)
  | case3 p ps hp b cell hb ih =>
      obtain ⟨hleft, hright⟩ := h.cut (not_isMark_bar hp)
      refine List.forall_mem_cons.mpr ⟨hleft, ih hright hnext.tail.tail fun q hq => hfeed q ?_⟩
      exact List.mem_append_right _ (List.mem_cons_of_mem p hq)
  | case4 p ps hp ih =>
      obtain ⟨hleft, hright⟩ := h.cut (l := []) (not_isMark_bar hp)
      refine List.forall_mem_cons.mpr ⟨hleft, ih hright hnext.tail fun q hq => hfeed q ?_⟩
      exact List.mem_cons_of_mem p hq
  | case5 cell p ps hp ih =>
      rw [List.reverse_cons, List.append_assoc] at ih
      exact ih h hnext.right_of_append hfeed

theorem cells_sublist (row : List Placed) :
    (cells row).Sublist (cellsFrom [] (stripPlaced row)) := by
  rw [cells]
  have hdrop : (if (cellsFrom [] (stripPlaced row)).head? = some [] then
      (cellsFrom [] (stripPlaced row)).drop 1 else cellsFrom [] (stripPlaced row)).Sublist
      (cellsFrom [] (stripPlaced row)) := by
    split
    · exact List.drop_sublist ..
    · exact List.Sublist.refl _
  generalize (if (cellsFrom [] (stripPlaced row)).head? = some [] then
    (cellsFrom [] (stripPlaced row)).drop 1 else cellsFrom [] (stripPlaced row)) = all at hdrop ⊢
  split
  · exact (List.dropLast_sublist all).trans hdrop
  · exact hdrop

section

variable {row : List Placed}

theorem mem_of_mem_cells {c : List Placed} (hc : c ∈ cells row) {p : Placed} (hp : p ∈ c) :
    p ∈ row := by
  have hflat : p ∈ (cellsFrom [] (stripPlaced row)).flatten :=
    List.mem_flatten_of_mem ((cells_sublist row).mem hc) hp
  exact (stripPlaced_sublist row).mem ((cellsFrom_sublist [] (stripPlaced row)).mem hflat)

/-- A cell of a row is laid out in the source when the row is. -/
theorem cells_laid (h : Laid source row) (hnext : row.IsChain fun p q => q.2 = p.2 + 1)
    (hfeed : ∀ p ∈ row, p.1 ≠ '\n') : ∀ c ∈ cells row, Laid source c := by
  intro c hc
  obtain ⟨front, back, heq⟩ := exists_stripPlaced row
  refine cellsFrom_laid [] (stripPlaced row) h.stripPlaced ?_ (fun p hp => hfeed p ?_) c
    ((cells_sublist row).mem hc)
  · rw [heq] at hnext
    exact hnext.right_of_append.left_of_append
  · exact (stripPlaced_sublist row).mem hp

theorem cells_pairwise (hnext : row.IsChain fun p q => q.2 = p.2 + 1) :
    (cells row).Pairwise fun c c' => ∀ p ∈ c, ∀ q ∈ c', p.2 < q.2 := by
  have hlt : row.IsChain fun p q => p.2 < q.2 := hnext.imp fun p q h => by omega
  have : Trans (fun p q : Placed => p.2 < q.2) (fun p q : Placed => p.2 < q.2)
      (fun p q : Placed => p.2 < q.2) := ⟨Nat.lt_trans⟩
  have hcells := (hlt.pairwise.sublist (stripPlaced_sublist row)).sublist
    (cellsFrom_sublist [] (stripPlaced row))
  exact (List.pairwise_flatten.mp hcells).2.sublist (cells_sublist row)

end

end Table

/-! ## Headings -/

namespace Block

variable {source : Array Char} {cs : List Placed}

theorem headingText_sublist (cs : List Placed) : (headingText cs).Sublist cs := by
  have hbody : (cs.dropWhile fun p => p.1 == '#').Sublist cs := List.dropWhile_sublist _
  rw [headingText]
  refine (stripPlaced_sublist _).trans (List.Sublist.trans ?_ hbody)
  rw [← List.reverse_sublist, List.reverse_reverse]
  split
  · exact (List.dropWhile_sublist _).trans (List.dropWhile_sublist _)
  · exact List.dropWhile_sublist _

theorem headingText_laid (h : Laid source cs) : Laid source (headingText cs) := by
  have hhash : ∀ p : Placed, (p.1 == '#') = true → ¬ IsMark p.1 := fun p hp hmark =>
    ne_of_isMark hmark (by decide) (beq_iff_eq.mp hp)
  have hbody := h.dropWhile hhash
  have hback := hbody.dropWhile_reverse (p := fun p => Text.isSpace p.1)
    fun p hp => Row.not_isMark_of_isSpace hp
  rw [headingText]
  refine Laid.stripPlaced ?_
  split
  · have hcut := hback.dropWhile_reverse hhash
    rwa [List.reverse_reverse] at hcut
  · exact hback

end Block

end DirectiveFences.Markdown
