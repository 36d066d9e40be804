/-
How tags, addresses and link targets end.

Raw HTML and an autolink end with a closing angle bracket, and the target of a link with
a closing parenthesis.  So what stands before the place where the reader goes on is no
backslash: a backtick there is not escaped.
-/
import DirectiveFences.Markdown.Inline

namespace DirectiveFences.Markdown

/-! ## Raw HTML -/

namespace Html

theorem lengthThrough_ends (front : List Char) {cs : List Char} {c : Char} {n k : Nat}
    (h : lengthThrough (front ++ [c]) n cs = some k) : n < k ∧ cs[k - n - 1]? = some c := by
  induction cs generalizing n with
  | nil => cases h
  | cons d cs ih =>
      rw [lengthThrough] at h
      split at h
      · rename_i hmark
        obtain ⟨rest, hrest⟩ := List.isPrefixOf_iff_prefix.mp hmark
        have hk : k = n + (front.length + 1) := by simpa using (Option.some.inj h).symm
        refine ⟨by omega, ?_⟩
        rw [show k - n - 1 = front.length by omega, ← hrest, List.append_assoc]
        simp
      · obtain ⟨hlt, hend⟩ := ih h
        refine ⟨by omega, ?_⟩
        rw [show k - n - 1 = (k - (n + 1) - 1) + 1 by omega, List.getElem?_cons_succ]
        exact hend

theorem attributesLength?_ends {fuel n k : Nat} {cs : List Char}
    (h : attributesLength? fuel n cs = some k) : n < k ∧ cs[k - n - 1]? = some '>' := by
  induction fuel generalizing n cs with
  | zero => cases h
  | succ fuel ih =>
      rw [attributesLength?] at h
      have hdrop : ∀ i, (cs.drop (cs.takeWhile Text.isBlank).length)[i]? =
          cs[(cs.takeWhile Text.isBlank).length + i]? := fun i => List.getElem?_drop
      generalize (cs.takeWhile Text.isBlank).length = blanks at h hdrop
      simp only at h
      split at h
      · rename_i rest hrest
        have hk : k = n + blanks + 1 := (Option.some.inj h).symm
        refine ⟨by omega, ?_⟩
        have := hdrop 0
        rw [hrest] at this
        rw [show k - n - 1 = blanks + 0 by omega, ← this]
        rfl
      · rename_i rest hrest
        have hk : k = n + blanks + 2 := (Option.some.inj h).symm
        refine ⟨by omega, ?_⟩
        have := hdrop 1
        rw [hrest] at this
        rw [show k - n - 1 = blanks + 1 by omega, ← this]
        rfl
      · split at h
        · obtain ⟨j, -, hj⟩ := List.exists_of_findSome?_eq_some h
          obtain ⟨hlt, hend⟩ := ih hj
          refine ⟨by omega, ?_⟩
          rw [List.drop_drop, List.getElem?_drop, hdrop] at hend
          rw [← hend]
          congr 1
          omega
        · cases h
      · cases h

theorem openTagLength?_ends {cs : List Char} {n : Nat} (h : openTagLength? cs = some n) :
    0 < n ∧ cs[n - 1]? = some '>' := by
  unfold openTagLength? at h
  split at h
  · rename_i cs
    obtain ⟨k, -, hk⟩ := Option.bind_eq_some_iff.mp h
    obtain ⟨hlt, hend⟩ := attributesLength?_ends hk
    refine ⟨by omega, ?_⟩
    rw [List.getElem?_drop] at hend
    rw [show n - 1 = (k + (n - (k + 1) - 1)) + 1 by omega, List.getElem?_cons_succ]
    exact hend
  · cases h

theorem closeTagLength?_ends {cs : List Char} {n : Nat} (h : closeTagLength? cs = some n) :
    0 < n ∧ cs[n - 1]? = some '>' := by
  unfold closeTagLength? at h
  split at h
  · rename_i cs
    obtain ⟨k, -, hk⟩ := Option.bind_eq_some_iff.mp h
    simp only at hk
    split at hk
    · rename_i hend
      rw [List.head?_drop] at hend
      have hn := (Option.some.inj hk).symm
      refine ⟨by omega, ?_⟩
      rw [hn, ← hend]
      rw [show 2 + k + ((cs.drop k).takeWhile Text.isBlank).length + 1 - 1
        = (k + ((cs.drop k).takeWhile Text.isBlank).length) + 1 + 1 by omega,
        List.getElem?_cons_succ, List.getElem?_cons_succ]
    · cases hk
  · cases h

theorem end_after {cs : List Char} {c : Char} {n k : Nat} (front : List Char)
    (h : n + front.length < k ∧ cs[k - (n + front.length) - 1]? = some c) :
    n < k ∧ (front ++ cs)[k - n - 1]? = some c := by
  refine ⟨by omega, ?_⟩
  rw [List.getElem?_append_right (by omega), ← h.2]
  congr 1
  omega

theorem commentLength?_ends {fuel n k : Nat} {cs : List Char}
    (h : commentLength? fuel n cs = some k) : n < k ∧ cs[k - n - 1]? = some '>' := by
  fun_induction commentLength? fuel n cs with
  | case1 => cases h
  | case2 fuel n rest =>
      have hk : k = n + 3 := (Option.some.inj h).symm
      refine ⟨by omega, ?_⟩
      rw [show k - n - 1 = 2 by omega]
      rfl
  | case3 fuel n d cs _ ih => exact end_after ['-', '-', d] (ih h)
  | case4 => cases h
  | case5 => cases h
  | case6 fuel n d cs _ _ _ ih => exact end_after ['-', d] (ih h)
  | case7 fuel n d cs _ _ _ _ _ ih => exact end_after [d] (ih h)
  | case8 => cases h

theorem markupLength?_ends {cs : List Char} {n : Nat} (h : markupLength? cs = some n) :
    2 < n ∧ cs[n - 2 - 1]? = some '>' := by
  unfold markupLength? at h
  split at h
  · obtain rfl := Option.some.inj h
    exact ⟨by decide, rfl⟩
  · obtain rfl := Option.some.inj h
    exact ⟨by decide, rfl⟩
  · exact end_after ['-', '-'] (commentLength?_ends h)
  · exact end_after ['[', 'C', 'D', 'A', 'T', 'A', '['] (lengthThrough_ends [']', ']'] h)
  · rename_i c cs _ _ _ _
    split at h
    · exact end_after [c] (lengthThrough_ends [] h)
    · cases h
  · cases h

theorem tagLength?_ends {cs : List Char} {n : Nat} (h : tagLength? cs = some n) :
    0 < n ∧ cs[n - 1]? = some '>' := by
  unfold tagLength? at h
  split at h
  · exact end_after ['<', '!'] (markupLength?_ends h)
  · exact end_after ['<', '?'] (lengthThrough_ends ['?'] h)
  · exact closeTagLength?_ends h
  · exact openTagLength?_ends h

end Html

namespace Inline

/-! ## Addresses and targets -/

theorem autolink?_ends {room : Nat} {rest address : List Char}
    (h : autolink? room rest = some address) : rest[address.length + 1]? = some '>' := by
  unfold autolink? at h
  simp only at h
  split at h
  · rename_i hcond
    rw [Bool.and_eq_true, decide_eq_true_eq, List.head?_drop] at hcond
    have haddress : address = (rest.drop 1).takeWhile fun c => c != '<' && c != '>' := by
      split at h
      · split at h
        · exact (Option.some.inj h).symm
        · cases h
      · split at h
        · exact (Option.some.inj h).symm
        · cases h
    rw [haddress]
    exact of_decide_eq_true hcond.2
  · cases h

theorem innerTarget_ends {room n : Nat} {rest : List Char} (h : innerTarget room rest = .closed n) :
    rest[n]? = some ')' := by
  unfold innerTarget at h
  extract_lets before at h
  split at h
  · cases h
  · rename_i atDest _ dest afterDest _ between atTitle _ title afterTitle _ after read _
    split at h
    · rename_i hcond
      have hend : (afterTitle.drop after).head? = some ')' :=
        of_decide_eq_true (Bool.and_eq_true_iff.mp hcond).2
      have hread : read = n := Inner.closed.inj h
      rw [List.head?_drop, List.getElem?_drop, List.getElem?_drop, List.getElem?_drop,
        List.getElem?_drop] at hend
      rw [← hread, ← hend]
      congr 1
      omega
    · cases h

end Inline

end DirectiveFences.Markdown
