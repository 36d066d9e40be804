/-
What restoring makes of a text.

Restoring is a map over the lines, so it can be read off a single line (`body`).  A line is
rewritten if it is a fence of a directive, and what is written for it never is one: behind the
three colons stands a blank, or nothing.  Hence a second pass finds nothing to do.

For the passes to see the same line, the carriage return that is put back must be the one that is
split off again.  It is, because what is written for a fence ends in a colon, in a character of a
name or in a brace; a carriage return in front of the ending can only stand in a line that is not
rewritten.
-/
import DirectiveFences.Proofs.LineClass
import DirectiveFences.Proofs.LineEndings

namespace DirectiveFences.Restore

open Text Shape

/-- A line that opens or closes a directive, by four colons or more. -/
def IsFence (b : List Char) : Prop :=
  (directiveOpener? b).isSome = true ∨ isDirectiveCloser b = true

instance (b : List Char) : Decidable (IsFence b) :=
  inferInstanceAs (Decidable (_ ∨ _))

/-! ## One line -/

theorem not_isFence_iff {b : List Char} :
    ¬ IsFence b ↔ directiveOpener? b = none ∧ isDirectiveCloser b = false := by
  rw [IsFence, not_or, Bool.not_eq_true, Bool.not_eq_true, Option.isSome_eq_false_iff,
    Option.isNone_iff_eq_none]

theorem not_isFence_of_longFence? {b : List Char} (h : longFence? b = none) : ¬ IsFence b := by
  refine not_isFence_iff.mpr ⟨?_, ?_⟩
  · rw [directiveOpener?, h]
    rfl
  · rw [isDirectiveCloser, h]

theorem body_of_not_isFence {b : List Char} (h : ¬ IsFence b) : body b = b := by
  obtain ⟨hopener, hcloser⟩ := not_isFence_iff.mp h
  exact body_of_other hopener hcloser

theorem longFence?_divOpener (name : List Char) (attributes : Option (List Char)) :
    longFence? (divOpener name attributes) = none := by
  have hblank : ∀ rest : List Char, (' ' :: rest).head? ≠ some ':' := fun rest h => by cases h
  rw [divOpener_eq]
  split
  · split
    · rfl
    · exact longFence?_of_head_ne (hblank _)
  · exact longFence?_of_head_ne (hblank _)

theorem not_isFence_body (b : List Char) : ¬ IsFence (body b) := by
  cases hopener : directiveOpener? b with
  | some parts =>
      obtain ⟨name, attributes⟩ := parts
      rw [body_of_opener hopener]
      exact not_isFence_of_longFence? (longFence?_divOpener name attributes)
  | none =>
      cases hcloser : isDirectiveCloser b with
      | true =>
          rw [body_of_closer hopener hcloser]
          exact not_isFence_of_longFence? rfl
      | false =>
          rw [body_of_other hopener hcloser]
          exact not_isFence_iff.mpr ⟨hopener, hcloser⟩

/-! ## One line with its ending -/

/-- What is written for a raw line. -/
def rawLine (raw : List Char) : List Char :=
  (line (Line.ofList raw)).toList

theorem ofList_rawLine (raw : List Char) :
    Line.ofList (rawLine raw) = ⟨body (Line.ofList raw).body, (Line.ofList raw).ending⟩ := by
  rw [rawLine, line_eq]
  exact Convert.ofList_append_ending Convert.getLast?_body

theorem ended_rawLine_iff (raw : List Char) : Ended (rawLine raw) ↔ Ended raw := by
  rw [← Convert.ending_eq_return_iff, ← Convert.ending_eq_return_iff, ofList_rawLine]

theorem rawLine_of_not_isFence {raw : List Char} (h : ¬ IsFence (Line.ofList raw).body) :
    rawLine raw = raw := by
  rw [rawLine, line_eq, body_of_not_isFence h]
  exact Line.toList_ofList raw

theorem not_isFence_rawLine (raw : List Char) : ¬ IsFence (Line.ofList (rawLine raw)).body := by
  rw [ofList_rawLine]
  exact not_isFence_body _

/-! ## Texts -/

theorem split_text_eq (t : List Char) : split (text t) = (split t).map rawLine :=
  split_text t

theorem text_of_not_isFence {t : List Char}
    (h : ∀ raw ∈ split t, ¬ IsFence (Line.ofList raw).body) : text t = t := by
  have hlines : split (text t) = split t := by
    rw [split_text_eq]
    exact (List.map_congr_left fun raw hraw => rawLine_of_not_isFence (h raw hraw)).trans
      (List.map_id _)
  rw [← join_split (text t), hlines, join_split]

theorem not_isFence_of_mem_text {t raw : List Char} (h : raw ∈ split (text t)) :
    ¬ IsFence (Line.ofList raw).body := by
  rw [split_text_eq] at h
  obtain ⟨source, -, rfl⟩ := List.mem_map.mp h
  exact not_isFence_rawLine source

/-- Two texts that are put together with a line feed are restored each by itself. -/
theorem text_append_break (a b : List Char) : text (a ++ '\n' :: b) = text a ++ '\n' :: text b := by
  have hlines : split (text (a ++ '\n' :: b)) = split (text a ++ '\n' :: text b) := by
    rw [split_append_break, split_text_eq, split_text_eq, split_text_eq, split_append_break,
      List.map_append]
  rw [← join_split (text (a ++ '\n' :: b)), hlines, join_split]

/-- **Restoring is a projection that works line by line.**  A second pass changes nothing; texts
that are put together with a line feed are restored each by itself; and every line comes back as one
line in its place, which ends in a carriage return exactly if it did before, is no fence of a
directive, and is the same as before unless that was one. -/
theorem restores_each_line :
    (∀ a, text (text a) = text a) ∧
    (∀ a b, text (a ++ '\n' :: b) = text a ++ '\n' :: text b) ∧
    (∀ a, (split (text a)).length = (split a).length) ∧
    ∀ (a : List Char) (i : Nat) (raw : List Char), (split a)[i]? = some raw →
      ∃ restored, (split (text a))[i]? = some restored ∧
        (Ended restored ↔ Ended raw) ∧
        directiveOpener? (Line.ofList restored).body = none ∧
        isDirectiveCloser (Line.ofList restored).body = false ∧
        (directiveOpener? (Line.ofList raw).body = none →
          isDirectiveCloser (Line.ofList raw).body = false → restored = raw) := by
  refine ⟨fun a => ?_, text_append_break, fun a => ?_, fun a i raw hraw => ?_⟩
  · exact text_of_not_isFence fun raw hraw => not_isFence_of_mem_text hraw
  · rw [split_text_eq, List.length_map]
  · obtain ⟨hopener, hcloser⟩ := not_isFence_iff.mp (not_isFence_rawLine raw)
    refine ⟨rawLine raw, ?_, ended_rawLine_iff raw, hopener, hcloser, fun ho hc => ?_⟩
    · rw [split_text_eq, List.getElem?_map, hraw]
      rfl
    · exact rawLine_of_not_isFence (not_isFence_iff.mpr ⟨ho, hc⟩)

/-- A brace group that is not closed is dropped with what follows it, and of two carriage returns
the first one goes with the blanks behind a fence. -/
example : text "::::note\x7b.a\n:::::\r\r\n::::qmd\x7b\r\x7dx\r\n::::é-1".toList =
    "::: note\n:::\r\n::: \x7b\r\x7d\r\n::: é-1".toList := by
  decide +kernel

end DirectiveFences.Restore
