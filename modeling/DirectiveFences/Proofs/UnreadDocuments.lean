/-
Documents that are not malformed, and yet not read.

A reader of settings has two limits that the format does not know: an integer may have so many
digits, and values may take so many calls inside each other.  Beyond them a document gives nothing,
not even the rest of what it says, and the failure is not that of a malformed document.  A document
of one assignment shows both: one of too many ones (`parse_ones`), and one of too many arrays, which
fails before it is seen whether they are ever closed (`parse_brackets`).
-/
import DirectiveFences.Toml.Document

namespace DirectiveFences.Toml

/-! ## Readers on a run of one character -/

theorem digitsAfter_ones (n : Nat) :
    digitsAfter isDigit (List.replicate n '1') = (List.replicate n '1', []) := by
  induction n with
  | zero => rfl
  | succ n ih =>
      rw [List.replicate_succ, digitsAfter, ih]
      · rfl
      · exact nofun

theorem joinBreaks_eq_self {cs : List Char} (h : '\r' ∉ cs) : joinBreaks cs = cs := by
  change Text.substituteFrom ['\r', '\n'] ['\n'] 0 cs = cs
  induction cs with
  | nil => rfl
  | cons c cs ih =>
      rw [List.mem_cons, not_or] at h
      have hno : List.isPrefixOf ['\r', '\n'] (c :: cs) = false := by
        rw [List.isPrefixOf, beq_eq_false_iff_ne.mpr h.1, Bool.false_and]
      rw [Text.substituteFrom, hno, if_neg Bool.false_ne_true, ih h.2]

theorem scalar_ones {n : Nat} (h : digitLimit < n) :
    scalar (List.replicate n '1') = .error (.tooManyDigits n) := by
  obtain ⟨m, rfl⟩ : ∃ m, n = m + 5 := ⟨n - 5, by rw [digitLimit] at h; omega⟩
  -- a moment has a dash or a colon before so many digits
  have hdate : dated? (List.replicate (m + 5) '1') = none := rfl
  have hclock : clock? (List.replicate (m + 5) '1') = none := by
    have htwo : fixed? 2 (List.replicate (m + 5) '1') =
        some (Double.natOfDigits ['1', '1'], List.replicate (m + 3) '1') := rfl
    rw [clock?, two?, htwo]
    simp only
    split <;> rfl
  have hbased : based? (List.replicate (m + 5) '1') = none := rfl
  have hwhole : whole? (List.replicate (m + 5) '1') = some (List.replicate (m + 5) '1', []) := by
    have hfirst : whole? ('1' :: List.replicate (m + 4) '1') =
        digits? isDigit ('1' :: List.replicate (m + 4) '1') := by
      rw [whole?]
      exact nofun
    rw [List.replicate_succ, hfirst, digits?, digitsAfter_ones]
    rfl
  have hsign : sign (List.replicate (m + 5) '1') = (false, List.replicate (m + 5) '1') := rfl
  have hplaces : places [] = ([], []) := rfl
  have hpower : power? [] = none := rfl
  simp only [scalar, hdate, hclock, hbased, decimal?, hsign, hwhole, Option.map_some, hplaces,
    hpower, List.length_replicate, h, if_true]

theorem value_ones {fuel room n : Nat} (h : digitLimit < n) :
    value (fuel + 1) room (List.replicate n '1') = .error (.tooManyDigits n) := by
  obtain ⟨m, rfl⟩ : ∃ m, n = m + 1 := ⟨n - 1, by rw [digitLimit] at h; omega⟩
  rw [value, ← scalar_ones h]
  · rfl
  · exact nofun
  · exact nofun

theorem items_open (fuel room : Nat) (cs : List Char) {e : Error}
    (h : inside 1 room (fun room => value fuel room ('[' :: cs)) = .error e) :
    items (fuel + 1) room [] ('[' :: cs) = .error e := by
  have hskip : skipBetweenItems (('[' :: cs).length + 1) ('[' :: cs) = .ok ('[' :: cs) := rfl
  simp only [items, hskip, bind, Except.bind]
  split
  · rename_i heq
    cases heq
  · rw [h]

theorem value_brackets {fuel room n : Nat} (cs : List Char) (hfuel : 2 * n ≤ fuel)
    (h : room + 1 < 2 * n) : value fuel room (List.replicate n '[' ++ cs) = .error .tooDeep := by
  induction n generalizing fuel room with
  | zero => omega
  | succ n ih =>
      obtain ⟨fuel, rfl⟩ : ∃ f, fuel = f + 2 := ⟨fuel - 2, by omega⟩
      have hopen : value (fuel + 2) room ('[' :: (List.replicate n '[' ++ cs)) =
          inside 1 room fun room =>
            (items (fuel + 1) room [] (List.replicate n '[' ++ cs)).map
              fun result => (.array result.1, result.2) := rfl
      rw [List.replicate_succ, List.cons_append, hopen]
      cases room with
      | zero => rfl
      | succ room =>
          obtain ⟨n, rfl⟩ : ∃ m, n = m + 1 := ⟨n - 1, by omega⟩
          have hnext : inside 1 room (fun room => value fuel room
              ('[' :: (List.replicate n '[' ++ cs))) = .error .tooDeep := by
            cases room with
            | zero => rfl
            | succ room =>
                exact ih (by omega) (by omega)
          have hitems := items_open fuel room _ hnext
          rw [List.replicate_succ, List.cons_append, inside, if_pos (Nat.le_add_left 1 room),
            Nat.add_sub_cancel, hitems]
          rfl

/-! ## Documents of one assignment -/

theorem parse_assignment {room : Nat} {cs : List Char} {e : Error} (hreturn : '\r' ∉ cs)
    (hblank : skipSpaces cs = cs) (h : value (2 * cs.length + 1) room cs = .error e) :
    parse room ('x' :: '=' :: cs) = .error e := by
  have haddress : address ('x' :: '=' :: cs) = .ok (⟨[], "x"⟩, '=' :: cs) := rfl
  have hstatement : statement room {} ('x' :: '=' :: cs) = .error e := by
    rw [statement, haddress]
    · simp only [bind, Except.bind, hblank, h]
    · exact nofun
    · exact nofun
    · exact nofun
  have hskip : skipSpaces ('x' :: '=' :: cs) = 'x' :: '=' :: cs := rfl
  rw [parse, joinBreaks_eq_self (by simpa using hreturn)]
  rw [statements, hskip]
  split
  · rename_i heq
    cases heq
  · rename_i heq
    cases heq
  · rw [hstatement]
    rfl

/-- A document of one integer with more digits than are read is not malformed, and yet gives
nothing. -/
theorem parse_ones {room n : Nat} (h : digitLimit < n) :
    parse room ('x' :: '=' :: List.replicate n '1') = .error (.tooManyDigits n) := by
  refine parse_assignment (by simp [List.mem_replicate]) ?_ (value_ones h)
  cases n <;> rfl

theorem parse_brackets {room n : Nat} {cs : List Char} (hreturn : '\r' ∉ cs)
    (h : room + 1 < 2 * n) :
    parse room ('x' :: '=' :: (List.replicate n '[' ++ cs)) = .error .tooDeep := by
  refine parse_assignment (by simp [List.mem_replicate, hreturn]) ?_ (value_brackets cs ?_ h)
  · obtain ⟨m, rfl⟩ : ∃ m, n = m + 1 := ⟨n - 1, by omega⟩
    rfl
  · simp only [List.length_append, List.length_replicate]
    omega

end DirectiveFences.Toml
