/-
Settings that can be used.

A check tells what is wrong with settings, the first thing first.  Here is the same from the other
side: what settings are like when nothing is wrong (`Settings.Valid`), whatever kinds of
values they were given.
-/
import DirectiveFences.Settings.Basic

namespace DirectiveFences.Settings

variable {s : Settings} {v : Value}

/-- The dialect is known, each toggle is a truth value once those not given are taken from the
profile of the dialect, and the size is a positive integer. -/
structure Valid (s : Settings) : Prop where
  dialect : s.dialect = .text "quarto" ∨ s.dialect = .text "pandoc"
  shortcodes : ∃ b, s.resolved.shortcodes = .bool b
  mathLabels : ∃ b, s.resolved.mathLabels = .bool b
  maxSize : ∃ n, s.maxSize = .int n ∧ 0 < n

/-- Every field has a value of its kind. -/
structure Complete (s : Settings) : Prop where
  dialect : s.dialect = .text "quarto" ∨ s.dialect = .text "pandoc"
  shortcodes : ∃ b, s.shortcodes = .bool b
  mathLabels : ∃ b, s.mathLabels = .bool b
  maxSize : ∃ n, s.maxSize = .int n ∧ 0 < n

/-! ## Single fields -/

theorem profile?_isNone_iff :
    (profile? v).isNone = true ↔ ¬ (v = .text "quarto" ∨ v = .text "pandoc") := by
  unfold profile?
  split
  · exact ⟨nofun, fun h => absurd (Or.inl rfl) h⟩
  · exact ⟨nofun, fun h => absurd (Or.inr rfl) h⟩
  · rename_i hquarto hpandoc
    exact ⟨fun _ h => h.elim hquarto hpandoc, fun _ => rfl⟩

theorem isBool_iff : isBool v = true ↔ ∃ b, v = .bool b := by
  cases v with
  | bool b => exact ⟨fun _ => ⟨b, rfl⟩, fun _ => rfl⟩
  | null | int | float | text | moment | array | table => exact ⟨nofun, nofun⟩

theorem checkSize_eq_ok_iff : checkSize v = .ok () ↔ ∃ n, v = .int n ∧ 0 < n := by
  cases v with
  | int n =>
      rw [checkSize]
      split
      · rename_i hle
        refine ⟨nofun, ?_⟩
        rintro ⟨m, heq, hpos⟩
        cases heq
        exact absurd hpos (Int.not_lt.mpr hle)
      · rename_i hle
        exact ⟨fun _ => ⟨n, rfl, Int.not_le.mp hle⟩, fun _ => rfl⟩
  | null | bool | float | text | moment | array | table => exact ⟨nofun, nofun⟩

/-! ## All fields -/

theorem check_eq_ok_iff : s.check = .ok () ↔ s.Valid := by
  unfold check
  split
  · rename_i hnone
    exact ⟨nofun, fun h => absurd h.dialect (profile?_isNone_iff.mp hnone)⟩
  · rename_i hsome
    have hdialect := Classical.not_not.mp (mt profile?_isNone_iff.mpr hsome)
    split
    · rename_i hbool
      rw [Bool.not_eq_true', ← Bool.not_eq_true, isBool_iff] at hbool
      exact ⟨nofun, fun h => absurd h.shortcodes hbool⟩
    · rename_i hshortcodes
      rw [Bool.not_eq_true', Bool.not_eq_false, isBool_iff] at hshortcodes
      split
      · rename_i hbool
        rw [Bool.not_eq_true', ← Bool.not_eq_true, isBool_iff] at hbool
        exact ⟨nofun, fun h => absurd h.mathLabels hbool⟩
      · rename_i hmath
        rw [Bool.not_eq_true', Bool.not_eq_false, isBool_iff] at hmath
        rw [checkSize_eq_ok_iff]
        exact ⟨fun h => ⟨hdialect, hshortcodes, hmath, h⟩, Valid.maxSize⟩

theorem check_of_not_valid (h : ¬ s.Valid) : ∃ e, s.check = .error e := by
  cases hcheck : s.check with
  | error e => exact ⟨e, rfl⟩
  | ok _ => exact absurd (check_eq_ok_iff.mp hcheck) h

theorem dialect_resolved (s : Settings) : s.resolved.dialect = s.dialect := by
  unfold resolved
  split <;> rfl

theorem maxSize_resolved (s : Settings) : s.resolved.maxSize = s.maxSize := by
  unfold resolved
  split <;> rfl

theorem Valid.complete (h : s.Valid) : s.resolved.Complete :=
  ⟨s.dialect_resolved ▸ h.dialect, h.shortcodes, h.mathLabels, s.maxSize_resolved ▸ h.maxSize⟩

theorem toggles_eq {b c : Bool} (hshortcodes : s.resolved.shortcodes = .bool b)
    (hmath : s.resolved.mathLabels = .bool c) : s.toggles = ⟨b, c⟩ := by
  rw [toggles, hshortcodes, hmath]
  rfl

end DirectiveFences.Settings
