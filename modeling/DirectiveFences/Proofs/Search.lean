/-
The search for a code span, said without its loops.

`CodeSpan.find?` looks for an opening delimiter and then for a closing one, each time
from left to right, and goes on behind every delimiter that a backslash escapes.  What it
finds is the first of its kind: `find?_eq_some_iff` says so by the places of the runs of
backticks alone.
-/
import DirectiveFences.Protected.CodeSpan

namespace DirectiveFences.CodeSpan

variable {text : Array Char} {n limit pos s : Nat}

/-- A run of exactly `n` backticks at a place: it ends by the limit, no backtick stands before it,
and none after it that the limit lets see. -/
structure Delimits (text : Array Char) (n limit pos : Nat) : Prop where
  ticks : ∀ k, k < n → text[pos + k]? = some '`'
  within : pos + n ≤ limit
  before : pos = 0 ∨ text[pos - 1]? ≠ some '`'
  after : pos + n = limit ∨ text[pos + n]? ≠ some '`'

/-- A run of exactly `n` backticks that no backslash escapes. -/
structure Opens (text : Array Char) (n limit pos : Nat) : Prop where
  delimits : Delimits text n limit pos
  unescaped : isEscaped text pos = false

theorem spells_replicate_iff {c : Char} : spells text (List.replicate n c) pos = true ↔
    ∀ k, k < n → text[pos + k]? = some c := by
  induction n generalizing pos with
  | zero => exact ⟨fun _ k hk => absurd hk (Nat.not_lt_zero k), fun _ => rfl⟩
  | succ n ih =>
      rw [List.replicate_succ, spells, Bool.and_eq_true, beq_iff_eq, ih]
      constructor
      · rintro ⟨hfirst, hrest⟩ k hk
        cases k with
        | zero => exact hfirst
        | succ k =>
            have := hrest k (Nat.lt_of_succ_lt_succ hk)
            rwa [Nat.add_right_comm, Nat.add_assoc] at this
      · intro h
        refine ⟨h 0 (Nat.succ_pos n), fun k hk => ?_⟩
        rw [Nat.add_right_comm, Nat.add_assoc]
        exact h (k + 1) (Nat.succ_lt_succ hk)

theorem delimiterAt_iff : delimiterAt text (List.replicate n '`') limit pos = true ↔
    Delimits text n limit pos := by
  simp only [delimiterAt, List.length_replicate, Bool.and_eq_true, Bool.or_eq_true, beq_iff_eq,
    bne_iff_ne, decide_eq_true_eq, spells_replicate_iff]
  constructor
  · rintro ⟨⟨⟨hticks, hwithin⟩, hbefore⟩, hafter⟩
    exact ⟨hticks, hwithin, hbefore, hafter⟩
  · rintro ⟨hticks, hwithin, hbefore, hafter⟩
    exact ⟨⟨⟨hticks, hwithin⟩, hbefore⟩, hafter⟩

/-- Two runs do not overlap. -/
theorem Delimits.add_le {m : Nat} (hpos : Delimits text m limit pos) (hs : Delimits text n limit s)
    (hlt : pos < s) : pos + m ≤ s := by
  refine Nat.le_of_not_lt fun hin => ?_
  have htick := hpos.ticks (s - 1 - pos) (by omega)
  rw [show pos + (s - 1 - pos) = s - 1 by omega] at htick
  exact hs.before.elim (fun h => by omega) (fun h => h htick)

theorem Delimits.lt_limit (hn : 0 < n) (h : Delimits text n limit pos) : pos < limit := by
  have := h.within
  omega

/-! ## The two loops -/

theorem nextDelimiter_eq_none_iff {room : Nat} :
    nextDelimiter text (List.replicate n '`') limit room pos = none ↔
      ∀ p, pos ≤ p → p < pos + room → ¬ Delimits text n limit p := by
  induction room generalizing pos with
  | zero => exact ⟨fun _ p hp hlt => by omega, fun _ => rfl⟩
  | succ room ih =>
      rw [nextDelimiter]
      split
      · rename_i hd
        refine ⟨nofun, fun h => ?_⟩
        exact absurd (delimiterAt_iff.mp hd) (h pos (Nat.le_refl pos) (by omega))
      · rename_i hd
        rw [ih]
        constructor
        · intro h p hp hlt
          rcases Nat.lt_or_eq_of_le hp with hp | rfl
          · exact h p hp (by omega)
          · exact fun h => hd (delimiterAt_iff.mpr h)
        · exact fun h p hp hlt => h p (by omega) (by omega)

theorem nextDelimiter_eq_some_iff {room : Nat} :
    nextDelimiter text (List.replicate n '`') limit room pos = some s ↔
      pos ≤ s ∧ s < pos + room ∧ Delimits text n limit s ∧
        ∀ p, pos ≤ p → p < s → ¬ Delimits text n limit p := by
  induction room generalizing pos with
  | zero => exact ⟨nofun, fun ⟨_, _, _, _⟩ => by omega⟩
  | succ room ih =>
      rw [nextDelimiter]
      split
      · rename_i hd
        have hd := delimiterAt_iff.mp hd
        rw [Option.some.injEq]
        constructor
        · rintro rfl
          exact ⟨Nat.le_refl _, by omega, hd, fun p hp hlt => by omega⟩
        · rintro ⟨hle, -, -, hfirst⟩
          refine (Nat.eq_or_lt_of_le hle).elim id fun hlt => ?_
          exact absurd hd (hfirst pos (Nat.le_refl pos) hlt)
      · rename_i hd
        have hd : ¬ Delimits text n limit pos := fun h => hd (delimiterAt_iff.mpr h)
        rw [ih]
        constructor
        · rintro ⟨hle, hlt, hs, hfirst⟩
          refine ⟨by omega, by omega, hs, fun p hp hps => ?_⟩
          rcases Nat.lt_or_eq_of_le hp with hp | rfl
          · exact hfirst p hp hps
          · exact hd
        · rintro ⟨hle, hlt, hs, hfirst⟩
          have hne : pos ≠ s := fun h => hd (h ▸ hs)
          exact ⟨by omega, by omega, hs, fun p hp hps => hfirst p (by omega) hps⟩

theorem nextOpening_eq_some_iff {fuel : Nat} (hn : 0 < n) (hfuel : limit - pos ≤ fuel) :
    nextOpening text (List.replicate n '`') limit fuel pos = some s ↔
      pos ≤ s ∧ Opens text n limit s ∧ ∀ p, pos ≤ p → p < s → ¬ Opens text n limit p := by
  induction fuel generalizing pos with
  | zero =>
      refine ⟨nofun, ?_⟩
      rintro ⟨hle, hs, -⟩
      have := hs.delimits.lt_limit hn
      omega
  | succ fuel ih =>
      rw [nextOpening]
      split
      · rename_i hnone
        refine ⟨nofun, ?_⟩
        rintro ⟨hle, hs, -⟩
        have hlt := hs.delimits.lt_limit hn
        exact absurd hs.delimits (nextDelimiter_eq_none_iff.mp hnone s hle (by omega))
      · rename_i d hd
        obtain ⟨hle, hlt, hdel, hfirst⟩ := nextDelimiter_eq_some_iff.mp hd
        have hbelow : ∀ p, pos ≤ p → p < d → ¬ Opens text n limit p :=
          fun p hp hpd h => hfirst p hp hpd h.delimits
        split
        · rename_i hescaped
          -- no run begins inside an escaped one, so the search goes on behind it
          have hnot : ¬ Opens text n limit d := fun h => by
            rw [h.unescaped] at hescaped
            exact Bool.noConfusion hescaped
          have hskip : ∀ p, Opens text n limit p → d ≤ p → d + n ≤ p := fun p hp hdp =>
            (Nat.eq_or_lt_of_le hdp).elim (fun h => absurd (h ▸ hp) hnot)
              fun h => hdel.add_le hp.delimits h
          rw [List.length_replicate, ih (by omega)]
          constructor
          · rintro ⟨hds, hs, hnone⟩
            refine ⟨by omega, hs, fun p hp hps hopens => ?_⟩
            rcases Nat.lt_or_ge p d with hpd | hdp
            · exact hbelow p hp hpd hopens
            · exact hnone p (hskip p hopens hdp) hps hopens
          · rintro ⟨hps, hs, hnone⟩
            have hds : d ≤ s := Nat.le_of_not_lt fun h => hbelow s hps h hs
            exact ⟨hskip s hs hds, hs, fun p hp hlt => hnone p (by omega) hlt⟩
        · rename_i hescaped
          have hopens : Opens text n limit d := ⟨hdel, by simpa using hescaped⟩
          rw [Option.some.injEq]
          constructor
          · rintro rfl
            exact ⟨hle, hopens, hbelow⟩
          · rintro ⟨hps, hs, hnone⟩
            rcases Nat.lt_trichotomy d s with hds | hds | hds
            · exact absurd hopens (hnone d hle hds)
            · exact hds
            · exact absurd hs (hbelow s hps hds)

/-! ## The span that is found -/

/-- The first code span from a place on: it begins with the first run of exactly `n` backticks that
is not escaped, and ends with the first run of exactly `n` backticks after that one. -/
structure First (text : Array Char) (n limit pos : Nat) (r : Range) : Prop where
  from_ : pos ≤ r.start
  opens : Opens text n limit r.start
  leftmost : ∀ p, pos ≤ p → p < r.start → ¬ Opens text n limit p
  inside : r.start + n ≤ r.stop - n
  closes : Delimits text n limit (r.stop - n)
  shortest : ∀ p, r.start + n ≤ p → p < r.stop - n → ¬ Delimits text n limit p

theorem First.start_lt {r : Range} (h : First text n limit pos r) (hn : 0 < n) :
    r.start < r.stop := by
  have := h.inside
  omega

theorem First.stop_le {r : Range} (h : First text n limit pos r) : r.stop ≤ limit := by
  have := h.inside
  have := h.closes.within
  omega

theorem find?_eq_some_iff {r : Range} (hn : 0 < n) (hlimit : limit ≤ text.size) :
    find? text (List.replicate n '`') pos limit = some r ↔ First text n limit pos r := by
  have hmin : min limit text.size = limit := Nat.min_eq_left hlimit
  simp only [find?, hmin, List.length_replicate]
  cases hopening : nextOpening text (List.replicate n '`') limit (limit - pos) pos with
  | none =>
      refine ⟨nofun, fun h => ?_⟩
      have := (nextOpening_eq_some_iff hn (Nat.le_refl _)).mpr ⟨h.from_, h.opens, h.leftmost⟩
      rw [hopening] at this
      cases this
  | some s =>
      obtain ⟨hle, hs, hleft⟩ := (nextOpening_eq_some_iff hn (Nat.le_refl _)).mp hopening
      have hstart : ∀ h : First text n limit pos r, r.start = s := fun h =>
        Option.some.inj (((nextOpening_eq_some_iff hn (Nat.le_refl _)).mpr
          ⟨h.from_, h.opens, h.leftmost⟩).symm.trans hopening)
      cases hclosing :
          nextDelimiter text (List.replicate n '`') limit (limit - (s + n)) (s + n) with
      | none =>
          simp only [hclosing]
          refine ⟨nofun, fun h => ?_⟩
          have hinside := h.inside
          have hlt := h.closes.lt_limit hn
          rw [hstart h] at hinside
          exact absurd h.closes (nextDelimiter_eq_none_iff.mp hclosing _ hinside (by omega))
      | some e =>
          obtain ⟨hse, helt, he, hfirst⟩ := nextDelimiter_eq_some_iff.mp hclosing
          simp only [hclosing, Option.some.injEq]
          constructor
          · rintro rfl
            have hback : e + n - n = e := Nat.add_sub_cancel ..
            exact ⟨hle, hs, hleft, by rw [hback]; exact hse, by rw [hback]; exact he,
              fun p hp hlt => hfirst p hp (by rwa [hback] at hlt)⟩
          · intro h
            have hstart := hstart h
            have hend : e = r.stop - n := by
              rcases Nat.lt_trichotomy e (r.stop - n) with hlt | heq | hgt
              · exact absurd he (h.shortest e (by rw [hstart]; exact hse) hlt)
              · exact heq
              · exact absurd h.closes (hfirst _ (by rw [← hstart]; exact h.inside) hgt)
            have hstop : r.stop = e + n := by
              have := h.inside
              omega
            rw [← hstart, ← hstop]

end DirectiveFences.CodeSpan
