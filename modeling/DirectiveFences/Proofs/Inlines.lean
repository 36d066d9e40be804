/-
Code spans as the inline parser finds them.

The parser skips a bracket to learn whether it starts a link, and reads the text of a
link by itself.  Neither changes where code spans are: every token begins at a place that
no backslash escapes, and the text of a link ends before a bracket.  So each code span
that `pieces` lists stands in the content, and the later ones begin behind the earlier
ones.
-/
import DirectiveFences.Proofs.Backticks
import DirectiveFences.Proofs.Tags

namespace DirectiveFences.Markdown.Inline

open CodeSpan
open Scan (Stands)

/-! ## What is remembered -/

/-- Skipping leads on: what is remembered of a place lies behind it. -/
def Memo.Sound (m : Memo) : Prop :=
  ∀ p next : Nat, m[p]? = some (some next) → p < next

/-- A way of skipping up to `stop` that leads on and remembers rightly. -/
def Skip.Sound (skip : Skip) (stop : Nat) : Prop :=
  ∀ place rest m, place < stop → Memo.Sound m →
    place < (skip place rest m).1 ∧ Memo.Sound (skip place rest m).2

theorem Memo.sound_empty (length : Nat) : Memo.Sound (Memo.empty length) := by
  intro p next h
  rw [Memo.empty, Array.getElem?_replicate] at h
  split at h
  · cases Option.some.inj h
  · cases h

theorem Memo.Sound.learn {m : Memo} (h : Memo.Sound m) {place next : Nat} (hlt : place < next) :
    Memo.Sound (m.learn place next) := by
  intro p q hq
  rw [Memo.learn, Array.getElem?_setIfInBounds] at hq
  split at hq
  · rename_i heq
    split at hq
    · rw [← heq, ← Option.some.inj (Option.some.inj hq)]
      exact hlt
    · cases hq
  · exact h p q hq

/-! ## Labels, links and images -/

section

variable {skip : Skip} {stop : Nat}

theorem drop_behind {cs rest : List Char} {place next : Nat} (h : rest = cs.drop place)
    (hle : place ≤ next) : rest.drop (next - place) = cs.drop next := by
  rw [h, List.drop_drop, Nat.add_sub_cancel' hle]

theorem labelEnd_spec (hskip : Skip.Sound skip stop) (plain : Bool) (fuel depth place : Nat)
    (rest : List Char) (m : Memo) (hm : Memo.Sound m) :
    Memo.Sound (labelEnd skip stop plain fuel depth place rest m).2 ∧
      ∀ e, (labelEnd skip stop plain fuel depth place rest m).1 = some e →
        place ≤ e ∧ e < stop ∧ ∀ cs : List Char, rest = cs.drop place → cs[e]? = some ']' := by
  induction fuel generalizing depth place rest m with
  | zero => exact ⟨hm, nofun⟩
  | succ fuel ih =>
      cases rest with
      | nil => exact ⟨hm, nofun⟩
      | cons c rest =>
          rw [labelEnd]
          split
          · exact ⟨hm, nofun⟩
          · rename_i hlt
            split
            · rename_i hc
              refine ⟨hm, fun e he => ?_⟩
              obtain rfl := Option.some.inj he
              refine ⟨Nat.le_refl _, Nat.lt_of_not_le hlt, fun cs hcs => ?_⟩
              rw [← (of_decide_eq_true (Bool.and_eq_true_iff.mp hc).1)]
              exact (drop_eq_cons hcs).1
            · obtain ⟨hnext, hm'⟩ := hskip place (c :: rest) m (Nat.lt_of_not_le hlt) hm
              generalize skip place (c :: rest) m = r at hnext hm' ⊢
              obtain ⟨next, m'⟩ := r
              -- reading goes on at `next`, whatever the depth
              have hgo : ∀ depth, Memo.Sound (labelEnd skip stop plain fuel depth next
                    ((c :: rest).drop (next - place)) m').2 ∧
                  ∀ e, (labelEnd skip stop plain fuel depth next
                      ((c :: rest).drop (next - place)) m').1 = some e →
                    place ≤ e ∧ e < stop ∧
                      ∀ cs : List Char, c :: rest = cs.drop place → cs[e]? = some ']' := by
                intro depth
                obtain ⟨hsound, hend⟩ := ih depth next ((c :: rest).drop (next - place)) m' hm'
                refine ⟨hsound, fun e he => ?_⟩
                obtain ⟨hle, hlt, hcs⟩ := hend e he
                have hnext : place ≤ next := Nat.le_of_lt hnext
                exact ⟨Nat.le_trans hnext hle, hlt, fun cs hrest => hcs cs (drop_behind hrest hnext)⟩
              dsimp only
              split
              · split
                · exact hgo _
                · split
                  · exact ⟨hm', nofun⟩
                  · exact hgo _
              · exact hgo _

theorem reference?_spec (keys : List (List Char)) (hskip : Skip.Sound skip stop)
    (text : List Char) {close place : Nat} (hplace : close < place) (rest : List Char) {m : Memo}
    (hm : Memo.Sound m) :
    Memo.Sound (reference? skip keys stop text close place rest m).2 ∧
      ∀ l, (reference? skip keys stop text close place rest m).1 = some l →
        l.labelStop = close ∧ close < l.next ∧ ∀ cs : List Char, rest = cs.drop place →
          cs[close]? = some ']' → cs[l.next - 1]? = some ']' := by
  rw [reference?]
  split
  · exact ⟨hm, nofun⟩
  · have hsecond : Memo.Sound (if place < stop && rest.head? = some '[' then
          labelEnd skip stop false (stop - place) 1 (place + 1) (rest.drop 1) m
        else (none, m)).2 ∧
        ∀ e, (if place < stop && rest.head? = some '[' then
            labelEnd skip stop false (stop - place) 1 (place + 1) (rest.drop 1) m
          else (none, m)).1 = some e →
          place + 1 ≤ e ∧ ∀ cs : List Char, rest = cs.drop place → cs[e]? = some ']' := by
      split
      · obtain ⟨hsound, hend⟩ :=
          labelEnd_spec hskip false (stop - place) 1 (place + 1) (rest.drop 1) m hm
        refine ⟨hsound, fun e he => ?_⟩
        obtain ⟨hle, -, hcs⟩ := hend e he
        exact ⟨hle, fun cs hrest => hcs cs (by rw [hrest, List.drop_drop])⟩
      · exact ⟨hm, nofun⟩
    generalize (if place < stop && rest.head? = some '[' then
      labelEnd skip stop false (stop - place) 1 (place + 1) (rest.drop 1) m
      else (none, m)) = second at hsecond ⊢
    obtain ⟨found, m'⟩ := second
    obtain ⟨hsound, hend⟩ := hsecond
    refine ⟨hsound, fun l hl => ?_⟩
    cases found with
    | none =>
        obtain ⟨-, heq⟩ := Option.ite_none_right_eq_some.mp hl
        obtain rfl := Option.some.inj heq
        exact ⟨rfl, Nat.lt_succ_self close, fun cs _ hclose => hclose⟩
    | some e =>
        obtain ⟨hle, hcs⟩ := hend e rfl
        obtain ⟨-, heq⟩ := Option.ite_none_right_eq_some.mp hl
        obtain rfl := Option.some.inj heq
        exact ⟨rfl, by show close < e + 1; omega, fun cs hrest _ => hcs cs hrest⟩

/-- The characters that a link or an image may end with. -/
def EndsLink (cs : List Char) (next : Nat) : Prop :=
  cs[next - 1]? = some ']' ∨ cs[next - 1]? = some ')'

theorem endsLink_of_target {cs after : List Char} {close room n : Nat}
    (hafter : after = cs.drop (close + 1)) (hn : innerTarget room (after.drop 1) = .closed n) :
    EndsLink cs (close + 2 + n + 1) := by
  have hend := innerTarget_ends hn
  rw [hafter, List.drop_drop, List.getElem?_drop] at hend
  exact Or.inr hend

theorem link?_spec (keys : List (List Char)) (hskip : Skip.Sound skip stop) (place : Nat)
    (rest : List Char) {m : Memo} (hm : Memo.Sound m) :
    Memo.Sound (link? skip keys stop place rest m).2 ∧
      ∀ l, (link? skip keys stop place rest m).1 = some l →
        place < l.labelStop ∧ l.labelStop < stop ∧ l.labelStop < l.next ∧
          ∀ cs : List Char, rest = cs.drop place →
            cs[l.labelStop]? = some ']' ∧ EndsLink cs l.next := by
  rw [link?]
  obtain ⟨hsound, hend⟩ :=
    labelEnd_spec hskip true (stop - place) 1 (place + 1) (rest.drop 1) m hm
  generalize labelEnd skip stop true (stop - place) 1 (place + 1) (rest.drop 1) m = label
    at hsound hend ⊢
  obtain ⟨found, m'⟩ := label
  cases found with
  | none => exact ⟨hsound, nofun⟩
  | some close =>
      obtain ⟨hle, hlt, hlabel⟩ := hend close rfl
      have hclose : ∀ cs : List Char, rest = cs.drop place → cs[close]? = some ']' :=
        fun cs hrest => hlabel cs (by rw [hrest, List.drop_drop])
      dsimp only
      split
      · rename_i hparen
        split
        · exact ⟨hsound, nofun⟩
        · rename_i n hn
          refine ⟨hsound, fun l hl => ?_⟩
          obtain rfl := Option.some.inj hl
          refine ⟨hle, hlt, by show close < close + 2 + n + 1; omega, fun cs hrest => ?_⟩
          exact ⟨hclose cs hrest, endsLink_of_target (drop_behind hrest (by omega)) hn⟩
        · rename_i n hn
          have hsecond : close < close + 2 + n + 1 := by omega
          obtain ⟨hsound', href⟩ := reference?_spec keys hskip
            ((rest.drop 1).take (close - (place + 1))) hsecond
            (rest.drop (close + 2 + n + 1 - place)) hsound
          refine ⟨hsound', fun l hl => ?_⟩
          obtain ⟨hstop, hnext, hcs⟩ := href l hl
          refine ⟨by omega, by omega, by omega, fun cs hrest => ?_⟩
          have hrest' := drop_behind hrest (by omega : place ≤ close + 2 + n + 1)
          exact ⟨hstop ▸ hclose cs hrest, Or.inl (hcs cs hrest' (hclose cs hrest))⟩
      · obtain ⟨hsound', href⟩ := reference?_spec keys hskip
          ((rest.drop 1).take (close - (place + 1))) (Nat.lt_succ_self close)
          (rest.drop (close + 1 - place)) hsound
        refine ⟨hsound', fun l hl => ?_⟩
        obtain ⟨hstop, hnext, hcs⟩ := href l hl
        refine ⟨by omega, by omega, by omega, fun cs hrest => ?_⟩
        have hrest' := drop_behind hrest (by omega : place ≤ close + 1)
        exact ⟨hstop ▸ hclose cs hrest, Or.inl (hcs cs hrest' (hclose cs hrest))⟩

theorem image?_spec (keys : List (List Char)) (hskip : Skip.Sound skip stop) (place : Nat)
    (rest : List Char) {m : Memo} (hm : Memo.Sound m) :
    Memo.Sound (image? skip keys stop place rest m).2 ∧
      ∀ l, (image? skip keys stop place rest m).1 = some l →
        place < l.next ∧ ∀ cs : List Char, rest = cs.drop place → EndsLink cs l.next := by
  rw [image?]
  split
  · obtain ⟨hsound, hend⟩ :=
      labelEnd_spec hskip false (stop - (place + 1)) 1 (place + 2) (rest.drop 2) m hm
    generalize labelEnd skip stop false (stop - (place + 1)) 1 (place + 2) (rest.drop 2) m = label
      at hsound hend ⊢
    obtain ⟨found, m'⟩ := label
    cases found with
    | none => exact ⟨hsound, nofun⟩
    | some close =>
        obtain ⟨hle, hlt, hlabel⟩ := hend close rfl
        have hclose : ∀ cs : List Char, rest = cs.drop place → cs[close]? = some ']' :=
          fun cs hrest => hlabel cs (by rw [hrest, List.drop_drop])
        have hafter : ∀ cs : List Char, rest = cs.drop place →
            rest.drop (close + 1 - place) = cs.drop (close + 1) := fun cs hrest =>
          drop_behind hrest (by omega)
        dsimp only
        split
        · split
          · rename_i n hn
            refine ⟨hsound, fun l hl => ?_⟩
            obtain rfl := Option.some.inj hl
            refine ⟨by show place < close + 2 + n + 1; omega, fun cs hrest => ?_⟩
            exact endsLink_of_target (hafter cs hrest) hn
          · exact ⟨hsound, nofun⟩
        · obtain ⟨hsound', href⟩ := reference?_spec keys hskip
            ((rest.drop 2).take (close - (place + 2))) (Nat.lt_succ_self close)
            (rest.drop (close + 1 - place)) hsound
          refine ⟨hsound', fun l hl => ?_⟩
          obtain ⟨-, hnext, hcs⟩ := href l hl
          exact ⟨by omega, fun cs hrest =>
            Or.inl (hcs cs (hafter cs hrest) (hclose cs hrest))⟩
  · exact ⟨hm, nofun⟩

/-! ## Tokens -/

theorem le_closing? {length : Nat} (hold place : Nat) (rest : List Char) {e : Nat}
    (h : closing? length stop hold place rest = some e) : place ≤ e := by
  fun_induction closing? length stop hold place rest with
  | case1 => cases h
  | case2 hold place c cs ih => exact Nat.le_of_succ_le (ih h)
  | case3 place cs run hrun => exact Nat.le_of_eq (Option.some.inj h)
  | case4 place cs run hrun ih => exact Nat.le_of_succ_le (ih h)
  | case5 place c cs hc ih => exact Nat.le_of_succ_le (ih h)

theorem lt_backticks (stop place : Nat) (rest : List Char) :
    place < (backticks stop place rest).1 := by
  rw [backticks]
  split
  · rename_i e he
    have := le_closing? _ _ _ he
    show place < e + _
    omega
  · show place < place + _
    omega

theorem token_leads (keys : List (List Char)) (hskip : Skip.Sound skip stop) (place : Nat)
    {m : Memo} (hm : Memo.Sound m) (rest : List Char) :
    place < (token skip keys stop place m rest).1.next ∧
      Memo.Sound (token skip keys stop place m rest).2 := by
  cases rest with
  | nil => exact ⟨Nat.lt_succ_self place, hm⟩
  | cons c cs =>
      have hone : place < place + 1 := Nat.lt_succ_self place
      rw [token]
      split
      · exact ⟨by show place < place + 1 + _; omega, hm⟩
      split
      · refine ⟨?_, hm⟩
        show place < if place + 1 < stop then place + 2 else place + 1
        split <;> omega
      split
      · exact ⟨lt_backticks stop place (c :: cs), hm⟩
      split
      · obtain ⟨hsound, hlink⟩ := link?_spec keys hskip place (c :: cs) hm
        generalize link? skip keys stop place (c :: cs) m = found at hsound hlink ⊢
        obtain ⟨_ | l, m'⟩ := found
        · exact ⟨hone, hsound⟩
        · obtain ⟨hlt, -, hnext, -⟩ := hlink l rfl
          exact ⟨Nat.lt_trans hlt hnext, hsound⟩
      split
      · obtain ⟨hsound, himage⟩ := image?_spec keys hskip place (c :: cs) hm
        generalize image? skip keys stop place (c :: cs) m = found at hsound himage ⊢
        obtain ⟨_ | l, m'⟩ := found
        · exact ⟨hone, hsound⟩
        · exact ⟨(himage l rfl).1, hsound⟩
      split
      · split
        · exact ⟨by show place < place + _ + 2; omega, hm⟩
        · split
          · rename_i n hn
            split at hn
            · have := (Html.tagLength?_ends hn).1
              exact ⟨by show place < place + n; omega, hm⟩
            · cases hn
          · exact ⟨hone, hm⟩
      · exact ⟨hone, hm⟩

theorem skipToken_sound (keys : List (List Char)) (stop levels : Nat) :
    Skip.Sound (skipToken keys stop levels) stop := by
  induction levels with
  | zero =>
      intro place rest m hplace hm
      rw [skipToken]
      split
      · rename_i next hnext
        exact ⟨hm place next (Option.join_eq_some_iff.mp hnext), hm⟩
      · have hlt : place < stop + 1 := Nat.lt_succ_of_lt hplace
        exact ⟨hlt, hm.learn hlt⟩
  | succ levels ih =>
      intro place rest m hplace hm
      rw [skipToken]
      split
      · rename_i next hnext
        exact ⟨hm place next (Option.join_eq_some_iff.mp hnext), hm⟩
      · obtain ⟨hlt, hsound⟩ := token_leads keys ih place hm rest
        exact ⟨hlt, hsound.learn hlt⟩

/-- What a token at a place of a text is: a code span stands there and fills it, the text of a link
ends inside it, and no backslash escapes what comes after it. -/
structure Token.Reads (cs : List Char) (stop place : Nat) (t : Token) : Prop where
  fresh : t.next < stop → Fresh cs t.next
  code : ∀ n content i j, t.piece = some (.code n content i j) →
    t.linkText = none ∧ i = place ∧ j = t.next ∧ BareFrom cs stop j ∧
      Stands cs.toArray n cs.length ⟨i, j⟩
  text : ∀ close, t.linkText = some close → place < close ∧ close < stop ∧ close < t.next ∧
    cs[close]? = some ']' ∧ Fresh cs (place + 1)

theorem Token.reads_of_fresh {cs : List Char} {place next : Nat} (h : Fresh cs next) :
    Token.Reads cs stop place ⟨next, none, none⟩ :=
  ⟨fun _ => h, nofun, nofun⟩

theorem isSpecial_backslash : isSpecial '\\' = true := by
  simp [isSpecial, Target.isPunctuation]

theorem getElem?_takeWhile_length (p : Char → Bool) {c : Char} (hc : p c = true)
    (cs : List Char) : ∃ d, (c :: cs)[(cs.takeWhile p).length]? = some d ∧ p d = true := by
  induction cs generalizing c with
  | nil => exact ⟨c, rfl, hc⟩
  | cons d cs ih =>
      by_cases hd : p d = true
      · rw [List.takeWhile_cons_of_pos hd]
        exact ih hd
      · rw [List.takeWhile_cons_of_neg hd]
        exact ⟨c, rfl, hc⟩

theorem fresh_of_endsLink {cs : List Char} {next : Nat} (h : EndsLink cs next) : Fresh cs next :=
  h.elim (fun h => fresh_of_eq h (by decide)) (fun h => fresh_of_eq h (by decide))

theorem fresh_of_plain {cs ds : List Char} {c : Char} {place : Nat}
    (hrest : c :: ds = cs.drop place) (hplain : (!isSpecial c) = true) :
    Fresh cs (place + 1 + (ds.takeWhile fun d => !isSpecial d).length) := by
  obtain ⟨d, hd, hplainEnd⟩ := getElem?_takeWhile_length (fun d => !isSpecial d) hplain ds
  rw [hrest, List.getElem?_drop] at hd
  refine fresh_of_eq (c := d) ?_ ?_
  · rwa [show ∀ k, place + 1 + k - 1 = place + k by omega]
  · rintro rfl
    rw [isSpecial_backslash] at hplainEnd
    cases hplainEnd

theorem Token.reads_backslash {cs : List Char} {place : Nat} (hfresh : Fresh cs place)
    (hslash : cs[place]? = some '\\') :
    Token.Reads cs stop place ⟨if place + 1 < stop then place + 2 else place + 1, none, none⟩ := by
  refine ⟨fun hnext => ?_, nofun, nofun⟩
  have hnext : (if place + 1 < stop then place + 2 else place + 1) < stop := hnext
  show Fresh cs (if place + 1 < stop then place + 2 else place + 1)
  split at hnext
  · rw [if_pos ‹_›]
    exact hfresh.skip hslash
  · exact absurd hnext ‹_›

theorem Token.reads_backticks {cs : List Char} {place : Nat} (hplace : place < stop)
    (hstop : cs[stop]? ≠ some '`') (hfresh : Fresh cs place) (htick : cs[place]? = some '`') :
    Token.Reads cs stop place ⟨(backticks stop place (cs.drop place)).1,
      (backticks stop place (cs.drop place)).2, none⟩ := by
  obtain ⟨-, hfreshNext, hpiece⟩ := backticks_spec hplace hstop htick hfresh
  refine ⟨fun _ => hfreshNext, fun n content i j hcode => ?_, nofun⟩
  obtain ⟨n', content', j', heq, hnext, hbare, hstands⟩ := hpiece _ hcode
  obtain ⟨rfl, -, rfl, rfl⟩ := Piece.code.inj heq
  exact ⟨rfl, rfl, hnext, hbare, hstands⟩

theorem Token.reads_link {keys : List (List Char)} (hskip : Skip.Sound skip stop) {m : Memo}
    (hm : Memo.Sound m) {cs rest : List Char} {place : Nat} (hrest : rest = cs.drop place)
    (hfresh : Fresh cs (place + 1)) {l : Linked}
    (hl : (link? skip keys stop place rest m).1 = some l) :
    Token.Reads cs stop place ⟨l.next, none, some l.labelStop⟩ := by
  obtain ⟨hlt, hstop, hnext, hends⟩ := (link?_spec keys hskip place rest hm).2 l hl
  obtain ⟨hclose, hend⟩ := hends cs hrest
  refine ⟨fun _ => fresh_of_endsLink hend, nofun, fun close heq => ?_⟩
  obtain rfl := Option.some.inj heq
  exact ⟨hlt, hstop, hnext, hclose, hfresh⟩

theorem Token.reads_html {cs rest : List Char} {place n : Nat} (hrest : rest = cs.drop place)
    (hn : Html.tagLength? rest = some n) (content : List Char) :
    Token.Reads cs stop place ⟨place + n, some (.html content place (place + n)), none⟩ := by
  obtain ⟨hpos, hend⟩ := Html.tagLength?_ends hn
  rw [hrest, List.getElem?_drop] at hend
  refine ⟨fun _ => fresh_of_eq (c := '>') ?_ (by decide), nofun, nofun⟩
  rwa [show place + n - 1 = place + (n - 1) by omega]

theorem token_reads (keys : List (List Char)) (hskip : Skip.Sound skip stop)
    {cs rest : List Char} {place : Nat} (hrest : rest = cs.drop place) (hplace : place < stop)
    (hstop : cs[stop]? ≠ some '`') (hfresh : Fresh cs place) {m : Memo} (hm : Memo.Sound m) :
    Token.Reads cs stop place (token skip keys stop place m rest).1 := by
  cases rest with
  | nil =>
      refine Token.reads_of_fresh (fresh_of_ne (Or.inr ?_))
      have hlen := List.drop_eq_nil_iff.mp hrest.symm
      rw [Nat.add_sub_cancel, List.getElem?_eq_none hlen]
      nofun
  | cons c ds =>
      obtain ⟨hc, -⟩ := drop_eq_cons hrest
      have hone : c ≠ '\\' → Fresh cs (place + 1) := fun hne =>
        fresh_of_eq (by rwa [Nat.add_sub_cancel]) hne
      rw [token]
      split
      · exact Token.reads_of_fresh (fresh_of_plain hrest ‹_›)
      split
      · rename_i hslash
        exact Token.reads_backslash hfresh (by rw [hc, hslash])
      rename_i hslash
      split
      · rename_i htick
        rw [hrest]
        exact Token.reads_backticks hplace hstop hfresh (by rw [hc, htick])
      split
      · have hlink := fun l => @Token.reads_link skip stop keys hskip m hm cs (c :: ds) place hrest
          (hone hslash) l
        generalize link? skip keys stop place (c :: ds) m = found at hlink ⊢
        obtain ⟨_ | l, m'⟩ := found
        · exact Token.reads_of_fresh (hone hslash)
        · exact hlink l rfl
      split
      · obtain ⟨-, himage⟩ := image?_spec keys hskip place (c :: ds) hm
        generalize image? skip keys stop place (c :: ds) m = found at himage ⊢
        obtain ⟨_ | l, m'⟩ := found
        · exact Token.reads_of_fresh (hone hslash)
        · exact Token.reads_of_fresh (fresh_of_endsLink ((himage l rfl).2 cs hrest))
      split
      · split
        · rename_i address haddress
          have hend := Inline.autolink?_ends haddress
          rw [hrest, List.getElem?_drop] at hend
          exact ⟨fun _ => fresh_of_eq hend (by decide), nofun, nofun⟩
        · split
          · rename_i n hn
            split at hn
            · exact Token.reads_html hrest hn _
            · cases hn
          · exact Token.reads_of_fresh (hone hslash)
      · exact Token.reads_of_fresh (hone hslash)

end

/-! ## Pieces -/

/-- Whether a piece that is a code span begins from `lo` on and before `hi`, has no backtick but its
last one from `hi` on, and stands in the text. -/
def Told (cs : List Char) (lo hi : Nat) : Piece → Prop
  | .code n _ i j =>
    lo ≤ i ∧ i < hi ∧ BareFrom cs hi j ∧ Stands cs.toArray n cs.length ⟨i, j⟩
  | _ => True

/-- Whether the one piece ends before the other, when both are code spans, its last backtick
apart: a code span that leaves the text of a link may end with the first backtick of the next
one. -/
def Earlier : Piece → Piece → Prop
  | .code _ _ _ j, .code _ _ i' _ => j ≤ i' + 1
  | _, _ => True

/-- Pieces of a text between two places, in order. -/
structure InOrder (cs : List Char) (lo hi : Nat) (ps : List Piece) : Prop where
  told : ∀ p ∈ ps, Told cs lo hi p
  earlier : ps.Pairwise Earlier

section

variable {cs : List Char} {lo hi lo' hi' : Nat} {p q : Piece} {ps qs : List Piece}

theorem Told.mono (h : Told cs lo hi p) (hlo : lo' ≤ lo) (hhi : hi ≤ hi') :
    Told cs lo' hi' p := by
  cases p with
  | code n content i j =>
      exact ⟨Nat.le_trans hlo h.1, Nat.lt_of_lt_of_le h.2.1 hhi, h.2.2.1.mono hhi, h.2.2.2⟩
  | html | autolink => trivial

theorem Told.earlier (hp : Told cs lo hi p) (hq : Told cs lo' hi' q) (h : hi ≤ lo') :
    Earlier p q := by
  cases p with
  | html | autolink => trivial
  | code n content i j =>
      cases q with
      | html | autolink => trivial
      | code n' content' i' j' =>
          obtain ⟨-, -, hbare, -⟩ := hp
          obtain ⟨hlo, -, -, hstands⟩ := hq
          have htick := hstands.opening 0 hstands.pos
          rw [List.getElem?_toArray] at htick
          exact Nat.le_of_not_lt fun hlt => hbare i' (Nat.le_trans h hlo) hlt htick

theorem InOrder.nil : InOrder cs lo hi [] :=
  ⟨nofun, .nil⟩

theorem InOrder.append (h : InOrder cs lo hi ps) (h' : InOrder cs lo' hi' qs) (hlo : lo ≤ lo')
    (hmid : hi ≤ lo') (hhi : hi ≤ hi') : InOrder cs lo hi' (ps ++ qs) := by
  refine ⟨fun p hp => ?_, List.pairwise_append.mpr ⟨h.earlier, h'.earlier, fun p hp q hq => ?_⟩⟩
  · rcases List.mem_append.mp hp with hp | hp
    · exact (h.told p hp).mono (Nat.le_refl lo) hhi
    · exact (h'.told p hp).mono hlo (Nat.le_refl hi')
  · exact (h.told p hp).earlier (h'.told q hq) hmid

end

/-- A way of reading the text of a link that gives its pieces in order. -/
def ReadsNested (cs : List Char)
    (inner : Nat → Nat → List Char → Memo → List Piece × Memo) : Prop :=
  ∀ stop place rest m, rest = cs.drop place → (place < stop → Fresh cs place) →
    cs[stop]? ≠ some '`' → Memo.Sound m →
      Memo.Sound (inner stop place rest m).2 ∧ InOrder cs place stop (inner stop place rest m).1

section

variable {skip : Skip} {cs : List Char} {stop : Nat}
  {inner : Nat → Nat → List Char → Memo → List Piece × Memo}

theorem Token.Reads.inOrder {t : Token} {place : Nat} (h : Token.Reads cs stop place t)
    (hplace : place < stop) (hnext : place < t.next) (hinner : ReadsNested cs inner)
    {rest : List Char} (hrest : rest = cs.drop place) {m : Memo} (hm : Memo.Sound m)
    {nested : List Piece × Memo} (hnone : t.linkText = none → nested = ([], m))
    (hsome : ∀ close, t.linkText = some close →
      nested = inner close (place + 1) (rest.drop 1) m) :
    Memo.Sound nested.2 ∧ ∃ mid, place ≤ mid ∧ mid ≤ t.next ∧ mid ≤ stop ∧
      InOrder cs place mid (t.piece.toList ++ nested.1) := by
  have hpiece : ∀ mid, place < mid → (t.linkText = none → mid = min t.next stop) →
      InOrder cs place mid t.piece.toList := by
    intro mid hlt hmid
    cases hp : t.piece with
    | none => exact InOrder.nil
    | some p =>
        refine ⟨fun q hq => ?_, List.pairwise_singleton ..⟩
        obtain rfl := List.mem_singleton.mp hq
        cases q with
        | html | autolink => trivial
        | code n content i j =>
            obtain ⟨hnone, rfl, rfl, hbare, hstands⟩ := h.code n content i j hp
            refine ⟨Nat.le_refl i, hlt, ?_, hstands⟩
            rw [hmid hnone]
            rcases Nat.le_total t.next stop with hle | hle
            · rw [Nat.min_eq_left hle]
              exact bareFrom_of_le (Nat.le_refl _)
            · rwa [Nat.min_eq_right hle]
  cases htext : t.linkText with
  | none =>
      obtain rfl := hnone htext
      have hlt : place < min t.next stop := Nat.lt_min.mpr ⟨hnext, hplace⟩
      refine ⟨hm, min t.next stop, Nat.le_of_lt hlt, Nat.min_le_left .., Nat.min_le_right .., ?_⟩
      rw [List.append_nil]
      exact hpiece _ hlt fun _ => rfl
  | some close =>
      obtain rfl := hsome close htext
      obtain ⟨hlt, hstop, hclose, hbracket, hfresh⟩ := h.text close htext
      have hne : cs[close]? ≠ some '`' := by
        rw [hbracket]
        decide
      have hrest' : rest.drop 1 = cs.drop (place + 1) := by rw [hrest, List.drop_drop]
      obtain ⟨hsound, hnested⟩ :=
        hinner close (place + 1) (rest.drop 1) m hrest' (fun _ => hfresh) hne hm
      exact ⟨hsound, close, Nat.le_of_lt hlt, Nat.le_of_lt hclose, Nat.le_of_lt hstop,
        (hpiece (place + 1) (Nat.lt_succ_self place) fun h => absurd (htext.symm.trans h) nofun).append
          hnested (Nat.le_succ place) (Nat.le_refl _) hlt⟩

/-- One step of reading: a token, the text inside it, and what comes after it. -/
theorem piecesFrom_succ (keys : List (List Char))
    (inner : Nat → Nat → List Char → Memo → List Piece × Memo) (fuel : Nat) {place : Nat}
    (hplace : place < stop) (rest : List Char) (m : Memo) {t : Token} {m' : Memo}
    (htoken : token skip keys stop place m rest = (t, m')) :
    ∃ nested : List Piece × Memo, (t.linkText = none → nested = ([], m')) ∧
      (∀ close, t.linkText = some close →
        nested = inner close (place + 1) (rest.drop 1) m') ∧
      piecesFrom skip keys stop inner (fuel + 1) place rest m =
        (t.piece.toList ++ nested.1 ++ (piecesFrom skip keys stop inner fuel t.next
            (rest.drop (t.next - place)) nested.2).1,
          (piecesFrom skip keys stop inner fuel t.next
            (rest.drop (t.next - place)) nested.2).2) := by
  rw [piecesFrom, if_neg (Nat.not_le_of_lt hplace), htoken]
  cases htext : t.linkText with
  | none => exact ⟨([], m'), fun _ => rfl, nofun, by simp only [htext]⟩
  | some close =>
      refine ⟨inner close (place + 1) (rest.drop 1) m', nofun, fun c hc => ?_, ?_⟩
      · rw [Option.some.inj hc]
      · simp only [htext]

theorem piecesFrom_inOrder (keys : List (List Char)) (hskip : Skip.Sound skip stop)
    (hinner : ReadsNested cs inner) (hstop : cs[stop]? ≠ some '`') (fuel place : Nat)
    (rest : List Char) (m : Memo) (hrest : rest = cs.drop place)
    (hfresh : place < stop → Fresh cs place) (hm : Memo.Sound m) :
    Memo.Sound (piecesFrom skip keys stop inner fuel place rest m).2 ∧
      InOrder cs place stop (piecesFrom skip keys stop inner fuel place rest m).1 := by
  induction fuel generalizing place rest m with
  | zero => exact ⟨hm, InOrder.nil⟩
  | succ fuel ih =>
      rcases Nat.lt_or_ge place stop with hplace | hge
      · have hreads := token_reads keys hskip hrest hplace hstop (hfresh hplace) hm
        obtain ⟨hnext, hm'⟩ := token_leads keys hskip place hm rest
        cases htoken : token skip keys stop place m rest with
        | mk t m' =>
        rw [htoken] at hreads hnext hm'
        have hnext : place < t.next := hnext
        obtain ⟨nested, hnone, hsome, heq⟩ :=
          piecesFrom_succ keys inner fuel hplace rest m htoken
        obtain ⟨hm'', mid, hmid, hmidNext, hmidStop, horder⟩ :=
          hreads.inOrder hplace hnext hinner hrest hm' hnone hsome
        have hrest' := drop_behind hrest (Nat.le_of_lt hnext)
        obtain ⟨hsound, hlater⟩ :=
          ih t.next (rest.drop (t.next - place)) nested.2 hrest' hreads.fresh hm''
        rw [heq]
        exact ⟨hsound, horder.append hlater (Nat.le_of_lt hnext) hmidNext hmidStop⟩
      · rw [piecesFrom, if_pos hge]
        exact ⟨hm, InOrder.nil⟩

end

theorem piecesWithin_sound (keys : List (List Char)) (cs : List Char) (levels : Nat) :
    ReadsNested cs (piecesWithin keys levels) := by
  induction levels with
  | zero => exact fun _ _ _ _ _ _ _ hm => ⟨hm, InOrder.nil⟩
  | succ levels ih =>
      intro stop place rest m hrest hfresh hstop hm
      exact piecesFrom_inOrder keys (skipToken_sound keys stop (levels + 1)) ih hstop
        (stop - place) place rest m hrest hfresh hm

/-- The code spans that are listed stand in the content, in order. -/
theorem pieces_inOrder (keys : List (List Char)) (cs : List Char) :
    InOrder cs 0 cs.length (pieces keys cs) := by
  refine (piecesWithin_sound keys cs maxNesting cs.length 0 cs (Memo.empty cs.length) rfl
    (fun _ => fresh_of_ne (Or.inl rfl)) ?_ (Memo.sound_empty cs.length)).2
  rw [List.getElem?_eq_none (Nat.le_refl _)]
  nofun

end DirectiveFences.Markdown.Inline
