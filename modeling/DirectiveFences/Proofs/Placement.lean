/-
Where the content of a block stands in the source.

The content of a block is the source without the marks of its containers, without
indentation, and, in the cells of a table, without the backslashes before bars.  So
neighbours in the content need not be neighbours in the source.  But what lies between
them there holds no backtick, and a run of backticks or backslashes is never torn apart.
This is what `Laid` says; by it a code span of the content is one of the source.
-/
import DirectiveFences.Markdown.Row
import DirectiveFences.Proofs.Landmarks
import Mathlib.Data.List.Chain

namespace DirectiveFences.Markdown

open CodeSpan
open Scan (Stands)

/-- Backticks, which delimit code spans, and backslashes, which escape them. -/
def IsMark (c : Char) : Prop :=
  c = '`' ∨ c = '\\'

/-- Neither a backtick nor a backslash stands at a place of the source. -/
structure Unmarked (source : Array Char) (x : Nat) : Prop where
  tick : source[x]? ≠ some '`'
  slash : source[x]? ≠ some '\\'

/-- A character of the content is a backtick, or a backslash, just when the source has one at its
place. -/
structure Reads (source : Array Char) (p : Placed) : Prop where
  tick : p.1 = '`' ↔ source[p.2]? = some '`'
  slash : p.1 = '\\' ↔ source[p.2]? = some '\\'

/-- How a character of the content can come after another one. -/
inductive Follows (source : Array Char) (p p' : Placed) : Prop
  /-- They are neighbours in the source. -/
  | next (place : p'.2 = p.2 + 1)
  /-- Both are spaces that one tab has left. -/
  | tab (hp : p.1 = ' ') (hp' : p'.1 = ' ') (place : p'.2 = p.2)
  /-- A line of the content begins after the marks and the indentation of its containers. -/
  | line (hp : p.1 = '\n') (place : p.2 < p'.2)
      (gap : ∀ x, p.2 < x → x < p'.2 → Unmarked source x)
  /-- A bar of a table's cell comes after a backslash that the cell does not have. -/
  | bar (hp' : p'.1 = '|') (place : p'.2 = p.2 + 2) (slash : source[p.2 + 1]? = some '\\')

/-- Content that is laid out in the source: it begins and ends with whole runs. -/
structure Laid (source : Array Char) (content : List Placed) : Prop where
  reads : ∀ p ∈ content, Reads source p
  chain : content.IsChain (Follows source)
  front : ∀ p, content.head? = some p → IsMark p.1 → p.2 = 0 ∨ Unmarked source (p.2 - 1)
  back : ∀ p, content.getLast? = some p → p.1 = '`' → source[p.2 + 1]? ≠ some '`'

/-! ## Two characters -/

section

variable {source : Array Char} {p p' : Placed}

theorem Reads.unmarked (h : Reads source p) (hp : ¬ IsMark p.1) : Unmarked source p.2 :=
  ⟨fun ht => hp (Or.inl (h.tick.mpr ht)), fun hs => hp (Or.inr (h.slash.mpr hs))⟩

theorem ne_of_isMark {c d : Char} (h : IsMark c) (hd : d ≠ '`' ∧ d ≠ '\\') : c ≠ d := by
  rintro rfl
  exact h.elim hd.1 hd.2

theorem Follows.le (h : Follows source p p') : p.2 ≤ p'.2 := by
  cases h <;> omega

theorem Follows.lt_of_right (h : Follows source p p') (hp' : IsMark p'.1) : p.2 < p'.2 := by
  cases h with
  | tab _ hspace _ => exact absurd hspace (ne_of_isMark hp' (by decide))
  | next place | line _ place _ | bar _ place _ => omega

theorem Follows.lt_of_left (h : Follows source p p') (hp : IsMark p.1) : p.2 < p'.2 := by
  cases h with
  | tab hspace _ _ => exact absurd hspace (ne_of_isMark hp (by decide))
  | next place | line _ place _ | bar _ place _ => omega

theorem Follows.adjacent (h : Follows source p p') (hp : IsMark p.1) (hp' : IsMark p'.1) :
    p'.2 = p.2 + 1 := by
  cases h with
  | next place => exact place
  | tab hspace _ _ => exact absurd hspace (ne_of_isMark hp (by decide))
  | line hfeed _ _ => exact absurd hfeed (ne_of_isMark hp (by decide))
  | bar hbar _ _ => exact absurd hbar (ne_of_isMark hp' (by decide))

theorem Follows.unmarked_before (h : Follows source p p') (hr : Reads source p)
    (hp : ¬ IsMark p.1) (hp' : IsMark p'.1) : Unmarked source (p'.2 - 1) := by
  have hpred : p'.2 = p.2 + 1 → Unmarked source (p'.2 - 1) := fun place => by
    rw [place]
    exact hr.unmarked hp
  cases h with
  | next place => exact hpred place
  | tab _ hspace _ => exact absurd hspace (ne_of_isMark hp' (by decide))
  | bar hbar _ _ => exact absurd hbar (ne_of_isMark hp' (by decide))
  | line _ place gap =>
      rcases Nat.lt_or_eq_of_le (Nat.succ_le_of_lt place) with hlt | heq
      · exact gap _ (by omega) (by omega)
      · exact hpred heq.symm

theorem Follows.tick_after (h : Follows source p p') (hr : Reads source p') (hp : p.1 = '`')
    (htick : source[p.2 + 1]? = some '`') : p'.1 = '`' ∧ p'.2 = p.2 + 1 := by
  cases h with
  | next place => exact ⟨hr.tick.mpr (place ▸ htick), place⟩
  | tab hspace _ _ => exact absurd (hp.symm.trans hspace) (by decide)
  | line hfeed _ _ => exact absurd (hp.symm.trans hfeed) (by decide)
  | bar _ _ slash => exact absurd (Option.some.inj (htick.symm.trans slash)) (by decide)

theorem Follows.no_tick_between (h : Follows source p p') {x : Nat} (hx : p.2 < x)
    (hx' : x < p'.2) : source[x]? ≠ some '`' := by
  cases h with
  | next place | tab _ _ place => omega
  | line _ _ gap => exact (gap x hx hx').tick
  | bar _ place slash =>
      obtain rfl : x = p.2 + 1 := by omega
      rw [slash]
      decide

end

/-! ## Parts of the content -/

section

variable {source : Array Char} {l l' : List Placed}

theorem Laid.nil : Laid source [] :=
  ⟨nofun, .nil, nofun, nofun⟩

/-- What is left after characters at the front, the last of which belongs to no run. -/
theorem Laid.right_of_append (h : Laid source (l ++ l'))
    (hl : ∀ p, l.getLast? = some p → ¬ IsMark p.1) : Laid source l' := by
  refine ⟨fun p hp => h.reads p (List.mem_append_right l hp), h.chain.right_of_append, ?_, ?_⟩
  · intro p hp hmark
    cases hlast : l.getLast? with
    | none =>
        rw [List.getLast?_eq_none_iff.mp hlast, List.nil_append] at h
        exact h.front p hp hmark
    | some y =>
        have hy := h.reads y (List.mem_append_left l' (List.mem_of_getLast? hlast))
        have hfollows := (List.isChain_append.mp h.chain).2.2 y hlast p hp
        exact Or.inr (hfollows.unmarked_before hy (hl y hlast) hmark)
  · intro p hp
    refine h.back p ?_
    rw [List.getLast?_append, hp]
    rfl

theorem Laid.left_of_append (h : Laid source (l ++ l'))
    (hl' : ∀ p, l'.head? = some p → ¬ IsMark p.1) : Laid source l := by
  refine ⟨fun p hp => h.reads p (List.mem_append_left l' hp), h.chain.left_of_append, ?_, ?_⟩
  · intro p hp
    refine h.front p ?_
    rw [List.head?_append, hp]
    rfl
  · intro p hp htick hafter
    cases l' with
    | nil => exact h.back p (by rwa [List.append_nil]) htick hafter
    | cons y ys =>
        have hfollows := (List.isChain_append.mp h.chain).2.2 p hp y rfl
        have hy := hfollows.tick_after (h.reads y (List.mem_append_right l List.mem_cons_self))
          htick hafter
        exact hl' y rfl (Or.inl hy.1)

theorem Laid.dropWhile {p : Placed → Bool} (h : Laid source l)
    (hp : ∀ x, p x = true → ¬ IsMark x.1) : Laid source (l.dropWhile p) := by
  rw [← List.takeWhile_append_dropWhile (p := p) (l := l)] at h
  exact h.right_of_append fun x hx =>
    hp x (List.all_eq_true.mp List.all_takeWhile x (List.mem_of_getLast? hx))

theorem Laid.dropWhile_reverse {p : Placed → Bool} (h : Laid source l)
    (hp : ∀ x, p x = true → ¬ IsMark x.1) :
    Laid source (l.reverse.dropWhile p).reverse := by
  have hsplit : (l.reverse.dropWhile p).reverse ++ (l.reverse.takeWhile p).reverse = l := by
    rw [← List.reverse_append, List.takeWhile_append_dropWhile, List.reverse_reverse]
  rw [← hsplit] at h
  refine h.left_of_append fun x hx => hp x ?_
  exact List.all_eq_true.mp List.all_takeWhile x
    (List.mem_reverse.mp (List.mem_of_head? hx))

theorem not_isMark_of_isBlank {c : Char} (h : Text.isBlank c = true) : ¬ IsMark c := by
  rintro (rfl | rfl) <;> exact absurd h (by decide)

theorem Laid.stripPlaced (h : Laid source l) : Laid source (stripPlaced l) :=
  (h.dropWhile fun _ => not_isMark_of_isBlank).dropWhile_reverse fun _ => not_isMark_of_isBlank

end

/-! ## Places -/

/-- The characters of the content. -/
def textOf (content : List Placed) : Array Char :=
  (content.map (·.1)).toArray

/-- The place of character `i` of the content. -/
def placeOf (content : List Placed) (i : Nat) : Nat :=
  (content[i]?.map (·.2)).getD 0

/-- Where the characters from `start` up to `stop` of the content stand. -/
def sourceRange (content : List Placed) (start stop : Nat) : Range :=
  ⟨placeOf content start, placeOf content (stop - 1) + 1⟩

section

variable {source : Array Char} {content : List Placed} {i j k n limit : Nat} {a b : Placed}

theorem getElem?_textOf (content : List Placed) (i : Nat) :
    (textOf content)[i]? = content[i]?.map (·.1) := by
  rw [textOf, List.getElem?_toArray, List.getElem?_map]

theorem tick_of_textOf (ha : content[i]? = some a) (h : (textOf content)[i]? = some '`') :
    a.1 = '`' := by
  rw [getElem?_textOf, ha] at h
  exact Option.some.inj h

theorem exists_getElem? (h : i < content.length) : ∃ a, content[i]? = some a :=
  ⟨_, List.getElem?_eq_getElem h⟩

theorem placeOf_eq (h : content[i]? = some a) : placeOf content i = a.2 := by
  rw [placeOf, h]
  rfl

theorem Laid.follows (h : Laid source content) (ha : content[i]? = some a)
    (hb : content[i + 1]? = some b) : Follows source a b := by
  obtain ⟨hi, rfl⟩ := List.getElem?_eq_some_iff.mp ha
  obtain ⟨hi', rfl⟩ := List.getElem?_eq_some_iff.mp hb
  exact h.chain.getElem i hi'

theorem Laid.reads_of_getElem? (h : Laid source content) (ha : content[i]? = some a) :
    Reads source a :=
  h.reads a (List.mem_of_getElem? ha)

theorem Laid.place_le (h : Laid source content) (ha : content[i]? = some a)
    (hb : content[j]? = some b) (hij : i ≤ j) : a.2 ≤ b.2 := by
  induction j generalizing b with
  | zero =>
      obtain rfl : i = 0 := Nat.le_zero.mp hij
      exact Nat.le_of_eq (congrArg Prod.snd (Option.some.inj (ha.symm.trans hb)))
  | succ j ih =>
      rcases Nat.lt_or_eq_of_le hij with hlt | rfl
      · have hj : j < content.length := Nat.lt_of_succ_lt (List.getElem?_eq_some_iff.mp hb).1
        have hc := List.getElem?_eq_getElem hj
        exact Nat.le_trans (ih hc (Nat.le_of_lt_succ hlt)) (h.follows hc hb).le
      · exact Nat.le_of_eq (congrArg Prod.snd (Option.some.inj (ha.symm.trans hb)))

theorem Laid.place_lt (h : Laid source content) (ha : content[i]? = some a)
    (hb : content[j]? = some b) (hij : i < j) (hmark : IsMark b.1) : a.2 < b.2 := by
  cases j with
  | zero => exact absurd hij (Nat.not_lt_zero i)
  | succ j =>
      have hj : j < content.length := Nat.lt_of_succ_lt (List.getElem?_eq_some_iff.mp hb).1
      have hc := List.getElem?_eq_getElem hj
      exact Nat.lt_of_le_of_lt (h.place_le ha hc (Nat.le_of_lt_succ hij))
        ((h.follows hc hb).lt_of_right hmark)

/-- A run of the content is a run of the source. -/
theorem Laid.run_places (h : Laid source content) (ha : content[i]? = some a)
    (hrun : ∀ m, m < n → (textOf content)[i + m]? = some '`') (hk : k < n) :
    ∃ b, content[i + k]? = some b ∧ b.1 = '`' ∧ b.2 = a.2 + k := by
  induction k with
  | zero =>
      have := hrun 0 hk
      rw [getElem?_textOf, Nat.add_zero, ha] at this
      exact ⟨a, ha, Option.some.inj this, rfl⟩
  | succ k ih =>
      obtain ⟨b, hb, htick, hplace⟩ := ih (Nat.lt_of_succ_lt hk)
      have hnext := hrun (k + 1) hk
      rw [getElem?_textOf] at hnext
      obtain ⟨c, hc, hctick⟩ := Option.map_eq_some_iff.mp hnext
      have hadj := (h.follows hb hc).adjacent (Or.inl htick) (Or.inl hctick)
      exact ⟨c, hc, hctick, by omega⟩

theorem Laid.run_of_source (h : Laid source content) (ha : content[i]? = some a)
    (hrun : ∀ m, m < n → source[a.2 + m]? = some '`') (hk : k < n) :
    ∃ b, content[i + k]? = some b ∧ b.1 = '`' ∧ b.2 = a.2 + k := by
  induction k with
  | zero => exact ⟨a, ha, (h.reads_of_getElem? ha).tick.mpr (hrun 0 hk), rfl⟩
  | succ k ih =>
      obtain ⟨b, hb, htick, hplace⟩ := ih (Nat.lt_of_succ_lt hk)
      have hafter : source[b.2 + 1]? = some '`' := by
        rw [hplace, Nat.add_assoc]
        exact hrun (k + 1) hk
      cases hc : content[i + k + 1]? with
      | none =>
          have hlast : content.getLast? = some b := by
            have hlen := List.getElem?_eq_none_iff.mp hc
            have hlt := (List.getElem?_eq_some_iff.mp hb).1
            rw [List.getLast?_eq_getElem?, show content.length - 1 = i + k by omega, hb]
          exact absurd hafter (h.back b hlast htick)
      | some c =>
          obtain ⟨hctick, hcplace⟩ :=
            (h.follows hb hc).tick_after (h.reads_of_getElem? hc) htick hafter
          exact ⟨c, rfl, hctick, by omega⟩

/-- Between two places of the content, each backtick of the source is one of the content. -/
theorem Laid.exists_index (h : Laid source content) {x : Nat} (ha : content[i]? = some a)
    (hb : content[j]? = some b) (hij : i ≤ j) (hax : a.2 ≤ x) (hxb : x ≤ b.2)
    (hx : source[x]? = some '`') : ∃ m c, content[m]? = some c ∧ c.2 = x ∧ i ≤ m ∧ m ≤ j := by
  obtain ⟨d, rfl⟩ := Nat.exists_eq_add_of_le hij
  induction d generalizing i a with
  | zero =>
      have heq : a = b := Option.some.inj (ha.symm.trans hb)
      exact ⟨i, a, ha, Nat.le_antisymm hax (heq ▸ hxb), Nat.le_refl i, Nat.le_refl i⟩
  | succ d ih =>
      rcases Nat.eq_or_lt_of_le hax with heq | hlt
      · exact ⟨i, a, ha, heq, Nat.le_refl i, hij⟩
      · have hi : i + 1 < content.length := by
          have := (List.getElem?_eq_some_iff.mp hb).1
          omega
        have hc := List.getElem?_eq_getElem hi
        have hle : content[i + 1].2 ≤ x := Nat.le_of_not_lt fun hgt =>
          (h.follows ha hc).no_tick_between hlt hgt hx
        obtain ⟨m, c, hm, hcx, him, hmj⟩ := ih hc hle
          (by rwa [show i + 1 + d = i + (d + 1) by omega]) (Nat.le_add_right ..)
        exact ⟨m, c, hm, hcx, by omega, by omega⟩

theorem backslashesBefore_eq_zero {x : Nat} (h : x = 0 ∨ source[x - 1]? ≠ some '\\') :
    backslashesBefore source x = 0 := by
  cases x with
  | zero => rfl
  | succ x =>
      rw [backslashesBefore, if_neg]
      exact h.elim (fun h => absurd h (Nat.succ_ne_zero x)) id

/-- As many backslashes stand before a mark in the content as in the source. -/
theorem Laid.backslashesBefore (h : Laid source content) (ha : content[i]? = some a)
    (hmark : IsMark a.1) :
    backslashesBefore (textOf content) i = CodeSpan.backslashesBefore source a.2 := by
  induction i generalizing a with
  | zero =>
      have hfront := h.front a (by rw [List.head?_eq_getElem?, ha]) hmark
      rw [backslashesBefore_eq_zero (hfront.imp id fun h => h.slash)]
      rfl
  | succ i ih =>
      have hi : i < content.length := Nat.lt_of_succ_lt (List.getElem?_eq_some_iff.mp ha).1
      have hy := List.getElem?_eq_getElem hi
      have hfollows := h.follows hy ha
      have hreads := h.reads_of_getElem? hy
      have htext : (textOf content)[i]? = some content[i].1 := by rw [getElem?_textOf, hy]; rfl
      by_cases hslash : content[i].1 = '\\'
      · have hadj := hfollows.adjacent (Or.inr hslash) hmark
        rw [hadj, CodeSpan.backslashesBefore, CodeSpan.backslashesBefore, htext,
          if_pos (by rw [hslash]), if_pos (hreads.slash.mp hslash), ih hy (Or.inr hslash)]
      · rw [CodeSpan.backslashesBefore, htext, if_neg (fun h => hslash (Option.some.inj h)),
          backslashesBefore_eq_zero]
        by_cases htick : content[i].1 = '`'
        · have hadj := hfollows.adjacent (Or.inl htick) hmark
          rw [hadj, Nat.add_sub_cancel]
          exact Or.inr fun h => hslash (hreads.slash.mpr h)
        · exact Or.inr (hfollows.unmarked_before hreads (not_or.mpr ⟨htick, hslash⟩) hmark).slash

/-- A delimiter of the source that begins at a place of the content is one of the content. -/
theorem Laid.delimits (h : Laid source content) (hlimit : ∀ p ∈ content, p.2 < limit)
    (hn : 0 < n) (ha : content[i]? = some a) (hd : Delimits source n limit a.2) :
    Delimits (textOf content) n content.length i := by
  obtain ⟨first, hfirst, hfirstTick, -⟩ := h.run_of_source ha hd.ticks hn
  obtain ⟨last, hlast, hlastTick, hlastPlace⟩ :=
    h.run_of_source ha hd.ticks (Nat.sub_lt hn Nat.one_pos)
  have hatick : a.1 = '`' := (h.reads_of_getElem? ha).tick.mpr (hd.ticks 0 hn)
  refine ⟨fun k hk => ?_, ?_, ?_, ?_⟩
  · obtain ⟨b, hb, htick, -⟩ := h.run_of_source ha hd.ticks hk
    rw [getElem?_textOf, hb, Option.map_some, htick]
  · have := (List.getElem?_eq_some_iff.mp hlast).1
    omega
  · cases i with
    | zero => exact Or.inl rfl
    | succ i =>
        refine Or.inr fun hbefore => ?_
        rw [Nat.add_sub_cancel, getElem?_textOf] at hbefore
        obtain ⟨y, hy, hytick⟩ := Option.map_eq_some_iff.mp hbefore
        have hadj := (h.follows hy ha).adjacent (Or.inl hytick) (Or.inl hatick)
        refine hd.before.elim (fun h0 => by omega) fun hne => hne ?_
        rw [hadj, Nat.add_sub_cancel]
        exact (h.reads_of_getElem? hy).tick.mp hytick
  · refine Or.inr fun hafter => ?_
    rw [getElem?_textOf] at hafter
    obtain ⟨z, hz, hztick⟩ := Option.map_eq_some_iff.mp hafter
    have hlast' : content[i + (n - 1)]? = some last := hlast
    have hz' : content[i + (n - 1) + 1]? = some z := by
      rwa [show i + (n - 1) + 1 = i + n by omega]
    have hadj := (h.follows hlast' hz').adjacent (Or.inl hlastTick) (Or.inl hztick)
    have hplace : z.2 = a.2 + n := by omega
    have hlt := hlimit z (List.mem_of_getElem? hz)
    refine hd.after.elim (fun h => by omega) fun hne => hne ?_
    rw [← hplace]
    exact (h.reads_of_getElem? hz).tick.mp hztick

theorem Laid.source_run (h : Laid source content) (ha : content[i]? = some a)
    (hrun : ∀ m, m < n → (textOf content)[i + m]? = some '`') (hk : k < n) :
    source[a.2 + k]? = some '`' := by
  obtain ⟨x, hx, htick, hplace⟩ := h.run_places ha hrun hk
  rw [← hplace]
  exact (h.reads_of_getElem? hx).tick.mp htick

theorem Laid.source_run_end (h : Laid source content) (hn : 0 < n) (ha : content[i]? = some a)
    (hrun : ∀ m, m < n → (textOf content)[i + m]? = some '`') (hb : content[i + n]? = some b)
    (hend : (textOf content)[i + n]? ≠ some '`') : source[a.2 + n]? ≠ some '`' := by
  intro hafter
  obtain ⟨x, hx, htick, hplace⟩ := h.run_places ha hrun (Nat.sub_lt hn Nat.one_pos)
  have hnext : source[x.2 + 1]? = some '`' := by
    rwa [hplace, show a.2 + (n - 1) + 1 = a.2 + n by omega]
  have hb' : content[i + (n - 1) + 1]? = some b := by
    rwa [show i + (n - 1) + 1 = i + n by omega]
  have hbtick := ((h.follows hx hb').tick_after (h.reads_of_getElem? hb) htick hnext).1
  exact hend (by rw [getElem?_textOf, hb, Option.map_some, hbtick])

theorem Laid.source_run_start (h : Laid source content) (ha : content[i]? = some a)
    (hb : content[i + 1]? = some b) (hstart : (textOf content)[i]? ≠ some '`')
    (htick : b.1 = '`') : source[b.2 - 1]? ≠ some '`' := by
  have hatick : a.1 ≠ '`' := fun hatick => hstart (by
    rw [getElem?_textOf, ha, Option.map_some, hatick])
  have hfollows := h.follows ha hb
  intro hbefore
  by_cases hslash : a.1 = '\\'
  · have hadj := hfollows.adjacent (Or.inr hslash) (Or.inl htick)
    rw [hadj, Nat.add_sub_cancel] at hbefore
    exact hatick ((h.reads_of_getElem? ha).tick.mpr hbefore)
  · exact (hfollows.unmarked_before (h.reads_of_getElem? ha) (not_or.mpr ⟨hatick, hslash⟩)
      (Or.inl htick)).tick hbefore

/-- A code span of the content is one of the source. -/
theorem Laid.stands (h : Laid source content) (hlimit : ∀ p ∈ content, p.2 < limit)
    (hsize : limit ≤ source.size) (hs : Stands (textOf content) n content.length ⟨i, j⟩) :
    Stands source n limit (sourceRange content i j) := by
  have hn := hs.pos
  have hinside : i + n < j - n := hs.inside
  have hwithin : j ≤ content.length := hs.within
  have hopening : ∀ k, k < n → (textOf content)[i + k]? = some '`' := hs.opening
  have hclosing : ∀ k, k < n → (textOf content)[j - n + k]? = some '`' := hs.closing
  -- the first and the last backtick of the two delimiters
  obtain ⟨a, ha⟩ := exists_getElem? (show i < content.length by omega)
  obtain ⟨c, hc⟩ := exists_getElem? (show j - n < content.length by omega)
  obtain ⟨b, hb, hbtick, hbplace⟩ := h.run_places ha hopening (Nat.sub_lt hn Nat.one_pos)
  obtain ⟨d, hd, -, hdplace⟩ := h.run_places hc hclosing (Nat.sub_lt hn Nat.one_pos)
  have hatick : a.1 = '`' := tick_of_textOf ha (hopening 0 hn)
  have hctick : c.1 = '`' := tick_of_textOf hc (hclosing 0 hn)
  have hdj : content[j - 1]? = some d := by
    rwa [show j - n + (n - 1) = j - 1 by omega] at hd
  have hrange : sourceRange content i j = ⟨a.2, c.2 + n⟩ := by
    rw [sourceRange, placeOf_eq ha, placeOf_eq hdj, hdplace]
    simp only [Range.mk.injEq, true_and]
    omega
  have hend : c.2 + n - n = c.2 := Nat.add_sub_cancel ..
  -- what stands between the delimiters
  obtain ⟨e, he⟩ := exists_getElem? (show i + n < content.length by omega)
  have hbe : b.2 < e.2 := by
    refine (h.follows hb ?_).lt_of_left (Or.inl hbtick)
    rwa [show i + (n - 1) + 1 = i + n by omega]
  have hec : e.2 < c.2 := h.place_lt he hc hinside (Or.inl hctick)
  rw [hrange]
  refine ⟨hn, ?_, ?_, hsize, fun k hk => h.source_run ha hopening hk,
    h.source_run_end hn ha hopening he hs.openEnd, ?_, ?_, ?_, fun p hp hlt hdel => ?_⟩
  · show a.2 + n < c.2 + n - n
    omega
  · show c.2 + n ≤ limit
    have := hlimit d (List.mem_of_getElem? hd)
    omega
  · have hunescaped : isEscaped (textOf content) i = false := hs.unescaped
    show isEscaped source a.2 = false
    rw [isEscaped, ← h.backslashesBefore ha (Or.inl hatick)]
    exact hunescaped
  · intro k hk
    show source[c.2 + n - n + k]? = some '`'
    rw [hend]
    exact h.source_run hc hclosing hk
  · show source[c.2 + n - n - 1]? ≠ some '`'
    rw [hend]
    obtain ⟨y, hy⟩ := exists_getElem? (show j - n - 1 < content.length by omega)
    refine h.source_run_start hy ?_ hs.closeStart hctick
    rwa [show j - n - 1 + 1 = j - n by omega]
  · have hp : a.2 + n ≤ p := hp
    have hlt : p < c.2 + n - n := hlt
    obtain ⟨m, x, hm, hxp, him, hmj⟩ := h.exists_index hb hc (by omega) (by omega) (by omega)
      (hdel.ticks 0 hn)
    have hne : m ≠ i + (n - 1) := by
      rintro rfl
      have : x = b := Option.some.inj (hm.symm.trans hb)
      rw [this] at hxp
      omega
    have hne' : m ≠ j - n := by
      rintro rfl
      have : x = c := Option.some.inj (hm.symm.trans hc)
      rw [this] at hxp
      omega
    have hfrom : i + n ≤ m := by omega
    have hto : m < j - n := by omega
    exact hs.shortest m hfrom hto (h.delimits hlimit hn hm (hxp ▸ hdel))

end

end DirectiveFences.Markdown
