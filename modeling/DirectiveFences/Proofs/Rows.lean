/-
What containers leave of the lines of a source.

A container takes its marks and its indentation off the front of a line.  Neither has a
backtick or a backslash in it, so every one of these is still there, at its place
(`Row.LeftOf`).  Joining what is left of some lines gives content that is laid out in the
source: from one line to the next only marks and indentation are left out.
-/
import DirectiveFences.Markdown.Block
import DirectiveFences.Proofs.LineStarts
import DirectiveFences.Proofs.Placement

namespace DirectiveFences.Markdown

/-! ## Lines of the source -/

/-- The lines of a source: the first begins at its start, and each of the others one place after
the one before it, which ends at a line feed. -/
structure IsLines (source : Array Char) (lines : Array Range) : Prop where
  first : ∀ l : Range, lines[0]? = some l → l.start = 0
  next : ∀ (i : Nat) (l l' : Range), lines[i]? = some l → lines[i + 1]? = some l' →
    l'.start = l.stop + 1
  le : ∀ (i : Nat) (l : Range), lines[i]? = some l → l.start ≤ l.stop
  within : ∀ (i : Nat) (l : Range), lines[i]? = some l → l.stop ≤ source.size
  feed : ∀ (i : Nat) (l : Range), lines[i]? = some l → Unmarked source l.stop

section

variable {source : Array Char} {lines : Array Range} {i j : Nat} {l l' : Range}

/-- No mark stands before a line. -/
theorem IsLines.before (h : IsLines source lines) (hl : lines[i]? = some l) :
    l.start = 0 ∨ Unmarked source (l.start - 1) := by
  cases i with
  | zero => exact Or.inl (h.first l hl)
  | succ i =>
      have hi : i < lines.size := Nat.lt_of_succ_lt (Array.getElem?_eq_some_iff.mp hl).1
      have hprev := Array.getElem?_eq_getElem hi
      rw [h.next i _ l hprev hl, Nat.add_sub_cancel]
      exact Or.inr (h.feed i _ hprev)

/-- A line ends before the later ones begin. -/
theorem IsLines.lt (h : IsLines source lines) (hl : lines[i]? = some l) (hl' : lines[j]? = some l')
    (hij : i < j) : l.stop < l'.start := by
  induction j generalizing l' with
  | zero => exact absurd hij (Nat.not_lt_zero i)
  | succ j ih =>
      have hj : j < lines.size := Nat.lt_of_succ_lt (Array.getElem?_eq_some_iff.mp hl').1
      have hprev := Array.getElem?_eq_getElem hj
      rw [h.next j _ l' hprev hl']
      rcases Nat.lt_or_eq_of_le (Nat.le_of_lt_succ hij) with hlt | rfl
      · have := ih hprev hlt
        have := h.le j _ hprev
        omega
      · rw [hl] at hprev
        rw [Option.some.inj hprev]
        exact Nat.lt_succ_self _

theorem IsLines.stop_le (h : IsLines source lines) (hl : lines[i]? = some l)
    (hl' : lines[j]? = some l') (hij : i ≤ j) : l.stop ≤ l'.stop := by
  rcases Nat.lt_or_eq_of_le hij with hlt | rfl
  · exact Nat.le_trans (Nat.le_of_lt (h.lt hl hl' hlt)) (h.le j l' hl')
  · rw [Option.some.inj (hl.symm.trans hl')]

end

/-! ## Parts of the source -/

/-- Content that takes up a part of the source: it has all the marks that stand there. -/
structure Spread (source : Array Char) (r : Range) (c : List Placed) : Prop where
  reads : ∀ p ∈ c, Reads source p
  chain : c.IsChain (Follows source)
  from_ : ∀ p ∈ c, r.start ≤ p.2
  below : ∀ p ∈ c, p.2 < r.stop
  gap : ∀ x, r.start ≤ x → x < r.stop → (∀ p ∈ c, x < p.2) → Unmarked source x
  back : ∀ p, c.getLast? = some p → p.1 = '`' → source[p.2 + 1]? ≠ some '`'

/-- Content that takes up a part of one line, up to its end. -/
structure OnLine (source : Array Char) (l : Range) (c : List Placed) : Prop where
  reads : ∀ p ∈ c, Reads source p
  chain : c.IsChain (Follows source)
  from_ : ∀ p ∈ c, l.start ≤ p.2
  last : ∀ p, c.getLast? = some p → p.2 + 1 = l.stop
  gap : ∀ x, l.start ≤ x → x < l.stop → (∀ p ∈ c, x < p.2) → Unmarked source x

section

variable {source : Array Char} {r l l' : Range} {c c' : List Placed} {p q : Placed}

theorem le_of_isChain_cons (h : (p :: c).IsChain (Follows source)) (hq : q ∈ c) : p.2 ≤ q.2 := by
  have hle : (p :: c).IsChain fun p q => p.2 ≤ q.2 := h.imp fun _ _ hf => hf.le
  have : Trans (fun p q : Placed => p.2 ≤ q.2) (fun p q : Placed => p.2 ≤ q.2)
      (fun p q : Placed => p.2 ≤ q.2) := ⟨Nat.le_trans⟩
  exact List.rel_of_pairwise_cons hle.pairwise hq

theorem le_of_head? (h : c.IsChain (Follows source)) (hp : c.head? = some p) (hq : q ∈ c) :
    p.2 ≤ q.2 := by
  obtain ⟨rest, rfl⟩ := List.head?_eq_some_iff.mp hp
  rcases List.mem_cons.mp hq with rfl | hq
  · exact Nat.le_refl _
  · exact le_of_isChain_cons h hq

theorem le_of_getLast? (h : c.IsChain (Follows source)) (hp : c.getLast? = some p) (hq : q ∈ c) :
    q.2 ≤ p.2 := by
  induction c with
  | nil => cases hq
  | cons a c ih =>
      cases c with
      | nil =>
          obtain rfl := List.mem_singleton.mp hq
          exact Nat.le_of_eq (congrArg Prod.snd (Option.some.inj hp))
      | cons b c =>
          rw [List.getLast?_cons_cons] at hp
          rcases List.mem_cons.mp hq with rfl | hq
          · exact le_of_isChain_cons h (List.mem_of_getLast? hp)
          · exact ih h.tail hp hq

theorem Spread.laid (h : Spread source r c)
    (hbefore : r.start = 0 ∨ Unmarked source (r.start - 1)) : Laid source c := by
  refine ⟨h.reads, h.chain, fun p hp hmark => ?_, h.back⟩
  have hmem := List.mem_of_head? hp
  rcases Nat.lt_or_eq_of_le (h.from_ p hmem) with hlt | heq
  · refine Or.inr (h.gap (p.2 - 1) (by omega) ?_ fun q hq => ?_)
    · have := h.below p hmem
      omega
    · have := le_of_head? h.chain hp hq
      omega
  · rwa [← heq]

theorem OnLine.spread (h : OnLine source l c) (hfeed : Unmarked source l.stop) :
    Spread source l c := by
  refine ⟨h.reads, h.chain, h.from_, fun p hp => ?_, h.gap, fun p hp _ => ?_⟩
  · cases hlast : c.getLast? with
    | none =>
        rw [List.getLast?_eq_none_iff.mp hlast] at hp
        cases hp
    | some q =>
        have := h.last q hlast
        have := le_of_getLast? h.chain hlast hp
        omega
  · rw [h.last p hp]
    exact hfeed.tick

/-- A tab may count as several spaces. -/
theorem OnLine.replicate {x : Placed} (h : OnLine source l (x :: c)) (hx : x.1 = ' ') (k : Nat) :
    OnLine source l (List.replicate (k + 1) x ++ c) := by
  induction k with
  | zero => exact h
  | succ k ih =>
      have ih : OnLine source l (x :: (List.replicate k x ++ c)) := ih
      show OnLine source l (x :: x :: (List.replicate k x ++ c))
      refine ⟨?_, ?_, ?_, fun p hp => ih.last p (by rwa [List.getLast?_cons_cons] at hp), ?_⟩
      · exact List.forall_mem_cons.mpr ⟨ih.reads x List.mem_cons_self, ih.reads⟩
      · exact List.isChain_cons_cons.mpr ⟨Follows.tab hx hx rfl, ih.chain⟩
      · exact List.forall_mem_cons.mpr ⟨ih.from_ x List.mem_cons_self, ih.from_⟩
      · exact fun y hy hyl hall => ih.gap y hy hyl fun p hp => hall p (List.mem_cons_of_mem x hp)

/-- One line, its line feed, and the lines after it. -/
theorem OnLine.append (h : OnLine source l c) (hfeed : Unmarked source l.stop)
    (hle : l.start ≤ l.stop) (h' : Spread source l' c') (hstart : l'.start = l.stop + 1)
    (hle' : l'.start ≤ l'.stop) :
    Spread source ⟨l.start, l'.stop⟩ (c ++ ('\n', l.stop) :: c') := by
  have hs := h.spread hfeed
  have hreads : Reads source ('\n', l.stop) :=
    ⟨⟨fun heq => absurd heq (show '\n' ≠ '`' by decide), fun heq => absurd heq hfeed.tick⟩,
      ⟨fun heq => absurd heq (show '\n' ≠ '\\' by decide), fun heq => absurd heq hfeed.slash⟩⟩
  have hchain : (('\n', l.stop) :: c').IsChain (Follows source) := by
    refine h'.chain.cons fun q hq => ?_
    have hmem := List.mem_of_head? hq
    have hfrom := h'.from_ q hmem
    refine Follows.line rfl (by show l.stop < q.2; omega) fun x hx hxq => ?_
    have hx : l.stop < x := hx
    refine h'.gap x (by omega) (Nat.lt_trans hxq (h'.below q hmem)) fun p hp => ?_
    exact Nat.lt_of_lt_of_le hxq (le_of_head? h'.chain hq hp)
  refine ⟨fun p hp => ?_, ?_, fun p hp => ?_, fun p hp => ?_, fun x hx hxl hall => ?_,
    fun p hp htick => ?_⟩
  · rcases List.mem_append.mp hp with hp | hp
    · exact h.reads p hp
    · rcases List.mem_cons.mp hp with rfl | hp
      · exact hreads
      · exact h'.reads p hp
  · refine h.chain.append hchain fun p hp q hq => ?_
    obtain rfl := Option.some.inj hq
    exact Follows.next (h.last p hp).symm
  · show l.start ≤ p.2
    rcases List.mem_append.mp hp with hp | hp
    · exact h.from_ p hp
    · rcases List.mem_cons.mp hp with rfl | hp
      · exact hle
      · have := h'.from_ p hp
        omega
  · show p.2 < l'.stop
    rcases List.mem_append.mp hp with hp | hp
    · have := hs.below p hp
      omega
    · rcases List.mem_cons.mp hp with rfl | hp
      · show l.stop < l'.stop
        omega
      · exact h'.below p hp
  · refine h.gap x hx ?_ fun p hp => hall p (List.mem_append_left _ hp)
    exact hall ('\n', l.stop) (List.mem_append_right c List.mem_cons_self)
  · rw [List.getLast?_append, List.getLast?_cons] at hp
    cases hlast : c'.getLast? with
    | none =>
        rw [hlast] at hp
        obtain rfl := Option.some.inj hp
        exact absurd htick (show '\n' ≠ '`' by decide)
    | some q =>
        rw [hlast] at hp
        exact h'.back p (hlast.trans hp) htick

end

/-! ## One line -/

namespace Row

/-- A row is what a container has left of a line: it reaches to the line's end, and all the marks
of the line are in its content. -/
structure LeftOf (source : Array Char) (l : Range) (r : Row) : Prop where
  stop : r.stop = l.stop
  reads : ∀ p ∈ r.lead ++ r.content, Reads source p
  chain : (r.lead ++ r.content).IsChain fun p q => q.2 = p.2 + 1
  from_ : ∀ p ∈ r.lead ++ r.content, l.start ≤ p.2
  last : ∀ p, (r.lead ++ r.content).getLast? = some p → p.2 + 1 = l.stop
  feeds : ∀ p ∈ r.lead ++ r.content, p.1 ≠ '\n'
  lead : ∀ p ∈ r.lead, ¬ IsMark p.1
  marks : ∀ x, l.start ≤ x → x < l.stop → Unmarked source x ∨ ∃ p ∈ r.content, p.2 = x

section

variable {source : Array Char} {l : Range} {r r' : Row}

theorem LeftOf.shrink (h : r.LeftOf source l) (taken : List Placed) (hstop : r'.stop = r.stop)
    (hsplit : r.lead ++ r.content = taken ++ (r'.lead ++ r'.content))
    (htaken : ∀ p ∈ taken ++ r'.lead, ¬ IsMark p.1) : r'.LeftOf source l := by
  have hmem : ∀ p ∈ r'.lead ++ r'.content, p ∈ r.lead ++ r.content := fun p hp =>
    hsplit ▸ List.mem_append_right taken hp
  refine ⟨hstop.trans h.stop, fun p hp => h.reads p (hmem p hp), ?_,
    fun p hp => h.from_ p (hmem p hp), fun p hp => ?_, fun p hp => h.feeds p (hmem p hp),
    fun p hp => htaken p (List.mem_append_right taken hp), fun x hx hxl => ?_⟩
  · exact (hsplit ▸ h.chain).right_of_append
  · refine h.last p ?_
    rw [hsplit, List.getLast?_append, hp]
    rfl
  · rcases h.marks x hx hxl with hun | ⟨p, hp, rfl⟩
    · exact Or.inl hun
    · have hp' := List.mem_append_right r.lead hp
      rw [hsplit, ← List.append_assoc] at hp'
      rcases List.mem_append.mp hp' with hp' | hp'
      · exact Or.inl ((h.reads p (List.mem_append_right r.lead hp)).unmarked (htaken p hp'))
      · exact Or.inr ⟨p, hp', rfl⟩

theorem LeftOf.onLine_append (h : r.LeftOf source l) :
    OnLine source l (r.lead ++ r.content) := by
  refine ⟨h.reads, h.chain.imp fun _ _ => Follows.next, h.from_, h.last, fun x hx hxl hall => ?_⟩
  rcases h.marks x hx hxl with hun | ⟨p, hp, rfl⟩
  · exact hun
  · exact absurd (hall p (List.mem_append_right r.lead hp)) (Nat.lt_irrefl _)

theorem LeftOf.onLine_content (h : r.LeftOf source l) : OnLine source l r.content := by
  have hbare : ({ r with lead := [] } : Row).LeftOf source l :=
    h.shrink r.lead rfl rfl fun p hp => h.lead p (by simpa using hp)
  exact hbare.onLine_append

/-- A tab at the front of a row may count as a space. -/
theorem LeftOf.blank {p : Placed} {ps : List Placed} (h : r.LeftOf source l)
    (hlead : r.lead = p :: ps) : ({ r with lead := (' ', p.2) :: ps } : Row).LeftOf source l := by
  obtain ⟨lead, content, column, base, stop⟩ := r
  obtain rfl : lead = p :: ps := hlead
  have hp : ¬ IsMark p.1 := h.lead p List.mem_cons_self
  have hun := (h.reads p List.mem_cons_self).unmarked hp
  have hchain := List.isChain_cons.mp h.chain
  refine ⟨h.stop, ?_, List.isChain_cons.mpr hchain, ?_, fun q hq => ?_, ?_, ?_, h.marks⟩
  · refine List.forall_mem_cons.mpr ⟨?_, fun q hq => h.reads q (List.mem_cons_of_mem p hq)⟩
    exact ⟨⟨fun heq => absurd heq (show ' ' ≠ '`' by decide), fun heq => absurd heq hun.tick⟩,
      ⟨fun heq => absurd heq (show ' ' ≠ '\\' by decide), fun heq => absurd heq hun.slash⟩⟩
  · exact List.forall_mem_cons.mpr
      ⟨h.from_ p List.mem_cons_self, fun q hq => h.from_ q (List.mem_cons_of_mem p hq)⟩
  · have hlast := h.last
    simp only [List.cons_append, List.getLast?_cons] at hlast hq
    cases hrest : (ps ++ content).getLast? with
    | none =>
        rw [hrest] at hlast hq
        obtain rfl := Option.some.inj hq
        exact hlast p rfl
    | some z =>
        rw [hrest] at hlast hq
        exact hlast q hq
  · exact List.forall_mem_cons.mpr
      ⟨show ' ' ≠ '\n' by decide, fun q hq => h.feeds q (List.mem_cons_of_mem p hq)⟩
  · exact List.forall_mem_cons.mpr
      ⟨not_isMark_of_isBlank (c := ' ') (by decide),
        fun q hq => h.lead q (List.mem_cons_of_mem p hq)⟩

/-! ## Indentation -/

theorem cutLead_onLine (base indent column : Int) (h : r.LeftOf source l) :
    OnLine source l (cutLead base indent column r.lead ++ r.content) := by
  obtain ⟨lead, content, rowColumn, rowBase, stop⟩ := r
  show OnLine source l (cutLead base indent column lead ++ content)
  induction lead generalizing column with
  | nil => exact h.onLine_append
  | cons p ps ih =>
      rw [cutLead]
      split
      · dsimp only
        split
        · rename_i hlt
          obtain ⟨k, hk⟩ : ∃ k, (column + width (column + base) p.1 - indent).toNat = k + 1 :=
            ⟨(column + width (column + base) p.1 - indent).toNat - 1, by omega⟩
          rw [hk, List.append_assoc]
          exact (h.blank rfl).onLine_append.replicate rfl k
        · exact ih _ (h.shrink [p] rfl rfl fun q hq => h.lead q hq)
      · exact h.onLine_append

/-- A row without some columns of indentation is content of its line. -/
theorem LeftOf.cut (h : r.LeftOf source l) (indent : Int) : OnLine source l (r.cut indent) :=
  cutLead_onLine r.base indent 0 h

theorem spanSpaces_append (cs : List Placed) : (spanSpaces cs).1 ++ (spanSpaces cs).2 = cs :=
  List.takeWhile_append_dropWhile

theorem not_isMark_of_isSpace {c : Char} (h : Text.isSpace c = true) : ¬ IsMark c :=
  not_isMark_of_isBlank (Text.isBlank_of_isSpace h)

theorem not_isMark_of_mem_spanSpaces {cs : List Placed} {p : Placed}
    (hp : p ∈ (spanSpaces cs).1) : ¬ IsMark p.1 :=
  not_isMark_of_isSpace (List.all_eq_true.mp List.all_takeWhile p hp)

theorem getElem?_zip_range' (start k : Nat) (cs : List Char) :
    (cs.zip (List.range' start cs.length))[k]? = cs[k]?.map fun c => (c, start + k) := by
  by_cases hk : k < cs.length
  · rw [List.getElem?_eq_getElem (by simpa using hk), List.getElem?_eq_getElem hk]
    simp
  · rw [List.getElem?_eq_none (by simpa using hk), List.getElem?_eq_none (Nat.le_of_not_lt hk)]
    rfl

theorem leftOf_ofSource {start : Nat} {cs : List Char} (hfeeds : '\n' ∉ cs)
    (hreads : ∀ k c, cs[k]? = some c → Reads source (c, start + k)) :
    (ofSource start cs).LeftOf source ⟨start, start + cs.length⟩ := by
  have hsplit : (ofSource start cs).lead ++ (ofSource start cs).content =
      cs.zip (List.range' start cs.length) := spanSpaces_append _
  have hlead : ∀ p ∈ (ofSource start cs).lead, ¬ IsMark p.1 :=
    fun p hp => not_isMark_of_mem_spanSpaces hp
  have hplaced : ∀ p ∈ cs.zip (List.range' start cs.length),
      ∃ k, cs[k]? = some p.1 ∧ p.2 = start + k := fun p hp => by
    obtain ⟨k, hk⟩ := List.getElem?_of_mem hp
    rw [getElem?_zip_range'] at hk
    obtain ⟨c, hc, rfl⟩ := Option.map_eq_some_iff.mp hk
    exact ⟨k, hc, rfl⟩
  have hreadsPlaced : ∀ p ∈ cs.zip (List.range' start cs.length), Reads source p := fun p hp => by
    obtain ⟨k, hc, hplace⟩ := hplaced p hp
    obtain ⟨c, place⟩ := p
    obtain rfl : place = start + k := hplace
    exact hreads k c hc
  refine ⟨rfl, hsplit ▸ hreadsPlaced, hsplit ▸ ?_, hsplit ▸ fun p hp => ?_, hsplit ▸ fun p hp => ?_,
    hsplit ▸ fun p hp => ?_, hlead, fun x hx hxl => ?_⟩
  · refine List.isChain_iff_getElem.mpr fun k hk => ?_
    simp only [List.getElem_zip, List.getElem_range']
    omega
  · obtain ⟨k, -, hplace⟩ := hplaced p hp
    show start ≤ p.2
    omega
  · rw [List.getLast?_eq_getElem?, getElem?_zip_range'] at hp
    obtain ⟨c, hc, rfl⟩ := Option.map_eq_some_iff.mp hp
    have hlen := (List.getElem?_eq_some_iff.mp hc).1
    simp only [List.length_zip, List.length_range', Nat.min_self] at hlen ⊢
    omega
  · obtain ⟨k, hc, -⟩ := hplaced p hp
    rintro hfeed
    exact hfeeds (List.mem_of_getElem? (hfeed ▸ hc))
  · obtain ⟨k, rfl⟩ := Nat.exists_eq_add_of_le (show start ≤ x from hx)
    have hk : k < cs.length := Nat.lt_of_add_lt_add_left hxl
    have hmem : (cs[k], start + k) ∈ cs.zip (List.range' start cs.length) := by
      refine List.mem_of_getElem? (i := k) ?_
      rw [getElem?_zip_range', List.getElem?_eq_getElem hk]
      rfl
    rw [← hsplit] at hmem
    rcases List.mem_append.mp hmem with hmem | hmem
    · exact Or.inl ((hreads k _ (List.getElem?_eq_getElem hk)).unmarked (hlead _ hmem))
    · exact Or.inr ⟨_, hmem, rfl⟩

end

end Row

/-! ## Several lines -/

/-- Joining what containers have left of some lines one after the other. -/
theorem joinRows_spread {source : Array Char} {lines : Array Range} (hlines : IsLines source lines)
    (indent : Int) (rows : List Row) (hne : rows ≠ []) {i : Nat}
    (hrows : ∀ k r, rows[k]? = some r → ∃ l, lines[i + k]? = some l ∧ r.LeftOf source l) :
    ∃ l l' : Range, lines[i]? = some l ∧ lines[i + rows.length - 1]? = some l' ∧
      Spread source ⟨l.start, l'.stop⟩ (joinRows indent rows) := by
  induction rows generalizing i with
  | nil => exact absurd rfl hne
  | cons r rows ih =>
      obtain ⟨l, hl, hr⟩ := hrows 0 r rfl
      rw [Nat.add_zero] at hl
      cases rows with
      | nil => exact ⟨l, l, hl, hl, (hr.cut indent).spread (hlines.feed i l hl)⟩
      | cons r₂ rows =>
          obtain ⟨l₂, l', hl₂, hl', hspread⟩ := ih (i := i + 1) nofun fun k r hk => by
            obtain ⟨l, hl, hr⟩ := hrows (k + 1) r hk
            exact ⟨l, by rwa [Nat.add_assoc, Nat.add_comm 1 k], hr⟩
          rw [List.length_cons, Nat.add_assoc, Nat.add_comm 1] at hl'
          have hle : l₂.start ≤ l'.stop :=
            Nat.le_trans (hlines.le (i + 1) l₂ hl₂) (hlines.stop_le hl₂ hl' (by omega))
          have hjoined := (hr.cut indent).append (hlines.feed i l hl) (hlines.le i l hl) hspread
            (hlines.next i l l₂ hl hl₂) hle
          rw [← hr.stop] at hjoined
          exact ⟨l, l', hl, hl', hjoined⟩

/-! ## Marks of containers -/

namespace Block

variable {source : Array Char} {l : Range} {r : Row}

theorem exists_unquote (lead : List Placed) (p : Placed) (body : List Placed) (column base : Int)
    (stop : Nat) : ∃ taken rest, body = taken ++ rest ∧ (∀ q ∈ taken, ¬ IsMark q.1) ∧
      (unquote ⟨lead, p :: body, column, base, stop⟩).lead = (Row.spanSpaces rest).1 ∧
      (unquote ⟨lead, p :: body, column, base, stop⟩).content = (Row.spanSpaces rest).2 := by
  cases body with
  | nil => exact ⟨[], [], rfl, nofun, rfl, rfl⟩
  | cons q rest =>
      cases htab : q.1 == ' ' || (q.1 == '\t' && (base + (column + 1)) % 4 == 3) with
      | false => refine ⟨[], q :: rest, rfl, nofun, ?_, ?_⟩ <;> simp [unquote, htab]
      | true =>
          refine ⟨[q], rest, rfl, fun x hx => ?_, ?_, ?_⟩
          · obtain rfl := List.mem_singleton.mp hx
            refine Row.not_isMark_of_isSpace ?_
            rcases Bool.or_eq_true_iff.mp htab with h | h
            · rw [Text.isSpace, h, Bool.true_or]
            · rw [Text.isSpace, (Bool.and_eq_true_iff.mp h).1, Bool.or_true]
          · simp [unquote, htab]
          · simp [unquote, htab]

theorem unquote_leftOf (h : r.LeftOf source l) (hmark : r.text.head? = some '>') :
    (unquote r).LeftOf source l := by
  obtain ⟨lead, content, column, base, stop⟩ := r
  cases content with
  | nil => cases hmark
  | cons p body =>
      have hp : ¬ IsMark p.1 := fun h =>
        ne_of_isMark h (by decide) (Option.some.inj hmark : p.1 = '>')
      obtain ⟨taken, rest, hbody, htaken, hlead, hcontent⟩ :=
        exists_unquote lead p body column base stop
      refine h.shrink (lead ++ p :: taken) rfl ?_ fun q hq => ?_
      · rw [hlead, hcontent, Row.spanSpaces_append, hbody, List.append_assoc, List.cons_append]
      · rw [hlead] at hq
        rcases List.mem_append.mp hq with hq | hq
        · rcases List.mem_append.mp hq with hq | hq
          · exact h.lead q hq
          · rcases List.mem_cons.mp hq with rfl | hq
            · exact hp
            · exact htaken q hq
        · exact Row.not_isMark_of_mem_spanSpaces hq

theorem unmark_leftOf (h : r.LeftOf source l) {length : Nat}
    (hmark : ∀ c ∈ r.text.take length, ¬ IsMark c) : (unmark r length).1.LeftOf source l := by
  refine h.shrink [] rfl ?_ fun p hp => ?_
  · show r.lead ++ r.content = r.lead ++ r.content.take length ++
      (Row.spanSpaces (r.content.drop length)).1 ++ (Row.spanSpaces (r.content.drop length)).2
    rw [List.append_assoc, Row.spanSpaces_append, List.append_assoc, List.take_append_drop]
  · rw [List.nil_append] at hp
    rcases List.mem_append.mp hp with hp | hp
    · rcases List.mem_append.mp hp with hp | hp
      · exact h.lead p hp
      · refine hmark p.1 ?_
        rw [Row.text, ← List.map_take]
        exact List.mem_map_of_mem hp
    · exact Row.not_isMark_of_mem_spanSpaces hp

end Block

end DirectiveFences.Markdown
