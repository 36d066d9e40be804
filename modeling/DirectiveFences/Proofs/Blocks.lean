/-
The rules of the block structure, one by one.

Each rule that finds a block on a line gives a sound reading from there (`Reading.Sound`),
and so does reading block after block, in a frame and in the frames inside it.
-/
import DirectiveFences.Proofs.Leaves
import DirectiveFences.Proofs.SourceLines

namespace DirectiveFences.Markdown

/-! ## Where rules stop -/

section

variable {f : Frame} {stop : Nat}

theorem Frame.le_skipEmptyFrom (f : Frame) (fuel line : Nat) :
    line ≤ f.skipEmptyFrom fuel line := by
  induction fuel generalizing line with
  | zero => exact Nat.le_refl line
  | succ fuel ih =>
      rw [Frame.skipEmptyFrom]
      split
      · exact Nat.le_of_succ_le (ih (line + 1))
      · exact Nat.le_refl line

theorem Frame.skipEmptyFrom_full {fuel line : Nat} (hfuel : f.limit ≤ line + fuel)
    (hlt : f.skipEmptyFrom fuel line < f.limit) :
    f.isEmpty (f.skipEmptyFrom fuel line) = false := by
  induction fuel generalizing line with
  | zero => exact absurd hlt (Nat.not_lt_of_le hfuel)
  | succ fuel ih =>
      rw [Frame.skipEmptyFrom] at hlt ⊢
      split
      · rename_i hempty
        rw [if_pos hempty] at hlt
        exact ih (by omega) hlt
      · rename_i hempty
        rw [if_neg hempty] at hlt
        simpa [hlt] using hempty

theorem Frame.begins_skipEmpty (hstop : stop ≤ f.limit) {line : Nat}
    (hlt : f.skipEmpty line < stop) : f.Begins (f.skipEmpty line) stop := by
  refine ⟨hlt, hstop, Frame.skipEmptyFrom_full ?_ (Nat.lt_of_lt_of_le hlt hstop)⟩
  omega

theorem Frame.le_textEndFrom (f : Frame) (before : Open) (fuel line : Nat) :
    line ≤ f.textEndFrom before fuel line := by
  induction fuel generalizing line with
  | zero => exact Nat.le_refl line
  | succ fuel ih =>
      rw [Frame.textEndFrom]
      split
      · exact Nat.le_of_succ_le (ih (line + 1))
      · exact Nat.le_refl line

theorem Frame.textEndFrom_le (f : Frame) (before : Open) (fuel : Nat) {line : Nat}
    (hline : line ≤ f.limit) : f.textEndFrom before fuel line ≤ f.limit := by
  induction fuel generalizing line with
  | zero => exact hline
  | succ fuel ih =>
      rw [Frame.textEndFrom]
      split
      · rename_i hgo
        exact ih (of_decide_eq_true (Bool.and_eq_true_iff.mp hgo).1)
      · exact hline

namespace Block

theorem lt_of_frontMatterEnd? {length fuel line next : Nat}
    (h : frontMatterEnd? f length stop fuel line = some next) : line < next := by
  induction fuel generalizing line with
  | zero => cases h
  | succ fuel ih =>
      rw [frontMatterEnd?] at h
      split at h
      · cases h
      · dsimp only at h
        split at h
        · exact Nat.lt_of_succ_le (Nat.le_of_eq (Option.some.inj h))
        · exact Nat.lt_of_succ_lt (ih h)

theorem le_indentedEnd (f : Frame) (stop fuel : Nat) {last line : Nat} (hle : last ≤ line) :
    last ≤ indentedEnd f stop fuel last line := by
  induction fuel generalizing last line with
  | zero => exact Nat.le_refl last
  | succ fuel ih =>
      rw [indentedEnd]
      split
      · exact Nat.le_refl last
      · split
        · exact ih (Nat.le_succ_of_le hle)
        · split
          · exact Nat.le_trans (Nat.le_succ_of_le hle) (ih (Nat.le_refl _))
          · exact Nat.le_refl last

theorem le_fenceEnd (f : Frame) (fence : Fence) (stop fuel line : Nat) :
    line ≤ fenceEnd f fence stop fuel line := by
  induction fuel generalizing line with
  | zero => exact Nat.le_refl line
  | succ fuel ih =>
      have hgo : line ≤ fenceEnd f fence stop fuel (line + 1) := Nat.le_of_succ_le (ih (line + 1))
      rw [fenceEnd]
      split
      · exact Nat.le_refl line
      · dsimp only
        split
        · split
          · exact Nat.le_refl line
          · exact hgo
        · split
          · exact Nat.le_refl line
          · split
            · exact Nat.le_succ line
            · exact hgo

theorem le_htmlEnd (f : Frame) (kind : Html.BlockKind) (stop fuel line : Nat) :
    line ≤ htmlEnd f kind stop fuel line := by
  induction fuel generalizing line with
  | zero => exact Nat.le_refl line
  | succ fuel ih =>
      rw [htmlEnd]
      split
      · exact Nat.le_refl line
      · dsimp only
        split
        · split
          · exact Nat.le_refl line
          · exact Nat.le_succ line
        · exact Nat.le_of_succ_le (ih (line + 1))

theorem of_underline? {fuel line under : Nat} (h : underline? f stop fuel line = some under) :
    line ≤ under ∧ under < stop := by
  induction fuel generalizing line with
  | zero => cases h
  | succ fuel ih =>
      have hgo : underline? f stop fuel (line + 1) = some under → line ≤ under ∧ under < stop :=
        fun h => ⟨Nat.le_of_succ_le (ih h).1, (ih h).2⟩
      rw [underline?] at h
      split at h
      · cases h
      · rename_i hend
        split at h
        · exact hgo h
        · split at h
          · obtain rfl := Option.some.inj h
            refine ⟨Nat.le_refl line, Nat.lt_of_not_le fun hle => hend ?_⟩
            rw [decide_eq_true hle, Bool.true_or]
          · split at h
            · exact hgo h
            · split at h
              · cases h
              · exact hgo h

end Block

end

/-! ## Blocks of one kind -/

namespace Block

section

variable {source : Array Char} {lines : Array Range} {f : Frame} {line stop : Nat} {r : Reading}

theorem sound_of_literal (hlines : IsLines source lines) (h : f.Sound source lines)
    (hb : f.Begins line stop) (kind : Literal) {next : Nat} (hnext : line < next) :
    Reading.Sound source lines line ⟨next, [.literal kind line next], []⟩ := by
  obtain ⟨l, hl, hrow⟩ := h.row_of_begins hb
  have hpos := hb.line_pos hrow (hlines.feed line l hl)
  exact Reading.sound_of_leaf next [] (.literal kind hnext hl hpos) (Nat.le_refl line)
    (Nat.le_refl next) (Nat.le_of_lt hnext)

theorem frontMatter?_sound (hlines : IsLines source lines) (h : f.Sound source lines)
    (hb : f.Begins line stop) (hr : frontMatter? f line stop = some r) :
    r.Sound source lines line := by
  rw [frontMatter?] at hr
  split at hr
  · obtain ⟨next, hnext, rfl⟩ := Option.map_eq_some_iff.mp hr
    exact sound_of_literal hlines h hb .frontMatter
      (Nat.lt_of_succ_lt (lt_of_frontMatterEnd? hnext))
  · cases hr

theorem indented?_sound (hlines : IsLines source lines) (h : f.Sound source lines)
    (hb : f.Begins line stop) (hr : indented? f line stop = some r) :
    r.Sound source lines line := by
  rw [indented?] at hr
  split at hr
  · obtain rfl := Option.some.inj hr
    exact sound_of_literal hlines h hb .indented (le_indentedEnd f stop _ (Nat.le_refl _))
  · cases hr

theorem fenced?_sound (hlines : IsLines source lines) (h : f.Sound source lines)
    (hb : f.Begins line stop) (hr : fenced? f line stop = some r) :
    r.Sound source lines line := by
  obtain ⟨fence, -, rfl⟩ := Option.map_eq_some_iff.mp hr
  exact sound_of_literal hlines h hb .fence (le_fenceEnd f fence stop _ _)

theorem defined?_sound (hr : defined? f line = some r) : r.Sound source lines line := by
  rw [defined?] at hr
  split at hr
  · cases hr
  · obtain ⟨⟨key, count⟩, -, rfl⟩ := Option.map_eq_some_iff.mp hr
    exact Reading.sound_of_nil _ _ (Nat.le_add_right ..)

theorem html?_sound (hr : html? f line stop = some r) : r.Sound source lines line := by
  obtain ⟨kind, -, rfl⟩ := Option.map_eq_some_iff.mp hr
  refine Reading.sound_of_nil _ _ ?_
  split
  · exact Nat.le_succ line
  · exact Nat.le_of_succ_le (le_htmlEnd ..)

theorem heading?_sound (hlines : IsLines source lines) (h : f.Sound source lines)
    (hb : f.Begins line stop) (hr : heading? f line = some r) : r.Sound source lines line := by
  rw [heading?] at hr
  split at hr
  · obtain rfl := Option.some.inj hr
    obtain ⟨l, hl, hrow⟩ := h.row_of_begins hb
    have hspread := hrow.onLine_content.spread (hlines.feed line l hl)
    have hlaid := hspread.laid (hlines.before hl)
    refine Reading.sound_of_leaf _ _ (.prose (Nat.lt_succ_self line) hl hl
      (headingText_laid hlaid) fun p hp => ?_) (Nat.le_refl line) (Nat.le_refl _)
      (Nat.le_succ line)
    have hp := (headingText_sublist _).mem hp
    exact ⟨hspread.from_ p hp, hspread.below p hp⟩
  · cases hr

theorem underlined?_sound (hlines : IsLines source lines) (h : f.Sound source lines)
    (hb : f.Begins line stop) (hr : underlined? f line stop = some r) :
    r.Sound source lines line := by
  rw [underlined?] at hr
  split at hr
  · cases hr
  · obtain ⟨under, hunder, rfl⟩ := Option.map_eq_some_iff.mp hr
    obtain ⟨hle, hlt⟩ := of_underline? hunder
    have hlast : under ≤ f.rows.size := Nat.le_trans (Nat.le_of_lt hlt) (Nat.le_trans hb.le h.limit)
    exact Reading.sound_of_leaf _ _ (h.paragraph hlines hle hlast) (Nat.le_refl line)
      (Nat.le_succ under) (Nat.le_of_succ_le (Nat.le_succ_of_le hle))

theorem paragraph_sound (hlines : IsLines source lines) (h : f.Sound source lines)
    (hb : f.Begins line stop) : (paragraph f line).Sound source lines line := by
  have hlimit : line + 1 ≤ f.limit := Nat.lt_of_lt_of_le hb.lt hb.le
  have hlt : line < f.textEnd .paragraph (line + 1) := Frame.le_textEndFrom ..
  have hlast : f.textEnd .paragraph (line + 1) ≤ f.rows.size :=
    Nat.le_trans (Frame.textEndFrom_le f .paragraph _ hlimit) h.limit
  exact Reading.sound_of_leaf _ _ (h.paragraph hlines hlt hlast) (Nat.le_refl line)
    (Nat.le_refl _) (Nat.le_of_lt hlt)

/-! ## Tables -/

theorem rowLeaves_sound (hlines : IsLines source lines) {l : Range} (hl : lines[line]? = some l)
    {row : Row} (hrow : row.LeftOf source l) (columns : Nat) :
    Reading.Sound source lines line
      ⟨line + 1, rowLeaves columns line (Table.cells row.content), []⟩ := by
  have hspread := hrow.onLine_content.spread (hlines.feed line l hl)
  have hnext : row.content.IsChain fun p q => q.2 = p.2 + 1 := hrow.chain.right_of_append
  have hcells := Table.cells_laid (hspread.laid (hlines.before hl)) hnext
    fun p hp => hrow.feeds p (List.mem_append_right row.lead hp)
  rw [rowLeaves]
  generalize hfilled : Table.cells row.content ++
    List.replicate (columns - (Table.cells row.content).length) [] = filled
  have hmem : ∀ c ∈ filled, c ∈ Table.cells row.content ∨ c = [] := fun c hc => by
    rw [← hfilled] at hc
    exact (List.mem_append.mp hc).imp id List.eq_of_mem_replicate
  have hpairwise : filled.Pairwise fun c c' => ∀ p ∈ c, ∀ q ∈ c', p.2 < q.2 := by
    rw [← hfilled]
    refine List.pairwise_append.mpr ⟨Table.cells_pairwise hnext, ?_, fun c _ c' hc' p _ q hq => ?_⟩
    · exact List.pairwise_replicate.mpr (Or.inr fun p hp => nomatch hp)
    · rw [List.eq_of_mem_replicate hc'] at hq
      cases hq
  refine ⟨fun leaf hleaf => ?_, fun leaf hleaf => ?_, fun leaf hleaf => ?_, ?_, Nat.le_succ line⟩
  · obtain ⟨c, hc, rfl⟩ := List.mem_map.mp hleaf
    rcases hmem c (List.mem_of_mem_take hc) with hcell | rfl
    · refine .prose (Nat.lt_succ_self line) hl hl (hcells c hcell).stripPlaced fun p hp => ?_
      have hp := Table.mem_of_mem_cells hcell ((stripPlaced_sublist c).mem hp)
      exact ⟨hspread.from_ p hp, hspread.below p hp⟩
    · exact .prose (Nat.lt_succ_self line) hl hl Laid.nil nofun
  · obtain ⟨c, -, rfl⟩ := List.mem_map.mp hleaf
    exact Nat.le_refl line
  · obtain ⟨c, -, rfl⟩ := List.mem_map.mp hleaf
    exact Nat.le_refl _
  · refine List.pairwise_map.mpr ((hpairwise.sublist (List.take_sublist ..)).imp fun h => ?_)
    exact .cells fun p hp q hq => h p ((stripPlaced_sublist _).mem hp) q
      ((stripPlaced_sublist _).mem hq)

theorem tableRows_sound (hlines : IsLines source lines) (h : f.Sound source lines)
    (hstop : stop ≤ f.limit) (columns fuel : Nat) (filled : Int) (line : Nat) :
    (tableRows f columns stop fuel filled line).Sound source lines line := by
  induction fuel generalizing filled line with
  | zero => exact Reading.sound_of_nil line [] (Nat.le_refl line)
  | succ fuel ih =>
      rw [tableRows]
      split
      · exact Reading.sound_of_nil line [] (Nat.le_refl line)
      · rename_i hgo
        dsimp only
        split
        · exact Reading.sound_of_nil line [] (Nat.le_refl line)
        · have hlt : line < stop := Nat.lt_of_not_le fun hle => hgo (by simp [hle])
          obtain ⟨l, hl, hrow⟩ := h.row (Nat.lt_of_lt_of_le hlt (Nat.le_trans hstop h.limit))
          exact (rowLeaves_sound hlines hl hrow columns).append (Nat.le_refl _) (ih _ _) _

theorem table?_sound (hlines : IsLines source lines) (h : f.Sound source lines)
    (hb : f.Begins line stop) (hr : table? f line stop = some r) : r.Sound source lines line := by
  obtain ⟨header, hheader, rfl⟩ := Option.map_eq_some_iff.mp hr
  have hcells : header = Table.cells (f.row line).content := by
    rw [Frame.tableAt?] at hheader
    split at hheader
    · cases hheader
    · rw [Table.header?] at hheader
      split at hheader
      · cases hheader
      · split at hheader
        · obtain ⟨-, heq⟩ := Option.ite_none_right_eq_some.mp hheader
          exact (Option.some.inj heq).symm
        · cases hheader
  obtain ⟨l, hl, hrow⟩ := h.row_of_begins hb
  rw [hcells]
  exact (rowLeaves_sound hlines hl hrow _).append (Nat.le_succ _)
    (tableRows_sound hlines h hb.le _ _ 0 (line + 2)) _

/-! ## Containers -/

theorem sound_setIfInBounds {rows : Array Row} {l : Range} {row : Row} (hl : lines[line]? = some l)
    (hrow : row.LeftOf source l)
    (h : ∀ (i : Nat) (r : Row), rows[i]? = some r → ∃ l, lines[i]? = some l ∧ r.LeftOf source l) :
    ∀ (i : Nat) (r : Row), (rows.setIfInBounds line row)[i]? = some r →
      ∃ l, lines[i]? = some l ∧ r.LeftOf source l := by
  intro i r hr
  rw [Array.getElem?_setIfInBounds] at hr
  split at hr
  · rename_i heq
    split at hr
    · obtain rfl := Option.some.inj hr
      exact ⟨l, heq ▸ hl, hrow⟩
    · cases hr
  · exact h i r hr

theorem quoteFrom_sound (h : f.Sound source lines) (hstop : stop ≤ f.limit) (fuel : Nat)
    {line : Nat} (hline : line ≤ stop) (lastEmpty : Bool) {rows : Array Row}
    (hsize : rows.size = f.rows.size)
    (hrows : ∀ (i : Nat) (r : Row), rows[i]? = some r →
      ∃ l, lines[i]? = some l ∧ r.LeftOf source l) :
    (quoteFrom f stop fuel line lastEmpty rows).1.Sound source lines ∧
      (quoteFrom f stop fuel line lastEmpty rows).2 ≤
        (quoteFrom f stop fuel line lastEmpty rows).1.limit := by
  have hends : ∀ {line : Nat} {rows : Array Row}, line ≤ stop → rows.size = f.rows.size →
      (∀ (i : Nat) (r : Row), rows[i]? = some r → ∃ l, lines[i]? = some l ∧ r.LeftOf source l) →
      Frame.Sound source lines { f with rows := rows, indent := 0 } ∧ line ≤ f.limit :=
    fun hline hsize hrows => ⟨⟨hsize ▸ h.limit, hrows⟩, Nat.le_trans hline hstop⟩
  induction fuel generalizing line lastEmpty rows with
  | zero => exact hends hline hsize hrows
  | succ fuel ih =>
      rw [quoteFrom]
      dsimp only
      split
      · exact hends hline hsize hrows
      · rename_i hgo
        have hlt : line < stop := Nat.lt_of_not_le fun hle => hgo (by simp [hle])
        obtain ⟨l, hl, hrow⟩ := h.row (Nat.lt_of_lt_of_le hlt (Nat.le_trans hstop h.limit))
        have hset : ∀ {row : Row}, row.LeftOf source l →
            (rows.setIfInBounds line row).size = f.rows.size ∧
            ∀ (i : Nat) (r : Row), (rows.setIfInBounds line row)[i]? = some r →
              ∃ l, lines[i]? = some l ∧ r.LeftOf source l :=
          fun hrow => ⟨by rw [Array.size_setIfInBounds, hsize], sound_setIfInBounds hl hrow hrows⟩
        -- a line of the quote may change its column, but loses nothing
        have hcolumn : ∀ column, ({ f.row line with column := column } : Row).LeftOf source l :=
          fun column => hrow.shrink [] rfl rfl fun p hp => hrow.lead p hp
        split
        · rename_i hmark
          have hquoted := unquote_leftOf hrow (beq_iff_eq.mp (Bool.and_eq_true_iff.mp hmark).1)
          exact ih hlt _ (hset hquoted).1 (hset hquoted).2
        · split
          · exact hends hline hsize hrows
          · split
            · refine ⟨⟨?_, (hset (hcolumn _)).2⟩, Nat.le_refl line⟩
              show line ≤ (rows.setIfInBounds line _).size
              rw [(hset (hcolumn _)).1]
              exact Nat.le_trans (Nat.le_trans hline hstop) h.limit
            · exact ih hlt _ (hset (hcolumn (-1))).1 (hset (hcolumn (-1))).2

theorem quote?_sound {inside : Reader} (hinside : inside.Sound source lines)
    (h : f.Sound source lines) (hb : f.Begins line stop) (hr : quote? inside f line stop = some r) :
    r.Sound source lines line := by
  rw [quote?] at hr
  split at hr
  · obtain rfl := Option.some.inj hr
    obtain ⟨hframe, hlimit⟩ :=
      quoteFrom_sound h hb.le (stop - line) (Nat.le_of_lt hb.lt) false rfl h.rows
    exact hinside _ line _ hframe hlimit
  · cases hr

theorem not_isMark_of_bullet? {cs : List Char} {m : Marker} (h : bullet? cs = some m) :
    ∀ c ∈ cs.take m.length, ¬ IsMark c := by
  cases cs with
  | nil => cases h
  | cons c cs =>
      obtain ⟨hmark, heq⟩ := Option.ite_none_right_eq_some.mp h
      obtain rfl := Option.some.inj heq
      intro d hd hd'
      obtain rfl := List.mem_singleton.mp hd
      rcases hd' with rfl | rfl <;> simp at hmark

theorem not_isMark_of_number? {cs : List Char} {m : Marker} (h : number? cs = some m) :
    ∀ c ∈ cs.take m.length, ¬ IsMark c := by
  rw [number?] at h
  have hdigits : ∀ c ∈ cs.takeWhile Char.isDigit, ¬ IsMark c := fun c hc hmark => by
    have hdigit := List.all_eq_true.mp List.all_takeWhile c hc
    rcases hmark with rfl | rfl <;> exact absurd hdigit (by decide)
  have htake : cs.take (cs.takeWhile Char.isDigit).length = cs.takeWhile Char.isDigit :=
    (List.prefix_iff_eq_take.mp (List.takeWhile_prefix _)).symm
  generalize cs.takeWhile Char.isDigit = digits at h hdigits htake
  split at h
  · rename_i d rest hrest
    obtain ⟨hmark, heq⟩ := Option.ite_none_right_eq_some.mp h
    obtain rfl := Option.some.inj heq
    intro c hc
    rw [List.take_add, htake, hrest] at hc
    rcases List.mem_append.mp hc with hc | hc
    · exact hdigits c hc
    · obtain rfl := List.mem_singleton.mp hc
      rintro (rfl | rfl) <;> simp at hmark
  · cases h

theorem items_sound {inside : Reader} (hinside : inside.Sound source lines)
    (h : f.Sound source lines) (hstop : stop ≤ f.limit) (first : Marker) (fuel : Nat)
    {line length : Nat} (hlt : line < stop)
    (hmark : ∀ c ∈ (f.row line).text.take length, ¬ IsMark c) :
    (items inside f stop first fuel line length).Sound source lines line := by
  induction fuel generalizing line length with
  | zero => exact Reading.sound_of_nil line [] (Nat.le_refl line)
  | succ fuel ih =>
      obtain ⟨l, hl, hrow⟩ := h.row (Nat.lt_of_lt_of_le hlt (Nat.le_trans hstop h.limit))
      have hinner : Frame.Sound source lines { f with
          rows := f.rows.setIfInBounds line (unmark (f.row line) length).1
          indent := (unmark (f.row line) length).2
          listIndent := some f.indent } :=
        ⟨by rw [Array.size_setIfInBounds]; exact h.limit,
          sound_setIfInBounds hl (unmark_leftOf hrow hmark) h.rows⟩
      have hitem : (if (unmark (f.row line) length).1.isEmpty && f.isEmpty (line + 1) then
          ⟨min (line + 2) stop, [], []⟩ else inside { f with
            rows := f.rows.setIfInBounds line (unmark (f.row line) length).1
            indent := (unmark (f.row line) length).2
            listIndent := some f.indent } line stop : Reading).Sound source lines line := by
        split
        · exact Reading.sound_of_nil _ [] (by omega)
        · exact hinside _ line stop hinner hstop
      rw [items]
      dsimp only
      generalize (if (unmark (f.row line) length).1.isEmpty && f.isEmpty (line + 1) then
        ⟨min (line + 2) stop, [], []⟩ else inside { f with
          rows := f.rows.setIfInBounds line (unmark (f.row line) length).1
          indent := (unmark (f.row line) length).2
          listIndent := some f.indent } line stop : Reading) = item at hitem ⊢
      split
      · exact hitem
      · rename_i hgo
        have hnext : item.next < stop := Nat.lt_of_not_le fun hle => hgo (by simp [hle])
        split
        · exact hitem
        · rename_i m hm
          split
          · refine hitem.append (Nat.le_refl _) (ih hnext ?_) _
            split at hm
            · exact not_isMark_of_number? hm
            · exact not_isMark_of_bullet? hm
          · exact hitem

theorem list?_sound {inside : Reader} (hinside : inside.Sound source lines)
    (h : f.Sound source lines) (hb : f.Begins line stop) (hr : list? inside f line stop = some r) :
    r.Sound source lines line := by
  obtain ⟨m, hm, rfl⟩ := Option.map_eq_some_iff.mp hr
  refine items_sound hinside h hb.le m _ hb.lt ?_
  obtain ⟨-, hm⟩ := Option.ite_none_left_eq_some.mp hm
  cases hnumber : number? (f.row line).text with
  | some m' =>
      rw [hnumber] at hm
      obtain rfl := Option.some.inj hm
      exact not_isMark_of_number? hnumber
  | none =>
      rw [hnumber] at hm
      exact not_isMark_of_bullet? hm

/-! ## Frames -/

theorem tooDeep_sound : tooDeep.Sound source lines := by
  intro f line stop _ _
  rw [tooDeep]
  split
  · exact Reading.sound_of_nil _ [] (Frame.le_skipEmptyFrom ..)
  · rename_i hgo
    have hlt : f.skipEmpty line < stop := Nat.lt_of_not_le fun hle => hgo (by simp [hle])
    have hle : line ≤ f.skipEmpty line := Frame.le_skipEmptyFrom ..
    exact Reading.sound_of_nil _ [] (by omega)

theorem blockAt_sound (hlines : IsLines source lines) {quoted listed : Reader}
    (hquoted : quoted.Sound source lines) (hlisted : listed.Sound source lines)
    (h : f.Sound source lines) (hb : f.Begins line stop) :
    (blockAt quoted listed f line stop).Sound source lines line := by
  rw [blockAt]
  split
  · exact frontMatter?_sound hlines h hb ‹_›
  split
  · exact table?_sound hlines h hb ‹_›
  split
  · exact indented?_sound hlines h hb ‹_›
  split
  · exact fenced?_sound hlines h hb ‹_›
  split
  · exact quote?_sound hquoted h hb ‹_›
  split
  · exact Reading.sound_of_nil _ [] (Nat.le_succ line)
  split
  · exact list?_sound hlisted h hb ‹_›
  split
  · exact defined?_sound ‹_›
  split
  · exact html?_sound ‹_›
  split
  · exact heading?_sound hlines h hb ‹_›
  split
  · exact underlined?_sound hlines h hb ‹_›
  · exact paragraph_sound hlines h hb

theorem blocksFrom_sound (hlines : IsLines source lines) {quoted listed : Reader}
    (hquoted : quoted.Sound source lines) (hlisted : listed.Sound source lines)
    (h : f.Sound source lines) (hstop : stop ≤ f.limit) (fuel line : Nat) :
    (blocksFrom quoted listed f stop fuel line).Sound source lines line := by
  induction fuel generalizing line with
  | zero => exact Reading.sound_of_nil line [] (Nat.le_refl line)
  | succ fuel ih =>
      have hle : line ≤ f.skipEmpty line := Frame.le_skipEmptyFrom ..
      rw [blocksFrom]
      split
      · exact Reading.sound_of_nil line [] (Nat.le_refl line)
      dsimp only
      split
      · exact Reading.sound_of_nil _ [] hle
      · rename_i hgo
        have hlt : f.skipEmpty line < stop := Nat.lt_of_not_le fun hle => hgo (by simp [hle])
        have hblock := blockAt_sound hlines hquoted hlisted h (Frame.begins_skipEmpty hstop hlt)
        refine (hblock.append ?_ (ih _) _).mono hle
        split
        · exact Nat.le_succ _
        · exact Nat.le_refl _

theorem blocks_sound (hlines : IsLines source lines) (levels : Nat) :
    (blocks levels).Sound source lines := by
  induction levels using Nat.twoStepInduction with
  | zero => exact tooDeep_sound
  | one =>
      exact fun f line stop h hstop =>
        blocksFrom_sound hlines tooDeep_sound tooDeep_sound h hstop _ line
  | more levels hlisted hquoted =>
      exact fun f line stop h hstop => blocksFrom_sound hlines hquoted hlisted h hstop _ line

end

end Block

/-- The leaves of a text are laid out in what the scan reads, in order. -/
theorem blocksOf_sound (text : List Char) :
    (blocksOf text).Sound (Scan.sourceOf text) (Scan.lineRanges text) 0 := by
  refine Block.blocks_sound (Scan.isLines_lineRanges text) Inline.maxNesting _ 0 _ ?_
    (Nat.le_refl _)
  exact ⟨Nat.le_refl _, fun i r hr => Scan.rowsOf_leftOf (by rwa [← List.getElem?_toArray])⟩

end DirectiveFences.Markdown
