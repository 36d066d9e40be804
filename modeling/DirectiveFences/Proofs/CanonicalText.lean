/-
Canonical documents come back as they were.

A line of a canonical document is a closer, an opener with one blank behind its colons and
nothing that the conversion would trim or that a reader would skip, or no div line at all.
For such lines the converter and the restorer are inverse to each other, although one reads
three colons and the other four or more: a div whose directive has at least four colons
comes back letter by letter.  A div inside two others has only three, which are not read
back; its opening line stays in directive syntax.

Which lines open and close divs is said by `bracket` without the rules of the conversion:
on canonical lines it takes no more than the first characters to see it.
-/
import DirectiveFences.Proofs.Returned

namespace DirectiveFences.Convert

open Text Shape Nesting

/-- Parts of an opening line as they are usually written: at least one, no name that stands for
having none, and no blanks around the attributes. -/
structure Proper (o : Opener) : Prop where
  present : o.name ≠ none ∨ o.attributes ≠ none
  name : ∀ name ∈ o.name, IsName name ∧ ¬ Restore.IsGeneric name
  body : ∀ body ∈ o.attributes, IsBody body ∧ strip body = body

instance (o : Opener) : Decidable (Proper o) :=
  decidable_of_iff
    ((o.name ≠ none ∨ o.attributes ≠ none) ∧
      (∀ name ∈ o.name, IsName name ∧ ¬ Restore.IsGeneric name) ∧
      ∀ body ∈ o.attributes, IsBody body ∧ strip body = body)
    ⟨fun ⟨present, name, body⟩ => ⟨present, name, body⟩,
      fun ⟨present, name, body⟩ => ⟨present, name, body⟩⟩

/-- An opening line with one blank between the fence and the rest. -/
def spaced (o : Opener) : List Char :=
  fence ++ ' ' :: (o.name.getD [] ++ braces o.attributes)

/-- A line of a canonical document, without its ending. -/
inductive Canonical : List Char → Prop
  | closer : Canonical fence
  | opener {o : Opener} : Proper o → Canonical (spaced o)
  | other {body : List Char} : ¬ fence <+: body → Canonical body

/-- What a line of a canonical document is to the nesting of divs. -/
def bracket (s : Site) : Mark :=
  if s.isProtected 0 then .other
  else if s.line.body = fence then .closer
  else if fence.isPrefixOf s.line.body then .opener
  else .other

/-- The brackets of a canonical document. -/
def bracketsOf (ranges : Array Range) (t : List Char) : List Mark :=
  (sitesOf ranges t).map bracket

/-- An opening line without its blank.  A div that has no name gets the generic one. -/
def closeUp (body : List Char) : List Char :=
  match after? (fence ++ [' ']) body with
  | some ('{' :: rest) => fence ++ (genericName ++ '{' :: rest)
  | some rest => fence ++ rest
  | none => body

/-! ## Openers are read as they are written -/

section Opening

variable {o : Opener}

/-- What follows the blank of an opening line begins with a character that is not blank, and with a
brace only if there is no name. -/
theorem Proper.head (h : Proper o) :
    ∃ c cs, o.name.getD [] ++ braces o.attributes = c :: cs ∧ isBlank c = false ∧
      (c = '{' ↔ o.name = none) := by
  cases hn : o.name with
  | some name =>
      obtain ⟨c, cs, hcons, hc⟩ := (h.name name hn).1.head (braces o.attributes)
      refine ⟨c, cs, hcons, isBlank_of_isWord hc, ?_, fun hnone => by cases hnone⟩
      rintro rfl
      exact absurd hc (by decide)
  | none =>
      cases ha : o.attributes with
      | none => exact (h.present.elim (absurd hn) (absurd ha))
      | some body => exact ⟨'{', body ++ ['}'], rfl, by decide, fun _ => rfl, fun _ => rfl⟩

theorem Proper.stripFront (h : Proper o) :
    Text.stripFront (' ' :: (o.name.getD [] ++ braces o.attributes)) =
      o.name.getD [] ++ braces o.attributes := by
  obtain ⟨c, cs, hcons, hc, -⟩ := h.head
  rw [hcons, Text.stripFront, List.dropWhile_cons_of_pos (by decide),
    List.dropWhile_cons_of_neg (Bool.eq_false_iff.mp hc)]

theorem Proper.attributes? (h : Proper o) :
    Shape.attributes? (braces o.attributes) = o.attributes := by
  cases ha : o.attributes with
  | none => rfl
  | some body => exact (h.body body ha).1.attributes?_braces

theorem stripFront_braces (attributes : Option (List Char)) :
    stripFront (braces attributes) = braces attributes := by
  cases attributes with
  | none => rfl
  | some body => exact List.dropWhile_cons_of_neg (by decide)

theorem opener?_spaced (h : Proper o) : opener? (spaced o) = some o := by
  rw [spaced, opener?_fence_append (by simp), h.stripFront]
  cases hn : o.name with
  | some name =>
      rw [Option.getD_some, (h.name name hn).1.name?_append_braces]
      simp only [stripFront_braces, h.attributes?, ← hn]
  | none =>
      obtain ⟨c, cs, hcons, -, hbrace⟩ := h.head
      rw [hn, Option.getD_none, List.nil_append, hbrace.mpr hn] at hcons
      have hname : name? (braces o.attributes) = none := by
        rw [hcons]
        exact name?_of_not_isWord (by decide) cs
      rw [Option.getD_none, List.nil_append, hname]
      simp only [h.attributes?, ← hn]

theorem isCloser_spaced (h : Proper o) : isCloser (spaced o) = false := by
  obtain ⟨c, cs, hcons, hc, -⟩ := h.head
  rw [spaced, isCloser_fence_append, hcons, List.all_cons, List.all_cons, hc, Bool.false_and,
    Bool.and_false]

theorem Proper.strip (h : Proper o) : o.attributes.map Text.strip = o.attributes := by
  cases ha : o.attributes with
  | none => rfl
  | some body => rw [Option.map_some, (h.body body ha).2]

theorem Proper.keptAttributes (h : Proper o) : Convert.keptAttributes o = o.attributes := by
  unfold Convert.keptAttributes
  rw [h.strip]
  cases ha : o.attributes with
  | none => rfl
  | some body =>
      cases body with
      | nil => exact absurd rfl (h.body [] ha).1.1
      | cons c cs => rfl

theorem divOpener_spaced (h : Proper o) :
    Restore.divOpener (o.name.getD genericName) (keptAttributes o) = spaced o := by
  rw [h.keptAttributes, Restore.divOpener_eq]
  cases hn : o.name with
  | some name => rw [Option.getD_some, if_neg (h.name name hn).2, spaced, hn, Option.getD_some]
  | none =>
      have ha : o.attributes ≠ none := h.present.resolve_left fun hne => hne hn
      rw [Option.getD_none, if_pos (by decide), if_neg ha, spaced, hn]
      rfl

theorem closeUp_spaced (h : Proper o) : closeUp (spaced o) = fence ++ divDirective o := by
  have hmark : after? (fence ++ [' ']) (spaced o) = some (o.name.getD [] ++ braces o.attributes) :=
    after?_eq_some_iff.mpr rfl
  obtain ⟨c, cs, hcons, -, hbrace⟩ := h.head
  rw [divDirective_eq, h.strip]
  unfold closeUp
  rw [hmark, hcons]
  cases hn : o.name with
  | none =>
      obtain rfl := hbrace.mpr hn
      rw [hn, Option.getD_none, List.nil_append] at hcons
      rw [Option.getD_none, hcons]
      rfl
  | some name =>
      have hne : c ≠ '{' := fun hc => Option.some_ne_none name (hn.symm.trans (hbrace.mp hc))
      rw [hn, Option.getD_some] at hcons
      rw [Option.getD_some, hcons]
      split
      · rename_i heq
        exact absurd (List.cons.inj (Option.some.inj heq)).1 hne
      · rename_i heq
        rw [Option.some.inj heq]
      · rename_i heq
        cases heq

end Opening

/-! ## Canonical lines -/

theorem after?_of_not_prefix {body : List Char} (h : ¬ fence <+: body) :
    after? fence body = none :=
  Option.eq_none_iff_forall_ne_some.mpr fun rest hrest =>
    h ⟨rest, (after?_eq_some_iff.mp hrest).symm⟩

theorem Canonical.longFence? {body : List Char} (h : Canonical body) :
    Shape.longFence? body = none := by
  cases h with
  | closer => rfl
  | opener ho => exact longFence?_of_head_ne (by simp)
  | other hne =>
      refine Option.eq_none_iff_forall_ne_some.mpr fun rest hrest => ?_
      obtain ⟨rest', hrest', -⟩ := Option.map_eq_some_iff.mp hrest
      exact hne ⟨':' :: rest', (after?_eq_some_iff.mp hrest').symm⟩

theorem canonical_iff {body : List Char} : Canonical body ↔
    body = fence ∨ ¬ fence <+: body ∨ ∃ o ∈ opener? body, Proper o ∧ spaced o = body := by
  constructor
  · rintro (_ | ho | hne)
    · exact Or.inl rfl
    · exact Or.inr (Or.inr ⟨_, opener?_spaced ho, ho, rfl⟩)
    · exact Or.inr (Or.inl hne)
  · rintro (rfl | hne | ⟨o, -, ho, rfl⟩)
    · exact .closer
    · exact .other hne
    · exact .opener ho

instance (body : List Char) : Decidable (Canonical body) :=
  decidable_of_iff _ canonical_iff.symm

/-- The rules for divs see what `bracket` sees. -/
theorem mark_of_canonical {s : Site} (h : Canonical s.line.body) :
    (kind .off s false).mark = bracket s := by
  rw [kind_off, bracket]
  generalize hbody : s.line.body = body at h
  cases h with
  | closer =>
      rw [isInert_eq_of_colon hbody]
      cases s.isProtected 0 <;> rfl
  | @opener o ho =>
      have hfence : spaced o ≠ fence := fun heq => by
        have := isCloser_spaced ho
        rw [heq] at this
        exact Bool.noConfusion this
      have hprefix : fence.isPrefixOf (spaced o) = true :=
        List.isPrefixOf_iff_prefix.mpr ⟨_, rfl⟩
      rw [isInert_eq_of_colon hbody, isCloser_spaced ho, opener?_spaced ho, if_neg hfence, hprefix]
      cases s.isProtected 0 <;> rfl
  | other hne =>
      have hcloser : isCloser body = false := by rw [isCloser, after?_of_not_prefix hne]
      have hopener : opener? body = none := by rw [opener?, after?_of_not_prefix hne]
      have hfence : body ≠ fence := fun heq => hne ⟨[], heq.symm⟩
      have hprefix : fence.isPrefixOf body = false :=
        Bool.eq_false_iff.mpr fun hp => hne (List.isPrefixOf_iff_prefix.mp hp)
      rw [hcloser, hopener, if_neg hfence, hprefix]
      cases s.isInert <;> cases s.isProtected 0 <;> rfl

/-- A canonical line comes back as it was, unless it opens a div inside two others. -/
theorem returned_of_canonical {s : Site} (h : Canonical s.line.body) (n : Nat) :
    (kind .off s false).returned n s.line.body =
      if bracket s = .opener ∧ 2 ≤ n then closeUp s.line.body else s.line.body := by
  rw [← mark_of_canonical h]
  cases hk : kind .off s false with
  | divClose =>
      -- of the canonical lines only the bare fence closes a div
      obtain ⟨-, -, hcl⟩ := fits_of_kind_eq hk
      generalize s.line.body = body at h hcl
      cases h with
      | closer => rfl
      | opener ho => exact Bool.noConfusion ((isCloser_spaced ho).symm.trans hcl)
      | other hne =>
          rw [isCloser, after?_of_not_prefix hne] at hcl
          exact Bool.noConfusion hcl
  | divOpen o =>
      obtain ⟨-, -, hcl, ho⟩ := fits_of_kind_eq hk
      generalize s.line.body = body at h hcl ho
      cases h with
      | closer => exact Bool.noConfusion hcl
      | @opener o' ho' =>
          obtain rfl := Option.some.inj ((opener?_spaced ho').symm.trans ho)
          rw [Kind.returned]
          by_cases hn : n < 2
          · rw [if_pos hn, if_neg fun hdeep => Nat.not_le_of_lt hn hdeep.2, divOpener_spaced ho']
          · rw [if_neg hn, if_pos ⟨rfl, Nat.le_of_not_lt hn⟩, closeUp_spaced ho']
      | other hne =>
          rw [opener?, after?_of_not_prefix hne] at ho
          cases ho
  | plain | inMath | mathClose | mathOpen | formula | shortcode =>
      have hnot : ¬ (Mark.other = .opener ∧ 2 ≤ n) := by
        rintro ⟨hopens, -⟩
        cases hopens
      exact (Restore.body_of_longFence? h.longFence?).trans (if_neg hnot).symm

/-! ## Canonical documents -/

section Document

variable {ranges : Array Range} {t : List Char}

theorem canonical_of_site (h : ∀ raw ∈ split t, Canonical (Line.ofList raw).body) {s : Site}
    (hs : s ∈ sitesOf ranges t) : Canonical s.line.body := by
  obtain ⟨i, hi⟩ := List.mem_iff_getElem?.mp hs
  rw [getElem?_sitesOf] at hi
  obtain ⟨raw, hraw, rfl⟩ := Option.map_eq_some_iff.mp hi
  exact h raw (List.mem_of_getElem? hraw)

theorem marksOf_of_canonical (h : ∀ raw ∈ split t, Canonical (Line.ofList raw).body) :
    marksOf .off ranges t = bracketsOf ranges t := by
  rw [marksOf_off, bracketsOf]
  exact List.map_congr_left fun s hs => mark_of_canonical (canonical_of_site h hs)

theorem split_roundTrip_of_canonical (h : ∀ raw ∈ split t, Canonical (Line.ofList raw).body) :
    split (Restore.text (text .off ranges t)) = (sitesOf ranges t).mapIdx fun i s =>
      if (bracketsOf ranges t)[i]? = some .opener ∧ 2 ≤ depth (bracketsOf ranges t) i then
        s.ended (closeUp s.line.body)
      else s.line.toList := by
  rw [split_roundTrip, marksOf_of_canonical h]
  refine List.ext_getElem? fun i => ?_
  rw [List.getElem?_mapIdx, List.getElem?_mapIdx]
  cases hs : (sitesOf ranges t)[i]? with
  | none => rfl
  | some s =>
      have hmark : (bracketsOf ranges t)[i]? = some (bracket s) := by
        rw [bracketsOf, List.getElem?_map, hs]
        rfl
      have hcanonical := canonical_of_site h (List.mem_of_getElem? hs)
      rw [Option.map_some, Option.map_some, returned_of_canonical hcanonical, hmark]
      simp only [Option.some.injEq]
      split <;> rfl

theorem not_third {ms : List Mark} {n i : Nat} (h : ∀ i, i ≤ n → depth ms i ≤ 2) (hi : i < n) :
    ¬ (ms[i]? = some .opener ∧ 2 ≤ depth ms i) := by
  rintro ⟨hopen, hdeep⟩
  have hnext := h (i + 1) hi
  rw [depth_succ hopen] at hnext
  exact absurd hnext (Nat.not_le_of_lt (Nat.lt_succ_of_le hdeep))

end Document

/-- **A canonical document comes back as it was, but for openers inside two divs.**  These, and no
other lines, lose the blank behind their colons, and get the generic name if they have none; line
endings are kept.  So a document that nests no deeper than two comes back letter by letter. -/
theorem canonical_roundTrip (ranges : Array Range) (t : List Char)
    (h : ∀ raw ∈ split t, Canonical (Line.ofList raw).body) :
    let ms := bracketsOf ranges t
    Restore.text (text .off ranges t) = join ((sitesOf ranges t).mapIdx fun i s =>
      if ms[i]? = some .opener ∧ 2 ≤ depth ms i then s.ended (closeUp s.line.body)
      else s.line.toList) ∧
    ((∀ i, i ≤ (split t).length → depth ms i ≤ 2) → Restore.text (text .off ranges t) = t) := by
  intro ms
  have hlines := @split_roundTrip_of_canonical ranges t h
  refine ⟨by rw [← hlines, join_split], fun hdepth => ?_⟩
  have hsame : split (Restore.text (text .off ranges t)) = split t := by
    rw [hlines]
    refine List.ext_getElem? fun i => ?_
    rw [List.getElem?_mapIdx]
    cases hs : (sitesOf ranges t)[i]? with
    | none =>
        have hlen := List.getElem?_eq_none_iff.mp hs
        rw [length_sitesOf] at hlen
        exact (List.getElem?_eq_none hlen).symm
    | some s =>
        obtain ⟨hraw, -⟩ := split_of_site hs
        have hi : i < (split t).length := (List.getElem?_eq_some_iff.mp hraw).1
        rw [Option.map_some, if_neg (not_third hdepth hi), hraw]
  rw [← join_split (Restore.text _), hsame, join_split]

/-- Four divs in each other, the first one in the protected part of the document. -/
def deeplyNested : List Char :=
  "::: {.no}\r\n::: {.a}\r\n::: tip\n::: {#x .b}\r\n::: call-out{k=1}\ntext\n:::".toList

/-- The two inner divs come back in directive syntax. -/
theorem deeplyNested_roundTrip :
    (∀ raw ∈ split deeplyNested, Canonical (Line.ofList raw).body) ∧
    Restore.text (text .off #[⟨0, 9⟩] deeplyNested) =
      "::: {.no}\r\n::: {.a}\r\n::: tip\n:::div{#x .b}\r\n:::call-out{k=1}\ntext\n:::".toList := by
  have hlines : ∀ raw ∈ split deeplyNested, Canonical (Line.ofList raw).body := by decide +kernel
  exact ⟨hlines, (canonical_roundTrip #[⟨0, 9⟩] deeplyNested hlines).1.trans (by decide +kernel)⟩

end DirectiveFences.Convert
