/-
UTF-8 is read as it is written.

`decode` goes byte by byte and knows of a character only how many bytes are still awaited and in
which ranges.  So what it accepts is said first for one sequence, in its own terms: a first byte
(`Begins`) and the bytes that complete it (`Completes`).  The narrowed ranges behind E0, ED, F0
and F4 are what makes such a sequence the one way to write its character: without them the same
bits could be spelled with more bytes, or spell a surrogate, or lie above U+10FFFF
(`encodeChar_eq_cons_iff`).  From there decoding and encoding are inverse to each other on whole
texts, and the bytes that decode are those that the library calls valid.
-/
import DirectiveFences.Text.Utf8

namespace DirectiveFences.Text.Utf8

/-! ## The parts of a sequence -/

/-- The range of a byte that may follow any first byte. -/
def following : Nat × Nat :=
  (0x80, 0xBF)

/-- The byte begins a sequence: the bits that it holds, and the ranges of the bytes that follow. -/
inductive Begins (b : UInt8) : Nat → List (Nat × Nat) → Prop
  | one (h : b.toNat < 0x80) : Begins b b.toNat []
  | two (h : 0xC2 ≤ b.toNat ∧ b.toNat < 0xE0) : Begins b (b.toNat - 0xC0) [following]
  | three (h : 0xE0 ≤ b.toNat ∧ b.toNat < 0xF0) : Begins b (b.toNat - 0xE0)
      [(if b.toNat = 0xE0 then 0xA0 else 0x80, if b.toNat = 0xED then 0x9F else 0xBF), following]
  | four (h : 0xF0 ≤ b.toNat ∧ b.toNat < 0xF5) : Begins b (b.toNat - 0xF0)
      [(if b.toNat = 0xF0 then 0x90 else 0x80, if b.toNat = 0xF4 then 0x8F else 0xBF), following,
        following]

/-- The bytes lie in the awaited ranges, and with six bits of each of them the number is `n`. -/
inductive Completes : Nat → List (Nat × Nat) → List UInt8 → Nat → Prop
  | done {n : Nat} : Completes n [] [] n
  | next {bits lo hi n : Nat} {awaited : List (Nat × Nat)} {b : UInt8} {bs : List UInt8}
      (hlo : lo ≤ b.toNat) (hhi : b.toNat ≤ hi)
      (h : Completes (bits * 0x40 + (b.toNat - 0x80)) awaited bs n) :
      Completes bits ((lo, hi) :: awaited) (b :: bs) n

theorem lead?_eq_some_iff {b : UInt8} {bits : Nat} {awaited : List (Nat × Nat)} :
    lead? b = some (bits, awaited) ↔ Begins b bits awaited := by
  constructor
  · intro h
    unfold lead? at h
    simp only at h
    split at h
    · obtain ⟨rfl, rfl⟩ := Prod.mk.inj (Option.some.inj h)
      exact .one ‹_›
    split at h
    · cases h
    split at h
    · obtain ⟨rfl, rfl⟩ := Prod.mk.inj (Option.some.inj h)
      exact .two (by omega)
    -- three bytes; E0 and ED narrow the range of the second one
    split at h
    · obtain ⟨rfl, rfl⟩ := Prod.mk.inj (Option.some.inj h)
      simpa [*, following] using @Begins.three b (by omega)
    split at h
    · obtain ⟨rfl, rfl⟩ := Prod.mk.inj (Option.some.inj h)
      simpa [*, following] using @Begins.three b (by omega)
    split at h
    · obtain ⟨rfl, rfl⟩ := Prod.mk.inj (Option.some.inj h)
      simpa [*, following] using @Begins.three b (by omega)
    -- four bytes; F0 and F4 narrow the range of the second one
    split at h
    · obtain ⟨rfl, rfl⟩ := Prod.mk.inj (Option.some.inj h)
      simpa [*, following] using @Begins.four b (by omega)
    split at h
    · have hlast : b.toNat ≠ 0xF4 := by omega
      obtain ⟨rfl, rfl⟩ := Prod.mk.inj (Option.some.inj h)
      simpa [*, following] using @Begins.four b (by omega)
    split at h
    · obtain ⟨rfl, rfl⟩ := Prod.mk.inj (Option.some.inj h)
      simpa [*, following] using @Begins.four b (by omega)
    · cases h
  · intro h
    unfold lead?
    simp only
    cases h with
    | one h => rw [if_pos h]
    | two h => rw [if_neg (by omega), if_neg (by omega), if_pos (by omega)]; rfl
    | three h =>
        rw [if_neg (by omega), if_neg (by omega), if_neg (by omega)]
        by_cases hfirst : b.toNat = 0xE0
        · simp [hfirst, following]
        · by_cases hlast : b.toNat = 0xED
          · simp [hlast, following]
          · simp [hfirst, hlast, following, h.2]
    | four h =>
        rw [if_neg (by omega), if_neg (by omega), if_neg (by omega), if_neg (by omega),
          if_neg (by omega), if_neg (by omega)]
        by_cases hfirst : b.toNat = 0xF0
        · simp [hfirst, following]
        · by_cases hlast : b.toNat = 0xF4
          · simp [hlast, following]
          · rw [if_neg hfirst, if_pos (by omega), if_neg hfirst, if_neg hlast]
            rfl

/-! ## One character -/

theorem completes_nil_iff {bits n : Nat} {bs : List UInt8} :
    Completes bits [] bs n ↔ bs = [] ∧ bits = n := by
  constructor
  · intro h
    cases h
    exact ⟨rfl, rfl⟩
  · rintro ⟨rfl, rfl⟩
    exact .done

theorem completes_cons_iff {bits n : Nat} {range : Nat × Nat} {awaited : List (Nat × Nat)}
    {bs : List UInt8} :
    Completes bits (range :: awaited) bs n ↔ ∃ b rest, bs = b :: rest ∧
      (range.1 ≤ b.toNat ∧ b.toNat ≤ range.2) ∧
      Completes (bits * 0x40 + (b.toNat - 0x80)) awaited rest n := by
  constructor
  · intro h
    cases h with
    | next hlo hhi h => exact ⟨_, _, rfl, ⟨hlo, hhi⟩, h⟩
  · rintro ⟨b, rest, rfl, ⟨hlo, hhi⟩, h⟩
    exact .next hlo hhi h

theorem toNat_continuation (n : Nat) : (continuation n).toNat = 0x80 + n % 0x40 := by
  rw [continuation, UInt8.toNat_ofNat']
  omega

theorem continuation_eq {b : UInt8} {n : Nat} (h : b.toNat = 0x80 + n % 0x40) :
    continuation n = b :=
  UInt8.toNat_inj.mp (by rw [toNat_continuation, h])

theorem ofNat_eq {b : UInt8} {n : Nat} (h : b.toNat = n) : UInt8.ofNat n = b := by
  rw [← h, UInt8.ofNat_toNat]

/-- The number that a sequence spells, and how its bytes are made of it.  The narrowed ranges keep
the number out of those for which fewer bytes do, and out of the surrogates. -/
theorem sequence_cases {b : UInt8} {bits n : Nat} {awaited : List (Nat × Nat)} {bs : List UInt8}
    (hb : Begins b bits awaited) (h : Completes bits awaited bs n) :
    (n < 0x80 ∧ b.toNat = n ∧ bs = []) ∨
      (∃ b₁, (0x80 ≤ n ∧ n < 0x800) ∧ b.toNat = 0xC0 + n / 0x40 ∧ bs = [b₁] ∧
        b₁.toNat = 0x80 + n % 0x40) ∨
      (∃ b₁ b₂, (0x800 ≤ n ∧ n < 0x10000 ∧ ¬ (0xD800 ≤ n ∧ n < 0xE000)) ∧
        b.toNat = 0xE0 + n / 0x1000 ∧ bs = [b₁, b₂] ∧ b₁.toNat = 0x80 + n / 0x40 % 0x40 ∧
        b₂.toNat = 0x80 + n % 0x40) ∨
      ∃ b₁ b₂ b₃, (0x10000 ≤ n ∧ n < 0x110000) ∧ b.toNat = 0xF0 + n / 0x40000 ∧
        bs = [b₁, b₂, b₃] ∧ b₁.toNat = 0x80 + n / 0x1000 % 0x40 ∧
        b₂.toNat = 0x80 + n / 0x40 % 0x40 ∧ b₃.toNat = 0x80 + n % 0x40 := by
  cases hb with
  | one hb =>
      obtain ⟨rfl, rfl⟩ := completes_nil_iff.mp h
      exact Or.inl ⟨hb, rfl, rfl⟩
  | two hb =>
      obtain ⟨b₁, _, rfl, h₁, h⟩ := completes_cons_iff.mp h
      obtain ⟨rfl, rfl⟩ := completes_nil_iff.mp h
      simp only [following] at h₁
      exact Or.inr (Or.inl ⟨b₁, by omega, by omega, rfl, by omega⟩)
  | three hb =>
      obtain ⟨b₁, _, rfl, h₁, h⟩ := completes_cons_iff.mp h
      obtain ⟨b₂, _, rfl, h₂, h⟩ := completes_cons_iff.mp h
      obtain ⟨rfl, rfl⟩ := completes_nil_iff.mp h
      simp only [following] at h₁ h₂
      have hnarrow : 0x80 ≤ b₁.toNat ∧ b₁.toNat ≤ 0xBF ∧
          (b.toNat = 0xE0 → 0xA0 ≤ b₁.toNat) ∧ (b.toNat = 0xED → b₁.toNat ≤ 0x9F) := by
        split at h₁ <;> split at h₁ <;> omega
      refine Or.inr (Or.inr (Or.inl ⟨b₁, b₂, ?_, ?_, rfl, ?_, ?_⟩)) <;> omega
  | four hb =>
      obtain ⟨b₁, _, rfl, h₁, h⟩ := completes_cons_iff.mp h
      obtain ⟨b₂, _, rfl, h₂, h⟩ := completes_cons_iff.mp h
      obtain ⟨b₃, _, rfl, h₃, h⟩ := completes_cons_iff.mp h
      obtain ⟨rfl, rfl⟩ := completes_nil_iff.mp h
      simp only [following] at h₁ h₂ h₃
      have hnarrow : 0x80 ≤ b₁.toNat ∧ b₁.toNat ≤ 0xBF ∧
          (b.toNat = 0xF0 → 0x90 ≤ b₁.toNat) ∧ (b.toNat = 0xF4 → b₁.toNat ≤ 0x8F) := by
        split at h₁ <;> split at h₁ <;> omega
      refine Or.inr (Or.inr (Or.inr ⟨b₁, b₂, b₃, ?_, ?_, rfl, ?_, ?_, ?_⟩)) <;> omega

theorem isValidChar_of_completes {b : UInt8} {bits n : Nat} {awaited : List (Nat × Nat)}
    {bs : List UInt8} (hb : Begins b bits awaited) (h : Completes bits awaited bs n) :
    n.isValidChar := by
  rw [Nat.isValidChar]
  rcases sequence_cases hb h with ⟨hn, -⟩ | ⟨b₁, hn, -⟩ | ⟨b₁, b₂, hn, -⟩ | ⟨b₁, b₂, b₃, hn, -⟩ <;>
    omega

theorem encodeChar_ne_nil (c : Char) : encodeChar c ≠ [] := by
  unfold encodeChar
  simp only
  repeat' split
  all_goals exact List.cons_ne_nil _ _

theorem completes_of_encodeChar {c : Char} {b : UInt8} {bs : List UInt8}
    (h : encodeChar c = b :: bs) :
    ∃ bits awaited, Begins b bits awaited ∧ Completes bits awaited bs c.toNat := by
  have hvalid : c.toNat.isValidChar := c.valid
  rw [Nat.isValidChar] at hvalid
  unfold encodeChar at h
  simp only at h
  split at h
  · obtain ⟨hfirst, rfl⟩ := List.cons.inj h
    have hb : b.toNat = c.toNat := by rw [← hfirst, UInt8.toNat_ofNat']; omega
    exact ⟨_, _, .one (by omega), completes_nil_iff.mpr ⟨rfl, hb⟩⟩
  split at h
  · obtain ⟨hfirst, rfl⟩ := List.cons.inj h
    have hb : b.toNat = 0xC0 + c.toNat / 0x40 := by rw [← hfirst, UInt8.toNat_ofNat']; omega
    refine ⟨_, _, .two (by omega), completes_cons_iff.mpr ⟨_, _, rfl, ?_,
      completes_nil_iff.mpr ⟨rfl, ?_⟩⟩⟩
    all_goals simp only [toNat_continuation, following]; omega
  split at h
  · obtain ⟨hfirst, rfl⟩ := List.cons.inj h
    have hb : b.toNat = 0xE0 + c.toNat / 0x1000 := by rw [← hfirst, UInt8.toNat_ofNat']; omega
    refine ⟨_, _, .three (by omega), completes_cons_iff.mpr ⟨_, _, rfl, ?_,
      completes_cons_iff.mpr ⟨_, _, rfl, ?_, completes_nil_iff.mpr ⟨rfl, ?_⟩⟩⟩⟩
    · simp only [toNat_continuation]
      split <;> split <;> omega
    all_goals simp only [toNat_continuation, following]; omega
  · obtain ⟨hfirst, rfl⟩ := List.cons.inj h
    have hb : b.toNat = 0xF0 + c.toNat / 0x40000 := by rw [← hfirst, UInt8.toNat_ofNat']; omega
    refine ⟨_, _, .four (by omega), completes_cons_iff.mpr ⟨_, _, rfl, ?_,
      completes_cons_iff.mpr ⟨_, _, rfl, ?_, completes_cons_iff.mpr ⟨_, _, rfl, ?_,
        completes_nil_iff.mpr ⟨rfl, ?_⟩⟩⟩⟩⟩
    · simp only [toNat_continuation]
      split <;> split <;> omega
    all_goals simp only [toNat_continuation, following]; omega

theorem encodeChar_of_completes {c : Char} {b : UInt8} {bs : List UInt8} {bits : Nat}
    {awaited : List (Nat × Nat)} (hb : Begins b bits awaited)
    (h : Completes bits awaited bs c.toNat) : encodeChar c = b :: bs := by
  unfold encodeChar
  simp only
  rcases sequence_cases hb h with ⟨hn, hb, rfl⟩ | ⟨b₁, hn, hb, rfl, h₁⟩ |
    ⟨b₁, b₂, hn, hb, rfl, h₁, h₂⟩ | ⟨b₁, b₂, b₃, hn, hb, rfl, h₁, h₂, h₃⟩
  · rw [if_pos hn, ofNat_eq hb]
  · rw [if_neg (by omega), if_pos hn.2, ofNat_eq hb, continuation_eq h₁]
  · rw [if_neg (by omega), if_neg (by omega), if_pos hn.2.1, ofNat_eq hb, continuation_eq h₁,
      continuation_eq h₂]
  · rw [if_neg (by omega), if_neg (by omega), if_neg (by omega), ofNat_eq hb, continuation_eq h₁,
      continuation_eq h₂, continuation_eq h₃]

theorem encodeChar_eq_cons_iff {c : Char} {b : UInt8} {bs : List UInt8} :
    encodeChar c = b :: bs ↔
      ∃ bits awaited, Begins b bits awaited ∧ Completes bits awaited bs c.toNat :=
  ⟨completes_of_encodeChar, fun ⟨_, _, hb, h⟩ => encodeChar_of_completes hb h⟩

/-! ## Texts -/

/-- Decode with the given ranges awaited: what is awaited of nothing is a character. -/
def resume (pos first : Nat) (byte : UInt8) (bits : Nat) :
    List (Nat × Nat) → List UInt8 → Except DecodeError (List Char)
  | [], bs =>
      match decodeFrom pos none bs with
      | .ok cs => .ok (Char.ofNat bits :: cs)
      | .error e => .error e
  | range :: awaited, bs => decodeFrom pos (some ⟨byte, first, bits, range :: awaited⟩) bs

theorem decodeFrom_none_cons (pos : Nat) (b : UInt8) (bs : List UInt8) :
    decodeFrom pos none (b :: bs) =
      match lead? b with
      | none => .error ⟨pos, pos + 1, b, .start⟩
      | some (bits, awaited) => resume (pos + 1) pos b bits awaited bs := by
  rw [decodeFrom]
  split
  · simp only [*]
  all_goals simp only [*]; rfl

theorem decodeFrom_some_cons (pos first : Nat) (byte : UInt8) (bits : Nat) (range : Nat × Nat)
    (awaited : List (Nat × Nat)) (b : UInt8) (bs : List UInt8) :
    decodeFrom pos (some ⟨byte, first, bits, range :: awaited⟩) (b :: bs) =
      if range.1 ≤ b.toNat ∧ b.toNat ≤ range.2 then
        resume (pos + 1) first byte (bits * 0x40 + (b.toNat - 0x80)) awaited bs
      else .error ⟨first, pos, byte, .continuation⟩ := by
  rw [decodeFrom]
  cases awaited <;> rfl

/-- A sequence is decoded by what completes it, and decoding goes on behind that. -/
theorem resume_eq_ok_iff {pos first bits : Nat} {byte : UInt8} {awaited : List (Nat × Nat)}
    {bs : List UInt8} {cs : List Char} :
    resume pos first byte bits awaited bs = .ok cs ↔
      ∃ tail rest n cs', bs = tail ++ rest ∧ Completes bits awaited tail n ∧
        cs = Char.ofNat n :: cs' ∧ decodeFrom (pos + tail.length) none rest = .ok cs' := by
  induction awaited generalizing pos bits bs with
  | nil =>
      rw [resume]
      constructor
      · intro h
        cases hrest : decodeFrom pos none bs with
        | error e => rw [hrest] at h; cases h
        | ok cs' =>
            rw [hrest] at h
            exact ⟨[], bs, bits, cs', rfl, .done, (Except.ok.inj h).symm, hrest⟩
      · rintro ⟨tail, rest, n, cs', rfl, hn, rfl, hrest⟩
        obtain ⟨rfl, rfl⟩ := completes_nil_iff.mp hn
        rw [List.nil_append, show decodeFrom pos none rest = .ok cs' from hrest]
  | cons range awaited ih =>
      rw [resume]
      constructor
      · intro h
        cases bs with
        | nil => cases h
        | cons b bs =>
            rw [decodeFrom_some_cons] at h
            split at h
            · obtain ⟨tail, rest, n, cs', rfl, hn, rfl, hrest⟩ := ih.mp h
              refine ⟨b :: tail, rest, n, cs', rfl, completes_cons_iff.mpr
                ⟨b, tail, rfl, ‹_›, hn⟩, rfl, ?_⟩
              rwa [List.length_cons, Nat.add_comm tail.length, ← Nat.add_assoc]
            · cases h
      · rintro ⟨_, rest, n, cs', rfl, hn, rfl, hrest⟩
        obtain ⟨b, tail, rfl, hb, hn⟩ := completes_cons_iff.mp hn
        rw [List.cons_append, decodeFrom_some_cons, if_pos hb]
        refine ih.mpr ⟨tail, rest, n, cs', rfl, hn, rfl, ?_⟩
        rwa [List.length_cons, Nat.add_comm tail.length, ← Nat.add_assoc] at hrest

theorem decodeFrom_cons_eq_ok_iff {pos : Nat} {b : UInt8} {bs : List UInt8} {cs : List Char} :
    decodeFrom pos none (b :: bs) = .ok cs ↔
      ∃ c cs' rest, b :: bs = encodeChar c ++ rest ∧ cs = c :: cs' ∧
        decodeFrom (pos + (encodeChar c).length) none rest = .ok cs' := by
  rw [decodeFrom_none_cons]
  constructor
  · intro h
    split at h
    · cases h
    · rename_i bits awaited hlead
      have hb := lead?_eq_some_iff.mp hlead
      obtain ⟨tail, rest, n, cs', rfl, hn, rfl, hrest⟩ := resume_eq_ok_iff.mp h
      have hc : (Char.ofNat n).toNat = n := by
        rw [Char.ofNat, dif_pos (isValidChar_of_completes hb hn)]; rfl
      have hseq : encodeChar (Char.ofNat n) = b :: tail :=
        encodeChar_eq_cons_iff.mpr ⟨bits, awaited, hb, by rwa [hc]⟩
      refine ⟨_, cs', rest, by rw [hseq, List.cons_append], rfl, ?_⟩
      rwa [hseq, List.length_cons, Nat.add_comm tail.length, ← Nat.add_assoc]
  · rintro ⟨c, cs', rest, hbytes, rfl, hrest⟩
    cases hseq : encodeChar c with
    | nil => exact absurd hseq (encodeChar_ne_nil c)
    | cons b' tail =>
        obtain ⟨bits, awaited, hb, hn⟩ := encodeChar_eq_cons_iff.mp hseq
        rw [hseq, List.cons_append] at hbytes
        obtain ⟨rfl, rfl⟩ := List.cons.inj hbytes
        rw [lead?_eq_some_iff.mpr hb]
        refine resume_eq_ok_iff.mpr ⟨tail, rest, _, cs', rfl, hn, by rw [Char.ofNat_toNat], ?_⟩
        rwa [hseq, List.length_cons, Nat.add_comm tail.length, ← Nat.add_assoc] at hrest

theorem encode_cons (c : Char) (cs : List Char) : encode (c :: cs) = encodeChar c ++ encode cs :=
  List.flatMap_cons

theorem decodeFrom_eq_ok_iff {pos : Nat} {bs : List UInt8} {cs : List Char} :
    decodeFrom pos none bs = .ok cs ↔ bs = encode cs := by
  induction cs generalizing pos bs with
  | nil =>
      cases bs with
      | nil => exact iff_of_true rfl rfl
      | cons b bs =>
          refine iff_of_false (fun h => ?_) (List.cons_ne_nil _ _)
          obtain ⟨_, _, _, -, hcs, -⟩ := decodeFrom_cons_eq_ok_iff.mp h
          cases hcs
  | cons c cs ih =>
      cases bs with
      | nil =>
          refine iff_of_false (fun h => by cases h) (fun h => ?_)
          rw [encode_cons] at h
          exact encodeChar_ne_nil c (List.append_eq_nil_iff.mp h.symm).1
      | cons b bs =>
          rw [decodeFrom_cons_eq_ok_iff, encode_cons]
          constructor
          · rintro ⟨c', cs', rest, hbytes, hcs, hrest⟩
            obtain ⟨rfl, rfl⟩ := List.cons.inj hcs
            rw [hbytes, ih.mp hrest]
          · intro hbytes
            exact ⟨c, cs, _, hbytes, rfl, ih.mpr rfl⟩

/-- Decoding gives a text exactly on the bytes that the text is written in. -/
theorem decode_eq_ok_iff {bs : List UInt8} {cs : List Char} :
    decode bs = .ok cs ↔ bs = encode cs :=
  decodeFrom_eq_ok_iff

theorem encodeChar_eq (c : Char) : encodeChar c = String.utf8EncodeChar c := by
  have hvalid : c.toNat.isValidChar := c.valid
  rw [Nat.isValidChar] at hvalid
  have hlast (n : Nat) : continuation n = UInt8.ofNat (n % 0x40 + 0x80) := by
    rw [continuation, Nat.add_comm]
  unfold encodeChar String.utf8EncodeChar
  simp only [show c.val.toNat = c.toNat from rfl, hlast]
  split
  · rw [if_pos (by omega)]
  split
  · rw [if_neg (by omega), if_pos (by omega),
      show c.toNat / 64 % 32 + 192 = 0xC0 + c.toNat / 0x40 by omega]
  split
  · rw [if_neg (by omega), if_neg (by omega), if_pos (by omega),
      show c.toNat / 4096 % 16 + 224 = 0xE0 + c.toNat / 0x1000 by omega]
  · rw [if_neg (by omega), if_neg (by omega), if_neg (by omega),
      show c.toNat / 262144 % 8 + 240 = 0xF0 + c.toNat / 0x40000 by omega]

theorem toByteArray_encode (cs : List Char) : (encode cs).toByteArray = cs.utf8Encode := by
  rw [encode, List.utf8Encode, funext encodeChar_eq]

/-- The bytes that decode are those that the library calls valid. -/
theorem isValidUTF8_iff {bs : List UInt8} :
    bs.toByteArray.IsValidUTF8 ↔ ∃ cs, decode bs = .ok cs := by
  constructor
  · rintro ⟨cs, h⟩
    rw [← toByteArray_encode] at h
    exact ⟨cs, decode_eq_ok_iff.mpr (List.toByteArray_inj.mp h)⟩
  · rintro ⟨cs, h⟩
    exact ⟨cs, by rw [decode_eq_ok_iff.mp h, toByteArray_encode]⟩

end DirectiveFences.Text.Utf8
