/-
The value that a shortcode becomes, and what is read from it.

The body of a shortcode stands between double quotes, and a backslash is put before each double
quote in it.  A reader takes the value up to the first quote that is not escaped.  Backslashes
are written as they are, so a backslash of the body may meet one that was put in, or the quote
that closes the value.  Whether a text escapes what follows it is a matter of its end
(`escapesNext`), and putting the backslashes in does not alter it (`escapesNext_escapeQuotes`).
So a quote of the body is escaped in the value exactly if it is not in the body, and the value is
read back exactly if the body escapes neither a quote of its own nor what follows it.  No other
value does better: what is read back determines the value (`escapeQuotes_unescapeQuotes`).
-/
import DirectiveFences.Proofs.Kinds
import DirectiveFences.Proofs.Recording
import DirectiveFences.Stage
import Mathlib.Data.List.Induction

namespace DirectiveFences

namespace CodeSpan

/-- Whether an odd number of backslashes ends a text, so that they escape what follows it.  The
first argument tells whether what stands before the text does. -/
def escapesOn (odd : Bool) (cs : List Char) : Bool :=
  cs.foldl (fun odd c => c == '\\' && !odd) odd

/-- Whether a text escapes what follows it. -/
def escapesNext (cs : List Char) : Bool :=
  escapesOn false cs

theorem escapesNext_concat (cs : List Char) (c : Char) :
    escapesNext (cs ++ [c]) = (c == '\\' && !escapesNext cs) := by
  simp [escapesNext, escapesOn]

theorem escapesNext_append {front : List Char} (h : escapesNext front = false)
    (cs : List Char) : escapesNext (front ++ cs) = escapesNext cs := by
  simp only [escapesNext, escapesOn] at h
  rw [escapesNext, escapesNext, escapesOn, escapesOn, List.foldl_append, h]

theorem getLast?_of_escapesNext {cs : List Char} (h : escapesNext cs = true) :
    cs.getLast? = some '\\' := by
  induction cs using List.reverseRecOn with
  | nil => cases h
  | append_singleton cs c _ =>
      rw [escapesNext_concat, Bool.and_eq_true, beq_iff_eq] at h
      rw [List.getLast?_concat, h.1]

theorem isEscaped_append (front back : List Char) :
    isEscaped (front ++ back).toArray front.length = escapesNext front := by
  induction front using List.reverseRecOn generalizing back with
  | nil => rfl
  | append_singleton front c ih =>
      have hchar : (front ++ [c] ++ back).toArray[front.length]? = some c := by simp
      have hbefore := ih (c :: back)
      rw [List.append_cons, isEscaped] at hbefore
      rw [escapesNext_concat, ← hbefore, isEscaped, List.length_append, List.length_singleton,
        backslashesBefore, hchar]
      by_cases hc : c = '\\'
      · rw [if_pos (congrArg some hc), hc, beq_self_eq_true, Bool.true_and]
        rcases Nat.mod_two_eq_zero_or_one
          (backslashesBefore (front ++ ['\\'] ++ back).toArray front.length) with heven | hodd
        · rw [heven, Nat.add_mod, heven]
          rfl
        · rw [hodd, Nat.add_mod, hodd]
          rfl
      · rw [if_neg fun h => hc (Option.some.inj h), beq_eq_false_iff_ne.mpr hc]
        rfl

theorem isEscaped_length (cs : List Char) :
    isEscaped cs.toArray cs.length = escapesNext cs := by
  rw [← isEscaped_append cs [], List.append_nil]

end CodeSpan

namespace Convert

open CodeSpan Shape

/-! ## Putting backslashes in and taking them out

The backslashes that are put in come before double quotes only, so they can be told from those of
the body: each double quote of the value is one of the body, behind a backslash that was put in. -/

/-- A value without the backslash in front of each double quote. -/
def unescapeQuotes : List Char → List Char
  | '\\' :: '"' :: cs => '"' :: unescapeQuotes cs
  | c :: cs => c :: unescapeQuotes cs
  | [] => []

theorem escapeQuotes_quote (cs : List Char) :
    escapeQuotes ('"' :: cs) = '\\' :: '"' :: escapeQuotes cs := rfl

theorem escapeQuotes_cons {c : Char} (hc : c ≠ '"') (cs : List Char) :
    escapeQuotes (c :: cs) = c :: escapeQuotes cs := by
  rw [escapeQuotes, List.flatMap_cons, if_neg hc]
  rfl

theorem escapeQuotes_append (cs ds : List Char) :
    escapeQuotes (cs ++ ds) = escapeQuotes cs ++ escapeQuotes ds :=
  List.flatMap_append

theorem head_escapeQuotes_ne (cs rest : List Char) : escapeQuotes cs ≠ '"' :: rest := by
  intro h
  cases cs with
  | nil => cases h
  | cons c cs =>
      by_cases hc : c = '"'
      · rw [hc, escapeQuotes_quote] at h
        exact absurd (List.cons.inj h).1 (by decide)
      · rw [escapeQuotes_cons hc] at h
        exact hc (List.cons.inj h).1

theorem unescapeQuotes_cons {c : Char} {cs : List Char} (h : ∀ rest, c = '\\' → cs ≠ '"' :: rest) :
    unescapeQuotes (c :: cs) = c :: unescapeQuotes cs := by
  rw [unescapeQuotes]
  exact fun rest hc => h rest hc

theorem unescapeQuotes_escapeQuotes (body : List Char) :
    unescapeQuotes (escapeQuotes body) = body := by
  induction body with
  | nil => rfl
  | cons c cs ih =>
      by_cases hc : c = '"'
      · rw [hc, escapeQuotes_quote, unescapeQuotes, ih]
      · rw [escapeQuotes_cons hc,
          unescapeQuotes_cons fun rest _ => head_escapeQuotes_ne cs rest, ih]

/-- A value in which a backslash stands before each double quote is determined by what is left of
it without them. -/
theorem escapeQuotes_unescapeQuotes {value : List Char}
    (h : ∀ before after, value = before ++ '"' :: after → before.getLast? = some '\\') :
    escapeQuotes (unescapeQuotes value) = value := by
  fun_induction unescapeQuotes value with
  | case1 cs ih =>
      rw [escapeQuotes_quote, ih]
      intro before after hcs
      have hlast := h ('\\' :: '"' :: before) after (by rw [hcs]; rfl)
      cases before with
      | nil => cases hlast
      | cons d ds => simpa using hlast
  | case2 c cs hnot ih =>
      have hc : c ≠ '"' := fun hc => by cases h [] cs (by rw [hc]; rfl)
      rw [escapeQuotes_cons hc, ih]
      intro before after hcs
      have hlast := h (c :: before) after (by rw [hcs]; rfl)
      cases before with
      | nil => exact absurd hcs (hnot after (by simpa using hlast))
      | cons d ds => simpa using hlast
  | case3 => rfl

/-- The backslashes that are put in come before a double quote, and nothing is escaped by a text
that ends in one. -/
theorem escapesOn_escapeQuotes (odd : Bool) (body : List Char) :
    escapesOn odd (escapeQuotes body) = escapesOn odd body := by
  induction body generalizing odd with
  | nil => rfl
  | cons c cs ih =>
      by_cases hc : c = '"'
      · rw [hc, escapeQuotes_quote]
        exact ih false
      · rw [escapeQuotes_cons hc]
        exact ih _

theorem escapesNext_escapeQuotes (body : List Char) :
    escapesNext (escapeQuotes body) = escapesNext body :=
  escapesOn_escapeQuotes false body

theorem quote_of_escapeQuotes {body before after : List Char}
    (h : escapeQuotes body = before ++ '"' :: after) :
    ∃ front back, body = front ++ '"' :: back ∧ before = escapeQuotes front ++ ['\\'] := by
  induction body generalizing before with
  | nil => exact absurd (List.append_eq_nil_iff.mp h.symm).2 (by simp)
  | cons c cs ih =>
      by_cases hc : c = '"'
      · rw [hc, escapeQuotes_quote] at h
        cases before with
        | nil => exact absurd (List.cons.inj h).1 (by decide)
        | cons d ds =>
            obtain ⟨rfl, hds⟩ := List.cons.inj h
            cases ds with
            | nil => exact ⟨[], cs, by rw [hc]; rfl, rfl⟩
            | cons e es =>
                obtain ⟨rfl, hes⟩ := List.cons.inj hds
                obtain ⟨front, back, rfl, rfl⟩ := ih hes
                exact ⟨'"' :: front, back, by rw [hc]; rfl, rfl⟩
      · rw [escapeQuotes_cons hc] at h
        cases before with
        | nil => exact absurd (List.cons.inj h).1 hc
        | cons d ds =>
            obtain ⟨rfl, hds⟩ := List.cons.inj h
            obtain ⟨front, back, rfl, rfl⟩ := ih hds
            exact ⟨c :: front, back, rfl, by rw [escapeQuotes_cons hc]; rfl⟩

/-! ## A value between double quotes

Nothing before the value has a part in what is escaped in it, if what stands there does not end in a
backslash.  Behind the backslash that is put in, a quote is escaped if it was not before; and a body
is read back from its own value only, so the value has to be delimited as it is. -/

/-- A value between double quotes, in the line that holds it: each quote in the value is escaped,
and the one that closes it is not. -/
structure Delimited (front value back : List Char) : Prop where
  escaped : ∀ before after, value = before ++ '"' :: after →
    isEscaped (front ++ (value ++ '"' :: back)).toArray (front.length + before.length) = true
  closed : isEscaped (front ++ (value ++ '"' :: back)).toArray (front.length + value.length) = false

/-- A text that escapes neither a double quote of its own nor what follows it: an even number of
backslashes stands directly before each, perhaps none. -/
structure QuotesBare (body : List Char) : Prop where
  quotes : ∀ before after, body = before ++ '"' :: after →
    isEscaped body.toArray before.length = false
  ending : isEscaped body.toArray body.length = false

/-- The double quote that closes a value: the first from a place on that is not escaped. -/
def closingQuote? (cs : List Char) (start : Nat) : Option Nat :=
  (List.range' start (cs.length - start)).find? fun p =>
    cs[p]? == some '"' && !isEscaped cs.toArray p

/-- What a reader takes the value at a place for. -/
def readValue? (cs : List Char) (start : Nat) : Option (List Char) :=
  (closingQuote? cs start).map fun stop => unescapeQuotes ((cs.drop start).take (stop - start))

section

variable {front value back body : List Char}

theorem isEscaped_in_line (hfront : escapesNext front = false) (before after : List Char) :
    isEscaped (front ++ (before ++ after)).toArray (front.length + before.length)
      = escapesNext before := by
  rw [← List.append_assoc, ← List.length_append, isEscaped_append, escapesNext_append hfront]

theorem delimited_iff (hfront : escapesNext front = false) :
    Delimited front value back ↔
      (∀ before after, value = before ++ '"' :: after → escapesNext before = true) ∧
        escapesNext value = false := by
  have hquote : ∀ before after, value = before ++ '"' :: after →
      isEscaped (front ++ (value ++ '"' :: back)).toArray (front.length + before.length)
        = escapesNext before := by
    intro before after hvalue
    rw [hvalue, List.append_assoc, isEscaped_in_line hfront]
  have hclose := isEscaped_in_line hfront value ('"' :: back)
  constructor
  · intro h
    exact ⟨fun before after hvalue => hquote before after hvalue ▸ h.escaped before after hvalue,
      hclose ▸ h.closed⟩
  · rintro ⟨hescaped, hclosed⟩
    exact ⟨fun before after hvalue => (hquote before after hvalue).trans
      (hescaped before after hvalue), hclose.trans hclosed⟩

theorem quotesBare_iff :
    QuotesBare body ↔
      (∀ before after, body = before ++ '"' :: after → escapesNext before = false) ∧
        escapesNext body = false := by
  have hquote : ∀ before after, body = before ++ '"' :: after →
      isEscaped body.toArray before.length = escapesNext before := by
    intro before after hbody
    rw [hbody, isEscaped_append]
  constructor
  · intro h
    exact ⟨fun before after hbody => hquote before after hbody ▸ h.quotes before after hbody,
      isEscaped_length body ▸ h.ending⟩
  · rintro ⟨hquotes, hending⟩
    exact ⟨fun before after hbody => (hquote before after hbody).trans
      (hquotes before after hbody), (isEscaped_length body).trans hending⟩

theorem delimited_escapeQuotes_iff (hfront : escapesNext front = false) :
    Delimited front (escapeQuotes body) back ↔ QuotesBare body := by
  have hturn : ∀ before, escapesNext (escapeQuotes before ++ ['\\']) = !escapesNext before := by
    intro before
    rw [escapesNext_concat, escapesNext_escapeQuotes]
    rfl
  rw [delimited_iff hfront, quotesBare_iff, escapesNext_escapeQuotes]
  refine and_congr_left' ⟨fun h before after hbody => ?_, fun h before after hvalue => ?_⟩
  · have hescaped := h (escapeQuotes before ++ ['\\']) (escapeQuotes after) (by
      rw [hbody, escapeQuotes_append, escapeQuotes_quote, List.append_assoc]
      rfl)
    rwa [hturn, Bool.not_eq_true'] at hescaped
  · obtain ⟨front, back, hbody, rfl⟩ := quote_of_escapeQuotes hvalue
    rw [hturn, h front back hbody]
    rfl

theorem Delimited.escapeQuotes_unescapeQuotes (hfront : escapesNext front = false)
    (h : Delimited front value back) : escapeQuotes (unescapeQuotes value) = value := by
  refine Convert.escapeQuotes_unescapeQuotes fun before after hvalue => ?_
  exact getLast?_of_escapesNext (((delimited_iff hfront).mp h).1 before after hvalue)

theorem exists_eq_append {cs : List Char} {place : Nat} {c : Char} (h : cs[place]? = some c) :
    ∃ before after, cs = before ++ c :: after ∧ before.length = place := by
  obtain ⟨hlt, hc⟩ := List.getElem?_eq_some_iff.mp h
  refine ⟨cs.take place, cs.drop (place + 1), ?_, List.length_take_of_le (Nat.le_of_lt hlt)⟩
  rw [← hc, List.getElem_cons_drop, List.take_append_drop]

theorem getElem?_in_line (front before after : List Char) (c : Char) :
    (front ++ (before ++ c :: after))[front.length + before.length]? = some c := by
  simp

theorem delimited_iff_places :
    Delimited front value back ↔
      isEscaped (front ++ (value ++ '"' :: back)).toArray (front.length + value.length) = false ∧
        ∀ place, front.length ≤ place → place < front.length + value.length →
          (front ++ (value ++ '"' :: back))[place]? = some '"' →
            isEscaped (front ++ (value ++ '"' :: back)).toArray place = true := by
  constructor
  · intro h
    refine ⟨h.closed, fun place hstart hstop hquote => ?_⟩
    rw [List.getElem?_append_right hstart, List.getElem?_append_left (by omega)] at hquote
    obtain ⟨before, after, hvalue, hlength⟩ := exists_eq_append hquote
    have hescaped := h.escaped before after hvalue
    rwa [hlength, Nat.add_sub_cancel' hstart] at hescaped
  · rintro ⟨hclosed, hplaces⟩
    refine ⟨fun before after hvalue => ?_, hclosed⟩
    have hshort : before.length < value.length := by
      rw [hvalue, List.length_append, List.length_cons]
      omega
    refine hplaces _ (Nat.le_add_right _ _) (Nat.add_lt_add_left hshort _) ?_
    rw [hvalue, List.append_assoc]
    exact getElem?_in_line front before (after ++ '"' :: back) '"'

theorem closingQuote?_eq_some_iff {line : List Char} {start stop : Nat} :
    closingQuote? line start = some stop ↔
      ∃ front value back, line = front ++ (value ++ '"' :: back) ∧ front.length = start ∧
        start + value.length = stop ∧ Delimited front value back := by
  rw [closingQuote?, List.find?_range'_eq_some, List.mem_range'_1]
  simp only [Bool.and_eq_true, beq_iff_eq, Bool.not_eq_true', Bool.and_eq_false_imp,
    Bool.not_eq_false']
  constructor
  · rintro ⟨⟨hquote, hclosed⟩, ⟨hstart, -⟩, hfirst⟩
    obtain ⟨before, back, rfl, rfl⟩ := exists_eq_append hquote
    have hlength : (before.take start).length = start := List.length_take_of_le hstart
    have hstop : start + (before.drop start).length = before.length := by
      rw [List.length_drop, Nat.add_sub_cancel' hstart]
    have hline : before.take start ++ (before.drop start ++ '"' :: back)
        = before ++ '"' :: back := by
      rw [← List.append_assoc, List.take_append_drop]
    refine ⟨_, _, back, hline.symm, hlength, hstop, delimited_iff_places.mpr ?_⟩
    rw [hline, hlength, hstop]
    exact ⟨hclosed, hfirst⟩
  · rintro ⟨front, value, back, rfl, rfl, rfl, h⟩
    obtain ⟨hclosed, hplaces⟩ := delimited_iff_places.mp h
    refine ⟨⟨getElem?_in_line front value back '"', hclosed⟩, ⟨Nat.le_add_right _ _, ?_⟩, hplaces⟩
    rw [List.length_append, List.length_append, List.length_cons]
    omega

theorem readValue?_eq_some_iff {line : List Char} {start : Nat} {read : List Char} :
    readValue? line start = some read ↔
      ∃ front value back, line = front ++ (value ++ '"' :: back) ∧ front.length = start ∧
        unescapeQuotes value = read ∧ Delimited front value back := by
  rw [readValue?, Option.map_eq_some_iff]
  constructor
  · rintro ⟨stop, hstop, hread⟩
    obtain ⟨front, value, back, rfl, rfl, rfl, h⟩ := closingQuote?_eq_some_iff.mp hstop
    refine ⟨front, value, back, rfl, rfl, ?_, h⟩
    rwa [List.drop_left, Nat.add_sub_cancel_left, List.take_left] at hread
  · rintro ⟨front, value, back, rfl, rfl, hread, h⟩
    refine ⟨_, closingQuote?_eq_some_iff.mpr ⟨front, value, back, rfl, rfl, rfl, h⟩, ?_⟩
    rw [List.drop_left, Nat.add_sub_cancel_left, List.take_left, hread]

theorem readValue?_escapeQuotes_iff (hfront : escapesNext front = false) :
    readValue? (front ++ (escapeQuotes body ++ '"' :: back)) front.length = some body ↔
      QuotesBare body := by
  rw [readValue?_eq_some_iff, ← delimited_escapeQuotes_iff hfront]
  constructor
  · rintro ⟨front', value, back', hline, hlength, hread, h⟩
    obtain ⟨rfl, hvalue⟩ := List.append_inj hline hlength.symm
    have heq : value = escapeQuotes body := by
      rw [← hread, h.escapeQuotes_unescapeQuotes hfront]
    subst heq
    exact (List.cons.inj (List.append_cancel_left hvalue)).2 ▸ h
  · intro h
    exact ⟨front, escapeQuotes body, back, rfl, rfl, unescapeQuotes_escapeQuotes body, h⟩

end

/-! ## Bodies that can be read back -/

theorem quotesBare_of_no_backslash {body : List Char} (h : '\\' ∉ body) : QuotesBare body := by
  have hfalse : ∀ before, before ⊆ body → escapesNext before = false := by
    intro before hsub
    refine Bool.eq_false_iff.mpr fun hescapes => h (hsub ?_)
    exact List.mem_of_mem_getLast? (getLast?_of_escapesNext hescapes)
  refine quotesBare_iff.mpr ⟨fun before after hbody => ?_, hfalse body (List.Subset.refl body)⟩
  exact hfalse before (hbody ▸ List.subset_append_left before _)

/-- A shortcode's directive up to the double quote that opens its value. -/
def valueFront (code : Shortcode) : List Char :=
  code.indent ++ [':', ':'] ++ shortcodeName ++ '{' :: "raw=\"".toList

/-- What follows the double quote that closes the value. -/
def valueBack (s : Site) (code : Shortcode) : List Char :=
  '}' :: s.ended code.trailing

theorem ended_leafDirective (s : Site) (code : Shortcode) :
    s.ended (leafDirective code)
      = valueFront code ++ (escapeQuotes code.body ++ '"' :: valueBack s code) := by
  simp [Site.ended, leafDirective, valueFront, valueBack]

theorem escapesNext_valueFront (code : Shortcode) : escapesNext (valueFront code) = false := by
  have hquote : valueFront code
      = code.indent ++ [':', ':'] ++ shortcodeName ++ '{' :: "raw=".toList ++ ['"'] := by
    simp [valueFront]
  rw [hquote, escapesNext_concat]
  rfl

/-- **A body is read back unless it escapes.**  Each quote in the value of a shortcode is escaped,
and the one that closes it is not, exactly if the body escapes neither a double quote of its own nor
what follows it; and for these bodies only the value is read as the body.  To take the backslashes
out again always gives the body.  What goes wrong is where the value ends, and no other value would
do instead. -/
theorem shortcode_value_iff (s : Site) (st : State) (r : Step) (h : shortcode s st = some r) :
    ∃ code, shortcode? s.line.body = some code ∧
      let front := valueFront code
      let value := escapeQuotes code.body
      let back := valueBack s code
      r.lines = [front ++ (value ++ '"' :: back)] ∧
      (Delimited front value back ↔ QuotesBare code.body) ∧
      (readValue? (front ++ (value ++ '"' :: back)) front.length = some code.body ↔
        QuotesBare code.body) ∧
      unescapeQuotes value = code.body ∧
      ∀ other, Delimited front other back → unescapeQuotes other = code.body → other = value := by
  rw [shortcode_eq] at h
  split at h
  · cases h
  · obtain ⟨code, hcode, rfl⟩ := Option.map_eq_some_iff.mp h
    have hfront := escapesNext_valueFront code
    refine ⟨code, hcode, congrArg ([·]) (ended_leafDirective s code),
      delimited_escapeQuotes_iff hfront, readValue?_escapeQuotes_iff hfront,
      unescapeQuotes_escapeQuotes code.body, fun other hother hread => ?_⟩
    rw [← hread, hother.escapeQuotes_unescapeQuotes hfront]

/-- A file name between double quotes is read back. -/
theorem quotedName_read :
    readValue? "::shortcode\x7braw=\"video \\\"a.mp4\\\"\"\x7d".toList 17
      = some "video \"a.mp4\"".toList := by
  let s : Site := ⟨0, ⟨"\x7b\x7b< video \"a.mp4\" >\x7d\x7d".toList, []⟩, #[]⟩
  obtain ⟨code, hcode, -, -, hread, -⟩ := shortcode_value_iff s {} _ rfl
  obtain rfl : code = ⟨[], "video \"a.mp4\"".toList, []⟩ :=
    Option.some.inj (hcode.symm.trans (by decide +kernel))
  exact hread.mpr (quotesBare_of_no_backslash (by decide))

/-- A backslash at the end of a body escapes the quote that closes the value, so nothing is read;
and where one stands before a quote of the body, the value ends at that quote. -/
theorem trailingBackslash_unread :
    Stage.convert {} "\x7b\x7b< a\\ >\x7d\x7d".toList = "::shortcode\x7braw=\"a\\\"\x7d".toList ∧
      isEscaped "::shortcode\x7braw=\"a\\\"\x7d".toList.toArray 19 = true ∧
      readValue? "::shortcode\x7braw=\"a\\\"\x7d".toList 17 = none ∧
      Stage.convert {} "\x7b\x7b< \\\" >\x7d\x7d".toList
        = "::shortcode\x7braw=\"\\\\\"\"\x7d".toList ∧
      readValue? "::shortcode\x7braw=\"\\\\\"\"\x7d".toList 17 = some "\\\\".toList := by
  refine ⟨?_, by decide +kernel, by decide +kernel, ?_, by decide +kernel⟩
  · rw [Stage.convert, Scan.ranges_eq_recorded]
    decide +kernel
  · rw [Stage.convert, Scan.ranges_eq_recorded]
    decide +kernel

end Convert

end DirectiveFences
