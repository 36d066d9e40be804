/-
The inline structure of a piece of Markdown text, as far as code needs it.

`pieces` reads the content of one block from left to right and lists its code
spans, raw HTML and autolinks with their places.  Links matter because their
text is read for pieces while their target is not, and images because they hide
all they contain; emphasis and entities take nothing out of the text and are
passed over character by character.

A bracket may have to be skipped many times over before it is known whether it
starts a link, so what skipping from a place leads to is remembered (`Memo`).
Nesting is followed twenty levels deep.
-/
import DirectiveFences.Markdown.Html
import DirectiveFences.Markdown.Target

namespace DirectiveFences.Markdown

open DirectiveFences.Text

/-- A piece of inline text in which backticks need care, with its place in the content. -/
inductive Piece
  /-- A code span: the length of its delimiters and what stands between them. -/
  | code (ticks : Nat) (content : List Char) (start stop : Nat)
  /-- A tag or other raw HTML. -/
  | html (content : List Char) (start stop : Nat)
  /-- An address between angle brackets. -/
  | autolink (start stop : Nat)
deriving DecidableEq, Repr

namespace Inline

/-- How deep brackets nest before they are taken as text. -/
def maxNesting : Nat := 20

/-- For each place of the content, where skipping one token from it leads, once that is known. -/
abbrev Memo := Array (Option Nat)

/-- Nothing is known of a content of the given length. -/
def Memo.empty (length : Nat) : Memo :=
  Array.replicate (length + 1) none

/-- Remember where skipping from a place leads. -/
def Memo.learn (m : Memo) (place next : Nat) : Memo :=
  m.setIfInBounds place (some next)

/-! ## Code spans -/

/-- The number of backticks at the front of a text, at most `most`. -/
def ticks : Nat → List Char → Nat
  | most + 1, '`' :: cs => ticks most cs + 1
  | _, _ => 0

/-- The place of the run that closes a code span; `hold` backticks of a run of another length are
still to be passed over. -/
def closing? (length stop : Nat) : Nat → Nat → List Char → Option Nat
  | _, _, [] => none
  | hold + 1, place, _ :: cs => closing? length stop hold (place + 1) cs
  | 0, place, c :: cs =>
    if c = '`' then
      let run := 1 + ticks (stop - (place + 1)) cs
      if run = length then some place else closing? length stop (run - 1) (place + 1) cs
    else closing? length stop 0 (place + 1) cs

/-- The content of a code span: line feeds are spaces, and one space goes from each end when there
is one at both and something that is not blank between them. -/
def codeContent (raw : List Char) : List Char :=
  let cs := raw.map fun c => if c = '\n' then ' ' else c
  if cs.head? == some ' ' && cs.getLast? == some ' ' && !cs.all isBlank then (cs.drop 1).dropLast
  else cs

/-- A run of backticks: the place where reading goes on, and the code span if it opens one. -/
def backticks (stop place : Nat) (rest : List Char) : Nat × Option Piece :=
  let length := 1 + ticks (stop - (place + 1)) (rest.drop 1)
  let inside := place + length
  let after := rest.drop length
  match closing? length stop 0 inside after with
  | some close =>
    let next := close + length
    (next, some (.code length (codeContent (after.take (close - inside))) place next))
  | none => (inside, none)

/-! ## Autolinks -/

/-- Whether a text is a scheme of at least two characters, a colon, and no blank. -/
def isAddress (cs : List Char) : Bool :=
  let isSchemeChar := fun c : Char => c.isAlphanum || c == '+' || c == '.' || c == '-'
  let scheme := cs.takeWhile isSchemeChar
  match cs.drop scheme.length with
  | ':' :: body =>
    let body := if body.getLast? = some '\n' then body.dropLast else body
    (scheme.head?.map Char.isAlpha).getD false && 2 ≤ scheme.length && scheme.length ≤ 32 &&
      body.all fun c => 0x20 < c.toNat && c != '<' && c != '>'
  | _ => false

/-- The parts of a text between occurrences of a character. -/
def partsAt (sep : Char) (cs : List Char) : List (List Char) :=
  cs.foldr (fun c parts =>
    match parts with
    | [] => [[c]]
    | p :: ps => if c = sep then [] :: p :: ps else (c :: p) :: ps) [[]]

/-- Whether a text is a label of a host name: letters, digits and inner hyphens, at most 63. -/
def isHostLabel (cs : List Char) : Bool :=
  cs.length ≤ 63 && (cs.head?.map Char.isAlphanum).getD false &&
    (cs.getLast?.map Char.isAlphanum).getD false && cs.all fun c => c.isAlphanum || c == '-'

/-- Whether a text is a mail address. -/
def isMail (cs : List Char) : Bool :=
  let isLocalChar := fun c : Char => c.isAlphanum || ".!#$%&'*+/=?^_`\x7b|\x7d~-".toList.contains c
  let localPart := cs.takeWhile isLocalChar
  match cs.drop localPart.length with
  | '@' :: host =>
    let host := if host.getLast? = some '\n' then host.dropLast else host
    !localPart.isEmpty && (partsAt '.' host).all isHostLabel
  | _ => false

/-- The address of the autolink at the front of a text, which begins with an angle bracket; `room`
characters may be looked at after it. -/
def autolink? (room : Nat) (rest : List Char) : Option (List Char) :=
  let address := (rest.drop 1).takeWhile fun c => c != '<' && c != '>'
  if address.length < room && (rest.drop (address.length + 1)).head? = some '>' then
    if isAddress address then
      if Target.isAllowedAddress address then some address else none
    else if isMail address then some address
    else none
  else none

/-! ## Links and images -/

/-- Skip one token: from a place and the text from there on, the place after it. -/
abbrev Skip := Nat → List Char → Memo → Nat × Memo

/-- The place of the bracket that closes a label, reading from `place` on with `depth` brackets
open.  When `plain` is set, a label with a link inside has no end. -/
def labelEnd (skip : Skip) (stop : Nat) (plain : Bool) :
    Nat → Nat → Nat → List Char → Memo → Option Nat × Memo
  | 0, _, _, _, m => (none, m)
  | _, _, _, [], m => (none, m)
  | fuel + 1, depth, place, c :: cs, m =>
    if stop ≤ place then (none, m)
    else if c = ']' && depth = 1 then (some place, m)
    else
      let depth := if c = ']' then depth - 1 else depth
      let (next, m) := skip place (c :: cs) m
      let rest := (c :: cs).drop (next - place)
      if c = '[' then
        if next = place + 1 then labelEnd skip stop plain fuel (depth + 1) next rest m
        else if plain then (none, m)
        else labelEnd skip stop plain fuel depth next rest m
      else labelEnd skip stop plain fuel depth next rest m

/-- The number of spaces, tabs and line feeds at the front of a text, at most `room`. -/
def gap (room : Nat) (rest : List Char) : Nat :=
  min room (rest.takeWhile fun c => isSpace c || c == '\n').length

/-- How reading a target in parentheses ends. -/
inductive Inner
  /-- The content ends before the target does. -/
  | cut
  /-- The target ends with a closing parenthesis; its length is given. -/
  | closed (length : Nat)
  /-- No closing parenthesis stands at this distance, where one should. -/
  | broken (length : Nat)

/-- A target after its opening parenthesis: a destination and a title, each of which may be
missing, with blanks around them.  `room` characters may be looked at. -/
def innerTarget (room : Nat) (rest : List Char) : Inner :=
  let before := gap room rest
  if room ≤ before then .cut
  else
    let rest := rest.drop before
    let room := room - before
    let dest :=
      match Target.destination? room rest with
      | some (written, n) => if Target.isAllowed written then n else 0
      | none => 0
    let rest := rest.drop dest
    let room := room - dest
    let between := gap room rest
    let rest := rest.drop between
    let room := room - between
    let title :=
      if 0 < between && 0 < room then (Target.titleLength? room rest).getD 0 else 0
    let rest := rest.drop title
    let room := room - title
    let after := if 0 < title then gap room rest else 0
    let read := before + dest + between + title + after
    if 0 < room - after && (rest.drop after).head? = some ')' then .closed read else .broken read

/-- A link or an image: where its text or description ends, and where reading goes on after it. -/
structure Linked where
  labelStop : Nat
  next : Nat

/-- The definition that a link or image refers to, by a second label or by its own text.  The text
starts at `label` and ends at `close`; a second label may stand at `place`. -/
def reference? (skip : Skip) (keys : List (List Char)) (stop : Nat) (text : List Char)
    (close place : Nat) (rest : List Char) (m : Memo) : Option Linked × Memo :=
  if keys.isEmpty then (none, m)
  else
    let second :=
      if place < stop && rest.head? = some '[' then
        labelEnd skip stop false (stop - place) 1 (place + 1) (rest.drop 1) m
      else (none, m)
    let (written, next) :=
      match second.1 with
      | some e => ((rest.drop 1).take (e - (place + 1)), e + 1)
      | none => ([], close + 1)
    let key := Target.labelKey (if written.isEmpty then text else written)
    (if keys.contains key then some ⟨close, next⟩ else none, second.2)

/-- The link at the front of a text, which begins with a bracket: a label without links, then a
target in parentheses or a reference.  When the parentheses hold no target, a second label may
still stand right after the place where the closing one was missed. -/
def link? (skip : Skip) (keys : List (List Char)) (stop place : Nat) (rest : List Char) (m : Memo) :
    Option Linked × Memo :=
  match labelEnd skip stop true (stop - place) 1 (place + 1) (rest.drop 1) m with
  | (none, m) => (none, m)
  | (some close, m) =>
    let text := (rest.drop 1).take (close - (place + 1))
    let after := rest.drop (close + 1 - place)
    let inParentheses := close + 1 < stop && after.head? = some '('
    if inParentheses then
      match innerTarget (stop - (close + 2)) (after.drop 1) with
      | .cut => (none, m)
      | .closed n => (some ⟨close, close + 2 + n + 1⟩, m)
      | .broken n =>
        let second := close + 2 + n + 1
        reference? skip keys stop text close second (rest.drop (second - place)) m
    else reference? skip keys stop text close (close + 1) after m

/-- The image at the front of a text, which begins with an exclamation mark: a label, then a target
in parentheses or a reference. -/
def image? (skip : Skip) (keys : List (List Char)) (stop place : Nat) (rest : List Char)
    (m : Memo) : Option Linked × Memo :=
  if (rest.drop 1).head? = some '[' && place + 1 < stop then
    match labelEnd skip stop false (stop - (place + 1)) 1 (place + 2) (rest.drop 2) m with
    | (none, m) => (none, m)
    | (some close, m) =>
      let text := (rest.drop 2).take (close - (place + 2))
      let after := rest.drop (close + 1 - place)
      let inParentheses := close + 1 < stop && after.head? = some '('
      if inParentheses then
        match innerTarget (stop - (close + 2)) (after.drop 1) with
        | .closed n => (some ⟨close, close + 2 + n + 1⟩, m)
        | _ => (none, m)
      else reference? skip keys stop text close (close + 1) after m
  else (none, m)

/-! ## Tokens -/

/-- A character at which something other than plain text may begin. -/
def isSpecial (c : Char) : Bool :=
  c == '\n' || (Target.isPunctuation c && !"\"'(),./;?|".toList.contains c)

/-- What stands at a place: the place after it, the piece it is, and the text of a link, where it
has one, as the place where that text ends. -/
structure Token where
  next : Nat
  piece : Option Piece := none
  linkText : Option Nat := none

/-- The token at the front of a text; nested brackets are skipped with `skip`. -/
def token (skip : Skip) (keys : List (List Char)) (stop place : Nat) (m : Memo) :
    List Char → Token × Memo
  | [] => (⟨place + 1, none, none⟩, m)
  | c :: cs =>
    let rest := c :: cs
    if !isSpecial c then
      (⟨place + 1 + (cs.takeWhile fun d => !isSpecial d).length, none, none⟩, m)
    else if c = '\\' then (⟨if place + 1 < stop then place + 2 else place + 1, none, none⟩, m)
    else if c = '`' then
      let (next, piece) := backticks stop place rest
      (⟨next, piece, none⟩, m)
    else if c = '[' then
      match link? skip keys stop place rest m with
      | (some l, m) => (⟨l.next, none, some l.labelStop⟩, m)
      | (none, m) => (⟨place + 1, none, none⟩, m)
    else if c = '!' then
      match image? skip keys stop place rest m with
      | (some l, m) => (⟨l.next, none, none⟩, m)
      | (none, m) => (⟨place + 1, none, none⟩, m)
    else if c = '<' then
      match autolink? (stop - (place + 1)) rest with
      | some address =>
        let next := place + address.length + 2
        (⟨next, some (.autolink place next), none⟩, m)
      | none =>
        match (if place + 2 < stop then Html.tagLength? rest else none) with
        | some n => (⟨place + n, some (.html (rest.take n) place (place + n)), none⟩, m)
        | none => (⟨place + 1, none, none⟩, m)
    else (⟨place + 1, none, none⟩, m)

/-- Skip one token, `levels` levels deep at most.  Too deep, everything up to the end is one. -/
def skipToken (keys : List (List Char)) (stop : Nat) : Nat → Skip
  | levels, place, rest, m =>
    match (m[place]?).join with
    | some next => (next, m)
    | none =>
      match levels with
      | 0 => (stop + 1, m.learn place (stop + 1))
      | levels + 1 =>
        let (t, m) := token (skipToken keys stop levels) keys stop place m rest
        (t.next, m.learn place t.next)

/-- The pieces from a place up to `stop`; the text of a link is read with `inner`. -/
def piecesFrom (skip : Skip) (keys : List (List Char)) (stop : Nat)
    (inner : Nat → Nat → List Char → Memo → List Piece × Memo) :
    Nat → Nat → List Char → Memo → List Piece × Memo
  | 0, _, _, m => ([], m)
  | fuel + 1, place, rest, m =>
    if stop ≤ place then ([], m)
    else
      let (t, m) := token skip keys stop place m rest
      let (nested, m) :=
        match t.linkText with
        | some close => inner close (place + 1) (rest.drop 1) m
        | none => ([], m)
      let (later, m) :=
        piecesFrom skip keys stop inner fuel t.next (rest.drop (t.next - place)) m
      (t.piece.toList ++ nested ++ later, m)

/-- The pieces from a place up to `stop`, `levels` levels deep at most. -/
def piecesWithin (keys : List (List Char)) :
    Nat → Nat → Nat → List Char → Memo → List Piece × Memo
  | 0, _, _, _, m => ([], m)
  | levels + 1, stop, place, rest, m =>
    piecesFrom (skipToken keys stop (levels + 1)) keys stop (piecesWithin keys levels)
      (stop - place) place rest m

/-- The pieces of the content of a block, in their order.  `keys` are the labels that the document
defines. -/
def pieces (keys : List (List Char)) (content : List Char) : List Piece :=
  (piecesWithin keys maxNesting content.length 0 content (Memo.empty content.length)).1

end Inline

end DirectiveFences.Markdown
