/-
What is printed and what is put in the place of a document.

Two command lines that differ only in the option for the place make the same plan and the same
conversion (`plan_withoutInPlace`), so up to there nothing needs to be compared.  Then the ways
part.  The converted text goes to the disk as its bytes, all of them; on the way to the standard
output it loses its terminal sequences.  A text is printed as it is exactly if there are none in
it (`plain_eq_self_iff`).

The other run may still fail where the first one does not, since it needs a temporary file beside
the document.  Without a fault there is only one reason: the name of that file is longer than
the document's, and it can be too long (`Guard.openTemporary_iff`).
-/
import DirectiveFences.Proofs.CommandEffects
import DirectiveFences.Proofs.ExactBytes
import Mathlib.Data.List.Nodup
import Mathlib.Data.List.Perm.Subperm

namespace DirectiveFences

/-! ## Terminal sequences -/

namespace Command

/-- A character that may stand between the mark of a terminal sequence and its letter. -/
def IsParameter (c : Char) : Prop :=
  c = ';' ∨ c = '?' ∨ c.isDigit = true

/-- A terminal sequence stands in a text: an escape and a bracket, parameters, and a letter. -/
def HasSequence (cs : List Char) : Prop :=
  ∃ before params letter after, cs = before ++ '\x1b' :: '[' :: (params ++ letter :: after) ∧
    (∀ c ∈ params, IsParameter c) ∧ letter.isAlpha = true

variable {c : Char} {cs rest : List Char}

theorem not_isParameter_of_isAlpha (h : c.isAlpha = true) : ¬ IsParameter c := by
  rintro (rfl | rfl | hdigit)
  · cases h
  · cases h
  · have hle : c.val ≤ '9'.val := of_decide_eq_true (Bool.and_eq_true_iff.mp hdigit).2
    have hge : 'A'.val ≤ c.val := by
      rcases Bool.or_eq_true_iff.mp h with hupper | hlower
      · exact (of_decide_eq_true hupper).1
      · exact UInt32.le_trans (by decide) (of_decide_eq_true (Bool.and_eq_true_iff.mp hlower).1)
    exact absurd (UInt32.le_trans hge hle) (by decide)

theorem afterSequence?_eq_some_iff : afterSequence? cs = some rest ↔
    ∃ params letter, cs = params ++ letter :: rest ∧ (∀ c ∈ params, IsParameter c) ∧
      letter.isAlpha = true := by
  induction cs with
  | nil => simp [afterSequence?]
  | cons c cs ih =>
      rw [afterSequence?]
      by_cases hparam : IsParameter c
      · have hcond : (c = ';' || c = '?' || c.isDigit) = true := by
          simpa [IsParameter, or_assoc] using hparam
        rw [if_pos hcond, ih]
        constructor
        · rintro ⟨params, letter, rfl, hparams, hletter⟩
          exact ⟨c :: params, letter, rfl, List.forall_mem_cons.mpr ⟨hparam, hparams⟩, hletter⟩
        · rintro ⟨params, letter, heq, hparams, hletter⟩
          cases params with
          | nil =>
              cases heq
              exact absurd hparam (not_isParameter_of_isAlpha hletter)
          | cons first params =>
              cases heq
              exact ⟨params, letter, rfl, (List.forall_mem_cons.mp hparams).2, hletter⟩
      · have hcond : ¬ (c = ';' || c = '?' || c.isDigit) = true := by
          simpa [IsParameter, or_assoc] using hparam
        rw [if_neg hcond]
        constructor
        · intro h
          split at h
          · rename_i hletter
            cases h
            exact ⟨[], c, rfl, nofun, hletter⟩
          · cases h
        · rintro ⟨params, letter, heq, hparams, hletter⟩
          cases params with
          | nil =>
              cases heq
              rw [if_pos hletter]
          | cons first params =>
              cases heq
              exact absurd (hparams c List.mem_cons_self) hparam

theorem hasSequence_cons_iff : HasSequence (c :: cs) ↔
    (∃ cs' rest, c = '\x1b' ∧ cs = '[' :: cs' ∧ afterSequence? cs' = some rest) ∨
      HasSequence cs := by
  constructor
  · rintro ⟨before, params, letter, after, heq, hparams, hletter⟩
    cases before with
    | nil =>
        cases heq
        exact Or.inl ⟨_, after, rfl, rfl,
          afterSequence?_eq_some_iff.mpr ⟨params, letter, rfl, hparams, hletter⟩⟩
    | cons first before =>
        cases heq
        exact Or.inr ⟨before, params, letter, after, rfl, hparams, hletter⟩
  · rintro (⟨cs', rest, rfl, rfl, hafter⟩ | ⟨before, params, letter, after, rfl, hrest⟩)
    · obtain ⟨params, letter, rfl, hparams, hletter⟩ := afterSequence?_eq_some_iff.mp hafter
      exact ⟨[], params, letter, rest, rfl, hparams, hletter⟩
    · exact ⟨c :: before, params, letter, after, rfl, hrest⟩

theorem plainFrom_of_not_hasSequence (fuel : Nat) (h : ¬ HasSequence cs) :
    plainFrom fuel cs = cs := by
  fun_induction plainFrom fuel cs with
  | case1 | case2 => rfl
  | case3 fuel cs rest hafter ih =>
      exact absurd (hasSequence_cons_iff.mpr (Or.inl ⟨cs, rest, rfl, rfl, hafter⟩)) h
  | case4 fuel cs hafter ih =>
      rw [ih fun htail => h (hasSequence_cons_iff.mpr (Or.inr htail))]
  | case5 fuel c cs hno ih =>
      rw [ih fun htail => h (hasSequence_cons_iff.mpr (Or.inr htail))]

theorem length_plainFrom_le (fuel : Nat) (cs : List Char) :
    (plainFrom fuel cs).length ≤ cs.length := by
  fun_induction plainFrom fuel cs with
  | case1 | case2 => exact Nat.le_refl _
  | case3 fuel cs rest hafter ih =>
      obtain ⟨params, letter, rfl, -, -⟩ := afterSequence?_eq_some_iff.mp hafter
      simp only [List.length_cons, List.length_append]
      omega
  | case4 fuel cs hafter ih => simpa using ih
  | case5 fuel c cs hno ih => simpa using ih

theorem length_plainFrom_lt {fuel : Nat} (hfuel : cs.length ≤ fuel) (h : HasSequence cs) :
    (plainFrom fuel cs).length < cs.length := by
  fun_induction plainFrom fuel cs with
  | case1 cs =>
      obtain ⟨before, params, letter, after, rfl, -⟩ := h
      simp at hfuel
  | case2 fuel =>
      obtain ⟨before, params, letter, after, heq, -⟩ := h
      cases before <;> cases heq
  | case3 fuel cs rest hafter ih =>
      obtain ⟨params, letter, rfl, -, -⟩ := afterSequence?_eq_some_iff.mp hafter
      have hle := length_plainFrom_le fuel rest
      simp only [List.length_cons, List.length_append]
      omega
  | case4 fuel cs hafter ih =>
      rcases hasSequence_cons_iff.mp h with ⟨cs', rest, -, heq, hsome⟩ | htail
      · cases heq
        cases hafter.symm.trans hsome
      · exact Nat.succ_lt_succ (ih (Nat.le_of_succ_le_succ hfuel) htail)
  | case5 fuel c cs hno ih =>
      rcases hasSequence_cons_iff.mp h with ⟨cs', rest, hc, heq, -⟩ | htail
      · exact absurd heq (hno cs' hc)
      · exact Nat.succ_lt_succ (ih (Nat.le_of_succ_le_succ hfuel) htail)

/-- A text is printed as it is exactly if no terminal sequence stands in it. -/
theorem plain_eq_self_iff : plain cs = cs ↔ ¬ HasSequence cs := by
  refine ⟨fun heq h => ?_, plainFrom_of_not_hasSequence cs.length⟩
  have hlt := length_plainFrom_lt (Nat.le_refl _) h
  rw [← plain, heq] at hlt
  exact Nat.lt_irrefl _ hlt

end Command

/-! ## Room for a temporary file -/

theorem padded_injective (width : Nat) : Function.Injective (padded width) := fun m n h => by
  have hvalue : ∀ n, Nat.ofDigitChars 10 (padded width n).toList 0 = n := fun n => by
    rw [padded, String.toList_ofList, Nat.ofDigitChars_append, Nat.ofDigitChars_replicate_zero,
      Nat.mul_zero, Nat.ofDigitChars_ten_toDigits]
  rw [← hvalue m, h, hvalue n]

namespace Files

variable {s : Disk} {fault : Option Fault} {path : Path} {f : File}

theorem Tree.exists_free (t : Tree) {place : Nat → Place} (hplace : Function.Injective place)
    (hne : ∀ n, place n ≠ []) :
    ∃ n ∈ List.range (t.entries.length + 1), (t.get? (place n)).isNone = true := by
  refine Classical.byContradiction fun hnone => ?_
  have hsubset : (List.range (t.entries.length + 1)).map place ⊆ t.entries.map (·.1) := by
    intro q hq
    obtain ⟨n, hn, rfl⟩ := List.mem_map.mp hq
    cases hat : t.get? (place n) with
    | none => exact absurd ⟨n, hn, by rw [hat]; rfl⟩ hnone
    | some node =>
        have hlookup : t.entries.lookup (place n) = some node := by
          rw [← hat, Tree.get?]
          exact hne n
        obtain ⟨before, after, heq, -⟩ := List.lookup_eq_some_iff.mp hlookup
        rw [heq]
        simp
  have hnodup : ((List.range (t.entries.length + 1)).map place).Nodup :=
    List.nodup_range.map hplace
  have hlength := (List.subperm_of_subset hnodup hsubset).length_le
  simp only [List.length_map, List.length_range] at hlength
  omega

/-- The canonical location of a file is come to in one leg. -/
theorem Disk.Locates.leg (h : s.Locates path f) : path.Fits ∧
    s.tree.leg true [] path.parts = .arrives path.parts (.file f) := by
  have hplain : path.Plain := fun n hn => ⟨(h.named n hn).1, (h.named n hn).2.1⟩
  have hstart : path.start s.cwd = [] := by
    rw [Path.start, h.absolute, if_neg (by decide)]
  obtain ⟨hfits, hwalk⟩ := (Tree.look_text_eq_ok hplain).mp h.leads
  rw [hstart] at hwalk
  exact ⟨hfits, Tree.leg_of_walk hwalk fun _ _ _ => Tree.leg_ne_follows h.named h.direct⟩

theorem Disk.Locates.leg_parent (h : s.Locates path f) : ∃ before last, IsName last ∧
    path = ⟨.slash, before ++ [last]⟩ ∧ s.tree.leg true [] before = .arrives before .directory := by
  obtain ⟨-, hleg⟩ := h.leg
  have hnamed := h.named
  obtain ⟨root, parts⟩ := path
  obtain rfl : root = .slash := h.absolute
  rcases List.eq_nil_or_concat parts with rfl | ⟨before, last, rfl⟩
  · cases hleg
  · rw [List.concat_eq_append] at *
    have hbefore := fun n hn => hnamed n (List.mem_append_left _ hn)
    have hdir := Tree.leg_of_append (fun n hn => (hbefore n hn).1) hleg (List.cons_ne_nil last [])
    rw [along_of_names (fun hmem => (hbefore _ hmem).2.2 rfl), List.nil_append] at hdir
    exact ⟨before, last, hnamed last (List.mem_append_right _ (List.mem_singleton_self last)), rfl,
      hdir⟩

/-- What stands at a place, or that nothing does. -/
def Tree.spot (t : Tree) (place : Place) : Spot :=
  match t.get? place with
  | none => .free place
  | some node => .taken place node

theorem Tree.find_below {t : Tree} {cwd dir : Place} {name : String} {spot : Spot}
    (hdir : t.leg true [] dir = .arrives dir .directory) (hnamed : ∀ n ∈ dir, IsName n)
    (hname : IsName name) :
    t.find false cwd (Path.mk .slash (dir ++ [name])).text = .ok spot ↔
      (Path.mk .slash (dir ++ [name])).Fits ∧ name.utf8ByteSize ≤ longestName ∧
        spot = t.spot (dir ++ [name]) := by
  have hdirPlain : (Path.mk .slash dir).Plain := fun n hn => ⟨(hnamed n hn).1, (hnamed n hn).2.1⟩
  have hplain : (Path.mk .slash (dir ++ [name])).Plain :=
    Path.Plain.child hdirPlain ⟨hname.1, hname.2.1⟩
  have hleg : t.leg false [] (dir ++ [name]) = t.leg false dir [name] := Tree.leg_append hdir _
  have hstart : (Path.mk .slash (dir ++ [name])).start cwd = [] := rfl
  rw [Tree.find_text_eq_ok hplain, hstart, Tree.walk, hleg, Tree.leg_single hname.1 hname.2.2]
  by_cases hlong : longestName < name.utf8ByteSize
  · simp [hlong, Nat.not_le.mpr hlong]
  · rw [if_neg hlong, Tree.spot]
    cases t.get? (dir ++ [name]) <;> simp [Nat.not_lt.mp hlong, eq_comm]

namespace Guard

variable {g : Guard}

theorem toList_temporaryName_zero (g : Guard) : (g.temporaryName 0).toList =
    '.' :: (g.path.name.toList ++ ".00000000.tmp".toList) := by
  have hdigits : padded 8 0 = "00000000" := by decide +kernel
  simp [temporaryName, hdigits]

theorem isName_temporaryName (h : IsName g.path.name) : IsName (g.temporaryName 0) := by
  have hlong : ∀ text : String, text.toList.length < 14 → g.temporaryName 0 ≠ text := by
    rintro _ hshort rfl
    rw [toList_temporaryName_zero] at hshort
    simp only [List.length_cons, List.length_append] at hshort
    have hsuffix : ".00000000.tmp".toList.length = 13 := by decide
    omega
  refine ⟨?_, ?_, hlong ".." (by decide)⟩
  · simp [isPart, hlong "" (by decide), hlong "." (by decide)]
  · rw [toList_temporaryName_zero, List.mem_cons, List.mem_append]
    rintro (heq | hmem | hmem)
    · cases heq
    · exact h.2.1 hmem
    · exact absurd hmem (by decide)

/-- There is room for a temporary file beside the document: its name is not too long, nor is its
path. -/
structure HasRoom (g : Guard) : Prop where
  name : (g.temporaryName 0).utf8ByteSize ≤ longestName
  path : (g.path.parent.child (g.temporaryName 0)).text.utf8ByteSize < pathLimit

theorem exists_temporaryName (g : Guard) (t : Tree) (dir : Place) :
    ∃ n, (List.range (t.entries.length + 1)).find? (fun n =>
      (t.get? (dir ++ [g.temporaryName n])).isNone) = some n := by
  have hplaces : Function.Injective fun n => dir ++ [g.temporaryName n] := fun m n heq =>
    padded_injective 8 (by simpa [temporaryName] using heq)
  obtain ⟨n, hn, hnone⟩ := t.exists_free hplaces fun n =>
    List.append_ne_nil_of_right_ne_nil _ (List.cons_ne_nil _ _)
  exact Option.isSome_iff_exists.mp (List.find?_isSome.mpr ⟨n, hn, hnone⟩)

/-- There is a place for a temporary file if the first of its names is found, taken or free. -/
theorem temporaryPlace_iff_find {s : Disk} : (∃ place, g.temporaryPlace s = .ok place) ↔
    ∃ spot, s.tree.find false s.cwd
      ((g.path.parent.absolute s.cwd).child (g.temporaryName 0)).text = .ok spot := by
  simp only [temporaryPlace]
  cases s.tree.find false s.cwd
      ((g.path.parent.absolute s.cwd).child (g.temporaryName 0)).text with
  | error e => cases e <;> simp
  | ok spot =>
      cases spot with
      | taken place node | free place =>
          obtain ⟨n, hn⟩ := g.exists_temporaryName s.tree place.dropLast
          simp [hn]

theorem temporaryPlace_iff (h : s.Locates g.path f) :
    (∃ place, g.temporaryPlace s = .ok place) ↔ g.HasRoom := by
  obtain ⟨before, last, hlast, hpath, hdir⟩ := h.leg_parent
  have hname : IsName (g.temporaryName 0) :=
    isName_temporaryName (by rwa [hpath, Path.name, List.getLastD_concat])
  have hnamed : ∀ n ∈ before, IsName n := fun n hn =>
    h.named n (by rw [hpath]; exact List.mem_append_left _ hn)
  have hparent : g.path.parent = ⟨.slash, before⟩ := by
    rw [hpath, Path.parent, List.dropLast_concat]
  -- the directory has no `..` in it, so it is absolute already
  have habsolute : g.path.parent.absolute s.cwd = ⟨.slash, before⟩ := by
    rw [hparent]
    exact congrArg (Path.mk .slash)
      (along_of_names (fun hmem => (hnamed _ hmem).2.2 rfl) [])
  have hnull : '\x00' ∉ (Path.mk .slash (before ++ [g.temporaryName 0])).text.toList := by
    have hpathNull : ∀ n ∈ before ++ [last], '\x00' ∉ n.toList := fun n hn =>
      h.leg.1.null_not_mem (by rwa [hpath])
    refine Path.null_not_mem_text fun n hn => ?_
    rcases List.mem_append.mp hn with hn | hn
    · exact hpathNull n (List.mem_append_left _ hn)
    · rw [List.mem_singleton.mp hn, toList_temporaryName_zero, hpath, Path.name,
        List.getLastD_concat, List.mem_cons, List.mem_append]
      rintro (heq | hmem | hmem)
      · cases heq
      · exact hpathNull last (List.mem_append_right _ (List.mem_singleton_self last)) hmem
      · exact absurd hmem (by decide)
  rw [temporaryPlace_iff_find, habsolute]
  simp only [Path.child, Tree.find_below hdir hnamed hname]
  constructor
  · rintro ⟨spot, hfits, hshort, -⟩
    exact ⟨hshort, by rw [hparent]; exact hfits.2⟩
  · rintro ⟨hshort, hfit⟩
    rw [hparent] at hfit
    exact ⟨_, ⟨hnull, hfit⟩, hshort, rfl⟩

/-- A temporary file is opened beside a document if such files can be opened at all and there is room
for it. -/
theorem openTemporary_iff (h : s.Locates g.path f) :
    (∃ opened, g.openTemporary s fault = .ok opened) ↔
      failure? fault .openTemporary = none ∧ g.HasRoom := by
  rw [← temporaryPlace_iff h]
  unfold openTemporary
  cases failure? fault .openTemporary with
  | some e => exact ⟨nofun, nofun⟩
  | none =>
      cases g.temporaryPlace s with
      | error e => exact ⟨nofun, nofun⟩
      | ok place => exact ⟨fun _ => ⟨rfl, place, rfl⟩, fun _ => ⟨_, rfl⟩⟩

end Guard

end Files

/-! ## Two command lines -/

namespace Command

open Files

/-- The options without the one to put the result in the place of the document. -/
def withoutInPlace (given : List Given) : List Given :=
  given.filter (· ≠ .switched .inPlace true)

/-- Two command lines ask for the same, the second one with the result in the place of the
document. -/
structure SameInPlace (words words' : List String) (given given' : List Given)
    (rest : List String) : Prop where
  printing : read words = .ok (given, rest)
  replacing : read words' = .ok (given', rest)
  same : given = withoutInPlace given'
  inPlace : switch? .inPlace given' = some true

variable {s : Disk} {fault : Option Fault} {env : Environment} {given given' : List Given}
  {words words' rest : List String} {p : Plan} {c : Converted}

theorem findSome?_withoutInPlace {α : Type} {f : Given → Option α} (given : List Given)
    (h : f (.switched .inPlace true) = none) :
    (withoutInPlace given).findSome? f = given.findSome? f := by
  induction given with
  | nil => rfl
  | cons g given ih =>
      by_cases hg : g = .switched .inPlace true
      · rw [withoutInPlace, List.filter_cons_of_neg (by simpa using hg), ← withoutInPlace, ih,
          List.findSome?_cons, hg, h]
      · rw [withoutInPlace, List.filter_cons_of_pos (by simpa using hg), ← withoutInPlace,
          List.findSome?_cons, List.findSome?_cons, ih]

theorem reverse_withoutInPlace (given : List Given) :
    (withoutInPlace given).reverse = withoutInPlace given.reverse :=
  List.filter_reverse.symm

theorem switch?_withoutInPlace {q : Parameter} (h : q ≠ .inPlace) (given : List Given) :
    switch? q (withoutInPlace given) = switch? q given := by
  rw [switch?, reverse_withoutInPlace]
  exact findSome?_withoutInPlace _ (if_neg h)

theorem value?_withoutInPlace (q : Parameter) (given : List Given) :
    value? q (withoutInPlace given) = value? q given := by
  rw [value?, reverse_withoutInPlace]
  exact findSome?_withoutInPlace _ rfl

theorem not_inPlace_withoutInPlace (given : List Given) :
    switch? .inPlace (withoutInPlace given) ≠ some true := fun h => by
  obtain ⟨g, hmem, hg⟩ := List.exists_of_findSome?_eq_some h
  have hne : g ≠ .switched .inPlace true := by
    simpa using (List.mem_filter.mp (List.mem_reverse.mp hmem)).2
  split at hg
  · split at hg
    · rename_i heq
      cases hg
      exact hne (heq ▸ rfl)
    · cases hg
  · cases hg

theorem early?_withoutInPlace (given : List Given) :
    early? (withoutInPlace given) = early? given :=
  findSome?_withoutInPlace given rfl

theorem stageOf_withoutInPlace (given : List Given) :
    stageOf (withoutInPlace given) = stageOf given := by
  rw [stageOf, value?_withoutInPlace, ← stageOf]

theorem read_inPlace_cons (words : List String) : read ("--in-place" :: words) =
    (read words).map fun (given, rest) => (.switched .inPlace true :: given, rest) := by
  have hdashes : "--in-place" ≠ "--" := by decide
  have hoption : isOption "--in-place" = true := by decide +kernel
  have hform : longForm "--in-place" = ("--in-place", none) := by decide +kernel
  have hlookup : longOptions.lookup "--in-place" = some (.inPlace, .switch true) := by
    decide +kernel
  rw [read.eq_def]
  simp only [hdashes, hoption, hform, hlookup, Bool.not_true, Bool.false_eq_true, if_false]

theorem sameInPlace_cons (hread : read words = .ok (given, rest))
    (hno : ∀ on, .switched .inPlace on ∉ given) :
    SameInPlace words ("--in-place" :: words) given (.switched .inPlace true :: given) rest where
  printing := hread
  replacing := by
    rw [read_inPlace_cons, hread]
    rfl
  same := by
    rw [withoutInPlace, List.filter_cons_of_neg (by simp), List.filter_eq_self.mpr]
    intro g hg
    exact decide_eq_true fun heq => hno true (heq ▸ hg)
  inPlace := by
    have hnone : switch? .inPlace given = none :=
      List.findSome?_eq_none_iff.mpr fun g hg => by
        split
        · split
          · rename_i heq
            exact absurd (heq ▸ List.mem_reverse.mp hg) (hno _)
          · rfl
        · rfl
    rw [switch?, List.reverse_cons, List.findSome?_append, ← switch?, hnone]
    rfl

theorem plan_withoutInPlace (s : Disk) (fault : Option Fault) (env : Environment)
    (given : List Given) (rest : List String) :
    plan s fault env (withoutInPlace given) rest = plan s fault env given rest := by
  have hwrong : wrongChoice? (withoutInPlace given) = wrongChoice? given := by
    simp only [wrongChoice?, value?_withoutInPlace]
    exact findSome?_withoutInPlace given rfl
  have hargument : argumentOf s fault (withoutInPlace given) rest =
      argumentOf s fault given rest := by
    unfold argumentOf
    rw [hwrong]
  have hswitch : ∀ q, q ≠ .inPlace → switch? q (withoutInPlace given) = switch? q given :=
    fun q hq => switch?_withoutInPlace hq given
  have hlevel : logLevel (withoutInPlace given) env = logLevel given env := by
    rw [logLevel, logLevel, hswitch .debug (by decide), hswitch .verbose (by decide)]
  have hoverrides : overrides (withoutInPlace given) = overrides given := by
    simp only [overrides, switchValue, value?_withoutInPlace, hswitch .shortcodes (by decide),
      hswitch .mathLabels (by decide)]
  rw [plan, plan, hargument, hlevel, hoverrides]

theorem stdout_outcome (f : Failure) (before : List Char) : (f.outcome before).stdout = [] := by
  unfold Failure.outcome
  cases f.telling <;> rfl

theorem exitCode_putBack_iff (s : Disk) (fault : Option Fault) (level : Log.Level)
    (c : Converted) : (putBack s fault level c).1.exitCode = 0 ↔
      (c.guard.replace s fault c.text).1.isOk = true := by
  unfold putBack
  cases hreplace : c.guard.replace s fault c.text with
  | mk result after =>
      cases result with
      | error e => exact ⟨fun h => absurd h (Failure.exitCode_outcome_ne _ _), nofun⟩
      | ok refused => exact ⟨fun _ => rfl, fun _ => rfl⟩

theorem stdout_putBack (s : Disk) (fault : Option Fault) (level : Log.Level) (c : Converted) :
    (putBack s fault level c).1.stdout = [] := by
  unfold putBack
  cases hreplace : c.guard.replace s fault c.text with
  | mk result after =>
      cases result with
      | error e => exact stdout_outcome _ _
      | ok refused => rfl

/-! ## Two runs -/

theorem run_of_printing (hread : read words = .ok (given, rest)) (hearly : early? given = none)
    (hnot : switch? .inPlace given ≠ some true) (hexit : (run s fault env words).1.exitCode = 0) :
    ∃ p c, plan s fault env given rest = .ok p ∧
      ({ path := p.path, maxSize := p.maxSize } : Guard).convert s fault (stageOf given)
        p.settings none = .ok c ∧
      run s fault env words =
        ({ exitCode := 0, stdout := plain c.text, stderr := logLines p.level c.log }, s) := by
  unfold run at hexit ⊢
  rw [hread] at hexit ⊢
  simp only [hearly] at hexit ⊢
  cases hplan : plan s fault env given rest with
  | error f =>
      rw [hplan] at hexit
      exact absurd hexit (Failure.exitCode_outcome_ne f [])
  | ok p =>
      rw [hplan] at hexit
      simp only [Plan.carryOut] at hexit ⊢
      cases hconvert : ({ path := p.path, maxSize := p.maxSize } : Guard).convert s fault
          (stageOf given) p.settings none with
      | error e =>
          rw [hconvert] at hexit
          exact absurd hexit (Failure.exitCode_outcome_ne _ [])
      | ok c => exact ⟨p, c, rfl, hconvert, if_neg hnot⟩

theorem run_of_replacing (hread : read words = .ok (given, rest)) (hearly : early? given = none)
    (hplace : switch? .inPlace given = some true) (hplan : plan s fault env given rest = .ok p)
    (hconvert : ({ path := p.path, maxSize := p.maxSize } : Guard).convert s fault (stageOf given)
      p.settings none = .ok c) :
    run s fault env words = putBack s fault p.level c := by
  simp only [run, hread, hearly, hplan, Plan.carryOut, hconvert, hplace, if_true]

/-- A document that was converted is put back if no call fails on the way and there is room for the
temporary file. -/
theorem replace_isOk_of_convert {f : File}
    (hconvert : ({ path := p.path, maxSize := p.maxSize } : Guard).convert s fault (stageOf given)
      p.settings none = .ok c) (hlocates : s.Locates p.path f) :
    (c.guard.replace s fault c.text).1.isOk = true ↔
      ¬ Fault.Stops fault ∧ failure? fault (.look .replacing p.path.text) = none ∧
        failure? fault .openTemporary = none ∧ Guard.HasRoom { path := p.path } := by
  obtain ⟨hguard, seen, hdocument, hsnapshot⟩ := guard_of_convert hconvert
  have hpath : c.guard.path = p.path := hguard
  have hroom : c.guard.HasRoom ↔ Guard.HasRoom { path := p.path } := by
    have hname : c.guard.temporaryName 0 = Guard.temporaryName { path := p.path } 0 := by
      rw [Guard.temporaryName, Guard.temporaryName, hpath]
    exact ⟨fun ⟨hshort, hfit⟩ => ⟨hname ▸ hshort, hname ▸ hpath ▸ hfit⟩,
      fun ⟨hshort, hfit⟩ => ⟨hname ▸ hshort, hname ▸ hpath ▸ hfit⟩⟩
  rw [Guard.replace_isOk_iff_proceeds hsnapshot, ← hroom, ← hpath]
  rw [← hpath] at hlocates
  rw [← hguard] at hdocument
  constructor
  · intro h
    exact ⟨h.goesOn, h.looks, (Guard.openTemporary_iff hlocates).mp h.opens⟩
  · rintro ⟨hstops, hlooks, hopens⟩
    exact ⟨⟨seen, hdocument, rfl⟩, hlooks, (Guard.openTemporary_iff hlocates).mpr hopens, hstops⟩

/-- **What is printed is what would be written, but for terminal sequences.**  Let a run without the
option for the place come out well.  If it ends before it looks at anything, then the run with the
option is the same.  Otherwise the first run prints what a conversion of the document gives, without
its terminal sequences, and changes nothing.  The second one prints nothing; it comes out well
unless a call of the replacement fails or there is no room for the temporary file, and else the tree
is as it was.
Where it comes out well it changes the document alone, which holds the text of the conversion, and
that is the text that the first run prints exactly if no terminal sequence stands in it. -/
theorem printed_as_written_iff (hs : s.Grounded)
    (h : SameInPlace words words' given given' rest)
    (hexit : (run s fault env words).1.exitCode = 0) :
    (early? given ≠ none →
      run s fault env words' = run s fault env words ∧ (run s fault env words).2 = s) ∧
    (early? given = none → ∃ argument path settings text, rest = [argument] ∧
      documentPath s none env.homes argument ⟨.slash, s.cwd⟩ = .ok path ∧
      Settings.build s fault path.parent (overrides given) = .ok settings ∧
      (Fault.ByKind fault ∨ Settings.Spares s fault path.parent →
        Settings.build s none path.parent (overrides given) = .ok settings) ∧
      convertFile s none env.sizeLimit path (stageOf given) settings none = .ok text ∧
      (run s fault env words).1.stdout = plain text ∧ (run s fault env words).2 = s ∧
      (run s fault env words').1.stdout = [] ∧
      ((run s fault env words').1.exitCode = 0 ↔ ¬ Fault.Stops fault ∧
        failure? fault (.look .replacing path.text) = none ∧
        failure? fault .openTemporary = none ∧ Guard.HasRoom { path }) ∧
      ((run s fault env words').1.exitCode ≠ 0 → (run s fault env words').2.tree = s.tree) ∧
      ((run s fault env words').1.exitCode = 0 → ∃ old new,
        s.tree.get? path.parts = some (.file old) ∧
        (run s fault env words').2.tree.get? path.parts = some (.file new) ∧
        new.bytes = Text.Utf8.encode text ∧
        (Text.Utf8.decode new.bytes = .ok (run s fault env words).1.stdout ↔
          ¬ HasSequence text) ∧
        ∀ q, q ≠ path.parts → (run s fault env words').2.tree.get? q = s.tree.get? q)) := by
  obtain ⟨hread, hread', rfl, hplace⟩ := h
  refine ⟨fun hearly => ?_, fun hearly => ?_⟩
  · obtain ⟨outcome, houtcome⟩ := Option.ne_none_iff_exists'.mp hearly
    have houtcome' := houtcome
    rw [early?_withoutInPlace] at houtcome'
    simp only [run, hread, hread', houtcome, houtcome', and_self]
  · have hearly' := hearly
    rw [early?_withoutInPlace] at hearly'
    obtain ⟨p, c, hplan, hconvert, hrun⟩ :=
      run_of_printing hread hearly (not_inPlace_withoutInPlace given') hexit
    obtain ⟨argument, hrest, hpath, hsettings, hnone, htext⟩ := found_of_convert hplan hconvert
    obtain ⟨q, hexpand⟩ := expand_of_documentPath hpath
    obtain ⟨f, hlocates, -⟩ := documentPath_locates hs hexpand hpath
    -- from here on the second run is compared, which has the same plan and the same conversion
    have hplan' := hplan
    rw [plan_withoutInPlace] at hplan'
    have hconvert' := hconvert
    rw [stageOf_withoutInPlace] at hconvert'
    have hrun' : run s fault env words' = putBack s fault p.level c :=
      run_of_replacing hread' hearly' hplace hplan' hconvert'
    refine ⟨argument, p.path, p.settings, c.text, hrest, hpath, hsettings, hnone, htext,
      by rw [hrun], by rw [hrun], by rw [hrun', stdout_putBack], ?_, fun hfails => ?_,
      fun hwell => ?_⟩
    · rw [hrun', exitCode_putBack_iff, replace_isOk_of_convert hconvert hlocates]
    · rcases run_cases s fault env words' with ⟨htree, -⟩ | ⟨_, _, _, _, -, -, hwell, -⟩
      · exact htree
      · exact absurd hwell hfails
    · rcases run_cases s fault env words' with
        ⟨-, hno⟩ | ⟨given₂, rest₂, p₂, c₂, hread₂, -, -, hreplaces⟩
      · exact absurd hwell (hno given' rest hread' hearly' hplace)
      · cases hread'.symm.trans hread₂
        cases hplan'.symm.trans hreplaces.planned
        cases hconvert'.symm.trans hreplaces.converted
        obtain ⟨new, hold, hnew, hbytes, -, hothers⟩ := hreplaces.written hlocates
        refine ⟨f, new, hold, hnew, hbytes, ?_, hothers⟩
        rw [hrun, ← plain_eq_self_iff, hbytes, Text.Utf8.decode_eq_ok_iff.mpr rfl,
          Except.ok.injEq, eq_comm]

/-- A document with a word in red. -/
def redText : List Char :=
  "\x1b[31mred\x1b[0m\n".toList

/-- A root directory with that document. -/
def redDisk : Disk :=
  { tree := ⟨[(["doc.md"], .file ⟨1, 0o644, 0, Text.Utf8.encode redText⟩)]⟩
    nextInode := 2 }

theorem redDisk_sameInPlace :
    SameInPlace ["doc.md"] ["--in-place", "doc.md"] [] [.switched .inPlace true] ["doc.md"] :=
  sameInPlace_cons (by decide +kernel) fun _ => List.not_mem_nil

theorem redDisk_printed :
    redDisk.Grounded ∧
      SameInPlace ["doc.md"] ["--in-place", "doc.md"] [] [.switched .inPlace true] ["doc.md"] ∧
      (run redDisk none { homes := ⟨"/", []⟩ } ["doc.md"]).1.exitCode = 0 ∧
      early? [] = none ∧
      ∃ path text, documentPath redDisk none ⟨"/", []⟩ "doc.md" ⟨.slash, []⟩ = .ok path ∧
        (run redDisk none { homes := ⟨"/", []⟩ } ["doc.md"]).1.stdout = plain text ∧
        ∃ new, (run redDisk none { homes := ⟨"/", []⟩ } ["--in-place", "doc.md"]).2.tree.get?
            path.parts = some (.file new) ∧
          new.bytes = Text.Utf8.encode text := by
  have hs : redDisk.Grounded := ⟨fun _ hname => absurd hname List.not_mem_nil, rfl⟩
  have hexit : (run redDisk none { homes := ⟨"/", []⟩ } ["doc.md"]).1.exitCode = 0 := by
    decide +kernel
  have hexit' :
      (run redDisk none { homes := ⟨"/", []⟩ } ["--in-place", "doc.md"]).1.exitCode = 0 := by
    decide +kernel
  obtain ⟨argument, path, settings, text, hrest, hpath, -, -, -, hprinted, -, -, -, -, hwritten⟩ :=
    (printed_as_written_iff hs redDisk_sameInPlace hexit).2 rfl
  cases hrest
  obtain ⟨old, new, -, hnew, hbytes, -⟩ := hwritten hexit'
  exact ⟨hs, redDisk_sameInPlace, hexit, rfl, path, text, hpath, hprinted, new, hnew, hbytes⟩

/-- The word is printed without its colour, and written with it. -/
theorem redText_printed_plain :
    SameInPlace ["doc.md"] ["--in-place", "doc.md"] [] [.switched .inPlace true] ["doc.md"] ∧
      (run redDisk none { homes := ⟨"/", []⟩ } ["doc.md"]).1.exitCode = 0 ∧
      (run redDisk none { homes := ⟨"/", []⟩ } ["doc.md"]).1.stdout = "red\n".toList ∧
      (run redDisk none { homes := ⟨"/", []⟩ } ["--in-place", "doc.md"]).1.exitCode = 0 ∧
      ((run redDisk none { homes := ⟨"/", []⟩ } ["--in-place", "doc.md"]).2.document
        ⟨.slash, ["doc.md"]⟩).map (·.bytes) = some (Text.Utf8.encode redText) :=
  ⟨redDisk_sameInPlace, by decide +kernel, by decide +kernel, by decide +kernel, by decide +kernel⟩

end Command

end DirectiveFences
