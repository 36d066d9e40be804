/-
Settings in layers: overrides before the nearest source, and that before the defaults.

What stands at the first place of a search is the one source, whether it is any good or not.
The fields are then settled one by one: a later layer does not see the earlier ones (`layer`),
except that a toggle that no layer gives is taken from the profile of the dialect, and that is
the dialect of all layers together.
-/
import DirectiveFences.Proofs.SettingsSearch
import DirectiveFences.Proofs.ValidSettings

namespace DirectiveFences.Settings

open Files

/-! ## Layers -/

/-- What entries give for a field: the last of those whose key is one of its. -/
def valueIn? (fieldOf : String → Option Field) (entries : List (String × Value)) (f : Field) :
    Option Value :=
  ((entries.filter fun e => fieldOf e.1 = some f).getLast?).map (·.2)

/-- The overrides that say something. -/
def Overrides.given (overrides : Overrides) : Overrides :=
  overrides.filter (·.2.given?.isSome)

/-- The value of a field: what overrides give for it, or else what a source gives, or else the
default. -/
def layer (overrides : Overrides) (source : Table) (f : Field) : Value :=
  (valueIn? Field.ofName? overrides.given f).getD
    ((valueIn? Field.ofKey? source f).getD (({} : Settings).get f))

/-- The settings that have all layers, before toggles are taken from the profile. -/
def layered (overrides : Overrides) (source : Table) : Settings where
  dialect := layer overrides source .dialect
  shortcodes := layer overrides source .shortcodes
  mathLabels := layer overrides source .mathLabels
  maxSize := layer overrides source .maxSize

/-- Settings have all layers, and the toggles that none of them gives from the profile of their
dialect. -/
structure Layered (overrides : Overrides) (source : Table) (s : Settings) : Prop where
  dialect : s.dialect = layer overrides source .dialect
  maxSize : s.maxSize = layer overrides source .maxSize
  shortcodes : ∃ p, profile? s.dialect = some p ∧
    s.shortcodes = (layer overrides source .shortcodes).given?.getD (.bool p.shortcodes)
  mathLabels : ∃ p, profile? s.dialect = some p ∧
    s.mathLabels = (layer overrides source .mathLabels).given?.getD (.bool p.mathLabels)

variable {s s' : Settings} {overrides : Overrides}

theorem get_layered (overrides : Overrides) (source : Table) (f : Field) :
    (layered overrides source).get f = layer overrides source f := by
  cases f <;> rfl

theorem eq_of_get (h : ∀ f, s.get f = s'.get f) : s = s' := by
  obtain ⟨d, m, c, z⟩ := s
  obtain ⟨d', m', c', z'⟩ := s'
  cases h .dialect
  cases h .shortcodes
  cases h .mathLabels
  cases h .maxSize
  rfl

theorem valueIn?_cons (fieldOf : String → Option Field) (e : String × Value)
    (entries : List (String × Value)) (f : Field) (v : Value) :
    (valueIn? fieldOf (e :: entries) f).getD v =
      (valueIn? fieldOf entries f).getD (if fieldOf e.1 = some f then e.2 else v) := by
  unfold valueIn?
  by_cases hfield : fieldOf e.1 = some f
  · rw [List.filter_cons_of_pos (by simpa using hfield), if_pos hfield, List.getLast?_cons]
    cases (entries.filter fun e => fieldOf e.1 = some f).getLast? <;> rfl
  · rw [List.filter_cons_of_neg (by simpa using hfield), if_neg hfield]

/-- Settings with all values of entries put one after the other. -/
def setAll (fieldOf : String → Option Field) (entries : List (String × Value)) (s : Settings) :
    Settings :=
  entries.foldl (fun s e => ((fieldOf e.1).map fun f => s.set f e.2).getD s) s

/-- What is put last counts. -/
theorem get_setAll (fieldOf : String → Option Field) (entries : List (String × Value))
    (s : Settings) (f : Field) :
    (setAll fieldOf entries s).get f = (valueIn? fieldOf entries f).getD (s.get f) := by
  induction entries generalizing s with
  | nil => rfl
  | cons e entries ih =>
      rw [setAll, List.foldl_cons, ← setAll, ih, valueIn?_cons]
      congr 1
      cases fieldOf e.1 with
      | none => rfl
      | some g => simp only [Option.map_some, Option.getD_some, get_set, Option.some.injEq, eq_comm]

theorem ofTable?_eq (t : Table) :
    ofTable? t =
      if ∀ e ∈ t, (Field.ofKey? e.1).isSome then some (setAll Field.ofKey? t {}) else none := by
  have hfold : ∀ (entries : Table) (s : Settings),
      entries.foldlM (fun s e => (Field.ofKey? e.1).map fun f => s.set f e.2) s =
        if ∀ e ∈ entries, (Field.ofKey? e.1).isSome then some (setAll Field.ofKey? entries s)
        else none := by
    intro entries
    induction entries with
    | nil => exact fun s => (if_pos fun _ he => absurd he List.not_mem_nil).symm
    | cons e entries ih =>
        intro s
        rw [List.foldlM_cons]
        cases hfield : Field.ofKey? e.1 with
        | none =>
            rw [if_neg]
            · rfl
            · exact fun hall => nomatch hfield ▸ hall e List.mem_cons_self
        | some f =>
            have hset : setAll Field.ofKey? (e :: entries) s =
                setAll Field.ofKey? entries (s.set f e.2) := by
              rw [setAll, List.foldl_cons, hfield]
              rfl
            simp only [hset, hfield, List.forall_mem_cons, Option.isSome_some, true_and]
            exact ih (s.set f e.2)
  exact hfold t {}

theorem override_eq_ok (h : ∀ e ∈ overrides, (Field.ofName? e.1).isSome) (s : Settings) :
    s.override overrides = .ok (setAll Field.ofName? overrides.given s) := by
  have hset : ∀ (e : String × Value) (s : Settings), (Field.ofName? e.1).isSome →
      s.setNamed e = .ok (((Field.ofName? e.1).map fun f => s.set f e.2).getD s) := by
    intro e s hfield
    obtain ⟨f, hf⟩ := Option.isSome_iff_exists.mp hfield
    have hself : e.1 ≠ "self" := fun heq => by
      have hnone : Field.ofName? "self" = none := by decide
      rw [heq, hnone] at hf
      cases hf
    rw [setNamed, if_neg hself, hf]
    rfl
  have hfold : ∀ (entries : Overrides) (s : Settings),
      (∀ e ∈ entries, (Field.ofName? e.1).isSome) →
      entries.foldlM setNamed s = .ok (setAll Field.ofName? entries s) := by
    intro entries
    induction entries with
    | nil => exact fun s _ => rfl
    | cons e entries ih =>
        intro s hfields
        rw [List.forall_mem_cons] at hfields
        rw [List.foldlM_cons, hset e s hfields.1]
        exact ih _ hfields.2
  have htaken : overrides.findSome? (takenByOverride ·.1) = none := by
    refine List.findSome?_eq_none_iff.mpr fun e he => ?_
    have hconfig : e.1 ≠ "config" := fun heq => by
      have hfield := h e he
      rw [heq] at hfield
      exact absurd hfield (by decide)
    rw [takenByOverride, if_neg hconfig]
  rw [override, htaken]
  exact hfold _ s fun e he => h e (List.mem_filter.mp he).1

theorem takenByBuild_eq_none (h : ∀ e ∈ overrides, (Field.ofName? e.1).isSome) :
    takenByBuild overrides = none := by
  unfold takenByBuild
  rw [if_neg]
  rw [List.any_eq_true]
  rintro ⟨e, he, heq⟩
  have hfield := h e he
  rw [eq_of_beq heq] at hfield
  exact absurd hfield (by decide)

theorem setAll_eq_layered (overrides : Overrides) (source : Table) :
    setAll Field.ofName? overrides.given (setAll Field.ofKey? source {}) =
      layered overrides source :=
  eq_of_get fun f => by
    rw [get_setAll, get_setAll, get_layered]
    rfl

theorem layered_resolved {source : Table} (h : (layered overrides source).Valid) :
    Layered overrides source (layered overrides source).resolved := by
  obtain ⟨p, hp⟩ : ∃ p, profile? (layered overrides source).dialect = some p := by
    rcases h.dialect with heq | heq <;> exact ⟨_, by rw [heq]; rfl⟩
  have hdialect : profile? (layered overrides source).resolved.dialect = some p := by
    rw [dialect_resolved, hp]
  refine ⟨dialect_resolved _, maxSize_resolved _, ⟨p, hdialect, ?_⟩, ⟨p, hdialect, ?_⟩⟩ <;>
  · rw [resolved, hp]
    rfl

/-! ## Settings from a source -/

variable {s : Disk} {fault : Option Fault}

/-- What a source gives: a table of fields; without a source, an empty one. -/
inductive Gives : Option ((String × List String) × Value) → Table → Prop
  | table (place : String × List String) (t : Table)
      (hkeys : ∀ e ∈ t, (Field.ofKey? e.1).isSome) : Gives (some (place, .table t)) t
  | nothing : Gives none []

theorem ofValue_cases (place : String × List String) (v : Value) :
    (∃ t, Gives (some (place, v)) t ∧
        ofValue place.1 place.2 v = .ok (setAll Field.ofKey? t {})) ∨
      (∀ t, ¬ Gives (some (place, v)) t) ∧
        ofValue place.1 place.2 v = .error (.refused (.invalidTable place.2 place.1)) := by
  cases v with
  | table t =>
      rw [ofValue, ofTable?_eq]
      by_cases hkeys : ∀ e ∈ t, (Field.ofKey? e.1).isSome
      · rw [if_pos hkeys]
        exact Or.inl ⟨t, .table place t hkeys, rfl⟩
      · rw [if_neg hkeys]
        refine Or.inr ⟨fun t' h => ?_, rfl⟩
        cases h
        exact hkeys ‹_›
  | null | bool | int | float | text | moment | array =>
      exact Or.inr ⟨fun t h => (by cases h), rfl⟩

theorem build_of_load_error {start : Path} {e : LoadError}
    (hfields : ∀ e ∈ overrides, (Field.ofName? e.1).isSome)
    (h : load s fault start = .error e) :
    build s fault start overrides = .error (.load e) := by
  simp only [build, takenByBuild_eq_none hfields, h]

theorem build_of_load {start : Path} {t : Table}
    (hfields : ∀ e ∈ overrides, (Field.ofName? e.1).isSome)
    (h : load s fault start = .ok (setAll Field.ofKey? t {})) :
    build s fault start overrides =
      match (layered overrides t).check with
      | .error e => .error (.refused e)
      | .ok () => .ok (layered overrides t).resolved := by
  cases hcheck : (layered overrides t).check <;>
    simp only [build, takenByBuild_eq_none hfields, h, override_eq_ok hfields, setAll_eq_layered,
      hcheck]

theorem build_of_gives {start : Path} {source : Option ((String × List String) × Value)} {t : Table}
    (hfields : ∀ e ∈ overrides, (Field.ofName? e.1).isSome) (hgives : Gives source t)
    (h : load s fault start = .ok (setAll Field.ofKey? t {})) :
    (∃ t result, Gives source t ∧ (layered overrides t).Valid ∧
        build s fault start overrides = .ok result ∧ Layered overrides t result ∧
        result.Complete) ∨
      ∃ t e, Gives source t ∧ ¬ (layered overrides t).Valid ∧
        build s fault start overrides = .error (.refused e) := by
  have hbuild := build_of_load hfields h
  by_cases hvalid : (layered overrides t).Valid
  · rw [check_eq_ok_iff.mpr hvalid] at hbuild
    exact Or.inl ⟨t, _, hgives, hvalid, hbuild, layered_resolved hvalid, hvalid.complete⟩
  · obtain ⟨e, he⟩ := check_of_not_valid hvalid
    rw [he] at hbuild
    exact Or.inr ⟨t, e, hgives, hvalid, hbuild⟩

/-- Over the one source of a search come the overrides. -/
theorem build_of_chosen {start : Path} {source : Option ((String × List String) × Value)}
    (hfields : ∀ e ∈ overrides, (Field.ofName? e.1).isSome)
    (hload : load s fault start = ofSource source) :
    (∃ t result, Gives source t ∧ (layered overrides t).Valid ∧
        build s fault start overrides = .ok result ∧ Layered overrides t result ∧
        result.Complete) ∨
      (∃ t e, Gives source t ∧ ¬ (layered overrides t).Valid ∧
        build s fault start overrides = .error (.refused e)) ∨
      (∀ t, ¬ Gives source t) ∧ ∃ path file, build s fault start overrides =
        .error (.load (.refused (.invalidTable path file))) := by
  cases source with
  | none => exact (build_of_gives hfields .nothing hload).imp_right Or.inl
  | some found =>
      obtain ⟨place, v⟩ := found
      rcases ofValue_cases place v with ⟨t, hgives, hvalue⟩ | ⟨hnot, hvalue⟩
      · exact (build_of_gives hfields hgives (hload.trans hvalue)).imp_right Or.inl
      · exact Or.inr (Or.inr ⟨hnot, place.2, place.1,
          build_of_load_error hfields (hload.trans hvalue)⟩)

theorem buildGiven_of_breaksOff {start : GivenPath} {e : GivenError LoadError}
    (hfields : ∀ e ∈ overrides, (Field.ofName? e.1).isSome) (h : BreaksOff s fault start e) :
    buildGiven s fault start overrides = .error (e.map .load) := by
  have hload := (loadGiven_of_breaksOff h).1
  rw [buildGiven, takenByBuild_eq_none hfields]
  cases start with
  | stray e' =>
      cases h
      rfl
  | path dir =>
      rw [loadGiven, GivenPath.ask] at hload
      cases hdir : load s fault dir with
      | ok settings =>
          rw [hdir] at hload
          cases hload
      | error e' =>
          rw [hdir] at hload
          cases hload
          rw [GivenPath.ask, build_of_load_error hfields hdir]
          rfl

/-- **Settings in layers.**  For overrides of fields, on any disk and from whatever is given as a
directory: unless the search breaks off, the settings are those of exactly one source, the first
place at which something stands, and no farther one counts.  If that is a table of fields and the
layers over it can be used, the result has the layers in all fields, with the toggles that no layer
gives from the profile of its dialect, and every field has a value of its kind.  Otherwise there is a
failure of settings: of the layers, or of a source that is no table of fields.  Where the search
breaks off there is a failure of another kind. -/
theorem build_layers (s : Disk) (fault : Option Fault) (start : GivenPath)
    (hfields : ∀ e ∈ overrides, (Field.ofName? e.1).isSome) :
    (∀ e, BreaksOff s fault start e →
      buildGiven s fault start overrides = .error (e.map .load) ∧
        ∀ e', e ≠ .failed (.refused e')) ∧
    ((∀ e, ¬ BreaksOff s fault start e) → ∃ dir top source, start = .path dir ∧
      canonical s fault false dir = .ok top ∧
      Chosen s fault (sourcePlaces top) source ∧
      (∀ source', Chosen s fault (sourcePlaces top) source' → source' = source) ∧
      buildGiven s fault start overrides = (build s fault dir overrides).mapError .failed ∧
      ((∃ t result, Gives source t ∧ (layered overrides t).Valid ∧
          build s fault dir overrides = .ok result ∧ Layered overrides t result ∧
          result.Complete) ∨
        (∃ t e, Gives source t ∧ ¬ (layered overrides t).Valid ∧
          build s fault dir overrides = .error (.refused e)) ∨
        (∀ t, ¬ Gives source t) ∧ ∃ path file, build s fault dir overrides =
          .error (.load (.refused (.invalidTable path file))))) := by
  refine ⟨fun e h => ⟨buildGiven_of_breaksOff hfields h, (loadGiven_of_breaksOff h).2⟩, fun h => ?_⟩
  obtain ⟨dir, top, source, rfl, hcanonical, hchosen, hload⟩ := load_of_not_breaksOff h
  refine ⟨dir, top, source, rfl, hcanonical, hchosen, fun _ h => h.unique hchosen, ?_,
    build_of_chosen hfields hload⟩
  rw [buildGiven, takenByBuild_eq_none hfields]
  rfl

/-! ## Two sources, one farther than the other -/

/-- The file of settings at the root. -/
def farText : List Char :=
  "[tool.pandoc-directives]\nmax-file-size = 5".toList

/-- The file of settings in a directory below, with one key in two spellings. -/
def nearText : List Char :=
  "[pandoc-directives]\nenable-shortcodes = true\nenable_shortcodes = false\nmax-file-size = 7".toList

/-- What the table of the nearer file says. -/
def nearTable : Table :=
  [("enable-shortcodes", .bool true), ("enable_shortcodes", .bool false),
    ("max-file-size", .int 7)]

def twoSources : Disk :=
  { tree := ⟨[(["pyproject.toml"], .file ⟨1, 0o644, 1, Text.Utf8.encode farText⟩),
      (["docs"], .directory),
      (["docs", ".pandoc-directives.toml"], .file ⟨2, 0o644, 2, Text.Utf8.encode nearText⟩)]⟩ }

def docs : Path :=
  ⟨.slash, ["docs"]⟩

def nearPlace : String × List String :=
  ("/docs/.pandoc-directives.toml", ["pandoc-directives"])

theorem eq_ok_of_toOption {ε α : Type} {x : Except ε α} {a : α} (h : x.toOption = some a) :
    x = .ok a := by
  cases x with
  | error e => cases h
  | ok b => exact congrArg _ (Option.some.inj h)

theorem canonical_docs : canonical twoSources none false docs = .ok docs := by
  have hread : readWithin twoSources none false twoSources.linkRoom ⟨.slash, []⟩ [] ["docs"] =
      .done docs [] := rfl
  have hstat : twoSources.stat (Files.Path.mk .slash ["docs"]).text none .searching =
      .ok (["docs"], .directory) := rfl
  simp [canonical, docs, hread, hstat, Path.absolute, Path.collapse]

theorem standsAt_nearPlace : StandsAt twoSources none nearPlace (.table nearTable) := by
  refine ⟨[("pandoc-directives", .table nearTable)],
    ⟨_, nearText, ⟨⟨["docs", ".pandoc-directives.toml"], rfl⟩, rfl⟩,
      Text.Utf8.decode_eq_ok_iff.mpr rfl, ?_⟩, by rfl⟩
  exact eq_ok_of_toOption (by decide +kernel)

def farPlace : String × List String :=
  ("/pyproject.toml", ["tool", "pandoc-directives"])

theorem standsAt_farPlace :
    StandsAt twoSources none farPlace (.table [("max-file-size", .int 5)]) := by
  refine ⟨[("tool", .table [("pandoc-directives", .table [("max-file-size", .int 5)])])],
    ⟨_, farText, ⟨⟨["pyproject.toml"], rfl⟩, rfl⟩, Text.Utf8.decode_eq_ok_iff.mpr rfl, ?_⟩, by rfl⟩
  exact eq_ok_of_toOption (by decide +kernel)

/-- The nearer of two sources is the one that counts: of a key in two spellings the later value, of
the limits not the farther one, and of the toggle that it does not give that of the dialect of an
override. -/
theorem twoSources_layers :
    (∀ e ∈ ([("dialect", .text "pandoc")] : Overrides), (Field.ofName? e.1).isSome) ∧
      (∀ e, ¬ BreaksOff twoSources none (.path docs) e) ∧
      StandsAt twoSources none farPlace (.table [("max-file-size", .int 5)]) ∧
      Chosen twoSources none (sourcePlaces docs) (some (nearPlace, .table nearTable)) ∧
      buildGiven twoSources none (.path docs) [("dialect", .text "pandoc")] =
        .ok
          { dialect := .text "pandoc", shortcodes := .bool false, mathLabels := .bool false
            maxSize := .int 7 } := by
  have hfields : ∀ e ∈ ([("dialect", .text "pandoc")] : Overrides),
      (Field.ofName? e.1).isSome := by decide
  have hchosen : Chosen twoSources none (sourcePlaces docs) (some (nearPlace, .table nearTable)) := by
    refine .first [("/docs/pyproject.toml", ["tool", "pandoc-directives"])] _ nearPlace _ rfl ?_
      standsAt_nearPlace
    rintro q hq
    cases List.mem_singleton.mp hq
    exact passed_of_no_document rfl
  have hload := load_of_chosen canonical_docs hchosen
  have hwhole : ∀ e, ¬ BreaksOff twoSources none (.path docs) e := fun e hbreaks => by
    have herror := (loadGiven_of_breaksOff hbreaks).1
    rw [loadGiven, GivenPath.ask, hload] at herror
    cases herror
  obtain ⟨dir, top, source, hdir, hcanonical, -, hunique, hgiven, hresult⟩ :=
    (build_layers twoSources none (.path docs) hfields).2 hwhole
  cases hdir
  cases canonical_docs.symm.trans hcanonical
  cases hunique _ hchosen
  refine ⟨hfields, hwhole, standsAt_farPlace, hchosen, hgiven.trans ?_⟩
  rcases hresult with
    ⟨t, result, hgives, -, hbuild, hlayered, -⟩ | ⟨t, e, hgives, hvalid, -⟩ | ⟨hno, -⟩
  · cases hgives
    obtain ⟨p, hp, hshortcodes⟩ := hlayered.shortcodes
    obtain ⟨p', hp', hmath⟩ := hlayered.mathLabels
    have hdialect : result.dialect = .text "pandoc" := hlayered.dialect
    rw [hdialect] at hp hp'
    cases hp
    cases hp'
    rw [hbuild]
    exact congrArg _ (eq_of_get fun f => by
      cases f with
      | dialect => exact hdialect
      | shortcodes => exact hshortcodes
      | mathLabels => exact hmath
      | maxSize => exact hlayered.maxSize)
  · cases hgives
    exact absurd ⟨Or.inr rfl, ⟨false, rfl⟩, ⟨false, rfl⟩, ⟨7, rfl, by decide⟩⟩ hvalid
  · exact absurd (.table nearPlace nearTable (by decide)) (hno nearTable)

/-- A file that is no document, since it has a number that is too long, is not passed over. -/
theorem longNumber_breaksOff :
    (∀ place ∈ sourcePlaces ⟨.slash, []⟩, ∀ v,
        ¬ StandsAt (rootDisk (onesFile 4301)) none place v) ∧
      buildGiven (rootDisk (onesFile 4301)) none (.path ⟨.slash, []⟩) [] =
        .error (.failed (.load (.unreadable (.tooManyDigits 4301)))) := by
  have hlong : Toml.digitLimit < 4301 := by decide
  refine ⟨fun place hplace v hat => ?_, ?_⟩
  · rcases sourcePlaces_root place hplace with heq | heq
    · obtain ⟨document, hholds, -⟩ := hat
      rw [heq] at hholds
      cases (documentAt_eq_error_iff.mpr (breaks_of_ones hlong)).symm.trans
        (documentAt_eq_some_iff.mpr hholds)
    · have habsent : documentAt (rootDisk (onesFile 4301)) none place.1 = .ok none := by
        rw [heq]
        rfl
      exact (passed_of_no_document habsent).1 v hat
  · exact buildGiven_of_breaksOff (fun _ he => absurd he List.not_mem_nil)
      (breaksOff_rootDisk (breaks_of_ones hlong))

end DirectiveFences.Settings
