import Jitgen.Framework.UriReference
import Jitgen.Properties.ControlStripping
import Jitgen.Report.Sarif

/-!
# Where SARIF results point

A path is put where a URI reference is expected, without being encoded. A consumer that reads the
reference finds the changed file exactly when nothing in its path has a meaning in references.
-/

namespace Jitgen

open Text

namespace Sarif

def items : Json → List Json
  | .array xs => xs
  | _ => []

/-- The reference of the first location of a result. -/
def artifactUri (result : Json) : Option Text := do
  let loc ← (items (← result.get "locations")).head?
  let physical ← loc.get "physicalLocation"
  let artifact ← physical.get "artifactLocation"
  match ← artifact.get "uri" with
  | .string uri => some uri
  | _ => none

/-- The references of the results of the first run. -/
def uris (doc : Json) : List (Option Text) :=
  match doc.get "runs" with
  | some runs =>
    match (items runs).head?.bind fun run => run.get "results" with
    | some rs => (items rs).map artifactUri
    | none => []
  | none => []

/-- The path that each result annotates. -/
def annotated (doc : Json) : List (Option Bytes) := (uris doc).map (·.bind Uri.relativePath)

private theorem get_skip {key name : Text} {value : Json} {fields : List (Text × Json)}
    (h : (key == name) = false) :
    (Json.object ((name, value) :: fields)).get key = (Json.object fields).get key := by
  simp [Json.get, List.lookup_cons, h]

private theorem get_here (key : Text) (value : Json) (fields : List (Text × Json)) :
    (Json.object ((key, value) :: fields)).get key = some value := by
  simp [Json.get]

private theorem artifactUri_location (result : Json) (path : Text) (region : List (Text × Json))
    (h : result.get "locations" = some (.array [.object [("physicalLocation",
      .object (("artifactLocation", artifactLocation path) :: region))]])) :
    artifactUri result = some (sanitize path capName) := by
  unfold artifactUri artifactLocation at *
  rw [h]
  simp only [Option.bind_eq_bind, Option.bind_some, items, List.head?_cons, get_here]

private theorem get_locations (c : CatchReport) :
    (catchResult c).get "locations" = some (.array [catchLocation c]) := by
  unfold catchResult
  rw [get_skip (by decide), get_skip (by decide), get_skip (by decide), get_here]

private theorem artifactUri_catchResult (c : CatchReport) :
    artifactUri (catchResult c) = some (sanitize (c.changedPath.getD c.path) capName) := by
  have hget := get_locations c
  unfold catchLocation at hget
  cases hpath : c.changedPath with
  | none =>
    rw [hpath] at hget
    exact artifactUri_location _ _ [] hget
  | some path =>
    rw [hpath] at hget
    exact artifactUri_location _ _ _ hget

private theorem uris_document (report : RunReport) :
    uris (document report) = (results report).map artifactUri := by
  have hruns : ∀ runs, (Json.object [("$schema", .string sarifSchema),
      ("version", .string sarifVersion), ("runs", runs)]).get "runs" = some runs := by
    intro runs
    rw [get_skip (by decide), get_skip (by decide), get_here]
  have hresults : ∀ tool rs, (Json.object [("tool", tool), ("results", rs)]).get "results" =
      some rs := by
    intro tool rs
    rw [get_skip (by decide), get_here]
  unfold uris document
  rw [hruns]
  simp only [items, List.head?_cons, Option.bind_some, hresults]

private theorem annotated_document {report : RunReport} (hmode : report.mode = .catch) :
    annotated (document report) = report.catches.map fun c =>
      Uri.relativePath (sanitize (c.changedPath.getD c.path) capName) := by
  have hresults : results report = report.catches.map catchResult := by
    unfold results
    rw [hmode]
  unfold annotated
  rw [uris_document, hresults, List.map_map, List.map_map]
  apply List.map_congr_left
  intro c _
  show (artifactUri (catchResult c)).bind Uri.relativePath = _
  rw [artifactUri_catchResult]
  rfl

/-- A path in which nothing has a meaning in references, and from which nothing is stripped. -/
structure Addressable (path : Text) : Prop where
  kept : ∀ c ∈ path, isStrippable c = false
  query : '?' ∉ path
  fragment : '#' ∉ path
  triplet : Uri.hasTriplet path = false
  scheme : Uri.hasScheme path = false
  «authority» : Uri.hasAuthority path = false

private theorem sanitize_of_fits {path : Text} (h : utf8Len path ≤ capName) :
    sanitize path capName = stripControls path := by
  have hle : utf8Len (stripControls path) ≤ utf8Len path :=
    utf8Len_le_of_sublist (stripFrom_sublist .text path)
  unfold sanitize cap
  rw [if_pos (hle.trans h)]

private theorem pathPart_eq_self_iff (s : Text) : Uri.pathPart s = s ↔ '?' ∉ s ∧ '#' ∉ s := by
  unfold Uri.pathPart
  rw [List.takeWhile_eq_self_iff]
  constructor
  · intro h
    exact ⟨fun hin => by simpa using h _ hin, fun hin => by simpa using h _ hin⟩
  · intro h c hc
    simp only [Bool.and_eq_true, bne_iff_ne]
    exact ⟨fun heq => h.1 (heq ▸ hc), fun heq => h.2 (heq ▸ hc)⟩

/-- A path that fits is read back from its reference exactly when it is addressable: whatever is
stripped, cut off or decoded makes it shorter. -/
private theorem relativePath_sanitize_iff {path : Text} (hfits : utf8Len path ≤ capName) :
    Uri.relativePath (sanitize path capName) = some (toUtf8 path) ↔ Addressable path := by
  rw [sanitize_of_fits hfits]
  constructor
  · intro h
    unfold Uri.relativePath at h
    split_ifs at h with hforeign
    have hdecoded : Uri.percentDecode (Uri.pathPart (stripControls path)) = toUtf8 path :=
      Option.some.inj h
    have hdecode := Uri.length_decodeFrom_le 0 (Uri.pathPart (stripControls path))
    have hpart : (Uri.pathPart (stripControls path)).Sublist (stripControls path) :=
      (List.takeWhile_prefix _).sublist
    have hlen : utf8Len path ≤ utf8Len (Uri.pathPart (stripControls path)) := by
      rw [← length_toUtf8, ← hdecoded]
      exact hdecode
    have hstrip : stripControls path = path :=
      eq_of_sublist_of_utf8Len_le (stripFrom_sublist .text path)
        (hlen.trans (utf8Len_le_of_sublist hpart))
    rw [hstrip] at hdecoded hpart hlen hforeign
    have hwhole := eq_of_sublist_of_utf8Len_le hpart hlen
    rw [hwhole] at hdecoded
    obtain ⟨hquery, hfragment⟩ := (pathPart_eq_self_iff path).mp hwhole
    simp only [Bool.or_eq_true, not_or, Bool.not_eq_true] at hforeign
    exact ⟨(stripControls_eq_self_iff path).mp hstrip, hquery, hfragment,
      (Uri.percentDecode_eq_iff path).mp hdecoded, hforeign.1, hforeign.2⟩
  · intro h
    have hwhole := (pathPart_eq_self_iff path).mpr ⟨h.query, h.fragment⟩
    rw [(stripControls_eq_self_iff path).mpr h.kept]
    unfold Uri.relativePath
    rw [h.scheme, h.authority, hwhole, Uri.percentDecode_of_plain h.triplet]
    rfl

/-- A changed path that the export promises to show whole. -/
structure Shown (c : CatchReport) (path : Text) : Prop where
  changed : c.changedPath = some path
  controlFree : ∀ x ∈ path, isControl x = false
  fits : utf8Len path ≤ capName

/-- Every result annotates the file its catch changed, and different files are annotated where
different files changed. -/
structure Located (report : RunReport) : Prop where
  faithful : ∀ (i : Nat) c path, report.catches[i]? = some c → Shown c path →
    (annotated (document report))[i]? = some (some (toUtf8 path))
  distinct : ∀ (i j : Nat) c d path path', report.catches[i]? = some c → report.catches[j]? = some d →
    Shown c path → Shown d path' → path ≠ path' →
    (annotated (document report))[i]? ≠ (annotated (document report))[j]?

private theorem annotated_of_catch {report : RunReport} (hmode : report.mode = .catch) {i : Nat}
    {c : CatchReport} {path : Text} (hc : report.catches[i]? = some c)
    (hpath : c.changedPath = some path) :
    (annotated (document report))[i]? = some (Uri.relativePath (sanitize path capName)) := by
  rw [annotated_document hmode, List.getElem?_map, hc, Option.map_some, hpath, Option.getD_some]

/-- The results of a catch run annotate the changed files exactly when each changed path is
addressable. -/
theorem sarif_locations_iff {report : RunReport} (hmode : report.mode = .catch) :
    Located report ↔ ∀ c ∈ report.catches, ∀ path, Shown c path → Addressable path := by
  constructor
  · intro h c hc path hshown
    obtain ⟨i, hi⟩ := List.mem_iff_getElem?.mp hc
    have hexact := h.faithful i c path hi hshown
    rw [annotated_of_catch hmode hi hshown.changed] at hexact
    exact (relativePath_sanitize_iff hshown.fits).mp (Option.some.inj hexact)
  · intro h
    have hexact : ∀ (i : Nat) c path, report.catches[i]? = some c → Shown c path →
        (annotated (document report))[i]? = some (some (toUtf8 path)) := by
      intro i c path hi hshown
      have haddr := h c (List.mem_of_getElem? hi) path hshown
      rw [annotated_of_catch hmode hi hshown.changed,
        (relativePath_sanitize_iff hshown.fits).mpr haddr]
    refine ⟨hexact, ?_⟩
    intro i j c d path path' hi hj hc hd hne heq
    rw [hexact i c path hi hc, hexact j d path' hj hd] at heq
    exact hne (toUtf8_injective (Option.some.inj (Option.some.inj heq)))

/-- A catch for a change in a file. -/
def changedCatch (path : Text) : CatchReport where
  target := "t0"
  language := "rust"
  path := "tests/jitgen_t0.rs"
  source := "s"
  «class» := .weakCatch
  decision := .strongCatch
  tpProbability := .half
  bucket := .medium
  rationale := "r"
  mutant := none
  changedPath := some path
  changedLine := some 3
  reproduction := "cargo test"
  evidence := none

def changedReport (paths : List Text) : RunReport where
  schemaVersion := reportSchemaVersion
  jitgenVersion := "0.1.0"
  runId := "r"
  repo := "/repo"
  base := "b"
  head := "h"
  mode := .catch
  strategy := .auto
  summary := ⟨1, 1, 0, 1, 0⟩
  accepted := []
  catches := paths.map changedCatch
  rejected := []
  warnings := []

theorem plain_paths_located : Located (changedReport ["src/a b.rs", "src/100%.rs"]) := by
  apply (sarif_locations_iff rfl).mpr
  intro c hc path hshown
  obtain ⟨path', hpath', rfl⟩ := List.mem_map.mp hc
  have hpath : path' = path := Option.some.inj hshown.changed
  subst hpath
  have haddr : ∀ p ∈ [("src/a b.rs" : Text), "src/100%.rs"], (p.all fun c => !isStrippable c) &&
      !p.contains '?' && !p.contains '#' && !Uri.hasTriplet p && !Uri.hasScheme p &&
      !Uri.hasAuthority p := by decide +kernel
  have h := haddr path' hpath'
  simp only [Bool.and_eq_true, Bool.not_eq_true', List.all_eq_true] at h
  obtain ⟨⟨⟨⟨⟨hkept, hquery⟩, hfragment⟩, htriplet⟩, hscheme⟩, hauthority⟩ := h
  exact ⟨hkept, by simpa using hquery, by simpa using hfragment, htriplet, hscheme, hauthority⟩

/-- Two files whose names go on behind a `#` are annotated as one. -/
theorem fragments_located_together :
    ¬ Located (changedReport ["src/a#b.rs", "src/a#c.rs"]) ∧
      annotated (document (changedReport ["src/a#b.rs", "src/a#c.rs"])) =
        [some (toUtf8 "src/a"), some (toUtf8 "src/a")] := by
  have hboth : annotated (document (changedReport ["src/a#b.rs", "src/a#c.rs"])) =
      [some (toUtf8 "src/a"), some (toUtf8 "src/a")] := by decide +kernel
  refine ⟨fun h => ?_, hboth⟩
  have hshown : ∀ p ∈ [("src/a#b.rs" : Text), "src/a#c.rs"], Shown (changedCatch p) p := by
    intro p hp
    have hcheck : ∀ p ∈ [("src/a#b.rs" : Text), "src/a#c.rs"],
        (p.all fun x => !isControl x) ∧ utf8Len p ≤ capName := by decide +kernel
    refine ⟨rfl, fun x hx => ?_, (hcheck p hp).2⟩
    simpa using List.all_eq_true.mp (hcheck p hp).1 x hx
  apply h.distinct 0 1 _ _ "src/a#b.rs" "src/a#c.rs" rfl rfl (hshown _ (by decide))
    (hshown _ (by decide)) (by decide)
  rw [hboth]
  rfl

end Sarif

end Jitgen
