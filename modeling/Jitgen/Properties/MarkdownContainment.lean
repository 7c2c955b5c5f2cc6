import Jitgen.Properties.MarkdownTemplate

/-!
# Inline values of the Markdown export

The document is read as its template with every value in its place: as literal text, or between
backticks as one code span. A backtick in a value of the second kind breaks this, as does a value
of which nothing is left.
-/

namespace Jitgen.Markdown

open Text CommonMark

/-- What a report is to be read as. -/
def outline (r : RunReport) : List Element := (rows r).flatMap Row.elements

/-- The values a report places between backticks. -/
def spanValues (r : RunReport) : List Text :=
  match r.mode with
  | .harden => r.accepted.flatMap fun t => [t.path, t.target, t.language] ++ t.symbol.toList
  | .catch =>
    r.catches.flatMap fun c =>
      [c.path, c.target, c.language] ++ c.mutant.toList.flatMap fun m => [m.id, m.path]

private theorem spans_acceptedRows (t : AcceptedTest) :
    (acceptedRows t).flatMap Row.spans =
      ([t.path, t.target, t.language] ++ t.symbol.toList).map fun v => oneLine v capName := by
  unfold acceptedRows
  cases t.symbol <;> rfl

private theorem spans_catchRows (c : CatchReport) :
    (catchRows c).flatMap Row.spans =
      ([c.path, c.target, c.language] ++ c.mutant.toList.flatMap fun m => [m.id, m.path]).map
        fun v => oneLine v capName := by
  unfold catchRows
  cases c.mutant <;> rfl

private theorem spans_resultRows (r : RunReport) :
    (resultRows r).flatMap Row.spans = (spanValues r).map fun v => oneLine v capName := by
  unfold resultRows spanValues
  cases r.mode with
  | harden =>
    dsimp only
    rw [List.map_flatMap, List.flatMap_append]
    cases r.accepted with
    | nil => rfl
    | cons t ts =>
      rw [if_neg (by simp), List.flatMap_assoc]
      exact List.flatMap_congr fun t _ => spans_acceptedRows t
  | «catch» =>
    dsimp only
    rw [List.map_flatMap, List.flatMap_append]
    cases r.catches with
    | nil => rfl
    | cons c cs =>
      rw [if_neg (by simp), List.flatMap_assoc]
      exact List.flatMap_congr fun c _ => spans_catchRows c

private theorem spans_rest (r : RunReport) :
    (rejectedRows r ++ warningRows r).flatMap Row.spans = [] := by
  have hnil : ∀ row ∈ ([] : List Row), row.spans = [] := fun _ h => absurd h List.not_mem_nil
  apply List.flatMap_eq_nil_iff.mpr
  rw [List.forall_mem_append]
  constructor
  · unfold rejectedRows
    split_ifs
    · exact hnil
    · simp only [List.forall_mem_append, List.forall_mem_cons]
      exact ⟨⟨⟨rfl, rfl, rfl, hnil⟩,
        List.forall_mem_flatMap.mpr fun _ _ => List.forall_mem_singleton.mpr rfl⟩, rfl, hnil⟩
  · unfold warningRows
    split_ifs
    · exact hnil
    · simp only [List.forall_mem_append, List.forall_mem_cons]
      exact ⟨⟨⟨rfl, rfl, hnil⟩,
        List.forall_mem_flatMap.mpr fun _ _ => List.forall_mem_singleton.mpr rfl⟩, rfl, hnil⟩

private theorem spans_rows (r : RunReport) :
    (rows r).flatMap Row.spans = (spanValues r).map fun v => oneLine v capName := by
  rw [rows, List.append_assoc _ (rejectedRows r), List.flatMap_append, spans_rest,
    List.flatMap_append, spans_resultRows, List.append_nil]
  rfl

private theorem spannable_oneLine_iff (v : Text) (max : Nat) :
    Spannable (oneLine v max) ↔ sanitize v max ≠ [] ∧ backtick ∉ sanitize v max := by
  have hmem : backtick ∈ oneLine v max ↔ backtick ∈ sanitize v max := by
    constructor
    · intro h
      obtain ⟨c, hc, hflat⟩ := List.mem_map.mp h
      split_ifs at hflat
      · exact absurd hflat (by decide)
      · exact hflat ▸ hc
    · intro h
      exact List.mem_map.mpr ⟨backtick, h, if_neg (by decide)⟩
  rw [Spannable, hmem]
  simp [oneLine]

/-- A Markdown report is read as its template exactly when every value between backticks has a
character and no backtick. -/
theorem markdown_inline_containment (tag : Text → Option Nat) (r : RunReport) :
    CommonMark.parse tag (render r) = some (outline r) ↔
      ∀ v ∈ spanValues r, sanitize v capName ≠ [] ∧ backtick ∉ sanitize v capName := by
  have hspans : (∀ v ∈ (rows r).flatMap Row.spans, Spannable v) ↔
      ∀ v ∈ spanValues r, sanitize v capName ≠ [] ∧ backtick ∉ sanitize v capName := by
    rw [spans_rows, List.forall_mem_map]
    exact forall₂_congr fun v _ => spannable_oneLine_iff v capName
  rw [← hspans, render_eq]
  constructor
  · exact spannable_of_parse
  · exact parse_text (sound_rows r) (walk_rows r)

/-- A catch run with one catch, whose mutant has the given id. -/
def mutantReport (id : Text) : RunReport where
  schemaVersion := reportSchemaVersion
  jitgenVersion := "0.1.0"
  runId := "run-1"
  repo := "/r"
  base := "a"
  head := "b"
  mode := .catch
  strategy := .intentAware
  summary := ⟨1, 1, 0, 1, 0⟩
  accepted := []
  catches := [⟨"t", "rust", "c.rs", [], .weakCatch, .strongCatch, .one, .veryHigh, [],
    some ⟨id, "d", "p"⟩, none, none, [], none⟩]
  rejected := []
  warnings := []

/-- The span of the id runs on over the description, and the path is in no code span. -/
theorem mutant_id_swallows_description :
    (¬ ∀ r, CommonMark.parse (fun _ => none) (render r) = some (outline r)) ∧
      tokens (fun _ => none) (source (mutantSegments ⟨['m', backtick], "d", "p"⟩)) =
        ("mutant " : Text).map .text ++
          [.code 1 ("m\\``: d (" : Text), .text 'p', .text backtick, .text ')'] := by
  constructor
  · intro h
    have hspans := spannable_of_parse (h (mutantReport ['m', backtick]))
    rw [spans_rows] at hspans
    have hid := hspans (oneLine ['m', backtick] capName)
      (List.mem_map.mpr ⟨_, by decide, rfl⟩)
    exact absurd hid (by decide)
  · decide +kernel

end Jitgen.Markdown
