import Jitgen.Orchestrator.StoreDoubles
import Jitgen.Properties.HardenFidelity
import Jitgen.Report.PatchReader

/-!
# A patch lands what is written

The patch of a harden report, read file by file, names the paths and contents that writing the
report into the repository asks for.
-/

namespace Jitgen

open Text PatchReader

/-- The files that a run of the writer was asked to write, in order and with their bytes. -/
def writes (t : Trace LandAns) : List (Text × Bytes) :=
  t.map fun e => (e.1.path, toUtf8 e.1.contents)

/-- The writer is asked for the tests in order, up to the first failure. -/
private theorem runs_writeAll {tests : List AcceptedTest} {t : Trace LandAns}
    {r : Except OrchestratorError (List Text)} (hr : (writeAll tests).Runs t r) :
    writes t <+: tests.map (fun a => (a.path, toUtf8 a.source)) ∧
      ∀ written, r = .ok written → written = tests.map (·.path) ∧
        writes t = tests.map fun a => (a.path, toUtf8 a.source) := by
  induction tests generalizing t r with
  | nil =>
    obtain ⟨rfl, rfl⟩ := hr
    refine ⟨List.nil_prefix, fun written h => ?_⟩
    cases h
    simp [writes]
  | cons a tests ih =>
    rcases Fallible.runs_bind.mp hr with ⟨e, rfl, hfail⟩ | ⟨t₁, t₂, u, rfl, hwrite, hrest⟩
    · obtain ⟨x, rfl, -⟩ := Fallible.runs_attempt.mp hfail
      refine ⟨by simp [writes], fun written h => ?_⟩
      cases h
    · obtain ⟨x, rfl, -⟩ := Fallible.returns_attempt.mp hwrite
      rcases Fallible.runs_bind.mp hrest with ⟨e, rfl, hfail⟩ | ⟨t₃, t₄, later, rfl, hlater, hpure⟩
      · refine ⟨?_, fun written h => by cases h⟩
        simpa [writes] using (ih hfail).1
      · obtain ⟨rfl, rfl⟩ := hpure
        obtain ⟨hpre, hall⟩ := ih hlater
        obtain ⟨hpaths, hwrites⟩ := hall later rfl
        refine ⟨by simpa [writes] using hpre, fun written h => ?_⟩
        cases h
        refine ⟨by simp [hpaths], ?_⟩
        simpa [writes] using hwrites

section

variable [WordChars]

private theorem landable_addition {rt : RankedTarget} {c : TestCandidate} {language : Text}
    {a : AcceptedTest} (h : acceptLandable rt c language = .ok a) :
    '\n' ∉ a.path ∧ a.source ≠ [] ∧
      fileAddition a = unlines (additionLines a.path a.source) := by
  have hland := (acceptLandable_landable h).1
  have hsource : a.source ≠ [] := by
    intro hnil
    have hblank := hland.source_nonblank
    rw [hnil] at hblank
    cases hblank
  have hpath : '\n' ∉ a.path := by
    rw [← hland.path_sanitize, sanitizePath]
    intro hmem
    have := (List.dropWhile_suffix _).subset hmem
    simp at this
  exact ⟨hpath, hsource, fileAddition_eq hland.path_sanitize hland.source_strip hsource⟩

/-- Reading the patch of accepted tests yields their paths and sources, which are what writing them
asks for, in order and byte for byte. -/
theorem renderPatch_lands_written {report : RunReport} (hmode : report.mode = .harden)
    (hne : report.accepted ≠ [])
    (hland : ∀ a ∈ report.accepted, ∃ rt c language, acceptLandable rt c language = .ok a)
    {t : Trace LandAns} {r : Except OrchestratorError (List Text)}
    (hr : (applyToRepo report).Runs t r) :
    ∃ files, readPatch (renderPatch report) = some files ∧
      files = report.accepted.map (fun a => (a.path, a.source)) ∧
      writes t <+: files.map (fun f => (f.1, toUtf8 f.2)) ∧
      ∀ written, r = .ok written →
        written = files.map (·.1) ∧ writes t = files.map fun f => (f.1, toUtf8 f.2) := by
  have hrender : renderPatch report = unlines ((report.accepted.map fun a => (a.path, a.source)).flatMap
      fun f => additionLines f.1 f.2) := by
    have hadditions : report.accepted.map fileAddition =
        report.accepted.map fun a => unlines (additionLines a.path a.source) := by
      refine List.map_congr_left fun a ha => ?_
      obtain ⟨rt, c, language, h⟩ := hland a ha
      exact (landable_addition h).2.2
    rw [renderPatch, hmode, if_neg (by decide), if_neg (by simpa using hne), hadditions,
      unlines_flatMap, List.map_map]
    rfl
  refine ⟨_, ?_, rfl, ?_⟩
  · rw [hrender]
    refine readPatch_unlines fun f hf => ?_
    obtain ⟨a, ha, rfl⟩ := List.mem_map.mp hf
    obtain ⟨rt, c, language, h⟩ := hland a ha
    obtain ⟨hpath, hsource, -⟩ := landable_addition h
    exact ⟨hpath, hsource⟩
  · rw [applyToRepo, if_neg (by simp [hmode])] at hr
    have := runs_writeAll hr
    simpa [Function.comp_def] using this

end

/-- The second source looks like a diff. -/
def landedFiles : List (Text × Text) :=
  [("tests/a.rs", "fn a() {}\n\n"), ("tests/b.rs", "--- x\n+++ y")]

def landedTests : List AcceptedTest :=
  letI := asciiWords
  landedFiles.filterMap fun f =>
    (acceptLandable sampleTarget ⟨"t0", f.1, f.2, none, 0⟩ "rust").toOption

def landedReport : RunReport := { emptyReport sampleRunId with accepted := landedTests }

/-- A writer that never fails. -/
def writesAll : Env LandAns := fun _ _ => .ok ()

private theorem writeAll_writesAll (tests : List AcceptedTest) (h : Trace LandAns) :
    ((writeAll tests).run.run writesAll h).1 = .ok (tests.map (·.path)) := by
  induction tests generalizing h with
  | nil => rfl
  | cons a tests ih =>
    have hrest := ih (h ++ [⟨⟨a.path, a.source⟩, .ok ()⟩])
    have hstep : ((writeAll (a :: tests)).run.run writesAll h).1 =
        (((writeAll tests).run.bind (ExceptT.bindCont fun written =>
          (pure (a.path :: written) : Fallible OrchestratorError LandAns (List Text)))).run writesAll
            (h ++ [⟨⟨a.path, a.source⟩, .ok ()⟩])).1 := rfl
    rw [hstep, Prog.run_bind, hrest]
    rfl

theorem landedReport_lands :
    readPatch (renderPatch landedReport) = some landedFiles ∧
      writes ((applyToRepo landedReport).run.run writesAll []).2 =
        landedFiles.map fun f => (f.1, toUtf8 f.2) := by
  let _ := asciiWords
  have hland : ∀ a ∈ landedReport.accepted,
      ∃ rt c language, acceptLandable rt c language = .ok a := by
    intro a ha
    obtain ⟨f, -, hc⟩ := List.mem_filterMap.mp ha
    cases h : acceptLandable sampleTarget ⟨"t0", f.1, f.2, none, 0⟩ "rust" with
    | ok b =>
      rw [h] at hc
      cases hc
      exact ⟨_, _, _, h⟩
    | error e =>
      rw [h] at hc
      cases hc
  have hpairs : landedReport.accepted.map (fun a => (a.path, a.source)) = landedFiles := by
    decide +kernel
  have hruns := Prog.runs_run writesAll (applyToRepo landedReport).run []
  have hne : landedReport.accepted ≠ [] := by
    intro h
    rw [h] at hpairs
    cases hpairs
  have hok : ((applyToRepo landedReport).run.run writesAll []).1 =
      .ok (landedReport.accepted.map (·.path)) := writeAll_writesAll landedTests []
  rw [hok] at hruns
  obtain ⟨files, hread, hfiles, -, hall⟩ := renderPatch_lands_written rfl hne hland hruns
  rw [hfiles, hpairs] at hread
  obtain ⟨-, hwrites⟩ := hall _ rfl
  rw [hfiles, hpairs] at hwrites
  exact ⟨hread, hwrites⟩

end Jitgen
