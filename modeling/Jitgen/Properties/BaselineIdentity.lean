import Jitgen.Adapters.Listing
import Jitgen.Framework.Numerals
import Jitgen.Orchestrator.Doubles
import Jitgen.Orchestrator.Gate

/-!
# What a baseline entry identifies

A fingerprint is made of the target id and the mutated path, and ids number the targets of a change
set in the order they are listed. So a fingerprint identifies the changed unit as far as the unit
keeps its place in the list.
-/

namespace Jitgen

open Text Fallible

private theorem notMem_nextId (n : Nat) : ' ' ∉ nextId n := by
  unfold nextId
  intro h
  rcases List.mem_append.mp h with h | h
  · exact absurd h (by decide)
  · exact notMem_ofNat (by decide) h

/-- The first blank ends the target. -/
private theorem catchFingerprint_inj {c c' : CatchReport} (h : ' ' ∉ c.target)
    (h' : ' ' ∉ c'.target) :
    catchFingerprint c = catchFingerprint c' ↔
      c.target = c'.target ∧ mutantPath c = mutantPath c' := by
  have hblank : ∀ {t t' p : Text}, ' ' ∉ t → t ≠ t' ++ [' '] ++ p := by
    intro t t' p ht heq
    apply ht
    rw [heq]
    simp
  unfold catchFingerprint
  cases mutantPath c with
  | none =>
    cases mutantPath c' with
    | none => simp
    | some p' => simpa using hblank h
  | some p =>
    cases mutantPath c' with
    | none => simpa using (hblank h').symm
    | some p' =>
      show c.target ++ [' '] ++ p = c'.target ++ [' '] ++ p' ↔ _
      constructor
      · intro heq
        have hfirst : ∀ {t p : Text}, ' ' ∉ t → (t ++ [' '] ++ p).takeWhile (· ≠ ' ') = t := by
          intro t p ht
          have hall : t.takeWhile (· ≠ ' ') = t := by
            apply List.takeWhile_eq_self_iff.mpr
            intro c hc
            have hne : c ≠ ' ' := ne_of_mem_of_not_mem hc ht
            simpa using hne
          rw [List.append_assoc, List.takeWhile_append, hall]
          simp
        have htarget : c.target = c'.target := by
          rw [← hfirst (p := p) h, heq, hfirst h']
        rw [htarget] at heq
        exact ⟨htarget, congrArg some (List.append_cancel_left heq)⟩
      · intro ⟨htarget, hpath⟩
        rw [htarget, Option.some.inj hpath]

section

variable [WordChars] [JsonText]

namespace Pipeline

variable {p : Pipeline} {t : Trace Ans} {out out' : TargetOutcome}

private theorem assessedRun_target {c : TestCandidate} {mutant : Option MutantInfo}
    (h : (pairedRun c >>= fun exec => p.reportAssessedCatch c exec mutant out).Returns t out') :
    ∀ r ∈ out'.catches, r ∈ out.catches ∨ r.target = p.rt.target.id := by
  obtain ⟨exec, t', a, -, -, rfl⟩ := returns_assessedRun h
  intro r hr
  rw [TargetOutcome.reportCatch_catches] at hr
  rcases List.mem_append.mp hr with hr | hr
  · exact .inl hr
  · rw [List.mem_singleton.mp hr]
    exact .inr rfl

private theorem candidate_target {initial : TestCandidate}
    (h : (p.candidate initial out).Returns t out') :
    ∀ r ∈ out'.catches, r ∈ out.catches ∨ r.target = p.rt.target.id := by
  rcases returns_candidate h with ⟨r, hout⟩ | ⟨_, _, _, _, _, _, _, _, _, h⟩
  · rw [hout]
    exact fun r hr => .inl hr
  rcases returns_classifyStable h with ⟨r, hout⟩ | ⟨a, hout, -⟩ | ⟨-, -, h⟩
  · rw [hout]
    exact fun r hr => .inl hr
  · rw [hout]
    exact fun r hr => .inl hr
  · exact assessedRun_target h

private theorem harvested_target {hc : HarvestedCatch} (h : (p.harvested hc out).Returns t out') :
    ∀ r ∈ out'.catches, r ∈ out.catches ∨ r.target = p.rt.target.id := by
  rcases returns_harvested h with ⟨r, hout⟩ | ⟨_, _, _, _, _, _, h⟩
  · rw [hout]
    exact fun r hr => .inl hr
  · exact assessedRun_target h

end Pipeline

private theorem processTarget_catch_target {rt : RankedTarget} {context : ContextBundle}
    {promptHints : List Text} {cfg : RunConfig} {t : Trace Ans} {out : TargetOutcome}
    (h : (processTarget rt context promptHints cfg).Returns t out) :
    ∀ r ∈ out.catches, r.target = rt.target.id := by
  apply processTarget_induction (P := fun _ out => ∀ r ∈ out.catches, r.target = rt.target.id)
    ?_ ?_ ?_ h
  · intro _ out _ hnil r hr
    simp [hnil] at hr
  · intro _ _ out out' c hP hret r hr
    exact (Pipeline.candidate_target hret r hr).elim (hP r) id
  · intro _ _ out out' hc _ hP hret r hr
    exact (Pipeline.harvested_target hret r hr).elim (hP r) id

/-- Processing the target can report the catch. -/
def Reported (target : Target) (report : CatchReport) : Prop :=
  ∃ rt context promptHints cfg t out, rt.target = target ∧
    (processTarget rt context promptHints cfg).Returns t out ∧ report ∈ out.catches

variable [TreeSitter]

/-- A catch of a run: its target is the one at an offset in a block of the list. -/
structure Finding where
  run : ChangeAnalysis
  target : Target
  block : Nat
  offset : Nat
  listed : run.targets[run.targetsBefore block + offset]? = some target
  within : ∃ b, run.blocks[block]? = some b ∧
    ((run.kept b).map Target.content)[offset]? = some target.content
  report : CatchReport
  reported : Reported target report

private theorem exists_finding {run : ChangeAnalysis} {target : Target} {report : CatchReport}
    (ht : target ∈ run.targets) (hr : Reported target report) :
    ∃ f : Finding, f.run = run ∧ f.target = target ∧ f.report = report := by
  obtain ⟨m, hm⟩ := List.mem_iff_getElem?.mp ht
  obtain ⟨n, b, k, hb, hk, rfl⟩ := ChangeAnalysis.exists_block hm
  exact ⟨⟨run, target, n, k, hm, ⟨b, hb, hk⟩, report, hr⟩, rfl, rfl, rfl⟩

namespace Finding

/-- How many targets are listed before the target of the finding. -/
def place (f : Finding) : Nat := f.run.targetsBefore f.block + f.offset

def fingerprint (f : Finding) : Text := catchFingerprint f.report

def SameUnit (f g : Finding) : Prop :=
  f.target.path = g.target.path ∧ f.target.symbol = g.target.symbol

theorem report_target (f : Finding) : f.report.target = nextId f.place := by
  obtain ⟨rt, context, promptHints, cfg, t, out, hrt, hret, hmem⟩ := f.reported
  rw [processTarget_catch_target hret _ hmem, hrt]
  exact ChangeAnalysis.id_of_targets f.listed

private theorem fingerprint_eq_iff (f g : Finding) :
    f.fingerprint = g.fingerprint ↔
      f.place = g.place ∧ mutantPath f.report = mutantPath g.report := by
  unfold fingerprint
  rw [catchFingerprint_inj (f.report_target ▸ notMem_nextId _) (g.report_target ▸ notMem_nextId _),
    f.report_target, g.report_target, nextId_inj]

/-- Two findings are told apart, or recognised, by what was changed and mutated. -/
structure Identified (f g : Finding) : Prop where
  stable : f.SameUnit g → mutantPath f.report = mutantPath g.report →
    f.fingerprint = g.fingerprint
  separate : f.target.path ≠ g.target.path → f.fingerprint ≠ g.fingerprint
  suppressed : f.target.path ≠ g.target.path →
    (Baseline.mk [f.fingerprint]).contains g.report = false

/-- Findings are identified exactly when a unit keeps its place, and units of different files have
different places unless their mutated paths differ. -/
theorem identified_iff (f g : Finding) :
    f.Identified g ↔
      (f.SameUnit g → mutantPath f.report = mutantPath g.report → f.place = g.place) ∧
      (f.target.path ≠ g.target.path → mutantPath f.report = mutantPath g.report →
        f.place ≠ g.place) := by
  constructor
  · intro h
    constructor
    · intro hunit hmutated
      exact ((f.fingerprint_eq_iff g).mp (h.stable hunit hmutated)).1
    · intro hpath hmutated hplace
      exact h.separate hpath ((f.fingerprint_eq_iff g).mpr ⟨hplace, hmutated⟩)
  · intro ⟨hkeeps, hdiffer⟩
    have hseparate : f.target.path ≠ g.target.path → f.fingerprint ≠ g.fingerprint := by
      intro hpath heq
      obtain ⟨hplace, hmutated⟩ := (f.fingerprint_eq_iff g).mp heq
      exact hdiffer hpath hmutated hplace
    constructor
    · intro hunit hmutated
      exact (f.fingerprint_eq_iff g).mpr ⟨hkeeps hunit hmutated, hmutated⟩
    · exact hseparate
    · intro hpath
      have hne : catchFingerprint g.report ≠ f.fingerprint := (hseparate hpath).symm
      simpa [Baseline.contains] using hne

end Finding

end

/-- The files are modified in their first line. -/
def changeOf (paths : List Text) : ChangeAnalysis where
  registry := .withBuiltins .default
  repo := .new paths []
  changes := ⟨"base", "head", paths.map (⟨·, none, .modified, [oneLine]⟩)⟩

/-- The target of the first line of a file. -/
def lineTarget (n : Nat) (path : Text) : Target where
  id := nextId n
  adapter := "rust"
  path := path
  symbol := none
  kind := .hunk
  span := oneLine
  risk := halfRisk

/-- A run of the target in which one mutant is killed, on the base only. -/
def killingRun (target : Target) : Except FeedbackError TargetOutcome × Trace Ans :=
  letI := asciiWords
  letI := noJson
  (processTarget { sampleTarget with target := target } sampleContext []
    { RunConfig.default with mode := .catch, reruns := 0 }).run.run
    (scripted (fence "path: a\n@@") failsOffBase) []

/-- A run that returns one catch makes a finding of it. -/
theorem exists_finding_of_run {paths : List Text} {n : Nat} {path : Text} {cfg : RunConfig}
    {env : Env Ans} {mutated : Option Text}
    (hlisted : letI := noTrees; lineTarget n path ∈ (changeOf paths).targets)
    (hrun : letI := asciiWords; letI := noJson
      letI run := (processTarget { sampleTarget with target := lineTarget n path } sampleContext []
        cfg).run.run env []
      run.1.isOk = true ∧ (outcomeOf run).catches.map mutantPath = [mutated]) :
    letI := asciiWords
    letI := noJson
    letI := noTrees
    ∃ f : Finding, f.run = changeOf paths ∧ f.target = lineTarget n path ∧ f.place = n ∧
      mutantPath f.report = mutated := by
  let _ := asciiWords
  let _ := noJson
  let _ := noTrees
  obtain ⟨hok, hcatches⟩ := hrun
  obtain ⟨report, hreport, hmutated⟩ := List.mem_map.mp (hcatches ▸ List.mem_singleton_self mutated)
  have hreported : Reported (lineTarget n path) report :=
    ⟨_, sampleContext, [], _, _, _, rfl, returns_of_run hok, hreport⟩
  obtain ⟨f, hf, htarget, hfreport⟩ := exists_finding hlisted hreported
  refine ⟨f, hf, htarget, ?_, hfreport ▸ hmutated⟩
  have hid := ChangeAnalysis.id_of_targets f.listed
  rw [htarget] at hid
  exact (nextId_inj.mp hid).symm

private theorem exists_killed (paths : List Text) (n : Nat) (path : Text)
    (hlisted : letI := noTrees; lineTarget n path ∈ (changeOf paths).targets)
    (hrun : (killingRun (lineTarget n path)).1.isOk = true ∧
      (outcomeOf (killingRun (lineTarget n path))).catches.map mutantPath = [some ("a" : Text)]) :
    letI := asciiWords
    letI := noJson
    letI := noTrees
    ∃ f : Finding, f.run = changeOf paths ∧ f.target = lineTarget n path ∧ f.place = n ∧
      mutantPath f.report = some ("a" : Text) :=
  exists_finding_of_run hlisted hrun

/-- With `src/a.rs` changed as well, the finding in `src/b.rs` gets another fingerprint; and alone it
has the fingerprint that a finding in `src/a.rs` has alone. -/
theorem fingerprints_follow_positions :
    letI := asciiWords
    letI := noJson
    letI := noTrees
    ∃ alone both other : Finding,
      alone.run = changeOf ["src/b.rs"] ∧ alone.target.path = ("src/b.rs" : Text) ∧
      both.run = changeOf ["src/a.rs", "src/b.rs"] ∧ both.target.path = ("src/b.rs" : Text) ∧
      other.run = changeOf ["src/a.rs"] ∧ other.target.path = ("src/a.rs" : Text) ∧
      ¬ alone.Identified both ∧ ¬ alone.Identified other := by
  let _ := asciiWords
  let _ := noJson
  let _ := noTrees
  obtain ⟨alone, halone, ht₁, hp₁, hm₁⟩ := exists_killed ["src/b.rs"] 0 "src/b.rs"
    (by decide +kernel) (by decide +kernel)
  obtain ⟨both, hboth, ht₂, hp₂, hm₂⟩ := exists_killed ["src/a.rs", "src/b.rs"] 1
    "src/b.rs" (by decide +kernel) (by decide +kernel)
  obtain ⟨other, hother, ht₃, hp₃, hm₃⟩ := exists_killed ["src/a.rs"] 0 "src/a.rs"
    (by decide +kernel) (by decide +kernel)
  refine ⟨alone, both, other, halone, by rw [ht₁]; rfl, hboth, by rw [ht₂]; rfl, hother,
    by rw [ht₃]; rfl, ?_, ?_⟩
  · intro h
    have hunit : alone.SameUnit both := by
      unfold Finding.SameUnit
      rw [ht₁, ht₂]
      exact ⟨rfl, rfl⟩
    have hsame := h.stable hunit (hm₁.trans hm₂.symm)
    rw [alone.fingerprint_eq_iff both, hp₁, hp₂] at hsame
    exact absurd hsame.1 (by decide)
  · intro h
    have hpath : alone.target.path ≠ other.target.path := by
      rw [ht₁, ht₃]
      decide
    exact h.separate hpath
      ((alone.fingerprint_eq_iff other).mpr ⟨hp₁.trans hp₃.symm, hm₁.trans hm₃.symm⟩)

end Jitgen
