import Jitgen.Orchestrator.Doubles

/-!
# Accepted tests are what was tested

An accepted test is the unchanged copy of one candidate: the repair loop ran it to its goal, and
the flake filter then ran the same candidate again, every time on the changed revision.
-/

namespace Jitgen

open Fallible

/-- A test whose text every later representation keeps. -/
structure Landable [WordChars] (a : AcceptedTest) : Prop where
  source_nonblank : Text.isBlank a.source = false
  source_redact : (redact a.source).text = a.source
  source_strip : stripControls a.source = a.source
  path_redact : (redact a.path).text = a.path
  path_sanitize : sanitizePath a.path = a.path

/-- The test is a screened candidate that passed `reruns + 2` runs in a row on the head:
the goal run of the repair loop and the flake trials. -/
structure TestedAsLanded [WordChars] (reruns : Nat) (t : Trace Ans) (a : AcceptedTest)
    (c : TestCandidate) (rs : List ExecutionResult) : Prop where
  screened : (validateCandidate c.source).ok = true
  path_eq : a.path = c.relPath
  source_eq : a.source = c.source
  runs : rs.length = reruns + 2
  passed : ∀ r ∈ rs, r.outcome = .passed
  block : rs.map (ranCandidate c .head) <:+: t

section

variable [WordChars]

theorem TestedAsLanded.append {reruns : Nat} {t : Trace Ans} {a : AcceptedTest}
    {c : TestCandidate} {rs : List ExecutionResult} (h : TestedAsLanded reruns t a c rs)
    (t₁ t₂ : Trace Ans) : TestedAsLanded reruns (t₁ ++ t ++ t₂) a c rs :=
  { h with block := h.block.trans ⟨t₁, t₂, rfl⟩ }

theorem acceptLandable_landable {rt : RankedTarget} {c : TestCandidate} {language : Text}
    {a : AcceptedTest} (h : acceptLandable rt c language = .ok a) :
    Landable a ∧ a.path = c.relPath ∧ a.source = c.source := by
  unfold acceptLandable at h
  split_ifs at h with hblank hsrc hpath hstrip hland
  cases h
  simp only [pathIsLandable, Bool.not_eq_false, Bool.and_eq_true, beq_iff_eq,
    Bool.not_eq_true', List.contains_eq_mem, decide_eq_false_iff_not] at hland
  obtain ⟨⟨⟨hcontrols, hnewline⟩, -⟩, hslash⟩ := hland
  refine ⟨⟨?_, ?_, ?_, ?_, ?_⟩, rfl, rfl⟩
  · simpa using hblank
  · exact redact_text_of_not_redacted (by simpa using hsrc)
  · simpa using hstrip
  · exact redact_text_of_not_redacted (by simpa using hpath)
  · exact sanitizePath_eq_self hcontrols hnewline hslash

variable [JsonText]

/-- Some candidate of the trace was tested as it landed. -/
def AcceptedFaithful (reruns : Nat) (t : Trace Ans) (a : AcceptedTest) : Prop :=
  Landable a ∧ ∃ c rs, TestedAsLanded reruns t a c rs

variable {p : Pipeline} {out out' : TargetOutcome} {t : Trace Ans}

private theorem Pipeline.assessedRun_accepted {c : TestCandidate} {mutant : Option MutantInfo}
    (h : (pairedRun c >>= fun exec => p.reportAssessedCatch c exec mutant out).Returns t out') :
    out'.accepted = out.accepted := by
  obtain ⟨exec, t', a, -, -, rfl⟩ := returns_assessedRun h
  rfl

theorem Pipeline.classifyStable_accepted {c : TestCandidate} {path : Text} {k : CatchClass}
    (h : (p.classifyStable c path k out).Returns t out') :
    out'.accepted = out.accepted ∨
      ∃ a, out'.accepted = out.accepted ++ [a] ∧ p.cfg.mode = .harden ∧ k = .hardenPass ∧
        acceptLandable p.rt c p.language = .ok a := by
  rcases returns_classifyStable h with ⟨r, hout⟩ | ⟨a, hout, hmode, hclass, hland⟩ | ⟨-, -, h⟩
  · rw [hout]
    exact .inl rfl
  · rw [hout]
    exact .inr ⟨a, rfl, hmode, hclass, hland⟩
  · exact .inl (assessedRun_accepted h)

private theorem Pipeline.candidate_accepted {initial : TestCandidate}
    (hret : (p.candidate initial out).Returns t out') :
    ∀ a ∈ out'.accepted, a ∈ out.accepted ∨ AcceptedFaithful p.cfg.reruns t a := by
  rcases returns_candidate hret with ⟨r, hout⟩ | hclassified
  · rw [hout]
    exact fun a ha => .inl ha
  obtain ⟨t₁, t₂, t₆, report, stable, rfl, hloop, hacc, hflake, h⟩ := hclassified
  clear hret
  obtain ⟨hok, t₃, t₄, rfl, hgoal⟩ := repairLoop_accepted hloop hacc
  rcases classifyStable_accepted h with heq | ⟨a, heq, hmode, hclass, hland⟩
  · exact fun a ha => .inl (heq ▸ ha)
  · rw [heq]
    intro a' ha'
    rcases List.mem_append.mp ha' with ha' | ha'
    · exact .inl ha'
    · rw [List.mem_singleton.mp ha']
      right
      rw [hmode] at hgoal
      obtain ⟨r, rfl, hr⟩ := hgoal.harden
      simp only [flakeFilter, hmode] at hflake
      obtain ⟨rs, hlen, rfl, hrs⟩ := flakeFilterSingle_hardenPass hflake hclass
      obtain ⟨hl, hpath, hsource⟩ := acceptLandable_landable hland
      refine ⟨hl, report.candidate, r :: rs, hok, hpath, hsource, by simp [hlen], ?_, ?_⟩
      · simpa [hr] using hrs
      · exact ⟨t₃, t₆, by simp⟩

theorem Pipeline.harvested_accepted {hc : HarvestedCatch}
    (h : (p.harvested hc out).Returns t out') : out'.accepted = out.accepted := by
  rcases returns_harvested h with ⟨r, hout⟩ | ⟨_, _, _, _, _, _, h⟩
  · rw [hout]
    rfl
  · exact assessedRun_accepted h

theorem acceptedFaithful_of_returns {rt : RankedTarget} {context : ContextBundle}
    {promptHints : List Text} {cfg : RunConfig}
    (h : (processTarget rt context promptHints cfg).Returns t out) :
    ∀ a ∈ out.accepted, AcceptedFaithful cfg.reruns t a := by
  refine processTarget_induction
    (P := fun t out => ∀ a ∈ out.accepted, AcceptedFaithful cfg.reruns t a) ?_ ?_ ?_ h
  · intro t out hnil _ a ha
    simp [hnil] at ha
  · intro t₁ t₂ out out' c hP hr a ha
    rcases Pipeline.candidate_accepted hr a ha with ha | ⟨hl, c, rs, hc⟩
    · obtain ⟨hl, c, rs, hc⟩ := hP a ha
      exact ⟨hl, c, rs, by simpa using hc.append [] t₂⟩
    · exact ⟨hl, c, rs, by simpa using hc.append t₁ []⟩
  · intro t₁ t₂ out out' hc _ hP hr a ha
    rw [Pipeline.harvested_accepted hr] at ha
    obtain ⟨hl, c, rs, hc⟩ := hP a ha
    exact ⟨hl, c, rs, by simpa using hc.append [] t₂⟩

/-- Every accepted test of an outcome is a landable copy of a candidate that passed the goal run
and every flake trial. -/
theorem processTarget_accepted_faithful (rt : RankedTarget) (context : ContextBundle)
    (promptHints : List Text) (cfg : RunConfig) (t : Trace Ans) (out : TargetOutcome)
    (h : (processTarget rt context promptHints cfg).Returns t out) :
    ∀ a ∈ out.accepted, Landable a ∧ ∃ c rs, TestedAsLanded cfg.reruns t a c rs :=
  acceptedFaithful_of_returns h

end

/-- The scripted run accepts one test, and its candidate passed four runs in a row. -/
theorem scriptedRun_accepted_faithful :
    letI := asciiWords
    let run := scriptedRun .default (fence "ok") allPass
    (outcomeOf run).accepted.map (·.source) = [("ok" : Text)] ∧
      ∀ a ∈ (outcomeOf run).accepted, Landable a ∧ ∃ c rs, TestedAsLanded 2 run.2 a c rs :=
  letI := asciiWords
  letI := noJson
  have hrun : (scriptedRun .default (fence "ok") allPass).1.isOk = true ∧
      (outcomeOf (scriptedRun .default (fence "ok") allPass)).accepted.map (·.source) =
        [("ok" : Text)] := by decide +kernel
  ⟨hrun.2, processTarget_accepted_faithful sampleTarget sampleContext [] .default _ _
    (scriptedRun_returns hrun.1)⟩

end Jitgen
