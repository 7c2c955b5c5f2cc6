import Jitgen.Properties.ArgvIndependence
import Jitgen.Sandbox.Run
import Jitgen.Orchestrator.Doubles

/-!
# Runs whose command was never started

A tier below the limit-setting shell shows that its command was reached. The other launchers show
nothing, and how such a run counts is decided by their exit status.
-/

namespace Jitgen

open Text Utf8

/-- All bytes that the reads return. -/
def written (reads : List ReadResult) : Bytes :=
  reads.flatMap fun
    | .ok chunk => chunk
    | .err => []

private theorem Capture.append_prefix {cap : Nat} {c : Capture} {seen : Bytes}
    (hbuf : c.buf <+: seen) (hfull : c.buf = seen ∨ cap ≤ c.buf.length) (chunk : Bytes) :
    (c.append cap chunk).buf <+: seen ++ chunk ∧
      ((c.append cap chunk).buf = seen ++ chunk ∨ cap ≤ (c.append cap chunk).buf.length) := by
  unfold Capture.append
  by_cases hroom : c.buf.length < cap
  · rw [if_pos hroom]
    have hsame : c.buf = seen := hfull.resolve_right (by omega)
    rw [hsame] at hroom ⊢
    refine ⟨(List.prefix_append_right_inj seen).mpr (List.take_prefix _ _), ?_⟩
    by_cases hfits : chunk.length ≤ cap - seen.length
    · left
      show seen ++ chunk.take (min (cap - seen.length) chunk.length) = _
      rw [Nat.min_eq_right hfits, List.take_length]
    · right
      show cap ≤ (seen ++ chunk.take (min (cap - seen.length) chunk.length)).length
      rw [List.length_append, List.length_take]
      omega
  · rw [if_neg hroom]
    exact ⟨hbuf.trans (List.prefix_append _ _), .inr (Nat.le_of_not_lt hroom)⟩

private theorem Capture.drain_prefix {cap : Nat} {c : Capture} {seen : Bytes}
    (hbuf : c.buf <+: seen) (hfull : c.buf = seen ∨ cap ≤ c.buf.length) (reads : List ReadResult) :
    (Capture.drain cap c reads).buf <+: seen ++ written reads := by
  induction reads generalizing c seen with
  | nil => simpa [Capture.drain, written] using hbuf
  | cons read reads ih =>
    cases read with
    | err => exact hbuf.trans (List.prefix_append _ _)
    | ok chunk =>
      rw [Capture.drain]
      split
      · exact hbuf.trans (List.prefix_append _ _)
      · obtain ⟨hbuf', hfull'⟩ := Capture.append_prefix hbuf hfull chunk
        have hrest := ih hbuf' hfull'
        rw [List.append_assoc] at hrest
        exact hrest

private theorem collect_prefix (reads : List ReadResult) (cap : Nat) :
    (collect (spawnCapture reads cap)).1 <+: written reads :=
  @Capture.drain_prefix _ _ [] (List.prefix_refl _) (.inl rfl) reads

private theorem stripMarkerGo_found {marker line stderr : Bytes}
    (h : (stripMarkerGo marker line stderr).2 = true) : marker <:+: line ++ stderr := by
  induction stderr generalizing line with
  | nil =>
    unfold stripMarkerGo at h
    split at h
    · rename_i heq
      simp [heq]
    · cases h
  | cons b rest ih =>
    rw [stripMarkerGo] at h
    split at h
    · split at h
      · rename_i heq
        rw [heq]
        exact (List.prefix_append _ _).isInfix
      · have hrest := ih h
        rw [List.nil_append] at hrest
        exact hrest.trans ((List.suffix_cons b rest).isInfix.trans List.infix_append_right)
    · have hrest := ih h
      rw [List.append_assoc] at hrest
      exact hrest

/-- A run that ended without its command: a launcher, engine or shell failed before it could show the
sentinel, or the shell showed it and could then not execute the command. -/
inductive NeverStarted (plan : SandboxPlan) (child : Child) : Prop where
  | unseen (h : ¬ toUtf8 startSentinel <:+: written child.stderr)
  | unexecuted (hshell : plan.expectsStartSentinel = true)
      (hstatus : ∀ status late, child.wait = .ok (status, late) →
        status.code = some 126 ∨ status.code = some 127 ∨ status.signal.isSome = true)

/-- Whether the output that a run returns shows a failed build. -/
def showsBuildFailure (plan : SandboxPlan) (policy : ExecPolicy) (child : Child)
    (status : ExitStatus) : Bool :=
  let stderr := collect (spawnCapture child.stderr (errCaptureCap plan policy))
  detectBuildFailure plan.buildSignal status.code
    (collect (spawnCapture child.stdout policy.cap)).1
    (trimTo policy.cap (cleanStderr plan stderr.1).1 stderr.2).1

/-- Whether the sentinel that a plan expects is missing from the captured output. -/
def sentinelMissing (plan : SandboxPlan) (policy : ExecPolicy) (child : Child) : Bool :=
  (cleanStderr plan (collect (spawnCapture child.stderr (errCaptureCap plan policy))).1).2

section

variable [WordChars] {plan : SandboxPlan} {policy : ExecPolicy} {child : Child}
  {status : ExitStatus} {r : ExecutionResult × Bool}

private theorem runReporting_outcome (hwait : child.wait = .ok (status, false))
    (hrun : runReporting plan policy (.spawned child) = .ok r) :
    r.1.outcome = classify
      { exitCode := status.code
        signal := status.signal
        timedOut := false
        buildFailed := showsBuildFailure plan policy child status
        innerNeverStarted := sentinelMissing plan policy child } := by
  unfold runReporting at hrun
  simp only [hwait] at hrun
  split at hrun
  · cases hrun
  · cases hrun
    rfl

omit [WordChars] in
private theorem sentinelMissing_of_unseen (hplan : plan.expectsStartSentinel = true)
    (h : ¬ toUtf8 startSentinel <:+: written child.stderr) :
    sentinelMissing plan policy child = true := by
  unfold sentinelMissing cleanStderr
  rw [if_pos hplan]
  cases hfound : (stripMarkerLine (collect (spawnCapture child.stderr
      (errCaptureCap plan policy))).1 (toUtf8 startSentinel)).2 with
  | false => simp [hfound]
  | true =>
    have hin := stripMarkerGo_found hfound
    rw [List.nil_append] at hin
    have hkept := collect_prefix child.stderr (errCaptureCap plan policy)
    exact absurd (hin.trans hkept.isInfix) h

end

private theorem unusable_classify (d : Disposition) (htime : d.timedOut = false) :
    unusable (classify d) = true ↔ d.innerNeverStarted = true ∨ d.signal.isSome = true ∨
      d.buildFailed = true ∨ d.exitCode = none ∨ d.exitCode = some 126 ∨ d.exitCode = some 127 := by
  unfold classify
  rw [htime]
  cases d.innerNeverStarted
  · cases d.signal
    · cases d.buildFailed
      · cases hcode : d.exitCode with
        | none => simp [unusable]
        | some c =>
          by_cases h0 : c = 0
          · subst h0
            simp [unusable]
          · by_cases h126 : c = 126
            · subst h126
              simp [unusable]
            · by_cases h127 : c = 127
              · subst h127
                simp [unusable]
              · simp [unusable, h126, h127]
      · simp [unusable]
    · simp [unusable]
  · simp [unusable]

private theorem unusable_proves_nothing {r : ExecutionResult} (h : unusable r.outcome = true)
    (other : ExecutionResult) :
    CatchClass.fromSingle r = .broken ∧ CatchClass.fromCatch ⟨r, other⟩ = .broken ∧
      CatchClass.fromCatch ⟨other, r⟩ = .broken ∧
      (other.passed && r.outcome == .failed) = false ∧
      (r.passed && other.outcome == .failed) = false := by
  unfold CatchClass.fromSingle CatchClass.fromCatch ExecutionResult.passed
  cases hr : r.outcome <;> simp_all [unusable]

section

variable [WordChars]

/-- A run whose command was never started gives no verdict on a tier whose shell shows that it is
reached. On the other tiers nothing shows it, and the run is judged by its exit status. -/
theorem wrapper_failure_verdict {input : PlanInput} {plan : SandboxPlan} {policy : ExecPolicy}
    {child : Child} {status : ExitStatus} {r : ExecutionResult × Bool}
    (hplan : buildPlan input = .ok plan) (hnever : NeverStarted plan child)
    (hwait : child.wait = .ok (status, false))
    (hrun : runReporting plan policy (.spawned child) = .ok r) :
    (input.backend.usesPreamble = true → unusable r.1.outcome = true) ∧
    (input.backend.usesPreamble = false → (unusable r.1.outcome = true ↔
      status.signal.isSome = true ∨ showsBuildFailure plan policy child status = true ∨
        status.code = none ∨ status.code = some 126 ∨ status.code = some 127)) ∧
    (unusable r.1.outcome = true → ∀ other,
      CatchClass.fromSingle r.1 = .broken ∧ CatchClass.fromCatch ⟨r.1, other⟩ = .broken ∧
        CatchClass.fromCatch ⟨other, r.1⟩ = .broken ∧
        (other.passed && r.1.outcome == .failed) = false ∧
        (r.1.passed && other.outcome == .failed) = false) := by
  have hexpects : plan.expectsStartSentinel = input.backend.usesPreamble := by
    obtain ⟨_, _, _, -, -, -, rfl⟩ := buildPlan_ok hplan
    rfl
  have hjudged := unusable_classify
    { exitCode := status.code
      signal := status.signal
      timedOut := false
      buildFailed := showsBuildFailure plan policy child status
      innerNeverStarted := sentinelMissing plan policy child } rfl
  rw [← runReporting_outcome hwait hrun] at hjudged
  refine ⟨fun hshell => hjudged.mpr ?_, fun hbare => hjudged.trans ?_,
    unusable_proves_nothing⟩
  · cases hnever with
    | unseen h => exact .inl (sentinelMissing_of_unseen (hexpects.trans hshell) h)
    | unexecuted _ hstatus =>
      rcases hstatus status false hwait with h | h | h
      · exact .inr (.inr (.inr (.inr (.inl h))))
      · exact .inr (.inr (.inr (.inr (.inr h))))
      · exact .inr (.inl h)
  · have hseen : sentinelMissing plan policy child = false := by
      unfold sentinelMissing cleanStderr
      rw [hexpects, hbare]
      rfl
    simp [hseen]

end

/-- A launcher that writes a message and exits. -/
def failedLauncher (message : Text) (code : Int) : Child where
  stdout := [.ok []]
  stderr := [.ok (toUtf8 message), .ok []]
  wait := .ok (⟨some code, none⟩, false)
  durationMs := 5

def namespaceError : Child := failedLauncher "bwrap: setting up uid map: Permission denied\n" 1

def daemonError : Child := failedLauncher "docker: Error response from daemon: no such image.\n" 125

def dockerInput : PlanInput :=
  { tierInput .docker (testRequest ["test"] .default) with
    policy := { ExecPolicy.fromTrusted .default with
      dockerImage := some (("rust@sha256:" : Text) ++ List.replicate 64 'a') }
    runAs := some "1000:1000" }

theorem namespace_failure_verdict :
    letI := asciiWords
    ∃ plan r, buildPlan (tierInput .bwrap (testRequest ["test"] .default)) = .ok plan ∧
      runReporting plan (.fromTrusted .default) (.spawned namespaceError) = .ok r ∧
      unusable r.1.outcome = true := by
  let _ := asciiWords
  have hplan : ∃ p, buildPlan (tierInput .bwrap (testRequest ["test"] .default)) = .ok p :=
    ⟨_, rfl⟩
  obtain ⟨plan, hplan⟩ := hplan
  have hbwrap : plan.backend = .bwrap := by
    cases hplan
    rfl
  have hrun : ∃ r, runReporting plan (.fromTrusted .default) (.spawned namespaceError) = .ok r := by
    simp only [runReporting, hbwrap, Backend.stderrShowsSilentDegradation,
      Backend.silentDegradationMarkers, Bool.false_eq_true, if_false]
    exact ⟨_, rfl⟩
  obtain ⟨r, hrun⟩ := hrun
  have hunseen : ¬ toUtf8 startSentinel <:+: written namespaceError.stderr := by decide +kernel
  exact ⟨plan, r, hplan, hrun, (wrapper_failure_verdict hplan (.unseen hunseen) rfl hrun).1 rfl⟩

/-- An engine that cannot start the container exits with a code that counts as a failed test. -/
theorem engine_failure_counts_as_test_failure :
    letI := asciiWords
    ∃ plan r, buildPlan dockerInput = .ok plan ∧ NeverStarted plan daemonError ∧
      runReporting plan (.fromTrusted .default) (.spawned daemonError) = .ok r ∧
      r.1.outcome = .failed := by
  let _ := asciiWords
  have hunseen : ¬ toUtf8 startSentinel <:+: written daemonError.stderr := by decide +kernel
  exact ⟨_, _, rfl, .unseen hunseen, rfl, rfl⟩

end Jitgen
