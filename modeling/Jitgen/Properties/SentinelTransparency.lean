import Jitgen.Framework.Markers
import Jitgen.Sandbox.Run
import Jitgen.Orchestrator.Doubles

/-!
# Transparency of the start sentinel

What the executor returns of a run below the shell that shows the sentinel is what it would return
of the same output without the sentinel's line.
-/

namespace Jitgen

open Text Utf8

/-- How the reads of a stream end. -/
inductive StreamEnd where
  | eof
  | failed
  | held
  deriving DecidableEq

def StreamEnd.reads : StreamEnd → List ReadResult
  | .eof => [.ok []]
  | .failed => [.err]
  | .held => []

/-- The reads return these bytes, in pieces of any sizes, and then end. -/
def Delivers (reads : List ReadResult) (ending : StreamEnd) (written : Bytes) : Prop :=
  ∃ chunks : List Bytes, (∀ c ∈ chunks, c ≠ []) ∧ reads = chunks.map .ok ++ ending.reads ∧
    chunks.flatten = written

/-- The capture of a stream of which these bytes have been read. -/
def Capture.after (cap : Nat) (bytes : Bytes) : Capture :=
  ⟨bytes.take cap, decide (cap < bytes.length), false⟩

private theorem Capture.append_after (cap : Nat) (bytes : Bytes) {chunk : Bytes}
    (hchunk : chunk ≠ []) :
    (Capture.after cap bytes).append cap chunk = Capture.after cap (bytes ++ chunk) := by
  have hpos : 0 < chunk.length := List.length_pos_iff.mpr hchunk
  unfold Capture.append Capture.after
  simp only [List.length_take, List.length_append]
  by_cases h : bytes.length < cap
  · have hmin : min cap bytes.length = bytes.length := by omega
    simp only [hmin, h, if_true, List.take_of_length_le (Nat.le_of_lt h), List.take_append,
      Capture.mk.injEq, List.append_cancel_left_eq, and_true]
    constructor
    · rw [← List.take_eq_take_min]
    · have hcap : ¬ cap < bytes.length := by omega
      simp only [hcap, decide_false, Bool.false_or, decide_eq_decide]
      omega
  · have hmin : ¬ min cap bytes.length < cap := by omega
    have hlong : cap < bytes.length + chunk.length := by omega
    simp only [hmin, if_false, hlong, decide_true, Capture.mk.injEq, and_self, and_true]
    rw [List.take_append_of_le_length (by omega)]

private theorem Capture.drain_chunks (cap : Nat) (bytes : Bytes) {chunks : List Bytes}
    (hchunks : ∀ c ∈ chunks, c ≠ []) (reads : List ReadResult) :
    Capture.drain cap (Capture.after cap bytes) (chunks.map .ok ++ reads) =
      Capture.drain cap (Capture.after cap (bytes ++ chunks.flatten)) reads := by
  induction chunks generalizing bytes with
  | nil => simp
  | cons chunk chunks ih =>
    obtain ⟨hchunk, hrest⟩ := List.forall_mem_cons.mp hchunks
    have hne : chunk.isEmpty = false := by simpa using hchunk
    rw [List.map_cons, List.cons_append, Capture.drain, hne]
    simp only [Bool.false_eq_true, if_false]
    rw [Capture.append_after cap bytes hchunk, ih (bytes ++ chunk) hrest, List.flatten_cons,
      List.append_assoc]

private theorem collect_delivers {reads : List ReadResult} {ending : StreamEnd} {written : Bytes}
    (h : Delivers reads ending written) (cap : Nat) :
    collect (spawnCapture reads cap) =
      (written.take cap, decide (cap < written.length) || decide (ending ≠ .eof)) := by
  obtain ⟨chunks, hchunks, rfl, rfl⟩ := h
  have hstart : (⟨[], false, false⟩ : Capture) = Capture.after cap [] := by simp [Capture.after]
  unfold spawnCapture
  rw [hstart, Capture.drain_chunks cap [] hchunks, List.nil_append]
  cases ending <;> simp [StreamEnd.reads, Capture.drain, Capture.after, collect]

/-- The line that the shell of a plan writes before it runs the command. -/
def sentinelLine : Bytes := toUtf8 startSentinel ++ [10]

/-- Lines of a launcher, of which none is the sentinel. -/
structure IsBanner (banner : Bytes) : Prop where
  terminated : banner = [] ∨ banner.getLast? = some 10
  lines : ∀ l ∈ banner.splitOn 10, l ≠ toUtf8 startSentinel

private theorem stripMarkerGo_line {marker line : Bytes} (done : Bytes) (hline : 10 ∉ line)
    (heq : done ++ line = marker) (rest : Bytes) :
    stripMarkerGo marker done (line ++ 10 :: rest) = (rest, true) := by
  induction line generalizing done with
  | nil =>
    rw [List.append_nil] at heq
    simp [stripMarkerGo, heq]
  | cons b line ih =>
    rw [List.mem_cons, not_or] at hline
    rw [List.cons_append, stripMarkerGo, if_neg (Ne.symm hline.1)]
    exact ih (done ++ [b]) hline.2 (by simpa using heq)

private theorem stripMarkerGo_banner {marker banner : Bytes} (line : Bytes) (hline : 10 ∉ line)
    (hend : banner.getLast? = some 10) (hlines : ∀ l ∈ (line ++ banner).splitOn 10, l ≠ marker)
    (rest : Bytes) :
    stripMarkerGo marker line (banner ++ rest) =
      (line ++ banner ++ (stripMarkerGo marker [] rest).1, (stripMarkerGo marker [] rest).2) := by
  induction banner generalizing line with
  | nil => simp at hend
  | cons b banner ih =>
    by_cases hb : b = 10
    · subst hb
      rw [List.splitOn_append_cons_self_of_not_mem hline, List.forall_mem_cons] at hlines
      rw [List.cons_append, stripMarkerGo, if_pos rfl, if_neg hlines.1]
      cases hbanner : banner with
      | nil => simp
      | cons c cs =>
        have hlast : banner.getLast? = some 10 := by
          rw [hbanner] at hend ⊢
          simpa using hend
        rw [← hbanner, ih [] (by simp) hlast (by simpa using hlines.2)]
        simp
    · have hlast : banner.getLast? = some 10 := by
        cases banner with
        | nil => simp [hb] at hend
        | cons c cs => simpa using hend
      have hline' : 10 ∉ line ++ [b] := by
        simp only [List.mem_append, List.mem_singleton, not_or]
        exact ⟨hline, fun h => hb h.symm⟩
      rw [List.cons_append, stripMarkerGo, if_neg hb,
        ih (line ++ [b]) hline' hlast (by simpa using hlines)]
      simp

private theorem newline_notMem_sentinel : 10 ∉ toUtf8 startSentinel := by decide +kernel

private theorem stripMarkerLine_sentinel {banner : Bytes} (hb : IsBanner banner) (rest : Bytes) :
    stripMarkerLine (banner ++ sentinelLine ++ rest) (toUtf8 startSentinel) =
      (banner ++ rest, true) := by
  have hfound : stripMarkerGo (toUtf8 startSentinel) [] (sentinelLine ++ rest) = (rest, true) := by
    unfold sentinelLine
    rw [List.append_assoc]
    exact stripMarkerGo_line [] newline_notMem_sentinel rfl rest
  unfold stripMarkerLine
  rw [List.append_assoc]
  rcases hb.terminated with hnil | hend
  · rw [hnil]
    exact hfound
  · rw [stripMarkerGo_banner [] (by simp) hend (by simpa using hb.lines), hfound]
    simp

private theorem trimTo_take {cap window : Nat} (hcap : cap ≤ window) (written : Bytes)
    (cut : Bool) :
    trimTo cap (written.take window) (decide (window < written.length) || cut) =
      (written.take cap, decide (cap < written.length) || cut) := by
  unfold trimTo
  rw [List.length_take]
  split
  · have hlong : cap < written.length := by omega
    rw [List.take_take, Nat.min_eq_left hcap]
    simp [hlong]
  · by_cases hshort : written.length ≤ window
    · have h₁ : ¬ window < written.length := by omega
      have h₂ : ¬ cap < written.length := by omega
      rw [List.take_of_length_le hshort, List.take_of_length_le (by omega)]
      simp [h₁, h₂]
    · have hsame : window = cap := by omega
      rw [hsame]

private theorem length_sentinelLine : sentinelLine.length = utf8Len startSentinel + 1 := by
  decide +kernel

private theorem take_banner {banner : Bytes} {window : Nat} (hwindow : banner.length ≤ window)
    (written : Bytes) :
    (banner ++ sentinelLine ++ written).take (window + (utf8Len startSentinel + 1)) =
        banner ++ sentinelLine ++ written.take (window - banner.length) ∧
      (banner ++ written).take window = banner ++ written.take (window - banner.length) := by
  have hlength : (banner ++ sentinelLine).length = banner.length + (utf8Len startSentinel + 1) := by
    rw [List.length_append, length_sentinelLine]
  constructor
  · rw [List.take_append, hlength, List.take_of_length_le (by omega),
      show window + (utf8Len startSentinel + 1) - (banner.length + (utf8Len startSentinel + 1)) =
        window - banner.length from by omega]
  · rw [List.take_append, List.take_of_length_le hwindow]

private theorem shows_degradation_newline (b : Backend) (s t : Text) :
    b.stderrShowsSilentDegradation (s ++ '\n' :: t) =
      (b.stderrShowsSilentDegradation s || b.stderrShowsSilentDegradation t) := by
  unfold Backend.stderrShowsSilentDegradation
  cases hb : b.silentDegradationMarkers with
  | none => rfl
  | some markers =>
    have hmarkers : ∀ m ∈ markers, '\n' ∉ m := by
      cases b <;> simp only [Backend.silentDegradationMarkers, reduceCtorEq] at hb
      cases hb
      decide
    have hlower : toAsciiLower (s ++ '\n' :: t) = toAsciiLower s ++ '\n' :: toAsciiLower t := by
      unfold toAsciiLower
      rw [List.map_append, List.map_cons]
      rfl
    have hone : ∀ m ∈ markers, hasSubstr (toAsciiLower (s ++ '\n' :: t)) m =
        (hasSubstr (toAsciiLower s) m || hasSubstr (toAsciiLower t) m) := by
      intro m hm
      rw [Bool.eq_iff_iff, Bool.or_eq_true, hasSubstr_iff, hasSubstr_iff, hasSubstr_iff, hlower]
      exact infix_append_cons (hmarkers m hm)
    rw [Bool.eq_iff_iff, Bool.or_eq_true]
    simp only [List.any_eq_true]
    constructor
    · rintro ⟨m, hm, h⟩
      rw [hone m hm, Bool.or_eq_true] at h
      exact h.imp (fun h => ⟨m, hm, h⟩) (fun h => ⟨m, hm, h⟩)
    · rintro (⟨m, hm, h⟩ | ⟨m, hm, h⟩) <;> exact ⟨m, hm, by rw [hone m hm, h]; simp⟩

private theorem sentinel_shows_nothing (b : Backend) :
    b.stderrShowsSilentDegradation (fromUtf8Lossy (toUtf8 startSentinel)) = false := by
  cases b <;> decide +kernel

private theorem shows_degradation_sentinel (b : Backend) {banner : Bytes} (hb : IsBanner banner)
    (rest : Bytes) :
    b.stderrShowsSilentDegradation (fromUtf8Lossy (banner ++ sentinelLine ++ rest)) =
      b.stderrShowsSilentDegradation (fromUtf8Lossy (banner ++ rest)) := by
  have hline : b.stderrShowsSilentDegradation (fromUtf8Lossy (sentinelLine ++ rest)) =
      b.stderrShowsSilentDegradation (fromUtf8Lossy rest) := by
    unfold sentinelLine
    rw [List.append_assoc, List.singleton_append, fromUtf8Lossy_newline, shows_degradation_newline,
      sentinel_shows_nothing, Bool.false_or]
  rcases hb.terminated with hnil | hend
  · rw [hnil]
    exact hline
  · obtain ⟨init, rfl⟩ : ∃ init, banner = init ++ [10] := by
      refine ⟨banner.dropLast, ?_⟩
      exact (List.dropLast_append_getLast? 10 hend).symm
    simp only [List.append_assoc, List.cons_append, List.nil_append,
      fromUtf8Lossy_newline, shows_degradation_newline, hline]

/-- A plan as it would be without its sentinel. -/
def SandboxPlan.plain (plan : SandboxPlan) : SandboxPlan :=
  { plan with expectsStartSentinel := false }

private theorem cap_le_flooredCap (plan : SandboxPlan) (policy : ExecPolicy) :
    policy.cap ≤ flooredCap plan policy := by
  unfold flooredCap
  split <;> omega

variable {plan : SandboxPlan} {policy : ExecPolicy} {banner tail written : Bytes}
  {reads reads' : List ReadResult} {ending : StreamEnd}

/-- The error output of a plan as it is captured and as it is returned, and whether the sentinel is
missing. -/
structure ErrorOutput where
  degraded : Bool
  returned : Bytes × Bool
  missing : Bool
  deriving DecidableEq

def errorOutput (plan : SandboxPlan) (policy : ExecPolicy) (reads : List ReadResult) :
    ErrorOutput :=
  let stderr := collect (spawnCapture reads (errCaptureCap plan policy))
  let clean := cleanStderr plan stderr.1
  { degraded := plan.backend.stderrShowsSilentDegradation (fromUtf8Lossy stderr.1)
    returned := trimTo policy.cap clean.1 stderr.2
    missing := clean.2 }

private theorem errorOutput_plain (h : Delivers reads ending written) :
    errorOutput plan.plain policy reads =
      { degraded := plan.backend.stderrShowsSilentDegradation
          (fromUtf8Lossy (written.take (flooredCap plan.plain policy)))
        returned := (written.take policy.cap,
          decide (policy.cap < written.length) || decide (ending ≠ .eof))
        missing := false } := by
  have htrim := trimTo_take (cap_le_flooredCap plan.plain policy) written (decide (ending ≠ .eof))
  unfold errorOutput
  rw [collect_delivers h]
  simp only [ErrorOutput.mk.injEq]
  exact ⟨rfl, htrim, rfl⟩

/-- With the sentinel's line in it, the output is captured and returned as without. -/
private theorem errorOutput_sentinel (hplan : plan.expectsStartSentinel = true)
    (hbanner : IsBanner banner) (hwindow : banner.length ≤ flooredCap plan policy)
    (h : Delivers reads ending (banner ++ sentinelLine ++ tail)) :
    errorOutput plan policy reads =
      { degraded := plan.backend.stderrShowsSilentDegradation
          (fromUtf8Lossy ((banner ++ tail).take (flooredCap plan policy)))
        returned := ((banner ++ tail).take policy.cap,
          decide (policy.cap < (banner ++ tail).length) || decide (ending ≠ .eof))
        missing := false } := by
  obtain ⟨hraw, hclean⟩ := take_banner hwindow tail
  have hcap : errCaptureCap plan policy =
      flooredCap plan policy + (utf8Len startSentinel + 1) := if_pos hplan
  have hcut : decide (flooredCap plan policy + (utf8Len startSentinel + 1) <
      (banner ++ sentinelLine ++ tail).length) =
      decide (flooredCap plan policy < (banner ++ tail).length) := by
    simp only [List.length_append, length_sentinelLine, decide_eq_decide]
    omega
  have hstrip := stripMarkerLine_sentinel hbanner (tail.take (flooredCap plan policy - banner.length))
  have htrim := trimTo_take (cap_le_flooredCap plan policy) (banner ++ tail)
    (decide (ending ≠ .eof))
  unfold errorOutput
  rw [collect_delivers h, hcap, hcut, hraw]
  simp only [cleanStderr, hplan, if_true, hstrip, ErrorOutput.mk.injEq]
  refine ⟨?_, ?_, rfl⟩
  · rw [hclean]
    exact shows_degradation_sentinel plan.backend hbanner _
  · rw [← hclean]
    exact htrim

private theorem degraded_plain (hplan : plan.expectsStartSentinel = true) (written : Bytes) :
    plan.backend.stderrShowsSilentDegradation
        (fromUtf8Lossy (written.take (flooredCap plan.plain policy))) =
      plan.backend.stderrShowsSilentDegradation
        (fromUtf8Lossy (written.take (flooredCap plan policy))) := by
  cases hmode : plan.backend.hasSilentDegradationMode with
  | true =>
    have hsame : flooredCap plan.plain policy = flooredCap plan policy := by
      simp [flooredCap, SandboxPlan.plain, hmode, hplan]
    rw [hsame]
  | false =>
    have hnone : plan.backend.silentDegradationMarkers = none := by
      simpa [Backend.hasSilentDegradationMode] using hmode
    simp [Backend.stderrShowsSilentDegradation, hnone]

section

variable [WordChars]

/-- A run below the shell that shows the sentinel ends as the same output without that line would
end under the plan without a sentinel: the same error or result, apart from the time it took. -/
theorem sentinel_transparent {stdout : Bytes} {outEnding : StreamEnd} {child child' : Child}
    (hplan : plan.expectsStartSentinel = true) (hbanner : IsBanner banner)
    (hwindow : banner.length ≤ flooredCap plan policy)
    (hout : Delivers child.stdout outEnding stdout) (hout' : Delivers child'.stdout outEnding stdout)
    (herr : Delivers child.stderr ending (banner ++ sentinelLine ++ tail))
    (herr' : Delivers child'.stderr ending (banner ++ tail)) (hwait : child.wait = child'.wait) :
    runReporting plan.plain policy (.spawned child') =
      (runReporting plan policy (.spawned child)).map fun r =>
        ({ r.1 with durationMs := child'.durationMs }, r.2) := by
  have hsame : errorOutput plan.plain policy child'.stderr = errorOutput plan policy child.stderr := by
    rw [errorOutput_plain herr', errorOutput_sentinel hplan hbanner hwindow herr,
      degraded_plain hplan]
  have hstdout : collect (spawnCapture child'.stdout policy.cap) =
      collect (spawnCapture child.stdout policy.cap) := by
    rw [collect_delivers hout, collect_delivers hout']
  unfold errorOutput at hsame
  simp only [ErrorOutput.mk.injEq] at hsame
  obtain ⟨hdegraded, hreturned, hmissing⟩ := hsame
  unfold runReporting
  simp only [hstdout, hdegraded, hreturned, hmissing, hwait]
  split
  · rfl
  · split
    · rfl
    · rfl

end

def localPlan : SandboxPlan where
  backend := .constrainedLocal
  program := "/bin/sh"
  args := []
  cwd := "/o"
  env := []
  containerName := none
  cleanup := none
  newProcessGroup := true
  buildSignal := .default
  expectsStartSentinel := true

/-- A process that fails after it wrote these pieces to its error stream. -/
def failingChild (pieces : List Bytes) : Child where
  stdout := [.ok []]
  stderr := pieces.map .ok ++ [.ok []]
  wait := .ok (⟨some 1, none⟩, false)
  durationMs := 5

def warning : Bytes := toUtf8 "warning\n"

private theorem delivers_failingChild {pieces : List Bytes} (h : ∀ c ∈ pieces, c ≠ []) :
    Delivers (failingChild pieces).stderr .eof pieces.flatten :=
  ⟨pieces, h, rfl, rfl⟩

theorem repeated_sentinel_transparent :
    letI := asciiWords
    runReporting localPlan.plain (.fromTrusted .default)
        (.spawned (failingChild [warning, sentinelLine, toUtf8 "E1"])) =
      (runReporting localPlan (.fromTrusted .default)
        (.spawned (failingChild [warning ++ sentinelLine, sentinelLine ++ toUtf8 "E", toUtf8 "1"]))).map
          fun r => ({ r.1 with durationMs := 5 }, r.2) := by
  let _ := asciiWords
  have hbanner : IsBanner warning := ⟨.inr (by decide +kernel), by decide +kernel⟩
  have hout : Delivers (failingChild []).stdout .eof [] := ⟨[], by simp, rfl, rfl⟩
  have herr : Delivers
      (failingChild [warning ++ sentinelLine, sentinelLine ++ toUtf8 "E", toUtf8 "1"]).stderr .eof
      (warning ++ sentinelLine ++ (sentinelLine ++ toUtf8 "E1")) :=
    delivers_failingChild (by decide +kernel)
  have herr' : Delivers (failingChild [warning, sentinelLine, toUtf8 "E1"]).stderr .eof
      (warning ++ (sentinelLine ++ toUtf8 "E1")) := delivers_failingChild (by decide +kernel)
  have hwindow : warning.length ≤ flooredCap localPlan (.fromTrusted .default) := by decide +kernel
  exact sentinel_transparent rfl hbanner hwindow hout hout herr herr' rfl

end Jitgen
