import Jitgen.Orchestrator.Sessions
import Jitgen.Orchestrator.StoreDoubles

/-!
# Freshness of stored reports

A stored report is served only for a run marked completed, and a run is marked completed only while
its report file is the one assembled by the drive begun last.
-/

namespace Jitgen

open Text

variable {ι : Type}

/-- The report assembled by the drive of a run that was begun last. -/
def lastAssembled (run : RunId) : List (RunEntry ι) → Option RunReport
  | [] => none
  | e :: rest =>
    match e.event with
    | ⟨.ext (.assembled r report), _⟩ => if r = run then some report else lastAssembled run rest
    | ⟨.ext (.analyze r _ _ _ _), _⟩ => if r = run then none else lastAssembled run rest
    | _ => lastAssembled run rest

private theorem running_ne_completed : ("running" : Text) ≠ "completed" := by decide

/-- The run is not marked completed. -/
def NotCompleted (run : RunId) (w : RunWorld ι) : Prop :=
  ∀ info, w.state.index run = some info → info.status ≠ "completed"

/-- An operation that neither marks the run completed nor begins or ends a drive of it, nor writes
its report file. -/
def Harmless (run : RunId) (o : DriveOp RunOp) : Prop :=
  subject o = some run → match o with
    | .store (.insertRun info) => info.status ≠ "completed"
    | .store (.setRunStatus _ status) => status ≠ "completed"
    | .store (.writeArtifact _ rel _) => rel ≠ "report.json"
    | .store _ => True
    | .ext _ => False

/-- An operation that does not mark the run completed. -/
def NeverCompletes (run : RunId) : DriveOp RunOp → Prop
  | .store (.insertRun info) => info.runId = run → info.status ≠ "completed"
  | .store (.setRunStatus r status) => r = run → status ≠ "completed"
  | _ => True

section

variable {run : RunId} {i : ι} {w : RunWorld ι} {c : Choice RunAns} {o : DriveOp RunOp}

private theorem harmless_of_about {r : RunId} (hr : r ≠ run) (ho : About r o) : Harmless run o :=
  fun hs => absurd (ho run hs).symm hr

private theorem Harmless.neverCompletes (ho : Harmless run o) : NeverCompletes run o := by
  unfold NeverCompletes
  split
  · exact fun hr => ho (congrArg some hr)
  · exact fun hr => ho (congrArg some hr)
  · trivial

private theorem lastAssembled_harmless (ho : Harmless run o) :
    lastAssembled run (w.perform handle i c o).2.history = lastAssembled run w.history := by
  rw [World.perform_history]
  cases o with
  | store o => rfl
  | ext x =>
    cases x with
    | analyze r base head trusted injected => exact if_neg fun hr => ho (congrArg some hr)
    | assembled r report => exact if_neg fun hr => ho (congrArg some hr)
    | _ => rfl

private theorem notCompleted_perform (ho : NeverCompletes run o) (hw : NotCompleted run w) :
    NotCompleted run (w.perform handle i c o).2 := by
  cases o with
  | ext x => exact hw
  | store o =>
    intro row hrow
    rw [World.perform_state] at hrow
    rcases handle_state c o w.state with hs | hs <;> rw [hs] at hrow
    · exact hw row hrow
    · rcases w.state.apply_index o run with hidx | ⟨info, rfl, hinfo, hidx⟩ |
        ⟨status, info, rfl, hidx⟩ <;> rw [hidx] at hrow
      · exact hw row hrow
      · cases hrow
        exact ho hinfo
      · cases hrow
        exact ho rfl

private theorem neverCompletes_of_step {r : RunId} {rels : Text → Prop} (ho : StepOp r rels o) :
    NeverCompletes run o := by
  cases o with
  | store o => cases o <;> trivial
  | ext x => trivial

private theorem harmless_of_reopen {r : RunId} (ho : ReopenOp r o) : Harmless run o := by
  intro _
  rcases ho with rfl | rfl <;> trivial

private theorem harmless_of_open {info : RunMeta} (hinfo : info.status ≠ "completed")
    (ho : OpenOp info o) : Harmless run o := by
  rcases ho with rfl | ho
  · exact fun _ => hinfo
  · exact harmless_of_reopen ho

private theorem harmless_of_step {r : RunId} {rels : Text → Prop} (hrels : ¬ rels "report.json")
    (ho : StepOp r rels o) : Harmless run o := by
  intro hs
  cases o with
  | store o =>
    cases o with
    | writeArtifact r rel bytes => exact fun hrel => hrels (hrel ▸ ho.2)
    | insertRun info => cases ho
    | setRunStatus r status => cases ho
    | _ => trivial
  | ext x =>
    cases x with
    | analyze r base head trusted injected => cases ho
    | assembled r report => cases ho
    | _ => cases hs

variable [Serde]

/-- The report file of the run is the one assembled by the drive begun last. -/
def ReportOnFile (run : RunId) (w : RunWorld ι) : Prop :=
  ∃ report bytes, lastAssembled run w.history = some report ∧
    Serde.reportPretty report = .ok bytes ∧
    (w.state.runs run).files "report.json" = some bytes

/-- A run marked completed has its last report on file. -/
def Fresh (run : RunId) (w : RunWorld ι) : Prop := NotCompleted run w ∨ ReportOnFile run w

private theorem reportOnFile_store {o : StoreOp}
    (ho : ∀ bytes, o ≠ .writeArtifact run "report.json" bytes) (hw : ReportOnFile run w) :
    ReportOnFile run (w.perform handle i c (.store o)).2 := by
  obtain ⟨report, bytes, hlast, hbytes, hfile⟩ := hw
  refine ⟨report, bytes, hlast, hbytes, ?_⟩
  rw [World.perform_state]
  rcases handle_state c o w.state with hs | hs <;> rw [hs]
  · exact hfile
  · rcases w.state.apply_files o run "report.json" with hsame | ⟨bytes', rfl, -⟩
    · rw [hsame, hfile]
    · exact absurd rfl (ho bytes')

private theorem reportOnFile_harmless (ho : Harmless run o) (hw : ReportOnFile run w) :
    ReportOnFile run (w.perform handle i c o).2 := by
  cases o with
  | store o =>
    refine reportOnFile_store ?_ hw
    rintro bytes rfl
    exact ho rfl rfl
  | ext x =>
    obtain ⟨report, bytes, hlast, hrest⟩ := hw
    exact ⟨report, bytes, (lastAssembled_harmless ho).trans hlast, hrest⟩

private theorem fresh_harmless (ho : Harmless run o) (hw : Fresh run w) :
    Fresh run (w.perform handle i c o).2 :=
  hw.imp (notCompleted_perform ho.neverCompletes) (reportOnFile_harmless ho)

private theorem safe_harmless {α : Type} {p : RunProg α} (hp : p.Uses (Harmless run))
    (hw : Fresh run w) :
    p.Safe handle i (.keeping (Fresh run)) (fun _ => Fresh run) w :=
  Fallible.keeps_of_uses hp (fun _ ho _ _ => fresh_harmless ho) (fun _ ho _ _ => fresh_harmless ho)
    hw

private theorem safe_notCompleted {α : Type} {p : RunProg α} (hp : p.Uses (NeverCompletes run))
    (hw : NotCompleted run w) :
    p.Safe handle i (.keeping (Fresh run)) (fun _ => NotCompleted run) w := by
  refine Fallible.safe_of_uses hp (fun w w' heq hw => ?_) (fun o ho w c hw => ?_) hw
  · rwa [show w' = w from heq]
  · have hnext := notCompleted_perform (i := i) (c := c) ho hw
    exact ⟨fun _ => .inl hnext, hnext⟩

private theorem safe_onFile {α : Type} {p : RunProg α} (hp : p.Uses (Harmless run))
    (hw : ReportOnFile run w) :
    p.Safe handle i (.keeping (Fresh run)) (fun _ => ReportOnFile run) w :=
  Fallible.keeps_of_uses hp (fun _ ho _ _ => fresh_harmless ho)
    (fun _ ho _ _ => reportOnFile_harmless ho) hw

/-- The drive of a run that is not marked completed has assembled its report. -/
def Unpublished (run : RunId) (report : RunReport) (w : RunWorld ι) : Prop :=
  NotCompleted run w ∧ lastAssembled run w.history = some report

private theorem safe_assembled {α : Type} {p : RunProg α} {report : RunReport} {rels : Text → Prop}
    {r : RunId} (hp : p.Uses (fun o => StepOp r rels o ∧ ∃ so, o = .store so))
    (hw : Unpublished run report w) :
    p.Safe handle i (.keeping (Fresh run)) (fun _ => Unpublished run report) w := by
  refine Fallible.safe_of_uses hp (fun w w' heq hw => ?_) ?_ hw
  · rwa [show w' = w from heq]
  · rintro _ ⟨ho, so, rfl⟩ w c hw
    have hnext := notCompleted_perform (i := i) (c := c) (neverCompletes_of_step ho) hw.1
    exact ⟨fun _ => .inl hnext, hnext, hw.2⟩

section

variable [Digest]

/-- Storing the report: from the moment its file is written, it is the one on file. -/
private theorem safe_persistReport {report : RunReport} (hw : Unpublished run report w) :
    (persistReport run report).Safe handle i (.keeping (Fresh run)) (fun _ => ReportOnFile run)
      w := by
  refine Fallible.safe_bind (Fallible.keeps_ofExcept (P := fun bytes w =>
    Serde.reportPretty report = .ok bytes ∧ Unpublished run report w)
    fun bytes hbytes => ⟨serdeResult_ok.mp hbytes, hw⟩) ?_
  rintro bytes w ⟨hbytes, hw⟩
  have hstore : ∀ {o : StoreOp}, StepOp run (fun _ => True) (.store o) →
      (stateOp o : RunProg o.Res).Uses
        (fun o => StepOp run (fun _ => True) o ∧ ∃ so, o = .store so) :=
    fun ho => uses_stateOp ⟨ho, _, rfl⟩
  refine Fallible.safe_bind (safe_assembled (hstore rfl) hw) fun _ w hw => ?_
  refine Fallible.safe_bind (safe_assembled (hstore rfl) hw) fun _ w hw => ?_
  refine Fallible.safe_bind (R := fun _ w => ReportOnFile run w) ?_ fun _ w hw =>
    safe_onFile (uses_stateOp fun _ => trivial) hw
  have hjoin : (RunHandle.safeJoin "report.json" : RunProg Unit) = pure () := by
    unfold RunHandle.safeJoin
    rw [show UnixPath.components "report.json" = [.normal "report.json"] by decide]
    rfl
  unfold RunHandle.publishArtifact
  rw [hjoin]
  refine Fallible.safe_bind (R := fun _ w => Unpublished run report w)
    (Fallible.keeps_pure hw) fun _ w hw => ?_
  refine Fallible.safe_bind (Fallible.keeps_attempt (P := fun _ w => ReportOnFile run w)
    (fun c _ => .inl (notCompleted_perform (by trivial) hw.1)) fun c a ha => ?_) fun _ w hw => ?_
  · refine ⟨report, bytes, hw.2, hbytes, ?_⟩
    rw [World.perform_state, handle_ok ha]
    simp [Store.apply, Store.updateRun, RunDir.setFile]
  · refine Fallible.safe_bind (safe_onFile (uses_stateOp fun _ => trivial) hw) fun _ w hw => ?_
    exact Fallible.keeps_pure hw

variable [WordChars]

private theorem safe_driveRun (hw : NotCompleted run w) (base head : Text) (trusted : TrustedConfig)
    (injected : Bool) :
    (driveRun run base head trusted injected).Safe handle i (.keeping (Fresh run))
      (fun _ => ReportOnFile run) w := by
  refine Fallible.safe_bind (safe_notCompleted (Fallible.uses_attempt trivial) hw) ?_
  intro analysis w hw
  refine Fallible.safe_bind (safe_notCompleted ((uses_driveTargets _ _ _).mono fun _ =>
    neverCompletes_of_step) hw) ?_
  intro outcomes w hw
  dsimp only
  refine Fallible.safe_bind (Fallible.keeps_attempt (P := fun _ w => Unpublished run _ w)
    (fun c _ => .inl (notCompleted_perform (by trivial) hw))
    fun c _ _ => ⟨notCompleted_perform (by trivial) hw, if_pos rfl⟩) fun _ w hw => ?_
  refine Fallible.safe_bind (safe_persistReport hw) fun _ w hw => ?_
  exact Fallible.keeps_pure hw

omit [Digest] [WordChars] in
private theorem safe_markRunning :
    (RunStore.setRunStatus run "running" : RunProg Unit).Safe handle i (.keeping (Fresh run))
      (fun _ => NotCompleted run) w := by
  refine Fallible.keeps_attempt (fun c hw => fresh_harmless (fun _ => running_ne_completed) hw) ?_
  intro c a ha row hrow
  rw [World.perform_state] at hrow
  have hok : handle c (.store (.setRunStatus run "running")) w.state =
      w.state.apply (.setRunStatus run "running") := handle_ok ha
  rw [hok] at hrow
  have hret : (w.state.apply (.setRunStatus run "running")).1 = .ok a := by
    rw [← hok]
    exact ha
  cases hidx : w.state.index run with
  | none => simp [Store.apply, hidx] at hret
  | some info =>
    simp only [Store.apply, hidx, Store.setMeta, Function.update_self, Option.some.injEq] at hrow
    rw [← hrow]
    exact running_ne_completed

omit [Digest] [WordChars] in
private theorem safe_markCompleted (hw : ReportOnFile run w) :
    (RunStore.setRunStatus run "completed" : RunProg Unit).Safe handle i (.keeping (Fresh run))
      (fun _ _ => True) w :=
  Fallible.keeps_attempt (fun c _ => .inr (reportOnFile_store (by simp) hw)) fun _ _ _ => trivial

omit [Digest] [WordChars] in
private theorem safe_harmless_any {α : Type} {p : RunProg α} (hp : p.Uses (Harmless run))
    (hw : Fresh run w) : p.Safe handle i (.keeping (Fresh run)) (fun _ _ => True) w :=
  (safe_harmless hp hw).mono fun _ _ _ => trivial

private theorem safe_runJitGeneration (opts : RunOptions) (injected : Bool) (hw : Fresh run w) :
    (runJitGeneration opts injected).Safe handle i (.keeping (Fresh run)) (fun _ _ => True) w := by
  refine Fallible.safe_bind (safe_harmless (Fallible.uses_attempt nofun) hw) fun opened w hw => ?_
  refine Fallible.safe_bind (safe_harmless (Fallible.uses_attempt nofun) hw) fun _ w hw => ?_
  refine Fallible.safe_bind (safe_harmless (Fallible.uses_attempt nofun) hw) fun _ w hw => ?_
  dsimp only
  by_cases hrun : deriveRunId opened.repoAbs opened.base opened.head opts.trusted.mode = run
  · rw [hrun]
    refine Fallible.safe_bind (safe_harmless ((uses_createRun _).mono fun _ ho =>
      harmless_of_open running_ne_completed ho) hw) fun _ w hw => ?_
    refine Fallible.safe_bind safe_markRunning fun _ w hw => ?_
    refine Fallible.safe_bind (safe_notCompleted ((uses_persistTrusted _).mono fun _ ho =>
      neverCompletes_of_step ho) hw) fun _ w hw => ?_
    refine Fallible.safe_bind (safe_driveRun hw _ _ _ _) fun report w hw => ?_
    refine Fallible.safe_bind (safe_markCompleted hw) fun _ w _ => ?_
    exact Fallible.keeps_pure trivial
  · refine safe_harmless_any ((uses_runJitGeneration _ _ _ _ _).mono fun o ho => ?_) hw
    exact harmless_of_about hrun ho

private theorem safe_resumeRun (stateRoot : Text) (id : RunId) (hw : Fresh run w) :
    (resumeRun stateRoot id).Safe handle i (.keeping (Fresh run)) (fun _ _ => True) w := by
  by_cases hrun : id = run
  · subst hrun
    refine Fallible.safe_bind (safe_harmless (Fallible.uses_attempt nofun) hw) fun _ w hw => ?_
    refine Fallible.safe_bind (safe_harmless (uses_requireRun.mono fun _ ho =>
      harmless_of_reopen (.inl ho)) hw) fun info w hw => ?_
    refine Fallible.safe_bind (safe_harmless (Fallible.uses_attempt nofun) hw) fun _ w hw => ?_
    refine Fallible.safe_bind (safe_harmless (Fallible.uses_attempt nofun) hw) fun revs w hw => ?_
    refine Fallible.safe_bind (safe_harmless (uses_openRun.mono fun _ => harmless_of_reopen) hw)
      fun _ w hw => ?_
    have hload : (loadTrusted id).Uses (StepOp id fun _ => False) := uses_loadTrusted
    refine Fallible.safe_bind (safe_harmless (hload.mono fun _ => harmless_of_step not_false) hw)
      fun trusted w hw => ?_
    refine Fallible.safe_bind safe_markRunning fun _ w hw => ?_
    refine Fallible.safe_bind (safe_driveRun hw _ _ _ _) fun report w hw => ?_
    refine Fallible.safe_bind (safe_markCompleted hw) fun _ w _ => ?_
    exact Fallible.keeps_pure trivial
  · exact safe_harmless_any ((uses_resumeRun stateRoot).mono fun _ => harmless_of_about hrun) hw

end

end

section

variable [Serde] [Digest] [WordChars] {run : RunId} {w w' : RunWorld Invocation} {i : Invocation}

theorem Session.fresh (hw : Session w) : Fresh run w := by
  refine hw.invariant (I := Fresh run) (.inl nofun) fun inv w hw => ?_
  cases inv with
  | run opts injected => exact safe_runJitGeneration opts injected hw
  | resume stateRoot id => exact safe_resumeRun stateRoot id hw

end

section

variable [Serde] {run : RunId} {i : ι} {w : RunWorld ι}

private theorem safe_requireRun (hw : Fresh run w) :
    (requireRun run).Safe handle i (.keeping (Fresh run))
      (fun info w => w.state.index run = some info ∧ Fresh run w) w := by
  refine Fallible.safe_bind (Fallible.keeps_attempt
    (P := fun r w => w.state.index run = r ∧ Fresh run w)
    (fun c hw => fresh_harmless (fun _ => trivial) hw) fun c r hr => ?_) fun r w hw => ?_
  · refine ⟨?_, fresh_harmless (fun _ => trivial) hw⟩
    have hok : handle c (.store (.getRun run)) w.state = w.state.apply (.getRun run) := handle_ok hr
    have hret : (handle c (.store (.getRun run)) w.state).1 = .ok r := hr
    rw [World.perform_state, hok]
    rw [hok] at hret
    exact Except.ok.inj hret
  · cases r with
    | none => exact Fallible.safe_throw
    | some info => exact Fallible.keeps_pure hw

/-- What is read from the report file encodes the report assembled last. -/
def Served (run : RunId) (bytes : Bytes) (w : RunWorld ι) : Prop :=
  ∃ report, lastAssembled run w.history = some report ∧ Serde.reportPretty report = .ok bytes

private theorem safe_readReport (hw : ReportOnFile run w) :
    (readRunArtifact run "report.json" : RunProg (Option Bytes)).Safe handle i
      (.keeping (Fresh run)) (fun r w => ∀ bytes, r = some bytes → Served run bytes w) w := by
  have hsafe : rejectUnsafeRel "report.json" = false := by decide
  unfold readRunArtifact
  rw [if_neg (by rw [hsafe]; exact Bool.false_ne_true)]
  refine Fallible.keeps_attempt (fun c hw => fresh_harmless (fun _ => trivial) hw) ?_
  rintro c r hr bytes rfl
  obtain ⟨report, bytes', hlast, hbytes, hfile⟩ := hw
  have hok : handle c (.store (.readArtifact run "report.json")) w.state =
      w.state.apply (.readArtifact run "report.json") := handle_ok hr
  have hret : (w.state.apply (.readArtifact run "report.json")).1 = .ok (some bytes) := by
    rw [← hok]
    exact hr
  have heq : some bytes' = some bytes := hfile.symm.trans (Except.ok.inj hret)
  cases heq
  exact ⟨report, hlast, hbytes⟩

private theorem safe_loadReport (stateRoot : Text) (hw : Fresh run w) :
    (loadReport stateRoot run).Safe handle i (.keeping (Fresh run)) (fun report w =>
      ∃ bytes, Served run bytes w ∧ Serde.parseReport bytes = .ok report) w := by
  refine Fallible.safe_bind (safe_harmless (Fallible.uses_attempt nofun) hw) fun _ w hw => ?_
  refine Fallible.safe_bind (safe_requireRun hw) ?_
  rintro info w ⟨hinfo, hw⟩
  refine Fallible.safe_bind (Fallible.keeps_attempt
    (P := fun _ w => w.state.index run = some info ∧ Fresh run w)
    (fun c hw => fresh_harmless nofun hw) fun c _ _ => ⟨hinfo, fresh_harmless nofun hw⟩) ?_
  rintro _ w ⟨hinfo, hw⟩
  by_cases hstatus : info.status = "completed"
  · have hfile : ReportOnFile run w := hw.resolve_left fun hnot => hnot info hinfo hstatus
    rw [if_neg (not_not_intro hstatus)]
    refine Fallible.safe_bind (safe_onFile (uses_openRun.mono fun _ => harmless_of_reopen) hfile)
      fun _ w hfile => ?_
    refine Fallible.safe_bind (safe_readReport hfile) ?_
    rintro (_ | bytes) w hserved
    · exact Fallible.safe_throw
    · exact Fallible.keeps_ofExcept fun report hreport =>
        ⟨bytes, hserved bytes rfl, serdeResult_ok.mp hreport⟩
  · rw [if_pos hstatus]
    exact Fallible.safe_throw

end

section

variable [Serde] [Digest] [WordChars]

/-- Whatever invocations came before and wherever they stopped, a report that is loaded is read back
from the encoding of the report assembled by the drive begun last; it is that report when reports
are read back as they were stored. -/
theorem loadReport_fresh {w w' : RunWorld Invocation} (hw : Session w) {i : Invocation}
    {stateRoot : Text} {run : RunId} {report : RunReport}
    (hr : (loadReport stateRoot run).run.Reaches handle i w (some (.ok report)) w') :
    ∃ last bytes, lastAssembled run w'.history = some last ∧
      Serde.reportPretty last = .ok bytes ∧ Serde.parseReport bytes = .ok report ∧
      ((∀ r b, Serde.reportPretty r = .ok b → Serde.parseReport b = .ok r) → report = last) := by
  have hfresh : Fresh run w := hw.fresh
  obtain ⟨bytes, ⟨last, hlast, hbytes⟩, hparse⟩ :=
    ((safe_loadReport stateRoot hfresh).keeps hr hfresh).2 report rfl
  refine ⟨last, bytes, hlast, hbytes, hparse, fun hround => ?_⟩
  rw [hround last bytes hbytes] at hparse
  exact (Except.ok.inj hparse).symm

end

/-- The report of a run that found less of a sandbox than an earlier one. -/
def warnedReport : RunReport := { emptyReport sampleRunId with warnings := [("no sandbox" : Text)] }

abbrev reportSerde : Serde :=
  { sampleSerde with
    reportPretty := encodeAmong [emptyReport sampleRunId, warnedReport]
    parseReport := decodeAmong [emptyReport sampleRunId, warnedReport] }

def warnedChoice : Choice RunAns where
  fault := .none
  answer
    | .analyze _ _ _ _ _ => .ok ⟨[], "/w", [], [("no sandbox" : Text)]⟩
    | op => steadyChoice.answer op

/-- The run completes, its re-run crashes during the drive, and a resume completes it, now without
the sandbox. -/
def resumedSession : RunWorld Invocation :=
  letI := reportSerde
  letI := hexDigest
  letI := asciiWords
  let again : Invocation := .run sampleOptions false
  let resume : Invocation := .resume "/s" sampleRunId
  let w := (again.program.run.runAll handle again steadyChoice ⟨.empty, []⟩).2
  let w := (again.program.run.runFor handle again (List.replicate 16 steadyChoice) w).2
  (resume.program.run.runAll handle resume warnedChoice w).2

/-- The load that follows. -/
def loadAfterResume : Except OrchestratorError RunReport × RunWorld Invocation :=
  letI := reportSerde
  (loadReport "/s" sampleRunId).run.runAll handle (.resume "/s" sampleRunId) steadyChoice
    resumedSession

theorem resumedSession_serves :
    loadAfterResume.1 = .ok warnedReport ∧
      lastAssembled sampleRunId loadAfterResume.2.history = some warnedReport := by
  let _ := reportSerde
  let _ := hexDigest
  let _ := asciiWords
  have hret : loadAfterResume.1 = .ok warnedReport := by decide +kernel
  have hsession : Session resumedSession :=
    .invoke _ (.invoke _ (.invoke _ .start (Prog.reaches_runAll _ _ _))
      (Prog.reaches_runFor _ _ _)) (Prog.reaches_runAll _ _ _)
  have hreach : (loadReport "/s" sampleRunId).run.Reaches handle (.resume "/s" sampleRunId)
      resumedSession (some loadAfterResume.1) loadAfterResume.2 := Prog.reaches_runAll _ _ _
  rw [hret] at hreach
  obtain ⟨last, bytes, hlast, -, -, hround⟩ := loadReport_fresh hsession hreach
  refine ⟨hret, ?_⟩
  rw [hlast, ← hround fun r b h => decodeAmong_encodeAmong (by decide) h]

end Jitgen
