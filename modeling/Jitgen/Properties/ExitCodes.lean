import Jitgen.Cli.Traces
import Jitgen.Gitintake.Visible
import Jitgen.Orchestrator.StoreDoubles

/-!
# The exit codes of a run

A run of the command ends in one of four ways, and its exit code tells which. The artifact goes out
before the gate is looked at, and a configuration that catches is never landed.
-/

namespace Jitgen.Cli

open Text

/-- The base of the configuration: the file that was loaded, or the default. -/
def Base (configFile : Option Text) (t : Trace CliAns) (base : TrustedConfig) : Prop :=
  match configFile with
  | none => base = .default
  | some _ => loaded t = [.ok base]

/-- The trusted configuration that the run resolved. -/
def Resolved (s : Surroundings) (a : RunArgs) (t : Trace CliAns) (trusted : TrustedConfig) : Prop :=
  ∃ base, Base a.config t base ∧ resolveTrusted base (envLookup s.env) a.flags = .ok trusted

/-- What loading a configuration or resolving it failed with. -/
def Unresolved (s : Surroundings) (config : Option Text) (flags : TrustedFlags) (t : Trace CliAns)
    (e : OrchestratorError) : Prop :=
  loaded t = [.error e] ∨
    ∃ base, Base config t base ∧ resolveTrusted base (envLookup s.env) flags = .error e

/-- The baseline of the gate: the file that was read, or none. -/
def Baselined (path : Option Text) (t : Trace CliAns) (baseline : Baseline) : Prop :=
  match path with
  | none => baseline = .empty
  | some p => ∃ content, baselineReads t = [content] ∧ Baseline.fromFile p content = .ok baseline

section

variable [Serde] [Digest] [WordChars]

/-- The report that the run drove its pipeline to. -/
def Reported (s : Surroundings) (a : RunArgs) (t : Trace CliAns) (report : RunReport) : Prop :=
  ∃ trusted, Resolved s a t trusted ∧
    (runJitGeneration ⟨a.repo, a.base, a.head, trusted⟩ false).Returns (driven t) report

variable [ReportJson]

/-- The call that kept a result from going out, and what is said of it. -/
inductive Undelivered (a : RunArgs) (report : RunReport) (t : Trace CliAns) : Text → Prop where
  | landing {t₀ e} (hwrite : a.write = true)
    (hcalls : t₀.map (Prog.hoistEvent (CliOp.land a.repo)) <:+ t)
    (hfails : (applyToRepo report).Runs t₀ (.error e)) :
    Undelivered a report t (("jitgen run: --write failed: " : Text) ++ e.display)
  | patch {out e} (hout : a.patchOut = some out)
    (hfails : (⟨.writeFile out (render report .patch), .error e⟩ : Event CliAns) ∈ t) :
    Undelivered a report t (("jitgen run: cannot write patch to " : Text) ++ out ++ ": " ++ e)
  | artifact {e}
    (hfails : (⟨.emit (render report a.format), .error e⟩ : Event CliAns) ∈ t) :
    Undelivered a report t (("jitgen run: cannot write report: " : Text) ++ e)
  | baseline {path content e} (hpath : a.baseline = some path)
    (hread : (⟨.readBaseline path, content⟩ : Event CliAns) ∈ t)
    (hfails : Baseline.fromFile path content = .error e) :
    Undelivered a report t (("jitgen run: " : Text) ++ e.display)

/-- What a run failed with, and what is said of it. -/
inductive GivesUp (s : Surroundings) (a : RunArgs) (t : Trace CliAns) : Text → Prop where
  | config {e} (h : Unresolved s a.config a.flags t e) :
    GivesUp s a t (("jitgen run" : Text) ++ ": " ++ e.display)
  | pipeline {trusted e} (hresolved : Resolved s a t trusted)
    (hdrive : (runJitGeneration ⟨a.repo, a.base, a.head, trusted⟩ false).Runs (driven t)
      (.error e)) :
    GivesUp s a t (("jitgen run" : Text) ++ ": " ++ e.display)
  | delivery {report msg} (hreport : Reported s a t report) (h : Undelivered a report t msg) :
    GivesUp s a t msg

end

variable {t t' : Trace CliAns} {s : Surroundings} {a : RunArgs} {code : Nat}

theorem mapError_eq_error {α ε ε' : Type} {x : Except ε α} {f : ε → ε'} {e : ε'} :
    x.mapError f = .error e ↔ ∃ e', x = .error e' ∧ e = f e' := by
  cases x <;> simp [Except.mapError, eq_comm]

private theorem exists_append_of_notMem {α : Type} {l l₁ l₂ r : List α} {x : α} (hx : x ∉ l)
    (h : l ++ r = l₁ ++ x :: l₂) : ∃ m, l₁ = l ++ m ∧ r = m ++ x :: l₂ := by
  rcases List.append_eq_append_iff.mp h with ⟨m, hl₁, hr⟩ | ⟨m, hl, hr⟩
  · exact ⟨m, hl₁, hr⟩
  · cases m with
    | nil => exact ⟨[], by simpa using hl.symm, by simpa using hr.symm⟩
    | cons y m =>
      have hy : x = y := (List.cons.inj hr).1
      rw [hl, hy] at hx
      exact absurd (List.mem_append_right _ List.mem_cons_self) hx

private theorem mem_middle {α : Type} {l m r : List α} {x : α} (hl : x ∉ l) (hr : x ∉ r) :
    x ∈ l ++ (m ++ r) ↔ x ∈ m := by
  simp [hl, hr]

private theorem runs_loadBase {configFile : Option Text} {repo : Text}
    {r : Except OrchestratorError TrustedConfig} (h : (loadBase configFile repo).Runs t r) :
    (configFile = none ∧ t = [] ∧ r = .ok .default) ∨
      ∃ path, configFile = some path ∧ t = [⟨.loadConfig path repo, r⟩] := by
  cases configFile with
  | none =>
    obtain ⟨rfl, rfl⟩ := h
    exact .inl ⟨rfl, rfl, rfl⟩
  | some path =>
    obtain ⟨x, rfl, rfl⟩ := Fallible.runs_attempt.mp h
    cases x <;> exact .inr ⟨path, rfl, rfl⟩

theorem kinds_loadBase {configFile : Option Text} {repo : Text}
    {r : Except OrchestratorError TrustedConfig} (h : (loadBase configFile repo).Runs t r) :
    Kinds [.config] t := by
  rcases runs_loadBase h with ⟨-, rfl, -⟩ | ⟨path, -, rfl⟩
  · exact kinds_nil
  · exact kinds_singleton.mpr (List.mem_singleton.mpr rfl)

private theorem base_iff {configFile : Option Text} {repo : Text}
    {r : Except OrchestratorError TrustedConfig} (h : (loadBase configFile repo).Runs t r)
    (ht' : loaded t' = []) (base : TrustedConfig) :
    Base configFile (t ++ t') base ↔ r = .ok base := by
  rcases runs_loadBase h with ⟨rfl, rfl, rfl⟩ | ⟨path, rfl, rfl⟩
  · exact ⟨fun hbase => hbase ▸ rfl, fun hr => (Except.ok.inj hr).symm⟩
  · show loaded (⟨.loadConfig path repo, r⟩ :: t') = [.ok base] ↔ r = .ok base
    have hloaded : loaded (⟨.loadConfig path repo, r⟩ :: t') = r :: loaded t' := rfl
    rw [hloaded, ht', List.cons.injEq]
    exact and_iff_left rfl

private theorem resolveFor_shape {command repo : Text} {config : Option Text} {flags : TrustedFlags}
    {r : Except Refusal TrustedConfig} (h : (resolveFor s command config repo flags).Runs t r) :
    ∃ rb, (loadBase config repo).Runs t rb ∧
      r = (rb.mapError (failedIn command)).bind fun base =>
        (resolveTrusted base (envLookup s.env) flags).mapError (failedIn command) := by
  rcases Fallible.runs_bind.mp h with ⟨e, rfl, he⟩ | ⟨t₁, t₂, base, rfl, hbase, hrest⟩
  · obtain ⟨rb, hrb, hr⟩ := Fallible.runs_mapError.mp he
    obtain ⟨e', rfl, rfl⟩ := mapError_eq_error.mp hr.symm
    exact ⟨_, hrb, rfl⟩
  · obtain ⟨rfl, rfl⟩ := hrest
    rw [List.append_nil]
    exact ⟨_, Fallible.returns_mapError.mp hbase, rfl⟩

theorem resolveFor_ok {command repo : Text} {config : Option Text} {flags : TrustedFlags}
    {trusted : TrustedConfig} (h : (resolveFor s command config repo flags).Returns t trusted)
    (ht' : loaded t' = []) : ∃ base, Base config (t ++ t') base ∧
      resolveTrusted base (envLookup s.env) flags = .ok trusted := by
  obtain ⟨rb, hrb, hr⟩ := resolveFor_shape h
  cases rb with
  | error e => cases hr
  | ok base => exact ⟨base, (base_iff hrb ht' base).mpr rfl, mapError_eq_ok.mp hr.symm⟩

theorem resolveFor_error {command repo : Text} {config : Option Text} {flags : TrustedFlags}
    {e : Refusal} (h : (resolveFor s command config repo flags).Runs t (.error e)) :
    ∃ e', e = failedIn command e' ∧ Unresolved s config flags t e' := by
  obtain ⟨rb, hrb, hr⟩ := resolveFor_shape h
  cases rb with
  | error e' =>
    cases hr
    rcases runs_loadBase hrb with ⟨-, -, hnone⟩ | ⟨path, -, rfl⟩
    · cases hnone
    · exact ⟨e', rfl, .inl rfl⟩
  | ok base =>
    obtain ⟨e', he', rfl⟩ := mapError_eq_error.mp hr.symm
    have hnone : loaded ([] : Trace CliAns) = [] := rfl
    have hbase := (base_iff hrb hnone base).mpr rfl
    rw [List.append_nil] at hbase
    exact ⟨e', rfl, .inr ⟨base, hbase, he'⟩⟩

/-- A step that looks at the configuration, and what it resolves for the rest of the run. -/
structure ConfigStep (s : Surroundings) (a : RunArgs) (t : Trace CliAns)
    (r : Except Refusal TrustedConfig) : Prop where
  kinds : Kinds [.config] t
  resolved_iff : ∀ t' trusted, loaded t' = [] → (Resolved s a (t ++ t') trusted ↔ r = .ok trusted)
  fails : ∀ e, r = .error e →
    ∃ e', e = failedIn "jitgen run" e' ∧ Unresolved s a.config a.flags t e'

private theorem configStep {r : Except Refusal TrustedConfig}
    (h : (resolveFor s "jitgen run" a.config a.repo a.flags).Runs t r) : ConfigStep s a t r := by
  obtain ⟨rb, hrb, hr⟩ := resolveFor_shape h
  refine ⟨kinds_loadBase hrb, fun t' trusted ht' => ?_, fun e he => resolveFor_error (he ▸ h)⟩
  subst hr
  have hbase := base_iff hrb ht'
  cases rb with
  | error e =>
    constructor
    · intro hres
      obtain ⟨base, hb, -⟩ := hres
      cases (hbase base).mp hb
    · intro hr
      cases hr
  | ok base =>
    have hresolved : Resolved s a (t ++ t') trusted ↔
        resolveTrusted base (envLookup s.env) a.flags = .ok trusted := by
      constructor
      · intro hres
        obtain ⟨base', hb, hr⟩ := hres
        rwa [← Except.ok.inj ((hbase base').mp hb)] at hr
      · intro hr
        exact ⟨base, (hbase base).mpr rfl, hr⟩
    rw [hresolved]
    exact mapError_eq_ok.symm

/-- What follows the artifact: at most a baseline is read, and the verdict is that of the gate. -/
structure GateStep (a : RunArgs) (report : RunReport) (t : Trace CliAns)
    (r : Except Refusal GateVerdict) : Prop where
  kinds : Kinds [.baseline] t
  off : a.failOnCatch = false → r = .ok .disabled
  on : a.failOnCatch = true → ∀ v, r = .ok v ↔ ∃ baseline, Baselined a.baseline t baseline ∧
    v = gateExitCode report a.failThreshold baseline a.warnOnly true
  fails : ∀ e, r = .error e → ∃ path content g, a.baseline = some path ∧
    (⟨.readBaseline path, content⟩ : Event CliAns) ∈ t ∧ Baseline.fromFile path content = .error g ∧
    e = .failed (("jitgen run: " : Text) ++ g.display)

private theorem runs_loadBaseline {path : Option Text} {r : Except EmitGateError Baseline}
    (h : (loadBaseline path).Runs t r) :
    (path = none ∧ t = [] ∧ r = .ok .empty) ∨ ∃ p x, path = some p ∧ t = [⟨.readBaseline p, x⟩] ∧
      r = (Baseline.fromFile p x).mapError EmitGateError.gate := by
  cases path with
  | none =>
    obtain ⟨rfl, rfl⟩ := h
    exact .inl ⟨rfl, rfl, rfl⟩
  | some p =>
    obtain ⟨x, rfl, rfl⟩ := Fallible.runs_attempt.mp h
    exact .inr ⟨p, x, rfl, rfl, rfl⟩

private theorem baselined_iff {path : Option Text} {r : Except EmitGateError Baseline}
    (h : (loadBaseline path).Runs t r) (baseline : Baseline) :
    Baselined path t baseline ↔ r = .ok baseline := by
  rcases runs_loadBaseline h with ⟨rfl, rfl, rfl⟩ | ⟨p, x, rfl, rfl, rfl⟩
  · exact ⟨fun hb => hb ▸ rfl, fun hr => (Except.ok.inj hr).symm⟩
  · rw [mapError_eq_ok]
    constructor
    · intro hb
      obtain ⟨content, hread, hparse⟩ := hb
      cases hread
      exact hparse
    · intro hparse
      exact ⟨x, rfl, hparse⟩

private theorem runs_printed {text : Text} {r : Except Refusal GateVerdict}
    (h : (do Fallible.lift (print text); return .disabled : CliPart Refusal GateVerdict).Runs t r) :
    Kinds [.writing, .printing] t ∧ r = .ok .disabled := by
  rcases Fallible.runs_bind.mp h with ⟨e, -, he⟩ | ⟨t₁, t₂, _, rfl, h₁, rfl, rfl⟩
  · obtain ⟨_, hr, -⟩ := Fallible.runs_lift.mp he
    cases hr
  · obtain ⟨_, _, rfl, rfl, -⟩ := Fallible.returns_lift.mp h₁
    exact ⟨kinds_singleton.mpr (show CallKind.printing ∈ _ by decide), rfl⟩

section

variable [ReportJson] {report : RunReport}

/-- A landing, which does not look at the gate. -/
structure LandStep (a : RunArgs) (report : RunReport) (t : Trace CliAns)
    (r : Except Refusal GateVerdict) : Prop where
  kinds : Kinds [.writing, .printing] t
  ends : r = .ok .disabled ∨ ∃ msg, r = .error (.failed msg) ∧ Undelivered a report t msg

private theorem runs_landReport {r : Except Refusal GateVerdict} (hwrite : a.write = true)
    (h : (landReport a.repo report).Runs t r) : LandStep a report t r := by
  have hland : ∀ {t₁ : Trace CliAns} {r₁ : Except Refusal (List Text)},
      (((applyToRepo report).hoist (CliOp.land a.repo) : CliPart _ _).mapError fun e =>
        Refusal.failed (("jitgen run: --write failed: " : Text) ++ e.display)).Runs t₁ r₁ →
      Kinds [.writing, .printing] t₁ ∧
        ∀ e, r₁ = .error e → ∃ msg, e = .failed msg ∧ Undelivered a report t₁ msg := by
    intro t₁ r₁ h₁
    obtain ⟨r', h', rfl⟩ := Fallible.runs_mapError.mp h₁
    obtain ⟨t₀, rfl, h₀⟩ := Prog.runs_hoist.mp h'
    refine ⟨kinds_hoisted fun o => List.mem_cons_self, fun e he => ?_⟩
    obtain ⟨e', rfl, rfl⟩ := mapError_eq_error.mp he
    exact ⟨_, rfl, .landing hwrite (List.suffix_refl _) h₀⟩
  rcases Fallible.runs_bind.mp h with ⟨e, rfl, he⟩ | ⟨t₁, t₂, written, rfl, h₁, h₂⟩
  · obtain ⟨hkinds, hfails⟩ := hland he
    obtain ⟨msg, rfl, hmsg⟩ := hfails e rfl
    exact ⟨hkinds, .inr ⟨msg, rfl, hmsg⟩⟩
  · obtain ⟨hkinds, rfl⟩ := runs_printed h₂
    exact ⟨kinds_append.mpr ⟨(hland h₁).1, hkinds⟩, .inl rfl⟩

theorem Undelivered.after {msg : Text} (h : Undelivered a report t msg) (front : Trace CliAns) :
    Undelivered a report (front ++ t) msg := by
  cases h with
  | landing hwrite hcalls hfails =>
    exact .landing hwrite (hcalls.trans (List.suffix_append _ _)) hfails
  | patch hout hfails => exact .patch hout (List.mem_append_right _ hfails)
  | artifact hfails => exact .artifact (List.mem_append_right _ hfails)
  | baseline hpath hread hfails => exact .baseline hpath (List.mem_append_right _ hread) hfails

/-- The artifact fails to go out, or the gate is looked at after it. -/
private theorem runs_emitThenGate {r : Except EmitGateError GateVerdict}
    (h : (emitThenGate report a.format a.failThreshold a.baseline a.warnOnly a.failOnCatch).Runs t r) :
    (∃ e, t = [⟨.emit (render report a.format), .error e⟩] ∧ r = .error (.io e)) ∨
      ∃ t', t = ⟨.emit (render report a.format), .ok ()⟩ :: t' ∧
        GateStep a report t' (r.mapError EmitGateError.refusal) := by
  rcases Fallible.runs_bind.mp h with ⟨e, rfl, he⟩ | ⟨t₁, t₂, _, rfl, hemit, hrest⟩
  · obtain ⟨x, rfl, hx⟩ := Fallible.runs_attempt.mp he
    obtain ⟨e', hx', rfl⟩ := mapError_eq_error.mp hx.symm
    cases hx'
    exact .inl ⟨e', rfl, rfl⟩
  · obtain ⟨x, rfl, hx⟩ := Fallible.returns_attempt.mp hemit
    cases hx
    refine .inr ⟨t₂, rfl, ?_⟩
    cases hgate : a.failOnCatch with
    | false =>
      rw [hgate] at hrest
      obtain ⟨rfl, rfl⟩ := hrest
      exact ⟨kinds_nil, fun _ => rfl, fun hon => by simp [hgate] at hon, fun e he => by cases he⟩
    | true =>
      rw [hgate] at hrest
      have hbaseline : ∃ rb, (loadBaseline a.baseline).Runs t₂ rb ∧ r = rb.map fun baseline =>
          gateExitCode report a.failThreshold baseline a.warnOnly true := by
        rcases Fallible.runs_bind.mp hrest with ⟨e, rfl, he⟩ | ⟨t₃, t₄, b, rfl, hb, hr⟩
        · exact ⟨_, he, rfl⟩
        · obtain ⟨rfl, rfl⟩ := hr
          rw [List.append_nil]
          exact ⟨_, hb, rfl⟩
      obtain ⟨rb, hrb, rfl⟩ := hbaseline
      refine ⟨?_, fun hoff => by simp [hgate] at hoff, fun _ v => ?_, fun e he => ?_⟩
      · rcases runs_loadBaseline hrb with ⟨-, rfl, -⟩ | ⟨p, x, -, rfl, -⟩
        · exact kinds_nil
        · exact kinds_singleton.mpr (List.mem_singleton.mpr rfl)
      · rw [mapError_eq_ok]
        simp only [baselined_iff hrb]
        cases rb <;> simp [Except.map, eq_comm]
      · cases rb with
        | ok b => cases he
        | error eb =>
          rcases runs_loadBaseline hrb with ⟨-, -, hnone⟩ | ⟨p, x, hp, rfl, hfile⟩
          · cases hnone
          · obtain ⟨g, hg, rfl⟩ := mapError_eq_error.mp hfile.symm
            exact ⟨p, x, g, hp, List.mem_singleton.mpr rfl, hg, (Except.error.inj he).symm⟩

private theorem runs_writePatch {out : Text} {r : Except Refusal GateVerdict}
    (hout : a.patchOut = some out) (h : (writePatch out report).Runs t r) :
    LandStep a report t r := by
  have hwrites : ∀ x, Kinds [.writing, .printing] [⟨.writeFile out (render report .patch), x⟩] :=
    fun x => kinds_singleton.mpr (show CallKind.writing ∈ _ by decide)
  rcases Fallible.runs_bind.mp h with ⟨e, rfl, he⟩ | ⟨t₁, t₂, _, rfl, h₁, h₂⟩
  · obtain ⟨x, rfl, hx⟩ := Fallible.runs_attempt.mp he
    obtain ⟨e', hx', rfl⟩ := mapError_eq_error.mp hx.symm
    exact ⟨hwrites x, .inr ⟨_, rfl, .patch hout (List.mem_singleton.mpr (hx' ▸ rfl))⟩⟩
  · obtain ⟨x, rfl, -⟩ := Fallible.returns_attempt.mp h₁
    obtain ⟨hkinds, rfl⟩ := runs_printed h₂
    exact ⟨kinds_append.mpr ⟨hwrites x, hkinds⟩, .inl rfl⟩

private theorem runs_landing {r : Except Refusal GateVerdict} (hlands : a.lands = true)
    (h : (deliver a report).Runs t r) : LandStep a report t r := by
  unfold deliver at h
  split at h
  · rename_i hwrite
    exact runs_landReport hwrite h
  · rename_i hwrite
    cases hout : a.patchOut with
    | none => simp [RunArgs.lands, hwrite, hout] at hlands
    | some out =>
      rw [hout] at h
      exact runs_writePatch hout h

private theorem deliver_reports {r : Except Refusal GateVerdict} (hlands : a.lands = false)
    (h : (deliver a report).Runs t r) : ∃ r', r = r'.mapError EmitGateError.refusal ∧
      (emitThenGate report a.format a.failThreshold a.baseline a.warnOnly a.failOnCatch).Runs t r' := by
  have hwrite : a.write = false ∧ a.patchOut = none := by simpa [RunArgs.lands] using hlands
  unfold deliver at h
  rw [if_neg (by simp [hwrite.1]), hwrite.2] at h
  obtain ⟨r', hr', rfl⟩ := Fallible.runs_mapError.mp h
  exact ⟨r', rfl, hr'⟩

/-- What handing out the result does, whichever way it goes out. -/
structure DeliverStep (a : RunArgs) (report : RunReport) (t : Trace CliAns)
    (r : Except Refusal GateVerdict) : Prop where
  kinds : Kinds [.writing, .printing, .baseline] t
  landed : a.lands = true → Kinds [.writing, .printing] t ∧ ∀ v, r = .ok v → v = .disabled
  reported : a.lands = false →
    (∃ e, t = [⟨.emit (render report a.format), .error e⟩] ∧ ∃ e', r = .error e') ∨
      ∃ t', t = ⟨.emit (render report a.format), .ok ()⟩ :: t' ∧ GateStep a report t' r
  fails : ∀ e, r = .error e → ∃ msg, e = .failed msg ∧ Undelivered a report t msg

private theorem deliverStep {r : Except Refusal GateVerdict} (h : (deliver a report).Runs t r) :
    DeliverStep a report t r := by
  cases hlands : a.lands with
  | true =>
    obtain ⟨hkinds, hresult⟩ := runs_landing hlands h
    refine ⟨hkinds.mono (by decide), fun _ => ⟨hkinds, fun v hv => ?_⟩, fun hoff => ?_,
      fun e he => ?_⟩
    · rcases hresult with rfl | ⟨msg, rfl, -⟩
      · exact (Except.ok.inj hv).symm
      · cases hv
    · simp [hlands] at hoff
    · rcases hresult with rfl | ⟨msg, rfl, hmsg⟩
      · cases he
      · exact ⟨msg, (Except.error.inj he).symm, hmsg⟩
  | false =>
    obtain ⟨r', rfl, hr'⟩ := deliver_reports hlands h
    have hcases := runs_emitThenGate hr'
    refine ⟨?_, fun hon => by simp [hlands] at hon, fun _ => ?_, fun e he => ?_⟩
    · rcases hcases with ⟨e, rfl, -⟩ | ⟨t', rfl, hgate⟩
      · exact kinds_singleton.mpr (show CallKind.printing ∈ _ by decide)
      · have hemit : Kinds [.writing, .printing, .baseline]
            [⟨.emit (render report a.format), .ok ()⟩] :=
          kinds_singleton.mpr (show CallKind.printing ∈ _ by decide)
        exact kinds_append.mpr ⟨hemit, hgate.kinds.mono (by decide)⟩
    · rcases hcases with ⟨e, rfl, rfl⟩ | hgate
      · exact .inl ⟨e, rfl, _, rfl⟩
      · exact .inr hgate
    · rcases hcases with ⟨e', rfl, rfl⟩ | ⟨t', rfl, hgate⟩
      · cases he
        exact ⟨_, rfl, .artifact (List.mem_singleton.mpr rfl)⟩
      · obtain ⟨path, content, g, hpath, hread, hg, rfl⟩ := hgate.fails e he
        exact ⟨_, rfl, .baseline hpath (List.mem_cons_of_mem _ hread) hg⟩

theorem DeliverStep.writings_report {tw : Trace CliAns} {r : Except Refusal GateVerdict}
    (h : DeliverStep a report tw r) (hlands : a.lands = false) : writings tw = [] := by
  rcases h.reported hlands with ⟨e, rfl, -⟩ | ⟨t', rfl, hgate⟩
  · rfl
  · have hcons : writings (⟨.emit (render report a.format), .ok ()⟩ :: t') = writings t' := rfl
    rw [hcons, writings_of_kinds hgate.kinds (by decide)]

private theorem DeliverStep.stdout_report {tw : Trace CliAns} {r : Except Refusal GateVerdict}
    (h : DeliverStep a report tw r) (hlands : a.lands = false) :
    (stdout tw = [] ∧ ∃ e, r = .error e) ∨ stdout tw = render report a.format := by
  rcases h.reported hlands with ⟨e, rfl, hr⟩ | ⟨t', rfl, hgate⟩
  · exact .inl ⟨rfl, hr⟩
  · right
    have hcons : stdout (⟨.emit (render report a.format), .ok ()⟩ :: t') =
        render report a.format ++ stdout t' := rfl
    rw [hcons, stdout_of_kinds hgate.kinds (by decide), List.append_nil]

private theorem DeliverStep.artifact_first {tw : Trace CliAns} {r : Except Refusal GateVerdict}
    (h : DeliverStep a report tw r) {path : Text} {x : Except Text Bytes}
    (hread : (⟨.readBaseline path, x⟩ : Event CliAns) ∈ tw) :
    ∃ t', tw = ⟨.emit (render report a.format), .ok ()⟩ :: t' ∧ Kinds [.baseline] t' := by
  cases hlands : a.lands with
  | true =>
    exact absurd hread (notMem_of_kinds (h.landed hlands).1 (show CallKind.baseline ∉ _ by decide))
  | false =>
    rcases h.reported hlands with ⟨e, rfl, -⟩ | ⟨t', rfl, hgate⟩
    · have heq := List.mem_singleton.mp hread
      cases heq
    · exact ⟨t', rfl, hgate.kinds⟩

/-- The verdict is a failure exactly when the artifact is out and some catch of it qualifies. -/
private theorem DeliverStep.failure_iff {tw : Trace CliAns} {r : Except Refusal GateVerdict}
    (h : DeliverStep a report tw r) :
    (∃ v, r = .ok v ∧ v.isFailure = true) ↔
      a.lands = false ∧ a.failOnCatch = true ∧ a.warnOnly = false ∧
        ∃ baseline, Baselined a.baseline tw baseline ∧
          (⟨.emit (render report a.format), .ok ()⟩ : Event CliAns) ∈ tw ∧
          ∃ c ∈ report.catches, gates a.failThreshold baseline c = true := by
  have hbaselined : ∀ t', Baselined a.baseline (⟨.emit (render report a.format), .ok ()⟩ :: t') =
      Baselined a.baseline t' := fun _ => rfl
  constructor
  · intro hfails
    obtain ⟨v, rfl, hfailure⟩ := hfails
    have hlands : a.lands = false := by
      by_contra hlands
      rw [(h.landed (by simpa using hlands)).2 v rfl] at hfailure
      cases hfailure
    rcases h.reported hlands with ⟨e, -, e', he'⟩ | ⟨t', rfl, hgate⟩
    · cases he'
    have hon : a.failOnCatch = true := by
      by_contra hoff
      rw [Except.ok.inj (hgate.off (by simpa using hoff))] at hfailure
      cases hfailure
    obtain ⟨baseline, hb, rfl⟩ := (hgate.on hon v).mp rfl
    obtain ⟨-, hwarn, hcatch⟩ := (gateExitCode_isFailure_iff _ _ _ _ _).mp hfailure
    exact ⟨hlands, hon, hwarn, baseline, hb, List.mem_cons_self, hcatch⟩
  · intro hgates
    obtain ⟨hlands, hon, hwarn, baseline, hb, hmem, hcatch⟩ := hgates
    rcases h.reported hlands with ⟨e, rfl, -⟩ | ⟨t', rfl, hgate⟩
    · have heq := List.mem_singleton.mp hmem
      cases heq
    rw [hbaselined] at hb
    exact ⟨_, (hgate.on hon _).mpr ⟨baseline, hb, rfl⟩,
      (gateExitCode_isFailure_iff _ _ _ _ _).mpr ⟨rfl, hwarn, hcatch⟩⟩

end

/-- The kinds of calls that follow the pipeline. -/
def closingKinds : List CallKind := [.writing, .printing, .baseline, .saying]

private theorem resolved_iff {tc rest : Trace CliAns} {td : Trace (DriveAns RunAns)}
    {trusted trusted' : TrustedConfig} (hconfig : ConfigStep s a tc (.ok trusted))
    (hrest : Kinds closingKinds rest) :
    Resolved s a (tc ++ (driveEvents td ++ rest)) trusted' ↔ trusted' = trusted := by
  have hloaded : loaded (driveEvents td ++ rest) = [] := by
    rw [loaded_append, loaded_of_kinds (kinds_driveEvents td) (by decide),
      loaded_of_kinds hrest (by decide)]
    rfl
  rw [hconfig.resolved_iff _ _ hloaded, Except.ok.injEq, eq_comm]

private theorem seen_delivered {front tw : Trace CliAns} (hfront : Kinds [.config, .driving] front)
    (hdeliver : Kinds [.writing, .printing, .baseline] tw) (lines : List Text) :
    writings (front ++ (tw ++ sayEvents lines)) = writings tw ∧
      stdout (front ++ (tw ++ sayEvents lines)) = stdout tw ∧
      stderr (front ++ (tw ++ sayEvents lines)) = lines ∧
      baselineReads (front ++ (tw ++ sayEvents lines)) = baselineReads tw := by
  have hsay := kinds_sayEvents lines
  simp only [writings_append, stdout_append, stderr_append, baselineReads_append,
    writings_of_kinds hfront (by decide), stdout_of_kinds hfront (by decide),
    stderr_of_kinds hfront (by decide), baselineReads_of_kinds hfront (by decide),
    writings_of_kinds hsay (by decide), stdout_of_kinds hsay (by decide),
    stderr_of_kinds hdeliver (by decide), baselineReads_of_kinds hsay (by decide),
    stderr_sayEvents, List.nil_append, List.append_nil, and_self]

section

variable [Serde] [Digest] [WordChars]

private theorem reported_iff {tc rest : Trace CliAns} {td : Trace (DriveAns RunAns)}
    {trusted : TrustedConfig} {report report' : RunReport}
    (hconfig : ConfigStep s a tc (.ok trusted))
    (hdrive : (runJitGeneration ⟨a.repo, a.base, a.head, trusted⟩ false).Returns td report)
    (hrest : Kinds closingKinds rest) :
    Reported s a (tc ++ (driveEvents td ++ rest)) report' ↔ report' = report := by
  have hdriven : driven (tc ++ (driveEvents td ++ rest)) = td := by
    rw [driven_append, driven_append, driven_driveEvents, driven_of_kinds hconfig.kinds (by decide),
      driven_of_kinds hrest (by decide), List.nil_append, List.append_nil]
  unfold Reported
  rw [hdriven]
  simp only [resolved_iff hconfig hrest, exists_eq_left]
  constructor
  · intro hreturns
    exact Except.ok.inj (Prog.runs_unique hreturns hdrive)
  · intro h
    rwa [h]

end

/-- A configuration that catches is not landed. -/
def Admitted (a : RunArgs) (trusted : TrustedConfig) : Prop :=
  ¬ (trusted.mode = .catch ∧ a.lands = true)

private theorem validateOutputRules_cases (mode : Mode) :
    (validateOutputRules mode a.write a.patchOut.isSome = .ok () ∧
      ¬ (mode = .catch ∧ a.lands = true)) ∨
    (∃ msg, validateOutputRules mode a.write a.patchOut.isSome = .error msg) ∧
      mode = .catch ∧ a.lands = true := by
  unfold validateOutputRules RunArgs.lands
  cases mode <;> cases a.write <;> cases a.patchOut.isSome <;> simp

section

variable [Serde] [Digest] [WordChars] [ReportJson]

/-- The ways through a run. -/
inductive RunSteps (s : Surroundings) (a : RunArgs) :
    Trace CliAns → Except Refusal GateVerdict → Prop where
  | unresolved {t msg} (hconfig : ConfigStep s a t (.error (.failed msg))) :
    RunSteps s a t (.error (.failed msg))
  | misused {t trusted msg} (hconfig : ConfigStep s a t (.ok trusted))
    (hmode : trusted.mode = .catch) (hlands : a.lands = true) : RunSteps s a t (.error (.usage msg))
  | broken {tc td trusted e msg} (hconfig : ConfigStep s a tc (.ok trusted))
    (hadmitted : Admitted a trusted)
    (hdrive : (runJitGeneration ⟨a.repo, a.base, a.head, trusted⟩ false).Runs td (.error e))
    (hmsg : msg = ("jitgen run" : Text) ++ ": " ++ e.display) :
    RunSteps s a (tc ++ driveEvents td) (.error (.failed msg))
  | undelivered {tc td tw trusted report msg} (hconfig : ConfigStep s a tc (.ok trusted))
    (hadmitted : Admitted a trusted)
    (hdrive : (runJitGeneration ⟨a.repo, a.base, a.head, trusted⟩ false).Returns td report)
    (hdeliver : DeliverStep a report tw (.error (.failed msg))) :
    RunSteps s a (tc ++ (driveEvents td ++ tw)) (.error (.failed msg))
  | delivered {tc td tw trusted report verdict} (hconfig : ConfigStep s a tc (.ok trusted))
    (hadmitted : Admitted a trusted)
    (hdrive : (runJitGeneration ⟨a.repo, a.base, a.head, trusted⟩ false).Returns td report)
    (hdeliver : DeliverStep a report tw (.ok verdict)) :
    RunSteps s a (tc ++ (driveEvents td ++ (tw ++
      sayEvents (closingLines a trusted.provider report verdict)))) (.ok verdict)

theorem runSteps {r : Except Refusal GateVerdict} (h : (runPart s a).Runs t r) :
    RunSteps s a t r := by
  rcases Fallible.runs_bind.mp h with ⟨e, rfl, hc⟩ | ⟨tc, t₁, trusted, rfl, hc, hrules⟩
  · have hconfig := configStep hc
    obtain ⟨e', rfl, -⟩ := hconfig.fails e rfl
    exact .unresolved hconfig
  have hconfig := configStep hc
  rcases validateOutputRules_cases (a := a) trusted.mode with
    ⟨hvalid, hadmitted⟩ | ⟨⟨m, hvalid⟩, hmode, hlands⟩
  · rw [hvalid] at hrules
    rcases Fallible.runs_bind.mp hrules with ⟨e, rfl, hv⟩ | ⟨tv, t₂, _, rfl, hv, hrun⟩
    · obtain ⟨-, hv⟩ := hv
      cases hv
    obtain ⟨rfl, -⟩ := hv
    rw [List.nil_append]
    rcases Fallible.runs_bind.mp hrun with ⟨e, rfl, hd⟩ | ⟨t₃, t₄, report, rfl, hd, hout⟩
    · obtain ⟨r', hr', hr⟩ := Fallible.runs_mapError.mp hd
      obtain ⟨e', rfl, rfl⟩ := mapError_eq_error.mp hr.symm
      obtain ⟨td, rfl, hdrive⟩ := Prog.runs_hoist.mp hr'
      exact .broken hconfig hadmitted hdrive rfl
    obtain ⟨td, rfl, hdrive⟩ := Prog.runs_hoist.mp (Fallible.returns_mapError.mp hd)
    rcases Fallible.runs_bind.mp hout with ⟨e, rfl, hw⟩ | ⟨tw, t₅, verdict, rfl, hw, hclose⟩
    · have hdeliver := deliverStep hw
      obtain ⟨msg, rfl, -⟩ := hdeliver.fails e rfl
      exact .undelivered hconfig hadmitted hdrive hdeliver
    rcases Fallible.runs_bind.mp hclose with ⟨e, rfl, he⟩ | ⟨t₆, t₇, _, rfl, hsay, rfl, rfl⟩
    · obtain ⟨_, hr, -⟩ := Fallible.runs_lift.mp he
      cases hr
    rw [runs_eprintAll.mp (Fallible.returns_lift.mp hsay), List.append_nil]
    exact .delivered hconfig hadmitted hdrive (deliverStep hw)
  · rw [hvalid] at hrules
    rcases Fallible.runs_bind.mp hrules with ⟨e, rfl, hv⟩ | ⟨tv, t₂, _, rfl, hv, -⟩
    · obtain ⟨rfl, hv⟩ := hv
      cases hv
      rw [List.append_nil]
      exact .misused hconfig hmode hlands
    · obtain ⟨-, hv⟩ := hv
      cases hv

/-- What a run of the command may be relied on for. -/
structure RunContract (s : Surroundings) (a : RunArgs) (t : Trace CliAns) (code : Nat) : Prop where
  codes : code ≤ 3
  misuse : code = 2 ↔ ∃ trusted, Resolved s a t trusted ∧ trusted.mode = .catch ∧ a.lands = true
  misuse_stops : code = 2 → driven t = [] ∧ writings t = [] ∧ stdout t = []
  report_only : ∀ trusted, Resolved s a t trusted → trusted.mode = .catch → writings t = []
  failure : code = 1 → ∃ msg t₁, GivesUp s a t₁ msg ∧
    t = t₁ ++ sayEvents [safeForTerminal msg errorMsgCap, userHint msg] ∧
    stderr t = [safeForTerminal msg errorMsgCap, userHint msg]
  clean : a.lands = false → stdout t = [] ∨
    ∃ report, Reported s a t report ∧ stdout t = render report a.format
  artifact : code = 0 ∨ code = 3 → ∃ report, Reported s a t report ∧
    (a.lands = false → stdout t = render report a.format)
  artifact_first : ∀ t₁ path x t₂, t = t₁ ++ ⟨.readBaseline path, x⟩ :: t₂ →
    ∃ report, Reported s a t₁ report ∧ stdout t₁ = render report a.format
  gate : code = 3 ↔ a.lands = false ∧ a.failOnCatch = true ∧ a.warnOnly = false ∧
    ∃ report baseline, Reported s a t report ∧ Baselined a.baseline t baseline ∧
      (⟨.emit (render report a.format), .ok ()⟩ : Event CliAns) ∈ t ∧
      ∃ c ∈ report.catches, gates a.failThreshold baseline c = true

/-- A run that hands nothing out. -/
private theorem contract_of_silent (hkinds : Kinds [.config, .driving, .saying] t)
    (hcode : code = 1 ∨ code = 2)
    (hmisuse : code = 2 ↔ ∃ trusted, Resolved s a t trusted ∧ trusted.mode = .catch ∧ a.lands = true)
    (hstops : code = 2 → driven t = [])
    (hfailure : code = 1 → ∃ msg t₁, GivesUp s a t₁ msg ∧
      t = t₁ ++ sayEvents [safeForTerminal msg errorMsgCap, userHint msg] ∧
      stderr t = [safeForTerminal msg errorMsgCap, userHint msg]) :
    RunContract s a t code where
  codes := by omega
  misuse := hmisuse
  misuse_stops h :=
    ⟨hstops h, writings_of_kinds hkinds (by decide), stdout_of_kinds hkinds (by decide)⟩
  report_only _ _ _ := writings_of_kinds hkinds (by decide)
  failure := hfailure
  clean _ := .inl (stdout_of_kinds hkinds (by decide))
  artifact h := by omega
  artifact_first := by
    intro t₁ path x t₂ ht
    rw [ht] at hkinds
    have hmem : CallKind.baseline ∈ [CallKind.config, .driving, .saying] :=
      hkinds ⟨.readBaseline path, x⟩ (by simp)
    exact absurd hmem (by decide)
  gate := by
    constructor
    · intro h
      omega
    · intro h
      obtain ⟨-, -, -, report, baseline, -, -, hmem, -⟩ := h
      exact absurd hmem (notMem_of_kinds hkinds (show CallKind.printing ∉ _ by decide))

/-- A run that ends with an error before anything is handed out. -/
private theorem contract_of_failed {msg : Text} (hkinds : Kinds [.config, .driving] t)
    (hgives : GivesUp s a t msg)
    (hadmitted : ∀ trusted,
      Resolved s a (t ++ sayEvents [safeForTerminal msg errorMsgCap, userHint msg]) trusted →
        Admitted a trusted) :
    RunContract s a (t ++ sayEvents [safeForTerminal msg errorMsgCap, userHint msg]) 1 := by
  have hsay := kinds_sayEvents [safeForTerminal msg errorMsgCap, userHint msg]
  have hsilent : Kinds [.config, .driving, .saying]
      (t ++ sayEvents [safeForTerminal msg errorMsgCap, userHint msg]) :=
    kinds_append.mpr ⟨hkinds.mono (by decide), hsay.mono (by decide)⟩
  apply contract_of_silent hsilent (.inl rfl)
  · constructor
    · intro hcode
      cases hcode
    · intro hmisuse
      obtain ⟨trusted, hresolved, hcatch⟩ := hmisuse
      exact absurd hcatch (hadmitted trusted hresolved)
  · intro hcode
    cases hcode
  · intro _
    refine ⟨msg, t, hgives, rfl, ?_⟩
    rw [stderr_append, stderr_of_kinds hkinds (by decide), stderr_sayEvents]
    rfl

/-- A baseline is read once the artifact of the run is out. -/
private theorem reported_before_read {tc tw t₁ t₂ : Trace CliAns} {td : Trace (DriveAns RunAns)}
    {trusted : TrustedConfig} {report : RunReport} {r : Except Refusal GateVerdict}
    {lines : List Text} {path : Text} {x : Except Text Bytes}
    (hconfig : ConfigStep s a tc (.ok trusted))
    (hdrive : (runJitGeneration ⟨a.repo, a.base, a.head, trusted⟩ false).Returns td report)
    (hdeliver : DeliverStep a report tw r)
    (ht : tc ++ (driveEvents td ++ (tw ++ sayEvents lines)) = t₁ ++ ⟨.readBaseline path, x⟩ :: t₂) :
    Reported s a t₁ report ∧ stdout t₁ = render report a.format := by
  have hfront : Kinds [.config, .driving] (tc ++ driveEvents td) := kinds_append.mpr
    ⟨hconfig.kinds.mono (by decide), (kinds_driveEvents td).mono (by decide)⟩
  have hbefore := notMem_of_kinds hfront (e := ⟨.readBaseline path, x⟩)
    (show CallKind.baseline ∉ _ by decide)
  have hafter := notMem_of_kinds (kinds_sayEvents lines) (e := ⟨.readBaseline path, x⟩)
    (show CallKind.baseline ∉ _ by decide)
  have hread : (⟨.readBaseline path, x⟩ : Event CliAns) ∈ tw := by
    apply (mem_middle hbefore hafter).mp
    rw [List.append_assoc, ht]
    exact List.mem_append_right _ List.mem_cons_self
  obtain ⟨t', rfl, hkinds⟩ := hdeliver.artifact_first hread
  have hsplit : tc ++ driveEvents td ++ [⟨.emit (render report a.format), .ok ()⟩] ++
      (t' ++ sayEvents lines) = t₁ ++ ⟨.readBaseline path, x⟩ :: t₂ := by
    rw [← ht]
    simp
  have hfirst : (⟨.readBaseline path, x⟩ : Event CliAns) ∉
      tc ++ driveEvents td ++ [⟨.emit (render report a.format), .ok ()⟩] := by
    intro hmem
    rcases List.mem_append.mp hmem with hmem | hmem
    · exact hbefore hmem
    · cases List.mem_singleton.mp hmem
  obtain ⟨m, rfl, hm⟩ := exists_append_of_notMem hfirst hsplit
  have hmkinds : Kinds [.baseline, .saying] m := by
    have hboth : Kinds [.baseline, .saying] (t' ++ sayEvents lines) :=
      kinds_append.mpr ⟨hkinds.mono (by decide), (kinds_sayEvents lines).mono (by decide)⟩
    rw [hm] at hboth
    exact (kinds_append.mp hboth).1
  have hclosing : Kinds closingKinds (⟨.emit (render report a.format), .ok ()⟩ :: m) := by
    have hemit : Kinds closingKinds [⟨.emit (render report a.format), .ok ()⟩] :=
      kinds_singleton.mpr (show CallKind.printing ∈ _ by decide)
    exact kinds_append.mpr ⟨hemit, hmkinds.mono (by decide)⟩
  constructor
  · have hreported : Reported s a (tc ++ (driveEvents td ++
        (⟨.emit (render report a.format), .ok ()⟩ :: m))) report :=
      (reported_iff hconfig hdrive hclosing).mpr rfl
    simpa using hreported
  · rw [stdout_append, stdout_append, stdout_of_kinds hfront (by decide),
      stdout_of_kinds hmkinds (by decide)]
    simp [stdout, printedBy]

/-- A run that hands its result out, and then says something. -/
private theorem contract_of_delivered {tc tw : Trace CliAns} {td : Trace (DriveAns RunAns)}
    {trusted : TrustedConfig} {report : RunReport} {r : Except Refusal GateVerdict}
    {lines : List Text} (hconfig : ConfigStep s a tc (.ok trusted)) (hadmitted : Admitted a trusted)
    (hdrive : (runJitGeneration ⟨a.repo, a.base, a.head, trusted⟩ false).Returns td report)
    (hdeliver : DeliverStep a report tw r)
    (hend : (∃ v, r = .ok v ∧ code = if v.isFailure then 3 else 0) ∨
      ∃ msg, r = .error (.failed msg) ∧ code = 1 ∧
        lines = [safeForTerminal msg errorMsgCap, userHint msg]) :
    RunContract s a (tc ++ (driveEvents td ++ (tw ++ sayEvents lines))) code := by
  have hrest : Kinds closingKinds (tw ++ sayEvents lines) :=
    kinds_append.mpr ⟨hdeliver.kinds.mono (by decide), (kinds_sayEvents lines).mono (by decide)⟩
  have hfront : Kinds [.config, .driving] (tc ++ driveEvents td) := kinds_append.mpr
    ⟨hconfig.kinds.mono (by decide), (kinds_driveEvents td).mono (by decide)⟩
  obtain ⟨hwritings, hstdout, hstderr, hreads⟩ := seen_delivered hfront hdeliver.kinds lines
  rw [List.append_assoc] at hwritings hstdout hstderr hreads
  have hreports : Reported s a (tc ++ (driveEvents td ++ (tw ++ sayEvents lines))) report :=
    (reported_iff hconfig hdrive hrest).mpr rfl
  have hcode : code = 3 ↔ ∃ v, r = .ok v ∧ v.isFailure = true := by
    rcases hend with ⟨v, rfl, rfl⟩ | ⟨msg, rfl, rfl, -⟩
    · cases hv : v.isFailure <;> simp [hv]
    · simp
  have hcodes : code = 0 ∨ code = 1 ∨ code = 3 := by
    rcases hend with ⟨v, -, rfl⟩ | ⟨msg, -, rfl, -⟩
    · cases v.isFailure <;> simp
    · exact .inr (.inl rfl)
  have hemitted : ∀ text x, (⟨.emit text, x⟩ : Event CliAns) ∈
      tc ++ (driveEvents td ++ (tw ++ sayEvents lines)) ↔ ⟨.emit text, x⟩ ∈ tw := by
    intro text x
    have hbefore := notMem_of_kinds hfront (e := ⟨.emit text, x⟩)
      (show CallKind.printing ∉ _ by decide)
    have hafter := notMem_of_kinds (kinds_sayEvents lines) (e := ⟨.emit text, x⟩)
      (show CallKind.printing ∉ _ by decide)
    rw [← List.append_assoc]
    exact mem_middle hbefore hafter
  refine ⟨by omega, ⟨fun h => by omega, fun h => ?_⟩, fun h => by omega, fun trusted' h hmode => ?_,
    fun h => ?_, fun hlands => ?_, fun h => ⟨report, hreports, fun hlands => ?_⟩, ?_, ?_⟩
  · obtain ⟨trusted', hresolved, hmode, hlands⟩ := h
    rw [(resolved_iff hconfig hrest).mp hresolved] at hmode
    exact absurd ⟨hmode, hlands⟩ hadmitted
  · rw [(resolved_iff hconfig hrest).mp h] at hmode
    rw [hwritings]
    exact hdeliver.writings_report (by simpa [hmode, Admitted] using hadmitted)
  · rcases hend with ⟨v, -, hv⟩ | ⟨msg, rfl, -, rfl⟩
    · cases hf : v.isFailure <;> simp [hf] at hv <;> omega
    · obtain ⟨msg', he, hfault⟩ := hdeliver.fails _ rfl
      cases he
      have hreport : Reported s a (tc ++ (driveEvents td ++ tw)) report :=
        (reported_iff hconfig hdrive (hdeliver.kinds.mono (by decide))).mpr rfl
      refine ⟨msg, tc ++ (driveEvents td ++ tw), .delivery hreport ?_, by simp, hstderr⟩
      rw [← List.append_assoc]
      exact hfault.after (tc ++ driveEvents td)
  · rw [hstdout]
    exact (hdeliver.stdout_report hlands).imp And.left fun hrender => ⟨report, hreports, hrender⟩
  · rw [hstdout]
    refine (hdeliver.stdout_report hlands).resolve_left fun hfail => ?_
    obtain ⟨-, e, rfl⟩ := hfail
    rcases hend with ⟨v, hv, -⟩ | ⟨msg, -, rfl, -⟩
    · cases hv
    · omega
  · intro t₁ path x t₂ ht
    exact ⟨report, reported_before_read hconfig hdrive hdeliver ht⟩
  · rw [hcode, hdeliver.failure_iff]
    simp only [reported_iff hconfig hdrive hrest, hemitted, Baselined, hreads, exists_and_left,
      exists_eq_left]

/-- The exit code of a run says what it did, and a finding is reported before the gate acts on it. -/
theorem run_contract (h : (cmdRun s a).Runs t code) : RunContract s a t code := by
  rcases runs_finish.mp h with ⟨verdict, hpart, hcode⟩ | ⟨msg, t₁, rfl, hpart, rfl⟩ |
    ⟨msg, t₁, rfl, hpart, rfl⟩
  · cases runSteps hpart with
    | delivered hconfig hadmitted hdrive hdeliver =>
      exact contract_of_delivered hconfig hadmitted hdrive hdeliver (.inl ⟨verdict, rfl, hcode⟩)
  · have hsay := kinds_sayEvents [safeForTerminal msg errorMsgCap, userHint msg]
    cases runSteps hpart with
    | unresolved hconfig =>
      obtain ⟨e, he, hfault⟩ := hconfig.fails _ rfl
      obtain rfl : msg = ("jitgen run" : Text) ++ ": " ++ e.display := Refusal.failed.inj he
      apply contract_of_failed (hconfig.kinds.mono (by decide)) (.config hfault)
      intro trusted hresolved
      cases (hconfig.resolved_iff _ _ (loaded_of_kinds hsay (by decide))).mp hresolved
    | broken hconfig hadmitted hdrive hmsg =>
      rename_i tc td trusted e
      subst hmsg
      have hresolves : Resolved s a (tc ++ (driveEvents td ++ [])) trusted :=
        (resolved_iff hconfig kinds_nil).mpr rfl
      rw [List.append_nil] at hresolves
      have hdriven : driven (tc ++ driveEvents td) = td := by
        rw [driven_append, driven_driveEvents, driven_of_kinds hconfig.kinds (by decide),
          List.nil_append]
      apply contract_of_failed (kinds_append.mpr
        ⟨hconfig.kinds.mono (by decide), (kinds_driveEvents _).mono (by decide)⟩)
        (.pipeline hresolves (hdriven.symm ▸ hdrive))
      intro trusted' hresolved
      rw [List.append_assoc] at hresolved
      rw [(resolved_iff hconfig (hsay.mono (by decide))).mp hresolved]
      exact hadmitted
    | undelivered hconfig hadmitted hdrive hdeliver =>
      rw [List.append_assoc, List.append_assoc]
      exact contract_of_delivered hconfig hadmitted hdrive hdeliver (.inr ⟨msg, rfl, rfl, rfl⟩)
  · have hsay := kinds_sayEvents [safeForTerminal msg errorMsgCap]
    cases runSteps hpart with
    | misused hconfig hmode hlands =>
      rename_i trusted
      have hkinds : Kinds [.config, .driving, .saying]
          (t₁ ++ sayEvents [safeForTerminal msg errorMsgCap]) :=
        kinds_append.mpr ⟨hconfig.kinds.mono (by decide), hsay.mono (by decide)⟩
      apply contract_of_silent hkinds (.inr rfl)
      · constructor
        · intro _
          exact ⟨trusted, (hconfig.resolved_iff _ _ (loaded_of_kinds hsay (by decide))).mpr rfl,
            hmode, hlands⟩
        · intro _
          rfl
      · intro _
        rw [driven_append, driven_of_kinds hconfig.kinds (by decide),
          driven_of_kinds hsay (by decide)]
        rfl
      · intro hcode
        cases hcode

end

/-- A catch run whose tests are to be landed. -/
def landedCatch : RunArgs where
  repo := "/r"
  base := "b"
  head := "h"
  mode := some .catch
  strategy := none
  write := true
  patchOut := none
  maxTests := none
  sandbox := none
  dockerImage := none
  unsafeLocalExecution := false
  shellAllowed := false
  stateDir := none
  config := none
  realLlm := false
  format := .sarif
  failOnCatch := true
  failThreshold := .half
  baseline := none
  warnOnly := false

def landedCatchMsg : Text := ("jitgen run: " : Text) ++ reportOnlyMsg

abbrev noReportJson : ReportJson := ⟨fun _ => .ok [], fun _ => .ok []⟩

/-- It is refused before anything is loaded or run. -/
theorem landedCatch_refused :
    @RunContract sampleSerde hexDigest asciiWords noReportJson bareSurroundings landedCatch
      (sayEvents [safeForTerminal landedCatchMsg errorMsgCap]) 2 := by
  have hpart : (@runPart sampleSerde hexDigest asciiWords noReportJson bareSurroundings
      landedCatch).Runs [] (.error (.usage landedCatchMsg)) := ⟨rfl, rfl⟩
  exact @run_contract _ _ _ _ sampleSerde hexDigest asciiWords noReportJson
    (runs_finish.mpr (.inr (.inr ⟨landedCatchMsg, [], rfl, hpart, rfl⟩)))

end Jitgen.Cli
