import Jitgen.Cli.Commands
import Jitgen.Framework.Guarded

/-!
# What a command does

The calls of a command, seen by kind: those of the libraries, what it writes outside the state root,
and its two streams. A part of a command has a trace for each of its steps.
-/

namespace Jitgen.Cli

open Text

inductive CallKind where
  | config
  | opening
  | driving
  | writing
  | baseline
  | probing
  | printing
  | saying
  deriving DecidableEq

def CliOp.kind : CliOp → CallKind
  | .loadConfig _ _ => .config
  | .openRepo _ => .opening
  | .drive _ => .driving
  | .land _ _ | .writeFile _ _ => .writing
  | .readBaseline _ => .baseline
  | .doctor _ => .probing
  | .emit _ | .print _ => .printing
  | .eprintln _ => .saying

/-- Every call is of one of the kinds. -/
def Kinds (ks : List CallKind) (t : Trace CliAns) : Prop := ∀ e ∈ t, e.1.kind ∈ ks

section

variable {ks ks' : List CallKind} {t t' : Trace CliAns}

theorem kinds_nil : Kinds ks [] := fun _ he => absurd he List.not_mem_nil

theorem kinds_append : Kinds ks (t ++ t') ↔ Kinds ks t ∧ Kinds ks t' := List.forall_mem_append

theorem kinds_singleton {e : Event CliAns} : Kinds ks [e] ↔ e.1.kind ∈ ks := List.forall_mem_singleton

theorem Kinds.mono (h : Kinds ks t) (hks : ks ⊆ ks') : Kinds ks' t := fun e he => hks (h e he)

theorem kinds_hoisted {Op : Type} {g : Op → CliOp} {t₀ : Trace fun o => CliAns (g o)}
    (hg : ∀ o, (g o).kind ∈ ks) : Kinds ks (t₀.map (Prog.hoistEvent g)) := by
  intro e he
  obtain ⟨e', -, rfl⟩ := List.mem_map.mp he
  exact hg e'.1

theorem notMem_of_kinds {e : Event CliAns} (h : Kinds ks t) (he : e.1.kind ∉ ks) : e ∉ t :=
  fun hmem => he (h e hmem)

theorem filterMap_of_kinds {β : Type} {f : Event CliAns → Option β} {k : CallKind}
    (hf : ∀ e, e.1.kind ≠ k → f e = none) (h : Kinds ks t) (hk : k ∉ ks) : t.filterMap f = [] :=
  List.filterMap_eq_nil_iff.mpr fun e he => hf e fun heq => hk (heq ▸ h e he)

end

def drivenEvent : Event CliAns → Option (Event (DriveAns RunAns))
  | ⟨.drive o, x⟩ => some ⟨o, x⟩
  | _ => none

/-- The calls of the run that a command drives. -/
def driven (t : Trace CliAns) : Trace (DriveAns RunAns) := t.filterMap drivenEvent

def loadedBy : Event CliAns → Option (Except OrchestratorError TrustedConfig)
  | ⟨.loadConfig _ _, x⟩ => some x
  | _ => none

/-- The configuration files that were loaded. -/
def loaded (t : Trace CliAns) : List (Except OrchestratorError TrustedConfig) := t.filterMap loadedBy

def baselineReadBy : Event CliAns → Option (Except Text Bytes)
  | ⟨.readBaseline _, x⟩ => some x
  | _ => none

/-- The baselines that were read. -/
def baselineReads (t : Trace CliAns) : List (Except Text Bytes) := t.filterMap baselineReadBy

def writtenBy : Event CliAns → Option CliOp
  | ⟨.land repo o, _⟩ => some (.land repo o)
  | ⟨.writeFile path contents, _⟩ => some (.writeFile path contents)
  | _ => none

/-- What is written outside the state root. -/
def writings (t : Trace CliAns) : List CliOp := t.filterMap writtenBy

def printedBy : Event CliAns → Option Text
  | ⟨.emit text, .ok _⟩ => some text
  | ⟨.print text, _⟩ => some text
  | _ => none

/-- What standard output got. -/
def stdout (t : Trace CliAns) : Text := (t.filterMap printedBy).flatten

def saidBy : Event CliAns → Option Text
  | ⟨.eprintln line, _⟩ => some line
  | _ => none

/-- The lines that the error stream got. -/
def stderr (t : Trace CliAns) : List Text := t.filterMap saidBy

section

variable {t t' : Trace CliAns}

@[simp] theorem driven_append : driven (t ++ t') = driven t ++ driven t' := List.filterMap_append

@[simp] theorem loaded_append : loaded (t ++ t') = loaded t ++ loaded t' := List.filterMap_append

@[simp] theorem baselineReads_append :
    baselineReads (t ++ t') = baselineReads t ++ baselineReads t' := List.filterMap_append

@[simp] theorem writings_append : writings (t ++ t') = writings t ++ writings t' :=
  List.filterMap_append

@[simp] theorem stdout_append : stdout (t ++ t') = stdout t ++ stdout t' := by
  unfold stdout
  rw [List.filterMap_append, List.flatten_append]

@[simp] theorem stderr_append : stderr (t ++ t') = stderr t ++ stderr t' := List.filterMap_append

variable {ks : List CallKind}

theorem driven_of_kinds (h : Kinds ks t) (hk : .driving ∉ ks) : driven t = [] :=
  filterMap_of_kinds (by rintro ⟨o, x⟩ he; cases o <;> first | rfl | exact absurd rfl he) h hk

theorem loaded_of_kinds (h : Kinds ks t) (hk : .config ∉ ks) : loaded t = [] :=
  filterMap_of_kinds (by rintro ⟨o, x⟩ he; cases o <;> first | rfl | exact absurd rfl he) h hk

theorem baselineReads_of_kinds (h : Kinds ks t) (hk : .baseline ∉ ks) : baselineReads t = [] :=
  filterMap_of_kinds (by rintro ⟨o, x⟩ he; cases o <;> first | rfl | exact absurd rfl he) h hk

theorem writings_of_kinds (h : Kinds ks t) (hk : .writing ∉ ks) : writings t = [] :=
  filterMap_of_kinds (by rintro ⟨o, x⟩ he; cases o <;> first | rfl | exact absurd rfl he) h hk

theorem stdout_of_kinds (h : Kinds ks t) (hk : .printing ∉ ks) : stdout t = [] := by
  have hnone : t.filterMap printedBy = [] :=
    filterMap_of_kinds (by rintro ⟨o, x⟩ he; cases o <;> first | rfl | exact absurd rfl he) h hk
  rw [stdout, hnone]
  rfl

theorem stderr_of_kinds (h : Kinds ks t) (hk : .saying ∉ ks) : stderr t = [] :=
  filterMap_of_kinds (by rintro ⟨o, x⟩ he; cases o <;> first | rfl | exact absurd rfl he) h hk

end

/-- The calls of a run, as the command makes them. -/
def driveEvents (td : Trace (DriveAns RunAns)) : Trace CliAns := td.map (Prog.hoistEvent CliOp.drive)

theorem kinds_driveEvents (td : Trace (DriveAns RunAns)) : Kinds [.driving] (driveEvents td) :=
  @kinds_hoisted _ _ CliOp.drive td fun _ => List.mem_singleton.mpr rfl

@[simp] theorem driven_driveEvents (td : Trace (DriveAns RunAns)) : driven (driveEvents td) = td := by
  induction td with
  | nil => rfl
  | cons e td ih => exact congrArg (e :: ·) ih

/-- The calls that say some lines. -/
def sayEvents (lines : List Text) : Trace CliAns := lines.map fun line => ⟨.eprintln line, ()⟩

theorem kinds_sayEvents (lines : List Text) : Kinds [.saying] (sayEvents lines) := by
  intro e he
  obtain ⟨line, -, rfl⟩ := List.mem_map.mp he
  exact List.mem_singleton.mpr rfl

@[simp] theorem stderr_sayEvents (lines : List Text) : stderr (sayEvents lines) = lines := by
  induction lines with
  | nil => rfl
  | cons l lines ih => exact congrArg (l :: ·) ih

variable {t : Trace CliAns}

private theorem runs_eprintln {line : Text} {r : Unit} :
    (eprintln line).Runs t r ↔ t = sayEvents [line] := by
  constructor
  · rintro ⟨x, t', rfl, rfl, -⟩
    rfl
  · rintro rfl
    exact ⟨(), [], rfl, rfl, rfl⟩

theorem runs_eprintAll {lines : List Text} {r : Unit} :
    (eprintAll lines).Runs t r ↔ t = sayEvents lines := by
  induction lines generalizing t with
  | nil => exact and_iff_left rfl
  | cons line lines ih =>
    show ((eprintln line).bind fun _ => eprintAll lines).Runs t r ↔ _
    rw [Prog.runs_bind]
    constructor
    · rintro ⟨t₁, t₂, _, rfl, h₁, h₂⟩
      rw [runs_eprintln.mp h₁, ih.mp h₂]
      rfl
    · intro h
      exact ⟨sayEvents [line], sayEvents lines, (), h, runs_eprintln.mpr rfl, ih.mpr rfl⟩

private theorem runs_fail {msg : Text} {code : ExitCode} : (fail msg).Runs t code ↔
    t = sayEvents [safeForTerminal msg errorMsgCap, userHint msg] ∧ code = 1 := by
  show ((eprintln _).bind fun _ => (eprintln _).bind fun _ => Prog.pure 1).Runs t code ↔ _
  simp only [Prog.runs_bind, runs_eprintln, Prog.runs_pure]
  constructor
  · rintro ⟨t₁, t₂, -, rfl, rfl, t₃, t₄, -, rfl, rfl, rfl, rfl⟩
    exact ⟨rfl, rfl⟩
  · rintro ⟨rfl, rfl⟩
    exact ⟨_, _, (), rfl, rfl, _, [], (), rfl, rfl, rfl, rfl⟩

/-- A run of a command is one of its part, which is followed by what the result makes it say. -/
theorem runs_finish {α : Type} {part : CliPart Refusal α} {exit : α → ExitCode} {code : ExitCode} :
    (finish part exit).Runs t code ↔
      (∃ a, part.Runs t (.ok a) ∧ code = exit a) ∨
      (∃ msg t₁, t = t₁ ++ sayEvents [safeForTerminal msg errorMsgCap, userHint msg] ∧
        part.Runs t₁ (.error (.failed msg)) ∧ code = 1) ∨
      ∃ msg t₁, t = t₁ ++ sayEvents [safeForTerminal msg errorMsgCap] ∧
        part.Runs t₁ (.error (.usage msg)) ∧ code = 2 := by
  show (Prog.bind part.run _).Runs t code ↔ _
  rw [Prog.runs_bind]
  constructor
  · rintro ⟨t₁, t₂, r, rfl, h₁, h₂⟩
    cases r with
    | ok a =>
      obtain ⟨rfl, rfl⟩ := h₂
      rw [List.append_nil]
      exact .inl ⟨a, h₁, rfl⟩
    | error e =>
      cases e with
      | failed msg =>
        obtain ⟨rfl, rfl⟩ := runs_fail.mp h₂
        exact .inr (.inl ⟨msg, t₁, rfl, h₁, rfl⟩)
      | usage msg =>
        obtain ⟨t₃, t₄, _, rfl, h₃, rfl, rfl⟩ := Prog.runs_bind.mp h₂
        rw [runs_eprintln.mp h₃, List.append_nil]
        exact .inr (.inr ⟨msg, t₁, rfl, h₁, rfl⟩)
  · rintro (⟨a, h, rfl⟩ | ⟨msg, t₁, rfl, h, rfl⟩ | ⟨msg, t₁, rfl, h, rfl⟩)
    · exact ⟨t, [], .ok a, (List.append_nil t).symm, h, rfl, rfl⟩
    · exact ⟨t₁, _, .error (.failed msg), rfl, h, runs_fail.mpr ⟨rfl, rfl⟩⟩
    · exact ⟨t₁, _, .error (.usage msg), rfl, h,
        Prog.runs_bind.mpr ⟨_, [], (), (List.append_nil _).symm, runs_eprintln.mpr rfl, rfl, rfl⟩⟩

end Jitgen.Cli
