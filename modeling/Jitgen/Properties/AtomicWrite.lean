import Jitgen.State.FsUtil
import Jitgen.State.Store

/-!
# Artifact files are whole

Any number of writes of files of one directory, interleaved in any way, each failing or cut off
anywhere: what stands under a name is what was there, or all the bytes of one write.
-/

namespace Jitgen

open Text CachedDir

section

variable {ι : Type} {dir : Text} (calls : ι → WriteCall dir) (start : StateDir)

def callJobs (i : ι) : Option (Job Text UInt8) := (calls i).job

/-- Calls that the process id and the counter keep apart, and none of whose targets is the temporary
file of another. -/
structure KeptApart : Prop where
  unique : ∀ i j, (calls i).pid = (calls j).pid → (calls i).unique = (calls j).unique → i = j
  targets : ∀ i j n, (calls i).fileName = some n → (calls j).fileName ≠
    some (tempName n (calls i).pid (calls i).unique)

abbrev WritePool (ι : Type) :=
  Pool ι StateDirAns (CachedDir.Choice DirAns) StateDir (Except StateError Unit)

/-- Every call is about to start. -/
def startWrites : WritePool ι := ⟨fun i => some (calls i).program.run, ⟨start, []⟩⟩

/-- All bytes of a call that writes the file. -/
def WrittenBy (n : Text) (bytes : Bytes) : Prop :=
  ∃ i, (calls i).fileName = some n ∧ (calls i).bytes = bytes

variable {calls start}

theorem KeptApart.jobs (h : KeptApart calls) : SetApart (callJobs calls) where
  tmp ha hb heq := by
    obtain ⟨n, _, rfl⟩ := WriteCall.job_eq_some ha
    obtain ⟨m, _, rfl⟩ := WriteCall.job_eq_some hb
    obtain ⟨_, hpid, hunique⟩ := tempName_injective heq
    exact h.unique _ _ hpid hunique
  dst ha hb heq := by
    obtain ⟨n, hn, rfl⟩ := WriteCall.job_eq_some ha
    obtain ⟨m, hm, rfl⟩ := WriteCall.job_eq_some hb
    exact h.targets _ _ n hn (hm.trans (congrArg some heq.symm))

private theorem writtenBy_of_putBy {n : Text} {bytes : Bytes} {φ : ι → Prop}
    (h : PutBy (callJobs calls) φ n bytes) : WrittenBy calls n bytes := by
  obtain ⟨i, a, _, ha, rfl, rfl⟩ := h
  obtain ⟨n, hn, rfl⟩ := WriteCall.job_eq_some ha
  exact ⟨i, hn, rfl⟩

private theorem plain_calls {n : Text}
    (hn : ∀ i m, (calls i).fileName = some m → tempName m (calls i).pid (calls i).unique ≠ n) :
    Plain (callJobs calls) n := by
  intro i a ha
  obtain ⟨m, hm, rfl⟩ := WriteCall.job_eq_some ha
  exact hn i m hm

private theorem startWrites_safe [DecidableEq ι] (h : KeptApart calls) (hclean : Clean start)
    (moves : List (Move ι (CachedDir.Choice DirAns))) :
    ((startWrites calls start).run exec moves).Safe exec (replacing (callJobs calls) start)
      (Replaced (callJobs calls) start) (fun w => Whole (callJobs calls) start w.state) := by
  have hstart : (startWrites calls start).Safe exec (replacing (callJobs calls) start)
      (Replaced (callJobs calls) start) (fun w => Whole (callJobs calls) start w.state) := by
    refine Pool.Safe.start (fun i q hq => ?_) hclean.whole
    cases hq
    exact safe_atomicWrite (calls i) h.jobs rfl hclean.whole
  apply hstart.run (replacements_compose h.jobs)
  have hadm : ∀ (ms : List (Move ι (CachedDir.Choice DirAns))) (p : WritePool ι),
      p.Admissible exec (fun _ _ _ => True) ms := by
    intro ms
    induction ms with
    | nil => exact fun _ => trivial
    | cons m ms ih => exact fun p => ⟨fun _ _ _ _ _ _ => trivial, ih _⟩
  exact hadm moves _

/-- Now and after a crash, a file that is nobody's temporary one is the file of the start or the
whole of one write; once a write of it has returned, the whole of some write; or the directory is
gone that nobody anchored. -/
theorem atomicWrite_whole [DecidableEq ι] (h : KeptApart calls) (hclean : Clean start)
    (moves : List (Move ι (CachedDir.Choice DirAns))) {n : Text}
    (hn : ∀ i m, (calls i).fileName = some m → tempName m (calls i).pid (calls i).unique ≠ n)
    {d : StateDir} :
    let p := (startWrites calls start).run exec moves
    d = p.world.state ∨ AfterCrash p.world.state d →
    (d.read n = start.read n ∨ (∃ bytes, d.read n = some bytes ∧ WrittenBy calls n bytes) ∨
      start.anchored = false ∧ ∀ m, d.read m = none) ∧
    ∀ i, p.result i = some (.ok ()) → (calls i).fileName = some n →
      (∃ bytes, d.read n = some bytes ∧ WrittenBy calls n bytes) ∨
        start.anchored = false ∧ ∀ m, d.read m = none := by
  intro p hcrash
  have hsafe := startWrites_safe h hclean moves
  have hplain := plain_calls hn
  have hput : (∃ bytes, d.read n = some bytes ∧ PutBy (callJobs calls) (fun _ => True) n bytes) →
      ∃ bytes, d.read n = some bytes ∧ WrittenBy calls n bytes :=
    Exists.imp fun _ hb => ⟨hb.1, writtenBy_of_putBy hb.2⟩
  constructor
  · rcases hsafe.invariant.read_afterCrash hplain hcrash with hold | hnew | hlost
    · exact .inl hold
    · exact .inr (.inl (hput hnew))
    · exact .inr (.inr hlost)
  · intro i hi hname
    have hreturned := hsafe.returned i _ (Pool.result_eq_some.mp hi) () rfl
    have hjob : callJobs calls i =
        some ⟨tempName n (calls i).pid (calls i).unique, n, (calls i).bytes⟩ := by
      rw [callJobs, WriteCall.job, hname]
      rfl
    have hlanded := hreturned.2 _ hjob
    exact (hlanded.read_afterCrash hsafe.invariant hplain hcrash).imp_left hput

end

def plainChoice : CachedDir.Choice DirAns where
  error := none
  effective := false
  kept := 0
  answer
    | .isSymlink _ => false
    | .createDirAll _ => .ok ()
    | .setPermissions _ _ => .ok ()

def emptyDir : StateDir := ⟨fun _ => none, [], fun _ => [], fun _ => false, 0, true⟩

private theorem emptyDir_clean : Clean emptyDir where
  unique h := by cases h
  allocated _ _ h := by cases h
  settled := rfl
  synced _ _ h := by cases h

def reportCall (first : Bool) : WriteCall "runs/r1" where
  pid := 7
  unique := if first then 0 else 1
  path := "runs/r1/report.json"
  bytes := if first then [1, 2] else [3]
  parent := by decide

private theorem reportCalls_apart : KeptApart reportCall where
  unique i j _ h := by
    revert h
    cases i <;> cases j <;> decide
  targets i j n hn hm := by
    have hname : UnixPath.fileName "runs/r1/report.json" = some "report.json" := by decide
    cases hname.symm.trans hn
    have htemp := Option.some.inj (hname.symm.trans hm)
    have hhead := congrArg List.head? htemp
    simp [tempName] at hhead

/-- The first call runs to its end, the second up to its write. -/
def secondCutOff : List (Move Bool (CachedDir.Choice DirAns)) :=
  List.replicate 5 (.act false plainChoice) ++ List.replicate 8 (.act true plainChoice)

/-- A crash that loses the contents of every file that was not synchronized. -/
def unsyncedLost (d : StateDir) : StateDir :=
  { d with contents := fun i => if d.synced i then d.contents i else [] }

private theorem unsyncedLost_afterCrash (d : StateDir) : AfterCrash d (unsyncedLost d) := by
  refine .kept (fun n => ⟨d.names, List.mem_cons_self, rfl⟩) fun i hi => ?_
  exact if_pos hi

theorem secondCutOff_whole :
    let d := unsyncedLost ((startWrites reportCall emptyDir).run exec secondCutOff).world.state
    d.read "report.json" = some [1, 2] ∨ d.read "report.json" = some [3] := by
  intro d
  have hcrash := unsyncedLost_afterCrash
    ((startWrites reportCall emptyDir).run exec secondCutOff).world.state
  have hn : ∀ (i : Bool) (m : Text), (reportCall i).fileName = some m →
      tempName m (reportCall i).pid (reportCall i).unique ≠ "report.json" := by
    intro i m _ htemp
    have hhead := congrArg List.head? htemp
    simp [tempName] at hhead
  have hreturned : ((startWrites reportCall emptyDir).run exec secondCutOff).result true =
      some (.ok ()) := rfl
  have hname : (reportCall true).fileName = some "report.json" := by decide
  rcases (atomicWrite_whole reportCalls_apart emptyDir_clean secondCutOff hn (.inr hcrash)).2 true
    hreturned hname with ⟨bytes, hread, i, -, rfl⟩ | ⟨hlost, -⟩
  · cases i with
    | true => exact .inl hread
    | false => exact .inr hread
  · cases hlost

section

variable {dir : Text} {start d : StateDir} {X : Type} {A : X → Type}

section

variable {a : WriteCall dir} {n : Text} (hclean : Clean start) (hname : a.fileName = some n)
  {r : Option (Except StateError Unit)} {w : DirWorld Unit DirAns Text UInt8}
  (hr : a.program.run.Reaches exec () ⟨start, []⟩ r w)
  (hcrash : d = w.state ∨ AfterCrash w.state d)
include hclean hname hr hcrash

end

end

end Jitgen
