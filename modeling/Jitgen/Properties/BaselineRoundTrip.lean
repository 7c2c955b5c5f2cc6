import Jitgen.Orchestrator.BaselineFile
import Jitgen.Properties.BaselineIdentity

/-!
# Fingerprints in a baseline file

A baseline suppresses a catch through the line that its fingerprint makes in the file. The mutated
path in it was written by the model: it may hold control characters, and the character cap may leave
white space at its end.
-/

namespace Jitgen

open Text Fallible

/-- The mutated path can be read back from a line of a baseline file. -/
structure Writable (c : CatchReport) : Prop where
  printable : ∀ p ∈ mutantPath c, p.any isControl = false
  trimmed : ∀ p ∈ mutantPath c, trimEnd p = p
  fits : utf8Len (catchFingerprint c) ≤ maxBaselineLine

private theorem mutantPath_ne_nil {c : CatchReport} {p : Text} (h : p ∈ mutantPath c) : p ≠ [] := by
  have := (Option.mem_filter_iff.mp h).2
  simpa using this

private theorem not_isControl_of_mem_nextId {n : Nat} {c : Char} (h : c ∈ nextId n) :
    isControl c = false := by
  rcases List.mem_append.mp h with h | h
  · rw [List.mem_singleton.mp h]
    decide
  · have hrange := range_of_mem_ofNat h
    unfold isControl
    simp
    omega

private theorem trimEnd_nextId (n : Nat) : trimEnd (nextId n) = nextId n := by
  rw [trimEnd_eq_self_iff]
  intro c hc
  have hdigits : c ∈ ofNat n := by
    unfold nextId at hc
    rw [List.getLast?_append_of_ne_nil _ (ofNat_ne_nil n)] at hc
    exact List.mem_of_getLast? hc
  exact not_isWhitespace_of_isAsciiDigit (isAsciiDigit_of_mem_ofNat hdigits)

private theorem trimmed_fingerprint_iff {c : CatchReport} {n : Nat}
    (htarget : c.target = nextId n) :
    trim (catchFingerprint c) = catchFingerprint c ↔ ∀ p ∈ mutantPath c, trimEnd p = p := by
  have hstart : ∀ s : Text, trimStart (nextId n ++ s) = nextId n ++ s := fun s => rfl
  unfold catchFingerprint
  rw [htarget]
  cases hpath : mutantPath c with
  | none =>
    have htrim := (trimmed_iff (nextId n)).mpr ⟨rfl, trimEnd_nextId n⟩
    simp [htrim]
  | some p =>
    have hlast : (nextId n ++ [' '] ++ p).getLast? = p.getLast? :=
      List.getLast?_append_of_ne_nil _ (mutantPath_ne_nil hpath)
    simp only [Option.mem_some_iff, forall_eq']
    rw [trimmed_iff, trimEnd_eq_self_iff, trimEnd_eq_self_iff, hlast]
    exact and_iff_right (by rw [List.append_assoc, hstart])

private theorem printable_fingerprint_iff {c : CatchReport} {n : Nat}
    (htarget : c.target = nextId n) :
    (catchFingerprint c).any isControl = false ↔ ∀ p ∈ mutantPath c, p.any isControl = false := by
  have hid : (nextId n).any isControl = false := by
    simpa using fun c hc => not_isControl_of_mem_nextId hc
  have hblank : isControl ' ' = false := by decide
  unfold catchFingerprint
  rw [htarget]
  cases mutantPath c with
  | none => simpa using hid
  | some p => simp [List.any_append, hid, hblank]

private theorem isEntry_fingerprint_iff {c : CatchReport} {n : Nat}
    (htarget : c.target = nextId n) :
    IsEntry (catchFingerprint c) ↔ Writable c := by
  constructor
  · intro h
    exact ⟨(printable_fingerprint_iff htarget).mp h.printable,
      (trimmed_fingerprint_iff htarget).mp h.trimmed, h.fits⟩
  · intro h
    obtain ⟨rest, hrest⟩ : ∃ rest, catchFingerprint c = 't' :: rest := by
      unfold catchFingerprint
      rw [htarget]
      cases mutantPath c <;> exact ⟨_, rfl⟩
    exact {
      trimmed := (trimmed_fingerprint_iff htarget).mpr h.trimmed
      printable := (printable_fingerprint_iff htarget).mpr h.printable
      fits := h.fits
      ne_nil := by simp [hrest]
      no_comment := by
        rw [hrest]
        rfl }

section

variable [WordChars] [JsonText] [TreeSitter]

/-- A fingerprint survives the file exactly when its mutated path is printable, ends in no white
space and fits. -/
theorem fingerprint_survives_iff (f : Finding) (file : Text) :
    (∃ b, Baseline.fromFile file (.ok (toUtf8 (f.fingerprint ++ ['\n']))) = .ok b ∧
        b.contains f.report = true) ↔
      Writable f.report := by
  have hcontains : ∀ b : Baseline, b.contains f.report = true ↔ f.fingerprint ∈ b.entries := by
    intro b
    simp [Baseline.contains, Finding.fingerprint]
  simp only [hcontains]
  rw [Baseline.fromFile_line_iff]
  exact isEntry_fingerprint_iff f.report_target

end

/-- A run of the first target of `src/b.rs` in which a mutant of the path is killed, on the base
only. -/
def killedAt (path : Text) : Except FeedbackError TargetOutcome × Trace Ans :=
  letI := asciiWords
  letI := noJson
  (processTarget { sampleTarget with target := lineTarget 0 "src/b.rs" } sampleContext []
    { RunConfig.default with mode := .catch, reruns := 0 }).run.run
    (scripted (fence ("path: " ++ path ++ "\n@@")) failsOffBase) []

/-- The header `path: a<TAB>b` reaches the report as it is, and no file brings its fingerprint
back. -/
theorem tabbed_path_is_lost :
    letI := asciiWords
    letI := noJson
    letI := noTrees
    ∃ f : Finding, mutantPath f.report = some ("a\tb" : Text) ∧
      ∀ file b, Baseline.fromFile file (.ok (toUtf8 (f.fingerprint ++ ['\n']))) = .ok b →
        b.contains f.report = false := by
  let _ := asciiWords
  let _ := noJson
  let _ := noTrees
  have hrun : (killedAt "a\tb").1.isOk = true ∧
      (outcomeOf (killedAt "a\tb")).catches.map mutantPath = [some ("a\tb" : Text)] := by
    decide +kernel
  have hlisted : lineTarget 0 "src/b.rs" ∈ (changeOf ["src/b.rs"]).targets := by decide +kernel
  obtain ⟨f, -, -, -, hmutated⟩ := exists_finding_of_run hlisted hrun
  refine ⟨f, hmutated, ?_⟩
  intro file b hb
  by_contra hcontains
  have hmem : f.fingerprint ∈ b.entries := by
    simpa [Baseline.contains, Finding.fingerprint] using hcontains
  have hentry := Baseline.fromFile_entries hb _ hmem
  have hprintable := ((isEntry_fingerprint_iff f.report_target).mp hentry).printable _ hmutated
  exact absurd hprintable (by decide)

end Jitgen
