import Jitgen.Framework.Cut
import Jitgen.Framework.Lines
import Jitgen.Orchestrator.Gate

/-!
# Baseline files

A baseline file lists the fingerprints to suppress, one a line.
-/

namespace Jitgen

open Text

inductive GateError where
  | unreadable (path source : Text)
  | tooLarge (path : Text) (cap : Nat)
  | malformed (detail : Text)
  deriving DecidableEq

def maxBaselineBytes : Nat := 2 ^ 20

def maxBaselineEntries : Nat := 50000

def maxBaselineLine : Nat := 4096

def malformed (path : Option Text) (what : Text) : GateError :=
  .malformed <|
    match path with
    | some p => what ++ " (in " ++ p ++ ")"
    | none => what

namespace Baseline

/-- One line of the file, numbered from one in messages. -/
def parseLine (path : Option Text) (entries : List Text) (line : Text × Nat) :
    Except GateError (List Text) :=
  let lineNo : Text := ofNat (line.2 + 1)
  if maxBaselineLine < utf8Len line.1 then
    .error (malformed path
      ("line " ++ lineNo ++ " exceeds the " ++ ofNat maxBaselineLine ++ "-byte line cap"))
  else
    let entry := trim line.1
    if entry.isEmpty || startsWith entry "#" then .ok entries
    else if entry.any isControl then
      .error (malformed path ("line " ++ lineNo ++ " contains a control character"))
    else if maxBaselineEntries ≤ entries.length then
      .error (malformed path ("too many entries (cap " ++ ofNat maxBaselineEntries ++ ")"))
    else .ok (entries.insert entry)

def parseInner (path : Option Text) (text : Text) : Except GateError Baseline := do
  let entries ← (lines text).zipIdx.foldlM (parseLine path) []
  return ⟨entries⟩

/-- The baseline in a file, given what reading the file yields. At most one byte over the cap is
read. -/
def fromFile (path : Text) (content : Except Text Bytes) : Except GateError Baseline :=
  match content with
  | .error source => .error (.unreadable path source)
  | .ok bytes =>
    let buf := bytes.take (maxBaselineBytes + 1)
    if maxBaselineBytes < buf.length then .error (.tooLarge path maxBaselineBytes)
    else
      match fromUtf8 buf with
      | none => .error (malformed (some path) "file is not valid UTF-8 text")
      | some text => parseInner (some path) text

end Baseline

/-- What a line of a baseline file can suppress. -/
structure IsEntry (e : Text) : Prop where
  trimmed : trim e = e
  printable : e.any isControl = false
  fits : utf8Len e ≤ maxBaselineLine
  ne_nil : e ≠ []
  no_comment : startsWith e "#" = false

private theorem IsEntry.newline_notMem {e : Text} (h : IsEntry e) : '\n' ∉ e := by
  intro hmem
  have := List.any_eq_false.mp h.printable _ hmem
  exact this (by decide)

theorem IsEntry.stripCr {e : Text} (h : IsEntry e) : stripCr e = e := by
  rw [stripCr_eq_self_iff]
  intro hlast
  have := List.any_eq_false.mp h.printable _ (List.mem_of_getLast? hlast)
  exact this (by decide)

private theorem trim_sublist (s : Text) : (trim s).Sublist s :=
  (List.rdropWhile_prefix isWhitespace _).sublist.trans
    (List.dropWhile_suffix isWhitespace).sublist

private theorem trim_trim (s : Text) : trim (trim s) = trim s := by
  have hend : trimEnd (trim s) = trim s := List.rdropWhile_idempotent _ _
  have hstart : trimStart (trim s) = trim s := by
    cases hs : trimStart s with
    | nil =>
      have htrim : trim s = [] := by simp [trim, hs, trimEnd]
      rw [htrim]
      rfl
    | cons c rest =>
      have hc : isWhitespace c = false := by
        have hhead := List.head?_dropWhile_not isWhitespace s
        rw [show s.dropWhile isWhitespace = c :: rest from hs] at hhead
        simpa using hhead
      have htrim : trim s = c :: trimEnd rest := by
        have hone : trimEnd [c] = [c] := by simp [trimEnd, hc]
        rw [trim, hs, ← List.singleton_append, trimEnd_append, hone]
        split
        · rename_i hblank
          rw [trimEnd_of_blank hblank]
        · rfl
      rw [htrim, trimStart, List.dropWhile_cons_of_neg (by simp [hc])]
  exact (trimmed_iff _).mpr ⟨hstart, hend⟩

namespace Baseline

variable {path : Option Text}

private theorem parseLine_entries {entries entries' : List Text} {line : Text × Nat}
    (hentries : ∀ e ∈ entries, IsEntry e) (h : parseLine path entries line = .ok entries') :
    ∀ e ∈ entries', IsEntry e := by
  simp only [parseLine] at h
  split_ifs at h with hlen hskip hcontrol hcap
  · cases h
    exact hentries
  · cases h
    intro e he
    rcases List.mem_insert_iff.mp he with rfl | he
    · simp only [Bool.or_eq_true, List.isEmpty_iff, not_or] at hskip
      have hfits := utf8Len_le_of_sublist (trim_sublist line.1)
      exact ⟨trim_trim _, by simpa using hcontrol, by omega, hskip.1, by simpa using hskip.2⟩
    · exact hentries e he

private theorem parseLines_entries {entries entries' : List Text} {ls : List (Text × Nat)}
    (hentries : ∀ e ∈ entries, IsEntry e) (h : ls.foldlM (parseLine path) entries = .ok entries') :
    ∀ e ∈ entries', IsEntry e := by
  induction ls generalizing entries with
  | nil =>
    cases h
    exact hentries
  | cons l ls ih =>
    rw [List.foldlM_cons] at h
    obtain ⟨mid, hmid, h⟩ := bind_eq_ok.mp h
    exact ih (parseLine_entries hentries hmid) h

private theorem parseInner_entries {text : Text} {b : Baseline} (h : parseInner path text = .ok b) :
    ∀ e ∈ b.entries, IsEntry e := by
  obtain ⟨entries, hentries, hb⟩ := bind_eq_ok.mp h
  cases hb
  exact parseLines_entries (by simp) hentries

private theorem parseInner_line {e : Text} (h : IsEntry e) :
    parseInner path (e ++ ['\n']) = .ok ⟨[e]⟩ := by
  have hlines : lines (e ++ ['\n']) = [e] := by
    rw [lines, linesGo_line h.newline_notMem]
    simp [h.stripCr, linesGo]
  have hskip : ¬ (e.isEmpty || startsWith e "#") = true := by
    rw [h.no_comment]
    simp [h.ne_nil]
  have hparsed : parseLine path [] (e, 0) = .ok [e] := by
    simp only [parseLine, h.trimmed]
    rw [if_neg (by have := h.fits; omega), if_neg hskip, if_neg (by simp [h.printable]),
      if_neg (by decide)]
    rfl
  simp [parseInner, hlines, hparsed]

private theorem fromFile_toUtf8 {file text : Text} (h : (toUtf8 text).length ≤ maxBaselineBytes) :
    fromFile file (.ok (toUtf8 text)) = parseInner (some file) text := by
  have hbuf : (toUtf8 text).take (maxBaselineBytes + 1) = toUtf8 text :=
    List.take_of_length_le (by omega)
  have hdecode : fromUtf8 (toUtf8 text) = some text := by
    have hbytes : (ByteArray.mk (toUtf8 text).toArray) = text.utf8Encode := by
      apply ByteArray.ext
      exact List.data_toByteArray.symm
    simp [fromUtf8, hbytes]
  simp only [fromFile, hbuf, hdecode]
  rw [if_neg (by omega)]

theorem fromFile_entries {file : Text} {content : Except Text Bytes} {b : Baseline}
    (h : fromFile file content = .ok b) : ∀ e ∈ b.entries, IsEntry e := by
  cases content with
  | error source => simp [fromFile] at h
  | ok bytes =>
    simp only [fromFile] at h
    split_ifs at h
    cases hdecode : fromUtf8 (bytes.take (maxBaselineBytes + 1)) with
    | none => simp [hdecode] at h
    | some text =>
      rw [hdecode] at h
      exact parseInner_entries h

theorem fromFile_line_iff (file e : Text) :
    (∃ b, fromFile file (.ok (toUtf8 (e ++ ['
']))) = .ok b ∧ e ∈ b.entries) ↔ IsEntry e := by
  constructor
  · intro h
    obtain ⟨b, hb, he⟩ := h
    exact fromFile_entries hb e he
  · intro h
    have hlen : (toUtf8 (e ++ ['
'])).length = utf8Len e + 1 := by
      rw [length_toUtf8, utf8Len_append]
      rfl
    have hcap : (toUtf8 (e ++ ['
'])).length ≤ maxBaselineBytes := by
      have hline : maxBaselineLine + 1 ≤ maxBaselineBytes := by decide
      have hfits := h.fits
      omega
    exact ⟨⟨[e]⟩, (fromFile_toUtf8 hcap).trans (parseInner_line h), List.mem_singleton_self e⟩

end Baseline

end Jitgen
