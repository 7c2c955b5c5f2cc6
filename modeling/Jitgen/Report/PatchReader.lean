import Jitgen.Framework.Lines
import Jitgen.Framework.Numerals
import Jitgen.Report.Patch

/-!
# Reading a patch of new files

A patch is read file by file: the header lines, a hunk that adds a counted number of lines, and
maybe a marker that the last of them has no newline.
-/

namespace Jitgen

open Text

namespace PatchReader

def noNewline : Text := "\\ No newline at end of file"

/-- The number of added lines in a hunk header of a new file. -/
def readCount (line : Text) : Option Nat := do
  let rest ← stripPrefix "@@ -0,0 +1," line
  let digits := rest.takeWhile isAsciiDigit
  if digits ≠ [] ∧ rest.dropWhile isAsciiDigit = (" @@" : Text) then some (digitsValue digits)
  else none

/-- The contents of that many added lines, and the lines after them. -/
def readAdded : Nat → List Text → Option (List Text × List Text)
  | 0, lines => some ([], lines)
  | _ + 1, [] => none
  | n + 1, line :: lines => do
    let content ← stripPrefix "+" line
    let (contents, rest) ← readAdded n lines
    return (content :: contents, rest)

/-- One new file, given by its path and contents, and the lines after it. -/
def readFile : List Text → Option ((Text × Text) × List Text)
  | header :: mode :: minus :: plus :: hunk :: lines => do
    let path ← stripPrefix "+++ b/" plus
    if header = "diff --git a/" ++ path ++ " b/" ++ path ∧ mode = "new file mode 100644" ∧
        minus = "--- /dev/null" then do
      let n ← readCount hunk
      let (contents, rest) ← readAdded n lines
      match rest with
      | [] => return ((path, unlines contents), [])
      | next :: after =>
        if next = noNewline then return ((path, join "\n" contents), after)
        else return ((path, unlines contents), next :: after)
    else none
  | _ => none

def readFiles : (fuel : Nat) → List Text → Option (List (Text × Text))
  | _, [] => some []
  | 0, _ :: _ => none
  | fuel + 1, line :: lines => do
    let (file, rest) ← readFile (line :: lines)
    let files ← readFiles fuel rest
    return file :: files

/-- The new files of a patch; every line of it must end with a newline. -/
def readPatch (patch : Text) : Option (List (Text × Text)) :=
  if ∀ line ∈ rawLines patch, Terminated line then
    readFiles (rawLines patch).length ((rawLines patch).map chomp)
  else none

/-- The lines of a new-file addition. -/
def additionLines (path source : Text) : List Text :=
  ("diff --git a/" ++ path ++ " b/" ++ path) :: "new file mode 100644" :: "--- /dev/null" ::
    ("+++ b/" ++ path) :: ("@@ -0,0 +1," ++ ofNat (rawLines source).length ++ " @@") ::
      (((rawLines source).map fun l => '+' :: chomp l) ++
        if Terminated source then [] else [noNewline])

private theorem stripPrefix_append (pre s : Text) : stripPrefix pre (pre ++ s) = some s := by
  simp [stripPrefix]

private theorem readCount_header (n : Nat) :
    readCount ("@@ -0,0 +1," ++ ofNat n ++ " @@") = some n := by
  have hdigit : ∀ c ∈ ofNat n, isAsciiDigit c = true := fun c hc => isAsciiDigit_of_mem_ofNat hc
  have htake : (ofNat n ++ " @@").takeWhile isAsciiDigit = ofNat n := by
    rw [List.takeWhile_append_of_pos hdigit]
    simp [show isAsciiDigit ' ' = false by decide]
  have hdrop : (ofNat n ++ " @@").dropWhile isAsciiDigit = (" @@" : Text) := by
    rw [List.dropWhile_append_of_pos hdigit]
    decide
  unfold readCount
  rw [List.append_assoc, stripPrefix_append]
  simp only [Option.bind_eq_bind, Option.bind_some, htake, hdrop, ofNat_ne_nil, ne_eq,
    not_false_eq_true, and_self, if_true, digitsValue_ofNat]

private theorem readAdded_append (contents rest : List Text) :
    readAdded contents.length ((contents.map fun l => '+' :: l) ++ rest) =
      some (contents, rest) := by
  induction contents with
  | nil => rfl
  | cons l ls ih =>
    have hplus : stripPrefix "+" ('+' :: l) = some l := stripPrefix_append ['+'] l
    simp only [List.length_cons, List.map_cons, List.cons_append, readAdded, hplus, ih]
    rfl

/-- An addition that is followed by nothing or by another one is read back. -/
private theorem readFile_additionLines {path source : Text} (hsource : source ≠ [])
    {rest : List Text} (hrest : ∀ next after, rest = next :: after → next ≠ noNewline) :
    readFile (additionLines path source ++ rest) = some ((path, source), rest) := by
  have hadded := readAdded_append ((rawLines source).map chomp)
    ((if Terminated source then [] else [noNewline]) ++ rest)
  rw [List.length_map, List.map_map, ← List.append_assoc] at hadded
  have htext := text_eq_join hsource
  have hraw : (rawLines source).map chomp ≠ [] := by
    intro h
    exact hsource (rawLines_eq_nil (List.map_eq_nil_iff.mp h))
  unfold additionLines
  simp only [List.cons_append, readFile, stripPrefix_append, readCount_header, Option.bind_eq_bind,
    Option.bind_some, and_self, if_true]
  change (readAdded _ (((rawLines source).map ((fun l => '+' :: l) ∘ chomp) ++ _) ++ rest)).bind _ =
    _
  rw [hadded]
  by_cases hterm : Terminated source
  · rw [if_pos hterm, ← unlines_eq_join hraw] at htext
    rw [if_pos hterm, List.nil_append]
    cases rest with
    | nil => simp [← htext]
    | cons next after =>
      have hnext := hrest next after rfl
      simp [hnext, ← htext]
  · rw [if_neg hterm, List.append_nil] at htext
    rw [if_neg hterm]
    simp only [List.singleton_append, Option.bind_some, if_true]
    rw [← htext]
    rfl

private theorem notMem_additionLines {path source : Text} (hpath : '\n' ∉ path) :
    ∀ l ∈ additionLines path source, '\n' ∉ l := by
  have hcount : '\n' ∉ ofNat (rawLines source).length := notMem_ofNat (by decide)
  intro l hl
  unfold additionLines at hl
  simp only [List.mem_cons, List.mem_append, List.mem_map] at hl
  rcases hl with rfl | rfl | rfl | rfl | rfl | ⟨raw, hraw, rfl⟩ | hl
  · simp [hpath]
  · decide
  · decide
  · simp [hpath]
  · simp [hcount]
  · simpa using newline_notMem_chomp hraw
  · split at hl
    · simp at hl
    · rw [List.mem_singleton.mp hl]
      decide

private theorem header_ne_marker (s : Text) : "diff --git a/" ++ s ≠ noNewline := by
  intro h
  have hhead : (("diff --git a/" : Text) ++ s).head? = some 'd' := rfl
  rw [h] at hhead
  exact absurd hhead (by decide)

private theorem readFiles_additionLines (files : List (Text × Text))
    (hfiles : ∀ f ∈ files, f.2 ≠ []) {k : Nat}
    (hk : (files.flatMap fun f => additionLines f.1 f.2).length ≤ k) :
    readFiles k (files.flatMap fun f => additionLines f.1 f.2) = some files := by
  induction files generalizing k with
  | nil => cases k <;> rfl
  | cons f files ih =>
    rw [List.flatMap_cons] at hk ⊢
    have hnext : ∀ next after, files.flatMap (fun f => additionLines f.1 f.2) = next :: after →
        next ≠ noNewline := by
      intro next after h
      cases files with
      | nil => cases h
      | cons g files =>
        rw [List.flatMap_cons, additionLines, List.cons_append] at h
        rw [← (List.cons.inj h).1, List.append_assoc, List.append_assoc]
        exact header_ne_marker _
    have hread : readFile (additionLines f.1 f.2 ++ _) = _ :=
      readFile_additionLines (hfiles f (by simp)) hnext
    obtain ⟨line, lines, hlines⟩ : ∃ line lines, additionLines f.1 f.2 = line :: lines := ⟨_, _, rfl⟩
    rw [hlines] at hk hread ⊢
    obtain ⟨k, rfl⟩ : ∃ j, k = j + 1 := Nat.exists_eq_succ_of_ne_zero (by
      intro h0
      simp [h0] at hk)
    rw [List.cons_append] at hread ⊢
    simp only [readFiles, hread, Option.bind_eq_bind, Option.bind_some]
    rw [ih (fun g hg => hfiles g (by simp [hg])) (by
      rw [List.length_append, List.length_cons] at hk
      omega)]
    rfl

theorem readPatch_unlines {files : List (Text × Text)}
    (hfiles : ∀ f ∈ files, '\n' ∉ f.1 ∧ f.2 ≠ []) :
    readPatch (unlines (files.flatMap fun f => additionLines f.1 f.2)) = some files := by
  have hfree : ∀ l ∈ files.flatMap (fun f => additionLines f.1 f.2), '\n' ∉ l := by
    intro l hl
    obtain ⟨f, hf, hl⟩ := List.mem_flatMap.mp hl
    exact notMem_additionLines (hfiles f hf).1 l hl
  have hraw := rawLines_unlines hfree
  have hterm : ∀ line ∈ rawLines (unlines (files.flatMap fun f => additionLines f.1 f.2)),
      Terminated line := by
    intro line hline
    rw [hraw] at hline
    obtain ⟨l, -, rfl⟩ := List.mem_map.mp hline
    exact terminated_append_newline l
  have hchomp : chomp ∘ (· ++ ['\n']) = id := funext chomp_append_newline
  rw [readPatch, if_pos hterm, hraw, List.length_map, List.map_map, hchomp, List.map_id]
  exact readFiles_additionLines files (fun f hf => (hfiles f hf).2) le_rfl

/-- What the exporter writes for a test that its sanitizers leave alone. -/
theorem fileAddition_eq {t : AcceptedTest} (hpath : sanitizePath t.path = t.path)
    (hstrip : stripControls t.source = t.source) (hsource : t.source ≠ []) :
    fileAddition t = unlines (additionLines t.path t.source) := by
  have hsplit := splitOn_newline t.source
  have hcontents : (if t.source.getLast? == some '\n' then (t.source.splitOn '\n').dropLast
      else t.source.splitOn '\n') = (rawLines t.source).map chomp := by
    by_cases hterm : Terminated t.source
    · rw [if_pos (.inr hterm)] at hsplit
      rw [if_pos (beq_iff_eq.mpr hterm), hsplit, List.dropLast_concat]
    · rw [if_neg (by simp [hsource, hterm]), List.append_nil] at hsplit
      rw [if_neg (mt beq_iff_eq.mp hterm), hsplit]
  have hcount : 0 < (rawLines t.source).length :=
    List.length_pos_iff.mpr fun h => hsource (rawLines_eq_nil h)
  have hmarker : (if !(t.source.getLast? == some '\n') &&
        decide (0 < ((rawLines t.source).map chomp).length) then
        (("\\ No newline at end of file\n" : String) : Text) else []) =
      unlines (if Terminated t.source then [] else [noNewline]) := by
    rw [List.length_map]
    by_cases hterm : Terminated t.source
    · rw [beq_iff_eq.mpr hterm, if_pos hterm]
      rfl
    · rw [Bool.eq_false_iff.mpr (mt beq_iff_eq.mp hterm), decide_eq_true hcount, if_neg hterm]
      decide
  have hadded : ((((rawLines t.source).map chomp).map fun line => '+' :: (line ++ ['\n']))).flatten =
      unlines ((rawLines t.source).map fun l => '+' :: chomp l) := by
    simp [unlines, List.flatMap, Function.comp_def]
  have hmode : ("new file mode 100644\n" : Text) = "new file mode 100644" ++ ['\n'] := by decide
  have hminus : ("--- /dev/null\n" : Text) = "--- /dev/null" ++ ['\n'] := by decide
  have hhunk : (" @@\n" : Text) = " @@" ++ ['\n'] := by decide
  have hnewline : ("\n" : Text) = ['\n'] := by decide
  unfold fileAddition additionLines
  dsimp only
  rw [hpath, hstrip, hcontents, if_neg (by simpa using hsource), hadded, hmarker, hmode, hminus,
    hhunk, hnewline, List.length_map]
  simp only [unlines_cons, unlines_append, List.append_assoc]

end PatchReader

end Jitgen
