import Jitgen.Orchestrator.Error

/-!
# Applying the diff of a mutant

Every context and removed line is compared with the original; a mismatch, a malformed header or a
truncated hunk is an error, never a corrupted file.
-/

namespace Jitgen

open Text

namespace PatchApply

structure Hunk where
  oldStart : Nat
  oldCount : Nat
  newCount : Nat
  deriving DecidableEq

/-- Lines consumed of the original and lines written so far. -/
structure Patch where
  cursor : Nat
  out : List Text
  deriving DecidableEq

def malformed (detail : Text) : OrchestratorError := .invalid "mutant diff" detail

/-- Lines without the empty one after a final newline. -/
def splitLines (s : Text) : List Text :=
  if s.isEmpty then []
  else (if s.getLast? = some '\n' then s.dropLast else s).splitOn '\n'

def isFileHeader (line : Text) : Bool :=
  line.startsWith "--- " || line.startsWith "+++ " || line.startsWith "diff " ||
    line.startsWith "index "

def parseUsize (s : Text) : Option Nat := parseUnsigned (2 ^ 64) s

def parseNumber (detail s : Text) : Except OrchestratorError Nat :=
  match parseUsize s with
  | some n => .ok n
  | none => .error (malformed detail)

/-- Parse `start` or `start,count`; the count defaults to one. -/
def parseRange (s : Text) : Except OrchestratorError (Nat × Nat) :=
  match s.splitOn ',' with
  | [] => .error (malformed "bad range start")
  | [start] => do
    let start ← parseNumber "bad range start" start
    return (start, 1)
  | start :: count :: _ => do
    let start ← parseNumber "bad range start" start
    let count ← parseNumber "bad range count" count
    return (start, count)

/-- The range that follows a sign. -/
def signedPart (sign detail : Text) (part : Option Text) : Except OrchestratorError Text :=
  match part.bind (stripPrefix sign) with
  | some range => .ok range
  | none => .error (malformed detail)

/-- Parse a hunk header after its opening marker. -/
def parseHunkHeader (rest : Text) : Except OrchestratorError Hunk := do
  let parts := splitWhitespace (trimStart rest)
  let old ← signedPart "-" "missing old range" parts[0]?
  let new ← signedPart "+" "missing new range" parts[1]?
  let (oldStart, oldCount) ← parseRange old
  let (_, newCount) ← parseRange new
  return ⟨oldStart, oldCount, newCount⟩

def expectMatch (orig : List Text) (idx : Nat) (content : Text) : Except OrchestratorError Unit :=
  if orig[idx]? = some content then .ok ()
  else .error (malformed "context/removed line does not match original")

/-- Apply one hunk body and return the lines after it. -/
def applyHunk (h : Hunk) (orig : List Text) :
    List Text → (oldSeen newSeen : Nat) → Patch → Except OrchestratorError (Patch × List Text)
  | [], oldSeen, newSeen, p =>
    if oldSeen < h.oldCount ∨ newSeen < h.newCount then .error (malformed "hunk truncated")
    else .ok (p, [])
  | body :: lines, oldSeen, newSeen, p =>
    if oldSeen < h.oldCount ∨ newSeen < h.newCount then do
      let op := body.headD ' '
      let content := body.tail
      if op = ' ' then
        expectMatch orig p.cursor content
        applyHunk h orig lines (oldSeen + 1) (newSeen + 1) ⟨p.cursor + 1, p.out ++ [content]⟩
      else if op = '-' then
        expectMatch orig p.cursor content
        applyHunk h orig lines (oldSeen + 1) newSeen ⟨p.cursor + 1, p.out⟩
      else if op = '+' then
        applyHunk h orig lines oldSeen (newSeen + 1) ⟨p.cursor, p.out ++ [content]⟩
      else if op = '\\' then applyHunk h orig lines oldSeen newSeen p
      else .error (malformed "bad hunk body line")
    else .ok (p, body :: lines)

/-- Copy the unchanged lines up to a hunk's old start. -/
def advance (h : Hunk) (orig : List Text) (p : Patch) : Except OrchestratorError Patch :=
  let target := h.oldStart - 1
  if h.oldStart = 0 ∧ 0 < h.oldCount then
    .error (malformed "old_start 0 with a non-empty old range")
  else if orig.length < target then .error (malformed "hunk start past end of file")
  else if target < p.cursor then
    .error (malformed "hunk out of order / overlapping a prior hunk")
  else .ok ⟨target, p.out ++ (orig.drop p.cursor).take (target - p.cursor)⟩

/-- The loop over the diff; every turn consumes a line, so `fuel` bounds the turns. -/
def applyLines (orig : List Text) : (fuel : Nat) → List Text → Patch →
    Except OrchestratorError Patch
  | 0, _, p => .ok p
  | _ + 1, [], p => .ok p
  | fuel + 1, line :: lines, p =>
    match stripPrefix "@@" line with
    | some rest => do
      let h ← parseHunkHeader rest
      let p ← advance h orig p
      let (p, lines) ← applyHunk h orig lines 0 0 p
      applyLines orig fuel lines p
    | none =>
      if isFileHeader line || line.isEmpty then applyLines orig fuel lines p
      else .error (malformed "unexpected content outside a hunk")

private theorem applyHunk_length_le {h : Hunk} {orig lines rest : List Text} {oldSeen newSeen : Nat}
    {p p' : Patch} (happ : applyHunk h orig lines oldSeen newSeen p = .ok (p', rest)) :
    rest.length ≤ lines.length := by
  induction lines generalizing oldSeen newSeen p with
  | nil =>
    rw [applyHunk] at happ
    split at happ
    · cases happ
    · cases happ
      exact le_rfl
  | cons body lines ih =>
    have hlater : ∀ {o n q}, applyHunk h orig lines o n q = .ok (p', rest) →
        rest.length ≤ (body :: lines).length := fun hq => (ih hq).trans (Nat.le_succ _)
    have hmatch : ∀ {o n q}, (expectMatch orig p.cursor body.tail >>= fun _ =>
        applyHunk h orig lines o n q) = .ok (p', rest) → rest.length ≤ (body :: lines).length := by
      intro o n q hq
      cases hm : expectMatch orig p.cursor body.tail with
      | error e =>
        rw [hm] at hq
        cases hq
      | ok u =>
        rw [hm] at hq
        exact hlater hq
    rw [applyHunk] at happ
    split at happ
    · dsimp only at happ
      split_ifs at happ
      · exact hmatch happ
      · exact hmatch happ
      · exact hlater happ
      · exact hlater happ
    · cases happ
      exact le_rfl

/-- The loop never stops for want of fuel. -/
theorem applyLines_fuel (orig : List Text) {fuel : Nat} {lines : List Text} (p : Patch)
    (hfuel : lines.length ≤ fuel) :
    applyLines orig fuel lines p = applyLines orig lines.length lines p := by
  suffices h : ∀ m n (lines : List Text) p, lines.length ≤ m → lines.length ≤ n →
      applyLines orig m lines p = applyLines orig n lines p from h _ _ _ _ hfuel le_rfl
  intro m
  induction m with
  | zero =>
    intro n lines p hm _
    rw [List.length_eq_zero_iff.mp (Nat.le_zero.mp hm)]
    cases n <;> rfl
  | succ m ih =>
    intro n lines p hm hn
    cases lines with
    | nil => cases n <;> rfl
    | cons line lines =>
      obtain ⟨n, rfl⟩ : ∃ k, n = k + 1 := Nat.exists_eq_succ_of_ne_zero (by
        intro h0
        simp [h0] at hn)
      simp only [List.length_cons, Nat.add_le_add_iff_right] at hm hn
      simp only [applyLines]
      cases stripPrefix "@@" line with
      | none =>
        dsimp only
        rw [ih n lines p hm hn]
      | some rest =>
        refine bind_congr fun h => bind_congr fun q => ?_
        cases happ : applyHunk h orig lines 0 0 q with
        | error e => rfl
        | ok r =>
          obtain ⟨q', rest'⟩ := r
          have hle := applyHunk_length_le happ
          exact ih n rest' q' (hle.trans hm) (hle.trans hn)

/-- Apply a unified diff, failing closed on any mismatch. -/
def applyUnifiedDiff (original diff : Text) : Except OrchestratorError Text := do
  let orig := splitLines original
  let lines := Text.lines diff
  let p ← applyLines orig lines.length lines ⟨0, []⟩
  let result := join "\n" (p.out ++ orig.drop p.cursor)
  return if original.endsWith "\n" && !result.isEmpty then result ++ ['\n'] else result

example : applyUnifiedDiff "a\nb\nc\n" "@@ -1,3 +1,3 @@\n a\n-b\n+B\n c\n" =
    .ok ("a\nB\nc\n" : Text) := by decide

end PatchApply

end Jitgen
