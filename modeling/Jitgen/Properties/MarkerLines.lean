import Jitgen.Sandbox.Run

/-!
# Taking out the marker's line

The scan for a marker returns within the bounds of the captured bytes, finds the marker exactly when
a line of them is the marker, and then takes out the first such line with its line feed and nothing
else.
-/

namespace Jitgen

variable {marker : Bytes}

private theorem byteSlice_append (before mid after : Bytes) :
    byteSlice (before ++ mid ++ after) before.length (before.length + mid.length) = some mid := by
  have hbound : before.length ≤ before.length + mid.length ∧
      before.length + mid.length ≤ (before ++ mid ++ after).length := by
    simp only [List.length_append]
    omega
  unfold byteSlice
  rw [if_pos hbound, List.append_assoc, List.drop_left, Nat.add_sub_cancel_left, List.take_left]

private theorem byteSlice_start (before after : Bytes) :
    byteSlice (before ++ after) 0 before.length = some before := by
  simpa using byteSlice_append [] before after

private theorem byteSlice_end (before after : Bytes) :
    byteSlice (before ++ after) before.length (before ++ after).length = some after := by
  simpa using byteSlice_append before after []

private theorem idxOf?_newline {line : Bytes} (hline : 10 ∉ line) (rest : Bytes) :
    (line ++ 10 :: rest).idxOf? 10 = some line.length := by
  induction line with
  | nil => simp [List.idxOf?_cons]
  | cons b line ih =>
    rw [List.mem_cons, not_or] at hline
    have hb : (b == 10) = false := by simpa using Ne.symm hline.1
    rw [List.cons_append, List.idxOf?_cons, hb, ih hline.2]
    simp

private theorem stripMarkerLoop_line {line : Bytes} (done : Bytes) (hline : 10 ∉ line)
    (rest : Bytes) (fuel : Nat) :
    stripMarkerLoop (done ++ (line ++ 10 :: rest)) marker (fuel + 1) done.length =
      if line = marker then some (done ++ rest, true)
      else
        stripMarkerLoop (done ++ (line ++ 10 :: rest)) marker fuel (done ++ line ++ [10]).length := by
  have hbound : done.length ≤ (done ++ (line ++ 10 :: rest)).length := by simp
  have hslice : byteSlice (done ++ (line ++ 10 :: rest)) done.length (done.length + line.length) =
      some line := by
    simpa using byteSlice_append done line (10 :: rest)
  have hafter : byteSlice (done ++ (line ++ 10 :: rest)) (done.length + line.length + 1)
      (done ++ (line ++ 10 :: rest)).length = some rest := by
    have h := byteSlice_end (done ++ line ++ [10]) rest
    simpa [Nat.add_assoc] using h
  rw [stripMarkerLoop, if_pos hbound, byteSlice_end]
  simp only [Option.bind_eq_bind, Option.bind_some, idxOf?_newline hline, hslice, byteSlice_start,
    Option.isSome_some, if_true, hafter, Bool.not_true, Bool.false_eq_true, if_false]
  have hnext : (done ++ line ++ [10]).length = done.length + line.length + 1 := by
    simp only [List.length_append, List.length_singleton]
  rw [hnext]
  rfl

private theorem stripMarkerLoop_last {line : Bytes} (done : Bytes) (hline : 10 ∉ line)
    (fuel : Nat) :
    stripMarkerLoop (done ++ line) marker (fuel + 1) done.length =
      if line = marker then some (done, true) else some (done ++ line, false) := by
  have hbound : done.length ≤ (done ++ line).length := by simp
  have hnone : line.idxOf? 10 = none := List.idxOf?_eq_none_iff.mpr hline
  have hafter : byteSlice (done ++ line) (done ++ line).length (done ++ line).length = some [] := by
    simpa using byteSlice_end (done ++ line) []
  rw [stripMarkerLoop, if_pos hbound, byteSlice_end]
  simp only [Option.bind_eq_bind, Option.bind_some, hnone, byteSlice_end, byteSlice_start,
    Option.isSome_none, Bool.false_eq_true, if_false, hafter, List.append_nil, Bool.not_false,
    if_true]
  rfl

private theorem stripMarkerGo_append {line : Bytes} (done : Bytes) (hline : 10 ∉ line)
    (rest : Bytes) :
    stripMarkerGo marker done (line ++ rest) = stripMarkerGo marker (done ++ line) rest := by
  induction line generalizing done with
  | nil => simp
  | cons b line ih =>
    rw [List.mem_cons, not_or] at hline
    rw [List.cons_append, stripMarkerGo, if_neg (Ne.symm hline.1), ih _ hline.2]
    simp

private theorem stripMarkerLine_line {line : Bytes} (hline : 10 ∉ line) (rest : Bytes) :
    stripMarkerLine (line ++ 10 :: rest) marker =
      if line = marker then (rest, true)
      else (line ++ 10 :: (stripMarkerLine rest marker).1, (stripMarkerLine rest marker).2) := by
  unfold stripMarkerLine
  rw [stripMarkerGo_append [] hline, List.nil_append, stripMarkerGo, if_pos rfl]

private theorem stripMarkerLine_last {line : Bytes} (hline : 10 ∉ line) :
    stripMarkerLine line marker = if line = marker then ([], true) else (line, false) := by
  unfold stripMarkerLine
  rw [← List.append_nil line, stripMarkerGo_append [] hline, List.nil_append, List.append_nil,
    stripMarkerGo]

private theorem lines_induction {P : Bytes → Prop} (last : ∀ line, 10 ∉ line → P line)
    (line : ∀ line rest, 10 ∉ line → P rest → P (line ++ 10 :: rest)) (s : Bytes) : P s := by
  induction hn : s.length using Nat.strong_induction_on generalizing s with
  | h n ih =>
    by_cases hs : 10 ∈ s
    · obtain ⟨l, rest, heq, hl⟩ := List.eq_append_cons_of_mem hs
      rw [heq]
      apply line l rest hl
      apply ih rest.length _ rest rfl
      rw [← hn, heq, List.length_append, List.length_cons]
      omega
    · exact last s hs

private theorem stripMarkerLoop_eq (done s : Bytes) (fuel : Nat) :
    stripMarkerLoop (done ++ s) marker (s.length + 1 + fuel) done.length =
      some (done ++ (stripMarkerLine s marker).1, (stripMarkerLine s marker).2) := by
  induction s using lines_induction generalizing done fuel with
  | last line hline =>
    rw [show line.length + 1 + fuel = line.length + fuel + 1 by omega,
      stripMarkerLoop_last done hline, stripMarkerLine_last hline]
    by_cases heq : line = marker
    · simp [heq]
    · simp [heq]
  | line line rest hline ih =>
    have hfuel : (line ++ 10 :: rest).length + 1 + fuel =
        (rest.length + 1 + (line.length + fuel)) + 1 := by
      simp only [List.length_append, List.length_cons]
      omega
    rw [hfuel, stripMarkerLoop_line done hline, stripMarkerLine_line hline]
    by_cases heq : line = marker
    · simp [heq]
    · have h := ih (done ++ line ++ [10]) (line.length + fuel)
      rw [if_neg heq, if_neg heq]
      simpa using h

/-- The bytes with one line of them, equal to the marker, and the same bytes without it: the lines
before it each end in a line feed, and so does it when lines follow. -/
structure CutLine (marker stderr out : Bytes) (before after : List Bytes) : Prop where
  lines : stderr.splitOn 10 = before ++ marker :: after
  first : marker ∉ before
  input : stderr = before.flatMap (· ++ [10]) ++ marker ++
    (if after = [] then [] else 10 :: [10].intercalate after)
  output : out = before.flatMap (· ++ [10]) ++ [10].intercalate after

private theorem cutLine_here {rest : Bytes} (hmarker : 10 ∉ marker) :
    CutLine marker (marker ++ 10 :: rest) rest [] (rest.splitOn 10) := by
  constructor
  · simpa using List.splitOn_append_cons_self_of_not_mem hmarker rest
  · simp
  · simp [List.splitOn_ne_nil, List.intercalate_splitOn]
  · simp [List.intercalate_splitOn]

theorem CutLine.later {line rest out : Bytes} {before after : List Bytes} (hline : 10 ∉ line)
    (hne : line ≠ marker) (h : CutLine marker rest out before after) :
    CutLine marker (line ++ 10 :: rest) (line ++ 10 :: out) (line :: before) after := by
  constructor
  · rw [List.splitOn_append_cons_self_of_not_mem hline, h.lines, List.cons_append]
  · simpa using ⟨Ne.symm hne, h.first⟩
  · simpa using h.input
  · simpa using h.output

private theorem stripMarkerLine_found (s : Bytes) (h : marker ∈ s.splitOn 10) :
    (stripMarkerLine s marker).2 = true ∧
      ∃ before after, CutLine marker s (stripMarkerLine s marker).1 before after := by
  induction s using lines_induction with
  | last line hline =>
    rw [List.splitOn_eq_singleton hline, List.mem_singleton] at h
    subst h
    rw [stripMarkerLine_last hline, if_pos rfl]
    have hcut : CutLine marker marker [] [] [] :=
      ⟨List.splitOn_eq_singleton hline, by simp, by simp, by simp⟩
    exact ⟨rfl, [], [], hcut⟩
  | line line rest hline ih =>
    rw [stripMarkerLine_line hline]
    by_cases heq : line = marker
    · subst heq
      rw [if_pos rfl]
      exact ⟨rfl, [], rest.splitOn 10, cutLine_here hline⟩
    · rw [if_neg heq]
      rw [List.splitOn_append_cons_self_of_not_mem hline, List.mem_cons] at h
      obtain ⟨hfound, before, after, hcut⟩ := ih (h.resolve_left (Ne.symm heq))
      exact ⟨hfound, line :: before, after, hcut.later hline heq⟩

private theorem stripMarkerLine_absent (s : Bytes) (h : marker ∉ s.splitOn 10) :
    stripMarkerLine s marker = (s, false) := by
  induction s using lines_induction with
  | last line hline =>
    rw [List.splitOn_eq_singleton hline, List.mem_singleton] at h
    rw [stripMarkerLine_last hline, if_neg (Ne.symm h)]
  | line line rest hline ih =>
    rw [List.splitOn_append_cons_self_of_not_mem hline, List.mem_cons, not_or] at h
    rw [stripMarkerLine_line hline, if_neg (Ne.symm h.1), ih h.2]

/-- The scan of any bytes for any marker returns, with no slice outside the bytes and within one
step more than there are bytes. The marker is found exactly when a line is the marker; then the
first such line is taken out with its line feed, and else the bytes are returned as they are. -/
theorem stripMarkerLoop_spec (stderr marker : Bytes) (fuel : Nat) :
    ∃ out found, stripMarkerLoop stderr marker (stderr.length + 1 + fuel) 0 = some (out, found) ∧
      (found = true ↔ marker ∈ stderr.splitOn 10) ∧
      (found = true → ∃ before after, CutLine marker stderr out before after) ∧
      (found = false → out = stderr) := by
  have hloop := @stripMarkerLoop_eq marker [] stderr fuel
  simp only [List.nil_append, List.length_nil] at hloop
  refine ⟨_, _, hloop, ?_⟩
  by_cases h : marker ∈ stderr.splitOn 10
  · obtain ⟨hfound, hcut⟩ := stripMarkerLine_found stderr h
    rw [hfound]
    exact ⟨⟨fun _ => h, fun _ => rfl⟩, fun _ => hcut, fun habsurd => by simp at habsurd⟩
  · rw [stripMarkerLine_absent stderr h]
    exact ⟨⟨fun habsurd => by simp at habsurd, fun hin => absurd hin h⟩,
      fun habsurd => by simp at habsurd, fun _ => rfl⟩

end Jitgen
