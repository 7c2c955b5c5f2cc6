import Jitgen.Orchestrator.PatchReading

/-!
# What an applied diff does

A diff that applies changes the declared ranges and nothing else, except where its counts, its
insertions or an empty last line are read in another way than declared.
-/

namespace Jitgen

open Text

namespace PatchApply

/-- Whether the lines can be told from their text: an empty last line needs the final newline of
the original and another line. -/
def LastLineKept (original : Text) (ls : List Text) : Prop :=
  ls.getLast? = some [] → Terminated original ∧ ls ≠ [[]]

instance (original : Text) (ls : List Text) : Decidable (LastLineKept original ls) :=
  inferInstanceAs (Decidable (_ → _))

private theorem finish_keeps {original : Text} {ls : List Text} (hls : ∀ l ∈ ls, '\n' ∉ l)
    (hkept : LastLineKept original ls) :
    splitLines (finish original ls) = ls ∧
      (finish original ls ≠ [] → (Terminated (finish original ls) ↔ Terminated original)) := by
  by_cases hnil : ls = []
  · subst hnil
    rw [finish_blank original rfl]
    simp [splitLines]
  have hblank : ls ≠ [[]] := by
    rintro rfl
    exact (hkept rfl).2 rfl
  have hjoin := join_ne_nil hnil hblank
  by_cases horig : Terminated original
  · rw [finish_terminated horig hjoin, ← unlines_eq_join hnil, splitLines_unlines hls,
      unlines_eq_join hnil]
    simp [horig, terminated_append_newline]
  · rw [finish_not_terminated horig]
    have hlast : ls.getLast? ≠ some [] := fun h => horig (hkept h).1
    have hopen : ¬ Terminated (join "\n" ls) := by
      intro h
      exact hlast ((terminated_join_iff hls).mp h).1
    constructor
    · rw [splitLines, if_neg (by simpa using hjoin),
        if_neg (show ¬ (join "\n" ls).getLast? = some '\n' from hopen), splitOn_join hls hnil]
    · exact fun _ => ⟨fun h => absurd h hopen, fun h => absurd h horig⟩

private theorem finish_loses {original : Text} {ls : List Text} (hls : ∀ l ∈ ls, '\n' ∉ l)
    (hlost : ¬ LastLineKept original ls) :
    ls ≠ [] ∧ splitLines (finish original ls) = ls.dropLast := by
  obtain ⟨hlast, hlost⟩ := Classical.not_imp.mp hlost
  obtain ⟨init, rfl⟩ := List.getLast?_eq_some_iff.mp hlast
  refine ⟨by simp, ?_⟩
  rw [List.dropLast_concat]
  by_cases hinit : init = []
  · subst hinit
    rw [finish_blank original rfl]
    rfl
  · have horig : ¬ Terminated original := by
      intro h
      refine hlost ⟨h, fun heq => hinit ?_⟩
      have := congrArg List.dropLast heq
      simpa using this
    rw [finish_not_terminated horig, join_concat hinit, ← unlines_eq_join hinit]
    exact splitLines_unlines fun l hl => hls l (by simp [hl])

/-- Lines of the original before the declared range: an empty range follows the line it names. -/
def Hunk.before (h : Hunk) : Nat := if h.oldCount = 0 then h.oldStart else h.oldStart - 1

def ReadHunk.declared (h : ReadHunk) : Edit Text :=
  ⟨h.header.before, oldSide h.body, newSide h.body⟩

/-- The hunks do what their headers declare, and the result is the original with the declared
ranges replaced. -/
structure Sound (original : Text) (hs : List ReadHunk) (result : Text) : Prop where
  counts : ∀ h ∈ hs, (oldSide h.body).length = h.header.oldCount ∧
    (newSide h.body).length = h.header.newCount
  applicable : Edit.Applicable (splitLines original) (hs.map ReadHunk.declared)
  lines : splitLines result =
    Edit.splice (splitLines original) 0 (hs.map ReadHunk.declared)
  newline : result ≠ [] → (Terminated result ↔ Terminated original)

/-- Whether a body line belongs to a side whose count is used up. -/
def overruns (h : Hunk) : List Text → (oldSeen newSeen : Nat) → Bool
  | [], _, _ => false
  | line :: body, oldSeen, newSeen =>
    match bodyOp line with
    | none => false
    | some op =>
      h.oldCount < oldSeen + op.old || h.newCount < newSeen + op.new ||
        overruns h body (oldSeen + op.old) (newSeen + op.new)

/-- No body overruns its counts, every insertion is inside the original, repeats the line that it
follows and has no later hunk before it, and no empty last line is lost. -/
structure Plain (original : Text) (hs : List ReadHunk) : Prop where
  within_counts : ∀ h ∈ hs, overruns h.header h.body 0 0 = false
  inside : ∀ h ∈ hs, h.header.oldCount = 0 → h.header.oldStart ≤ (splitLines original).length
  repeats : ∀ h ∈ hs, h.header.oldCount = 0 → 0 < h.header.oldStart →
    ∀ l ∈ newSide h.body, (splitLines original)[h.header.oldStart - 1]? = some l
  insertion_first : hs.Pairwise fun h k => h.header.oldCount = 0 →
    h.header.oldStart ≤ k.header.before
  last_line : LastLineKept original
    (Edit.splice (splitLines original) 0 (hs.map ReadHunk.declared))

private theorem overruns_eq_false_iff {h : Hunk} {lines body rest : List Text}
    {oldSeen newSeen : Nat} (htake : takeBody h lines oldSeen newSeen = some (body, rest))
    (hold : oldSeen ≤ h.oldCount) (hnew : newSeen ≤ h.newCount) :
    overruns h body oldSeen newSeen = false ↔
      oldSeen + (oldSide body).length = h.oldCount ∧
        newSeen + (newSide body).length = h.newCount := by
  induction lines generalizing body oldSeen newSeen with
  | nil =>
    by_cases hmore : oldSeen < h.oldCount ∨ newSeen < h.newCount
    · simp [takeBody, hmore] at htake
    · obtain ⟨rfl, -⟩ := (takeBody_done hmore).mp htake
      have hdone : oldSeen = h.oldCount ∧ newSeen = h.newCount := by omega
      simpa [overruns, oldSide, newSide] using hdone
  | cons line lines ih =>
    by_cases hmore : oldSeen < h.oldCount ∨ newSeen < h.newCount
    · obtain ⟨op, body, hop, rfl, hlater⟩ := (takeBody_cons hmore).mp htake
      have holdlen : (oldSide (line :: body)).length = op.old + (oldSide body).length := by
        rw [oldSide_cons hop]
        cases op <;> simp [BodyOp.old, Nat.add_comm]
      have hnewlen : (newSide (line :: body)).length = op.new + (newSide body).length := by
        rw [newSide_cons hop]
        cases op <;> simp [BodyOp.new, Nat.add_comm]
      rw [overruns, hop, holdlen, hnewlen]
      by_cases hover : h.oldCount < oldSeen + op.old ∨ h.newCount < newSeen + op.new
      · have htrue : (decide (h.oldCount < oldSeen + op.old) ||
            decide (h.newCount < newSeen + op.new)) = true := by simpa using hover
        simp only [htrue, Bool.true_or, Bool.true_eq_false, false_iff]
        omega
      · have hrest := ih hlater (by omega) (by omega)
        have hfalse : (decide (h.oldCount < oldSeen + op.old) ||
            decide (h.newCount < newSeen + op.new)) = false := by
          simpa using hover
        simp only [hfalse, Bool.false_or, hrest]
        omega
    · obtain ⟨rfl, -⟩ := (takeBody_done hmore).mp htake
      have hdone : oldSeen = h.oldCount ∧ newSeen = h.newCount := by omega
      simpa [overruns, oldSide, newSide] using hdone

private theorem counts_iff {diff : Text} {hs : List ReadHunk} (hread : readDiff diff = some hs)
    {h : ReadHunk} (hh : h ∈ hs) :
    overruns h.header h.body 0 0 = false ↔ (oldSide h.body).length = h.header.oldCount ∧
      (newSide h.body).length = h.header.newCount := by
  obtain ⟨rest, after, htake, -⟩ := exists_takeBody_of_readHunks hread hh
  simpa using overruns_eq_false_iff htake (Nat.zero_le _) (Nat.zero_le _)

private theorem declared_earlier {h : ReadHunk}
    (hcount : (oldSide h.body).length = h.header.oldCount) :
    h.declared.earlier = h.edit := by
  by_cases hold : oldSide h.body = []
  · have hzero : h.header.oldCount = 0 := by rw [← hcount, hold, List.length_nil]
    rw [Edit.earlier_of_nil hold]
    simp [ReadHunk.declared, ReadHunk.edit, Hunk.before, hzero]
  · have hpos : h.header.oldCount ≠ 0 := by
      rw [← hcount]
      exact (List.length_pos_iff.mpr hold).ne'
    rw [Edit.earlier_of_ne_nil hold]
    simp [ReadHunk.declared, ReadHunk.edit, Hunk.before, hpos]

private theorem newline_notMem_newSide {diff : Text} {hs : List ReadHunk}
    (hread : readDiff diff = some hs) {h : ReadHunk} (hh : h ∈ hs) {l : Text}
    (hl : l ∈ newSide h.body) : '\n' ∉ l := by
  obtain ⟨rest, after, htake, hrest⟩ := exists_takeBody_of_readHunks hread hh
  obtain ⟨line, hline, rfl⟩ := List.mem_map.mp hl
  have hmem : line ∈ lines diff := by
    refine hrest.subset ?_
    rw [takeBody_append htake]
    exact List.mem_append_left _ (List.mem_of_mem_filter hline)
  exact fun h => newline_notMem_lines hmem (List.mem_of_mem_tail h)

section

variable {original : Text} {hs : List ReadHunk}

private theorem repeats_declared_iff
    (hempty : ∀ h ∈ hs, (oldSide h.body = [] ↔ h.header.oldCount = 0)) :
    Edit.Repeats (splitLines original) (hs.map ReadHunk.declared) ↔
      ∀ h ∈ hs, h.header.oldCount = 0 → 0 < h.header.oldStart →
        ∀ l ∈ newSide h.body, (splitLines original)[h.header.oldStart - 1]? = some l := by
  unfold Edit.Repeats
  rw [List.forall_mem_map]
  refine forall₂_congr fun h hh => ?_
  by_cases hzero : h.header.oldCount = 0
  · simp [ReadHunk.declared, Hunk.before, hempty h hh, hzero]
  · simp [ReadHunk.declared, hempty h hh, hzero]

private theorem applicable_declared_iff
    (hempty : ∀ h ∈ hs, (oldSide h.body = [] ↔ h.header.oldCount = 0))
    (hfits : Edit.Applicable (splitLines original) ((hs.map ReadHunk.declared).map Edit.earlier)) :
    Edit.Applicable (splitLines original) (hs.map ReadHunk.declared) ↔
      (∀ h ∈ hs, h.header.oldCount = 0 → h.header.oldStart ≤ (splitLines original).length) ∧
        hs.Pairwise fun h k => h.header.oldCount = 0 →
          h.header.oldStart ≤ k.header.before := by
  rw [Edit.applicable_iff_earlier hfits, List.forall_mem_map, List.pairwise_map]
  refine and_congr (forall₂_congr fun h hh => ?_) (List.Pairwise.iff_of_mem ?_)
  · by_cases hzero : h.header.oldCount = 0
    · simp [ReadHunk.declared, Hunk.before, hempty h hh, hzero]
    · simp [ReadHunk.declared, hempty h hh, hzero]
  · intro h k hh _
    by_cases hzero : h.header.oldCount = 0
    · simp [ReadHunk.declared, Hunk.before, hempty h hh, hzero]
    · simp [ReadHunk.declared, hempty h hh, hzero]

end

/-- A diff that applies does what it declares if and only if it is plain. -/
theorem applyUnifiedDiff_sound_iff {original diff result : Text}
    (happ : applyUnifiedDiff original diff = .ok result) :
    ∃ hs, readDiff diff = some hs ∧ (Sound original hs result ↔ Plain original hs) := by
  obtain ⟨hs, hread, -, hfits, rfl⟩ := applyUnifiedDiff_eq_ok.mp happ
  refine ⟨hs, hread, ?_⟩
  by_cases hcounts : ∀ h ∈ hs, overruns h.header h.body 0 0 = false
  · have hexact : ∀ h ∈ hs, (oldSide h.body).length = h.header.oldCount ∧
        (newSide h.body).length = h.header.newCount := fun h hh =>
      (counts_iff hread hh).mp (hcounts h hh)
    have hmoved : (hs.map ReadHunk.declared).map Edit.earlier = hs.map ReadHunk.edit := by
      rw [List.map_map]
      exact List.map_congr_left fun h hh => declared_earlier (hexact h hh).1
    have hempty : ∀ h ∈ hs, (oldSide h.body = [] ↔ h.header.oldCount = 0) := by
      intro h hh
      rw [← (hexact h hh).1, List.length_eq_zero_iff]
    have hlines : ∀ l ∈ Edit.splice (splitLines original) 0 (hs.map ReadHunk.edit), '\n' ∉ l := by
      intro l hl
      rcases Edit.mem_splice hl with hl | ⟨e, he, hl⟩
      · exact newline_notMem_splitLines hl
      · obtain ⟨h, hh, rfl⟩ := List.mem_map.mp he
        exact newline_notMem_newSide hread hh hl
    have hrepeats := @repeats_declared_iff original hs hempty
    rw [← hmoved] at hfits hlines ⊢
    have happlicable := applicable_declared_iff hempty hfits
    constructor
    · intro hsound
      have hdeclared := hsound.applicable
      have hlen := Edit.splice_earlier_length hdeclared hfits
      obtain ⟨hinside, hfirst⟩ := happlicable.mp hdeclared
      have hkept : LastLineKept original (Edit.splice (splitLines original) 0
          ((hs.map ReadHunk.declared).map Edit.earlier)) := by
        by_contra hlost
        obtain ⟨hne, hdrop⟩ := finish_loses hlines hlost
        have hfewer := congrArg List.length (hsound.lines.symm.trans hdrop)
        have := List.length_pos_iff.mpr hne
        rw [List.length_dropLast] at hfewer
        omega
      have hsame := (finish_keeps hlines hkept).1.symm.trans hsound.lines
      rw [hsame] at hkept
      exact ⟨hcounts, hinside, hrepeats.mp ((Edit.splice_earlier_iff hdeclared hfits).mp hsame),
        hfirst, hkept⟩
    · intro hplain
      have hdeclared := happlicable.mpr ⟨hplain.inside, hplain.insertion_first⟩
      have hsame := (Edit.splice_earlier_iff hdeclared hfits).mpr (hrepeats.mpr hplain.repeats)
      rw [hsame] at hlines ⊢
      obtain ⟨hkeeps, hnewline⟩ := finish_keeps hlines hplain.last_line
      exact ⟨hexact, hdeclared, hkeeps, hnewline⟩
  · constructor
    · intro hsound
      exact absurd (fun h hh => (counts_iff hread hh).mpr (hsound.counts h hh)) hcounts
    · intro hplain
      exact absurd hplain.within_counts hcounts

/-- A replaced line is replaced as declared. -/
theorem replacedLine_sound :
    ∃ hs, readDiff "@@ -2 +2 @@\n-b\n+B\n" = some hs ∧
      Sound "a\nb\n" hs ("a\nB\n" : Text) := by
  have happ : applyUnifiedDiff "a\nb\n" "@@ -2 +2 @@\n-b\n+B\n" = .ok ("a\nB\n" : Text) := by
    decide +kernel
  obtain ⟨hs, hread, hiff⟩ := applyUnifiedDiff_sound_iff happ
  have hhs : hs = [⟨⟨2, 1, 1⟩, [("-b" : Text), "+B"]⟩] := by
    have : readDiff "@@ -2 +2 @@\n-b\n+B\n" = some [⟨⟨2, 1, 1⟩, [("-b" : Text), "+B"]⟩] := by
      decide +kernel
    exact Option.some.inj (hread.symm.trans this)
  refine ⟨hs, hread, hiff.mpr ?_⟩
  subst hhs
  constructor <;> decide +kernel

/-- A hunk that declares one old line consumes two of them. -/
theorem overrunHunk_applied :
    ∃ hs, readDiff "@@ -1,1 +1,2 @@\n a\n b\n" = some hs ∧
      applyUnifiedDiff "a\nb\n" "@@ -1,1 +1,2 @@\n a\n b\n" = .ok ("a\nb\n" : Text) ∧
      ¬ Sound "a\nb\n" hs ("a\nb\n" : Text) := by
  refine ⟨[⟨⟨1, 1, 2⟩, [(" a" : Text), " b"]⟩], by decide +kernel, by decide +kernel, ?_⟩
  intro hsound
  have hcounts := (hsound.counts _ (List.mem_singleton_self _)).1
  revert hcounts
  decide +kernel

end PatchApply

end Jitgen
