import Jitgen.Adapters.GlobScan
import Jitgen.Framework.PathJoin

/-!
# What globs match

A pattern means the paths it denotes segment by segment. The scan of a segment tries an element
literally before it looks for a star, so a `*` of the pattern that comes to a `*` of the path takes
this one character and nothing else.
-/

namespace Jitgen

open Text

def segmentWildcards : Wildcards Char Char where
  isStar p := p == '*'
  fits p s := p = '?' ∨ p = s

def pathWildcards (fits : Text → Text → Prop) : Wildcards Text Text where
  isStar p := p == "**"
  fits := fits

/-- The meaning of a pattern: `**` is any run of segments, and another segment of the pattern means
the segments in its language. -/
def GlobDenotes (pattern path : Text) : Prop :=
  path.splitOn '/' ∈
    (pathWildcards fun p s => s ∈ segmentWildcards.language p).language (pattern.splitOn '/')

/-- The same with only those readings in which a `*` that stands at a `*` is that character. -/
def GlobDenotesLiterally (pattern path : Text) : Prop :=
  path.splitOn '/' ∈ (pathWildcards segmentWildcards.ReadsLiterally).language (pattern.splitOn '/')

private theorem segmentMatch_iff {p s : Text} :
    segmentMatch p s = true ↔ segmentWildcards.ReadsLiterally p s := by
  rw [segmentMatch, globLoop_iff]
  apply globReads_iff_readsLiterally (w := segmentWildcards)
  · intro c d
    simp only [segmentWildcards]
    grind
  · intro c d
    simp only [segmentWildcards]
    grind

private theorem matchSegments_iff {pat path : List Text} :
    matchSegments pat path = true ↔
      path ∈ (pathWildcards segmentWildcards.ReadsLiterally).language pat := by
  rw [matchSegments, globLoop_iff]
  apply globReads_iff_mem_language (w := pathWildcards segmentWildcards.ReadsLiterally)
  · intro c d
    simp only [pathWildcards]
    grind
  · intro c d
    simp only [pathWildcards, ← segmentMatch_iff]
    grind

private theorem globMatch_iff {pattern path : Text} (hpattern : utf8Len pattern ≤ maxGlobLen)
    (hpath : utf8Len path ≤ maxPathLen) :
    globMatch pattern path = true ↔ GlobDenotesLiterally pattern path := by
  have hlimits : ¬ (maxGlobLen < utf8Len pattern ∨ maxPathLen < utf8Len path) := by omega
  rw [globMatch, if_neg hlimits]
  exact matchSegments_iff

private theorem GlobDenotesLiterally.denotes {pattern path : Text}
    (h : GlobDenotesLiterally pattern path) : GlobDenotes pattern path :=
  Wildcards.mem_language_mono h fun _ _ _ hreads => hreads.mem_language

private theorem GlobDenotes.literally {pattern path : Text} (hstar : '*' ∉ path)
    (h : GlobDenotes pattern path) : GlobDenotesLiterally pattern path := by
  apply Wildcards.mem_language_mono h
  intro p s hs hmem
  apply Wildcards.readsLiterally_of_mem _ hmem
  intro c _ hc d hd hfits
  simp only [segmentWildcards, beq_iff_eq] at hc hfits
  subst hc
  have hpath : d ∈ path := UnixPath.mem_of_mem_splitOn hs hd
  rcases hfits with hquestion | rfl
  · simp at hquestion
  · exact hstar hpath

/-- A path without `*` is matched as the pattern says. -/
theorem globMatch_of_star_notMem {pattern path : Text} (hpattern : utf8Len pattern ≤ maxGlobLen)
    (hpath : utf8Len path ≤ maxPathLen) (hstar : '*' ∉ path) :
    globMatch pattern path = true ↔ GlobDenotes pattern path :=
  (globMatch_iff hpattern hpath).trans ⟨GlobDenotesLiterally.denotes, GlobDenotes.literally hstar⟩

/-- The scan agrees with the meaning of the pattern unless every reading of the path lets a `*`
that stands at a `*` of the path stand for something else than this character. -/
theorem globMatch_iff_denotes_iff {pattern path : Text} (hpattern : utf8Len pattern ≤ maxGlobLen)
    (hpath : utf8Len path ≤ maxPathLen) :
    (globMatch pattern path = true ↔ GlobDenotes pattern path) ↔
      (GlobDenotes pattern path → GlobDenotesLiterally pattern path) := by
  have hscan := globMatch_iff hpattern hpath
  constructor
  · intro h hdenotes
    exact hscan.mp (h.mpr hdenotes)
  · intro h
    exact hscan.trans ⟨GlobDenotesLiterally.denotes, h⟩

theorem globMatch_of_source_path :
    (globMatch "src/**/*.rs".toList "src/a/b.rs".toList = true ↔
        GlobDenotes "src/**/*.rs".toList "src/a/b.rs".toList) ↔
      (GlobDenotes "src/**/*.rs".toList "src/a/b.rs".toList →
        GlobDenotesLiterally "src/**/*.rs".toList "src/a/b.rs".toList) :=
  globMatch_iff_denotes_iff (by decide +kernel) (by decide +kernel)

/-- A `*` denotes the segment `*a`, and the scan takes its `*` for the one of the pattern. -/
theorem star_misses_starred_segment :
    ¬ ∀ pattern path : Text, utf8Len pattern ≤ maxGlobLen → utf8Len path ≤ maxPathLen →
      (globMatch pattern path = true ↔ GlobDenotes pattern path) := by
  intro h
  have hsegment : "*a".toList ∈ segmentWildcards.language "*".toList :=
    (Wildcards.mem_language_star rfl).mpr
      ⟨[], List.nil_suffix, Wildcards.mem_language_nil.mpr rfl⟩
  have hdenotes : GlobDenotes "*".toList "*a".toList :=
    (Wildcards.mem_language_one rfl).mpr
      ⟨"*a".toList, [], rfl, hsegment, Wildcards.mem_language_nil.mpr rfl⟩
  have hmiss : globMatch "*".toList "*a".toList = false := by
    show matchSegments ["*".toList] ["*a".toList] = false
    simp [matchSegments, segmentMatch, globLoop]
  have hmatch := (h "*".toList "*a".toList (by decide +kernel) (by decide +kernel)).mpr hdenotes
  exact absurd (hmiss.symm.trans hmatch) (by decide)

end Jitgen
