import Jitgen.Adapters.Listing
import Jitgen.Framework.Lines
import Jitgen.Framework.Numerals
import Jitgen.Materialize.Placement
import Jitgen.Orchestrator.Checkpoint
import Mathlib.Data.Nat.Digits.Defs

/-!
# Names of targets

Everything that is named after a target contains its id, a letter and a number, at a place where the
number can be read back: the part of the name behind the number is fixed for each naming scheme, and
the schemes end in different extensions.
-/

namespace Jitgen

open Text

private theorem number_inj {s s' suf : Text} {c c' : Char} {i j : Nat} (hc : isAsciiDigit c = false)
    (hc' : isAsciiDigit c' = false) (h : s ++ c :: ofNat i ++ suf = s' ++ c' :: ofNat j ++ suf) :
    i = j := by
  have hdigits : ∀ (s : Text) (c : Char) (n : Nat), isAsciiDigit c = false →
      (s ++ c :: ofNat n).reverse.takeWhile isAsciiDigit = (ofNat n).reverse := by
    intro s c n hc
    rw [List.reverse_append, List.reverse_cons, List.append_assoc, List.takeWhile_append_of_pos]
    · simp [hc]
    · intro d hd
      exact isAsciiDigit_of_mem_ofNat (List.mem_reverse.mp hd)
  have hnumber : (ofNat i).reverse = (ofNat j).reverse := by
    rw [← hdigits s c i hc, List.append_cancel_right h, hdigits s' c' j hc']
  calc i = digitsValue (ofNat i) := (digitsValue_ofNat i).symm
    _ = digitsValue (ofNat j) := by rw [List.reverse_injective hnumber]
    _ = j := digitsValue_ofNat j

/-- What follows the number of a test path. -/
def testSuffixes : List Text :=
  [".rs", ".py", "Test.java", ".test.ts", ".test.tsx", ".test.js", ".test.jsx", ".test.mjs",
    ".test.cjs", ".test.mts", ".test.cts", ".test.txt"]

private theorem extension_of_suffix {suf : Text} (hsuf : suf ∈ testSuffixes) (s : Text) :
    fileExtension (s ++ suf) = fileExtension suf := by
  have hdot : '.' ∈ suf := by
    revert suf
    decide
  obtain ⟨t, e, rfl⟩ := List.append_of_mem hdot
  unfold fileExtension
  rw [← List.append_assoc, List.splitOn_append_cons_self, List.splitOn_append_cons_self]
  have hlast : ∀ l l' : List Text, l' ≠ [] → (l ++ l').getLastD [] = l'.getLastD [] := by
    intro l l' hne
    rw [List.getLastD_eq_getLast?, List.getLast?_append_of_ne_nil _ hne,
      ← List.getLastD_eq_getLast?]
  rw [hlast _ _ (List.splitOn_ne_nil _ _), hlast _ _ (List.splitOn_ne_nil _ _)]

private theorem suffix_eq_of_extension {suf suf' : Text} (hsuf : suf ∈ testSuffixes)
    (hsuf' : suf' ∈ testSuffixes) (h : fileExtension suf = fileExtension suf') : suf = suf' := by
  have hall : ∀ suf ∈ testSuffixes, ∀ suf' ∈ testSuffixes,
      fileExtension suf = fileExtension suf' → suf = suf' := by decide
  exact hall suf hsuf suf' hsuf' h

/-- A name with the number of a target before one of the suffixes. -/
def Numbered (name : Text) (n : Nat) : Prop :=
  ∃ s c suf, isAsciiDigit c = false ∧ suf ∈ testSuffixes ∧ name = s ++ c :: ofNat n ++ suf

private theorem Numbered.number_eq {name : Text} {m n : Nat} (hm : Numbered name m)
    (hn : Numbered name n) :
    m = n := by
  obtain ⟨s, c, suf, hc, hsuf, hname⟩ := hm
  obtain ⟨s', c', suf', hc', hsuf', hname'⟩ := hn
  have hext : fileExtension suf = fileExtension suf' := by
    rw [← extension_of_suffix hsuf (s ++ c :: ofNat m),
      ← extension_of_suffix hsuf' (s' ++ c' :: ofNat n), ← hname, ← hname']
  have hsame : suf = suf' := suffix_eq_of_extension hsuf hsuf' hext
  subst hsame
  exact number_inj hc hc' (hname.symm.trans hname')

private theorem Numbered.of_append {s name name' : Text} {n : Nat} (h : Numbered name n)
    (hname : name' = s ++ name) : Numbered name' n := by
  obtain ⟨s', c, suf, hc, hsuf, rfl⟩ := h
  exact ⟨s ++ s', c, suf, hc, hsuf, by rw [hname]; simp only [List.append_assoc]⟩

/-- The length of a vector is bounded by the address space. -/
def maxVecLen : Nat := 2 ^ 63

private theorem length_nextId_le {n : Nat} (hn : n < maxVecLen) : (nextId n).length ≤ 64 := by
  have hdigits : (ofNat n).length ≤ 63 :=
    Nat.toDigits_length 10 n 63 (by decide) (lt_trans hn (by decide))
  show ((['t'] : Text) ++ ofNat n).length ≤ 64
  simp only [List.length_append, List.length_singleton]
  omega

private theorem alphanumeric_of_mem_nextId {n : Nat} {c : Char} (hc : c ∈ nextId n) :
    isAsciiAlphanumeric c = true := by
  rcases List.mem_append.mp hc with hc | hc
  · rw [List.mem_singleton.mp hc]
    decide
  · simp [isAsciiAlphanumeric, isAsciiDigit_of_mem_ofNat hc]

private theorem fragmentChars_alphanumeric {s : Text} {len : Nat} {lastUs : Bool}
    (hs : ∀ c ∈ s, isAsciiAlphanumeric c = true) (hlen : len + s.length ≤ maxFragment) :
    fragmentChars len lastUs s = s := by
  induction s generalizing len lastUs with
  | nil => rfl
  | cons c s ih =>
    have hc := hs c List.mem_cons_self
    have hus : c ≠ '_' := by
      intro heq
      rw [heq] at hc
      exact absurd hc (by decide)
    rw [List.length_cons] at hlen
    have htail :
        (if maxFragment ≤ len + 1 then [] else fragmentChars (len + 1) (c == '_') s) = s := by
      by_cases hfull : maxFragment ≤ len + 1
      · have hnil : s = [] := List.eq_nil_of_length_eq_zero (by omega)
        rw [if_pos hfull, hnil]
      · rw [if_neg hfull]
        exact ih (fun d hd => hs d (List.mem_cons_of_mem _ hd)) (by omega)
    simp only [fragmentChars, hc, if_true, hus, false_and, if_false, htail]

private theorem sanitizeFragment_nextId {n : Nat} (hn : n < maxVecLen) :
    sanitizeFragment (nextId n) = nextId n := by
  have hchars : fragmentChars 0 false (nextId n) = nextId n :=
    fragmentChars_alphanumeric (fun _ => alphanumeric_of_mem_nextId)
      (by simpa [maxFragment] using length_nextId_le hn)
  have hstart : (nextId n).dropWhile (· == '_') = nextId n := rfl
  have hend : (nextId n).rdropWhile (· == '_') = nextId n := by
    rw [List.rdropWhile_eq_self_iff]
    intro hne hlast
    have hc := alphanumeric_of_mem_nextId (List.getLast_mem hne)
    rw [beq_iff_eq.mp hlast] at hc
    exact absurd hc (by decide)
  have hne : (nextId n).isEmpty = false := rfl
  unfold sanitizeFragment
  rw [hchars, hstart, hend]
  simp only [hne, Bool.false_eq_true, if_false]

private theorem sanitizeId_nextId {n : Nat} (hn : n < maxVecLen) :
    sanitizeId (nextId n) = nextId n := by
  have hmap : ((nextId n).map fun c =>
      let c := charToAsciiLower c
      if isAsciiAlphanumeric c || c == '_' || c == '-' then c else '-') = nextId n := by
    nth_rewrite 2 [← List.map_id (nextId n)]
    apply List.map_congr_left
    intro c hc
    have hlower : charToAsciiLower c = c := by
      rcases List.mem_append.mp hc with ht | hdigit
      · rw [List.mem_singleton.mp ht]
        decide
      · have hd := isAsciiDigit_of_mem_ofNat hdigit
        have hupper : isAsciiUpper c = false := by
          simp [isAsciiDigit, isAsciiUpper, Char.le_def, UInt32.le_iff_toNat_le] at hd ⊢
          omega
        simp [charToAsciiLower, hupper]
    simp [hlower, alphanumeric_of_mem_nextId hc]
  unfold sanitizeId
  rw [hmap, List.take_of_length_le (length_nextId_le hn)]

private theorem javaTestPath_suffix (srcPath stem id : Text) :
    ∃ s, javaTestPath srcPath stem id =
      s ++ (capitalize stem ++ "Jitgen" ++ capitalize id ++ "Test" ++ ".java") := by
  unfold javaTestPath
  dsimp only
  split
  · exact exists_join_concat _ _ _
  · exact ⟨_, rfl⟩

private theorem tsTestExt_suffix (srcPath : Text) :
    (".test." : Text) ++ tsTestExt srcPath ∈ testSuffixes := by
  have hexts : ∀ ext ∈ [("tsx" : Text), "js", "jsx", "mjs", "cjs", "mts", "cts"],
      (".test." : Text) ++ ext ∈ testSuffixes := by decide
  unfold tsTestExt
  dsimp only
  split_ifs with hext
  · exact hexts _ hext
  · decide

/-- Under every adapter the test path of a target has the target's number. -/
private theorem testPath_numbered {t : Target} {n : Nat} (hid : t.id = nextId n)
    (hn : n < maxVecLen) (adapterId : Text) : Numbered (testPath t adapterId) n := by
  have hshort : shortId t = 't' :: ofNat n := by
    rw [shortId, hid, sanitizeFragment_nextId hn]
    rfl
  have hcapital : capitalize ('t' :: ofNat n) = 'T' :: ofNat n := rfl
  have hdir : ∀ name : Text, ∃ s, (if (dirOf t.path).isEmpty then name
      else dirOf t.path ++ "/" ++ name) = s ++ name := by
    intro name
    by_cases hempty : (dirOf t.path).isEmpty = true
    · exact ⟨[], by simp [hempty]⟩
    · exact ⟨dirOf t.path ++ "/", by simp [hempty]⟩
  unfold testPath
  rw [hshort]
  dsimp only
  by_cases hrust : adapterId = "rust"
  · rw [if_pos hrust]
    exact ⟨_, 't', ".rs", by decide, by decide, rfl⟩
  rw [if_neg hrust]
  by_cases hpython : adapterId = "python"
  · rw [if_pos hpython]
    obtain ⟨s, hs⟩ := hdir (("test_" : Text) ++ stemOf t.path ++ "_jitgen_" ++ ('t' :: ofNat n) ++
      ".py")
    exact Numbered.of_append ⟨_, 't', ".py", by decide, by decide, rfl⟩ hs
  rw [if_neg hpython]
  by_cases hjava : adapterId = "java"
  · rw [if_pos hjava]
    obtain ⟨s, hs⟩ := javaTestPath_suffix t.path (stemOf t.path) ('t' :: ofNat n)
    rw [hcapital] at hs
    refine Numbered.of_append ⟨capitalize (stemOf t.path) ++ "Jitgen", 'T', "Test.java", by decide,
      by decide, ?_⟩ hs
    rw [List.append_assoc _ _ (".java" : Text)]
    rfl
  rw [if_neg hjava]
  by_cases hts : adapterId = "typescript"
  · rw [if_pos hts]
    obtain ⟨s, hs⟩ := hdir (stemOf t.path ++ ".jitgen." ++ ('t' :: ofNat n) ++ ".test." ++
      tsTestExt t.path)
    refine Numbered.of_append ⟨stemOf t.path ++ ".jitgen.", 't', _, by decide,
      tsTestExt_suffix t.path, ?_⟩ hs
    rw [List.append_assoc _ (".test." : Text)]
  · rw [if_neg hts]
    exact ⟨_, 't', ".test.txt", by decide, by decide, rfl⟩

private theorem nodup_of_place {α β : Type} {l : List α} (name : α → β)
    (h : ∀ (i j : Nat) a b, l[i]? = some a → l[j]? = some b → name a = name b → i = j) :
    (l.map name).Nodup := by
  rw [List.Nodup, List.pairwise_iff_getElem]
  intro i j hi hj hlt heq
  rw [List.length_map] at hi hj
  rw [List.getElem_map, List.getElem_map] at heq
  have hsame := h i j _ _ (List.getElem?_eq_getElem hi) (List.getElem?_eq_getElem hj) heq
  omega

/-- No two targets of a change set share a test path, a step or an artifact. -/
theorem target_names_nodup [TreeSitter] (reg : AdapterRegistry) (repo : RepoSnapshot)
    (changes : ChangeSet) (hlen : (reg.analyze repo changes).length ≤ maxVecLen) :
    ((reg.analyze repo changes).map fun t => testPath t t.adapter).Nodup ∧
    ((reg.analyze repo changes).map fun t => targetStepId (sanitizeId t.id)).Nodup ∧
    ((reg.analyze repo changes).map fun t => targetArtifact (sanitizeId t.id)).Nodup := by
  have hplace : ∀ (i : Nat) (t : Target), (reg.analyze repo changes)[i]? = some t →
      t.id = nextId i ∧ i < maxVecLen := by
    intro i t ht
    have hid := @ChangeAnalysis.id_of_targets _ ⟨reg, repo, changes⟩ _ _ ht
    exact ⟨hid, lt_of_lt_of_le (List.getElem?_eq_some_iff.mp ht).1 hlen⟩
  have hids : ∀ (i j : Nat) (t u : Target), (reg.analyze repo changes)[i]? = some t →
      (reg.analyze repo changes)[j]? = some u → sanitizeId t.id = sanitizeId u.id → i = j := by
    intro i j t u ht hu heq
    obtain ⟨hti, hi⟩ := hplace i t ht
    obtain ⟨huj, hj⟩ := hplace j u hu
    rw [hti, huj, sanitizeId_nextId hi, sanitizeId_nextId hj] at heq
    exact nextId_inj.mp heq
  refine ⟨?_, ?_, ?_⟩
  · apply nodup_of_place
    intro i j t u ht hu heq
    obtain ⟨hti, hi⟩ := hplace i t ht
    obtain ⟨huj, hj⟩ := hplace j u hu
    exact Numbered.number_eq (testPath_numbered hti hi t.adapter)
      (heq ▸ testPath_numbered huj hj u.adapter)
  · apply nodup_of_place
    exact fun i j t u ht hu heq => hids i j t u ht hu (targetStepId_injective heq)
  · apply nodup_of_place
    exact fun i j t u ht hu heq => hids i j t u ht hu (targetArtifact_injective heq)

/-- Two files whose stems become the same fragment. -/
def twinChanges : ChangeSet :=
  ⟨"base", "head", [⟨"src/a-b.rs", none, .modified, [oneLine]⟩,
    ⟨"src/a_b.rs", none, .modified, [oneLine]⟩]⟩

theorem twin_names_nodup :
    letI := noTrees
    let ts := (AdapterRegistry.withBuiltins .default).analyze
      (.new ["src/a-b.rs", "src/a_b.rs"] []) twinChanges
    ts.map (fun t => testPath t t.adapter) =
      [("tests/jitgen_a_b_t0.rs" : Text), "tests/jitgen_a_b_t1.rs"] ∧
    (ts.map fun t => testPath t t.adapter).Nodup := by
  let _ := noTrees
  exact ⟨by decide +kernel, (target_names_nodup _ _ _ (by decide +kernel)).1⟩

end Jitgen
