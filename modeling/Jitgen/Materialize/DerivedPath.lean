import Jitgen.Framework.Lines
import Jitgen.Framework.PathJoin
import Jitgen.Materialize.Placement

/-!
# The shape of derived test paths

A derived path keeps some directories of the source file as they are. Its other directories are
fixed, and its file name is made of sanitised fragments.
-/

namespace Jitgen

open Text UnixPath

def isFragmentChar (c : Char) : Bool := isAsciiAlphanumeric c || c == '_'

/-- The characters of fragments, dots and hyphens. -/
def isNameChar (c : Char) : Bool := isFragmentChar c || c == '.' || c == '-'

/-- A name of at most `max` plain characters that does not begin with a dot. -/
structure TestName (max : Nat) (s : Text) : Prop where
  chars : s.all isNameChar = true
  head : ∃ c rest, s = c :: rest ∧ c ≠ '.'
  short : s.length ≤ max

private theorem ne_of_isNameChar {c d : Char} (hc : isNameChar c = true)
    (hd : isNameChar d = false) :
    c ≠ d := by
  intro h
  rw [h, hd] at hc
  cases hc

namespace TestName

variable {max : Nat} {s : Text}

theorem notMem (h : TestName max s) {d : Char} (hd : isNameChar d = false) : d ∉ s := by
  intro hmem
  exact ne_of_isNameChar (List.all_eq_true.mp h.chars d hmem) hd rfl

theorem plain (h : TestName max s) : PlainName s := by
  obtain ⟨c, rest, rfl, hc⟩ := h.head
  have hdot : ∀ t : Text, c :: rest ≠ '.' :: t := fun t heq => hc (List.cons.inj heq).1
  exact ⟨List.cons_ne_nil c rest, hdot _, hdot _, h.notMem (by decide)⟩

theorem append (h : TestName max s) {t : Text} (ht : t.all isNameChar = true) {n : Nat}
    (hn : t.length ≤ n) : TestName (max + n) (s ++ t) := by
  obtain ⟨c, rest, rfl, hc⟩ := h.head
  have hshort := h.short
  refine ⟨?_, ⟨c, rest ++ t, rfl, hc⟩, ?_⟩
  · rw [List.all_append, h.chars, ht]
    rfl
  · rw [List.length_append]
    omega

theorem mono (h : TestName max s) {n : Nat} (hn : max ≤ n) : TestName n s :=
  ⟨h.chars, h.head, h.short.trans hn⟩

end TestName

private theorem all_fragmentChars (len : Nat) (lastUs : Bool) (s : Text) :
    (fragmentChars len lastUs s).all isFragmentChar = true := by
  induction s generalizing len lastUs with
  | nil => rfl
  | cons ch s ih =>
    have hchar : isFragmentChar (if isAsciiAlphanumeric ch then ch else '_') = true := by
      split
      · simp [isFragmentChar, *]
      · decide
    unfold fragmentChars
    dsimp only
    generalize (if isAsciiAlphanumeric ch then ch else '_') = c at hchar ⊢
    split_ifs
    · exact ih _ _
    · simp [hchar]
    · rw [List.all_cons, hchar, ih]
      rfl

private theorem length_fragmentChars (len : Nat) (lastUs : Bool) (s : Text)
    (hlen : len < maxFragment) :
    len + (fragmentChars len lastUs s).length ≤ maxFragment := by
  induction s generalizing len lastUs with
  | nil => exact hlen.le
  | cons ch s ih =>
    unfold fragmentChars
    dsimp only
    generalize (if isAsciiAlphanumeric ch then ch else '_') = c
    split_ifs with hskip hfull
    · exact ih _ _ hlen
    · simp only [List.length_cons, List.length_nil]
      omega
    · have := ih (len + 1) (c == '_') (by omega)
      simp only [List.length_cons]
      omega

private theorem testName_of_fragment {max : Nat} {s : Text} (hs : s.all isFragmentChar = true)
    (hne : s ≠ []) (hlen : s.length ≤ max) : TestName max s := by
  have hall := List.all_eq_true.mp hs
  obtain ⟨c, rest, rfl⟩ := List.exists_cons_of_ne_nil hne
  refine ⟨List.all_eq_true.mpr fun d hd => ?_, ⟨c, rest, rfl, ?_⟩, hlen⟩
  · simp [isNameChar, hall d hd]
  · intro hc
    have hfirst := hall c List.mem_cons_self
    rw [hc] at hfirst
    exact absurd hfirst (by decide)

private theorem all_sanitizeFragment (s : Text) :
    (sanitizeFragment s).all isFragmentChar = true := by
  have hchars := List.all_eq_true.mp (all_fragmentChars 0 false s)
  unfold sanitizeFragment
  dsimp only
  split_ifs
  · decide
  · apply List.all_eq_true.mpr
    intro c hc
    exact hchars c ((List.dropWhile_suffix _).mem ((List.rdropWhile_prefix _ _).mem hc))

private theorem length_sanitizeFragment (s : Text) : (sanitizeFragment s).length ≤ maxFragment := by
  have hlen := length_fragmentChars 0 false s (by decide)
  unfold sanitizeFragment
  dsimp only
  split_ifs
  · decide
  · have hend := (List.rdropWhile_prefix (· == '_')
      ((fragmentChars 0 false s).dropWhile (· == '_'))).length_le
    have hstart := (List.dropWhile_suffix (· == '_') (l := fragmentChars 0 false s)).length_le
    omega

private theorem sanitizeFragment_ne_nil (s : Text) : sanitizeFragment s ≠ [] := by
  unfold sanitizeFragment
  dsimp only
  split_ifs with h
  · decide
  · simpa using h

private theorem all_capitalize {s : Text} (hs : s.all isFragmentChar = true) :
    (capitalize s).all isFragmentChar = true := by
  cases s with
  | nil => rfl
  | cons c rest =>
    rw [List.all_cons, Bool.and_eq_true] at hs
    have hletters : ∀ n < 123, 97 ≤ n → isFragmentChar (Char.ofNat (n - 32)) = true := by decide
    have hupper : isFragmentChar (charToAsciiUpper c) = true := by
      unfold charToAsciiUpper
      split
      · rename_i hlower
        simp [isAsciiLower, Char.le_def, UInt32.le_iff_toNat_le] at hlower
        exact hletters c.toNat (by omega) (by omega)
      · exact hs.1
    rw [capitalize, List.all_cons, hupper, hs.2]
    rfl

private theorem length_capitalize (s : Text) :
    (capitalize s).length = s.length := by cases s <;> rfl

private theorem testName_capitalize_stemOf (path : Text) :
    TestName maxFragment (capitalize (stemOf path)) := by
  apply testName_of_fragment (all_capitalize (all_sanitizeFragment _))
  · intro h
    have hlen := congrArg List.length h
    rw [length_capitalize] at hlen
    exact sanitizeFragment_ne_nil _ (List.eq_nil_of_length_eq_zero hlen)
  · rw [length_capitalize]
    exact length_sanitizeFragment _

private theorem testName_stemOf (path : Text) : TestName maxFragment (stemOf path) :=
  testName_of_fragment (all_sanitizeFragment _) (sanitizeFragment_ne_nil _)
    (length_sanitizeFragment _)

/-- The directories of the source path that the test path keeps, in front of the fixed ones and
behind them. -/
def keptParts (target : Target) (adapterId : Text) : List Text × List Text :=
  if adapterId = "python" ∨ adapterId = "typescript" then
    (((parent target.path).map normals).getD [], [])
  else if adapterId = "java" then
    let comps := normals (components target.path)
    match if 4 ≤ comps.length then splitMainJava comps else none with
    | some (pre, rest) => (pre, rest.dropLast)
    | none => ([], [])
  else ([], [])

def keptDirs (target : Target) (adapterId : Text) : List Text :=
  (keptParts target adapterId).1 ++ (keptParts target adapterId).2

def fixedDirs (adapterId : Text) : List Text :=
  if adapterId = "rust" then [("tests" : Text)]
  else if adapterId = "python" ∨ adapterId = "typescript" then []
  else if adapterId = "java" then [("src" : Text), "test", "java"]
  else [("jitgen-tests" : Text)]

def allDirs (target : Target) (adapterId : Text) : List Text :=
  (keptParts target adapterId).1 ++ fixedDirs adapterId ++ (keptParts target adapterId).2

theorem fixedDirs_names (adapterId : Text) : ∀ d ∈ fixedDirs adapterId, TestName 16 d := by
  have hname : ∀ d ∈ [("tests" : Text), "src", "test", "java", "jitgen-tests"], TestName 16 d := by
    intro d hd
    have hfacts : d.all isNameChar = true ∧ d ≠ [] ∧ d.head? ≠ some '.' ∧ d.length ≤ 16 := by
      revert d
      decide
    obtain ⟨hchars, hne, hhead, hlen⟩ := hfacts
    obtain ⟨c, rest, rfl⟩ := List.exists_cons_of_ne_nil hne
    exact ⟨hchars, ⟨c, rest, rfl, fun hc => hhead (congrArg some hc)⟩, hlen⟩
  unfold fixedDirs
  split_ifs <;> intro d hd <;> apply hname <;> revert d <;> decide

theorem length_fixedDirs (adapterId : Text) : (fixedDirs adapterId).length ≤ 3 := by
  unfold fixedDirs
  split_ifs <;> decide

theorem keptParts_behind {target : Target} {adapterId : Text} (h : fixedDirs adapterId = []) :
    (keptParts target adapterId).2 = [] := by
  unfold fixedDirs at h
  split_ifs at h with _ hbeside
  unfold keptParts
  rw [if_pos hbeside]

private theorem dirOf_eq_join (path : Text) :
    dirOf path = join "/" (((parent path).map normals).getD []) := by
  unfold dirOf
  cases parent path <;> rfl

theorem mem_normals {cs : List Component} {s : Text} : s ∈ normals cs ↔ .normal s ∈ cs := by
  constructor
  · intro h
    obtain ⟨c, hc, hs⟩ := List.mem_filterMap.mp h
    cases c <;> simp at hs
    exact hs ▸ hc
  · intro h
    exact List.mem_filterMap.mpr ⟨_, h, rfl⟩

private theorem plainName_of_mem_normals {path s : Text} (h : s ∈ normals (components path)) :
    PlainName s :=
  plainName_of_mem (mem_normals.mp h)

private theorem mem_components_of_mem_parent {path d : Text}
    (h : d ∈ ((parent path).map normals).getD []) : d ∈ normals (components path) := by
  unfold parent at h
  split at h
  · simp at h
  · simp at h
  · exact ((List.dropLast_sublist _).filterMap _).mem h

private theorem splitMainJava_eq_some {comps pre rest : List Text}
    (h : splitMainJava comps = some (pre, rest)) :
    comps = pre ++ [("src" : Text), "main", "java"] ++ rest := by
  fun_induction splitMainJava comps generalizing pre rest with
  | case1 a b c rest' hjava =>
    obtain ⟨rfl, rfl, rfl⟩ := hjava
    cases h
    rfl
  | case2 a b c rest' hjava ih =>
    obtain ⟨x, hx, hcons⟩ := Option.map_eq_some_iff.mp h
    cases hcons
    rw [ih hx]
    rfl
  | case3 => cases h

/-- What is kept in front is what the source path begins with. -/
theorem keptParts_front (target : Target) (adapterId : Text) :
    (keptParts target adapterId).1 <+: normals (components target.path) := by
  unfold keptParts
  by_cases hbeside : adapterId = "python" ∨ adapterId = "typescript"
  · rw [if_pos hbeside]
    unfold parent
    split
    · exact List.nil_prefix
    · exact List.nil_prefix
    · exact (List.dropLast_prefix _).filterMap _
  rw [if_neg hbeside]
  by_cases hjava : adapterId = "java"
  · rw [if_pos hjava]
    dsimp only
    split
    · rename_i pre rest hsplit
      split at hsplit
      · rw [splitMainJava_eq_some hsplit, List.append_assoc]
        exact List.prefix_append _ _
      · cases hsplit
    · exact List.nil_prefix
  · rw [if_neg hjava]
    exact List.nil_prefix

theorem mem_keptDirs {target : Target} {adapterId d : Text} (h : d ∈ keptDirs target adapterId) :
    d ∈ normals (components target.path) := by
  unfold keptDirs keptParts at h
  by_cases hbeside : adapterId = "python" ∨ adapterId = "typescript"
  · rw [if_pos hbeside, List.append_nil] at h
    exact mem_components_of_mem_parent h
  rw [if_neg hbeside] at h
  by_cases hjava : adapterId = "java"
  · rw [if_pos hjava] at h
    dsimp only at h
    split at h
    · rename_i pre rest hsplit
      split at hsplit
      · rw [splitMainJava_eq_some hsplit]
        rcases List.mem_append.mp h with h | h
        · simp [h]
        · simp [List.dropLast_subset _ h]
      · cases hsplit
    · cases h
  · rw [if_neg hjava] at h
    cases h

theorem mem_allDirs {target : Target} {adapterId d : Text} :
    d ∈ allDirs target adapterId ↔ d ∈ keptDirs target adapterId ∨ d ∈ fixedDirs adapterId := by
  simp only [allDirs, keptDirs, List.mem_append]
  tauto

theorem plainName_of_mem_keptDirs {target : Target} {adapterId d : Text}
    (h : d ∈ keptDirs target adapterId) : PlainName d :=
  plainName_of_mem_normals (mem_keptDirs h)

private theorem below_dir_eq_join {ds : List Text} (hds : ∀ d ∈ ds, d ≠ []) (name : Text) :
    (if (join "/" ds).isEmpty then name else join "/" ds ++ "/" ++ name) =
      join "/" (ds ++ [name]) := by
  cases ds with
  | nil => simp [join]
  | cons d ds =>
    have hne : (join "/" (d :: ds)).isEmpty = false := by
      obtain ⟨c, cs, rfl⟩ := List.exists_cons_of_ne_nil (hds d List.mem_cons_self)
      cases ds <;> rfl
    rw [hne, join_append_singleton "/" (List.cons_ne_nil d ds)]
    rfl

private theorem tsTestExt_name (srcPath : Text) :
    (tsTestExt srcPath).all isNameChar = true ∧ (tsTestExt srcPath).length ≤ 3 := by
  have hexts : ∀ ext ∈ [("tsx" : Text), "js", "jsx", "mjs", "cjs", "mts", "cts"],
      ext.all isNameChar = true ∧ ext.length ≤ 3 := by decide
  unfold tsTestExt
  dsimp only
  split_ifs with hext
  · exact hexts _ hext
  · decide

private theorem all_isNameChar {s : Text} (hs : s.all isFragmentChar = true) :
    s.all isNameChar = true := by
  apply List.all_eq_true.mpr
  intro c hc
  simp [isNameChar, List.all_eq_true.mp hs c hc]

private theorem all_shortId (target : Target) : (shortId target).all isNameChar = true :=
  all_isNameChar (all_sanitizeFragment _)

private theorem length_shortId (target : Target) : (shortId target).length ≤ maxFragment :=
  length_sanitizeFragment _

private theorem testName_parts {max : Nat} {front : Text} (hfront : TestName max front)
    (middle : Text) {id : Text} (ending : Text) (hmiddle : middle.all isNameChar = true)
    (hid : id.all isNameChar = true) (hending : ending.all isNameChar = true)
    (hidlen : id.length ≤ maxFragment)
    (hlen : max + middle.length + maxFragment + ending.length ≤ 256) :
    TestName 256 (front ++ middle ++ id ++ ending) :=
  (((hfront.append hmiddle le_rfl).append hid hidlen).append hending le_rfl).mono hlen

section

variable (target : Target)

private theorem testPath_rust : ∃ file, TestName 256 file ∧
    testPath target "rust" = join "/" (allDirs target "rust" ++ [file]) := by
  have hfront : TestName 7 ("jitgen_" : Text) := ⟨by decide, ⟨_, _, rfl, by decide⟩, by decide⟩
  have hname := testName_parts (hfront.append (all_isNameChar (all_sanitizeFragment _))
    (length_sanitizeFragment ((fileStem target.path).getD []))) "_" ".rs" (by decide)
    (all_shortId target) (by decide) (length_shortId target) (by decide)
  refine ⟨_, hname, ?_⟩
  show _ = join "/" ([("tests" : Text)] ++ [_])
  rw [join_append_singleton "/" (List.cons_ne_nil _ _)]
  rfl

private theorem testPath_other {adapterId : Text} (hrust : adapterId ≠ "rust")
    (hpython : adapterId ≠ "python") (hjava : adapterId ≠ "java") (hts : adapterId ≠ "typescript") :
    ∃ file, TestName 256 file ∧
      testPath target adapterId = join "/" (allDirs target adapterId ++ [file]) := by
  have hname := testName_parts (testName_stemOf target.path) "_" ".test.txt" (by decide)
    (all_shortId target) (by decide) (length_shortId target) (by decide)
  refine ⟨_, hname, ?_⟩
  have hbeside : ¬ (adapterId = "python" ∨ adapterId = "typescript") := not_or.mpr ⟨hpython, hts⟩
  have hkept : keptParts target adapterId = ([], []) :=
    (if_neg hbeside).trans (if_neg hjava)
  have hfixed : fixedDirs adapterId = [("jitgen-tests" : Text)] :=
    (if_neg hrust).trans ((if_neg hbeside).trans (if_neg hjava))
  have hpath : testPath target adapterId =
      ("jitgen-tests/" : Text) ++ stemOf target.path ++ "_" ++ shortId target ++ ".test.txt" :=
    (if_neg hrust).trans ((if_neg hpython).trans ((if_neg hjava).trans (if_neg hts)))
  rw [allDirs, hkept, hfixed, hpath]
  exact (join_append_singleton "/" (List.cons_ne_nil ("jitgen-tests" : Text) []) _).symm

private theorem allDirs_beside {adapterId : Text}
    (h : adapterId = "python" ∨ adapterId = "typescript") :
    allDirs target adapterId = ((parent target.path).map normals).getD [] := by
  have hkept : keptParts target adapterId = (((parent target.path).map normals).getD [], []) :=
    if_pos h
  have hfixed : fixedDirs adapterId = [] := by
    have hrust : adapterId ≠ "rust" := by rcases h with rfl | rfl <;> decide
    exact (if_neg hrust).trans (if_pos h)
  rw [allDirs, hkept, hfixed, List.append_nil, List.append_nil]

private theorem beside_eq_join (name : Text) :
    (if (dirOf target.path).isEmpty then name else dirOf target.path ++ "/" ++ name) =
      join "/" (((parent target.path).map normals).getD [] ++ [name]) := by
  rw [dirOf_eq_join]
  exact below_dir_eq_join (fun d hd =>
    (plainName_of_mem_normals (mem_components_of_mem_parent hd)).ne_nil) name

private theorem testPath_python : ∃ file, TestName 256 file ∧
    testPath target "python" = join "/" (allDirs target "python" ++ [file]) := by
  have hfront : TestName 5 ("test_" : Text) := ⟨by decide, ⟨_, _, rfl, by decide⟩, by decide⟩
  have hname := testName_parts (hfront.append (all_isNameChar (all_sanitizeFragment _))
    (length_sanitizeFragment ((fileStem target.path).getD []))) "_jitgen_" ".py" (by decide)
    (all_shortId target) (by decide) (length_shortId target) (by decide)
  refine ⟨_, hname, ?_⟩
  rw [allDirs_beside target (.inl rfl)]
  exact beside_eq_join target _

private theorem testPath_typescript : ∃ file, TestName 256 file ∧
    testPath target "typescript" = join "/" (allDirs target "typescript" ++ [file]) := by
  obtain ⟨hext, hextlen⟩ := tsTestExt_name target.path
  have hending : ((".test." : Text) ++ tsTestExt target.path).all isNameChar = true := by
    rw [List.all_append, hext]
    rfl
  have hname := testName_parts (testName_stemOf target.path) ".jitgen."
    (".test." ++ tsTestExt target.path) (by decide) (all_shortId target) hending
    (length_shortId target) (by
      rw [List.length_append]
      simp [maxFragment]
      omega)
  refine ⟨_, hname, ?_⟩
  rw [allDirs_beside target (.inr rfl), ← List.append_assoc]
  exact beside_eq_join target _

private theorem testPath_java : ∃ file, TestName 256 file ∧
    testPath target "java" = join "/" (allDirs target "java" ++ [file]) := by
  have hid : (capitalize (shortId target)).all isNameChar = true :=
    all_isNameChar (all_capitalize (all_sanitizeFragment _))
  have hidlen : (capitalize (shortId target)).length ≤ maxFragment := by
    rw [length_capitalize]
    exact length_shortId target
  have hname := testName_parts (testName_capitalize_stemOf target.path) "Jitgen" "Test.java"
    (by decide) hid (by decide) hidlen (by decide)
  refine ⟨_, hname, ?_⟩
  show javaTestPath target.path (stemOf target.path) (shortId target) = _
  have hend : ∀ name : Text, name ++ "Test" ++ ".java" = name ++ "Test.java" := by
    intro name
    rw [List.append_assoc]
    rfl
  have hkept : keptParts target "java" =
      match if 4 ≤ (normals (components target.path)).length then
        splitMainJava (normals (components target.path)) else none with
      | some (pre, rest) => (pre, rest.dropLast)
      | none => ([], []) := rfl
  have hfixed : fixedDirs "java" = [("src" : Text), "test", "java"] := rfl
  rw [allDirs, hkept, hfixed]
  unfold javaTestPath
  dsimp only
  cases hsplit : (if 4 ≤ (normals (components target.path)).length then
      splitMainJava (normals (components target.path)) else none) with
  | none =>
    rw [List.nil_append, List.append_nil, join_append_singleton "/" (List.cons_ne_nil _ _), ← hend]
    rfl
  | some x => rw [← hend]

end

theorem testPath_eq_join (target : Target) (adapterId : Text) :
    ∃ file, TestName 256 file ∧
      testPath target adapterId = join "/" (allDirs target adapterId ++ [file]) := by
  by_cases hrust : adapterId = "rust"
  · exact hrust ▸ testPath_rust target
  by_cases hpython : adapterId = "python"
  · exact hpython ▸ testPath_python target
  by_cases hjava : adapterId = "java"
  · exact hjava ▸ testPath_java target
  by_cases hts : adapterId = "typescript"
  · exact hts ▸ testPath_typescript target
  exact testPath_other target hrust hpython hjava hts

end Jitgen
