import Jitgen.Materialize.DerivedPath
import Jitgen.Materialize.Install
import Jitgen.Orchestrator.Doubles
import Jitgen.Orchestrator.Process

/-!
# Derived paths and the checks on them

A test path is derived from a source path that intake accepts. The checks that follow look at the
derived path again: two are lexical like the one of intake, and beyond it the overlay limits length
and depth, and a landable path holds nothing that the patch exporter drops.
-/

namespace Jitgen

open Text UnixPath

/-- What the patch exporter keeps of a path. -/
def isPlainChar (c : Char) : Bool := !isStrippable c && c != '\n' && c != '\t'

private theorem landable_iff {p : Text} (hrel : p.startsWith "/" = false) :
    pathIsLandable p = true ↔ ∀ c ∈ p, isPlainChar c = true := by
  have hstrip := stripControls_eq_self_iff p
  simp only [pathIsLandable, hrel, Bool.and_eq_true, beq_iff_eq, hstrip, Bool.not_eq_true',
    isPlainChar, bne_iff_ne, List.contains_eq_mem, decide_eq_false_iff_not]
  constructor
  · intro ⟨⟨⟨hkept, hnewline⟩, htab⟩, _⟩ c hc
    exact ⟨⟨hkept c hc, ne_of_mem_of_not_mem hc hnewline⟩, ne_of_mem_of_not_mem hc htab⟩
  · intro h
    exact ⟨⟨⟨fun c hc => (h c hc).1.1, fun hc => (h _ hc).1.2 rfl⟩, fun hc => (h _ hc).2 rfl⟩,
      trivial⟩

private theorem toNat_of_isNameChar {c : Char} (h : isNameChar c = true) :
    45 ≤ c.toNat ∧ c.toNat ≤ 122 := by
  simp only [isNameChar, isFragmentChar, isAsciiAlphanumeric, isAsciiUpper, isAsciiLower,
    isAsciiDigit, Bool.or_eq_true, Bool.and_eq_true, decide_eq_true_eq, beq_iff_eq, Char.le_def,
    UInt32.le_iff_toNat_le] at h
  rcases h with (((((h | h) | h) | rfl) | rfl) | rfl)
  · simp at h
    omega
  · simp at h
    omega
  · simp at h
    omega
  · decide
  · decide
  · decide

private theorem isPlainChar_of_isNameChar {c : Char} (h : isNameChar c = true) :
    isPlainChar c = true := by
  have hrange := toNat_of_isNameChar h
  have hkept : isStrippable c = false := by
    simp [isStrippable]
    omega
  have hnewline : c ≠ '\n' := fun heq => absurd (heq ▸ hrange.1) (by decide)
  have htab : c ≠ '\t' := fun heq => absurd (heq ▸ hrange.1) (by decide)
  simp [isPlainChar, hkept, hnewline, htab]

private theorem hasDrivePrefix_append_slash {s : Text} (hs : s ≠ []) (t : Text) :
    hasDrivePrefix (s ++ '/' :: t) = hasDrivePrefix s := by
  match s with
  | [] => exact absurd rfl hs
  | [c] => rfl
  | c :: d :: rest =>
    by_cases hd : d = ':'
    · subst hd
      rfl
    · simp [hasDrivePrefix, hd]

private theorem hasDrivePrefix_join {s : Text} (hs : s ≠ []) (ss : List Text) :
    hasDrivePrefix (join "/" (s :: ss)) = hasDrivePrefix s := by
  cases ss with
  | nil => simp [join]
  | cons x xs =>
    rw [join, List.intercalate_cons_cons, List.append_assoc]
    exact hasDrivePrefix_append_slash hs _

private theorem mem_of_mem_normals {path s : Text} {c : Char} (hs : s ∈ normals (components path))
    (hc : c ∈ s) : c ∈ path :=
  mem_of_mem_splitOn (mem_splitOn_of_mem (mem_normals.mp hs)) hc

private theorem normals_map (ss : List Text) :
    normals (ss.map .normal) = ss := normals_plain (.inl rfl) ss

section

variable {ss : List Text}

private theorem isEmpty_join (hss : ∀ s ∈ ss, PlainName s) (hne : ss ≠ []) :
    (join "/" ss).isEmpty = false := by
  by_contra h
  have hnil : join "/" ss = [] := by simpa using h
  have hcomps := components_join hss hne
  rw [hnil] at hcomps
  exact hne (List.map_eq_nil_iff.mp hcomps.symm)

private theorem contains_join (hback : ∀ s ∈ ss, '\\' ∉ s) :
    (join "/" ss).contains '\\' = false := by
  by_contra h
  have hmem : '\\' ∈ join "/" ss := by simpa using h
  rcases mem_join hmem with hslash | ⟨s, hs, hc⟩
  · exact absurd hslash (by decide)
  · exact hback s hs hc

private theorem endsWith_join (hss : ∀ s ∈ ss, PlainName s) (hne : ss ≠ []) :
    (join "/" ss).endsWith "/" = false := by
  by_contra h
  have hsplit := (List.dropLast_append_getLast hne).symm
  have hlast := hss _ (List.getLast_mem hne)
  obtain ⟨s, hs⟩ := exists_join_concat "/" ss.dropLast (ss.getLast hne)
  rw [← hsplit] at hs
  have hsuffix : ['/'] <:+ s ++ ss.getLast hne := by
    rw [← hs]
    exact List.isSuffixOf_iff_suffix.mp (by simpa [Text.endsWith] using h)
  obtain ⟨t, ht⟩ := hsuffix
  have hslash : (ss.getLast hne).getLast? = some '/' := by
    rw [← List.getLast?_append_of_ne_nil s hlast.ne_nil, ← ht]
    simp
  exact hlast.no_slash (List.mem_of_getLast? hslash)

private theorem rejectUnsafeRel_join (hss : ∀ s ∈ ss, PlainName s) (hne : ss ≠ [])
    (hback : ∀ s ∈ ss, '\\' ∉ s) :
    rejectUnsafeRel (join "/" ss) = hasDrivePrefix (join "/" ss) := by
  have hany : (ss.map Component.normal).any (fun c => c = .rootDir || c = .parentDir) = false := by
    simp
  unfold rejectUnsafeRel
  simp only [isEmpty_join hss hne, contains_join hback, endsWith_join hss hne,
    components_join hss hne, hany, normals_map]
  simp [hne]

private theorem validateRel_join_iff (hss : ∀ s ∈ ss, PlainName s) (hne : ss ≠ [])
    (hback : ∀ s ∈ ss, '\\' ∉ s) (hdrive : hasDrivePrefix (join "/" ss) = false) :
    Materialize.validateRel (join "/" ss) = .ok () ↔
      utf8Len (join "/" ss) ≤ Materialize.maxRelBytes ∧
        ss.length ≤ Materialize.maxRelComponents := by
  have hany : (ss.map Component.normal).any (fun c => c = .rootDir || c = .parentDir) = false := by
    simp
  have hlen : ss.length ≠ 0 := by simpa using hne
  unfold Materialize.validateRel
  simp only [isEmpty_join hss hne, contains_join hback, hdrive, components_join hss hne,
    hany, normals_map, Bool.or_self, Bool.false_eq_true, if_false, hlen]
  generalize utf8Len (join "/" ss) = bytes
  split_ifs with hbytes hcomps
  · simp [Nat.not_le.mpr hbytes]
  · simp [Nat.not_le.mpr hcomps]
  · simp
    omega

end

section

variable {target : Target} {adapterId : Text}

private theorem allDirs_plain {file : Text} (hfile : TestName 256 file) :
    ∀ s ∈ allDirs target adapterId ++ [file], PlainName s := by
  intro s hs
  rcases List.mem_append.mp hs with hs | hs
  · rcases mem_allDirs.mp hs with hs | hs
    · exact plainName_of_mem_keptDirs hs
    · exact (fixedDirs_names adapterId s hs).plain
  · rw [List.mem_singleton.mp hs]
    exact hfile.plain

private theorem allDirs_backslash {file : Text} (hfile : TestName 256 file)
    (hpath : rejectUnsafeRel target.path = false) :
    ∀ s ∈ allDirs target adapterId ++ [file], '\\' ∉ s := by
  have hsource : '\\' ∉ target.path := by
    intro hmem
    simp [rejectUnsafeRel, hmem] at hpath
  intro s hs
  rcases List.mem_append.mp hs with hs | hs
  · rcases mem_allDirs.mp hs with hs | hs
    · exact fun hc => hsource (mem_of_mem_normals (mem_keptDirs hs) hc)
    · exact (fixedDirs_names adapterId s hs).notMem (by decide)
  · rw [List.mem_singleton.mp hs]
    exact hfile.notMem (by decide)

private theorem TestName.no_drive {max : Nat} {s : Text} (h : TestName max s) :
    hasDrivePrefix s = false := by
  have hcolon := h.notMem (d := ':') (by decide)
  unfold hasDrivePrefix
  split
  · simp at hcolon
  · rfl

/-- Only a kept directory in front can look like a drive. -/
private theorem no_drive_prefix {file : Text} (hfile : TestName 256 file)
    (hdrive : ∀ d ∈ (keptParts target adapterId).1.head?, hasDrivePrefix d = false) :
    hasDrivePrefix (join "/" (allDirs target adapterId ++ [file])) = false := by
  have hss := @allDirs_plain target adapterId _ hfile
  have hfirst : ∀ {s rest}, allDirs target adapterId ++ [file] = s :: rest →
      hasDrivePrefix (join "/" (allDirs target adapterId ++ [file])) = hasDrivePrefix s := by
    intro s rest hs
    rw [hs] at hss ⊢
    exact hasDrivePrefix_join (hss s List.mem_cons_self).ne_nil rest
  unfold allDirs at hfirst ⊢
  cases hfront : (keptParts target adapterId).1 with
  | cons d front =>
    rw [hfront] at hdrive hfirst
    exact (hfirst rfl).trans (hdrive d rfl)
  | nil =>
    rw [hfront] at hfirst
    cases hfixed : fixedDirs adapterId with
    | cons d fixed =>
      rw [hfixed] at hfirst
      have hname := fixedDirs_names adapterId d (hfixed ▸ List.mem_cons_self)
      exact (hfirst rfl).trans hname.no_drive
    | nil =>
      rw [hfixed, keptParts_behind hfixed] at hfirst
      rw [keptParts_behind hfixed]
      exact (hfirst rfl).trans hfile.no_drive

private theorem landable_join_iff {file : Text} (hfile : TestName 256 file) :
    (∀ c ∈ join "/" (allDirs target adapterId ++ [file]), isPlainChar c = true) ↔
      ∀ d ∈ keptDirs target adapterId, ∀ c ∈ d, isPlainChar c = true := by
  have hss := @allDirs_plain target adapterId _ hfile
  have hname : ∀ {max : Nat} {s : Text}, TestName max s → ∀ c ∈ s, isPlainChar c = true :=
    fun h c hc => isPlainChar_of_isNameChar (List.all_eq_true.mp h.chars c hc)
  constructor
  · intro h d hd c hc
    have hmem : d ∈ allDirs target adapterId ++ [file] :=
      List.mem_append_left _ (mem_allDirs.mpr (.inl hd))
    exact h c (mem_join_of_mem hss hmem hc)
  · intro h c hc
    rcases mem_join hc with rfl | ⟨s, hs, hc⟩
    · decide
    rcases List.mem_append.mp hs with hs | hs
    · rcases mem_allDirs.mp hs with hs | hs
      · exact h s hs c hc
      · exact hname (fixedDirs_names adapterId s hs) c hc
    · rw [List.mem_singleton.mp hs] at hc
      exact hname hfile c hc

private theorem utf8Len_of_isNameChar {s : Text} (hs : s.all isNameChar = true) :
    utf8Len s = s.length := by
  induction s with
  | nil => rfl
  | cons c s ih =>
    rw [List.all_cons, Bool.and_eq_true] at hs
    have hone : c.utf8Size = 1 := by
      have hrange := toNat_of_isNameChar hs.1
      rw [Char.utf8Size_eq_one_iff, UInt32.le_iff_toNat_le]
      exact hrange.2.trans (by decide)
    rw [utf8Len_cons, ih hs.2, hone, List.length_cons]
    omega

private theorem utf8Len_join_le {ss : List Text} {m : Nat} (hss : ∀ s ∈ ss, utf8Len s ≤ m) :
    utf8Len (join "/" ss) ≤ ss.length * (m + 1) := by
  induction ss with
  | nil => exact Nat.zero_le _
  | cons s ss ih =>
    have hs := hss s List.mem_cons_self
    have hrest := ih fun x hx => hss x (List.mem_cons_of_mem s hx)
    cases ss with
    | nil =>
      simp [join]
      omega
    | cons x xs =>
      rw [join, List.intercalate_cons_cons, utf8Len_append, utf8Len_append, ← join,
        List.length_cons, Nat.succ_mul]
      have hsep : utf8Len "/" = 1 := by decide
      omega

/-- With fixed directories alone a derived path is within the limits. -/
private theorem fixed_within_limits {file : Text} (hfile : TestName 256 file)
    (hkept : keptDirs target adapterId = []) :
    utf8Len (join "/" (allDirs target adapterId ++ [file])) ≤ Materialize.maxRelBytes ∧
      (allDirs target adapterId).length < Materialize.maxRelComponents := by
  have hdirs : allDirs target adapterId = fixedDirs adapterId := by
    obtain ⟨hfront, hback⟩ := List.append_eq_nil_iff.mp hkept
    rw [allDirs, hfront, hback, List.nil_append, List.append_nil]
  have hlen := length_fixedDirs adapterId
  have hnames : ∀ s ∈ fixedDirs adapterId ++ [file], utf8Len s ≤ 256 := by
    intro s hs
    rcases List.mem_append.mp hs with hs | hs
    · have hname := (fixedDirs_names adapterId s hs).mono (show 16 ≤ 256 by decide)
      exact (utf8Len_of_isNameChar hname.chars).trans_le hname.short
    · rw [List.mem_singleton.mp hs]
      exact (utf8Len_of_isNameChar hfile.chars).trans_le hfile.short
  have hbytes := utf8Len_join_le hnames
  rw [hdirs]
  simp only [List.length_append, List.length_singleton] at hbytes
  unfold Materialize.maxRelBytes Materialize.maxRelComponents
  constructor
  · calc utf8Len (join "/" (fixedDirs adapterId ++ [file]))
        ≤ ((fixedDirs adapterId).length + 1) * 257 := hbytes
      _ ≤ 4 * 257 := Nat.mul_le_mul_right 257 (by omega)
      _ ≤ 4096 := by decide
  · omega

/-- A checkout accepts every derived path. The overlay accepts it up to its limits, which a path
without kept directories respects, and it is landable when the kept directories are plain. Of a
kept directory in front that looks like a drive nothing is said. -/
theorem derived_path_checks (hpath : rejectUnsafeRel target.path = false)
    (hdrive : ∀ d ∈ (keptParts target adapterId).1.head?, hasDrivePrefix d = false) :
    rejectUnsafeRel (testPath target adapterId) = false ∧
      (Materialize.validateRel (testPath target adapterId) = .ok () ↔
        utf8Len (testPath target adapterId) ≤ Materialize.maxRelBytes ∧
          (allDirs target adapterId).length < Materialize.maxRelComponents) ∧
      (keptDirs target adapterId = [] →
        Materialize.validateRel (testPath target adapterId) = .ok ()) ∧
      (pathIsLandable (testPath target adapterId) = true ↔
        ∀ d ∈ keptDirs target adapterId, ∀ c ∈ d, isPlainChar c = true) := by
  obtain ⟨file, hfile, hjoin⟩ := testPath_eq_join target adapterId
  have hss := @allDirs_plain target adapterId _ hfile
  have hback := @allDirs_backslash target adapterId _ hfile hpath
  have hne : allDirs target adapterId ++ [file] ≠ [] := by simp
  have hprefix := no_drive_prefix hfile hdrive
  have hvalid := validateRel_join_iff hss hne hback hprefix
  rw [List.length_append, List.length_singleton, Nat.succ_le_iff] at hvalid
  rw [hjoin]
  refine ⟨?_, hvalid, ?_, ?_⟩
  · rw [rejectUnsafeRel_join hss hne hback, hprefix]
  · intro hkept
    exact hvalid.mpr (fixed_within_limits hfile hkept)
  · rw [landable_iff (isAbsolute_join hss hne)]
    exact landable_join_iff hfile

/-- A path that begins with a plain component begins with its name. -/
private theorem hasDrivePrefix_of_components {path d : Text} {rest : List Component}
    (h : components path = .normal d :: rest) : hasDrivePrefix path = hasDrivePrefix d := by
  have habs : isAbsolute path = false := by
    by_contra habs
    rw [components_of_absolute (by simpa using habs)] at h
    cases h
  have hdot : (path.splitOn '/').head? ≠ some ("." : Text) := by
    intro hdot
    simp [components, habs, hdot] at h
  have hbody : (path.splitOn '/').filterMap UnixPath.segment = .normal d :: rest := by
    simpa only [components, habs, hdot, Bool.false_eq_true, if_false] using h
  have hjoin : join "/" (path.splitOn '/') = path := List.intercalate_splitOn '/'
  obtain ⟨x, xs, hx⟩ := List.exists_cons_of_ne_nil (List.splitOn_ne_nil '/' path)
  rw [hx] at hbody hdot hjoin
  have hne : x ≠ [] := by
    rintro rfl
    cases xs with
    | nil => simp [UnixPath.segment] at hbody
    | cons y ys =>
      rw [← hjoin] at habs
      exact absurd habs (by simp [join, List.intercalate_cons_cons, isAbsolute, Text.startsWith])
  have hxd : x = d := by
    have hskip : ¬ (x = [] ∨ x = ".") := not_or.mpr ⟨hne, fun h => hdot (congrArg some h)⟩
    by_cases hup : x = ".."
    · have hseg : UnixPath.segment x = some .parentDir := by
        rw [UnixPath.segment, if_neg hskip, if_pos hup]
      rw [List.filterMap_cons_some hseg] at hbody
      cases hbody
    · have hseg : UnixPath.segment x = some (.normal x) := by
        rw [UnixPath.segment, if_neg hskip, if_neg hup]
      rw [List.filterMap_cons_some hseg] at hbody
      exact Component.normal.inj (List.cons.inj hbody).1
  rw [← hxd, ← hjoin]
  exact hasDrivePrefix_join hne xs

/-- A kept directory in front looks like a drive only behind a leading dot. -/
theorem curDir_of_kept_drive (hpath : rejectUnsafeRel target.path = false) {d : Text}
    (hd : d ∈ (keptParts target adapterId).1.head?) (hdrive : hasDrivePrefix d = true) :
    (components target.path).head? = some .curDir := by
  obtain ⟨lead, hlead, -, hcomps⟩ := components_of_safe hpath
  rcases hlead with rfl | rfl
  · have hnormals : normals (components target.path) = segments target.path := by
      rw [hcomps]
      exact normals_plain (.inl rfl) _
    obtain ⟨rest, hrest⟩ : ∃ rest, segments target.path = d :: rest := by
      obtain ⟨t, ht⟩ := keptParts_front target adapterId
      obtain ⟨front, hfront⟩ := List.head?_eq_some_iff.mp hd
      exact ⟨front ++ t, by rw [← hnormals, ← ht, hfront]; rfl⟩
    rw [hrest] at hcomps
    have hsame := hasDrivePrefix_of_components hcomps
    have hrefused : rejectUnsafeRel target.path = true := by
      simp [rejectUnsafeRel, hsame, hdrive]
    rw [hpath] at hrefused
    cases hrefused
  · rw [hcomps]
    rfl

end

/-- A target whose test is placed beside its source. -/
def beside (path : Text) : Target := { sampleTarget.target with adapter := "python", path := path }

theorem module_path_checks :
    rejectUnsafeRel (testPath (beside "pkg/mod.py") "python") = false ∧
      (Materialize.validateRel (testPath (beside "pkg/mod.py") "python") = .ok () ↔
        utf8Len (testPath (beside "pkg/mod.py") "python") ≤ Materialize.maxRelBytes ∧
          (allDirs (beside "pkg/mod.py") "python").length < Materialize.maxRelComponents) ∧
      (keptDirs (beside "pkg/mod.py") "python" = [] →
        Materialize.validateRel (testPath (beside "pkg/mod.py") "python") = .ok ()) ∧
      (pathIsLandable (testPath (beside "pkg/mod.py") "python") = true ↔
        ∀ d ∈ keptDirs (beside "pkg/mod.py") "python", ∀ c ∈ d, isPlainChar c = true) :=
  derived_path_checks (by decide +kernel) (by decide +kernel)

/-- The directories `d/d/…`, 64 of them, around a module. -/
def deepPath : Text := (List.replicate 64 ("d/" : Text)).flatten ++ "m.py"

/-- Intake accepts a module below 64 directories, and one in a directory with a tab in its name. The
overlay refuses the test beside the first, and the test beside the second is not landable. -/
theorem odd_directories_refused :
    (∃ (target : Target) (adapterId : Text), rejectUnsafeRel target.path = false ∧
      Materialize.validateRel (testPath target adapterId) ≠ .ok ()) ∧
    ∃ (target : Target) (adapterId : Text), rejectUnsafeRel target.path = false ∧
      pathIsLandable (testPath target adapterId) = false :=
  ⟨⟨beside deepPath, "python", by decide +kernel, by decide +kernel⟩,
    beside "a\tb/m.py", "python", by decide +kernel, by decide +kernel⟩

end Jitgen
