import Jitgen.Sandbox.Which
import Mathlib.Data.List.Find

/-!
# Launchers come from the trusted directories

What is resolved is one name behind a trusted directory and leads to an executable file, and it does
not depend on what the process inherited.
-/

namespace Jitgen

open Text UnixPath

namespace FileTree

private theorem dir_dropLast {fs : FileSystem} {p : Location} (h : fs.tree.entry p = some .dir) :
    fs.tree.entry p.dropLast = some .dir := by
  rcases List.eq_nil_or_concat p with rfl | ⟨q, s, rfl⟩
  · exact fs.root
  · rw [List.concat_eq_append] at h ⊢
    rw [List.dropLast_concat]
    exact (fs.below q s .dir h).1

private theorem walkN_above {fs : FileSystem} {follow : Bool} {n : Nat} {cur p : Location}
    {ps : List Text} (h : (walkN fs.tree follow n cur (ps ++ [above])).result = .ok p) :
    fs.tree.entry p = some .dir := by
  apply walkN_concat (fun jump cur p hlast => ?_) h
  rw [walkWith] at hlast
  split at hlast
  · rename_i hdir
    rw [if_neg (by decide), if_pos rfl] at hlast
    have hp : cur.dropLast = p := Except.ok.inj hlast
    rw [← hp]
    exact dir_dropLast hdir
  · cases hlast

end FileTree

/-- A path leads to a regular file that somebody may execute. -/
def LauncherHost.Executable (host : LauncherHost) (p : Text) : Prop :=
  ∃ loc contents, host.locate p = .ok loc ∧ host.fs.tree.entry loc = some (.file contents) ∧
    host.mode loc &&& 0o111 ≠ 0

namespace Which

variable {host host' : LauncherHost} {program p : Text}

private theorem isExecutableFile_iff : isExecutableFile host p = true ↔ host.Executable p := by
  unfold isExecutableFile LauncherHost.metadata LauncherHost.Executable
  cases host.locate p with
  | error e => simp
  | ok loc =>
    cases hentry : host.fs.tree.entry loc with
    | none => simp [hentry]
    | some e => cases e <;> simp [hentry]

private theorem locate_walk {loc : Location} (h : host.locate p = .ok loc) :
    (host.fs.tree.walk true (host.base p) (FileTree.pieces p)).result = .ok loc := by
  unfold LauncherHost.locate at h
  dsimp only at h
  split_ifs at h
  exact h

private theorem not_executable_of_dots {dots : Text}
    (hdots : dots = FileTree.here ∨ dots = FileTree.above)
    (hlast : (FileTree.pieces p).getLast? = some dots) : isExecutableFile host p = false := by
  rw [Bool.eq_false_iff, ne_eq, isExecutableFile_iff]
  rintro ⟨loc, contents, hloc, hfile, -⟩
  obtain ⟨ps, hps⟩ := List.getLast?_eq_some_iff.mp hlast
  have hwalk := locate_walk hloc
  rw [hps] at hwalk
  have hdir : host.fs.tree.entry loc = some .dir := by
    rcases hdots with rfl | rfl
    · exact FileTree.walkN_here hwalk
    · exact FileTree.walkN_above hwalk
  rw [hfile] at hdir
  cases hdir

private theorem push_trusted {d : Text} (hd : d ∈ trustedBinDirs) (name : Text) :
    UnixPath.push d name = d ++ '/' :: name := by
  have hend : ∀ d ∈ trustedBinDirs, d.endsWith "/" = false := by decide
  rw [UnixPath.push, hend d hd]
  rfl

private theorem isAbsolute_trusted {d : Text} (hd : d ∈ trustedBinDirs) (rest : Text) :
    isAbsolute (d ++ rest) = true := by
  have habs : ∀ d ∈ trustedBinDirs, isAbsolute d = true := by decide
  unfold isAbsolute Text.startsWith at habs ⊢
  rw [List.isPrefixOf_iff_prefix]
  exact (List.isPrefixOf_iff_prefix.mp (habs d hd)).trans (List.prefix_append d rest)

private theorem plainName_of_executable {d name : Text} (hd : d ∈ trustedBinDirs)
    (hname : '/' ∉ name) (h : isExecutableFile host (d ++ '/' :: name) = true) :
    PlainName name := by
  have hempty : ∀ d ∈ trustedBinDirs,
      (FileTree.pieces (d ++ ['/'])).getLast? = some FileTree.here := by decide
  have hdot : ∀ d ∈ trustedBinDirs,
      (FileTree.pieces (d ++ '/' :: ".")).getLast? = some FileTree.here := by decide
  have hup : ∀ d ∈ trustedBinDirs,
      (FileTree.pieces (d ++ '/' :: "..")).getLast? = some FileTree.above := by decide
  constructor
  · rintro rfl
    rw [not_executable_of_dots (.inl rfl) (hempty d hd)] at h
    cases h
  · rintro rfl
    rw [not_executable_of_dots (.inl rfl) (hdot d hd)] at h
    cases h
  · rintro rfl
    rw [not_executable_of_dots (.inr rfl) (hup d hd)] at h
    cases h
  · exact hname

private theorem resolveTrusted_bare (hbare : '/' ∉ program)
    (h : resolveTrusted host program = some p) :
    ∃ before d after, trustedBinDirs = before ++ d :: after ∧ p = d ++ '/' :: program ∧
      isExecutableFile host p = true ∧
      ∀ d' ∈ before, isExecutableFile host (d' ++ '/' :: program) = false := by
  have hcontains : program.contains '/' = false := by simpa using hbare
  unfold resolveTrusted at h
  rw [hcontains] at h
  simp only [Bool.false_eq_true, if_false] at h
  rw [List.find?_map, Option.map_eq_some_iff] at h
  obtain ⟨d, hfind, rfl⟩ := h
  obtain ⟨hexec, before, after, hdirs, hbefore⟩ := List.find?_eq_some_iff_append.mp hfind
  have hmem : ∀ d' ∈ before ++ [d], d' ∈ trustedBinDirs := by
    intro d' hd'
    rw [hdirs]
    simp only [List.mem_append, List.mem_cons] at hd' ⊢
    tauto
  have hd := push_trusted (hmem d (by simp)) program
  refine ⟨before, d, after, hdirs, hd, hexec, fun d' hd' => ?_⟩
  rw [← push_trusted (hmem d' (by simp [hd'])) program]
  simpa using hbefore d' hd'

private theorem exists_segments (habs : isAbsolute program = true) :
    ∃ segs, program.splitOn '/' = [] :: segs ∧ segs ≠ [] := by
  unfold isAbsolute Text.startsWith at habs
  obtain ⟨rest, rfl⟩ := List.isPrefixOf_iff_prefix.mp habs
  exact ⟨rest.splitOn '/', List.splitOn_append_cons_self [] rest, List.splitOn_ne_nil _ _⟩

/-- Names that the two checks let pass are plain, and are the components of the path. -/
private theorem plain_segments {segs : List Text} (habs : isAbsolute program = true)
    (hsplit : program.splitOn '/' = [] :: segs) (hraw : hasNoCurdirOrEmptySegments program = true)
    (hnormal : hasOnlyNormalComponents program = true) :
    (∀ s ∈ segs, PlainName s) ∧ components program = .rootDir :: segs.map .normal := by
  have hcomps := components_of_absolute habs
  rw [hsplit, List.filterMap_cons_none (by decide)] at hcomps
  unfold hasNoCurdirOrEmptySegments at hraw
  rw [hsplit, List.drop_one, List.tail_cons, List.all_eq_true] at hraw
  unfold hasOnlyNormalComponents at hnormal
  rw [hcomps, List.all_cons, Bool.and_eq_true, List.all_eq_true] at hnormal
  have hplain : ∀ s ∈ segs, PlainName s := by
    intro s hs
    have hdots := hraw s hs
    simp only [Bool.and_eq_true, Bool.not_eq_true', bne_iff_ne, List.isEmpty_eq_false_iff] at hdots
    have hslash : '/' ∉ s := notMem_of_mem_splitOn (by rw [hsplit]; exact List.mem_cons_of_mem _ hs)
    refine ⟨hdots.1, hdots.2, ?_, hslash⟩
    rintro rfl
    have hup := hnormal.2 .parentDir (List.mem_filterMap.mpr ⟨_, hs, by decide⟩)
    cases hup
  refine ⟨hplain, ?_⟩
  have hsegs : ∀ ss : List Text, (∀ s ∈ ss, PlainName s) →
      ss.filterMap segment = ss.map .normal := by
    intro ss hss
    induction ss with
    | nil => rfl
    | cons s ss ih =>
      rw [List.forall_mem_cons] at hss
      rw [List.filterMap_cons_some hss.1.segment, ih hss.2, List.map_cons]
  rw [hcomps, hsegs segs hplain]

private theorem components_trusted {d : Text} (hd : d ∈ trustedBinDirs) :
    ∃ dirs, d.splitOn '/' = [] :: dirs ∧ components d = .rootDir :: dirs.map .normal := by
  have hdirs : ∀ d ∈ trustedBinDirs, d.splitOn '/' = [] :: (d.splitOn '/').drop 1 ∧
      components d = .rootDir :: ((d.splitOn '/').drop 1).map .normal := by decide
  exact ⟨_, hdirs d hd⟩

/-- A path with the checks passed is a name behind a trusted directory, to the letter. -/
private theorem resolveTrusted_absolute (habs : isAbsolute program = true)
    (hraw : hasNoCurdirOrEmptySegments program = true)
    (hnormal : hasOnlyNormalComponents program = true)
    (hparent : parentIsTrustedDir program = true) :
    ∃ d ∈ trustedBinDirs, ∃ name, PlainName name ∧ program = d ++ '/' :: name := by
  obtain ⟨segs, hsplit, hne⟩ := exists_segments habs
  obtain ⟨hplain, hcomps⟩ := plain_segments habs hsplit hraw hnormal
  obtain ⟨init, name, hconcat⟩ := (List.eq_nil_or_concat segs).resolve_left hne
  rw [List.concat_eq_append] at hconcat
  subst hconcat
  rw [List.map_append, List.map_singleton] at hcomps
  have hlast : parent program = some (.rootDir :: init.map .normal) := by
    unfold parent
    rw [hcomps, ← List.cons_append, List.getLast?_concat, List.dropLast_concat]
  unfold parentIsTrustedDir at hparent
  rw [hlast] at hparent
  obtain ⟨d, hd, heq⟩ := List.any_eq_true.mp hparent
  obtain ⟨dirs, hdsplit, hdcomps⟩ := components_trusted hd
  have hinit : dirs = init := by
    have hsame := (hdcomps.symm.trans (eq_of_beq heq))
    injection hsame with _ hsame
    exact List.map_injective_iff.mpr (fun s t h => Component.normal.inj h) hsame
  have hname := hplain name (by simp)
  refine ⟨d, hd, name, hname, ?_⟩
  have hboth : (d ++ '/' :: name).splitOn '/' = program.splitOn '/' := by
    rw [List.splitOn_append_cons_self, hdsplit, hinit, hsplit,
      List.splitOn_eq_singleton hname.no_slash, List.cons_append]
  have hprogram : List.intercalate ['/'] (program.splitOn '/') = program :=
    List.intercalate_splitOn '/'
  rw [← hprogram, ← hboth, List.intercalate_splitOn]

/-- Two processes that see the same files. -/
structure SameFiles (host host' : LauncherHost) : Prop where
  fs : host'.fs = host.fs
  mode : host'.mode = host.mode
  closed : host'.closed = host.closed

private theorem SameFiles.isExecutableFile_eq (h : SameFiles host host')
    (habs : isAbsolute p = true) :
    isExecutableFile host' p = isExecutableFile host p := by
  have hlocate : host'.locate p = host.locate p := by
    unfold LauncherHost.locate LauncherHost.base
    rw [habs, h.fs, h.closed]
    rfl
  unfold isExecutableFile LauncherHost.metadata
  rw [hlocate, h.fs, h.mode]

private theorem SameFiles.resolveTrusted_eq (h : SameFiles host host') (program : Text) :
    resolveTrusted host' program = resolveTrusted host program := by
  unfold resolveTrusted
  cases program.contains '/' with
  | true =>
    simp only [if_true]
    cases habs : isAbsolute program with
    | true => rw [h.isExecutableFile_eq habs]
    | false => rfl
  | false =>
    have hdirs : ∀ p ∈ trustedBinDirs.map fun dir => UnixPath.push dir program,
        isExecutableFile host' p = isExecutableFile host p := by
      intro p hp
      obtain ⟨d, hd, rfl⟩ := List.mem_map.mp hp
      rw [push_trusted hd]
      exact h.isExecutableFile_eq (isAbsolute_trusted hd _)
    exact List.find?_congr hdirs

/-- What a program is resolved to is a plain name behind a trusted directory, to the letter, and
leads to an executable file; of a name alone it is the first such file in the order of the
directories. No other current directory or search path changes what anything is resolved to. -/
theorem resolveTrusted_trusted (hsame : SameFiles host host') (program : Text) :
    resolveTrusted host' program = resolveTrusted host program ∧
      ∀ p, resolveTrusted host program = some p →
        ∃ before d after name, trustedBinDirs = before ++ d :: after ∧ PlainName name ∧
          p = d ++ '/' :: name ∧ host.Executable p ∧
          ('/' ∉ program → name = program ∧
            ∀ d' ∈ before, ¬ host.Executable (d' ++ '/' :: name)) := by
  refine ⟨hsame.resolveTrusted_eq program, fun p h => ?_⟩
  by_cases hbare : '/' ∈ program
  · have hcontains : program.contains '/' = true := by simpa using hbare
    unfold resolveTrusted at h
    rw [hcontains, if_pos rfl, Option.ite_none_right_eq_some] at h
    obtain ⟨hchecks, hp⟩ := h
    cases hp
    simp only [Bool.and_eq_true] at hchecks
    obtain ⟨⟨⟨⟨habs, hraw⟩, hnormal⟩, hparent⟩, hexec⟩ := hchecks
    obtain ⟨d, hd, name, hname, hlit⟩ := resolveTrusted_absolute habs hraw hnormal hparent
    obtain ⟨before, after, hdirs⟩ := List.append_of_mem hd
    exact ⟨before, d, after, name, hdirs, hname, hlit, isExecutableFile_iff.mp hexec,
      fun hno => absurd hbare hno⟩
  · obtain ⟨before, d, after, hdirs, rfl, hexec, hbefore⟩ := resolveTrusted_bare hbare h
    have hd : d ∈ trustedBinDirs := by
      rw [hdirs]
      simp
    refine ⟨before, d, after, program, hdirs, plainName_of_executable hd hbare hexec, rfl,
      isExecutableFile_iff.mp hexec, fun _ => ⟨rfl, fun d' hd' hexec' => ?_⟩⟩
    rw [← isExecutableFile_iff, hbefore d' hd'] at hexec'
    cases hexec'

/-- A shell that is a link in a trusted directory, and a file of its name elsewhere. -/
def shellFiles : FileSystem :=
  .ofList [([], .dir), (["tmp"], .dir), (["tmp", "sh"], .file []), (["usr"], .dir),
    (["usr", "bin"], .dir), (["usr", "bin", "dash"], .file []),
    (["usr", "bin", "sh"], .link "dash")] (by decide +kernel) (by decide +kernel)

def shellHost (cwd : Location) (path : Text) : LauncherHost :=
  ⟨shellFiles, fun _ => 0o755, fun _ => false, cwd, path⟩

private theorem shellHost_same (cwd cwd' : Location) (path path' : Text) :
    SameFiles (shellHost cwd path) (shellHost cwd' path') := ⟨rfl, rfl, rfl⟩

theorem resolveTrusted_shell :
    resolveTrusted (shellHost ["tmp"] "/tmp") "sh" = resolveTrusted (shellHost [] "/bin") "sh" ∧
      ∃ before d after name, trustedBinDirs = before ++ d :: after ∧ PlainName name ∧
        "/usr/bin/sh" = d ++ '/' :: name ∧ (shellHost [] "/bin").Executable "/usr/bin/sh" ∧
        ('/' ∉ ("sh" : Text) → name = "sh" ∧
          ∀ d' ∈ before, ¬ (shellHost [] "/bin").Executable (d' ++ '/' :: name)) :=
  have h := resolveTrusted_trusted (shellHost_same [] ["tmp"] "/bin" "/tmp") "sh"
  ⟨h.1, h.2 _ (by decide +kernel)⟩

end Which

end Jitgen
