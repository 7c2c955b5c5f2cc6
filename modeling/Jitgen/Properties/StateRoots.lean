import Jitgen.Framework.PathJoin
import Jitgen.Gitintake.Visible
import Jitgen.Orchestrator.StateRoot

/-!
# Where a run is found again

A run makes its state directory absolute by its text, and to resume or to report takes a directory as
it is given. The two come to one place, unless the directory was named by the configuration file.
-/

namespace Jitgen

open Text FileTree

theorem names_pieces (path : Text) :
    names (pieces path) = (path.splitOn '/').filter fun s => !s.isEmpty && s ≠ here := by
  have hnames : names ((path.splitOn '/').filter (!·.isEmpty)) =
      (path.splitOn '/').filter fun s => !s.isEmpty && s ≠ here := by
    rw [names, List.filter_filter]
    exact List.filter_congr fun s _ => Bool.and_comm _ _
  unfold pieces
  dsimp only
  split
  · rw [names_append, hnames]
    exact List.append_nil _
  · exact hnames

private theorem names_pieces_slash (path : Text) :
    names (pieces ('/' :: path)) = names (pieces path) := by
  have hsplit : ('/' :: path).splitOn '/' = [] :: path.splitOn '/' :=
    List.splitOn_append_cons_self [] path
  rw [names_pieces, names_pieces, hsplit]
  rfl

private theorem names_pieces_slashed (path : Text) :
    names (pieces (path ++ ['/'])) = names (pieces path) := by
  have hsplit : (path ++ ['/']).splitOn '/' = path.splitOn '/' ++ [[]] :=
    List.splitOn_append_cons_self path []
  rw [names_pieces, names_pieces, hsplit, List.filter_append]
  exact List.append_nil _

/-- A name that a path can lead on by. -/
def Leads (s : Text) : Prop := s ≠ [] ∧ s ≠ here ∧ '/' ∉ s

private theorem leads_names {path s : Text} (h : s ∈ names (pieces path)) : Leads s := by
  rw [names_pieces, List.mem_filter] at h
  obtain ⟨hmem, hkept⟩ := h
  simp only [Bool.and_eq_true, Bool.not_eq_true', List.isEmpty_eq_false_iff, decide_eq_true_eq]
    at hkept
  exact ⟨hkept.1, hkept.2, UnixPath.notMem_of_mem_splitOn hmem⟩

private theorem names_pieces_join {ns : List Text} (h : ∀ s ∈ ns, Leads s) :
    names (pieces (join "/" ns)) = ns := by
  cases ns with
  | nil => rfl
  | cons n ns =>
    have hsplit : (join "/" (n :: ns)).splitOn '/' = n :: ns :=
      List.splitOn_intercalate '/' (fun s hs => (h s hs).2.2) (List.cons_ne_nil n ns)
    rw [names_pieces, hsplit]
    apply List.filter_eq_self.mpr
    intro s hs
    have hlead := h s hs
    simp [hlead.1, hlead.2.1]

namespace AbsPath

/-- The place that a path names, by its text. -/
def place (cwd : Location) (path : Text) : Option (List Text) := (absolute cwd path).map names

private theorem display_some {cwd : Location} {path : Text} {p : AbsPath}
    (h : absolute cwd path = some p) :
    ∃ lead tail : Text, (lead = ['/'] ∨ lead = ['/', '/']) ∧ (tail = [] ∨ tail = ['/']) ∧
      display cwd path = lead ++ join "/" p.names ++ tail := by
  unfold display
  rw [h]
  dsimp only
  refine ⟨_, _, ?_, ?_, rfl⟩
  · split_ifs
    · exact .inr rfl
    · exact .inl rfl
  · split_ifs
    · exact .inr rfl
    · exact .inl rfl

private theorem isAbsolute_display {cwd : Location} {path : Text} {p : AbsPath}
    (h : absolute cwd path = some p) : UnixPath.isAbsolute (display cwd path) = true := by
  obtain ⟨lead, tail, hlead, -, hdisplay⟩ := display_some h
  rw [hdisplay]
  rcases hlead with rfl | rfl <;> rfl

/-- To make a path absolute does not move it. -/
private theorem place_display {cwd : Location} (hcwd : ∀ n ∈ cwd, Leads n) (path : Text) :
    place cwd (display cwd path) = place cwd path := by
  cases h : absolute cwd path with
  | none =>
    unfold display
    rw [h]
  | some p =>
    have hp : path.isEmpty = false ∧ p.names =
        (if UnixPath.isAbsolute path then [] else cwd) ++ FileTree.names (FileTree.pieces path) := by
      unfold absolute at h
      split at h
      · cases h
      · rename_i hne
        cases h
        exact ⟨by simpa using hne, rfl⟩
    have hleads : ∀ s ∈ p.names, Leads s := by
      rw [hp.2]
      intro s hs
      rcases List.mem_append.mp hs with hs | hs
      · split at hs
        · cases hs
        · exact hcwd s hs
      · exact leads_names hs
    have habs := isAbsolute_display h
    obtain ⟨lead, tail, hlead, htail, hdisplay⟩ := display_some h
    have hnames : FileTree.names (FileTree.pieces (display cwd path)) = p.names := by
      have hjoin : ∀ tail : Text, (tail = [] ∨ tail = ['/']) →
          FileTree.names (FileTree.pieces (join "/" p.names ++ tail)) = p.names := by
        intro tail htail
        rcases htail with rfl | rfl
        · rw [List.append_nil]
          exact names_pieces_join hleads
        · rw [names_pieces_slashed]
          exact names_pieces_join hleads
      rw [hdisplay, List.append_assoc]
      rcases hlead with rfl | rfl
      · exact (names_pieces_slash _).trans (hjoin tail htail)
      · exact (names_pieces_slash _).trans ((names_pieces_slash _).trans (hjoin tail htail))
    have hne : (display cwd path).isEmpty = false := by
      rw [hdisplay]
      rcases hlead with rfl | rfl <;> rfl
    unfold place
    rw [h]
    unfold absolute
    rw [if_neg (by simp [hne])]
    simp [habs, hnames]

end AbsPath

private theorem nonEmpty_eq_some {o : Option Text} {d : Text} :
    nonEmpty o = some d ↔ o = some d ∧ d.isEmpty = false := by
  unfold nonEmpty
  rw [Option.filter_eq_some_iff]
  simp

private theorem stateDir_overrideEnv {α : Type} {env : Text → Option Text} {var : Text}
    {parse : Text → Option α} {set : TrustedConfig → α → TrustedConfig} {cfg cfg' : TrustedConfig}
    (h : overrideEnv env var parse set cfg = .ok cfg')
    (hset : ∀ c a, (set c a).stateDir = c.stateDir) : cfg'.stateDir = cfg.stateDir := by
  unfold overrideEnv at h
  split at h
  · cases h
    rfl
  · split at h
    · cases h
      exact hset _ _
    · cases h

private theorem stateDir_applyEnv {env : Text → Option Text} {cfg cfg' : TrustedConfig}
    (h : applyEnv cfg env = .ok cfg') :
    cfg'.stateDir = (nonEmpty (env "JITGEN_STATE_DIR")).or cfg.stateDir := by
  unfold applyEnv at h
  simp only [bind_eq_ok] at h
  obtain ⟨c₁, h₁, c₂, h₂, c₃, h₃, c₄, h₄, c₅, h₅, c₆, h₆, c₇, h₇, h⟩ := h
  cases h
  have hkept : c₇.stateDir = cfg.stateDir := by
    rw [stateDir_overrideEnv h₇ fun _ _ => rfl, stateDir_overrideEnv h₆ fun _ _ => rfl,
      stateDir_overrideEnv h₅ fun _ _ => rfl, stateDir_overrideEnv h₄ fun _ _ => rfl,
      stateDir_overrideEnv h₃ fun _ _ => rfl, stateDir_overrideEnv h₂ fun _ _ => rfl,
      stateDir_overrideEnv h₁ fun _ _ => rfl]
  show (nonEmpty (env "JITGEN_STATE_DIR")).or c₇.stateDir = _
  rw [hkept]

private theorem stateDir_resolveTrusted {env : Text → Option Text} {base trusted : TrustedConfig}
    {flags : TrustedFlags} (h : resolveTrusted base env flags = .ok trusted) :
    trusted.stateDir =
      (nonEmpty flags.stateDir).or ((nonEmpty (env "JITGEN_STATE_DIR")).or base.stateDir) := by
  unfold resolveTrusted at h
  obtain ⟨cfg, hcfg, h⟩ := bind_eq_ok.mp h
  cases h
  show (nonEmpty flags.stateDir).or cfg.stateDir = _
  rw [stateDir_applyEnv hcfg]

namespace Surroundings

open AbsPath

variable (s : Surroundings)

private theorem isAbsolute_fallbackStateRoot : UnixPath.isAbsolute s.fallbackStateRoot = true := by
  unfold fallbackStateRoot
  dsimp only
  split
  · assumption
  · rfl

private theorem isAbsolute_defaultStateRoot : UnixPath.isAbsolute s.defaultStateRoot = true := by
  unfold defaultStateRoot absolutize
  cases h : absolute s.cwd s.stateRootCandidate with
  | none => exact s.isAbsolute_fallbackStateRoot
  | some p => exact isAbsolute_display h

private theorem absolute_of_nonEmpty {dir : Text} (h : dir.isEmpty = false) :
    ∃ p, absolute s.cwd dir = some p := by
  unfold absolute
  rw [if_neg (by simp [h])]
  exact ⟨_, rfl⟩

private theorem defaultStateRoot_of_variable {dir : Text}
    (h : s.variableOf "JITGEN_STATE_DIR" = some dir) :
    s.defaultStateRoot = display s.cwd dir := by
  obtain ⟨p, hp⟩ := s.absolute_of_nonEmpty (nonEmpty_eq_some.mp h).2
  have hcandidate : s.stateRootCandidate = dir := by
    unfold stateRootCandidate
    rw [h]
  unfold defaultStateRoot absolutize
  rw [hcandidate, hp]

variable {s} {trusted : TrustedConfig} {dir : Text}

private theorem resolveStateRoot_some (h : trusted.stateDir = some dir)
    (hne : dir.isEmpty = false) :
    s.resolveStateRoot trusted = display s.cwd dir := by
  unfold resolveStateRoot
  rw [nonEmpty_eq_some.mpr ⟨h, hne⟩]

private theorem resolveStateRoot_none (h : nonEmpty trusted.stateDir = none) :
    s.resolveStateRoot trusted = s.defaultStateRoot := by
  unfold resolveStateRoot
  rw [h]

private theorem isAbsolute_resolveStateRoot :
    UnixPath.isAbsolute (s.resolveStateRoot trusted) = true := by
  cases h : nonEmpty trusted.stateDir with
  | none =>
    rw [resolveStateRoot_none h]
    exact s.isAbsolute_defaultStateRoot
  | some dir =>
    obtain ⟨hdir, hne⟩ := nonEmpty_eq_some.mp h
    obtain ⟨p, hp⟩ := s.absolute_of_nonEmpty hne
    rw [resolveStateRoot_some hdir hne]
    exact isAbsolute_display hp

/-- Where a run keeps its state, and when it is found again by the same option and environment. -/
theorem stateRoots_agree (hcwd : ∀ n ∈ s.cwd, Leads n) {base : TrustedConfig} {flags : TrustedFlags}
    (h : resolveTrusted base (envLookup s.env) flags = .ok trusted) :
    UnixPath.isAbsolute (s.resolveStateRoot trusted) = true ∧
      (place s.cwd (s.stateRootFor flags.stateDir) = place s.cwd (s.resolveStateRoot trusted) ↔
        (∃ d, nonEmpty flags.stateDir = some d) ∨ (∃ d, s.variableOf "JITGEN_STATE_DIR" = some d) ∨
          ∀ d, nonEmpty base.stateDir = some d → place s.cwd s.defaultStateRoot = place s.cwd d) := by
  refine ⟨isAbsolute_resolveStateRoot, ?_⟩
  have hdir := stateDir_resolveTrusted h
  have hfor : s.stateRootFor flags.stateDir = (nonEmpty flags.stateDir).getD s.defaultStateRoot := by
    unfold stateRootFor
    cases nonEmpty flags.stateDir <;> rfl
  cases hflag : nonEmpty flags.stateDir with
  | some d =>
    rw [hflag] at hdir hfor
    rw [resolveStateRoot_some hdir (nonEmpty_eq_some.mp hflag).2, place_display hcwd, hfor]
    exact iff_of_true rfl (.inl ⟨d, rfl⟩)
  | none =>
    rw [hflag] at hdir hfor
    rw [hfor]
    show place s.cwd s.defaultStateRoot = _ ↔ _
    cases hvar : s.variableOf "JITGEN_STATE_DIR" with
    | some d =>
      have hstate : trusted.stateDir = some d := by
        rw [hdir, show nonEmpty (envLookup s.env "JITGEN_STATE_DIR") = some d from hvar]
        rfl
      rw [resolveStateRoot_some hstate (nonEmpty_eq_some.mp hvar).2,
        s.defaultStateRoot_of_variable hvar]
      exact iff_of_true rfl (.inr (.inl ⟨d, rfl⟩))
    | none =>
      have hstate : trusted.stateDir = base.stateDir := by
        rw [hdir, show nonEmpty (envLookup s.env "JITGEN_STATE_DIR") = none from hvar]
        rfl
      cases hbase : nonEmpty base.stateDir with
      | none =>
        rw [resolveStateRoot_none (hstate ▸ hbase)]
        exact iff_of_true rfl (.inr (.inr fun d hd => by cases hd))
      | some d =>
        obtain ⟨hd, hne⟩ := nonEmpty_eq_some.mp hbase
        rw [resolveStateRoot_some (hstate.trans hd) hne, place_display hcwd]
        simp

end Surroundings

def filedConfig : TrustedConfig := { TrustedConfig.default with stateDir := some "/srv/state" }

/-- Such a run is not found without the option. -/
theorem filed_not_found :
    AbsPath.place ["w"] (bareSurroundings.stateRootFor none) ≠
      AbsPath.place ["w"] (bareSurroundings.resolveStateRoot filedConfig) := by
  have hcwd : ∀ n ∈ bareSurroundings.cwd, Leads n := by
    intro n hn
    rw [List.mem_singleton.mp hn]
    exact ⟨by decide, by decide, by decide⟩
  have hagree := (@Surroundings.stateRoots_agree bareSurroundings filedConfig hcwd filedConfig .none
    rfl).2
  intro heq
  rcases hagree.mp heq with ⟨d, hd⟩ | ⟨d, hd⟩ | hplace
  · cases hd
  · cases hd
  · have hsame := hplace "/srv/state" rfl
    exact absurd hsame (by decide +kernel)

end Jitgen
