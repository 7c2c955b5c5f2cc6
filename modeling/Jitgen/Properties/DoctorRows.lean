import Jitgen.Properties.DoctorAgreement
import Jitgen.Properties.HumanContainment

/-!
# The rows of the environment report

A tool is asked for its version on the host, so what it writes is not trusted. It reaches one column
of one row.
-/

namespace Jitgen

open Text Doctor

section

variable {os : HostOs} {answers answers' : (o : DoctorOp) → DoctorAns o}
  {osName version stateRoot provider : Text} {n : Nat}

/-- What a tool's row shows before the version. -/
def rowLabel (t : ToolStatus) : Text :=
  ("  [" : Text) ++ (if t.available then "ok  " else "MISS" : Text) ++ "] " ++
    padTo 10 (sanitizeLine t.name toolFieldCap) ++ " "

def shownVersion (t : ToolStatus) : Text := sanitizeLine (t.version.getD "-") toolFieldCap

private theorem toolRow_eq (t : ToolStatus) : toolRow t = rowLabel t ++ shownVersion t := rfl

private theorem newline_notMem_toolRow (t : ToolStatus) : '\n' ∉ toolRow t := by
  have hmark : '\n' ∉ (if t.available then "ok  " else "MISS" : Text) := by
    cases t.available <;> decide
  have hname : '\n' ∉ padTo 10 (sanitizeLine t.name toolFieldCap) := by
    intro h
    rcases List.mem_append.mp h with h | h
    · exact newline_notMem_sanitizeLine _ _ h
    · exact absurd (List.eq_of_mem_replicate h) (by decide)
  have hversion : '\n' ∉ shownVersion t := newline_notMem_sanitizeLine _ _
  have hopen : '\n' ∉ ("  [" : Text) := by decide
  have hclose : '\n' ∉ ("] " : Text) := by decide
  have hblank : '\n' ∉ (" " : Text) := by decide
  rw [toolRow_eq, rowLabel]
  simp only [List.mem_append, not_or]
  exact ⟨⟨⟨⟨⟨hopen, hmark⟩, hclose⟩, hname⟩, hblank⟩, hversion⟩

private theorem splitOn_toolRows (ts : List ToolStatus) (rest : Text) :
    (ts.flatMap (fun t => toolRow t ++ ['\n']) ++ rest).splitOn '\n' =
      ts.map toolRow ++ rest.splitOn '\n' := by
  induction ts with
  | nil => rfl
  | cons t ts ih =>
    rw [List.flatMap_cons, List.append_assoc, List.append_assoc, List.singleton_append,
      List.splitOn_append_cons_self_of_not_mem (newline_notMem_toolRow t), ih]
    rfl

def headingLines (report : DoctorReport) : List Text := ((heading report).dropLast).splitOn '\n'

private theorem splitOn_renderHuman (report : DoctorReport) :
    (renderHuman report).splitOn '\n' =
      headingLines report ++ report.tools.map toolRow ++ (closing report).splitOn '\n' := by
  have hlast : ∀ a v b s c o d : Text, (a ++ v ++ b ++ s ++ c ++ o ++ (d ++ ['\n'])) =
      (a ++ v ++ b ++ s ++ c ++ o ++ (d ++ ['\n'])).dropLast ++ ['\n'] := by
    intro a v b s c o d
    rw [← List.append_assoc, List.dropLast_concat]
  have hheading : heading report = (heading report).dropLast ++ ['\n'] :=
    hlast "jitgen " _ " (data-contract v" _ ") — environment report\nOS: " _ "\n\nTools:"
  rw [renderHuman, List.append_assoc, hheading, List.append_assoc, List.singleton_append,
    List.splitOn_append_cons_self, splitOn_toolRows, headingLines, List.append_assoc]

/-- Hosts that answer alike up to the lines that the tools write. -/
def SameButVersions (answers answers' : (o : DoctorOp) → DoctorAns o) : Prop :=
  (∀ program args, (answers (.tool program args)).1 = (answers' (.tool program args)).1) ∧
    ∀ o, answers (.host o) = answers' (.host o)

private theorem eval_runTools (cs : List (Text × Text × List Text)) :
    (runTools cs).eval answers = cs.map fun c => ⟨c.1, (answers (.tool c.2.1 c.2.2)).1,
      if (answers (.tool c.2.1 c.2.2)).1 then (answers (.tool c.2.1 c.2.2)).2 else none⟩ := by
  induction cs with
  | nil => rfl
  | cons c cs ih =>
    rw [runTools, Prog.eval_do, Prog.eval_do, ih]
    rfl

private theorem toolAvailable_map (cs : List (Text × Text × List Text))
    (f : Text × Text × List Text → Bool) (g : Text × Text × List Text → Option Text) (name : Text) :
    toolAvailable (cs.map fun c => ⟨c.1, f c, g c⟩) name = cs.any fun c => c.1 == name && f c := by
  rw [toolAvailable, List.any_map]
  rfl

private theorem tools_reportOf : (reportOf os answers osName version n stateRoot provider).tools =
    (runTools toolCommands).eval answers := by
  rw [reportOf_eq]

/-- The report is what it is up to the tools' lines. -/
structure AlikeReports (r r' : DoctorReport) : Prop where
  rest : { r with tools := [] } = { r' with tools := [] }
  available : ∀ name, toolAvailable r.tools name = toolAvailable r'.tools name
  labels : r.tools.map rowLabel = r'.tools.map rowLabel

private theorem alike_reports (hsame : SameButVersions answers answers') :
    AlikeReports (reportOf os answers osName version n stateRoot provider)
      (reportOf os answers' osName version n stateRoot provider) := by
  obtain ⟨htool, hhost⟩ := hsame
  have hhosts : (fun o => answers (.host o)) = fun o => answers' (.host o) := funext hhost
  have havail : ∀ name, toolAvailable ((runTools toolCommands).eval answers) name =
      toolAvailable ((runTools toolCommands).eval answers') name := by
    intro name
    rw [eval_runTools, eval_runTools, toolAvailable_map, toolAvailable_map]
    simp only [htool]
  have hlabels : ((runTools toolCommands).eval answers).map rowLabel =
      ((runTools toolCommands).eval answers').map rowLabel := by
    rw [eval_runTools, eval_runTools, List.map_map, List.map_map]
    apply List.map_congr_left
    intro c _
    simp only [Function.comp, rowLabel, htool]
  have hlanguages : ∀ container, languagesOf ((runTools toolCommands).eval answers) container =
      languagesOf ((runTools toolCommands).eval answers') container := by
    intro container
    unfold languagesOf
    rw [funext havail]
  rw [reportOf_eq, reportOf_eq, hhosts]
  generalize (runTools toolCommands).eval answers = tools at *
  generalize (runTools toolCommands).eval answers' = tools' at *
  constructor
  · dsimp only
    rw [havail, havail, hlanguages]
  · exact havail
  · exact hlabels

private theorem AlikeReports.heading_eq {r r' : DoctorReport} (h : AlikeReports r r') :
    heading r = heading r' := by
  have hrest := h.rest
  rw [DoctorReport.mk.injEq] at hrest
  unfold heading
  rw [hrest.1, hrest.2.1, hrest.2.2.1]

private theorem AlikeReports.closing_eq {r r' : DoctorReport} (h : AlikeReports r r') :
    closing r = closing r' := by
  have hrest := h.rest
  have hgit : prerequisitesOk r = prerequisitesOk r' := h.available "git"
  rw [DoctorReport.mk.injEq] at hrest
  obtain ⟨-, -, -, -, hlanguages, htier, hnote, hruntime, -, hroot, hprovider⟩ := hrest
  unfold closing
  rw [hlanguages, htier, hnote, hruntime, hroot, hprovider, hgit]

private theorem utf8Len_sanitizeLine_le (s : Text) (max : Nat) :
    utf8Len (sanitizeLine s max) ≤ max := by
  have hflat : ∀ t : Text,
      utf8Len (t.map fun c => if c = '\n' ∨ c = '\t' then ' ' else c) = utf8Len t := by
    intro t
    induction t with
    | nil => rfl
    | cons c t ih =>
      rw [List.map_cons, utf8Len_cons, utf8Len_cons, ih]
      congr 1
      split_ifs with hline
      · rcases hline with rfl | rfl <;> decide
      · rfl
  rw [sanitizeLine, hflat]
  exact utf8Len_cap_le _ max

/-- What the tools write reaches their own column only: between hosts that differ in it, every other
line is the same and so is the start of every tool's row. -/
theorem doctor_rows (hsame : SameButVersions answers answers') :
    ∃ before labels after : List Text, labels.length = toolCommands.length ∧
      ∀ report ∈ [reportOf os answers osName version n stateRoot provider,
        reportOf os answers' osName version n stateRoot provider],
      (renderHuman report).splitOn '\n' =
          before ++ List.zipWith (· ++ ·) labels (report.tools.map shownVersion) ++ after ∧
        ∀ shown ∈ report.tools.map shownVersion, utf8Len shown ≤ toolFieldCap ∧
          ∀ c ∈ shown, Human.isPlain c = true ∨ c = Human.arabicLetterMark := by
  have halike : AlikeReports (reportOf os answers osName version n stateRoot provider)
      (reportOf os answers' osName version n stateRoot provider) := alike_reports hsame
  generalize hr : reportOf os answers osName version n stateRoot provider = r at halike
  generalize hr' : reportOf os answers' osName version n stateRoot provider = r' at halike
  have hlength : (r.tools.map rowLabel).length = toolCommands.length := by
    rw [← hr, tools_reportOf, eval_runTools, List.length_map, List.length_map]
  refine ⟨headingLines r, r.tools.map rowLabel, (closing r).splitOn '\n', hlength, ?_⟩
  intro report hreport
  have hreport' : headingLines report = headingLines r ∧
      report.tools.map rowLabel = r.tools.map rowLabel ∧ closing report = closing r := by
    simp only [List.mem_cons, List.not_mem_nil, or_false] at hreport
    rcases hreport with rfl | rfl
    · exact ⟨rfl, rfl, rfl⟩
    · exact ⟨by rw [headingLines, headingLines, halike.heading_eq], halike.labels.symm,
        halike.closing_eq.symm⟩
  obtain ⟨hheading, hlabels, hclosing⟩ := hreport'
  constructor
  · rw [splitOn_renderHuman, hheading, hclosing, ← hlabels, List.zipWith_map, List.zipWith_self]
    rfl
  · intro shown hshown
    obtain ⟨t, -, rfl⟩ := List.mem_map.mp hshown
    exact ⟨utf8Len_sanitizeLine_le _ _, fun c hc => Human.of_mem_sanitizeLine hc⟩

end

def forgedAnswers : (o : DoctorOp) → DoctorAns o
  | .tool _ _ => (true, some "1.0\n  [ok  ] git")
  | .host o => helperAnswers o

def plainAnswers : (o : DoctorOp) → DoctorAns o
  | .tool _ _ => (true, some "1.0")
  | .host o => helperAnswers o

theorem forged_rows :
    ((renderHuman (reportOf .linux forgedAnswers [] [] 1 [] [])).splitOn '\n').length =
      ((renderHuman (reportOf .linux plainAnswers [] [] 1 [] [])).splitOn '\n').length := by
  obtain ⟨_, _, _, _, hrows⟩ := @doctor_rows .linux forgedAnswers plainAnswers [] [] [] [] 1
    ⟨fun _ _ => rfl, fun _ => rfl⟩
  rw [(hrows _ List.mem_cons_self).1,
    (hrows _ (List.mem_cons_of_mem _ List.mem_cons_self)).1]
  simp [tools_reportOf, eval_runTools]

end Jitgen
