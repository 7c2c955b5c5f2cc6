import Jitgen.Properties.ExitCodes
import Jitgen.Properties.HumanContainment
import Jitgen.Properties.PlanCoverage

/-!
# What a command says

Whatever a repository, a variable or a library puts in a message, a line of the error stream is one
line without control characters. Only a run ends with more than success or failure, or writes outside
the state root.
-/

namespace Jitgen.Cli

open Human Text

/-- A line that a terminal shows as it is, up to the one mark that is kept. -/
def PlainLine (line : Text) : Prop := ∀ c ∈ line, isPlain c = true ∨ c = arabicLetterMark

/-- Whole lines, all of them plain. -/
def PlainRows (text : Text) : Prop :=
  ∃ rows : List Text, text = unlines rows ∧ ∀ row ∈ rows, PlainLine row

private theorem plainLine_append {s t : Text} : PlainLine (s ++ t) ↔ PlainLine s ∧ PlainLine t :=
  List.forall_mem_append

theorem PlainLine.append {s t : Text} (hs : PlainLine s) (ht : PlainLine t) : PlainLine (s ++ t) :=
  plainLine_append.mpr ⟨hs, ht⟩

private theorem plainLine_of_all {s : Text} (h : s.all isPlain = true) : PlainLine s := fun c hc =>
  .inl (List.all_eq_true.mp h c hc)

theorem PlainLine.literal {cs : List Char} (h : cs.all isPlain = true) :
    PlainLine (String.ofList cs).toList := by
  rw [String.toList_ofList]
  exact plainLine_of_all h

private theorem plainLine_safeForTerminal (msg : Text) (max : Nat) :
    PlainLine (safeForTerminal msg max) :=
  fun _ hc => of_mem_sanitizeLine hc

private theorem plainLine_ofNat (n : Nat) :
    PlainLine (ofNat n) := plainLine_of_all (all_isPlain_ofNat n)

private theorem plainLine_toFixed2 (a : Binary64) : PlainLine a.toFixed2 :=
  plainLine_of_all (all_isPlain_toFixed2 a)

private theorem plainRows_append {s t : Text} (hs : PlainRows s) (ht : PlainRows t) :
    PlainRows (s ++ t) := by
  obtain ⟨rows, rfl, hrows⟩ := hs
  obtain ⟨rows', rfl, hrows'⟩ := ht
  exact ⟨rows ++ rows', List.flatMap_append.symm, List.forall_mem_append.mpr ⟨hrows, hrows'⟩⟩

private theorem plainRows_flatten {texts : List Text} (h : ∀ text ∈ texts, PlainRows text) :
    PlainRows texts.flatten := by
  induction texts with
  | nil => exact ⟨[], rfl, fun _ hrow => absurd hrow List.not_mem_nil⟩
  | cons text texts ih =>
    obtain ⟨htext, hrest⟩ := List.forall_mem_cons.mp h
    exact plainRows_append htext (ih hrest)

private theorem plainLine_hintText (resumeLike : Bool) (topic : HintTopic) :
    PlainLine (hintText resumeLike topic) := by
  cases topic with
  | providerConfig | providerCall | baseline =>
    refine .append (.append (.literal ?_) (.literal ?_)) (.literal ?_) <;> rfl
  | checkoutCap =>
    refine .append (.append (.append (.literal ?_) (.literal ?_)) (.literal ?_)) (.literal ?_) <;>
      rfl
  | runNotFound | outsideRepo | revision | repoPath | boundary | commitsGone =>
    refine .append (.literal ?_) (.literal ?_) <;> rfl
  | runNotCompleted | unknown =>
    refine .literal ?_
    rfl
  | noSandbox =>
    cases resumeLike with
    | true => refine .append (.append (.literal ?_) (.literal ?_)) (.literal ?_) <;> rfl
    | false => refine .append (.literal ?_) (.literal ?_) <;> rfl
  | digestPinned =>
    cases resumeLike with
    | true => refine .append (.literal ?_) (.literal ?_) <;> rfl
    | false =>
      refine .literal ?_
      rfl

private theorem plainLine_hintEnd (topic : HintTopic) : PlainLine (hintEnd topic) := by
  cases topic <;>
  · refine .literal ?_
    rfl

private theorem plainLine_troubleshootingUrl : PlainLine troubleshootingUrl := by
  refine .literal ?_
  rfl

private theorem plainLine_userGuideUrl : PlainLine userGuideUrl := by
  refine .literal ?_
  rfl

private theorem plainLine_userHint (msg : Text) : PlainLine (userHint msg) := by
  have harrow : PlainLine ("→ " : Text) := .literal rfl
  exact ((harrow.append (plainLine_hintText _ _)).append plainLine_troubleshootingUrl).append
    (plainLine_hintEnd _)

private theorem plainLine_mockEmptyRunHint {wasMock isHarden produced : Bool} {line : Text}
    (h : mockEmptyRunHint wasMock isHarden produced = some line) : PlainLine line := by
  unfold mockEmptyRunHint at h
  split at h
  · cases h
  · rw [← Option.some.inj h]
    refine .append (.append (.append (.append (.append (.literal ?_) (.literal ?_)) (.literal ?_))
      (.literal ?_)) plainLine_userGuideUrl) (.literal ?_) <;> rfl

private theorem plainLine_gateModifiersNote {failOnCatch warnOnly hasBaseline : Bool} {line : Text}
    (h : gateModifiersWithoutMasterNote failOnCatch warnOnly hasBaseline = some line) :
    PlainLine line := by
  unfold gateModifiersWithoutMasterNote at h
  split at h
  · cases h
  · rw [← Option.some.inj h]
    refine .append (.append (.append (.literal ?_) (.literal ?_)) plainLine_userGuideUrl)
      (.literal ?_) <;> rfl

private theorem plainLine_findingLine (f : GatingFinding) : PlainLine (findingLine f) := by
  have hlabel : PlainLine ("  - tp=" : Text) := .literal rfl
  have hgap : PlainLine ("  " : Text) := .literal rfl
  exact ((hlabel.append (plainLine_toFixed2 _)).append hgap).append (plainLine_safeForTerminal _ _)

private theorem plainLine_suppressionLine : PlainLine suppressionLine := by
  refine .append (.append (.append (.literal ?_) (.literal ?_)) plainLine_troubleshootingUrl)
    (.literal ?_) <;> rfl

private theorem plainLine_gateSummary (verdict : GateVerdict) (threshold : Binary64) :
    ∀ line ∈ gateSummary verdict threshold, PlainLine line := by
  have hrows : ∀ fs : List GatingFinding, ∀ line ∈ fs.map findingLine, PlainLine line := by
    intro fs line hline
    obtain ⟨f, -, rfl⟩ := List.mem_map.mp hline
    exact plainLine_findingLine f
  have hheading : ∀ (label : Text) (n : Nat), PlainLine label →
      PlainLine (("jitgen: " : Text) ++ label ++ ": " ++ ofNat n ++
        " strong catch(es) at or above tp-probability " ++ threshold.toFixed2 ++
        ", not baselined:") := by
    intro label n hlabel
    refine .append (.append (.append (.append (.append (.append (.literal ?_) hlabel) (.literal ?_))
      (plainLine_ofNat n)) (.literal ?_)) (plainLine_toFixed2 _)) (.literal ?_) <;> rfl
  cases verdict with
  | disabled => exact fun line hline => absurd hline List.not_mem_nil
  | pass => exact fun line hline => absurd hline List.not_mem_nil
  | advisory fs =>
    exact List.forall_mem_cons.mpr ⟨hheading _ _ (.literal rfl), hrows fs⟩
  | triggered fs =>
    have hlines := List.forall_mem_cons.mpr ⟨hheading "findings gate tripped" fs.length
      (.literal rfl), hrows fs⟩
    exact List.forall_mem_append.mpr
      ⟨hlines, List.forall_mem_singleton.mpr plainLine_suppressionLine⟩

private theorem plainLine_closingLines (a : RunArgs) (provider : ProviderConfig)
    (report : RunReport) (verdict : GateVerdict) :
    ∀ line ∈ closingLines a provider report verdict, PlainLine line := by
  intro line hline
  rcases List.mem_append.mp hline with hline | hline
  · rcases List.mem_append.mp hline with hline | hline
    · exact plainLine_mockEmptyRunHint (Option.mem_toList.mp hline)
    · exact plainLine_gateModifiersNote (Option.mem_toList.mp hline)
  · exact plainLine_gateSummary _ _ line hline

private theorem plainRows_landedLines (written : List Text) :
    PlainRows (unlines (landedLines written)) := by
  refine ⟨_, rfl, List.forall_mem_cons.mpr ⟨?_, fun row hrow => ?_⟩⟩
  · refine .append (.append (.literal ?_) (plainLine_ofNat _)) (.literal ?_) <;> rfl
  · obtain ⟨path, -, rfl⟩ := List.mem_map.mp hrow
    exact .append (.literal rfl) (plainLine_safeForTerminal _ _)

private theorem plainRows_patchLine (out : Text) : PlainRows (unlines [patchLine out]) :=
  ⟨_, rfl, List.forall_mem_singleton.mpr
    (.append (.literal rfl) (plainLine_safeForTerminal _ _))⟩

private theorem plainLine_strictVerdict (report : DoctorReport) (req : StrictRequirements)
    (ready : Bool) :
    (∀ note ∈ (Doctor.strictVerdict report req ready).notes, PlainLine note) ∧
      ∀ failure ∈ (Doctor.strictVerdict report req ready).failures, PlainLine failure := by
  have hnone : ∀ line ∈ ([] : List Text), PlainLine line := fun _ hline =>
    absurd hline List.not_mem_nil
  have hweak : PlainLine Doctor.weakTierNote := by
    refine .append (.append (.append (.append (.literal ?_) (.literal ?_)) (.literal ?_))
      (.literal ?_)) (.literal ?_) <;> rfl
  have hupgrade : PlainLine Doctor.netnsUpgradeNote := by
    refine .append (.append (.append (.literal ?_) (.literal ?_)) (.literal ?_)) (.literal ?_) <;>
      rfl
  have hsandbox : PlainLine Doctor.noSandboxFailure := by
    refine .append (.append (.append (.literal ?_) (.literal ?_)) (.literal ?_)) (.literal ?_) <;>
      rfl
  have hllm : PlainLine Doctor.noRealLlmFailure := by
    refine .append (.append (.literal ?_) (.literal ?_)) (.literal ?_) <;> rfl
  have hverdict : (∀ note ∈ (Doctor.sandboxVerdict report req).notes, PlainLine note) ∧
      ∀ failure ∈ (Doctor.sandboxVerdict report req).failures, PlainLine failure := by
    unfold Doctor.sandboxVerdict
    split_ifs
    · exact ⟨hnone, hnone⟩
    · exact ⟨hnone, hnone⟩
    · exact ⟨List.forall_mem_singleton.mpr (hweak.append hupgrade), hnone⟩
    · exact ⟨List.forall_mem_singleton.mpr hweak, hnone⟩
    · exact ⟨hnone, List.forall_mem_singleton.mpr hsandbox⟩
  unfold Doctor.strictVerdict
  dsimp only
  split_ifs
  · exact ⟨hverdict.1, List.forall_mem_append.mpr
      ⟨hverdict.2, List.forall_mem_singleton.mpr hllm⟩⟩
  · exact hverdict

/-- A line that a call says is plain. -/
def SaysPlain (e : Event CliAns) : Prop := ∀ line, saidBy e = some line → PlainLine line

/-- What a call prints is whole plain lines. -/
def PrintsRows (e : Event CliAns) : Prop := ∀ text, printedBy e = some text → PlainRows text

section

variable {t : Trace CliAns}

private theorem stderr_plain (h : ∀ e ∈ t, SaysPlain e) : ∀ line ∈ stderr t, PlainLine line := by
  intro line hline
  obtain ⟨e, he, hsaid⟩ := List.mem_filterMap.mp hline
  exact h e he line hsaid

private theorem stdout_rows (h : ∀ e ∈ t, PrintsRows e) : PlainRows (stdout t) := by
  apply plainRows_flatten
  intro text htext
  obtain ⟨e, he, hprinted⟩ := List.mem_filterMap.mp htext
  exact h e he text hprinted

private theorem saysPlain_sayEvents {lines : List Text} (h : ∀ line ∈ lines, PlainLine line) :
    ∀ e ∈ sayEvents lines, SaysPlain e := by
  intro e he line hline
  obtain ⟨line', hmem, rfl⟩ := List.mem_map.mp he
  cases hline
  exact h _ hmem

theorem exists_part {α : Type} {part : CliPart Refusal α} {exit : α → ExitCode} {code : Nat}
    (h : (finish part exit).Runs t code) : ∃ t₁ r lines, part.Runs t₁ r ∧
      t = t₁ ++ sayEvents lines ∧ ∀ line ∈ lines, PlainLine line := by
  have herror : ∀ msg, PlainLine (safeForTerminal msg errorMsgCap) := fun msg =>
    plainLine_safeForTerminal msg _
  rcases runs_finish.mp h with ⟨a, hr, -⟩ | ⟨msg, t₁, rfl, hr, -⟩ | ⟨msg, t₁, rfl, hr, -⟩
  · exact ⟨t, .ok a, [], hr, (List.append_nil t).symm, fun _ hline => absurd hline List.not_mem_nil⟩
  · exact ⟨t₁, _, _, hr, rfl, List.forall_mem_cons.mpr
      ⟨herror msg, List.forall_mem_singleton.mpr (plainLine_userHint msg)⟩⟩
  · exact ⟨t₁, _, _, hr, rfl, List.forall_mem_singleton.mpr (herror msg)⟩

section

variable {α : Type} {part : CliPart Refusal α} {exit : α → ExitCode} {code : Nat}

private theorem plain_finish (hpart : Fallible.Calls SaysPlain part)
    (h : (finish part exit).Runs t code) :
    ∀ line ∈ stderr t, PlainLine line := by
  obtain ⟨t₁, r, lines, hr, rfl, hlines⟩ := exists_part h
  apply stderr_plain
  exact List.forall_mem_append.mpr ⟨hpart _ _ hr, saysPlain_sayEvents hlines⟩

private theorem writings_finish (hpart : ∀ t₁ r, part.Runs t₁ r → writings t₁ = [])
    (h : (finish part exit).Runs t code) : writings t = [] := by
  obtain ⟨t₁, r, lines, hr, rfl, -⟩ := exists_part h
  rw [writings_append, hpart _ _ hr, writings_of_kinds (kinds_sayEvents lines) (by decide)]
  rfl

private theorem rows_finish (hpart : Fallible.Calls PrintsRows part)
    (h : (finish part exit).Runs t code) :
    PlainRows (stdout t) := by
  obtain ⟨t₁, r, lines, hr, rfl, -⟩ := exists_part h
  rw [stdout_append, stdout_of_kinds (kinds_sayEvents lines) (by decide), List.append_nil]
  exact stdout_rows (hpart _ _ hr)

end

end

section

variable {t : Trace CliAns}

private theorem saysPlain_of_kinds {ks : List CallKind} (h : Kinds ks t) (hk : .saying ∉ ks) :
    ∀ e ∈ t, SaysPlain e := by
  intro e he line hline
  have hmem : line ∈ stderr t := List.mem_filterMap.mpr ⟨e, he, hline⟩
  rw [stderr_of_kinds h hk] at hmem
  cases hmem

private theorem saysPlain_of_kind {e : Event CliAns} (h : e.1.kind ≠ .saying) : SaysPlain e := by
  have hkinds : Kinds [e.1.kind] [e] := kinds_singleton.mpr (List.mem_singleton.mpr rfl)
  exact saysPlain_of_kinds hkinds (by simpa using h.symm) e (List.mem_singleton.mpr rfl)

private theorem printsRows_of_kinds {ks : List CallKind} (h : Kinds ks t) (hk : .printing ∉ ks) :
    ∀ e ∈ t, PrintsRows e := by
  intro e he text htext
  have hnone : t.filterMap printedBy = [] :=
    filterMap_of_kinds (by rintro ⟨o, x⟩ he; cases o <;> first | rfl | exact absurd rfl he) h hk
  have hmem : text ∈ t.filterMap printedBy := List.mem_filterMap.mpr ⟨e, he, htext⟩
  rw [hnone] at hmem
  cases hmem

private theorem kinds_resolveFor {s : Surroundings} {command repo : Text} {configFile : Option Text}
    {flags : TrustedFlags} : Fallible.Calls (fun e => e.1.kind ∈ [CallKind.config])
      (resolveFor s command configFile repo flags) := by
  apply Fallible.calls_bind
  · apply Fallible.calls_mapError
    intro t r hr
    exact kinds_loadBase hr
  · intro t base _
    exact Fallible.calls_ofExcept _

/-- An error that is no misuse. -/
def IsFailure (e : Refusal) : Prop := ∃ msg, e = .failed msg

private theorem throws_resolveFor {s : Surroundings} {command repo : Text}
    {configFile : Option Text} {flags : TrustedFlags} :
    Fallible.Throws IsFailure (resolveFor s command configFile repo flags) := by
  apply Fallible.throws_bind
  · intro t e hr
    obtain ⟨r', -, hr'⟩ := Fallible.runs_mapError.mp hr
    obtain ⟨e', -, rfl⟩ := mapError_eq_error.mp hr'.symm
    exact ⟨_, rfl⟩
  · intro base
    apply Fallible.throws_ofExcept
    intro e he
    obtain ⟨e', -, rfl⟩ := mapError_eq_error.mp he
    exact ⟨_, rfl⟩

private theorem throws_jsonOutput {failure : Text} {r : Except Text Text} {e : Refusal}
    (h : jsonOutput failure r = .error e) : IsFailure e := by
  cases r with
  | ok s => cases h
  | error msg =>
    cases h
    exact ⟨_, rfl⟩

/-- The kinds of calls that compute what a command prints. -/
def querying : List CallKind := [.config, .opening, .driving]

/-- Printing a result is the result and nothing else, or the error and its hint. -/
private theorem runs_query {part : CliPart Refusal Text} {Fault : Trace CliAns → Text → Prop}
    {code : Nat} (hkinds : Fallible.Calls (fun e => e.1.kind ∈ querying) part)
    (hfails : ∀ t e, part.Runs t (.error e) → ∃ msg, e = .failed msg ∧ Fault t msg)
    (h : (printed part).Runs t code) :
    ∃ t₁, Kinds querying t₁ ∧
      ((∃ output, part.Returns t₁ output ∧ t = t₁ ++ [⟨.print output, ()⟩] ∧ code = 0) ∨
        ∃ msg, Fault t₁ msg ∧ code = 1 ∧
          t = t₁ ++ sayEvents [safeForTerminal msg errorMsgCap, userHint msg]) := by
  have hpart : ∀ {t' e}, (do let output ← part; Fallible.lift (print output) :
      CliPart Refusal Unit).Runs t' (.error e) → part.Runs t' (.error e) := by
    intro t' e hr
    rcases Fallible.runs_bind.mp hr with ⟨e', he, h₁⟩ | ⟨_, _, _, -, -, h₂⟩
    · cases he
      exact h₁
    · obtain ⟨_, he, -⟩ := Fallible.runs_lift.mp h₂
      cases he
  rcases runs_finish.mp h with ⟨_, hr, hcode⟩ | ⟨msg, t₁, ht, hr, hcode⟩ | ⟨msg, t₁, -, hr, -⟩
  · obtain ⟨t₁, t₂, output, ht, h₁, h₂⟩ := Fallible.returns_bind.mp hr
    obtain ⟨x, t₃, rfl, rfl, -⟩ := Fallible.returns_lift.mp h₂
    exact ⟨t₁, hkinds _ _ h₁, .inl ⟨output, h₁, ht, hcode⟩⟩
  · obtain ⟨msg', he, hfault⟩ := hfails _ _ (hpart hr)
    cases he
    exact ⟨t₁, hkinds _ _ (hpart hr), .inr ⟨msg, hfault, hcode, ht⟩⟩
  · obtain ⟨msg', he, -⟩ := hfails _ _ (hpart hr)
    cases he

private theorem printsRows_print {text : Text} (h : PlainRows text) :
    Fallible.Calls PrintsRows (Fallible.lift (print text) : CliPart Refusal Unit) := by
  apply Fallible.calls_lift
  intro t a hr e he
  obtain ⟨x, t', rfl, rfl, -⟩ := hr
  rw [List.mem_singleton.mp he]
  intro text' htext
  cases htext
  exact h

variable {code : Nat} {Fault : Trace CliAns → Text → Prop}

/-- One result and nothing said, or the error of what went wrong and nothing printed. -/
def OneAnswer (Fault : Trace CliAns → Text → Prop) (t : Trace CliAns) (code : Nat) : Prop :=
  (code = 0 ∧ stderr t = []) ∨
    (code = 1 ∧ stdout t = [] ∧ ∃ msg t₁, Fault t₁ msg ∧
      t = t₁ ++ sayEvents [safeForTerminal msg errorMsgCap, userHint msg] ∧
      stderr t = [safeForTerminal msg errorMsgCap, userHint msg])

private theorem oneAnswer_query {part : CliPart Refusal Text}
    (hkinds : Fallible.Calls (fun e => e.1.kind ∈ querying) part)
    (hfails : ∀ t e, part.Runs t (.error e) → ∃ msg, e = .failed msg ∧ Fault t msg)
    (h : (printed part).Runs t code) : OneAnswer Fault t code ∧ writings t = [] := by
  obtain ⟨t₁, hk, hcases⟩ := runs_query hkinds hfails h
  rcases hcases with ⟨output, -, rfl, rfl⟩ | ⟨msg, hfault, rfl, rfl⟩
  · refine ⟨.inl ⟨rfl, ?_⟩, ?_⟩
    · rw [stderr_append, stderr_of_kinds hk (by decide)]
      rfl
    · rw [writings_append, writings_of_kinds hk (by decide)]
      rfl
  · have hsay := kinds_sayEvents [safeForTerminal msg errorMsgCap, userHint msg]
    refine ⟨.inr ⟨rfl, ?_, msg, t₁, hfault, rfl, ?_⟩, ?_⟩
    · rw [stdout_append, stdout_of_kinds hk (by decide), stdout_of_kinds hsay (by decide)]
      rfl
    · rw [stderr_append, stderr_of_kinds hk (by decide), stderr_sayEvents]
      rfl
    · rw [writings_append, writings_of_kinds hk (by decide), writings_of_kinds hsay (by decide)]
      rfl

theorem OneAnswer.plain (h : OneAnswer Fault t code) : ∀ line ∈ stderr t, PlainLine line := by
  rcases h with ⟨-, hnone⟩ | ⟨-, -, msg, -, -, -, hlines⟩
  · rw [hnone]
    exact fun _ hline => absurd hline List.not_mem_nil
  · rw [hlines]
    exact List.forall_mem_cons.mpr ⟨plainLine_safeForTerminal msg _,
      List.forall_mem_singleton.mpr (plainLine_userHint msg)⟩

private theorem OneAnswer.code_le (h : OneAnswer Fault t code) : code ≤ 1 := by
  rcases h with ⟨hcode, -⟩ | ⟨hcode, -⟩
  · exact hcode ▸ Nat.zero_le 1
  · exact hcode.le

end

section

variable [ReportJson]

/-- What a landing prints is about paths. -/
private theorem printsRows_deliver {a : RunArgs} (hlands : a.lands = true) (report : RunReport) :
    Fallible.Calls PrintsRows (deliver a report) := by
  unfold deliver
  split
  · apply Fallible.calls_bind
    · apply Fallible.calls_mapError
      apply Fallible.calls_hoist
      intro o x text htext
      cases htext
    · intro t written _
      apply Fallible.calls_bind (printsRows_print (plainRows_landedLines written))
      intro t _ _
      exact Fallible.calls_pure _
  · rename_i hwrite
    cases hout : a.patchOut with
    | none => simp [RunArgs.lands, hwrite, hout] at hlands
    | some out =>
      apply Fallible.calls_bind
      · apply Fallible.calls_attempt
        intro x text htext
        cases htext
      · intro t _ _
        apply Fallible.calls_bind (printsRows_print (plainRows_patchLine out))
        intro t _ _
        exact Fallible.calls_pure _

end

section

variable [Serde] [Digest] [WordChars] [ReportJson] {s : Surroundings} {t : Trace CliAns}

private theorem saysPlain_runPart (a : RunArgs) : Fallible.Calls SaysPlain (runPart s a) := by
  intro t r hr
  cases runSteps hr with
  | unresolved hconfig => exact saysPlain_of_kinds hconfig.kinds (by decide)
  | misused hconfig => exact saysPlain_of_kinds hconfig.kinds (by decide)
  | broken hconfig hadmitted hdrive =>
    exact List.forall_mem_append.mpr ⟨saysPlain_of_kinds hconfig.kinds (by decide),
      saysPlain_of_kinds (kinds_driveEvents _) (by decide)⟩
  | undelivered hconfig hadmitted hdrive hdeliver =>
    exact List.forall_mem_append.mpr ⟨saysPlain_of_kinds hconfig.kinds (by decide),
      List.forall_mem_append.mpr ⟨saysPlain_of_kinds (kinds_driveEvents _) (by decide),
        saysPlain_of_kinds hdeliver.kinds (by decide)⟩⟩
  | delivered hconfig hadmitted hdrive hdeliver =>
    exact List.forall_mem_append.mpr ⟨saysPlain_of_kinds hconfig.kinds (by decide),
      List.forall_mem_append.mpr ⟨saysPlain_of_kinds (kinds_driveEvents _) (by decide),
        List.forall_mem_append.mpr ⟨saysPlain_of_kinds hdeliver.kinds (by decide),
          saysPlain_sayEvents (plainLine_closingLines _ _ _ _)⟩⟩⟩

private theorem writings_runPart {a : RunArgs} {r : Except Refusal GateVerdict}
    (hlands : a.lands = false) (hr : (runPart s a).Runs t r) : writings t = [] := by
  cases runSteps hr with
  | unresolved hconfig => exact writings_of_kinds hconfig.kinds (by decide)
  | misused hconfig => exact writings_of_kinds hconfig.kinds (by decide)
  | broken hconfig hadmitted hdrive =>
    rw [writings_append, writings_of_kinds hconfig.kinds (by decide),
      writings_of_kinds (kinds_driveEvents _) (by decide), List.append_nil]
  | undelivered hconfig hadmitted hdrive hdeliver =>
    rw [writings_append, writings_append, writings_of_kinds hconfig.kinds (by decide),
      writings_of_kinds (kinds_driveEvents _) (by decide), hdeliver.writings_report hlands,
      List.append_nil, List.append_nil]
  | delivered hconfig hadmitted hdrive hdeliver =>
    rw [writings_append, writings_append, writings_append,
      writings_of_kinds hconfig.kinds (by decide),
      writings_of_kinds (kinds_driveEvents _) (by decide), hdeliver.writings_report hlands,
      writings_of_kinds (kinds_sayEvents _) (by decide), List.append_nil, List.append_nil,
      List.append_nil]

private theorem printsRows_runPart {a : RunArgs} (hlands : a.lands = true) :
    Fallible.Calls PrintsRows (runPart s a) := by
  apply Fallible.calls_bind
  · intro t r hr
    exact printsRows_of_kinds (kinds_resolveFor t r hr) (by decide)
  intro _ trusted _
  apply Fallible.calls_bind
  · exact Fallible.calls_ofExcept _
  intro _ _ _
  apply Fallible.calls_bind
  · apply Fallible.calls_mapError
    apply Fallible.calls_hoist
    intro o x text htext
    cases htext
  intro _ report _
  apply Fallible.calls_bind (printsRows_deliver hlands report)
  intro _ verdict _
  apply Fallible.calls_bind
  · apply Fallible.calls_lift
    intro t _ hr
    rw [runs_eprintAll.mp hr]
    exact printsRows_of_kinds (kinds_sayEvents _) (by decide)
  · intro _ _ _
    exact Fallible.calls_pure _

end

section

variable [ReportJson] {t : Trace CliAns} {command : Text} {format : ReportFormat}
  {program : RunProg RunReport}

private theorem kinds_reportPart :
    Fallible.Calls (fun e => e.1.kind ∈ querying) (reportPart command format program) := by
  apply Fallible.calls_bind
  · apply Fallible.calls_mapError
    apply Fallible.calls_hoist
    intro o x
    exact show CallKind.driving ∈ querying by decide
  · intro _ _ _
    exact Fallible.calls_pure _

/-- The program of a report failed, and this is said of it. -/
def ReportFault (command : Text) (program : RunProg RunReport) (t : Trace CliAns) (msg : Text) :
    Prop :=
  ∃ e, program.Runs (driven t) (.error e) ∧ msg = command ++ ": " ++ e.display

private theorem faults_reportPart (t : Trace CliAns) (e : Refusal)
    (h : (reportPart command format program).Runs t (.error e)) :
    ∃ msg, e = .failed msg ∧ ReportFault command program t msg := by
  rcases Fallible.runs_bind.mp h with ⟨e', he, hdrive⟩ | ⟨_, _, _, -, -, -, he⟩
  · cases he
    obtain ⟨r, hr, he⟩ := Fallible.runs_mapError.mp hdrive
    obtain ⟨e', rfl, rfl⟩ := mapError_eq_error.mp he.symm
    obtain ⟨td, rfl, hprogram⟩ := Prog.runs_hoist.mp hr
    exact ⟨_, rfl, e', (driven_driveEvents td).symm ▸ hprogram, rfl⟩
  · cases he

private theorem served_report (h : (printed (reportPart command format program)).Runs t 0) :
    ∃ report, program.Returns (driven t) report ∧ stdout t = render report format := by
  obtain ⟨t₁, hk, hcases⟩ := runs_query kinds_reportPart faults_reportPart h
  rcases hcases with ⟨output, hr, rfl, -⟩ | ⟨msg, -, hcode, -⟩
  · obtain ⟨t₂, t₃, report, rfl, hdrive, rfl, hout⟩ := Fallible.returns_bind.mp hr
    obtain ⟨td, rfl, hprogram⟩ := Prog.runs_hoist.mp (Fallible.returns_mapError.mp hdrive)
    cases hout
    have hdriven : driven (driveEvents td ++ [] ++ [⟨.print (render report format), ()⟩]) = td := by
      rw [List.append_nil, driven_append, driven_driveEvents]
      exact List.append_nil td
    refine ⟨report, ?_, ?_⟩
    · exact hdriven.symm ▸ hprogram
    · rw [stdout_append, stdout_of_kinds hk (by decide)]
      exact List.append_nil _
  · cases hcode

end

section

variable [WordChars] [RepoYaml] [TreeSitter] [CommandJson]

private theorem kinds_analyzePart {s : Surroundings} {differ : Differ} {a : AnalyzeArgs} :
    Fallible.Calls (fun e => e.1.kind ∈ querying) (analyzePart s differ a) := by
  apply Fallible.calls_bind
  · exact kinds_resolveFor.mono fun e he =>
      (show [CallKind.config] ⊆ querying by decide) he
  intro _ trusted _
  apply Fallible.calls_bind
  · apply Fallible.calls_attempt
    intro x
    exact show CallKind.opening ∈ querying by decide
  intro _ opened _
  apply Fallible.calls_bind
  · exact Fallible.calls_ofExcept _
  intro _ report _
  exact Fallible.calls_ofExcept _

/-- A call of an analysis failed, and this is said of it. -/
inductive AnalyzeFault (s : Surroundings) (differ : Differ) (a : AnalyzeArgs) (t : Trace CliAns) :
    Text → Prop where
  | config {e} (h : Unresolved s a.config a.flags t e) :
    AnalyzeFault s differ a t (("jitgen analyze" : Text) ++ ": " ++ e.display)
  | opening {e} (h : (⟨.openRepo a.repo, .error e⟩ : Event CliAns) ∈ t) :
    AnalyzeFault s differ a t (("jitgen analyze" : Text) ++ ": " ++ e.display)
  | analysis {base trusted opened e} (hbase : Base a.config t base)
    (hresolved : resolveTrusted base (envLookup s.env) a.flags = .ok trusted)
    (hopened : (⟨.openRepo a.repo, .ok opened⟩ : Event CliAns) ∈ t)
    (h : analyze differ opened ⟨a.repo, a.base, a.head, trusted⟩ = .error e) :
    AnalyzeFault s differ a t (("jitgen analyze" : Text) ++ ": " ++ e.display)
  | output {base trusted opened report e} (hbase : Base a.config t base)
    (hresolved : resolveTrusted base (envLookup s.env) a.flags = .ok trusted)
    (hopened : (⟨.openRepo a.repo, .ok opened⟩ : Event CliAns) ∈ t)
    (hreport : analyze differ opened ⟨a.repo, a.base, a.head, trusted⟩ = .ok report)
    (hformat : a.format = .json) (h : CommandJson.plan report = .error e) :
    AnalyzeFault s differ a t (("jitgen analyze: cannot serialize: " : Text) ++ e)

private theorem faults_analyzePart {s : Surroundings} {differ : Differ} {a : AnalyzeArgs}
    (t : Trace CliAns) (e : Refusal) (h : (analyzePart s differ a).Runs t (.error e)) :
    ∃ msg, e = .failed msg ∧ AnalyzeFault s differ a t msg := by
  rcases Fallible.runs_bind.mp h with ⟨e', he, hconfig⟩ | ⟨tc, t₁, trusted, rfl, hconfig, hrest⟩
  · cases he
    obtain ⟨e', rfl, hfault⟩ := resolveFor_error hconfig
    exact ⟨_, rfl, .config hfault⟩
  rcases Fallible.runs_bind.mp hrest with ⟨e', he, hopen⟩ | ⟨tp, t₂, opened, rfl, hopen, hplan⟩
  · cases he
    obtain ⟨x, rfl, hx⟩ := Fallible.runs_attempt.mp hopen
    obtain ⟨e', rfl, rfl⟩ := mapError_eq_error.mp hx.symm
    exact ⟨_, rfl, .opening (List.mem_append_right _ (List.mem_singleton.mpr rfl))⟩
  obtain ⟨x, rfl, hx⟩ := Fallible.returns_attempt.mp hopen
  cases hx
  have hnone : loaded (⟨.openRepo a.repo, .ok opened⟩ :: t₂) = [] := by
    rcases Fallible.runs_bind.mp hplan with ⟨_, _, rfl, -⟩ | ⟨_, _, _, rfl, ⟨rfl, -⟩, rfl, -⟩
    · rfl
    · rfl
  rcases Fallible.runs_bind.mp hplan with ⟨e', he, rfl, hr⟩ | ⟨_, t₃, report, rfl, ⟨rfl, hr⟩, hout⟩
  · cases he
    obtain ⟨e', he', rfl⟩ := mapError_eq_error.mp hr.symm
    obtain ⟨base, hbase, hresolved⟩ := resolveFor_ok hconfig hnone
    exact ⟨_, rfl, .analysis hbase hresolved (List.mem_append_right _ List.mem_cons_self) he'⟩
  · obtain ⟨rfl, he⟩ := hout
    obtain ⟨base, hbase, hresolved⟩ := resolveFor_ok hconfig hnone
    have hreport := mapError_eq_ok.mp hr.symm
    cases hformat : a.format with
    | human =>
      rw [hformat] at he
      cases he
    | json =>
      rw [hformat] at he
      cases hjson : CommandJson.plan report with
      | ok output =>
        rw [hjson] at he
        cases he
      | error e' =>
        rw [hjson] at he
        cases he
        exact ⟨_, rfl, .output hbase hresolved (List.mem_append_right _ List.mem_cons_self) hreport
          hformat hjson⟩

end

section

variable [CommandJson]

/-- The kinds of calls of the doctor. -/
def doctoring : List CallKind := [.config, .probing, .printing, .saying]

private theorem calls_doctorPart {s : Surroundings} {host : HostInfo} {a : DoctorArgs} :
    Fallible.Calls (fun e => e.1.kind ∈ doctoring ∧ SaysPlain e) (doctorPart s host a) := by
  have hsay : ∀ {lines : List Text}, (∀ line ∈ lines, PlainLine line) →
      Fallible.Calls (fun e => e.1.kind ∈ doctoring ∧ SaysPlain e)
        (Fallible.lift (eprintAll lines) : CliPart Refusal Unit) := by
    intro lines hlines
    apply Fallible.calls_lift
    intro t _ hr e he
    rw [runs_eprintAll.mp hr] at he
    exact ⟨(kinds_sayEvents lines).mono (by decide) e he, saysPlain_sayEvents hlines e he⟩
  have hlabelled : ∀ {label : Text} {lines : List Text}, PlainLine label →
      (∀ line ∈ lines, PlainLine line) → ∀ line ∈ lines.map (label ++ ·), PlainLine line := by
    intro label lines hlabel hlines line hline
    obtain ⟨line', hmem, rfl⟩ := List.mem_map.mp hline
    exact hlabel.append (hlines line' hmem)
  apply Fallible.calls_bind
  · intro t r hr e he
    have hkind : e.1.kind = .config := List.mem_singleton.mp (kinds_resolveFor t r hr e he)
    exact ⟨hkind ▸ by decide, saysPlain_of_kind (hkind ▸ by decide)⟩
  intro _ resolved _
  apply Fallible.calls_bind
  · apply Fallible.calls_lift
    intro t report hr e he
    obtain ⟨t₀, rfl, -⟩ := Prog.runs_hoist.mp hr
    obtain ⟨e₀, -, rfl⟩ := List.mem_map.mp he
    exact ⟨show CallKind.probing ∈ doctoring by decide,
      saysPlain_of_kind (show CallKind.probing ≠ .saying by decide)⟩
  intro _ report _
  apply Fallible.calls_bind
  · exact Fallible.calls_ofExcept _
  intro _ output _
  apply Fallible.calls_bind
  · apply Fallible.calls_lift
    intro t _ hr e he
    obtain ⟨x, t', rfl, rfl, -⟩ := hr
    rw [List.mem_singleton.mp he]
    exact ⟨show CallKind.printing ∈ doctoring by decide,
      saysPlain_of_kind (show CallKind.printing ≠ .saying by decide)⟩
  intro _ _ _
  apply Fallible.calls_bind (hsay (hlabelled (.literal rfl)
    (plainLine_strictVerdict _ _ _).1))
  intro _ _ _
  apply Fallible.calls_bind (hsay (hlabelled (.literal rfl)
    (plainLine_strictVerdict _ _ _).2))
  intro _ _ _
  exact Fallible.calls_pure _

private theorem throws_doctorPart {s : Surroundings} {host : HostInfo} {a : DoctorArgs} :
    Fallible.Throws IsFailure (doctorPart s host a) := by
  apply Fallible.throws_bind
  · exact throws_resolveFor
  intro resolved
  apply Fallible.throws_bind
  · exact Fallible.throws_lift
  intro report
  apply Fallible.throws_bind
  · apply Fallible.throws_ofExcept
    intro e he
    cases hformat : a.format with
    | human =>
      rw [hformat] at he
      cases he
    | json =>
      rw [hformat] at he
      exact throws_jsonOutput he
  intro output
  apply Fallible.throws_bind
  · exact Fallible.throws_lift
  intro _
  apply Fallible.throws_bind
  · exact Fallible.throws_lift
  intro _
  apply Fallible.throws_bind
  · exact Fallible.throws_lift
  intro _
  exact Fallible.throws_pure _

private theorem code_cmdDoctor {s : Surroundings} {host : HostInfo} {a : DoctorArgs}
    {t : Trace CliAns} {code : Nat} (h : (cmdDoctor s host a).Runs t code) : code ≤ 1 := by
  rcases runs_finish.mp h with ⟨ready, -, rfl⟩ | ⟨msg, t₁, -, -, rfl⟩ | ⟨msg, t₁, -, hr, -⟩
  · cases ready <;> decide
  · exact Nat.le_refl 1
  · obtain ⟨msg', he⟩ := throws_doctorPart _ _ hr
    cases he

end

section

variable [Serde] [Digest] [WordChars] [RepoYaml] [TreeSitter] [ReportJson] [CommandJson]
variable {s : Surroundings} {host : HostInfo} {differ : Differ} {c : Command} {t : Trace CliAns}
  {code : Nat}

/-- What a command may be relied on for. -/
structure CommandContract (s : Surroundings) (differ : Differ) (c : Command) (t : Trace CliAns)
    (code : Nat) : Prop where
  plain : ∀ line ∈ stderr t, PlainLine line
  codes : 2 ≤ code → ∃ a, c = .run a
  writes : writings t ≠ [] → ∃ a, c = .run a ∧ a.lands = true
  landed : ∀ a, c = .run a → a.lands = true → PlainRows (stdout t)
  analyzed : ∀ a, c = .analyze a → OneAnswer (AnalyzeFault s differ a) t code
  resumed : ∀ a, c = .resume a →
    OneAnswer (ReportFault "jitgen resume" (resumeRun (s.stateRootFor a.stateDir) a.runId)) t code ∧
      (code = 0 → ∃ report,
        (resumeRun (s.stateRootFor a.stateDir) a.runId).Returns (driven t) report ∧
        stdout t = render report a.format)
  reported : ∀ a, c = .report a →
    OneAnswer (ReportFault "jitgen report" (loadReport (s.stateRootFor a.stateDir) a.runId)) t code ∧
      (code = 0 → ∃ report,
        (loadReport (s.stateRootFor a.stateDir) a.runId).Returns (driven t) report ∧
        stdout t = render report a.format)

/-- Whatever a command meets, what it says is plain, and it does no more than its kind may. -/
theorem command_contract (h : (c.dispatch s host differ).Runs t code) :
    CommandContract s differ c t code := by
  cases c with
  | run a =>
    have hwrites : writings t ≠ [] → a.lands = true := by
      intro hne
      by_contra hlands
      exact hne (writings_finish (fun _ _ => writings_runPart (by simpa using hlands)) h)
    exact {
      plain := plain_finish (saysPlain_runPart a) h
      codes := fun _ => ⟨a, rfl⟩
      writes := fun hne => ⟨a, rfl, hwrites hne⟩
      landed := fun a' ha hlands => by
        cases ha
        exact rows_finish (printsRows_runPart hlands) h
      analyzed := fun _ ha => by cases ha
      resumed := fun _ ha => by cases ha
      reported := fun _ ha => by cases ha }
  | analyze a =>
    obtain ⟨hone, hwrites⟩ := oneAnswer_query kinds_analyzePart faults_analyzePart h
    have hcode := hone.code_le
    exact {
      plain := hone.plain
      codes := fun hcode' => by omega
      writes := fun hne => absurd hwrites hne
      landed := fun _ ha => by cases ha
      analyzed := fun _ ha => by
        cases ha
        exact hone
      resumed := fun _ ha => by cases ha
      reported := fun _ ha => by cases ha }
  | resume a =>
    obtain ⟨hone, hwrites⟩ := oneAnswer_query kinds_reportPart faults_reportPart h
    have hcode := hone.code_le
    exact {
      plain := hone.plain
      codes := fun hcode' => by omega
      writes := fun hne => absurd hwrites hne
      landed := fun _ ha => by cases ha
      analyzed := fun _ ha => by cases ha
      resumed := fun _ ha => by
        cases ha
        refine ⟨hone, fun hzero => ?_⟩
        subst hzero
        exact served_report h
      reported := fun _ ha => by cases ha }
  | report a =>
    obtain ⟨hone, hwrites⟩ := oneAnswer_query kinds_reportPart faults_reportPart h
    have hcode := hone.code_le
    exact {
      plain := hone.plain
      codes := fun hcode' => by omega
      writes := fun hne => absurd hwrites hne
      landed := fun _ ha => by cases ha
      analyzed := fun _ ha => by cases ha
      resumed := fun _ ha => by cases ha
      reported := fun _ ha => by
        cases ha
        refine ⟨hone, fun hzero => ?_⟩
        subst hzero
        exact served_report h }
  | doctor a =>
    have hcode := code_cmdDoctor h
    have hwrites : writings t = [] := by
      apply writings_finish (fun t₁ r hr => ?_) h
      have hkinds : Kinds doctoring t₁ := fun e he => (calls_doctorPart t₁ r hr e he).1
      exact writings_of_kinds hkinds (by decide)
    exact {
      plain := plain_finish (calls_doctorPart.mono fun _ he => he.2) h
      codes := fun hcode' => by omega
      writes := fun hne => absurd hwrites hne
      landed := fun _ ha => by cases ha
      analyzed := fun _ ha => by cases ha
      resumed := fun _ ha => by cases ha
      reported := fun _ ha => by cases ha }

end

def forgingRepo : Text := "/r\x1b[2J\njitgen: wrote 1 test file(s) into the repo:"

def forgingArgs : AnalyzeArgs := ⟨forgingRepo, "b", "h", none, none, none, none, none, .human⟩

def forgingError : OrchestratorError := .invalid "--repo" forgingRepo

def forgingMsg : Text := ("jitgen analyze: " : Text) ++ forgingError.display

abbrev noCommandJson : CommandJson := ⟨fun _ => .ok [], fun _ => .ok []⟩

theorem forging_contained :
    @CommandContract sampleSerde hexDigest asciiWords noYaml noTrees noReportJson noCommandJson
      bareSurroundings allAdded (.analyze forgingArgs)
      (⟨.openRepo forgingRepo, .error forgingError⟩ ::
        sayEvents [safeForTerminal forgingMsg errorMsgCap, userHint forgingMsg]) 1 := by
  have hpart : (@analyzePart asciiWords noYaml noTrees noCommandJson bareSurroundings allAdded
      forgingArgs).Runs [⟨.openRepo forgingRepo, .error forgingError⟩]
      (.error (.failed forgingMsg)) :=
    ⟨.error forgingError, [], rfl, rfl, rfl⟩
  exact @command_contract sampleSerde hexDigest asciiWords noYaml noTrees noReportJson noCommandJson
    bareSurroundings ⟨.linux, "linux"⟩ allAdded (.analyze forgingArgs) _ 1
    (runs_finish.mpr (.inr (.inl ⟨forgingMsg, [⟨.openRepo forgingRepo, .error forgingError⟩], rfl,
      Fallible.runs_bind.mpr (.inl ⟨_, rfl, hpart⟩), rfl⟩)))

end Jitgen.Cli
