import Jitgen.Framework.Numerals
import Jitgen.Properties.MarkdownRows

/-!
# The template of the Markdown export

The document is the text of a list of rows, which stand where a reader takes them for what they are.
-/

namespace Jitgen.Markdown

open Text CommonMark

/-- A value between backticks. -/
def spanOf (s : Text) : Segment := .span (oneLine s capName)

def nameOf (s : Text) : Segment := .shown (oneLine s capName)

def summaryRows (r : RunReport) : List Row :=
  [.heading 2 [.lit "Summary"], .blank, .tableHead ["Field", "Value"],
    .tableRow [.lit "run id", nameOf r.runId], .tableRow [.lit "repo", nameOf r.repo],
    .tableRow [.lit "base", nameOf r.base], .tableRow [.lit "head", nameOf r.head],
    .tableRow [.lit "mode", .lit r.mode.asStr],
    .tableRow [.lit "strategy", .lit (strategyStr r.strategy)],
    .tableRow [.lit "targets selected", .lit (ofNat r.summary.targetsSelected)],
    .tableRow [.lit "candidates generated", .lit (ofNat r.summary.candidatesGenerated)],
    .tableRow [.lit "accepted", .lit (ofNat r.summary.accepted)],
    .tableRow [.lit "catches", .lit (ofNat r.summary.catches)],
    .tableRow [.lit "rejected", .lit (ofNat r.summary.rejected)], .blank]

def acceptedRows (t : AcceptedTest) : List Row :=
  [.heading 3 [spanOf t.path], .blank, .item [.lit "target: ", spanOf t.target],
      .item [.lit "language: ", spanOf t.language]] ++
    t.symbol.toList.map (fun sym => .item [.lit "symbol: ", spanOf sym]) ++
    [.note ("reproduction: " ++ oneLine t.reproduction capText), .blank, .code t.language t.source]

/-- The heading of a catch in front of its path. -/
def catchTitle (c : CatchReport) : Text :=
  severityMarker (severityOf c.decision c.tpProbability) ++ " " ++ decisionName c.decision ++ " — "

def mutantSegments (m : MutantInfo) : List Segment :=
  [.lit "mutant ", spanOf m.id, .lit ": ", .shown (oneLine m.riskDescription capText), .lit " (",
    spanOf m.path, .lit ")"]

def mutantRow (m : MutantInfo) : Row := .item (mutantSegments m)

def catchRows (c : CatchReport) : List Row :=
  [.heading 3 [.lit (catchTitle c), spanOf c.path], .blank,
      .item [.lit "target: ", spanOf c.target], .item [.lit "language: ", spanOf c.language],
      .item [.lit ("decision: **" ++ c.decision.debug ++ "**")],
      .item [.lit ("tp_probability: " ++ c.tpProbability.toFixed2 ++ " (" ++ c.bucket.debug ++
        ")")]] ++
    c.mutant.toList.map mutantRow ++
    [.note ("rationale: " ++ oneLine c.rationale capText),
      .note ("reproduction: " ++ oneLine c.reproduction capText), .blank, .code c.language c.source]

def reportOnlyLead : Text :=
  "_Catch mode reports potential bugs; catching tests fail by design and are " ++ "never landed._"

/-- The accepted tests or the catches, by mode. -/
def resultRows (r : RunReport) : List Row :=
  match r.mode with
  | .harden =>
    [.heading 2 [.lit "Accepted tests (landable)"], .blank] ++
      if r.accepted.isEmpty then [.paragraph "_No tests were accepted._", .blank]
      else r.accepted.flatMap acceptedRows
  | .catch =>
    [.heading 2 [.lit "Catches (report-only)"], .blank,
        .paragraph reportOnlyLead, .blank] ++
      if r.catches.isEmpty then [.paragraph "_No catches found._", .blank]
      else r.catches.flatMap catchRows

def rejectedRows (r : RunReport) : List Row :=
  if r.rejected.isEmpty then []
  else
    [.heading 2 [.lit "Rejected candidates"], .blank, .tableHead ["Target", "Path", "Reason"]] ++
      r.rejected.flatMap (fun rej => [.tableRow [nameOf rej.target, nameOf rej.path,
        .shown (oneLine rej.reason capText)]]) ++ [.blank]

def warningRows (r : RunReport) : List Row :=
  if r.warnings.isEmpty then []
  else
    [.heading 2 [.lit "Warnings"], .blank] ++
      r.warnings.flatMap (fun w => [.note (oneLine w capText)]) ++ [.blank]

def rows (r : RunReport) : List Row :=
  [.heading 1 [.lit "jitgen report"], .blank] ++ summaryRows r ++ resultRows r ++ rejectedRows r ++
    warningRows r

private theorem row_eq (s k : Text) (c : Segment) :
    row s k c.source = s ++ text [.tableRow [.lit k, c]] := by
  have hopen : ("| " : Text) = ['|', ' '] := by decide
  have hbetween : (" | " : Text) = [' ', '|', ' '] := by decide
  have hend : (" |\n" : Text) = [' ', '|', '\n'] := by decide
  rw [row, hopen, hbetween, hend]
  simp [text, Row.lines, rowLine, unlines, Segment.source]

private theorem row_name (s k v : Text) :
    row s k (mdInline v capName) = s ++ text [.tableRow [.lit k, nameOf v]] := by
  rw [mdInline_eq]
  exact row_eq s k (nameOf v)

private theorem row_lit (s k v : Text) : row s k v = s ++ text [.tableRow [.lit k, .lit v]] :=
  row_eq s k (.lit v)

private theorem summarySection_eq (s : Text) (r : RunReport) :
    summarySection s r = s ++ text (summaryRows r) := by
  have htitle : ("## Summary\n\n" : Text) = text [.heading 2 [.lit "Summary"], .blank] := by
    decide
  have hhead : ("| Field | Value |\n|---|---|\n" : Text) =
      text [.tableHead ["Field", "Value"]] := by decide
  have hblank : ("\n" : Text) = text [.blank] := by decide
  unfold summarySection
  dsimp only
  rw [row_name, row_name, row_name, row_name, row_lit, row_lit, row_lit, row_lit, row_lit, row_lit,
    row_lit, htitle, hhead, hblank]
  simp only [List.append_assoc, ← text_append]
  rfl

private theorem foldl_text {α : Type} {f : Text → α → Text} {g : α → List Row}
    (h : ∀ s x, f s x = s ++ text (g x)) (s : Text) (l : List α) :
    l.foldl f s = s ++ text (l.flatMap g) := by
  induction l generalizing s with
  | nil => exact (List.append_nil s).symm
  | cons x l ih => rw [List.foldl_cons, ih, h, List.flatMap_cons, text_append, List.append_assoc]

section

variable (a b v w : Text)

private theorem paragraph_text : a ++ ['\n', '\n'] = text [.paragraph a, .blank] := by
  simp [text, Row.lines, unlines]

private theorem path_text :
    ['#', '#', '#', ' ', backtick] ++ mdInline v capName ++ [backtick, '\n', '\n'] =
      text [.heading 3 [spanOf v], .blank] := by
  rw [mdInline_eq]
  simp [text, Row.lines, source, Segment.source, spanOf, unlines]

private theorem title_text :
    '#' :: '#' :: '#' :: ' ' :: a ++ [backtick] ++ mdInline v capName ++ [backtick, '\n', '\n'] =
      text [.heading 3 [.lit a, spanOf v], .blank] := by
  rw [mdInline_eq]
  simp [text, Row.lines, source, Segment.source, spanOf, unlines]

private theorem item_text :
    '-' :: ' ' :: (a ++ [backtick]) ++ mdInline v capName ++ [backtick, '\n'] =
      text [.item [.lit a, spanOf v]] := by
  rw [mdInline_eq]
  simp [text, Row.lines, source, Segment.source, spanOf, unlines]

private theorem items_text :
    '-' :: ' ' :: (a ++ [backtick]) ++ mdInline v capName ++
        backtick :: '\n' :: '-' :: ' ' :: (b ++ [backtick]) ++ mdInline w capName ++
        [backtick, '\n'] =
      text [.item [.lit a, spanOf v], .item [.lit b, spanOf w]] := by
  have hsplit := text_append [.item [.lit a, spanOf v]] [.item [.lit b, spanOf w]]
  rw [← item_text, ← item_text] at hsplit
  exact Eq.trans (by simp) hsplit.symm

private theorem verdict_text (d₁ d₂ e₁ e₂ e₃ x y z : Text) :
    '-' :: ' ' :: (a ++ [backtick]) ++ mdInline v capName ++
        backtick :: '\n' :: '-' :: ' ' :: (b ++ [backtick]) ++ mdInline w capName ++
        backtick :: '\n' :: '-' :: ' ' :: d₁ ++ x ++ (d₂ ++ '\n' :: '-' :: ' ' :: e₁) ++ y ++ e₂ ++
        z ++ (e₃ ++ ['\n']) =
      text [.item [.lit a, spanOf v], .item [.lit b, spanOf w], .item [.lit (d₁ ++ x ++ d₂)],
        .item [.lit (e₁ ++ y ++ e₂ ++ z ++ e₃)]] := by
  rw [mdInline_eq, mdInline_eq]
  simp [text, Row.lines, source, Segment.source, spanOf, unlines]

private theorem mutant_text (c d u : Text) (max : Nat) :
    '-' :: ' ' :: (a ++ [backtick]) ++ mdInline v capName ++ backtick :: b ++ mdInline w max ++
        (c ++ [backtick]) ++ mdInline u capName ++ backtick :: (d ++ ['\n']) =
      text [.item [.lit a, spanOf v, .lit b, .shown (oneLine w max), .lit c, spanOf u,
        .lit d]] := by
  rw [mdInline_eq, mdInline_eq, mdInline_eq]
  simp [text, Row.lines, source, Segment.source, spanOf, unlines]

variable {a b} {max : Nat} (ha : escape a = a) (hb : escape b = b)

include ha

private theorem note_text :
    '-' :: ' ' :: a ++ mdInline v max ++ ['\n', '\n'] =
      text [.note (a ++ oneLine v max), .blank] := by
  rw [mdInline_eq]
  simp [text, Row.lines, unlines, escape_append, ha]

include hb

private theorem notes_text :
    '-' :: ' ' :: a ++ mdInline v max ++ '\n' :: '-' :: ' ' :: b ++ mdInline w max ++
        ['\n', '\n'] =
      text [.note (a ++ oneLine v max), .note (b ++ oneLine w max), .blank] := by
  rw [mdInline_eq, mdInline_eq]
  simp [text, Row.lines, unlines, escape_append, ha, hb]

end

private theorem code_text (s language source : Text) :
    codeFence s language source = s ++ text [.code language source] := by
  rw [codeFence_eq, text, List.flatMap_singleton]
  rfl

private theorem target_lines (target language : Text) :
    "- target: `" ++ mdInline target capName ++ "`\n- language: `" ++ mdInline language capName ++
        "`\n" =
      text [.item [.lit "target: ", spanOf target], .item [.lit "language: ", spanOf language]] :=
  items_text "target: " "language: " target language

private theorem acceptedEntry_eq (s : Text) (t : AcceptedTest) :
    acceptedEntry s t = s ++ text (acceptedRows t) := by
  have hpath : "### `" ++ mdInline t.path capName ++ "`\n\n" =
      text [.heading 3 [spanOf t.path], .blank] := path_text t.path
  have hsymbol : ∀ sym, "- symbol: `" ++ mdInline sym capName ++ "`\n" =
      text [.item [.lit "symbol: ", spanOf sym]] := fun sym => item_text "symbol: " sym
  have hnote : "- reproduction: " ++ mdInline t.reproduction capText ++ "\n\n" =
      text [.note ("reproduction: " ++ oneLine t.reproduction capText), .blank] :=
    note_text t.reproduction (by decide)
  unfold acceptedEntry acceptedRows
  dsimp only
  rw [hpath, target_lines, hnote, code_text]
  cases t.symbol with
  | none =>
    simp only [List.append_assoc, ← text_append]
    rfl
  | some sym =>
    dsimp only
    rw [hsymbol]
    simp only [List.append_assoc, ← text_append]
    rfl

private theorem catchEntry_eq (s : Text) (c : CatchReport) :
    catchEntry s c = s ++ text (catchRows c) := by
  have hpath : "### " ++ severityMarker (severityOf c.decision c.tpProbability) ++ " " ++
      decisionName c.decision ++ " — `" ++ mdInline c.path capName ++ "`\n\n" =
        text [.heading 3 [.lit (catchTitle c), spanOf c.path], .blank] := by
    have hdash : (" — `" : Text) = (" — " : Text) ++ [backtick] := by decide
    rw [hdash, ← List.append_assoc]
    exact title_text (catchTitle c) c.path
  have hverdict : "- target: `" ++ mdInline c.target capName ++ "`\n- language: `" ++
      mdInline c.language capName ++ "`\n- decision: **" ++ c.decision.debug ++
      "**\n- tp_probability: " ++ c.tpProbability.toFixed2 ++ " (" ++ c.bucket.debug ++ ")\n" =
        text [.item [.lit "target: ", spanOf c.target],
          .item [.lit "language: ", spanOf c.language],
          .item [.lit ("decision: **" ++ c.decision.debug ++ "**")],
          .item [.lit ("tp_probability: " ++ c.tpProbability.toFixed2 ++ " (" ++ c.bucket.debug ++
            ")")]] :=
    verdict_text "target: " "language: " c.target c.language "decision: **" "**" "tp_probability: "
      " (" ")" _ _ _
  have hmutant : ∀ m : MutantInfo, "- mutant `" ++ mdInline m.id capName ++ "`: " ++
      mdInline m.riskDescription capText ++ " (`" ++ mdInline m.path capName ++ "`)\n" =
        text [mutantRow m] := fun m =>
    mutant_text "mutant " ": " m.id m.riskDescription " (" ")" m.path capText
  have hnotes : "- rationale: " ++ mdInline c.rationale capText ++ "\n- reproduction: " ++
      mdInline c.reproduction capText ++ "\n\n" =
        text [.note ("rationale: " ++ oneLine c.rationale capText),
          .note ("reproduction: " ++ oneLine c.reproduction capText), .blank] :=
    notes_text c.rationale c.reproduction (by decide) (by decide)
  unfold catchEntry catchRows
  dsimp only
  rw [hpath, hverdict, hnotes, code_text]
  cases c.mutant with
  | none =>
    simp only [List.append_assoc, ← text_append]
    rfl
  | some m =>
    dsimp only
    rw [hmutant]
    simp only [List.append_assoc, ← text_append]
    rfl

private theorem result_eq (s : Text) (r : RunReport) :
    (match r.mode with
      | .harden => acceptedSection s r
      | .catch => catchesSection s r) = s ++ text (resultRows r) := by
  unfold resultRows
  cases r.mode with
  | harden =>
    have htitle : ("## Accepted tests (landable)\n\n" : Text) =
        text [.heading 2 [.lit "Accepted tests (landable)"], .blank] := by decide
    have hnone : ("_No tests were accepted._\n\n" : Text) =
        text [.paragraph "_No tests were accepted._", .blank] :=
      paragraph_text "_No tests were accepted._"
    dsimp only
    rw [acceptedSection, htitle, hnone, foldl_text acceptedEntry_eq]
    split_ifs
    · simp only [List.append_assoc, ← text_append]
    · simp only [List.append_assoc, ← text_append]
  | «catch» =>
    have htitle : ("## Catches (report-only)\n\n" : Text) =
        text [.heading 2 [.lit "Catches (report-only)"], .blank] := by decide
    have hlead : ("_Catch mode reports potential bugs; catching tests fail by design and are " ++
        "never landed._\n\n" : Text) = text [.paragraph reportOnlyLead, .blank] := by
      have hend : ("never landed._\n\n" : Text) = ("never landed._" : Text) ++ ['\n', '\n'] := by
        decide
      rw [hend, ← List.append_assoc]
      exact paragraph_text reportOnlyLead
    have hnone : ("_No catches found._\n\n" : Text) =
        text [.paragraph "_No catches found._", .blank] := paragraph_text "_No catches found._"
    dsimp only
    rw [catchesSection, htitle, hlead, hnone, foldl_text catchEntry_eq]
    split_ifs
    · simp only [List.append_assoc, ← text_append]
      rfl
    · simp only [List.append_assoc, ← text_append]
      rfl

theorem rejectedRow_eq (s : Text) (rej : RejectedCandidate) :
    rejectedRow s rej = s ++ text [.tableRow [nameOf rej.target, nameOf rej.path,
      .shown (oneLine rej.reason capText)]] := by
  have hrow : ∀ v w u : Text, '|' :: ' ' :: escape v ++ [' ', '|', ' '] ++ escape w ++
      [' ', '|', ' '] ++ escape u ++ [' ', '|', '\n'] =
        text [.tableRow [.shown v, .shown w, .shown u]] := by
    intro v w u
    simp [text, Row.lines, rowLine, unlines, Segment.source]
  rw [rejectedRow, mdInline_eq, mdInline_eq, mdInline_eq]
  exact congrArg (s ++ ·) (hrow _ _ _)

private theorem rejectedSection_eq (s : Text) (r : RunReport) :
    rejectedSection s r = s ++ text (rejectedRows r) := by
  have htitle : ("## Rejected candidates\n\n" : Text) =
      text [.heading 2 [.lit "Rejected candidates"], .blank] := by decide
  have hhead : ("| Target | Path | Reason |\n|---|---|---|\n" : Text) =
      text [.tableHead ["Target", "Path", "Reason"]] := by decide
  have hblank : ("\n" : Text) = text [.blank] := by decide
  rw [rejectedSection, rejectedRows]
  split_ifs
  · exact (List.append_nil s).symm
  · dsimp only
    rw [htitle, hhead, hblank, foldl_text rejectedRow_eq]
    simp only [List.append_assoc, ← text_append]
    rfl

private theorem warningsSection_eq (s : Text) (r : RunReport) :
    warningsSection s r = s ++ text (warningRows r) := by
  have htitle : ("## Warnings\n\n" : Text) = text [.heading 2 [.lit "Warnings"], .blank] := by
    decide
  have hwarning : ∀ s w : Text, s ++ ("- " ++ mdInline w capText ++ "\n") =
      s ++ text [.note (oneLine w capText)] := by
    intro s w
    have hnote : ∀ v : Text, '-' :: ' ' :: escape v ++ ['\n'] = text [.note v] := by
      intro v
      simp [text, Row.lines, unlines]
    rw [mdInline_eq]
    exact congrArg (s ++ ·) (hnote _)
  have hblank : ("\n" : Text) = text [.blank] := by decide
  rw [warningsSection, warningRows]
  split_ifs
  · exact (List.append_nil s).symm
  · dsimp only
    rw [htitle, foldl_text hwarning, hblank]
    simp only [List.append_assoc, ← text_append]

theorem render_eq (r : RunReport) : render r = text (rows r) := by
  have htitle : ("# jitgen report\n\n" : Text) =
      text [.heading 1 [.lit "jitgen report"], .blank] := by decide
  have hresult := result_eq
    (text [.heading 1 [.lit "jitgen report"], .blank] ++ text (summaryRows r)) r
  rw [render, htitle, summarySection_eq, rows, text_append, text_append, text_append, text_append,
    warningsSection_eq, rejectedSection_eq]
  exact congrArg (fun s => s ++ text (rejectedRows r) ++ text (warningRows r)) hresult

private theorem walk_acceptedRows (t : AcceptedTest) :
    walk .fresh (acceptedRows t) = some .fresh := by
  unfold acceptedRows
  cases t.symbol <;> rfl

private theorem walk_catchRows (c : CatchReport) : walk .fresh (catchRows c) = some .fresh := by
  unfold catchRows
  cases c.mutant <;> rfl

private theorem walk_resultRows (r : RunReport) : walk .fresh (resultRows r) = some .fresh := by
  unfold resultRows
  cases r.mode with
  | harden =>
    have haccepted := walk_flatMap (l := r.accepted) fun t _ => walk_acceptedRows t
    dsimp only
    split_ifs
    · rfl
    · exact haccepted
  | «catch» =>
    have hcatches := walk_flatMap (l := r.catches) fun c _ => walk_catchRows c
    dsimp only
    split_ifs
    · rfl
    · exact hcatches

private theorem walk_rejectedRows (r : RunReport) : walk .fresh (rejectedRows r) = some .fresh := by
  have hrows : ∀ l : List RejectedCandidate, walk .table (l.flatMap fun rej =>
      [.tableRow [nameOf rej.target, nameOf rej.path, .shown (oneLine rej.reason capText)]]) =
        some .table := fun l => walk_flatMap fun _ _ => rfl
  unfold rejectedRows
  split_ifs
  · rfl
  · rw [walk_append, walk_append]
    show (walk .table _).bind _ = _
    rw [hrows]
    rfl

private theorem walk_warningRows (r : RunReport) : walk .fresh (warningRows r) = some .fresh := by
  have hrows : ∀ l : List Text,
      walk .item (l.flatMap fun w => [.note (oneLine w capText)]) = some .item :=
    fun l => walk_flatMap fun _ _ => rfl
  unfold warningRows
  cases r.warnings with
  | nil => rfl
  | cons w ws =>
    rw [if_neg (by simp), walk_append]
    show (walk .item (ws.flatMap fun w => [.note (oneLine w capText)])).bind _ = _
    rw [hrows]
    rfl

private theorem walk_summaryRows (r : RunReport) : walk .fresh (summaryRows r) = some .fresh := rfl

theorem walk_rows (r : RunReport) : walk .fresh (rows r) = some .fresh := by
  have htitle : walk .fresh [.heading 1 [.lit "jitgen report"], .blank] = some .fresh := rfl
  rw [rows, walk_append, walk_append, walk_append, walk_append, htitle, Option.bind_some,
    walk_summaryRows, Option.bind_some, walk_resultRows, Option.bind_some, walk_rejectedRows,
    Option.bind_some, walk_warningRows]

private theorem template_of_digit {c : Char} (h : isAsciiDigit c = true) :
    (isTemplateChar c && c ≠ '|') = true := by
  have hspecial : ∀ d ∈ ['\\', grave, '<', '\n', '\r', '|'], isAsciiDigit d = false :=
    forall_mem_of_all (by decide)
  have hne : ∀ d ∈ ['\\', grave, '<', '\n', '\r', '|'], c ≠ d := by
    rintro d hd rfl
    rw [hspecial c hd] at h
    cases h
  simp only [List.forall_mem_cons] at hne
  obtain ⟨hback, hgrave, hless, hline, hcr, hpipe, -⟩ := hne
  simp [isTemplateChar, hback, hgrave, hless, hline, hcr, hpipe]

private theorem isCell_ofNat (n : Nat) : (Segment.lit (ofNat n)).IsCell :=
  List.all_eq_true.mpr fun _ hc => template_of_digit (isAsciiDigit_of_mem_ofNat hc)

private theorem template_toFixed2 (a : Binary64) : a.toFixed2.all isTemplateChar = true := by
  have hother : ∀ c ∈ ("NaN-inf." : Text), isTemplateChar c = true := forall_mem_of_all (by decide)
  apply List.all_eq_true.mpr
  intro c hc
  cases Binary64.of_mem_toFixed2 hc with
  | inl hdigit => exact (Bool.and_eq_true_iff.mp (template_of_digit hdigit)).1
  | inr hmem => exact hother c hmem

private theorem isCell_nameOf (v : Text) : (nameOf v).IsCell := oneLine_oneLine v capName

section

variable {level : Nat} {t : Text}

private theorem sound_title (hlevel : 1 ≤ level ∧ level ≤ 6) (ht : t.all isTemplateChar = true)
    (hfirst : t.head?.any (!isBlankChar ·) = true)
    (hlast : (t.getLast?.any fun c => !isBlankChar c && c ≠ '#') = true) :
    (Row.heading level [.lit t]).Sound :=
  ⟨hlevel.1, hlevel.2, .lit ht .nil, hfirst, hlast⟩

private theorem sound_labelled (ht : t.all isTemplateChar = true)
    (hfirst : t.head?.any isAsciiLower = true) (v : Text) : (Row.item [.lit t, spanOf v]).Sound :=
  ⟨.lit ht (.last _), hfirst, rfl⟩

private theorem sound_remark (ht : t.all isTemplateChar = true)
    (hfirst : t.head?.any isAsciiLower = true) (hlast : t.getLast?.any (!isBlankChar ·) = true) :
    (Row.item [.lit t]).Sound :=
  ⟨.lit ht .nil, hfirst, hlast⟩

private theorem sound_note (ht : OneLine t) (v : Text) (max : Nat) :
    (Row.note (t ++ oneLine v max)).Sound :=
  ht.append (oneLine_oneLine v max)

private theorem sound_field {c : Segment} (ht : (Segment.lit t).IsCell) (hc : c.IsCell) :
    (Row.tableRow [.lit t, c]).Sound :=
  List.forall_mem_cons.mpr ⟨ht, List.forall_mem_singleton.mpr hc⟩

end

private theorem sound_summaryRows (r : RunReport) : ∀ row ∈ summaryRows r, row.Sound := by
  have hkey : ∀ {k : Text}, k.all (fun c => isTemplateChar c && c ≠ '|') = true →
      (Segment.lit k).IsCell := fun hk => hk
  have hmode : (Segment.lit r.mode.asStr).IsCell := by
    cases r.mode <;> exact hkey (by decide)
  have hstrategy : (Segment.lit (strategyStr r.strategy)).IsCell := by
    cases r.strategy <;> exact hkey (by decide)
  simp only [summaryRows, List.forall_mem_cons]
  exact ⟨sound_title (by decide) (by decide) (by decide) (by decide), trivial,
    List.forall_mem_cons.mpr ⟨hkey (by decide), List.forall_mem_singleton.mpr (hkey (by decide))⟩,
    sound_field (hkey (by decide)) (isCell_nameOf _),
    sound_field (hkey (by decide)) (isCell_nameOf _),
    sound_field (hkey (by decide)) (isCell_nameOf _),
    sound_field (hkey (by decide)) (isCell_nameOf _), sound_field (hkey (by decide)) hmode,
    sound_field (hkey (by decide)) hstrategy, sound_field (hkey (by decide)) (isCell_ofNat _),
    sound_field (hkey (by decide)) (isCell_ofNat _),
    sound_field (hkey (by decide)) (isCell_ofNat _),
    sound_field (hkey (by decide)) (isCell_ofNat _),
    sound_field (hkey (by decide)) (isCell_ofNat _),
    trivial, fun _ h => absurd h List.not_mem_nil⟩

private theorem sound_acceptedRows (t : AcceptedTest) : ∀ row ∈ acceptedRows t, row.Sound := by
  have hsymbol : ∀ row ∈ t.symbol.toList.map (fun sym => Row.item [.lit "symbol: ", spanOf sym]),
      row.Sound :=
    List.forall_mem_map.mpr fun sym _ => sound_labelled (by decide) (by decide) sym
  have hnote : OneLine "reproduction: " := oneLine_template (by decide)
  have hpath : (Row.heading 3 [spanOf t.path]).Sound := ⟨by decide, by decide, .last _, rfl, rfl⟩
  simp only [acceptedRows, List.forall_mem_append, List.forall_mem_cons]
  exact ⟨⟨⟨hpath, trivial, sound_labelled (by decide) (by decide) _,
    sound_labelled (by decide) (by decide) _, fun _ h => absurd h List.not_mem_nil⟩, hsymbol⟩,
    sound_note hnote _ _, trivial, trivial, fun _ h => absurd h List.not_mem_nil⟩

private theorem sound_catchTitle (c : CatchReport) :
    (Row.heading 3 [.lit (catchTitle c), spanOf c.path]).Sound := by
  have htitle : (catchTitle c).all isTemplateChar = true ∧
      (catchTitle c).head?.any (!isBlankChar ·) = true := by
    unfold catchTitle
    cases c.decision <;> exact ⟨rfl, rfl⟩
  exact ⟨by decide, by decide, .lit htitle.1 (.last _), htitle.2, rfl⟩

private theorem sound_mutantRow (m : MutantInfo) : (mutantRow m).Sound := by
  have hlaid : Laid (mutantSegments m) := by
    apply Laid.lit (by decide)
    apply Laid.span _ (by decide) (by decide)
    apply Laid.lit (by decide)
    apply Laid.shown
    apply Laid.lit (by decide)
    apply Laid.span _ (by decide) (by decide)
    exact .lit (by decide) .nil
  exact ⟨hlaid, rfl, rfl⟩

private theorem sound_catchRows (c : CatchReport) : ∀ row ∈ catchRows c, row.Sound := by
  have hdecision : (Row.item [.lit ("decision: **" ++ c.decision.debug ++ "**")]).Sound := by
    cases c.decision <;> exact sound_remark (by decide) (by decide) (by decide)
  have hprobability : (Row.item [.lit ("tp_probability: " ++ c.tpProbability.toFixed2 ++ " (" ++
      c.bucket.debug ++ ")")]).Sound := by
    have hbucket : c.bucket.debug.all isTemplateChar = true := by
      cases c.bucket <;> decide
    apply sound_remark
    · simp only [List.all_append, template_toFixed2, hbucket]
      decide
    · rfl
    · have hlast : ((")" : Text)) = [')'] := by decide
      rw [hlast, List.getLast?_concat]
      rfl
  have hmutant : ∀ row ∈ c.mutant.toList.map mutantRow, row.Sound :=
    List.forall_mem_map.mpr fun m _ => sound_mutantRow m
  have hrationale : OneLine "rationale: " := oneLine_template (by decide)
  have hreproduction : OneLine "reproduction: " := oneLine_template (by decide)
  simp only [catchRows, List.forall_mem_append, List.forall_mem_cons]
  exact ⟨⟨⟨sound_catchTitle c, trivial, sound_labelled (by decide) (by decide) _,
    sound_labelled (by decide) (by decide) _, hdecision, hprobability,
    fun _ h => absurd h List.not_mem_nil⟩, hmutant⟩, sound_note hrationale _ _,
    sound_note hreproduction _ _, trivial, trivial, fun _ h => absurd h List.not_mem_nil⟩

private theorem sound_pair {row : Row} (h : row.Sound) : ∀ row' ∈ [row, .blank], row'.Sound :=
  List.forall_mem_cons.mpr ⟨h, List.forall_mem_singleton.mpr trivial⟩

private theorem sound_resultRows (r : RunReport) : ∀ row ∈ resultRows r, row.Sound := by
  unfold resultRows
  cases r.mode with
  | harden =>
    have hnone : (Row.paragraph "_No tests were accepted._").Sound :=
      ⟨by decide, by decide, by decide, by decide⟩
    dsimp only
    rw [List.forall_mem_append]
    refine ⟨sound_pair (sound_title (by decide) (by decide) (by decide) (by decide)), ?_⟩
    split_ifs
    · exact sound_pair hnone
    · exact List.forall_mem_flatMap.mpr fun t _ => sound_acceptedRows t
  | «catch» =>
    have hlead : (Row.paragraph reportOnlyLead).Sound :=
      ⟨by decide, by decide, by decide, by decide⟩
    have hnone : (Row.paragraph "_No catches found._").Sound :=
      ⟨by decide, by decide, by decide, by decide⟩
    dsimp only
    rw [List.forall_mem_append]
    refine ⟨List.forall_mem_cons.mpr ⟨sound_title (by decide) (by decide) (by decide) (by decide),
      List.forall_mem_cons.mpr ⟨trivial, sound_pair hlead⟩⟩, ?_⟩
    split_ifs
    · exact sound_pair hnone
    · exact List.forall_mem_flatMap.mpr fun c _ => sound_catchRows c

private theorem sound_rejectedRows (r : RunReport) : ∀ row ∈ rejectedRows r, row.Sound := by
  have hhead : (Row.tableHead ["Target", "Path", "Reason"]).Sound := by
    have hnames : ∀ n ∈ [("Target" : Text), "Path", "Reason"],
        n.all (fun c => isTemplateChar c && c ≠ '|') = true := by decide
    exact hnames
  have hrow : ∀ rej : RejectedCandidate, (Row.tableRow [nameOf rej.target, nameOf rej.path,
      .shown (oneLine rej.reason capText)]).Sound := fun rej =>
    List.forall_mem_cons.mpr ⟨isCell_nameOf _, List.forall_mem_cons.mpr
      ⟨isCell_nameOf _, List.forall_mem_singleton.mpr (oneLine_oneLine _ _)⟩⟩
  unfold rejectedRows
  split_ifs
  · exact fun _ h => absurd h List.not_mem_nil
  · simp only [List.forall_mem_append, List.forall_mem_cons]
    exact ⟨⟨⟨sound_title (by decide) (by decide) (by decide) (by decide), trivial, hhead,
      fun _ h => absurd h List.not_mem_nil⟩,
      List.forall_mem_flatMap.mpr fun rej _ => List.forall_mem_singleton.mpr (hrow rej)⟩, trivial,
      fun _ h => absurd h List.not_mem_nil⟩

private theorem sound_warningRows (r : RunReport) : ∀ row ∈ warningRows r, row.Sound := by
  unfold warningRows
  split_ifs
  · exact fun _ h => absurd h List.not_mem_nil
  · simp only [List.forall_mem_append]
    exact ⟨⟨sound_pair (sound_title (by decide) (by decide) (by decide) (by decide)),
      List.forall_mem_flatMap.mpr fun w _ =>
        List.forall_mem_singleton.mpr (oneLine_oneLine w capText)⟩,
      List.forall_mem_singleton.mpr trivial⟩

theorem sound_rows (r : RunReport) : ∀ row ∈ rows r, row.Sound := by
  simp only [rows, List.forall_mem_append]
  exact ⟨⟨⟨⟨sound_pair (sound_title (by decide) (by decide) (by decide) (by decide)),
    sound_summaryRows r⟩, sound_resultRows r⟩, sound_rejectedRows r⟩, sound_warningRows r⟩

end Jitgen.Markdown
