import Jitgen.Framework.Numerals
import Jitgen.Framework.Rows
import Jitgen.Properties.ControlStripping
import Jitgen.Report.Human

/-!
# The rows of the terminal report

The report is a document of rows. Two reports of one shape differ in the shown values only, and no
value breaks a line.
-/

namespace Jitgen

open Text Rows

namespace Human

/-- A value with its cap. -/
abbrev Value := Text × Nat

def view (v : Value) : Text := sanitizeLine v.1 v.2

def headerRows (report : RunReport) : List (List (Piece Value)) :=
  [[.fixed "jitgen ", .shown (report.jitgenVersion, capName), .fixed " — run ",
      .shown (report.runId, capName)],
    [.fixed "repo: ", .shown (report.repo, capName)],
    [.fixed "base: ", .shown (report.base, capName), .fixed "  head: ",
      .shown (report.head, capName)],
    [.fixed "mode: ", .fixed report.mode.asStr]]

def summaryRows (sum : RunSummary) : List (List (Piece Value)) :=
  [[], [.fixed "summary: ", .fixed (ofNat sum.targetsSelected), .fixed " targets, ",
    .fixed (ofNat sum.candidatesGenerated), .fixed " candidates, ", .fixed (ofNat sum.accepted),
    .fixed " accepted, ", .fixed (ofNat sum.catches), .fixed " catches, ",
    .fixed (ofNat sum.rejected), .fixed " rejected"]]

def acceptedPieces (t : AcceptedTest) : List (Piece Value) :=
  [.fixed "  + ", .shown (t.path, capName), .fixed " [", .shown (t.language, capName),
    .fixed "]  → ", .shown (t.reproduction, capText)]

/-- What a row says of a catch apart from its texts. -/
def verdictPieces (v : CatchDecision × Binary64) : List (Piece Value) :=
  [.fixed "  ! [", .fixed (severityOf v.1 v.2).asStr, .fixed "] ", .fixed v.1.debug,
    .fixed " tp=", .fixed v.2.toFixed2, .fixed " "]

def catchPieces (c : CatchReport) : List (Piece Value) :=
  verdictPieces (c.decision, c.tpProbability) ++
    [.shown (c.path, capName), .fixed " → ", .shown (c.rationale, capText)]

def rejectedPieces (r : RejectedCandidate) : List (Piece Value) :=
  [.fixed "  - ", .shown (r.path, capName), .fixed " (", .shown (r.reason, capText), .fixed ")"]

def warningPieces (w : Text) : List (Piece Value) := [.fixed "  ! ", .shown (w, capText)]

/-- A titled list of rows, with a row of its own when it is empty. -/
def listRows {α : Type} (title : Text) (row : α → List (Piece Value)) (l : List α) :
    List (List (Piece Value)) :=
  [[], [.fixed title]] ++ (if l.isEmpty then [[.fixed "  (none)"]] else []) ++ l.map row

/-- A titled list of rows that is left out when it is empty. -/
def optionalRows {α : Type} (title : Text) (row : α → List (Piece Value)) (l : List α) :
    List (List (Piece Value)) :=
  if l.isEmpty then [] else [[], [.fixed title]] ++ l.map row

def resultRows (report : RunReport) : List (List (Piece Value)) :=
  match report.mode with
  | .harden => listRows "Accepted tests:" acceptedPieces report.accepted
  | .catch => listRows "Catches (report-only):" catchPieces report.catches

def rows (report : RunReport) : List (List (Piece Value)) :=
  headerRows report ++ summaryRows report.summary ++ resultRows report ++
    optionalRows "Rejected:" rejectedPieces report.rejected ++
    optionalRows "Warnings:" warningPieces report.warnings

private theorem header_lines (a version b run c repo d base e head f mode : Text) :
    (a ++ version ++ b ++ run ++ ['\n']) ++
        (c ++ repo ++ '\n' :: d ++ base ++ e ++ head ++ '\n' :: f ++ mode ++ ['\n']) =
      unlines [a ++ (version ++ (b ++ (run ++ []))), c ++ (repo ++ []),
        d ++ (base ++ (e ++ (head ++ []))), f ++ (mode ++ [])] := by
  simp [unlines]

private theorem header_eq (report : RunReport) :
    header report = document view (headerRows report) :=
  header_lines "jitgen " _ " — run " _ "repo: " _ "base: " _ "  head: " _ "mode: " _

private theorem summary_lines (a n₁ b n₂ c n₃ d n₄ e n₅ f : Text) :
    '\n' :: a ++ n₁ ++ b ++ n₂ ++ c ++ n₃ ++ d ++ n₄ ++ e ++ n₅ ++ (f ++ ['\n']) =
      unlines [[], a ++ (n₁ ++ (b ++ (n₂ ++ (c ++ (n₃ ++ (d ++ (n₄ ++ (e ++ (n₅ ++
        (f ++ []))))))))))] := by
  simp [unlines]

private theorem summary_eq (sum : RunSummary) : summary sum = document view (summaryRows sum) :=
  summary_lines "summary: " _ " targets, " _ " candidates, " _ " accepted, " _ " catches, " _
    " rejected"

private theorem acceptedRow_eq (t : AcceptedTest) :
    acceptedRow t = rowText view (acceptedPieces t) ++ ['\n'] := by
  have hrow : ∀ a path b language c reproduction : Text,
      a ++ path ++ b ++ language ++ c ++ reproduction ++ ['\n'] =
        a ++ (path ++ (b ++ (language ++ (c ++ (reproduction ++ []))))) ++ ['\n'] := by
    simp
  exact hrow "  + " _ " [" _ "]  → " _

private theorem catchRow_eq (c : CatchReport) :
    catchRow c = rowText view (catchPieces c) ++ ['\n'] := by
  have hrow : ∀ a severity b decision d tp e path f rationale : Text,
      a ++ severity ++ b ++ decision ++ d ++ tp ++ e ++ path ++ f ++ rationale ++ ['\n'] =
        a ++ (severity ++ (b ++ (decision ++ (d ++ (tp ++ (e ++ (path ++ (f ++ (rationale ++
          []))))))))) ++ ['\n'] := by
    simp
  exact hrow "  ! [" _ "] " _ " tp=" _ " " _ " → " _

theorem rejectedRow_eq (r : RejectedCandidate) :
    rejectedRow r = rowText view (rejectedPieces r) ++ ['\n'] := by
  have hrow : ∀ a path b reason c : Text,
      a ++ path ++ b ++ reason ++ (c ++ ['\n']) =
        a ++ (path ++ (b ++ (reason ++ (c ++ [])))) ++ ['\n'] := by
    simp
  exact hrow "  - " _ " (" _ ")"

private theorem warningRow_eq (w : Text) :
    warningRow w = rowText view (warningPieces w) ++ ['\n'] := by
  have hrow : ∀ a warning : Text, a ++ warning ++ ['\n'] = a ++ (warning ++ []) ++ ['\n'] := by
    simp
  exact hrow "  ! " _

section

variable {α : Type} (title : Text) {row : α → Text} {pieces : α → List (Piece Value)}

private theorem rows_eq (hrow : ∀ x, row x = rowText view (pieces x) ++ ['\n']) (l : List α) :
    l.flatMap row = document view (l.map pieces) := by
  rw [document_map]
  congr 1
  exact funext hrow

private theorem title_eq : '\n' :: (title ++ ['\n']) = document view [[], [.fixed title]] := by
  simp [document, rowText, Piece.text, unlines]

private theorem listRows_eq (hrow : ∀ x, row x = rowText view (pieces x) ++ ['\n']) (l : List α) :
    '\n' :: (title ++ ['\n']) ++ noneRow l ++ l.flatMap row =
      document view (listRows title pieces l) := by
  have hnone : noneRow l = document view (if l.isEmpty then [[.fixed "  (none)"]] else []) := by
    cases l <;> rfl
  rw [listRows, document_append, document_append, title_eq, hnone, rows_eq hrow]

private theorem optionalRows_eq (hrow : ∀ x, row x = rowText view (pieces x) ++ ['\n'])
    (l : List α) :
    (if l.isEmpty then [] else '\n' :: (title ++ ['\n']) ++ l.flatMap row) =
      document view (optionalRows title pieces l) := by
  rw [optionalRows]
  split_ifs
  · rfl
  · rw [document_append, title_eq, rows_eq hrow]

end

theorem render_eq (report : RunReport) : render report = document view (rows report) := by
  have hresults : results report = document view (resultRows report) := by
    unfold results resultRows
    cases report.mode with
    | harden => exact listRows_eq "Accepted tests:" acceptedRow_eq _
    | «catch» => exact listRows_eq "Catches (report-only):" catchRow_eq _
  have hrejected := optionalRows_eq "Rejected:" rejectedRow_eq report.rejected
  have hwarnings := optionalRows_eq "Warnings:" warningRow_eq report.warnings
  rw [rows, document_append, document_append, document_append, document_append, ← header_eq,
    ← summary_eq, ← hresults, ← hrejected, ← hwarnings]
  rfl

/-- The same mode, list lengths, summary, decisions and probabilities. -/
structure SameShape (r r' : RunReport) : Prop where
  mode : r.mode = r'.mode
  summary : r.summary = r'.summary
  accepted : r.accepted.length = r'.accepted.length
  catches : r.catches.map (fun c => (c.decision, c.tpProbability)) =
    r'.catches.map fun c => (c.decision, c.tpProbability)
  rejected : r.rejected.length = r'.rejected.length
  warnings : r.warnings.length = r'.warnings.length

section

variable {α β : Type} {pieces : α → List (Piece Value)} {l l' : List α}

private theorem isEmpty_eq (hlen : l.length = l'.length) : l.isEmpty = l'.isEmpty := by
  cases l <;> cases l' <;> simp_all

private theorem skeleton_map (f : α → β) (template : β → List (Option Text))
    (h : ∀ x, skeleton (pieces x) = template (f x)) (hl : l.map f = l'.map f) :
    (l.map pieces).map skeleton = (l'.map pieces).map skeleton := by
  have hrows : ∀ l : List α, (l.map pieces).map skeleton = (l.map f).map template := by
    intro l
    rw [List.map_map, List.map_map]
    exact List.map_congr_left fun x _ => h x
  rw [hrows, hrows, hl]

private theorem skeleton_listRows (title : Text) (hlen : l.length = l'.length)
    (h : (l.map pieces).map skeleton = (l'.map pieces).map skeleton) :
    (listRows title pieces l).map skeleton = (listRows title pieces l').map skeleton := by
  simp only [listRows, List.map_append, h, isEmpty_eq hlen]

private theorem skeleton_optionalRows (title : Text) (hlen : l.length = l'.length)
    (h : (l.map pieces).map skeleton = (l'.map pieces).map skeleton) :
    (optionalRows title pieces l).map skeleton = (optionalRows title pieces l').map skeleton := by
  rw [optionalRows, optionalRows, isEmpty_eq hlen]
  split_ifs
  · rfl
  · rw [List.map_append, List.map_append, h]

private theorem map_unit_eq (hlen : l.length = l'.length) :
    l.map (fun _ => ()) = l'.map fun _ => () := by
  rw [List.map_const', List.map_const', hlen]

end

private theorem SameShape.skeleton_eq {r r' : RunReport} (h : SameShape r r') :
    (rows r).map skeleton = (rows r').map skeleton := by
  have hheader : (headerRows r).map skeleton = (headerRows r').map skeleton := by
    simp [headerRows, skeleton, h.mode]
  have hcatches : r.catches.length = r'.catches.length := by
    simpa using congrArg List.length h.catches
  have haccepted : (r.accepted.map acceptedPieces).map skeleton =
      (r'.accepted.map acceptedPieces).map skeleton :=
    skeleton_map (fun _ => ()) (fun _ => [some "  + ", none, some " [", none, some "]  → ", none])
      (fun _ => rfl) (map_unit_eq h.accepted)
  have hverdicts : (r.catches.map catchPieces).map skeleton =
      (r'.catches.map catchPieces).map skeleton :=
    skeleton_map (fun c => (c.decision, c.tpProbability))
      (fun v => skeleton (verdictPieces v) ++ [none, some (" → " : Text), none])
      (fun _ => rfl) h.catches
  have hrejected : (r.rejected.map rejectedPieces).map skeleton =
      (r'.rejected.map rejectedPieces).map skeleton :=
    skeleton_map (fun _ => ()) (fun _ => [some "  - ", none, some " (", none, some ")"])
      (fun _ => rfl) (map_unit_eq h.rejected)
  have hwarnings : (r.warnings.map warningPieces).map skeleton =
      (r'.warnings.map warningPieces).map skeleton :=
    skeleton_map (fun _ => ()) (fun _ => [some "  ! ", none]) (fun _ => rfl)
      (map_unit_eq h.warnings)
  have hresults : (resultRows r).map skeleton = (resultRows r').map skeleton := by
    unfold resultRows
    rw [h.mode]
    cases r'.mode with
    | harden => exact skeleton_listRows _ h.accepted haccepted
    | «catch» => exact skeleton_listRows _ hcatches hverdicts
  simp only [rows, List.map_append]
  rw [hheader, h.summary, hresults, skeleton_optionalRows _ h.rejected hrejected,
    skeleton_optionalRows _ h.warnings hwarnings]

/-- The Unicode property `Bidi_Control`. -/
def isBidiControl (c : Char) : Bool :=
  let n := c.toNat
  n == 0x61C || n == 0x200E || n == 0x200F || (0x202A ≤ n && n ≤ 0x202E) ||
    (0x2066 ≤ n && n ≤ 0x2069)

/-- The directional mark of the Arabic block, which is not among the stripped characters. -/
def arabicLetterMark : Char := Char.ofNat 0x61C

def isPlain (c : Char) : Bool := !isControl c && !isBidiControl c && !isLineBreak c

private theorem isPlain_of_printable {c : Char} (h : 0x20 ≤ c.toNat ∧ c.toNat < 0x7F) :
    isPlain c = true := by
  simp [isPlain, isControl, isBidiControl, isLineBreak]
  omega

theorem of_mem_sanitizeLine {s : Text} {max : Nat} {c : Char} (h : c ∈ sanitizeLine s max) :
    isPlain c = true ∨ c = arabicLetterMark := by
  have ⟨d, hd, hflat⟩ := List.mem_map.mp h
  split_ifs at hflat with hline
  · rw [← hflat]
    exact .inl (by decide)
  · have hkept := (of_mem_sanitize hd).2
    rw [hflat] at hkept hline
    by_cases hmark : c = arabicLetterMark
    · exact .inr hmark
    have hmark' : c.toNat ≠ 0x61C := fun heq => hmark (Char.toNat_inj.mp heq)
    have hnewline : c.toNat ≠ 0xA := fun heq => hline (.inl (Char.toNat_inj.mp heq))
    have htab : c.toNat ≠ 0x9 := fun heq => hline (.inr (Char.toNat_inj.mp heq))
    left
    simp [isStrippable] at hkept
    simp [isPlain, isControl, isBidiControl, isLineBreak]
    omega

private theorem mem_sanitizeLine_iff {c : Char} (hblank : c ≠ ' ') (hline : c ≠ '\n')
    (htab : c ≠ '\t') (s : Text) (max : Nat) : c ∈ sanitizeLine s max ↔ c ∈ sanitize s max := by
  constructor
  · intro h
    have ⟨d, hd, hflat⟩ := List.mem_map.mp h
    split_ifs at hflat
    · exact absurd hflat.symm hblank
    · exact hflat ▸ hd
  · intro h
    exact List.mem_map.mpr ⟨c, h, if_neg (by simp [hline, htab])⟩

def PlainRow (row : List (Piece Value)) : Prop :=
  ∀ p ∈ row, ∀ t, p = .fixed t → ∀ c ∈ t, isPlain c = true

private theorem plainRow_nil : PlainRow [] := fun _ h => absurd h List.not_mem_nil

private theorem plainRow_fixed {t : Text} {row : List (Piece Value)} (ht : t.all isPlain = true)
    (hrow : PlainRow row) : PlainRow (.fixed t :: row) := by
  intro p hp u hu c hc
  cases hp with
  | head =>
    cases hu
    exact List.all_eq_true.mp ht c hc
  | tail _ hp => exact hrow p hp u hu c hc

private theorem plainRow_shown (v : Value) {row : List (Piece Value)} (hrow : PlainRow row) :
    PlainRow (.shown v :: row) := by
  intro p hp u hu
  cases hp with
  | head => cases hu
  | tail _ hp => exact hrow p hp u hu

theorem all_isPlain_ofNat (n : Nat) : (ofNat n).all isPlain = true := by
  apply List.all_eq_true.mpr
  intro c hc
  have hrange := range_of_mem_ofNat hc
  exact isPlain_of_printable ⟨by omega, by omega⟩

theorem all_isPlain_toFixed2 (a : Binary64) : a.toFixed2.all isPlain = true :=
  List.all_eq_true.mpr fun _ hc => isPlain_of_printable (Binary64.printable_of_mem_toFixed2 hc)

private theorem plain_headerRows (report : RunReport) :
    ∀ row ∈ headerRows report, PlainRow row := by
  have hmode : report.mode.asStr.all isPlain = true := by
    cases report.mode <;> decide
  intro row hrow
  simp only [headerRows, List.mem_cons, List.not_mem_nil, or_false] at hrow
  rcases hrow with rfl | rfl | rfl | rfl
  · exact plainRow_fixed (by decide) <| plainRow_shown _ <| plainRow_fixed (by decide) <|
      plainRow_shown _ plainRow_nil
  · exact plainRow_fixed (by decide) <| plainRow_shown _ plainRow_nil
  · exact plainRow_fixed (by decide) <| plainRow_shown _ <| plainRow_fixed (by decide) <|
      plainRow_shown _ plainRow_nil
  · exact plainRow_fixed (by decide) <| plainRow_fixed hmode plainRow_nil

private theorem plain_summaryRows (sum : RunSummary) : ∀ row ∈ summaryRows sum, PlainRow row := by
  have hcount : ∀ (n : Nat) (t : Text) (row : List (Piece Value)), t.all isPlain = true →
      PlainRow row → PlainRow (.fixed (ofNat n) :: .fixed t :: row) :=
    fun n _ _ ht hrow => plainRow_fixed (all_isPlain_ofNat n) (plainRow_fixed ht hrow)
  intro row hrow
  simp only [summaryRows, List.mem_cons, List.not_mem_nil, or_false] at hrow
  rcases hrow with rfl | rfl
  · exact plainRow_nil
  · exact plainRow_fixed (by decide) <| hcount _ _ _ (by decide) <| hcount _ _ _ (by decide) <|
      hcount _ _ _ (by decide) <| hcount _ _ _ (by decide) <| hcount _ _ _ (by decide) plainRow_nil

private theorem plain_acceptedPieces (t : AcceptedTest) : PlainRow (acceptedPieces t) :=
  plainRow_fixed (by decide) <| plainRow_shown _ <| plainRow_fixed (by decide) <|
    plainRow_shown _ <| plainRow_fixed (by decide) <| plainRow_shown _ plainRow_nil

private theorem plain_catchPieces (c : CatchReport) : PlainRow (catchPieces c) := by
  have hseverity : (severityOf c.decision c.tpProbability).asStr.all isPlain = true := by
    cases severityOf c.decision c.tpProbability <;> decide
  have hdecision : c.decision.debug.all isPlain = true := by
    cases c.decision <;> decide
  exact plainRow_fixed (by decide) <| plainRow_fixed hseverity <| plainRow_fixed (by decide) <|
    plainRow_fixed hdecision <| plainRow_fixed (by decide) <|
    plainRow_fixed (all_isPlain_toFixed2 _) <| plainRow_fixed (by decide) <| plainRow_shown _ <|
    plainRow_fixed (by decide) <| plainRow_shown _ plainRow_nil

private theorem plain_rejectedPieces (r : RejectedCandidate) : PlainRow (rejectedPieces r) :=
  plainRow_fixed (by decide) <| plainRow_shown _ <| plainRow_fixed (by decide) <|
    plainRow_shown _ <| plainRow_fixed (by decide) plainRow_nil

private theorem plain_warningPieces (w : Text) : PlainRow (warningPieces w) :=
  plainRow_fixed (by decide) <| plainRow_shown _ plainRow_nil

section

variable {α : Type} {title : Text} {pieces : α → List (Piece Value)} {l : List α}
  {row : List (Piece Value)}

private theorem plain_listRows (ht : title.all isPlain = true) (hp : ∀ x, PlainRow (pieces x))
    (h : row ∈ listRows title pieces l) : PlainRow row := by
  simp only [listRows, List.mem_append, List.mem_cons, List.not_mem_nil, or_false] at h
  rcases h with ((rfl | rfl) | h) | h
  · exact plainRow_nil
  · exact plainRow_fixed ht plainRow_nil
  · split_ifs at h
    · rw [List.mem_singleton.mp h]
      exact plainRow_fixed (by decide) plainRow_nil
    · cases h
  · obtain ⟨x, _, hx⟩ := List.mem_map.mp h
    exact hx ▸ hp x

private theorem plain_optionalRows (ht : title.all isPlain = true) (hp : ∀ x, PlainRow (pieces x))
    (h : row ∈ optionalRows title pieces l) : PlainRow row := by
  rw [optionalRows] at h
  split_ifs at h
  · cases h
  · simp only [List.mem_append, List.mem_cons, List.not_mem_nil, or_false] at h
    rcases h with (rfl | rfl) | h
    · exact plainRow_nil
    · exact plainRow_fixed ht plainRow_nil
    · obtain ⟨x, _, hx⟩ := List.mem_map.mp h
      exact hx ▸ hp x

end

private theorem plain_rows {report : RunReport} {row : List (Piece Value)} (h : row ∈ rows report) :
    PlainRow row := by
  simp only [rows, List.mem_append] at h
  rcases h with (((h | h) | h) | h) | h
  · exact plain_headerRows report row h
  · exact plain_summaryRows _ row h
  · unfold resultRows at h
    cases hmode : report.mode with
    | harden =>
      rw [hmode] at h
      exact plain_listRows (by decide) plain_acceptedPieces h
    | «catch» =>
      rw [hmode] at h
      exact plain_listRows (by decide) plain_catchPieces h
  · exact plain_optionalRows (by decide) plain_rejectedPieces h
  · exact plain_optionalRows (by decide) plain_warningPieces h

private theorem unbroken_rows (report : RunReport) : Unbroken view (rows report) := by
  have hplain : ∀ c, isPlain c = true → isLineBreak c = false := by
    intro c hc
    simp [isPlain] at hc
    exact hc.2
  intro row hrow p hp c hc
  cases p with
  | fixed t => exact hplain c (plain_rows hrow _ hp t rfl c hc)
  | shown v =>
    cases of_mem_sanitizeLine hc with
    | inl h => exact hplain c h
    | inr h =>
      rw [h]
      decide

/-- The values a report shows, with their caps. -/
def shownValues (report : RunReport) : List Value := (rows report).flatMap values

/-- The character is left of a value when its controls are gone and it is cut to its cap. -/
def Shows (c : Char) (v : Value) : Prop :=
  ∃ t shown, Control.Stripped v.1 t ∧ CutTo v.2 t shown ∧ c ∈ shown

private theorem shows_iff (c : Char) (v : Value) : Shows c v ↔ c ∈ sanitize v.1 v.2 := by
  constructor
  · intro h
    have ⟨t, shown, hstripped, hcut, hc⟩ := h
    rw [eq_cap_of_cutTo hcut, (stripped_iff v.1 t).mp hstripped] at hc
    exact hc
  · intro h
    exact ⟨_, _, (stripped_iff v.1 _).mpr rfl, cutTo_cap _ v.2, h⟩

/-- The mark is the one character by which a report fails to be plain. -/
private theorem mark_mem_render_iff (report : RunReport) :
    arabicLetterMark ∈ render report ↔ ∃ v ∈ shownValues report, Shows arabicLetterMark v := by
  have hview : ∀ v : Value, arabicLetterMark ∈ view v ↔ Shows arabicLetterMark v := fun v =>
    (mem_sanitizeLine_iff (by decide) (by decide) (by decide) v.1 v.2).trans (shows_iff _ v).symm
  rw [render_eq]
  constructor
  · intro h
    rcases of_mem_document view h with h | ⟨row, hrow, p, hp, hc⟩
    · exact absurd h (by decide)
    cases p with
    | fixed t => exact absurd (plain_rows hrow _ hp t rfl _ hc) (by decide)
    | shown v =>
      have hv : v ∈ values row := List.mem_filterMap.mpr ⟨_, hp, rfl⟩
      exact ⟨v, List.mem_flatMap.mpr ⟨row, hrow, hv⟩, (hview v).mp hc⟩
  · intro h
    have ⟨v, hv, hshows⟩ := h
    have ⟨row, hrow, hrowv⟩ := List.mem_flatMap.mp hv
    have ⟨p, hp, hpv⟩ := List.mem_filterMap.mp hrowv
    cases p with
    | fixed t => cases hpv
    | shown w =>
      cases hpv
      exact mem_document_of_mem view hrow hp ((hview v).mpr hshows)

private theorem of_mem_render {report : RunReport} {c : Char} (h : c ∈ render report)
    (hc : c ≠ '\n') :
    isPlain c = true ∨ c = arabicLetterMark := by
  rw [render_eq] at h
  rcases of_mem_document view h with h | ⟨row, hrow, p, hp, hmem⟩
  · exact absurd h hc
  cases p with
  | fixed t => exact .inl (plain_rows hrow _ hp t rfl c hmem)
  | shown v => exact of_mem_sanitizeLine hmem

def staticPrefixes (report : RunReport) : List Text :=
  (rows report).map fun row => staticPrefix (skeleton row)

private theorem lines_static (report : RunReport) :
    List.Forall₂ (· <+: ·) (staticPrefixes report ++ [[]]) ((render report).splitOn '\n') := by
  rw [render_eq, splitOn_document (unbroken_rows report), staticPrefixes]
  generalize rows report = rs
  induction rs with
  | nil => exact .cons List.nil_prefix .nil
  | cons row rs ih => exact .cons (staticPrefix_isPrefix view row) ih

/-- What no value of two reports changes. -/
structure Contained (r r' : RunReport) : Prop where
  lines : ∀ brk : Char → Bool, (∀ c, brk c = true → isLineBreak c = true) →
    lineCount brk (render r) = lineCount brk (render r')
  inert : ∀ c ∈ render r ++ render r', c ≠ '\n' → isControl c = false ∧ isBidiControl c = false
  template : (rows r).map skeleton = (rows r').map skeleton
  prefixes : staticPrefixes r = staticPrefixes r'
  left : List.Forall₂ (· <+: ·) (staticPrefixes r ++ [[]]) ((render r).splitOn '\n')
  right : List.Forall₂ (· <+: ·) (staticPrefixes r' ++ [[]]) ((render r').splitOn '\n')

private theorem contained_of_inert {r r' : RunReport} (h : SameShape r r')
    (hinert : ∀ c ∈ render r ++ render r', c ≠ '\n' →
      isControl c = false ∧ isBidiControl c = false) : Contained r r' where
  lines := by
    intro brk hbrk
    have hlength : (rows r).length = (rows r').length := by
      simpa using congrArg List.length h.skeleton_eq
    rw [render_eq, render_eq, lineCount_document (unbroken_rows r) hbrk,
      lineCount_document (unbroken_rows r') hbrk, hlength]
  inert := hinert
  template := h.skeleton_eq
  prefixes := by
    have hstatic := congrArg (List.map staticPrefix) h.skeleton_eq
    rw [List.map_map, List.map_map] at hstatic
    exact hstatic
  left := lines_static r
  right := lines_static r'

/-- Two reports of one shape are contained exactly when none of their values shows the mark. -/
theorem human_containment {r r' : RunReport} (h : SameShape r r') :
    Contained r r' ↔
      ∀ v ∈ shownValues r ++ shownValues r', ¬ Shows arabicLetterMark v := by
  have hmark : arabicLetterMark ∈ render r ++ render r' ↔
      ∃ v ∈ shownValues r ++ shownValues r', Shows arabicLetterMark v := by
    rw [List.mem_append, mark_mem_render_iff, mark_mem_render_iff]
    constructor
    · intro hmem
      rcases hmem with ⟨v, hv, hshows⟩ | ⟨v, hv, hshows⟩
      · exact ⟨v, List.mem_append_left _ hv, hshows⟩
      · exact ⟨v, List.mem_append_right _ hv, hshows⟩
    · intro hmem
      have ⟨v, hv, hshows⟩ := hmem
      exact (List.mem_append.mp hv).imp (fun hv => ⟨v, hv, hshows⟩) fun hv => ⟨v, hv, hshows⟩
  constructor
  · intro hcontained v hv hshows
    have hbidi := hcontained.inert _ (hmark.mpr ⟨v, hv, hshows⟩) (by decide)
    exact absurd hbidi.2 (by decide)
  · intro hfree
    apply contained_of_inert h
    intro c hc hline
    have hplain : isPlain c = true ∨ c = arabicLetterMark :=
      (List.mem_append.mp hc).elim (fun hc => of_mem_render hc hline) fun hc =>
        of_mem_render hc hline
    cases hplain with
    | inl hplain =>
      simp [isPlain] at hplain
      exact hplain.1
    | inr heq =>
      have ⟨v, hv, hshows⟩ := hmark.mp (heq ▸ hc)
      exact absurd hshows (hfree v hv)

/-- A hardening run with one accepted test, whose path and reproduction are given. -/
def oneTestReport (path reproduction : Text) : RunReport where
  schemaVersion := reportSchemaVersion
  jitgenVersion := "0.1.0"
  runId := "run-1"
  repo := "/r"
  base := "a"
  head := "b"
  mode := .harden
  strategy := .intentAware
  summary := ⟨1, 1, 1, 0, 0⟩
  accepted := [⟨"t", none, "rust", path, [], .hardenPass, reproduction⟩]
  catches := []
  rejected := []
  warnings := []

private theorem oneTestReport_sameShape (path reproduction path' reproduction' : Text) :
    SameShape (oneTestReport path reproduction) (oneTestReport path' reproduction') :=
  ⟨rfl, rfl, rfl, rfl, rfl, rfl⟩

theorem human_containment_forged_row :
    Contained (oneTestReport "a.rs" "cargo test")
      (oneTestReport "a.rs\nsummary: 0 rejected" "\u001b[2Kcargo\u2028test") := by
  apply (human_containment (oneTestReport_sameShape _ _ _ _)).mpr
  simp only [shows_iff]
  decide +kernel

/-- A path that holds the mark shows it. -/
theorem human_containment_mark :
    ¬ ∀ r r' : RunReport, SameShape r r' → Contained r r' := by
  intro h
  have hmem : arabicLetterMark ∈ render (oneTestReport [arabicLetterMark] []) := by
    decide +kernel
  have hinert := (h _ _ (oneTestReport_sameShape _ _ "a.rs" [])).inert _
    (List.mem_append_left _ hmem) (by decide)
  exact absurd hinert.2 (by decide)

end Human

end Jitgen
