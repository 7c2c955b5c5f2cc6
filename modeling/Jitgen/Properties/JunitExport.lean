import Jitgen.Framework.Numerals
import Jitgen.Framework.Xml
import Jitgen.Report.Junit

/-!
# The JUnit export is XML

Markup comes from the templates alone: what a report holds goes into attribute values and character
data, and the reader finds it there again. The stripping of controls covers the characters that XML
forbids except two.
-/

namespace Jitgen

open Text Xml

/-- The two characters that XML forbids and the stripping keeps. -/
def isNoncharacter (c : Char) : Bool := c.toNat == 0xFFFE || c.toNat == 0xFFFF

private theorem isChar_of_kept {c : Char} (hkept : isStrippable c = false)
    (hc : isNoncharacter c = false) : Xml.isChar c = true := by
  have hvalid : c.toNat < 0xD800 ∨ 0xDFFF < c.toNat := by
    rcases c.valid with h | h
    · exact .inl h
    · exact .inr h.1
  simp [isStrippable, isNoncharacter, Xml.isChar] at hkept hc ⊢
  omega

/-- What a text becomes on one line. -/
def flattenChar (c : Char) : Char := if c = '\n' ∨ c = '\t' ∨ c = '\r' then ' ' else c

def shownAttr (s : Text) (max : Nat) : Text := (sanitize s max).map flattenChar

private theorem readsData_xmlTextChar {c : Char} (hc : Xml.isChar c = true) :
    Reader.ReadsData xmlTextChar c := by
  by_cases hamp : c = '&'
  · subst hamp
    exact fun _ _ _ => ⟨0, rfl⟩
  by_cases hlt : c = '<'
  · subst hlt
    exact fun _ _ _ => ⟨0, rfl⟩
  by_cases hgt : c = '>'
  · subst hgt
    exact fun _ _ _ => ⟨0, rfl⟩
  apply Reader.readsData_self _ hc hlt hamp hgt
  simp [xmlTextChar, hamp, hlt, hgt]

private theorem readsValue_xmlAttrChar {c : Char} (hc : Xml.isChar c = true) :
    Reader.ReadsValue xmlAttrChar c (flattenChar c) := by
  by_cases hblank : c = '\n' ∨ c = '\t' ∨ c = '\r'
  · rw [flattenChar, if_pos hblank]
    intro tag attr value names rooted
    rw [xmlAttrChar, if_pos hblank]
    rfl
  by_cases hspecial : c ∈ ['&', '<', '>', '"', '\'']
  · intro tag attr value names rooted
    simp only [List.mem_cons, List.not_mem_nil, or_false] at hspecial
    rcases hspecial with rfl | rfl | rfl | rfl | rfl <;> rfl
  · simp only [List.mem_cons, List.not_mem_nil, or_false, not_or] at hspecial
    obtain ⟨hamp, hlt, hgt, hquote, hapos⟩ := hspecial
    have hself : xmlAttrChar c = [c] := by simp [xmlAttrChar, hblank, hamp, hlt, hgt, hquote, hapos]
    have hread := Reader.readsValue_self hself hc hlt hamp hquote
    have hflat : (if Xml.isSpace c then ' ' else c) = flattenChar c := by
      rw [flattenChar, if_neg hblank]
      split_ifs with hspace
      · simp only [Xml.isSpace, Bool.or_eq_true, beq_iff_eq] at hspace
        tauto
      · rfl
    rwa [hflat] at hread

/-- Every character of a shown text is one of XML. -/
def Shows (s : Text) (max : Nat) : Prop := ∀ c ∈ sanitize s max, Xml.isChar c = true

section

variable {s : Text} {max : Nat}

private theorem run_xmlText (hs : Shows s max) (brackets : Nat) (name : Text) (names : List Text) :
    ∃ brackets', Reader.run ⟨.content brackets, name :: names, true⟩ (xmlText s max) =
      some (⟨.content brackets', name :: names, true⟩, (sanitize s max).map .char) :=
  Reader.run_data (fun c hc => readsData_xmlTextChar (hs c hc)) brackets name names

private theorem run_xmlAttr (hs : Shows s max) (tag : Tag) (attr : Text) (names : List Text)
    (rooted : Bool) :
    Reader.run ⟨.attrValue tag attr '"' [], names, rooted⟩ (xmlAttr s max) =
      some (⟨.attrValue tag attr '"' (shownAttr s max), names, rooted⟩, []) :=
  Reader.run_value (fun c hc => readsValue_xmlAttrChar (hs c hc)) tag attr [] names rooted

end

def data (t : Text) : List Xml.Event := t.map .char

def element (name : Text) (attrs : List (Text × Text)) (es : List Xml.Event) : List Xml.Event :=
  [.start ⟨name, attrs⟩] ++ es ++ [.finish name]

namespace Junit

def caseAttrs (name classname : Text) : List (Text × Text) :=
  [("name", shownAttr name capName), ("classname", shownAttr classname capName)]

def acceptedEvents (t : AcceptedTest) : List Xml.Event :=
  data "    " ++ element "testcase" (caseAttrs (t.symbol.getD t.path) t.language) [] ++ data "\n"

def bodyEvents (c : CatchReport) : List Xml.Event :=
  let shown := data (sanitize (detail c) capDetail)
  if isFailure c then element "failure" [("message", shownAttr (verdict c) capName)] shown
  else element "system-out" [] shown

def catchEvents (c : CatchReport) : List Xml.Event :=
  data "    " ++ element "testcase" (caseAttrs c.path c.language)
    (data "\n" ++ (data "      " ++ bodyEvents c ++ data "\n") ++ data "    ") ++ data "\n"

def caseEvents (report : RunReport) : List Xml.Event :=
  match report.mode with
  | .harden => report.accepted.flatMap acceptedEvents
  | .catch => report.catches.flatMap catchEvents

def suiteAttrs (name : Text) (report : RunReport) : List (Text × Text) :=
  [("name", name), ("tests", ofNat (counts report).1), ("failures", ofNat (counts report).2)]

/-- The document with the texts of the report in the places of the templates. -/
def events (report : RunReport) : List Xml.Event :=
  element "testsuites" (suiteAttrs "jitgen" report)
    (data "\n" ++ data "  " ++
      element "testsuite" (suiteAttrs ("jitgen-" ++ report.mode.asStr) report)
        (data "\n" ++ caseEvents report ++ data "  ") ++
      data "\n")

def suite : List Text := ["testsuite", "testsuites"]

/-- Between two cases. -/
def inSuite : Reader := ⟨.content 0, suite, true⟩

/-- In the second value of the tag of a case. -/
def inClassname (name classname : Text) : Reader :=
  ⟨.attrValue ⟨"testcase", [("name", name)]⟩ "classname" '"' classname, suite, true⟩

private theorem run_caseTag {name classname : Text} (hname : Shows name capName)
    (hclass : Shows classname capName) :
    inSuite.run ("    <testcase name=\"" ++ xmlAttr name capName ++ "\" classname=\"" ++
        xmlAttr classname capName) =
      some (inClassname (shownAttr name capName) (shownAttr classname capName), data "    ") := by
  have hopen : inSuite.run "    <testcase name=\"" =
      some (⟨.attrValue ⟨"testcase", []⟩ "name" '"' [], suite, true⟩, data "    ") := by decide
  have hbetween : Reader.run ⟨.attrValue ⟨"testcase", []⟩ "name" '"' (shownAttr name capName),
      suite, true⟩ "\" classname=\"" = some (inClassname (shownAttr name capName) [], []) := rfl
  have hfirst := Reader.run_append hopen (run_xmlAttr hname ⟨"testcase", []⟩ "name" suite true)
  have hsecond := Reader.run_append hfirst hbetween
  exact Reader.run_append hsecond
    (run_xmlAttr hclass ⟨"testcase", [("name", shownAttr name capName)]⟩ "classname" suite true)

private theorem run_acceptedCase {t : AcceptedTest} (hname : Shows (t.symbol.getD t.path) capName)
    (hclass : Shows t.language capName) :
    inSuite.run (acceptedCase t) = some (inSuite, acceptedEvents t) := by
  have hclose : ∀ name classname : Text, (inClassname name classname).run "\"/>\n" =
      some (inSuite, element "testcase" [("name", name), ("classname", classname)] [] ++
        data "\n") := fun _ _ => rfl
  rw [acceptedEvents, List.append_assoc]
  exact Reader.run_append (run_caseTag hname hclass) (hclose _ _)

/-- Behind the tag of a case. -/
def inCase : Reader := ⟨.content 0, "testcase" :: suite, true⟩

private theorem run_markup (brackets : Nat) (opened : List Text) (t : Text) :
    Reader.run ⟨.content brackets, opened, true⟩ ('<' :: t) =
      Reader.run ⟨.content 0, opened, true⟩ ('<' :: t) := rfl

private theorem run_catchBody {c : CatchReport} (hverdict : Shows (verdict c) capName)
    (hdetail : Shows (detail c) capDetail) :
    inCase.run (catchBody c) = some (inCase, data "      " ++ bodyEvents c ++ data "\n") := by
  unfold catchBody bodyEvents
  dsimp only
  split_ifs
  · have hopen : inCase.run "      <failure message=\"" =
        some (⟨.attrValue ⟨"failure", []⟩ "message" '"' [], "testcase" :: suite, true⟩,
          data "      ") := by decide
    have hvalue := Reader.run_append hopen
      (run_xmlAttr hverdict ⟨"failure", []⟩ "message" ("testcase" :: suite) true)
    have hstart : ∀ v : Text, Reader.run ⟨.attrValue ⟨"failure", []⟩ "message" '"' v,
        "testcase" :: suite, true⟩ "\">" =
        some (⟨.content 0, "failure" :: "testcase" :: suite, true⟩,
          [.start ⟨"failure", [("message", v)]⟩]) := fun _ => rfl
    obtain ⟨brackets, hshown⟩ := run_xmlText hdetail 0 "failure" ("testcase" :: suite)
    have hend : Reader.run ⟨.content brackets, "failure" :: "testcase" :: suite, true⟩
        "</failure>\n" = some (inCase, [.finish "failure"] ++ data "\n") := by
      refine (run_markup brackets _ _).trans ?_
      decide
    have hall := Reader.run_append (Reader.run_append (Reader.run_append hvalue (hstart _)) hshown)
      hend
    simpa [element, data] using hall
  · have hopen : inCase.run "      <system-out>" =
        some (⟨.content 0, "system-out" :: "testcase" :: suite, true⟩,
          data "      " ++ [.start ⟨"system-out", []⟩]) := by decide
    obtain ⟨brackets, hshown⟩ := run_xmlText hdetail 0 "system-out" ("testcase" :: suite)
    have hend : Reader.run ⟨.content brackets, "system-out" :: "testcase" :: suite, true⟩
        "</system-out>\n" = some (inCase, [.finish "system-out"] ++ data "\n") := by
      refine (run_markup brackets _ _).trans ?_
      decide
    have hall := Reader.run_append (Reader.run_append hopen hshown) hend
    simpa [element, data] using hall

private theorem append_case (margin tag body close newline : List Xml.Event) :
    margin ++ (tag ++ newline) ++ body ++ (margin ++ close ++ newline) =
      margin ++ (tag ++ (newline ++ body ++ margin) ++ close) ++ newline := by
  simp only [List.append_assoc]

private theorem run_catchCase {c : CatchReport} (hname : Shows c.path capName)
    (hclass : Shows c.language capName) (hverdict : Shows (verdict c) capName)
    (hdetail : Shows (detail c) capDetail) :
    inSuite.run (catchCase c) = some (inSuite, catchEvents c) := by
  have hclose : ∀ name classname : Text, (inClassname name classname).run "\">\n" =
      some (inCase, [.start ⟨"testcase", [("name", name), ("classname", classname)]⟩] ++
        data "\n") := fun _ _ => rfl
  have hend : inCase.run "    </testcase>\n" =
      some (inSuite, data "    " ++ [.finish "testcase"] ++ data "\n") := by decide
  have htag := Reader.run_append (run_caseTag hname hclass) (hclose _ _)
  rw [catchEvents, element, ← append_case]
  exact Reader.run_append (Reader.run_append htag (run_catchBody hverdict hdetail)) hend

private theorem run_ofNat (n : Nat) (tag : Tag) (attr : Text) (names : List Text) (rooted : Bool) :
    Reader.run ⟨.attrValue tag attr '"' [], names, rooted⟩ (ofNat n) =
      some (⟨.attrValue tag attr '"' (ofNat n), names, rooted⟩, []) := by
  have hdigit : ∀ c ∈ ofNat n, Reader.ReadsValue (fun c => [c]) c c := by
    intro c hc
    have hrange := range_of_mem_ofNat hc
    have hchar : Xml.isChar c = true := by
      simp [Xml.isChar]
      omega
    have hne : ∀ d : Char, ¬ (48 ≤ d.toNat ∧ d.toNat ≤ 57) → c ≠ d := fun d hd heq =>
      hd (heq ▸ hrange)
    have hspace : Xml.isSpace c = false := by
      simp [Xml.isSpace, hne ' ' (by decide), hne '\t' (by decide), hne '\n' (by decide),
        hne '\r' (by decide)]
    have hread := @Reader.readsValue_self c (fun c => [c]) rfl hchar (hne '<' (by decide))
      (hne '&' (by decide)) (hne '"' (by decide))
    simpa [hspace] using hread
  have hrun := @Reader.run_value (fun c => [c]) id (ofNat n) hdigit tag attr [] names rooted
  simpa using hrun

/-- The tag of a suite, from the number of tests on. -/
private theorem run_suiteTag {r : Reader} {front name value : Text} {names : List Text}
    {rooted : Bool} {es : List Xml.Event} (report : RunReport)
    (hfront : r.run front =
      some (⟨.attrValue ⟨name, [("name", value)]⟩ "tests" '"' [], names, rooted⟩, es)) :
    r.run (front ++ ofNat (counts report).1 ++ "\" failures=\"" ++ ofNat (counts report).2 ++
        "\">\n") =
      some (⟨.content 0, name :: names, true⟩,
        es ++ ([.start ⟨name, suiteAttrs value report⟩] ++ data "\n")) := by
  have hbetween : ∀ tests : Text, Reader.run
      ⟨.attrValue ⟨name, [("name", value)]⟩ "tests" '"' tests, names, rooted⟩ "\" failures=\"" =
      some (⟨.attrValue ⟨name, [("name", value), ("tests", tests)]⟩ "failures" '"' [], names,
        rooted⟩, []) := fun _ => rfl
  have hclose : ∀ tests failures : Text, Reader.run
      ⟨.attrValue ⟨name, [("name", value), ("tests", tests)]⟩ "failures" '"' failures, names,
        rooted⟩ "\">\n" =
      some (⟨.content 0, name :: names, true⟩,
        [.start ⟨name, [("name", value), ("tests", tests), ("failures", failures)]⟩] ++
          data "\n") := fun _ _ => rfl
  have htests := Reader.run_append hfront (run_ofNat (counts report).1 _ _ _ _)
  have hfailures := Reader.run_append (Reader.run_append htests (hbetween _))
    (run_ofNat (counts report).2 _ _ _ _)
  have hall := Reader.run_append hfailures (hclose _ _)
  simpa only [List.append_nil, suiteAttrs] using hall

private theorem append_suites (tags tag cases close newline margin closed : List Xml.Event) :
    [] ++ ([] ++ (tags ++ newline)) ++ (margin ++ (tag ++ newline)) ++ cases ++
        (margin ++ close ++ newline) ++ closed =
      tags ++ (newline ++ margin ++ (tag ++ (newline ++ cases ++ margin) ++ close) ++ newline) ++
        closed := by
  simp only [List.nil_append, List.append_assoc]

private theorem append_parts (declaration newline suites suite cases close closed : Text) :
    declaration ++ (newline ++ suites ++ suite ++ cases ++ close ++ closed) =
      declaration ++ newline ++ suites ++ suite ++ cases ++ close ++ closed := by
  simp only [List.append_assoc]

/-- Where the cases are read as they should be, the whole document is. -/
private theorem read_render {report : RunReport}
    (hcases : inSuite.run (cases report) = some (inSuite, caseEvents report)) :
    Xml.read (render report) = some (events report) := by
  have hnewline : Reader.run ⟨.content 0, [], false⟩ "\n" =
      some (⟨.content 0, [], false⟩, []) := by decide
  have hsuites : Reader.run ⟨.content 0, [], false⟩ "<testsuites name=\"jitgen\" tests=\"" =
      some (⟨.attrValue ⟨"testsuites", [("name", "jitgen")]⟩ "tests" '"' [], [], false⟩, []) := by
    decide
  have hsuite : Reader.run ⟨.content 0, ["testsuites"], true⟩
      ("  <testsuite name=\"jitgen-" ++ report.mode.asStr ++ "\" tests=\"") =
      some (⟨.attrValue ⟨"testsuite", [("name", "jitgen-" ++ report.mode.asStr)]⟩ "tests" '"' [],
        ["testsuites"], true⟩, data "  ") := by
    cases report.mode <;> decide
  have hend : inSuite.run "  </testsuite>\n" =
      some (⟨.content 0, ["testsuites"], true⟩,
        data "  " ++ [.finish "testsuite"] ++ data "\n") := by
    decide
  have hclosed : Reader.run ⟨.content 0, ["testsuites"], true⟩ "</testsuites>\n" =
      some (⟨.content 0, [], true⟩, [.finish "testsuites"]) := by decide
  have hbegin := Reader.run_append (Reader.run_append hnewline (run_suiteTag report hsuites))
    (run_suiteTag report hsuite)
  have hall := Reader.run_append (Reader.run_append (Reader.run_append hbegin hcases) hend) hclosed
  rw [append_suites] at hall
  have hdoc := read_of_run hall
  rw [append_parts] at hdoc
  exact hdoc

section

variable {name : Text}

private theorem count_data (t : Text) : count name (data t) = 0 := count_char t

private theorem count_element (tag : Text) (attrs : List (Text × Text)) (es : List Xml.Event) :
    count name (element tag attrs es) = (if tag == name then 1 else 0) + count name es := by
  rw [element, count_append, count_append]
  simp [count, List.countP_cons]

end

private theorem count_bodyEvents (c : CatchReport) :
    count "testcase" (bodyEvents c) = 0 ∧
      count "failure" (bodyEvents c) = if isFailure c then 1 else 0 := by
  unfold bodyEvents
  dsimp only
  split_ifs <;> rw [count_element, count_element, count_data, count_data] <;> decide

private theorem count_catchEvents (c : CatchReport) :
    count "testcase" (catchEvents c) = 1 ∧
      count "failure" (catchEvents c) = if isFailure c then 1 else 0 := by
  obtain ⟨htests, hfailures⟩ := count_bodyEvents c
  simp only [catchEvents, count_append, count_element, count_data, htests, hfailures]
  cases isFailure c <;> decide

private theorem count_acceptedEvents (t : AcceptedTest) :
    count "testcase" (acceptedEvents t) = 1 ∧ count "failure" (acceptedEvents t) = 0 := by
  simp only [acceptedEvents, count_append, count_element, count_data]
  decide

private theorem count_caseEvents (report : RunReport) :
    count "testcase" (caseEvents report) = (counts report).1 ∧
      count "failure" (caseEvents report) = (counts report).2 := by
  unfold caseEvents counts
  cases report.mode with
  | harden =>
    dsimp only
    rw [count_flatMap, count_flatMap]
    simp only [count_acceptedEvents]
    simp
  | «catch» =>
    dsimp only
    rw [count_flatMap, count_flatMap]
    simp only [count_catchEvents]
    constructor
    · simp
    · rw [← List.countP_eq_length_filter]
      induction report.catches with
      | nil => rfl
      | cons c cs ih =>
        rw [List.map_cons, List.sum_cons, ih, List.countP_cons]
        omega

private theorem count_events (report : RunReport) :
    count "testcase" (events report) = (counts report).1 ∧
      count "failure" (events report) = (counts report).2 := by
  obtain ⟨htests, hfailures⟩ := count_caseEvents report
  simp only [events, count_append, count_element, count_data, htests, hfailures]
  have hnames : ∀ tag ∈ [("testsuites" : Text), "testsuite"],
      (tag == "testcase") = false ∧ (tag == "failure") = false := by decide
  obtain ⟨hsuites, hsuite, -⟩ := List.forall_mem_cons.mp hnames |>.imp_right List.forall_mem_cons.mp
  simp only [hsuites, hsuite, Bool.false_eq_true, if_false]
  omega

private theorem start_mem_element {tag : Tag} {name : Text} {attrs : List (Text × Text)}
    {es : List Xml.Event} :
    .start tag ∈ element name attrs es ↔ tag = ⟨name, attrs⟩ ∨ .start tag ∈ es := by
  simp [element]

private theorem start_notMem_data {tag : Tag} {t : Text} : .start tag ∉ data t := by
  simp [data]

/-- The elements of a case. -/
def caseNames : List Text := ["testcase", "failure", "system-out"]

private theorem name_of_bodyEvents {tag : Tag} {c : CatchReport} (h : .start tag ∈ bodyEvents c) :
    tag.name ∈ caseNames := by
  unfold bodyEvents at h
  dsimp only at h
  split_ifs at h
  · rcases start_mem_element.mp h with rfl | h
    · show ("failure" : Text) ∈ caseNames
      decide
    · exact absurd h start_notMem_data
  · rcases start_mem_element.mp h with rfl | h
    · decide
    · exact absurd h start_notMem_data

private theorem name_of_caseEvents {tag : Tag} {report : RunReport}
    (h : .start tag ∈ caseEvents report) :
    tag.name ∈ caseNames := by
  unfold caseEvents at h
  split at h
  · obtain ⟨t, -, h⟩ := List.mem_flatMap.mp h
    simp only [acceptedEvents, List.mem_append, start_mem_element, start_notMem_data,
      List.not_mem_nil, false_or, or_false] at h
    rw [h]
    show ("testcase" : Text) ∈ caseNames
    decide
  · obtain ⟨c, -, h⟩ := List.mem_flatMap.mp h
    simp only [catchEvents, List.mem_append, start_mem_element, start_notMem_data, false_or,
      or_false] at h
    rcases h with h | h
    · rw [h]
      show ("testcase" : Text) ∈ caseNames
      decide
    · exact name_of_bodyEvents h

private theorem attrs_of_events {tag : Tag} {report : RunReport} (h : .start tag ∈ events report) :
    tag.name ∈ caseNames ∨ ∃ value, tag.attrs = suiteAttrs value report := by
  simp only [events, List.mem_append, start_mem_element, start_notMem_data, false_or,
    or_false] at h
  rcases h with rfl | rfl | h
  · exact .inr ⟨_, rfl⟩
  · exact .inr ⟨_, rfl⟩
  · exact .inl (name_of_caseEvents h)

/-- What a JUnit document of a report is: XML throughout, with the elements and attributes of the
templates and the texts of the report in their places, and with the right counts on the suites. -/
structure IsExport (report : RunReport) (doc : Text) : Prop where
  chars : ∀ c ∈ doc, Xml.isChar c = true
  reads : Xml.read doc = some (events report)
  counted : ∀ tag, .start tag ∈ events report → tag.name ∈ [("testsuites" : Text), "testsuite"] →
    (("tests" : Text), ofNat (count "testcase" (events report))) ∈ tag.attrs ∧
      (("failures" : Text), ofNat (count "failure" (events report))) ∈ tag.attrs

/-- What the export shows of a report, without controls and capped. -/
def shownTexts (report : RunReport) : List Text :=
  match report.mode with
  | .harden => report.accepted.flatMap fun t =>
    [sanitize (t.symbol.getD t.path) capName, sanitize t.language capName]
  | .catch => report.catches.flatMap fun c =>
    [sanitize c.path capName, sanitize c.language capName, sanitize (detail c) capDetail]

private theorem shows_of_noncharacter {s : Text} {max : Nat}
    (h : ∀ c ∈ sanitize s max, isNoncharacter c = false) : Shows s max :=
  fun c hc => isChar_of_kept (of_mem_sanitize hc).2 (h c hc)

private theorem verdict_ascii (c : CatchReport) : ∀ x ∈ verdict c, x.toNat < 128 := by
  have hdecision : ∀ d : CatchDecision, ∀ x ∈ d.debug, x.toNat < 128 := by
    intro d
    cases d <;> exact forall_mem_of_all (by decide)
  have hopen : ∀ x ∈ (" (tp=" : Text), x.toNat < 128 := forall_mem_of_all (by decide)
  have hclose : ∀ x ∈ (")" : Text), x.toNat < 128 := forall_mem_of_all (by decide)
  intro x hx
  unfold verdict at hx
  simp only [List.mem_append] at hx
  rcases hx with ((hx | hx) | hx) | hx
  · exact hdecision _ x hx
  · exact hopen x hx
  · have := Binary64.printable_of_mem_toFixed2 hx
    omega
  · exact hclose x hx

private theorem shows_verdict (c : CatchReport) : Shows (verdict c) capName := by
  have hmarker : ∀ x ∈ truncationMarker, isNoncharacter x = false :=
    forall_mem_of_all (by decide)
  apply shows_of_noncharacter
  intro x hx
  rcases (of_mem_sanitize hx).1 with hx | hx
  · have hascii := verdict_ascii c x hx
    simp [isNoncharacter]
    omega
  · exact hmarker x hx

theorem run_cases {report : RunReport}
    (h : ∀ s ∈ shownTexts report, ∀ c ∈ s, isNoncharacter c = false) :
    inSuite.run (cases report) = some (inSuite, caseEvents report) := by
  unfold shownTexts at h
  unfold cases caseEvents
  cases hmode : report.mode with
  | harden =>
    simp only [hmode] at h ⊢
    apply Reader.run_flatMap
    intro t ht
    have hshown : ∀ s ∈ [sanitize (t.symbol.getD t.path) capName, sanitize t.language capName],
        ∀ c ∈ s, isNoncharacter c = false := fun s hs => h s (List.mem_flatMap.mpr ⟨t, ht, hs⟩)
    simp only [List.forall_mem_cons] at hshown
    exact run_acceptedCase (shows_of_noncharacter hshown.1) (shows_of_noncharacter hshown.2.1)
  | «catch» =>
    simp only [hmode] at h ⊢
    apply Reader.run_flatMap
    intro c hc
    have hshown : ∀ s ∈ [sanitize c.path capName, sanitize c.language capName,
        sanitize (detail c) capDetail], ∀ x ∈ s, isNoncharacter x = false :=
      fun s hs => h s (List.mem_flatMap.mpr ⟨c, hc, hs⟩)
    simp only [List.forall_mem_cons] at hshown
    exact run_catchCase (shows_of_noncharacter hshown.1) (shows_of_noncharacter hshown.2.1)
      (shows_verdict c) (shows_of_noncharacter hshown.2.2.1)

private theorem ne_of_isNoncharacter {c d : Char} (hc : isNoncharacter c = true)
    (hd : isNoncharacter d = false) : c ≠ d := by
  intro h
  rw [h, hd] at hc
  cases hc

private theorem mem_xmlAttr {s : Text} {max : Nat} {c : Char} (hc : c ∈ sanitize s max)
    (hnon : isNoncharacter c = true) : c ∈ xmlAttr s max := by
  have hself : xmlAttrChar c = [c] := by
    unfold xmlAttrChar
    simp [ne_of_isNoncharacter hnon (d := '\n') (by decide),
      ne_of_isNoncharacter hnon (d := '\t') (by decide),
      ne_of_isNoncharacter hnon (d := '\r') (by decide),
      ne_of_isNoncharacter hnon (d := '&') (by decide),
      ne_of_isNoncharacter hnon (d := '<') (by decide),
      ne_of_isNoncharacter hnon (d := '>') (by decide),
      ne_of_isNoncharacter hnon (d := '"') (by decide),
      ne_of_isNoncharacter hnon (d := '\'') (by decide)]
  exact List.mem_flatMap.mpr ⟨c, hc, by rw [hself]; exact List.mem_singleton_self c⟩

private theorem mem_xmlText {s : Text} {max : Nat} {c : Char} (hc : c ∈ sanitize s max)
    (hnon : isNoncharacter c = true) : c ∈ xmlText s max := by
  have hself : xmlTextChar c = [c] := by
    unfold xmlTextChar
    simp [ne_of_isNoncharacter hnon (d := '&') (by decide),
      ne_of_isNoncharacter hnon (d := '<') (by decide),
      ne_of_isNoncharacter hnon (d := '>') (by decide)]
  exact List.mem_flatMap.mpr ⟨c, hc, by rw [hself]; exact List.mem_singleton_self c⟩

private theorem noncharacter_mem_cases {report : RunReport} {s : Text} (hs : s ∈ shownTexts report)
    {c : Char} (hc : c ∈ s) (hnon : isNoncharacter c = true) : c ∈ cases report := by
  unfold shownTexts at hs
  unfold cases
  cases hmode : report.mode with
  | harden =>
    simp only [hmode] at hs ⊢
    obtain ⟨t, ht, hs⟩ := List.mem_flatMap.mp hs
    apply List.mem_flatMap.mpr ⟨t, ht, _⟩
    simp only [List.mem_cons, List.not_mem_nil, or_false] at hs
    unfold acceptedCase
    rcases hs with rfl | rfl
    · have hmem := mem_xmlAttr hc hnon
      simp only [List.mem_append, hmem, true_or, or_true]
    · have hmem := mem_xmlAttr hc hnon
      simp only [List.mem_append, hmem, true_or, or_true]
  | «catch» =>
    simp only [hmode] at hs ⊢
    obtain ⟨r, hr, hs⟩ := List.mem_flatMap.mp hs
    apply List.mem_flatMap.mpr ⟨r, hr, _⟩
    simp only [List.mem_cons, List.not_mem_nil, or_false] at hs
    unfold catchCase
    rcases hs with rfl | rfl | rfl
    · have hmem := mem_xmlAttr hc hnon
      simp only [List.mem_append, hmem, true_or, or_true]
    · have hmem := mem_xmlAttr hc hnon
      simp only [List.mem_append, hmem, true_or, or_true]
    · have hmem := mem_xmlText hc hnon
      have hbody : c ∈ catchBody r := by
        unfold catchBody
        split_ifs <;> simp only [List.mem_append, hmem, true_or, or_true]
      simp only [List.mem_append, hbody, true_or, or_true]

/-- The export is XML, and what it should be, unless it shows one of the two noncharacters. -/
theorem render_isExport_iff (report : RunReport) :
    IsExport report (render report) ↔
      ∀ s ∈ shownTexts report, ∀ c ∈ s, isNoncharacter c = false := by
  constructor
  · intro h s hs c hc
    by_contra hnon
    have hcase := noncharacter_mem_cases hs hc (by simpa using hnon)
    have hmem : c ∈ render report := by
      unfold render
      simp only [List.mem_append, hcase, true_or, or_true]
    have hchar := h.chars c hmem
    simp [isNoncharacter, Xml.isChar] at hnon hchar
    omega
  · intro h
    have hread := read_render (run_cases h)
    refine ⟨Xml.isChar_of_read hread, hread, ?_⟩
    intro tag htag hname
    obtain ⟨htests, hfailures⟩ := count_events report
    rcases attrs_of_events htag with hcase | ⟨value, hattrs⟩
    · have hapart : ∀ name ∈ [("testsuites" : Text), "testsuite"], name ∉ caseNames := by decide
      exact absurd hcase (hapart _ hname)
    · rw [hattrs, htests, hfailures]
      simp [suiteAttrs]

/-- A catch in a file whose name holds U+FFFE. -/
def noncharacterCatch : CatchReport where
  target := "t0"
  language := "rust"
  path := ['a', Char.ofNat 0xFFFE]
  source := "s"
  «class» := .weakCatch
  decision := .strongCatch
  tpProbability := .half
  bucket := .medium
  rationale := "r"
  mutant := none
  changedPath := none
  changedLine := none
  reproduction := "cargo test"
  evidence := none

/-- A catch run that reported it. -/
def noncharacterReport : RunReport where
  schemaVersion := reportSchemaVersion
  jitgenVersion := "0.1.0"
  runId := "r"
  repo := "/repo"
  base := "b"
  head := "h"
  mode := .catch
  strategy := .auto
  summary := ⟨1, 1, 0, 1, 0⟩
  accepted := []
  catches := [noncharacterCatch]
  rejected := []
  warnings := []

theorem noncharacter_in_export :
    ¬ ∀ report : RunReport, IsExport report (render report) := by
  intro h
  have hchars := (h noncharacterReport).chars
  have hmem : Char.ofNat 0xFFFE ∈ render noncharacterReport := by decide +kernel
  exact absurd (hchars _ hmem) (by decide)

end Junit

end Jitgen
