import Jitgen.Framework.Lines
import Jitgen.Framework.Splice
import Jitgen.Orchestrator.PatchApply

/-!
# The edits that a diff is read as

The applier decides where a hunk ends by counting, whatever the original is. So a diff is read as a
list of edits, and it is applied exactly when these edits fit the original.
-/

namespace Jitgen

open Text

namespace PatchApply

/-- What a body line of a hunk stands for. -/
inductive BodyOp where
  | context
  | removed
  | added
  | marker
  deriving DecidableEq

/-- Lines of the old side that it takes. -/
def BodyOp.old : BodyOp → Nat
  | context | removed => 1
  | added | marker => 0

/-- Lines of the new side that it writes. -/
def BodyOp.new : BodyOp → Nat
  | context | added => 1
  | removed | marker => 0

def bodyOp (line : Text) : Option BodyOp :=
  let op := line.headD ' '
  if op = ' ' then some .context
  else if op = '-' then some .removed
  else if op = '+' then some .added
  else if op = '\\' then some .marker
  else none

def oldSide (body : List Text) : List Text :=
  (body.filter fun line => (bodyOp line).any (·.old = 1)).map List.tail

def newSide (body : List Text) : List Text :=
  (body.filter fun line => (bodyOp line).any (·.new = 1)).map List.tail

structure ReadHunk where
  header : Hunk
  body : List Text
  deriving DecidableEq

/-- The edit that the applier makes for a hunk. -/
def ReadHunk.edit (h : ReadHunk) : Edit Text :=
  ⟨h.header.oldStart - 1, oldSide h.body, newSide h.body⟩

/-- The body lines up to where both counts are reached, and the lines after them. -/
def takeBody (h : Hunk) : List Text → (oldSeen newSeen : Nat) → Option (List Text × List Text)
  | [], oldSeen, newSeen =>
    if oldSeen < h.oldCount ∨ newSeen < h.newCount then none else some ([], [])
  | line :: lines, oldSeen, newSeen =>
    if oldSeen < h.oldCount ∨ newSeen < h.newCount then
      match bodyOp line with
      | none => none
      | some op =>
        (takeBody h lines (oldSeen + op.old) (newSeen + op.new)).map fun t => (line :: t.1, t.2)
    else some ([], line :: lines)

/-- The hunks of a diff, unless a line is not understood or the last hunk is truncated. -/
def readHunks : (fuel : Nat) → List Text → Option (List ReadHunk)
  | 0, _ => some []
  | _ + 1, [] => some []
  | fuel + 1, line :: lines =>
    match stripPrefix "@@" line with
    | some rest =>
      match parseHunkHeader rest with
      | .error _ => none
      | .ok h => do
        let (body, lines) ← takeBody h lines 0 0
        let hs ← readHunks fuel lines
        return ⟨h, body⟩ :: hs
    | none => if isFileHeader line || line.isEmpty then readHunks fuel lines else none

def readDiff (diff : Text) : Option (List ReadHunk) :=
  readHunks (lines diff).length (lines diff)

theorem oldSide_cons {line : Text} {op : BodyOp} (h : bodyOp line = some op) (body : List Text) :
    oldSide (line :: body) = if op.old = 1 then line.tail :: oldSide body else oldSide body := by
  by_cases hop : op.old = 1 <;> simp [oldSide, h, hop]

theorem newSide_cons {line : Text} {op : BodyOp} (h : bodyOp line = some op) (body : List Text) :
    newSide (line :: body) = if op.new = 1 then line.tail :: newSide body else newSide body := by
  by_cases hop : op.new = 1 <;> simp [newSide, h, hop]

private theorem expectMatch_bind {α : Type} {orig : List Text} {idx : Nat} {content : Text}
    {f : Unit → Except OrchestratorError α} {a : α} :
    (expectMatch orig idx content >>= f) = .ok a ↔ orig[idx]? = some content ∧ f () = .ok a := by
  unfold expectMatch
  by_cases h : orig[idx]? = some content
  · rw [if_pos h]
    simp [h, bind, Except.bind]
  · rw [if_neg h]
    simp [h, bind, Except.bind]

private theorem cons_prefix_drop {orig xs : List Text} {x : Text} {i : Nat} :
    (x :: xs) <+: orig.drop i ↔ orig[i]? = some x ∧ xs <+: orig.drop (i + 1) := by
  by_cases hi : i < orig.length
  · rw [List.drop_eq_getElem_cons hi, List.cons_prefix_cons, List.getElem?_eq_getElem hi,
      Option.some.injEq, eq_comm]
  · have hnil : orig.drop i = [] := List.drop_eq_nil_of_le (by omega)
    have hnone : orig[i]? = none := List.getElem?_eq_none (by omega)
    simp [hnil, hnone]

/-- The lines that the read line adds to the output. -/
def BodyOp.written (op : BodyOp) (line : Text) : List Text := if op.new = 1 then [line.tail] else []

private theorem exists_bodyOp {line : Text} {op : BodyOp} {P : BodyOp → Prop}
    (hop : bodyOp line = some op) :
    (∃ o, bodyOp line = some o ∧ P o) ↔ P op := by
  constructor
  · intro h
    obtain ⟨o, ho, hP⟩ := h
    rw [hop] at ho
    cases ho
    exact hP
  · exact fun hP => ⟨op, hop, hP⟩

private theorem applyHunk_cons {h : Hunk} {orig lines : List Text} {line : Text}
    {oldSeen newSeen : Nat} {p : Patch} {r : Patch × List Text}
    (hmore : oldSeen < h.oldCount ∨ newSeen < h.newCount) :
    applyHunk h orig (line :: lines) oldSeen newSeen p = .ok r ↔
      ∃ op, bodyOp line = some op ∧ (op.old = 1 → orig[p.cursor]? = some line.tail) ∧
        applyHunk h orig lines (oldSeen + op.old) (newSeen + op.new)
          ⟨p.cursor + op.old, p.out ++ op.written line⟩ = .ok r := by
  have hop : bodyOp line = if line.headD ' ' = ' ' then some .context
      else if line.headD ' ' = '-' then some .removed
      else if line.headD ' ' = '+' then some .added
      else if line.headD ' ' = '\\' then some .marker else none := rfl
  rw [applyHunk, if_pos hmore]
  dsimp only
  by_cases hcontext : line.headD ' ' = ' '
  · rw [if_pos hcontext] at hop ⊢
    rw [expectMatch_bind, exists_bodyOp hop]
    simp [BodyOp.old, BodyOp.new, BodyOp.written]
  rw [if_neg hcontext] at hop ⊢
  by_cases hremoved : line.headD ' ' = '-'
  · rw [if_pos hremoved] at hop ⊢
    rw [expectMatch_bind, exists_bodyOp hop]
    simp [BodyOp.old, BodyOp.new, BodyOp.written]
  rw [if_neg hremoved] at hop ⊢
  by_cases hadded : line.headD ' ' = '+'
  · rw [if_pos hadded] at hop ⊢
    rw [exists_bodyOp hop]
    simp [BodyOp.old, BodyOp.new, BodyOp.written]
  rw [if_neg hadded] at hop ⊢
  by_cases hmarker : line.headD ' ' = '\\'
  · rw [if_pos hmarker] at hop ⊢
    rw [exists_bodyOp hop]
    simp [BodyOp.old, BodyOp.new, BodyOp.written]
  · rw [if_neg hmarker] at hop ⊢
    constructor
    · intro herr
      cases herr
    · intro hnone
      obtain ⟨op, hsome, -⟩ := hnone
      rw [hop] at hsome
      cases hsome

theorem takeBody_cons {h : Hunk} {lines body rest : List Text} {line : Text}
    {oldSeen newSeen : Nat} (hmore : oldSeen < h.oldCount ∨ newSeen < h.newCount) :
    takeBody h (line :: lines) oldSeen newSeen = some (body, rest) ↔
      ∃ op body', bodyOp line = some op ∧ body = line :: body' ∧
        takeBody h lines (oldSeen + op.old) (newSeen + op.new) = some (body', rest) := by
  rw [takeBody, if_pos hmore]
  cases bodyOp line with
  | none => simp
  | some op =>
    constructor
    · intro htake
      obtain ⟨⟨body', rest'⟩, hlater, heq⟩ := Option.map_eq_some_iff.mp htake
      obtain ⟨rfl, rfl⟩ := Prod.mk.inj heq
      exact ⟨op, body', rfl, rfl, hlater⟩
    · intro htake
      obtain ⟨_, body', heq, rfl, htake⟩ := htake
      cases heq
      simp [htake]

theorem takeBody_done {h : Hunk} {lines body rest : List Text} {oldSeen newSeen : Nat}
    (hdone : ¬ (oldSeen < h.oldCount ∨ newSeen < h.newCount)) :
    takeBody h lines oldSeen newSeen = some (body, rest) ↔ body = [] ∧ rest = lines := by
  cases lines <;> simp [takeBody, hdone, eq_comm]

theorem takeBody_append {h : Hunk} {lines body rest : List Text} {oldSeen newSeen : Nat}
    (htake : takeBody h lines oldSeen newSeen = some (body, rest)) : lines = body ++ rest := by
  induction lines generalizing body oldSeen newSeen with
  | nil =>
    by_cases hmore : oldSeen < h.oldCount ∨ newSeen < h.newCount
    · simp [takeBody, hmore] at htake
    · obtain ⟨rfl, rfl⟩ := (takeBody_done hmore).mp htake
      rfl
  | cons line lines ih =>
    by_cases hmore : oldSeen < h.oldCount ∨ newSeen < h.newCount
    · obtain ⟨op, body, -, rfl, hlater⟩ := (takeBody_cons hmore).mp htake
      rw [ih hlater, List.cons_append]
    · obtain ⟨rfl, rfl⟩ := (takeBody_done hmore).mp htake
      rfl

private theorem applied_nothing {h : Hunk} {orig lines rest : List Text} {oldSeen newSeen : Nat}
    {p p' : Patch} (hdone : ¬ (oldSeen < h.oldCount ∨ newSeen < h.newCount)) :
    Except.ok (ε := OrchestratorError) (p, lines) = .ok (p', rest) ↔
      ∃ body, takeBody h lines oldSeen newSeen = some (body, rest) ∧
        oldSide body <+: orig.drop p.cursor ∧
        p' = ⟨p.cursor + (oldSide body).length, p.out ++ newSide body⟩ := by
  constructor
  · intro heq
    cases heq
    exact ⟨[], (takeBody_done hdone).mpr ⟨rfl, rfl⟩, by simp [oldSide],
      by simp [oldSide, newSide]⟩
  · intro hbody
    obtain ⟨body, htake, -, rfl⟩ := hbody
    obtain ⟨rfl, rfl⟩ := (takeBody_done hdone).mp htake
    simp [oldSide, newSide]

/-- A hunk body is applied exactly when it is read and its old side stands at the cursor. -/
private theorem applyHunk_eq_ok {h : Hunk} {orig lines rest : List Text} {oldSeen newSeen : Nat}
    {p p' : Patch} :
    applyHunk h orig lines oldSeen newSeen p = .ok (p', rest) ↔
      ∃ body, takeBody h lines oldSeen newSeen = some (body, rest) ∧
        oldSide body <+: orig.drop p.cursor ∧
        p' = ⟨p.cursor + (oldSide body).length, p.out ++ newSide body⟩ := by
  induction lines generalizing oldSeen newSeen p with
  | nil =>
    by_cases hmore : oldSeen < h.oldCount ∨ newSeen < h.newCount
    · simp [applyHunk, takeBody, hmore]
    · rw [applyHunk, if_neg hmore]
      exact applied_nothing hmore
  | cons line lines ih =>
    by_cases hmore : oldSeen < h.oldCount ∨ newSeen < h.newCount
    · rw [applyHunk_cons hmore]
      have hside : ∀ (op : BodyOp) (body : List Text), bodyOp line = some op →
          (((op.old = 1 → orig[p.cursor]? = some line.tail) ∧
              oldSide body <+: orig.drop (p.cursor + op.old)) ↔
            oldSide (line :: body) <+: orig.drop p.cursor) ∧
          p.cursor + op.old + (oldSide body).length =
            p.cursor + (oldSide (line :: body)).length ∧
          p.out ++ op.written line ++ newSide body = p.out ++ newSide (line :: body) := by
        intro op body hop
        rw [oldSide_cons hop, newSide_cons hop, BodyOp.written]
        cases op <;> simp [BodyOp.old, BodyOp.new, cons_prefix_drop] <;> omega
      constructor
      · intro happ
        obtain ⟨op, hop, hmatch, happ⟩ := happ
        obtain ⟨body, htake, hpre, hp⟩ := ih.mp happ
        obtain ⟨hold, hlen, hnew⟩ := hside op body hop
        refine ⟨line :: body, (takeBody_cons hmore).mpr ⟨op, body, hop, rfl, htake⟩,
          hold.mp ⟨hmatch, hpre⟩, ?_⟩
        rw [hp, hlen, hnew]
      · intro htake
        obtain ⟨_, hbody, hpre, hp⟩ := htake
        obtain ⟨op, body, hop, rfl, hlater⟩ := (takeBody_cons hmore).mp hbody
        obtain ⟨hold, hlen, hnew⟩ := hside op body hop
        obtain ⟨hmatch, hpre⟩ := hold.mpr hpre
        refine ⟨op, hop, hmatch, ih.mpr ⟨body, hlater, hpre, ?_⟩⟩
        rw [hp, ← hlen, ← hnew]
    · rw [applyHunk, if_neg hmore]
      exact applied_nothing hmore

private theorem advance_eq_ok {h : Hunk} {orig : List Text} {p q : Patch} :
    advance h orig p = .ok q ↔ (h.oldStart = 0 → h.oldCount = 0) ∧
      h.oldStart - 1 ≤ orig.length ∧ p.cursor ≤ h.oldStart - 1 ∧
      q = ⟨h.oldStart - 1, p.out ++ Edit.between orig p.cursor (h.oldStart - 1)⟩ := by
  unfold advance
  by_cases hzero : h.oldStart = 0 ∧ 0 < h.oldCount
  · rw [if_pos hzero]
    constructor
    · intro h
      cases h
    · intro h
      have := h.1 hzero.1
      omega
  rw [if_neg hzero]
  by_cases hpast : orig.length < h.oldStart - 1
  · rw [if_pos hpast]
    constructor
    · intro h
      cases h
    · intro h
      omega
  rw [if_neg hpast]
  by_cases hback : h.oldStart - 1 < p.cursor
  · rw [if_pos hback]
    constructor
    · intro h
      cases h
    · intro h
      omega
  rw [if_neg hback]
  constructor
  · intro heq
    cases heq
    exact ⟨by omega, by omega, by omega, rfl⟩
  · rintro ⟨-, -, -, rfl⟩
    rfl

/-- The written lines with what is left of the original. -/
def Patch.finished (orig : List Text) (p : Patch) : List Text := p.out ++ orig.drop p.cursor

/-- The loop over a hunk and what follows it. -/
private theorem hunk_eq_ok {h : Hunk} {orig : List Text} {fuel : Nat} {lines : List Text}
    {p p' : Patch} :
    (do
      let q ← advance h orig p
      let (q, rest) ← applyHunk h orig lines 0 0 q
      applyLines orig fuel rest q) = .ok p' ↔
      ∃ body rest, takeBody h lines 0 0 = some (body, rest) ∧
        (h.oldStart = 0 → h.oldCount = 0) ∧ h.oldStart - 1 ≤ orig.length ∧
        p.cursor ≤ h.oldStart - 1 ∧ oldSide body <+: orig.drop (h.oldStart - 1) ∧
        applyLines orig fuel rest ⟨h.oldStart - 1 + (oldSide body).length,
          p.out ++ Edit.between orig p.cursor (h.oldStart - 1) ++ newSide body⟩ = .ok p' := by
  constructor
  · intro hloop
    have ⟨q, hadvance, hloop⟩ := bind_eq_ok.mp hloop
    have ⟨⟨q', rest⟩, happ, hloop⟩ := bind_eq_ok.mp hloop
    have ⟨body, htake, hpre, hq'⟩ := applyHunk_eq_ok.mp happ
    have ⟨hzero, hinside, hcursor, hq⟩ := advance_eq_ok.mp hadvance
    rw [hq] at hpre hq'
    rw [hq'] at hloop
    exact ⟨body, rest, htake, hzero, hinside, hcursor, hpre, hloop⟩
  · intro hread
    have ⟨body, rest, htake, hzero, hinside, hcursor, hpre, hloop⟩ := hread
    exact bind_eq_ok.mpr ⟨_, advance_eq_ok.mpr ⟨hzero, hinside, hcursor, rfl⟩,
      bind_eq_ok.mpr ⟨_, applyHunk_eq_ok.mpr ⟨body, htake, hpre, rfl⟩, hloop⟩⟩

/-- The loop succeeds exactly when the diff is read and the edits fit, and it gives what the edits
make of the original. -/
private theorem applyLines_eq_ok {orig : List Text} {fuel : Nat} {lines result : List Text}
    {p : Patch} :
    (∃ p', applyLines orig fuel lines p = .ok p' ∧ p'.finished orig = result) ↔
      ∃ hs, readHunks fuel lines = some hs ∧
        (∀ h ∈ hs, h.header.oldStart = 0 → h.header.oldCount = 0) ∧
        Edit.Applicable orig (hs.map ReadHunk.edit) ∧ (∀ h ∈ hs, p.cursor ≤ h.edit.start) ∧
        p.out ++ Edit.splice orig p.cursor (hs.map ReadHunk.edit) = result := by
  have hstop : ∀ p : Patch,
      (∃ p', Except.ok (ε := OrchestratorError) p = .ok p' ∧ p'.finished orig = result) ↔
      ∃ hs : List ReadHunk, some [] = some hs ∧
        (∀ h ∈ hs, h.header.oldStart = 0 → h.header.oldCount = 0) ∧
        Edit.Applicable orig (hs.map ReadHunk.edit) ∧ (∀ h ∈ hs, p.cursor ≤ h.edit.start) ∧
        p.out ++ Edit.splice orig p.cursor (hs.map ReadHunk.edit) = result := by
    intro p
    constructor
    · intro h
      obtain ⟨_, heq, hresult⟩ := h
      cases heq
      exact ⟨[], rfl, by simp, Edit.applicable_nil _, by simp, hresult⟩
    · intro h
      obtain ⟨_, heq, -, -, -, hresult⟩ := h
      cases heq
      exact ⟨p, rfl, hresult⟩
  induction fuel generalizing lines p with
  | zero => exact hstop p
  | succ fuel ih =>
    cases lines with
    | nil => exact hstop p
    | cons line lines =>
      rw [applyLines, readHunks]
      cases stripPrefix "@@" line with
      | none =>
        dsimp only
        by_cases hskip : (isFileHeader line || line.isEmpty) = true
        · rw [if_pos hskip, if_pos hskip]
          exact ih
        · rw [if_neg hskip, if_neg hskip]
          simp
      | some rest =>
        dsimp only
        cases parseHunkHeader rest with
        | error e => simp [bind, Except.bind]
        | ok h =>
          dsimp only
          have hmem : ∀ (body : List Text) (hs : List ReadHunk),
              (∀ k ∈ hs, (h.oldStart - 1) + (oldSide body).length ≤ k.edit.start) ↔
                ∀ f ∈ hs.map ReadHunk.edit, (ReadHunk.edit ⟨h, body⟩).stop ≤ f.start := by
            intro body hs
            simp [ReadHunk.edit, Edit.stop]
          constructor
          · intro hloop
            obtain ⟨p', hloop, hresult⟩ := hloop
            obtain ⟨body, rest', htake, hzero, hinside, hcursor, hpre, hloop⟩ :=
              hunk_eq_ok.mp hloop
            obtain ⟨hs, hread, hzeros, hfits, hafter, hresult⟩ := ih.mp ⟨p', hloop, hresult⟩
            refine ⟨⟨h, body⟩ :: hs, by simp [htake, hread], ?_, ?_, ?_, ?_⟩
            · exact List.forall_mem_cons.mpr ⟨hzero, hzeros⟩
            · rw [List.map_cons]
              exact Edit.applicable_cons.mpr ⟨hinside, hpre, (hmem body hs).mp hafter, hfits⟩
            · refine List.forall_mem_cons.mpr ⟨hcursor, fun k hk => ?_⟩
              have := hafter k hk
              dsimp only at this
              omega
            · rw [← hresult, List.map_cons, Edit.splice]
              simp only [ReadHunk.edit, Edit.stop, List.append_assoc]
          · intro hread
            obtain ⟨hs, hread, hzeros, hfits, hafter, hresult⟩ := hread
            obtain ⟨⟨body, rest'⟩, htake, hread'⟩ := Option.bind_eq_some_iff.mp hread
            obtain ⟨hs', hread'', heq⟩ := Option.bind_eq_some_iff.mp hread'
            cases heq
            rw [List.map_cons] at hfits hresult
            obtain ⟨hinside, hpre, hlater, hfits⟩ := Edit.applicable_cons.mp hfits
            obtain ⟨hzero, hzeros⟩ := List.forall_mem_cons.mp hzeros
            have hcursor := (List.forall_mem_cons.mp hafter).1
            rw [Edit.splice] at hresult
            have hplaced : p.out ++ Edit.between orig p.cursor (h.oldStart - 1) ++ newSide body ++
                Edit.splice orig (h.oldStart - 1 + (oldSide body).length)
                  (hs'.map ReadHunk.edit) = result := by
              rw [← hresult]
              simp only [ReadHunk.edit, Edit.stop, List.append_assoc]
            obtain ⟨p', hloop, hresult⟩ :=
              ih (p := ⟨h.oldStart - 1 + (oldSide body).length, _⟩) |>.mpr
                ⟨hs', hread'', hzeros, hfits, (hmem body hs').mpr hlater, hplaced⟩
            exact ⟨p', hunk_eq_ok.mpr ⟨body, rest', htake, hzero, hinside, hcursor, hpre, hloop⟩,
              hresult⟩

/-- What holds of a hunk that is read off: its body is taken from the lines. -/
theorem exists_takeBody_of_readHunks {fuel : Nat} {lines : List Text} {hs : List ReadHunk}
    (hread : readHunks fuel lines = some hs) {h : ReadHunk} (hh : h ∈ hs) :
    ∃ rest after, takeBody h.header rest 0 0 = some (h.body, after) ∧ rest <:+ lines := by
  induction fuel generalizing lines hs with
  | zero =>
    cases hread
    simp at hh
  | succ fuel ih =>
    cases lines with
    | nil =>
      cases hread
      simp at hh
    | cons line lines =>
      have hcons : ∀ {rest : List Text}, rest <:+ lines → rest <:+ line :: lines := fun hrest =>
        hrest.trans (List.suffix_cons _ _)
      rw [readHunks] at hread
      cases hpre : stripPrefix "@@" line with
      | none =>
        rw [hpre] at hread
        dsimp only at hread
        split at hread
        · obtain ⟨rest, after, htake, hrest⟩ := ih hread hh
          exact ⟨rest, after, htake, hcons hrest⟩
        · cases hread
      | some rest =>
        rw [hpre] at hread
        dsimp only at hread
        cases hheader : parseHunkHeader rest with
        | error e =>
          rw [hheader] at hread
          cases hread
        | ok header =>
          rw [hheader] at hread
          obtain ⟨⟨body, after⟩, htake, hread'⟩ := Option.bind_eq_some_iff.mp hread
          obtain ⟨hs', hlater, heq⟩ := Option.bind_eq_some_iff.mp hread'
          cases heq
          have happend := takeBody_append htake
          rcases List.mem_cons.mp hh with rfl | hh
          · exact ⟨lines, after, htake, List.suffix_cons _ _⟩
          · obtain ⟨rest, after', htake', hrest⟩ := ih hlater hh
            refine ⟨rest, after', htake', hcons (hrest.trans ?_)⟩
            rw [happend]
            exact List.suffix_append _ _

theorem splitLines_eq (s : Text) : splitLines s = (rawLines s).map chomp := by
  unfold splitLines
  by_cases hnil : s = []
  · simp [hnil, rawLines]
  rw [if_neg (by simpa using hnil)]
  by_cases hlast : Terminated s
  · obtain ⟨t, rfl⟩ := List.getLast?_eq_some_iff.mp hlast
    have hsplit := splitOn_newline (t ++ ['\n'])
    rw [if_pos (.inr hlast), List.splitOn_append_cons_self, List.splitOn_nil,
      List.append_cancel_right_eq] at hsplit
    simpa using hsplit
  · have hsplit := splitOn_newline s
    rw [if_neg (by simp [hnil, hlast]), List.append_nil] at hsplit
    rw [if_neg (show ¬ s.getLast? = some '\n' from hlast), hsplit]

theorem newline_notMem_splitLines {s l : Text} (h : l ∈ splitLines s) : '\n' ∉ l := by
  rw [splitLines_eq] at h
  obtain ⟨raw, hraw, rfl⟩ := List.mem_map.mp h
  exact newline_notMem_chomp hraw

theorem splitLines_unlines {ls : List Text} (hls : ∀ l ∈ ls, '\n' ∉ l) :
    splitLines (unlines ls) = ls := by
  rw [splitLines_eq, rawLines_unlines hls, List.map_map]
  have hchomp : chomp ∘ (· ++ ['\n']) = id := funext chomp_append_newline
  rw [hchomp, List.map_id]

/-- The text of the patched lines, with the final newline of the original. -/
def finish (original : Text) (patched : List Text) : Text :=
  if original.endsWith "\n" && !(join "\n" patched).isEmpty then join "\n" patched ++ ['\n']
  else join "\n" patched

private theorem isEmpty_eq_false {s : Text} (h : s ≠ []) : s.isEmpty = false := by
  simpa using h

theorem finish_terminated {original : Text} {ls : List Text} (horig : Terminated original)
    (hne : join "\n" ls ≠ []) : finish original ls = join "\n" ls ++ ['\n'] := by
  rw [finish, (endsWith_newline original).mpr horig, isEmpty_eq_false hne]
  rfl

theorem finish_not_terminated {original : Text} {ls : List Text} (horig : ¬ Terminated original) :
    finish original ls = join "\n" ls := by
  have hends : original.endsWith "\n" = false :=
    Bool.eq_false_iff.mpr (mt (endsWith_newline original).mp horig)
  rw [finish, hends]
  rfl

theorem finish_blank (original : Text) {ls : List Text} (h : join "\n" ls = []) :
    finish original ls = [] := by
  unfold finish
  rw [h]
  simp

/-- A diff is applied exactly when it is read as edits that fit the original in order. -/
theorem applyUnifiedDiff_eq_ok {original diff result : Text} :
    applyUnifiedDiff original diff = .ok result ↔
      ∃ hs, readDiff diff = some hs ∧
        (∀ h ∈ hs, h.header.oldStart = 0 → h.header.oldCount = 0) ∧
        Edit.Applicable (splitLines original) (hs.map ReadHunk.edit) ∧
        finish original (Edit.splice (splitLines original) 0 (hs.map ReadHunk.edit)) = result := by
  have hloop : ∀ patched, (∃ p', applyLines (splitLines original) (lines diff).length (lines diff)
      ⟨0, []⟩ = .ok p' ∧ p'.finished (splitLines original) = patched) ↔ _ := fun patched =>
    applyLines_eq_ok
  constructor
  · intro happ
    obtain ⟨p', hp', heq⟩ := bind_eq_ok.mp happ
    obtain ⟨hs, hread, hzeros, hfits, -, hresult⟩ := (hloop _).mp ⟨p', hp', rfl⟩
    refine ⟨hs, hread, hzeros, hfits, ?_⟩
    rw [← Except.ok.inj heq, finish]
    simp only [List.nil_append] at hresult
    rw [hresult]
    rfl
  · intro hread
    obtain ⟨hs, hread, hzeros, hfits, rfl⟩ := hread
    obtain ⟨p', hp', hpatched⟩ := (hloop _).mpr ⟨hs, hread, hzeros, hfits, by simp, rfl⟩
    refine bind_eq_ok.mpr ⟨p', hp', ?_⟩
    simp only [List.nil_append] at hpatched
    rw [← hpatched]
    rfl

end PatchApply

end Jitgen
