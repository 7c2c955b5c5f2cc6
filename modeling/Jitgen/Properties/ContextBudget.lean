import Jitgen.Context.Packager

/-!
# The context budget

Whatever is added in whatever order, the items stay within the budget.
-/

namespace Jitgen

open Text

namespace ContextBuilder

/-- What a call of `add` is given. -/
structure Call where
  kind : ContextItemKind
  path : Option Text
  content : Text

/-- The part of the content that is redacted. -/
def Call.window (c : Call) : Text := charBoundaryPrefix c.content maxRedactInputBytes

/-- Bytes that are left of the total budget. -/
def remaining (b : ContextBuilder) : Nat := b.budget.maxTokens * charsPerToken - b.usedChars

/-- Whether the next call gets as far as redacting its window. -/
def Accepting (b : ContextBuilder) : Prop :=
  b.items.length < b.budget.maxFiles ∧ b.remaining ≠ 0

instance (b : ContextBuilder) : Decidable b.Accepting := inferInstanceAs (Decidable (_ ∧ _))

variable [WordChars]

def addCall (b : ContextBuilder) (c : Call) : ContextBuilder × Bool := b.add c.kind c.path c.content

def addAll (b : ContextBuilder) (calls : List Call) : ContextBuilder :=
  calls.foldl (fun b c => (b.addCall c).1) b

/-- The windows a sequence of calls redacts. -/
def windows (b : ContextBuilder) : List Call → List Text
  | [] => []
  | c :: calls =>
    (if b.Accepting then [c.window] else []) ++ (b.addCall c).1.windows calls

/-- What one call can do. It sets the flag when redaction changes the window, also where the item is
dropped then. -/
inductive Added (b : ContextBuilder) (c : Call) : ContextBuilder × Bool → Prop
  | full : ¬ b.Accepting → Added b c (b, false)
  | dropped {r : Bool} :
      b.Accepting → (b.redacted = true ∨ (redact c.window).text ≠ c.window → r = true) →
      Added b c ({ b with redacted := r }, false)
  | added {r : Bool} {body : Text} :
      b.Accepting → (b.redacted = true ∨ (redact c.window).text ≠ c.window → r = true) →
      utf8Len body ≤ b.budget.maxBytesPerFile → utf8Len body ≤ b.remaining →
      Added b c ({ b with items := b.items ++ [⟨c.kind, c.path, body⟩]
                          redacted := r
                          usedChars := b.usedChars + utf8Len body }, true)

omit [WordChars] in
private theorem utf8Len_truncateItem_le (s : Text) (maxBytes : Nat) :
    utf8Len (truncateItem s maxBytes) ≤ maxBytes :=
  utf8Len_cap_le s maxBytes

omit [WordChars] in
private theorem accepting_iff (b : ContextBuilder) :
    b.Accepting ↔ ¬ (b.budget.maxFiles ≤ b.items.length || b.remaining = 0) = true := by
  simp [Accepting]

private theorem flag_of_changed {flag other : Bool} {window : Text}
    (h : flag = true ∨ (redact window).text ≠ window) :
    (flag || (redact window).redacted || other) = true := by
  cases hred : (redact window).redacted with
  | true => simp
  | false =>
    cases h with
    | inl h => simp [h]
    | inr h => exact absurd (redact_text_of_not_redacted hred) h

private theorem added_addCall (b : ContextBuilder) (c : Call) : Added b c (b.addCall c) := by
  by_cases hopen : b.Accepting
  · have hguard := (accepting_iff b).mp hopen
    have hflag : ∀ other, b.redacted = true ∨ (redact c.window).text ≠ c.window →
        (b.redacted || (redact c.window).redacted || other) = true :=
      fun _ => flag_of_changed
    unfold addCall add
    dsimp only
    rw [remaining] at hguard
    rw [if_neg hguard]
    split_ifs
    all_goals first
      | exact .dropped hopen (hflag _)
      | exact .added hopen (hflag _)
          ((utf8Len_truncateItem_le _ _).trans (Nat.min_le_left _ _))
          ((utf8Len_truncateItem_le _ _).trans (Nat.min_le_right _ _))
  · have hguard := not_not.mp (mt (accepting_iff b).mpr hopen)
    have hfull : b.addCall c = (b, false) := if_pos hguard
    rw [hfull]
    exact .full hopen

/-- The items are within the budget, and the used size is theirs. -/
structure Within (b : ContextBuilder) : Prop where
  files : b.items.length ≤ b.budget.maxFiles
  each : ∀ i ∈ b.items, utf8Len i.content ≤ b.budget.maxBytesPerFile
  used : b.usedChars = (b.items.map fun i => utf8Len i.content).sum
  total : b.usedChars ≤ b.budget.maxTokens * charsPerToken

omit [WordChars] in
private theorem within_new (budget : ContextBudget) : (new budget).Within :=
  ⟨Nat.zero_le _, fun _ h => absurd h List.not_mem_nil, rfl, Nat.zero_le _⟩

private theorem within_addCall {b : ContextBuilder} (h : b.Within) (c : Call) :
    (b.addCall c).1.Within := by
  have hadded := added_addCall b c
  generalize b.addCall c = out at hadded
  cases hadded with
  | full => exact h
  | dropped => exact ⟨h.files, h.each, h.used, h.total⟩
  | @added r body hopen _ hfile hrest =>
    have hfiles := hopen.1
    have htotal := h.total
    rw [remaining] at hrest
    constructor
    · simp only [List.length_append, List.length_singleton]
      omega
    · intro i hi
      rcases List.mem_append.mp hi with hi | hi
      · exact h.each i hi
      · rw [List.mem_singleton.mp hi]
        exact hfile
    · simp [h.used]
    · dsimp only
      omega

private theorem within_addAll {b : ContextBuilder} (h : b.Within) (calls : List Call) :
    (b.addAll calls).Within := by
  induction calls generalizing b with
  | nil => exact h
  | cons c calls ih => exact ih (within_addCall h c)

private theorem budget_addAll (b : ContextBuilder) (calls : List Call) :
    (b.addAll calls).budget = b.budget := by
  induction calls generalizing b with
  | nil => rfl
  | cons c calls ih =>
    have hstep : (b.addCall c).1.budget = b.budget := by
      have hadded := added_addCall b c
      generalize b.addCall c = out at hadded
      cases hadded <;> rfl
    exact (ih _).trans hstep

private theorem redacted_addCall {b : ContextBuilder} {c : Call}
    (h : b.redacted = true ∨ b.Accepting ∧ (redact c.window).text ≠ c.window) :
    (b.addCall c).1.redacted = true := by
  have hadded := added_addCall b c
  generalize b.addCall c = out at hadded
  cases hadded with
  | full hfull => exact h.elim id fun h => absurd h.1 hfull
  | dropped _ hflag => exact hflag (h.imp_right And.right)
  | added _ hflag => exact hflag (h.imp_right And.right)

private theorem redacted_addAll {b : ContextBuilder} {calls : List Call}
    (h : b.redacted = true ∨ ∃ w ∈ b.windows calls, (redact w).text ≠ w) :
    (b.addAll calls).redacted = true := by
  induction calls generalizing b with
  | nil =>
    cases h with
    | inl h => exact h
    | inr h => exact absurd h (by simp [windows])
  | cons c calls ih =>
    apply ih
    rcases h with h | ⟨w, hw, hchanged⟩
    · exact .inl (redacted_addCall (.inl h))
    rcases List.mem_append.mp hw with hw | hw
    · split_ifs at hw with hopen
      · rw [List.mem_singleton.mp hw] at hchanged
        exact .inl (redacted_addCall (.inr ⟨hopen, hchanged⟩))
      · cases hw
    · exact .inr ⟨w, hw, hchanged⟩

/-- At every point of every sequence of calls the context is within its budget, and the next call
leaves the items and the used size alone when it returns `false`. -/
theorem context_budget (budget : ContextBudget) (calls : List Call) (c : Call) :
    let b := (new budget).addAll calls
    b.items.length ≤ budget.maxFiles ∧
      (∀ i ∈ b.items, (toUtf8 i.content).length ≤ budget.maxBytesPerFile) ∧
      (b.items.map fun i => (toUtf8 i.content).length).sum ≤ budget.maxTokens * charsPerToken ∧
      ((∃ w ∈ (new budget).windows calls, (redact w).text ≠ w) → b.redacted = true) ∧
      ((b.addCall c).2 = false →
        (b.addCall c).1.items = b.items ∧ (b.addCall c).1.usedChars = b.usedChars) := by
  intro b
  have hwithin : b.Within := within_addAll (within_new budget) calls
  have hbudget : b.budget = budget := budget_addAll (new budget) calls
  have htotal := hwithin.total
  rw [hwithin.used, hbudget] at htotal
  simp only [length_toUtf8]
  refine ⟨hbudget ▸ hwithin.files, hbudget ▸ hwithin.each, htotal, fun h =>
    redacted_addAll (.inr h), ?_⟩
  have hadded := added_addCall b c
  generalize b.addCall c = out at hadded
  intro hfalse
  cases hadded with
  | full => exact ⟨rfl, rfl⟩
  | dropped => exact ⟨rfl, rfl⟩
  | added => cases hfalse

end ContextBuilder

end Jitgen
