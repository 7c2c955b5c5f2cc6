import Jitgen.Framework.WriteLog
import Jitgen.Orchestrator.Context
import Jitgen.Properties.ConfinedWriters
import Mathlib.Algebra.Order.BigOperators.Group.List
import Mathlib.Algebra.Order.Group.Nat

/-!
# Checkouts of hostile trees

A checkout into a fresh overlay is a log of writes, each within the budgets. The overlay holds what
was last written to every place, whatever the checkout ended with.
-/

namespace Jitgen.OnDisk

open Text FileTree

/-- A real root with nothing below it. -/
structure Fresh (t : FileTree) (root : Location) : Prop where
  real : t.Real [] root
  empty : ∀ q, q ≠ [] → t.entry (root ++ q) = none

/-- A write at its place below the root. -/
def placed (w : Text × Bytes) : Location × Bytes := (segments w.1, w.2)

/-- Writes in order, as a log. -/
def logOf (ws : List (Text × Bytes)) : List (Location × Bytes) := (ws.map placed).reverse

variable {t t' t₁ : FileTree} {root : Location} {rel : Text} {bytes : Bytes}
  {ws : List (Text × Bytes)} {w : Text × Bytes}

private theorem logOf_concat (ws : List (Text × Bytes)) (w : Text × Bytes) :
    logOf (ws ++ [w]) = placed w :: logOf ws := by
  simp [logOf]

private theorem mem_logOf {e : Location × Bytes} : e ∈ logOf ws ↔ ∃ w ∈ ws, placed w = e := by
  simp [logOf]

private theorem length_logOf (ws : List (Text × Bytes)) : (logOf ws).length = ws.length := by
  simp [logOf]

private theorem lookup_of_mem (h : w ∈ ws) : ∃ b, (logOf ws).lookup (segments w.1) = some b :=
  lookup_of_mem_map (List.mem_map.mpr ⟨placed w, mem_logOf.mpr ⟨w, h, rfl⟩, rfl⟩)

private theorem mem_of_lookup_logOf {q : Location} {b : Bytes} (h : (logOf ws).lookup q = some b) :
    ∃ w ∈ ws, segments w.1 = q ∧ w.2 = b := by
  have ⟨w, hw, heq⟩ := mem_logOf.mp (mem_of_lookup h)
  exact ⟨w, hw, congrArg Prod.fst heq, congrArg Prod.snd heq⟩

private theorem real_of_dirs (h : ∀ p, t.entry p = some .dir → t'.entry p = some .dir)
    {cur : Location} {ns : List Text} (hreal : t.Real cur ns) : t'.Real cur ns :=
  fun q hq => h _ (hreal q hq)

/-- What the writes of a checkout have made of a fresh root. -/
structure Laid (t : FileTree) (root : Location) (ws : List (Text × Bytes)) : Prop where
  root_real : t.Real [] root
  kinds : ∀ q, q ≠ [] → t.entry (root ++ q) = none ∨ t.entry (root ++ q) = some .dir ∨
    ∃ b, t.entry (root ++ q) = some (.file b)
  files : ∀ q b, t.entry (root ++ q) = some (.file b) ↔ (logOf ws).lookup q = some b
  ways : ∀ w ∈ ws, PlainRel w.1 ∧ Named w.1 ∧ t.Real root (segments w.1).dropLast
  rewrites : ∀ w ∈ ws, ∀ w' ∈ ws, segments w.1 = segments w'.1 → w.2 ≠ w'.2 →
    t.refuses .write (root ++ segments w.1) = false

private theorem Fresh.laid (h : Fresh t root) : Laid t root [] where
  root_real := h.real
  kinds := fun q hq => .inl (h.empty q hq)
  files := by
    intro q b
    constructor
    · intro hfile
      by_cases hq : q = []
      · rw [hq, List.append_nil, ← List.nil_append root, h.real.whole] at hfile
        cases hfile
      · rw [h.empty q hq] at hfile
        cases hfile
    · nofun
  ways := nofun
  rewrites := nofun

private theorem Laid.grown {ns : List Text} (h : Laid t root ws) (hgrown : Grown t t' root ns) :
    Laid t' root ws where
  root_real := hgrown.real h.root_real
  kinds := by
    intro q hq
    rcases hgrown.entry (root ++ q) with hsame | ⟨_, q', _, _, heq, hreal⟩
    · rw [hsame]
      exact h.kinds q hq
    · rw [heq]
      exact .inr (.inl hreal.whole)
  files := by
    intro q b
    rcases hgrown.entry (root ++ q) with hsame | ⟨hnone, q', _, _, heq, hreal⟩
    · rw [hsame]
      exact h.files q b
    · rw [← h.files q b, hnone, heq, hreal.whole]
      simp
  ways := by
    intro w hw
    have ⟨hplain, hnamed, hreal⟩ := h.ways w hw
    exact ⟨hplain, hnamed, hgrown.real hreal⟩
  rewrites := by
    rw [hgrown.refuses]
    exact h.rewrites

private theorem write_file (h : PlainRel rel) (hn : Named rel)
    (hreal : t.Real root (segments rel).dropLast) {b : Bytes}
    (hentry : t.entry (root ++ segments rel) = some (.file b)) :
    t.write root (pieces rel) bytes = t.writeAll (root ++ segments rel) bytes := by
  have hlink : ∀ target, t.entry (root ++ segments rel) ≠ some (.link target) := by
    simp [hentry]
  unfold write
  rw [hn.nul, if_neg hn.last, h.walk_named hn hreal hlink]
  simp only [Bool.false_eq_true, if_false, hentry]

private theorem writeConfined_file (h : PlainRel rel) (hn : Named rel)
    (hreal : t.Real root (segments rel).dropLast) {b : Bytes}
    (hentry : t.entry (root ++ segments rel) = some (.file b)) :
    writeConfined root t rel bytes =
      if b = bytes then (.ok (), t)
      else if t.refuses .write (root ++ segments rel) then (.error (overlayIo .denied), t)
      else (.ok (), t.set (root ++ segments rel) (some (.file bytes))) := by
  have hparents : createOverlayParents root t rel = (.ok (), t) := h.parents_real hn _ hreal
  unfold writeConfined
  rw [hparents]
  simp only [h.metadata_named hn hreal, hentry, h.read_named hn hreal hentry,
    write_file h hn hreal hentry, FileTree.writeAll]
  by_cases hlen : b.length = bytes.length
  · rw [if_pos hlen]
    split_ifs <;> rfl
  · have hne : b ≠ bytes := fun heq => hlen (congrArg List.length heq)
    rw [if_neg hlen, if_neg hne]
    split_ifs <;> rfl

private theorem writeFile_safe (hsafe : rejectUnsafeRel rel = false) :
    writeFile root rel bytes t = writeConfined root t rel bytes := by
  unfold writeFile
  rw [hsafe]
  rfl

/-- The file of a write that succeeded, beside everything that stood there. -/
theorem Laid.put (h : Laid t root ws) (hplain : PlainRel rel) (hn : Named rel)
    (hreal : t.Real root (segments rel).dropLast)
    (hdir : t.entry (root ++ segments rel) ≠ some .dir)
    (hplace : t'.entry (root ++ segments rel) = some (.file bytes))
    (hother : ∀ p, p ≠ root ++ segments rel → t'.entry p = t.entry p)
    (hrefuses : t'.refuses = t.refuses)
    (hrewrite : ∀ w ∈ ws, segments w.1 = segments rel → w.2 ≠ bytes →
      t.refuses .write (root ++ segments rel) = false) : Laid t' root (ws ++ [(rel, bytes)]) := by
  have hdirs : ∀ p, t.entry p = some .dir → t'.entry p = some .dir := by
    intro p hp
    rw [hother p, hp]
    intro heq
    rw [heq] at hp
    exact hdir hp
  constructor
  · exact real_of_dirs hdirs h.root_real
  · intro q hq
    by_cases heq : q = segments rel
    · rw [heq, hplace]
      exact .inr (.inr ⟨bytes, rfl⟩)
    · rw [hother _ fun hp => heq (List.append_cancel_left hp)]
      exact h.kinds q hq
  · intro q b
    rw [logOf_concat, List.lookup_cons]
    by_cases heq : q = segments rel
    · rw [heq, hplace]
      simp [placed]
    · have hne : (q == (placed (rel, bytes)).1) = false := beq_eq_false_iff_ne.mpr heq
      rw [hother _ fun hp => heq (List.append_cancel_left hp), hne]
      exact h.files q b
  · intro w hw
    rcases List.mem_append.mp hw with hw | hw
    · have ⟨hplain', hn', hreal'⟩ := h.ways w hw
      exact ⟨hplain', hn', real_of_dirs hdirs hreal'⟩
    · rw [List.mem_singleton.mp hw]
      exact ⟨hplain, hn, real_of_dirs hdirs hreal⟩
  · intro w hw w' hw' hsame hne
    rw [hrefuses]
    rcases List.mem_append.mp hw with hw | hw
    · rcases List.mem_append.mp hw' with hw' | hw'
      · exact h.rewrites w hw w' hw' hsame hne
      · rw [List.mem_singleton.mp hw'] at hsame hne
        rw [hsame]
        exact hrewrite w hw hsame hne
    · rw [List.mem_singleton.mp hw] at hsame hne ⊢
      rcases List.mem_append.mp hw' with hw' | hw'
      · exact hrewrite w' hw' hsame.symm hne.symm
      · rw [List.mem_singleton.mp hw'] at hne
        exact absurd rfl hne

/-- One write adds itself to the log, or fails and adds directories at most. -/
private theorem laid_write (h : Laid t root ws) (hsafe : rejectUnsafeRel rel = false)
    {r : Except OverlayError Unit} (hrun : writeConfined root t rel bytes = (r, t')) :
    (∃ e, r = .error e ∧ Laid t' root ws) ∨
      r = .ok () ∧ Laid t' root (ws ++ [(rel, bytes)]) := by
  have hfile := hrun
  rw [← writeFile_safe hsafe] at hfile
  rcases writeFile_cases h.root_real hfile with ⟨e, he, hsame⟩ | ⟨hplain, hcase⟩
  · exact .inl ⟨e, he, hsame ▸ h⟩
  rcases hcase with ⟨e, he, hgrown⟩ | ⟨hok, hn, t₁, hgrown, hreal, hput⟩
  · exact .inl ⟨e, he, h.grown hgrown⟩
  have hrewrite : ∀ w ∈ ws, segments w.1 = segments rel → w.2 ≠ bytes →
      t₁.refuses .write (root ++ segments rel) = false := by
    intro w hw hsegs hne
    rw [hgrown.refuses]
    have ⟨b, hb⟩ := lookup_of_mem hw
    have ⟨w', hw', hsegs', hb'⟩ := mem_of_lookup_logOf hb
    by_cases hbytes : b = bytes
    · rw [← hsegs]
      exact h.rewrites w hw w' hw' hsegs'.symm (by rw [hb', hbytes]; exact hne)
    · have hentry := (h.files _ b).mpr hb
      rw [hsegs] at hentry
      have hway := (h.ways w hw).2.2
      rw [hsegs] at hway
      rw [writeConfined_file hplain hn hway hentry, if_neg hbytes, hok] at hrun
      by_contra hrefuses
      rw [if_pos (by simpa using hrefuses)] at hrun
      cases hrun
  right
  refine ⟨hok, ?_⟩
  rcases hput with ⟨hentry, hsame⟩ | ⟨_, hdir, hset⟩
  · rw [hsame]
    exact (h.grown hgrown).put hplain hn hreal (by simp [hentry]) hentry (fun _ _ => rfl) rfl
      hrewrite
  · rw [hset]
    exact (h.grown hgrown).put hplain hn hreal hdir (set_same _ _ _) (fun _ hp => set_other _ _ hp)
      rfl hrewrite

section

variable {c : GitTree} {caps : CheckoutCaps} {paths : List Text} {written total : Nat}
  {r : Except OverlayError Nat}

/-- The blob that looking up a path finds. -/
def readable (c : GitTree) (rel : Text) : Option (Text × Bytes) :=
  match c.getPath rel with
  | some (.blob contents) => some (rel, contents)
  | _ => none

private theorem resolveBlob_visible (hvisible : isIgnored rel = false)
    (hsafe : rejectUnsafeRel rel = false) :
    resolveBlob c rel = .ok ((readable c rel).map Prod.snd) := by
  unfold resolveBlob readable
  rw [hsafe, hvisible]
  simp only [Bool.false_eq_true, if_false]
  cases c.getPath rel with
  | none => rfl
  | some o => cases o <;> rfl

private theorem fst_of_readable (h : readable c rel = some w) : w.1 = rel := by
  unfold readable at h
  split at h
  · cases h
    rfl
  · cases h

/-- What the next path comes to, whatever the overlay holds: nothing, a refusal, or a write within
the budgets. -/
private theorem checkoutPaths_cons (hvisible : isIgnored rel = false)
    (hsafe : rejectUnsafeRel rel = false) :
    (readable c rel = none ∧ ∀ t, checkoutPaths root c caps (rel :: paths) written total t =
        checkoutPaths root c caps paths written total t) ∨
      ∃ bytes, readable c rel = some (rel, bytes) ∧
        ((∃ e, ∀ t, checkoutPaths root c caps (rel :: paths) written total t = (.error e, t)) ∨
          bytes.length ≤ caps.perFileBytes ∧ saturatingAdd total bytes.length ≤ caps.totalBytes ∧
            ∀ t, checkoutPaths root c caps (rel :: paths) written total t =
              match writeConfined root t rel bytes with
              | (.error e, t) => (.error e, t)
              | (.ok (), t) => checkoutPaths root c caps paths (written + 1)
                  (saturatingAdd total bytes.length) t) := by
  have hresolve : resolveBlob c rel = _ := resolveBlob_visible hvisible hsafe
  cases hread : readable c rel with
  | none =>
    rw [hread] at hresolve
    refine .inl ⟨rfl, fun t => ?_⟩
    rw [checkoutPaths]
    simp only [blobSizeAt, hresolve, Option.map_none, Except.map]
  | some w =>
    obtain ⟨path, bytes⟩ := w
    have hpath : path = rel := fst_of_readable hread
    rw [hread] at hresolve
    refine .inr ⟨bytes, by rw [hpath], ?_⟩
    by_cases hlarge : caps.perFileBytes < bytes.length
    · refine .inl ⟨perFileErr caps bytes.length rel, fun t => ?_⟩
      rw [checkoutPaths]
      simp only [blobSizeAt, hresolve, Option.map_some, Except.map, if_pos hlarge]
    by_cases htotal : caps.totalBytes < saturatingAdd total bytes.length
    · refine .inl ⟨totalErr caps rel, fun t => ?_⟩
      rw [checkoutPaths]
      simp only [blobSizeAt, hresolve, Option.map_some, Except.map, if_neg hlarge, if_pos htotal]
    refine .inr ⟨Nat.not_lt.mp hlarge, Nat.not_lt.mp htotal, fun t => ?_⟩
    rw [checkoutPaths]
    rcases hwrite : writeConfined root t rel bytes with ⟨_ | _, _⟩ <;>
      simp only [blobSizeAt, readBlobAtCapped, hresolve, Option.map_some, Except.map,
        if_neg hlarge, if_neg htotal, hwrite]

def bytesOf {κ : Type} (ws : List (κ × Bytes)) : Nat := (ws.map (·.2.length)).sum

private theorem bytesOf_cons {κ : Type} (k : κ) (bytes : Bytes) (ws : List (κ × Bytes)) :
    bytesOf ((k, bytes) :: ws) = bytes.length + bytesOf ws := by
  simp [bytesOf]

/-- Paths that a checkout keeps. -/
def Kept (paths : List Text) : Prop :=
  ∀ rel ∈ paths, isIgnored rel = false ∧ rejectUnsafeRel rel = false

/-- The writes of a run of the loop: the first of those planned, as far as the budgets go, and all
of them where it succeeds. -/
structure Wrote (c : GitTree) (caps : CheckoutCaps) (paths : List Text) (written total : Nat)
    (r : Except OverlayError Nat) (more : List (Text × Bytes)) : Prop where
  planned : more <+: paths.filterMap (readable c)
  each : ∀ w ∈ more, w.2.length ≤ caps.perFileBytes
  total : total ≤ caps.totalBytes → min (total + bytesOf more) u64Max ≤ caps.totalBytes
  all : ∀ n, r = .ok n → more = paths.filterMap (readable c) ∧ n = written + more.length

theorem Wrote.failed (e : OverlayError) : Wrote c caps paths written total (.error e) [] where
  planned := List.nil_prefix
  each := nofun
  total := fun h => (Nat.min_le_left _ _).trans (by simpa [bytesOf] using h)
  all := nofun

theorem Wrote.skip {more : List (Text × Bytes)} (hnone : readable c rel = none)
    (h : Wrote c caps paths written total r more) :
    Wrote c caps (rel :: paths) written total r more := by
  have hplan : (rel :: paths).filterMap (readable c) = paths.filterMap (readable c) :=
    List.filterMap_cons_none hnone
  refine ⟨?_, h.each, h.total, ?_⟩
  · rw [hplan]
    exact h.planned
  · rw [hplan]
    exact h.all

/-- A write within the budgets, before the others. -/
theorem Wrote.cons {more : List (Text × Bytes)} (hread : readable c rel = some (rel, bytes))
    (heach : bytes.length ≤ caps.perFileBytes)
    (htotal : saturatingAdd total bytes.length ≤ caps.totalBytes)
    (h : Wrote c caps paths (written + 1) (saturatingAdd total bytes.length) r more) :
    Wrote c caps (rel :: paths) written total r ((rel, bytes) :: more) := by
  have hplan : (rel :: paths).filterMap (readable c) =
      (rel, bytes) :: paths.filterMap (readable c) := List.filterMap_cons_some hread
  constructor
  · rw [hplan]
    exact (List.prefix_cons_inj _).mpr h.planned
  · exact List.forall_mem_cons.mpr ⟨heach, h.each⟩
  · intro _
    have hsum := h.total htotal
    unfold saturatingAdd at hsum
    rw [bytesOf_cons]
    omega
  · intro n hn
    have ⟨hall, hcount⟩ := h.all n hn
    rw [hplan, hall] at *
    refine ⟨rfl, ?_⟩
    rw [hcount, List.length_cons]
    omega

private theorem checkoutPaths_wrote (hpaths : Kept paths) (h : Laid t root ws)
    (hrun : checkoutPaths root c caps paths written total t = (r, t')) :
    ∃ more, Wrote c caps paths written total r more ∧ Laid t' root (ws ++ more) := by
  induction paths generalizing ws written total t with
  | nil =>
    cases hrun
    refine ⟨[], ⟨List.nil_prefix, nofun, fun h => ?_, fun n hn => ?_⟩, by rwa [List.append_nil]⟩
    · exact (Nat.min_le_left _ _).trans (by simpa [bytesOf] using h)
    · cases hn
      exact ⟨rfl, rfl⟩
  | cons rel paths ih =>
    have ⟨hvisible, hsafe⟩ := hpaths rel List.mem_cons_self
    have hrest : Kept paths := fun rel hrel => hpaths rel (List.mem_cons_of_mem _ hrel)
    rcases checkoutPaths_cons hvisible hsafe with ⟨hnone, hskip⟩ | ⟨bytes, hread, hcase⟩
    · rw [hskip] at hrun
      have ⟨more, hwrote, hlaid⟩ := ih hrest h hrun
      exact ⟨more, hwrote.skip hnone, hlaid⟩
    rcases hcase with ⟨e, hrefused⟩ | ⟨heach, htotal, hwrite⟩
    · rw [hrefused] at hrun
      cases hrun
      exact ⟨[], .failed e, by rwa [List.append_nil]⟩
    rw [hwrite] at hrun
    cases hput : writeConfined root t rel bytes with
    | mk r₁ t₁ =>
      rw [hput] at hrun
      rcases laid_write h hsafe hput with ⟨e, he, hlaid⟩ | ⟨hok, hlaid⟩
      · rw [he] at hrun
        cases hrun
        exact ⟨[], .failed e, by rwa [List.append_nil]⟩
      · rw [hok] at hrun
        have ⟨more, hwrote, hmore⟩ := ih hrest hlaid hrun
        exact ⟨(rel, bytes) :: more, hwrote.cons hread heach htotal, by rwa [List.append_cons]⟩

/-- A tree after the writes of a log. -/
def putAll (root : Location) (t : FileTree) : List (Location × Bytes) → FileTree
  | [] => t
  | w :: log => (putAll root t log).set (root ++ w.1) (some (.file w.2))

private theorem putAll_refuses (root : Location) (t : FileTree) (log : List (Location × Bytes)) :
    (putAll root t log).refuses = t.refuses := by
  induction log with
  | nil => rfl
  | cons w log ih => rw [putAll, set_refuses, ih]

private theorem putAll_below (root : Location) (t : FileTree) (log : List (Location × Bytes))
    (q : Location) : (putAll root t log).entry (root ++ q) =
      match log.lookup q with
      | some b => some (.file b)
      | none => t.entry (root ++ q) := by
  induction log with
  | nil => rfl
  | cons w log ih =>
    rw [putAll, List.lookup_cons]
    by_cases hq : q = w.1
    · simp [hq]
    · have hne : (q == w.1) = false := beq_eq_false_iff_ne.mpr hq
      rw [set_other _ _ fun h => hq (List.append_cancel_left h), hne]
      exact ih

private theorem putAll_outside {p : Location} (t : FileTree) (log : List (Location × Bytes))
    (hp : ∀ q, p ≠ root ++ q) : (putAll root t log).entry p = t.entry p := by
  induction log with
  | nil => rfl
  | cons w log ih => rw [putAll, set_other _ _ (hp w.1), ih]

private theorem eq_of_entry (hentry : ∀ p, t.entry p = t'.entry p)
    (hrefuses : t.refuses = t'.refuses) :
    t = t' := by
  cases t
  cases t'
  rw [FileTree.mk.injEq]
  exact ⟨funext hentry, hrefuses⟩

private theorem putAll_eq_self {log : List (Location × Bytes)}
    (h : ∀ q b, log.lookup q = some b → t.entry (root ++ q) = some (.file b)) :
    putAll root t log = t := by
  apply eq_of_entry
  · intro p
    by_cases hp : ∃ q, p = root ++ q
    · have ⟨q, hq⟩ := hp
      rw [hq, putAll_below]
      cases hlook : log.lookup q with
      | none => rfl
      | some b => exact (h q b hlook).symm
    · exact putAll_outside t log fun q hq => hp ⟨q, hq⟩
  · exact putAll_refuses root t log

private theorem Laid.putAll (h : Laid t root ws) : putAll root t (logOf ws) = t :=
  putAll_eq_self fun q b hb => (h.files q b).mpr hb

private theorem Laid.dirs_putAll {all : List (Text × Bytes)} (h : Laid t root all) (hws : ws ⊆ all)
    {p : Location} (hp : t.entry p = some .dir) :
    (OnDisk.putAll root t (logOf ws)).entry p = some .dir := by
  by_cases hbelow : ∃ q, p = root ++ q
  · have ⟨q, hq⟩ := hbelow
    rw [hq] at hp ⊢
    rw [putAll_below]
    cases hlook : (logOf ws).lookup q with
    | none => exact hp
    | some b =>
      have ⟨w, hw, hsegs, _⟩ := mem_of_lookup_logOf hlook
      have ⟨b', hb'⟩ := lookup_of_mem (hws hw)
      rw [hsegs, ← h.files, hp] at hb'
      cases hb'
  · rw [putAll_outside t _ fun q hq => hbelow ⟨q, hq⟩]
    exact hp

/-- A write of the log, made again after those before it, puts its bytes back. -/
private theorem writeConfined_putAll {all : List (Text × Bytes)} (h : Laid t root all)
    (hws : ws ++ [(rel, bytes)] ⊆ all) :
    writeConfined root (putAll root t (logOf ws)) rel bytes =
      (.ok (), putAll root t (logOf (ws ++ [(rel, bytes)]))) := by
  have hinit : ws ⊆ all := fun w hw => hws (List.mem_append_left _ hw)
  have hmem : (rel, bytes) ∈ all := hws (by simp)
  have ⟨hplain, hn, hway⟩ := h.ways _ hmem
  have hreal : (putAll root t (logOf ws)).Real root (segments rel).dropLast :=
    real_of_dirs (fun p hp => h.dirs_putAll hinit hp) hway
  have ⟨w, hw, hsegs, hentry⟩ : ∃ w ∈ all, segments w.1 = segments rel ∧
      (putAll root t (logOf ws)).entry (root ++ segments rel) = some (.file w.2) := by
    rw [putAll_below]
    cases hlook : (logOf ws).lookup (segments rel) with
    | some b =>
      have ⟨w, hw, hsegs, hb⟩ := mem_of_lookup_logOf hlook
      exact ⟨w, hinit hw, hsegs, by rw [hb]⟩
    | none =>
      have ⟨b, hb⟩ := lookup_of_mem hmem
      have ⟨w, hw, hsegs, hb'⟩ := mem_of_lookup_logOf hb
      exact ⟨w, hw, hsegs, by rw [hb']; exact (h.files _ b).mpr hb⟩
  rw [writeConfined_file hplain hn hreal hentry, logOf_concat, putAll, putAll_refuses]
  by_cases hsame : w.2 = bytes
  · rw [if_pos hsame]
    rw [hsame] at hentry
    congr 1
    apply eq_of_entry
    · intro p
      by_cases hp : p = root ++ segments rel
      · rw [hp, hentry]
        exact (set_same _ _ _).symm
      · exact (set_other _ _ hp).symm
    · rfl
  · have hpermit := h.rewrites w hw (rel, bytes) hmem hsegs hsame
    rw [hsegs] at hpermit
    rw [if_neg hsame, hpermit]
    rfl

/-- A write fails before anything but directories is made. -/
private theorem tree_of_writeConfined_error {r : Except OverlayError Unit} {e : OverlayError}
    (hparents : createOverlayParents root t rel = (r, t₁))
    (hrun : writeConfined root t rel bytes = (.error e, t')) : t₁ = t' := by
  unfold writeConfined at hrun
  rw [hparents] at hrun
  cases r with
  | error e' =>
    cases hrun
    rfl
  | ok =>
    dsimp only at hrun
    split at hrun
    · exact congrArg Prod.snd hrun
    · split at hrun
      · split at hrun
        · exact congrArg Prod.snd hrun
        · split at hrun
          · cases hrun
          · split at hrun
            · cases hrun
            · exact congrArg Prod.snd hrun
      · split at hrun
        · cases hrun
        · exact congrArg Prod.snd hrun
    · exact congrArg Prod.snd hrun
    · split at hrun
      · cases hrun
      · exact congrArg Prod.snd hrun
    · exact congrArg Prod.snd hrun

private theorem createOverlayParents_again (hroot : t.Real [] root) (hplain : PlainRel rel)
    {r : Except OverlayError Unit} (hrun : createOverlayParents root t rel = (r, t₁)) :
    createOverlayParents root t₁ rel = (r, t₁) := by
  have ⟨comps, hparent, hnormals, _⟩ := hplain.parent_eq
  have hbase : t.Real root [] := by
    intro q hq
    rw [List.prefix_nil.mp hq, List.append_nil]
    exact hroot.whole
  unfold createOverlayParents at hrun ⊢
  rw [hparent] at hrun ⊢
  apply createDirs_again (overlayErrors root rel) _ hbase hrun
  rw [List.nil_append, hnormals]
  exact hplain.plainNames_init

private theorem writeConfined_failed (hroot : t.Real [] root) (hsafe : rejectUnsafeRel rel = false)
    {e : OverlayError} (hrun : writeConfined root t rel bytes = (.error e, t')) :
    writeConfined root t' rel bytes = (.error e, t') := by
  cases hparents : createOverlayParents root t rel with
  | mk r t₁ =>
    have hagain := createOverlayParents_again hroot (plainRel_of_safe hsafe) hparents
    have hsame := tree_of_writeConfined_error hparents hrun
    rw [← hsame] at hrun ⊢
    unfold writeConfined at hrun ⊢
    rw [hparents] at hrun
    rw [hagain]
    exact hrun

/-- The loop over what a run of it left, with the writes of that run made again so far: it ends the
same way and leaves the same. -/
private theorem checkoutPaths_again (hpaths : Kept paths) (h : Laid t root ws)
    (hrun : checkoutPaths root c caps paths written total t = (r, t')) :
    checkoutPaths root c caps paths written total (putAll root t' (logOf ws)) = (r, t') := by
  induction paths generalizing ws written total t with
  | nil =>
    cases hrun
    rw [h.putAll]
    rfl
  | cons rel paths ih =>
    have ⟨hvisible, hsafe⟩ := hpaths rel List.mem_cons_self
    have hrest : Kept paths := fun rel hrel => hpaths rel (List.mem_cons_of_mem _ hrel)
    rcases checkoutPaths_cons hvisible hsafe with ⟨_, hskip⟩ | ⟨bytes, _, hcase⟩
    · rw [hskip] at hrun ⊢
      exact ih hrest h hrun
    rcases hcase with ⟨e, hrefused⟩ | ⟨_, _, hwrite⟩
    · rw [hrefused] at hrun ⊢
      cases hrun
      rw [h.putAll]
    rw [hwrite] at hrun ⊢
    cases hput : writeConfined root t rel bytes with
    | mk r₁ t₁ =>
      rw [hput] at hrun
      rcases laid_write h hsafe hput with ⟨e, he, hlaid⟩ | ⟨hok, hlaid⟩
      · rw [he] at hrun hput
        cases hrun
        rw [hlaid.putAll, writeConfined_failed h.root_real hsafe hput]
      · rw [hok] at hrun
        have ⟨more, _, hmore⟩ := checkoutPaths_wrote hrest hlaid hrun
        rw [writeConfined_putAll hmore (List.subset_append_left _ _)]
        exact ih hrest hlaid hrun

end

/-- All files below a root, each once. -/
structure Listing (t : FileTree) (root : Location) (fs : List (Location × Bytes)) : Prop where
  nodup : (fs.map Prod.fst).Nodup
  mem : ∀ q b, (q, b) ∈ fs ↔ t.entry (root ++ q) = some (.file b)

theorem Laid.listing (h : Laid t root ws) : Listing t root (latest (logOf ws)) where
  nodup := nodup_latest _
  mem := fun q b => mem_latest.trans (h.files q b).symm

theorem Listing.perm {fs fs' : List (Location × Bytes)} (h : Listing t root fs)
    (h' : Listing t root fs') : fs.Perm fs' :=
  (List.perm_ext_iff_of_nodup h.nodup.of_map h'.nodup.of_map).mpr fun f =>
    (h.mem f.1 f.2).trans (h'.mem f.1 f.2).symm

private theorem bytesOf_perm {fs fs' : List (Location × Bytes)} (h : fs.Perm fs') :
    bytesOf fs = bytesOf fs' := (h.map _).sum_eq

private theorem bytesOf_logOf (ws : List (Text × Bytes)) : bytesOf (logOf ws) = bytesOf ws := by
  unfold bytesOf logOf placed
  rw [List.map_reverse, List.sum_reverse, List.map_map]
  rfl

private theorem bytesOf_latest (ws : List (Text × Bytes)) :
    bytesOf (latest (logOf ws)) ≤ bytesOf ws := by
  rw [← bytesOf_logOf ws]
  exact ((latest_sublist _).map _).sum_le_sum fun _ _ => Nat.zero_le _

private theorem bytesOf_take {ws ws' : List (Text × Bytes)} (h : ws <+: ws') :
    bytesOf ws ≤ bytesOf ws' :=
  (h.sublist.map _).sum_le_sum fun _ _ => Nat.zero_le _

/-- The blob of an entry that is checked out. -/
def materializedBlob (e : TreeEntry) : Option (Text × Bytes) :=
  match e.object, materializedPath e with
  | .blob contents, some rel => some (rel, contents)
  | _, _ => none

/-- The blobs of a tree that are neither ignored nor unsafe. -/
def blobs (c : GitTree) : List (Text × Bytes) := c.entries.filterMap materializedBlob

/-- The writes that a checkout without budgets makes. -/
def plan (c : GitTree) : List (Text × Bytes) :=
  (c.entries.filterMap materializedPath).filterMap (readable c)

/-- A tree whose entries are found by their paths and have places of their own. -/
structure Faithful (c : GitTree) : Prop where
  places : ((blobs c).map fun w => segments w.1).Nodup
  found : ∀ w ∈ blobs c, c.getPath w.1 = some (.blob w.2)

/-- The sum of the sizes is not cut at its greatest value. -/
def Unsaturated (c : GitTree) (caps : CheckoutCaps) : Prop :=
  caps.totalBytes < u64Max ∨ bytesOf (plan c) ≤ caps.totalBytes

variable {c : GitTree} {caps : CheckoutCaps}

private theorem blobs_fst (c : GitTree) :
    (blobs c).map Prod.fst = c.entries.filterMap materializedPath := by
  unfold blobs
  rw [List.map_filterMap]
  apply List.filterMap_congr
  intro e _
  obtain ⟨path, object⟩ := e
  unfold materializedBlob
  cases object with
  | blob contents => cases materializedPath ⟨path, .blob contents⟩ <;> rfl
  | _ => rfl

private theorem plan_eq (c : GitTree) :
    plan c = ((blobs c).map Prod.fst).filterMap (readable c) := by
  rw [blobs_fst]
  rfl

private theorem readable_eq_some (rel : Text) (b : Bytes) :
    readable c rel = some (rel, b) ↔ c.getPath rel = some (.blob b) := by
  unfold readable
  split
  · simp_all
  · rename_i hnone
    exact ⟨nofun, fun h => absurd h (hnone b)⟩

private theorem Faithful.plan_eq (h : Faithful c) : plan c = blobs c := by
  rw [OnDisk.plan_eq, List.filterMap_map]
  have hread : ∀ w ∈ blobs c, (readable c ∘ Prod.fst) w = some w := fun w hw =>
    (readable_eq_some w.1 w.2).mpr (h.found w hw)
  rw [List.filterMap_congr hread, List.filterMap_some]

private theorem Faithful.nodup_logOf (h : Faithful c) : ((logOf (plan c)).map Prod.fst).Nodup := by
  rw [h.plan_eq]
  unfold logOf placed
  rw [List.map_reverse, List.nodup_reverse, List.map_map]
  exact h.places

private theorem Laid.bytesOf_listing {fs : List (Location × Bytes)} (h : Laid t root (plan c))
    (hfaithful : Faithful c) (hlisting : Listing t root fs) :
    bytesOf fs = bytesOf (plan c) := by
  rw [bytesOf_perm (hlisting.perm h.listing), latest_eq_self hfaithful.nodup_logOf, bytesOf_logOf]

private theorem listedPath_eq (e : TreeEntry) : listedPath true e = materializedPath e := by
  obtain ⟨path, object⟩ := e
  cases object <;> cases path <;> rfl

private theorem collectBlobPaths_ok {paths : List Text}
    (h : collectBlobPaths caps c.entries 0 [] = .ok paths) :
    paths = c.entries.filterMap materializedPath ∧ paths.length ≤ caps.materializedFiles := by
  rw [collectBlobPaths_eq] at h
  have ⟨_, hlen, hpaths⟩ := (blobPaths_eq_ok_iff (Nat.zero_le _) (Nat.zero_le _)).mp h
  rw [List.nil_append, List.filterMap_congr fun e _ => listedPath_eq e] at hpaths
  exact ⟨hpaths, hlen⟩

private theorem kept_materialized (c : GitTree) : Kept (c.entries.filterMap materializedPath) := by
  intro rel hrel
  have ⟨e, _, he⟩ := List.mem_filterMap.mp hrel
  unfold materializedPath at he
  split at he
  · split_ifs at he with hkept
    cases he
    simpa using hkept
  · cases he

/-- What every checkout leaves: the first of the planned writes, within the budgets, and no file but
from them. -/
structure Bounded (t : FileTree) (root : Location) (c : GitTree) (caps : CheckoutCaps)
    (ws : List (Text × Bytes)) (fs : List (Location × Bytes)) : Prop where
  listing : Listing t root fs
  planned : ws <+: plan c
  written : ∀ f ∈ fs, ∃ w ∈ ws, placed w = f
  count : fs.length ≤ caps.materializedFiles
  each : ∀ w ∈ ws, w.2.length ≤ caps.perFileBytes
  total : Unsaturated c caps → bytesOf ws ≤ caps.totalBytes ∧ bytesOf fs ≤ caps.totalBytes
  noLink : ∀ q target, t.entry (root ++ q) ≠ some (.link target)

/-- The overlay holds the blobs of the tree and nothing else: as many files as blobs, and every blob
at its path. -/
structure Exact (t : FileTree) (root : Location) (c : GitTree) (n : Nat) : Prop where
  count : n = (blobs c).length
  files : ∃ fs, Listing t root fs ∧ fs.length = n ∧ ∀ w ∈ blobs c, placed w ∈ fs

private theorem Laid.no_link (h : Laid t root ws) (q : Location) (target : Text) :
    t.entry (root ++ q) ≠ some (.link target) := by
  by_cases hq : q = []
  · have hdir := h.root_real.whole
    rw [List.nil_append] at hdir
    rw [hq, List.append_nil, hdir]
    simp
  · rcases h.kinds q hq with hnone | hdir | ⟨b, hfile⟩
    · simp [hnone]
    · simp [hdir]
    · simp [hfile]

private theorem Laid.bounded (h : Laid t root ws) (hplanned : ws <+: plan c)
    (hcount : (plan c).length ≤ caps.materializedFiles)
    (heach : ∀ w ∈ ws, w.2.length ≤ caps.perFileBytes)
    (htotal : min (bytesOf ws) u64Max ≤ caps.totalBytes) :
    Bounded t root c caps ws (latest (logOf ws)) where
  listing := h.listing
  planned := hplanned
  written := fun f hf => mem_logOf.mp ((latest_sublist _).subset hf)
  count := by
    have hlatest := (latest_sublist (logOf ws)).length_le
    rw [length_logOf] at hlatest
    exact hlatest.trans (hplanned.length_le.trans hcount)
  each := heach
  total := by
    intro hsat
    have hplan : bytesOf ws ≤ bytesOf (plan c) := bytesOf_take hplanned
    have hws : bytesOf ws ≤ caps.totalBytes := by
      rcases hsat with hsmall | hfits
      · omega
      · exact hplan.trans hfits
    exact ⟨hws, (bytesOf_latest ws).trans hws⟩
  noLink := h.no_link

/-- Holding everything planned, an overlay holds the tree exactly when the tree is faithful. -/
private theorem exact_iff {n : Nat} (h : Laid t root (plan c)) (hn : n = (plan c).length) :
    Exact t root c n ↔ Faithful c := by
  constructor
  · intro hexact
    have ⟨fs, hlisting, hlength, hblobs⟩ := hexact.files
    have hall : ∀ rel ∈ (blobs c).map Prod.fst, (readable c rel).isSome := by
      rw [← List.filterMap_length_eq_length, ← plan_eq, ← hn, hexact.count, List.length_map]
    have hplaces : (plan c).map (fun w => segments w.1) = (blobs c).map fun w => segments w.1 := by
      have hfst : (plan c).map Prod.fst = (blobs c).map Prod.fst := by
        rw [plan_eq, List.map_filterMap]
        rw [List.filterMap_congr (g := some), List.filterMap_some]
        intro rel hrel
        have ⟨w, hw⟩ := Option.isSome_iff_exists.mp (hall rel hrel)
        rw [hw, Option.map_some, fst_of_readable hw]
      have hmap := congrArg (List.map segments) hfst
      rw [List.map_map, List.map_map] at hmap
      exact hmap
    have hnodup : ((logOf (plan c)).map Prod.fst).Nodup := by
      apply nodup_of_length_latest
      rw [length_logOf, ← hn, ← hlength, (hlisting.perm h.listing).length_eq]
    constructor
    · rw [← hplaces]
      unfold logOf placed at hnodup
      rw [List.map_reverse, List.nodup_reverse, List.map_map] at hnodup
      exact hnodup
    · intro w hw
      have ⟨v, hv⟩ := Option.isSome_iff_exists.mp (hall w.1 (List.mem_map_of_mem hw))
      have hpath := fst_of_readable hv
      have hplan : v ∈ plan c := by
        rw [plan_eq]
        exact List.mem_filterMap.mpr ⟨w.1, List.mem_map_of_mem hw, hv⟩
      have hwritten : (logOf (plan c)).lookup (segments w.1) = some v.2 := by
        rw [← mem_latest, latest_eq_self hnodup, ← hpath]
        exact mem_logOf.mpr ⟨v, hplan, rfl⟩
      have hheld := (hlisting.mem _ _).mp (hblobs w hw)
      rw [h.files, hwritten, Option.some.injEq] at hheld
      rw [← readable_eq_some, hv, ← hheld, ← hpath]
  · intro hfaithful
    have hlisting := h.listing
    rw [latest_eq_self hfaithful.nodup_logOf] at hlisting
    rw [hfaithful.plan_eq] at hlisting hn
    refine ⟨hn, _, hlisting, ?_, fun w hw => mem_logOf.mpr ⟨w, hw, rfl⟩⟩
    rw [length_logOf, hn]

/-- A checkout into a fresh overlay keeps its budgets whatever it ends with, and doing it again
changes nothing. Where it succeeds, the overlay holds the tree, within the budget for all bytes,
exactly when every entry is found by its path, no two entries have one place, and the sum of the
sizes is not cut. -/
theorem checkout_budgets (hfresh : Fresh t root) :
    let run := checkoutRevisionWithCaps root c caps t
    (∃ ws fs, Bounded run.2 root c caps ws fs) ∧
      checkoutRevisionWithCaps root c caps run.2 = run ∧
      ∀ n, run.1 = .ok n →
        (Exact run.2 root c n ∧ (∀ fs, Listing run.2 root fs → bytesOf fs ≤ caps.totalBytes) ↔
          Faithful c ∧ Unsaturated c caps) := by
  intro run
  have hlaid := hfresh.laid
  cases hpaths : collectBlobPaths caps c.entries 0 [] with
  | error e =>
    have hsame : ∀ t, checkoutRevisionWithCaps root c caps t = (.error (.orchestrator e), t) := by
      intro t
      unfold checkoutRevisionWithCaps
      rw [hpaths]
    have hrun : run = (.error (.orchestrator e), t) := hsame t
    rw [hrun]
    refine ⟨⟨[], [], ?_, List.nil_prefix, nofun, Nat.zero_le _, nofun, fun _ => ?_, ?_⟩, hsame t,
      nofun⟩
    · exact hlaid.listing
    · exact ⟨Nat.zero_le _, Nat.zero_le _⟩
    · exact hlaid.no_link
  | ok paths =>
    have ⟨hkept, hcount⟩ := collectBlobPaths_ok hpaths
    have hsame : ∀ t, checkoutRevisionWithCaps root c caps t =
        checkoutPaths root c caps paths 0 0 t := by
      intro t
      unfold checkoutRevisionWithCaps
      rw [hpaths]
    have hrun : checkoutPaths root c caps paths 0 0 t = (run.1, run.2) := (hsame t).symm
    have hpaths' : Kept paths := hkept ▸ kept_materialized c
    have ⟨more, hwrote, hmore⟩ := checkoutPaths_wrote hpaths' hlaid hrun
    rw [List.nil_append] at hmore
    have hplan : paths.filterMap (readable c) = plan c := by rw [hkept]; rfl
    have htotal := hwrote.total (Nat.zero_le _)
    rw [Nat.zero_add] at htotal
    have hplanned := hwrote.planned
    rw [hplan] at hplanned
    have hlength : (plan c).length ≤ caps.materializedFiles := by
      rw [← hplan]
      exact (List.length_filterMap_le _ _).trans hcount
    refine ⟨⟨more, _, hmore.bounded hplanned hlength hwrote.each htotal⟩, ?_, fun n hn => ?_⟩
    · rw [hsame]
      exact checkoutPaths_again hpaths' hlaid hrun
    · have ⟨hall, hcount⟩ := hwrote.all n hn
      rw [hplan] at hall
      rw [hall] at hmore htotal hcount
      rw [Nat.zero_add] at hcount
      rw [exact_iff hmore hcount]
      apply and_congr_right
      intro hfaithful
      constructor
      · intro hbytes
        rw [Unsaturated, ← hmore.bytesOf_listing hfaithful hmore.listing]
        exact .inr (hbytes _ hmore.listing)
      · intro hsat fs hlisting
        rw [hmore.bytesOf_listing hfaithful hlisting]
        rcases hsat with hsmall | hfits
        · omega
        · exact hfits

def bareTree : FileTree where
  entry := fun p => if p = [] then some .dir else none
  refuses := fun _ _ => false

private theorem bareTree_fresh : Fresh bareTree [] where
  real := by
    intro q hq
    rw [List.prefix_nil.mp hq]
    rfl
  empty := fun q hq => if_neg hq

def plainCommit : GitTree :=
  .ofEntries [⟨some "a", .tree⟩, ⟨some "a/x", .blob [1]⟩, ⟨some "b", .blob [2, 3]⟩]

theorem checkout_budgets_plain :
    Exact (checkoutRevisionWithCaps [] plainCommit .production bareTree).2 [] plainCommit 2 := by
  have hok : (checkoutRevisionWithCaps [] plainCommit .production bareTree).1 = .ok 2 := by
    decide +kernel
  have hblobs : blobs plainCommit = [(("a/x" : Text), ([1] : Bytes)), ("b", [2, 3])] := by
    decide +kernel
  have hfaithful : Faithful plainCommit := by
    constructor
    · rw [hblobs]
      decide +kernel
    · rw [hblobs]
      intro w hw
      rcases List.mem_pair.mp hw with hw | hw
      · rw [hw]
        rfl
      · rw [hw]
        rfl
  exact (((checkout_budgets bareTree_fresh).2.2 2 hok).mpr ⟨hfaithful, .inl (by decide)⟩).1

/-- Two blobs of one place: an entry named by a dot leads to the directory it is in. -/
def aliasedCommit : GitTree :=
  .ofEntries [⟨some "a", .tree⟩, ⟨some "a/.", .tree⟩, ⟨some "a/./x", .blob [1]⟩,
    ⟨some "a/x", .blob [2]⟩]

/-- The checkout reports two files, and the second has replaced the first. -/
theorem checkout_budgets_alias :
    ¬ ∀ (root : Location) (c : GitTree) (caps : CheckoutCaps) (t : FileTree) (n : Nat),
      Fresh t root → (checkoutRevisionWithCaps root c caps t).1 = .ok n →
        Exact (checkoutRevisionWithCaps root c caps t).2 root c n := by
  intro h
  have hexact := h [] aliasedCommit .production bareTree 2 bareTree_fresh (by decide +kernel)
  have ⟨fs, hlisting, _, hblobs⟩ := hexact.files
  have hfirst := (hlisting.mem _ _).mp (hblobs ("a/./x", [1]) (by decide +kernel))
  have hheld : (checkoutRevisionWithCaps [] aliasedCommit .production bareTree).2.entry
      [("a" : Text), "x"] = some (.file [2]) := by
    decide +kernel
  exact absurd (hfirst.symm.trans hheld) (by decide)

end Jitgen.OnDisk
