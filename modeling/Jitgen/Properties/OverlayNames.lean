import Jitgen.Framework.Numerals
import Jitgen.Framework.PathJoin
import Jitgen.Properties.OverlayIsolation

/-!
# Names of executions

The texts of a model reach a request to the sandbox only by way of the directory's name, which is
made of lower-case letters, digits and hyphens. A request is refused for its name only where that is
too long.
-/

namespace Jitgen

open Text

/-- A character that names of executions are made of. -/
def isTagChar (c : Char) : Bool := isAsciiLower c || isAsciiDigit c || c = '-'

private theorem isTagChar_of_lower {c : Char} (h : 97 ≤ c.toNat ∧ c.toNat ≤ 122) :
    isTagChar c = true := by
  simp [isTagChar, isAsciiLower, Char.le_def, UInt32.le_iff_toNat_le]
  omega

private theorem toNat_of_isTagChar {c : Char} (h : isTagChar c = true) : c.toNat ≤ 122 := by
  simp only [isTagChar, isAsciiLower, Bool.or_eq_true, Bool.and_eq_true, decide_eq_true_eq,
    isAsciiDigit_iff] at h
  rcases h with (⟨-, hlower⟩ | hdigit) | hhyphen
  · exact hlower
  · omega
  · rw [hhyphen]
    decide

private theorem isTagChar_sanitizeChar (c : Char) : isTagChar (sanitizeChar c) = true := by
  unfold sanitizeChar
  dsimp only
  split
  · rename_i h
    unfold charToAsciiLower at h ⊢
    by_cases hupper : isAsciiUpper c = true
    · have hrange : 65 ≤ c.toNat ∧ c.toNat ≤ 90 := by
        simpa [isAsciiUpper, Char.le_def, UInt32.le_iff_toNat_le] using hupper
      have hcases : ∀ n < 26, isTagChar (Char.ofNat (65 + n + 32)) = true := by decide
      have hletter := hcases (c.toNat - 65) (by omega)
      rw [if_pos hupper]
      rwa [show 65 + (c.toNat - 65) + 32 = c.toNat + 32 by omega] at hletter
    · rw [if_neg hupper] at h ⊢
      simp only [Bool.not_eq_true] at hupper
      simpa [isTagChar, isAsciiAlphanumeric, hupper] using h
  · rfl

/-- A lower-case hexadecimal digit. -/
def isHexChar (c : Char) : Bool := isAsciiDigit c || ('a' ≤ c && c ≤ 'f')

private theorem isTagChar_of_isHexChar {c : Char} (h : isHexChar c = true) :
    isTagChar c = true := by
  simp only [isHexChar, Bool.or_eq_true, Bool.and_eq_true, decide_eq_true_eq] at h
  rcases h with hdigit | ⟨hlow, hhigh⟩
  · simp [isTagChar, hdigit]
  · have hlow' : 97 ≤ c.toNat := hlow
    have hhigh' : c.toNat ≤ 102 := hhigh
    apply isTagChar_of_lower
    omega

private theorem utf8Len_of_isTagChar {s : Text} (h : ∀ c ∈ s, isTagChar c = true) :
    utf8Len s = s.length := by
  induction s with
  | nil => rfl
  | cons c s ih =>
    have hone : c.utf8Size = 1 := by
      have hsmall := toNat_of_isTagChar (h c List.mem_cons_self)
      rw [Char.utf8Size_eq_one_iff, UInt32.le_iff_toNat_le]
      exact hsmall.trans (by decide)
    rw [utf8Len_cons, ih fun c hc => h c (List.mem_cons_of_mem _ hc), hone, List.length_cons]
    omega

/-- Hashes are written as 64 lower-case hexadecimal digits. -/
def HexDigest [Digest] : Prop :=
  ∀ bytes, (sha256Hex bytes).length = 64 ∧ ∀ c ∈ sha256Hex bytes, isHexChar c = true

private theorem overlayTag_chars (v : Variant) : ∀ c ∈ overlayTag v, isTagChar c = true := by
  have hbase : ∀ c ∈ ("base" : Text), isTagChar c = true :=
    forall_mem_of_all (by decide)
  have hhead : ∀ c ∈ ("head" : Text), isTagChar c = true :=
    forall_mem_of_all (by decide)
  have hmut : ∀ c ∈ ("mut-" : Text), isTagChar c = true :=
    forall_mem_of_all (by decide)
  intro c hc
  cases v with
  | base => exact hbase c hc
  | head => exact hhead c hc
  | mutant m =>
    rcases List.mem_append.mp hc with hc | hc
    · exact hmut c hc
    · obtain ⟨d, -, rfl⟩ := List.mem_map.mp (List.mem_of_mem_take hc)
      exact isTagChar_sanitizeChar d

private theorem isTagChar_of_mem_ofNat {n : Nat} {c : Char} (h : c ∈ ofNat n) :
    isTagChar c = true := by
  simp [isTagChar, isAsciiDigit_of_mem_ofNat h]

section

variable [Digest] {v : Variant} {candidate : Option TestCandidate} {pid nonce : Nat}

private theorem overlayName_chars (hhex : HexDigest) :
    ∀ c ∈ overlayName v candidate pid nonce, isTagChar c = true := by
  have hhyphen : ∀ c ∈ ("-" : Text), isTagChar c = true :=
    forall_mem_of_all (by decide)
  intro c hc
  simp only [overlayName, overlayKey, List.mem_append] at hc
  rcases hc with ((((((hc | hc) | hc) | hc) | hc) | hc) | hc)
  · exact overlayTag_chars v c hc
  · exact hhyphen c hc
  · exact isTagChar_of_isHexChar ((hhex _).2 c (List.mem_of_mem_take hc))
  · exact hhyphen c hc
  · exact isTagChar_of_mem_ofNat hc
  · exact hhyphen c hc
  · exact isTagChar_of_mem_ofNat hc

private theorem overlayName_length (hhex : HexDigest) :
    (overlayName v candidate pid nonce).length =
      (overlayTag v).length + (ofNat pid).length + (ofNat nonce).length + 35 := by
  have hhash := (hhex (toUtf8 (overlayMaterial v candidate))).1
  simp only [overlayName, overlayKey, List.length_append, List.length_take, hhash]
  have hhyphen : ("-" : Text).length = 1 := rfl
  omega

end

namespace UnixPath

private theorem exists_splitOn_push {s : Text} (hs : PlainName s) (path : Text) :
    ∃ front, (push path s).splitOn '/' = front ++ [s] := by
  have hsingle : s.splitOn '/' = [s] := List.splitOn_eq_singleton hs.no_slash
  unfold push
  split
  · rename_i hend
    obtain ⟨front, hfront⟩ : ['/'] <:+ path := List.isSuffixOf_iff_suffix.mp hend
    refine ⟨front.splitOn '/', ?_⟩
    rw [← hfront, List.append_assoc, List.singleton_append, List.splitOn_append_cons_self, hsingle]
  · refine ⟨path.splitOn '/', ?_⟩
    rw [List.splitOn_append_cons_self, hsingle]

private theorem fileName_push {s : Text} (hs : PlainName s) (path : Text) :
    fileName (push path s) = some s := by
  obtain ⟨front, hfront⟩ := exists_splitOn_push hs path
  have hbody : ∀ lead : List Component,
      (lead ++ ((push path s).splitOn '/').filterMap UnixPath.segment).getLast? =
        some (.normal s) := by
    intro lead
    rw [hfront, List.filterMap_append]
    simp [hs.segment]
  have hlast : (components (push path s)).getLast? = some (.normal s) := by
    unfold components
    dsimp only
    split
    · exact hbody [.rootDir]
    · split
      · exact hbody [.curDir]
      · exact hbody []
  simp [fileName, hlast]

end UnixPath

section

variable [Digest] {x : OverlayExecutor} {v : Variant} {candidate : Option TestCandidate}
  {nonce : Nat}

private theorem overlayName_plain (hhex : HexDigest) (pid : Nat) :
    UnixPath.PlainName (overlayName v candidate pid nonce) := by
  have hlength := @overlayName_length _ v candidate pid nonce hhex
  refine ⟨fun h => ?_, fun h => ?_, fun h => ?_, fun h => ?_⟩
  · rw [h] at hlength
    simp at hlength
  · rw [h] at hlength
    have hone : (".": Text).length = 1 := rfl
    omega
  · rw [h] at hlength
    have htwo : ("..": Text).length = 2 := rfl
    omega
  · have hslash := overlayName_chars hhex _ h
    cases hslash

private theorem instanceOf_overlayDir (hhex : HexDigest) :
    instanceOf (x.overlayDir v candidate nonce) =
      "jt-" ++ overlayName v candidate x.pid nonce := by
  unfold instanceOf OverlayExecutor.overlayDir
  rw [UnixPath.fileName_push (overlayName_plain hhex x.pid)]
  rfl

private theorem instance_chars (hhex : HexDigest) :
    ∀ c ∈ instanceOf (x.overlayDir v candidate nonce), isTagChar c = true := by
  have hlead : ∀ c ∈ ("jt-" : Text), isTagChar c = true :=
    forall_mem_of_all (by decide)
  rw [instanceOf_overlayDir hhex]
  intro c hc
  exact (List.mem_append.mp hc).elim (hlead c) (overlayName_chars hhex c)

/-- An instance is refused for its length only. -/
private theorem validateInstance_iff (hhex : HexDigest) :
    validateInstance (instanceOf (x.overlayDir v candidate nonce)) = .ok () ↔
      (overlayTag v).length + (ofNat x.pid).length + (ofNat nonce).length ≤ 26 := by
  have hchars := @instance_chars _ x v candidate nonce hhex
  have hlength : utf8Len (instanceOf (x.overlayDir v candidate nonce)) =
      (overlayTag v).length + (ofNat x.pid).length + (ofNat nonce).length + 38 := by
    rw [utf8Len_of_isTagChar hchars, instanceOf_overlayDir hhex, List.length_append,
      overlayName_length hhex]
    have hthree : ("jt-" : Text).length = 3 := rfl
    omega
  have hall : (instanceOf (x.overlayDir v candidate nonce)).all
      (fun c => isAsciiAlphanumeric c || c == '-' || c == '_') = true := by
    rw [List.all_eq_true]
    intro c hc
    have htag := hchars c hc
    simp only [isTagChar, Bool.or_eq_true, decide_eq_true_eq] at htag
    rcases htag with (hlower | hdigit) | hhyphen
    · simp [isAsciiAlphanumeric, hlower]
    · simp [isAsciiAlphanumeric, hdigit]
    · simp [hhyphen]
  unfold validateInstance
  rw [hall, hlength]
  simp

/-- The operation that runs the tests of a variant, with a candidate or without. -/
def runOf (v : Variant) : Option TestCandidate → PipelineOp
  | some candidate => .runCandidate candidate v
  | none => .runExisting v

/-- A request that the executor and the directory determine, up to the directory's root: the
candidate, and a mutant's path and diff, show in it by the directory's name only. -/
structure Named (x : OverlayExecutor) (l : OverlayRun) (v : Variant)
    (candidate : Option TestCandidate) (nonce : Nat) : Prop where
  dir : l.dir = x.overlayDir v candidate nonce
  request : ∃ command, x.command = some command ∧
    l.req = x.request command l.req.overlayRoot l.dir
  instance' : l.req.instance' = instanceOf l.dir
  chars : ∀ c ∈ l.req.instance', isTagChar c = true
  accepted : validateInstance l.req.instance' = .ok () ↔
    (overlayTag v).length + (ofNat x.pid).length + (ofNat nonce).length ≤ 26

theorem OverlayExecutor.Due.named {op : PipelineOp} {l : OverlayRun} (hhex : HexDigest)
    (h : x.Due op l) :
    ∃ v candidate nonce, op = runOf v candidate ∧ Named x l v candidate nonce := by
  cases h with
  | candidate candidate v nonce root o o' test command _ _ hcommand =>
    exact ⟨v, some candidate, nonce, rfl, rfl, ⟨command, hcommand, rfl⟩, rfl, instance_chars hhex,
      validateInstance_iff hhex⟩
  | existing v nonce o command _ hcommand =>
    exact ⟨v, none, nonce, rfl, rfl, ⟨command, hcommand, rfl⟩, rfl, instance_chars hhex,
      validateInstance_iff hhex⟩

/-- Whatever the executors are asked for and however they interleave, every request that reaches the
sandbox is named by the operation that is served. -/
theorem executors_named {ι α : Type} [DecidableEq ι] (hhex : HexDigest) (x : ι → OverlayExecutor)
    (clients : ι → Prog Ans α) {base : OverlayStore} (hbase : base.launches = [])
    (moves : List (Move ι OverlayChoice)) :
    let p := (startExecutors x clients base).run OverlayStore.handle moves
    ∀ l ∈ p.world.state.launches, ∃ i v candidate nonce,
      ServedRun x i (runOf v candidate) l p.world.history ∧ Named (x i) l v candidate nonce := by
  intro p l hl
  obtain ⟨-, i, op, hserved⟩ := (executors_safe x clients hbase moves).invariant.2 l hl
  obtain ⟨v, candidate, nonce, rfl, hnamed⟩ := hserved.due.named hhex
  exact ⟨i, v, candidate, nonce, hserved, hnamed⟩

end

private theorem baseDigest_hex : @HexDigest baseDigest := by
  have hlength : baseHash.length = 64 := by decide
  have hchars : ∀ c ∈ baseHash, isHexChar c = true := forall_mem_of_all (by decide +kernel)
  exact fun _ => ⟨hlength, hchars⟩

theorem twoExecutors_named :
    twoExecutors.world.state.launches.length = 2 ∧ ∀ l ∈ twoExecutors.world.state.launches,
      ∃ i v candidate nonce, @Named baseDigest (twinExecutor i) l v candidate nonce := by
  have hfresh : leftover.launches = [] := rfl
  have hnamed := @executors_named baseDigest _ _ _ baseDigest_hex twinExecutor existingRun leftover
    hfresh turns
  refine ⟨twoExecutors_run, ?_⟩
  unfold twoExecutors
  intro l hl
  obtain ⟨i, v, candidate, nonce, -, hl⟩ := hnamed l hl
  exact ⟨i, v, candidate, nonce, hl⟩

end Jitgen
