import Jitgen.Framework.UnixPath

/-!
# Names appended to paths
-/

namespace Jitgen

namespace UnixPath

/-- Append a plain name to a path. -/
def push (path name : Text) : Text :=
  if path.endsWith "/" then path ++ name else path ++ '/' :: name

/-- A name that stands for an entry of a directory. -/
structure PlainName (s : Text) : Prop where
  ne_nil : s ≠ []
  ne_dot : s ≠ "."
  ne_up : s ≠ ".."
  no_slash : '/' ∉ s

theorem PlainName.segment {s : Text} (h : PlainName s) : segment s = some (.normal s) := by
  rw [UnixPath.segment, if_neg (not_or.mpr ⟨h.ne_nil, h.ne_dot⟩), if_neg h.ne_up]

theorem notMem_of_mem_splitOn {sep : Char} {t s : Text} (h : s ∈ t.splitOn sep) : sep ∉ s := by
  induction t generalizing s with
  | nil => simp_all
  | cons c cs ih =>
    obtain ⟨hd, tl, hcs⟩ := List.exists_cons_of_ne_nil (List.splitOn_ne_nil sep cs)
    rw [List.splitOn_cons_eq_if_modifyHead, hcs] at h
    rw [hcs] at ih
    by_cases hc : c = sep
    · subst hc
      simp only [beq_self_eq_true, if_true] at h
      rcases List.mem_cons.mp h with rfl | h
      · simp
      · exact ih h
    · have hbeq : (c == sep) = false := by simpa using hc
      simp only [hbeq, Bool.false_eq_true, if_false, List.modifyHead_cons] at h
      rcases List.mem_cons.mp h with rfl | h
      · simpa [Ne.symm hc] using ih List.mem_cons_self
      · exact ih (List.mem_cons_of_mem _ h)

theorem mem_of_mem_splitOn {sep c : Char} {t s : Text} (h : s ∈ t.splitOn sep) (hc : c ∈ s) :
    c ∈ t := by
  induction t generalizing s with
  | nil => simp_all
  | cons d ds ih =>
    obtain ⟨hd, tl, hds⟩ := List.exists_cons_of_ne_nil (List.splitOn_ne_nil sep ds)
    rw [List.splitOn_cons_eq_if_modifyHead, hds] at h
    rw [hds] at ih
    split at h
    · rcases List.mem_cons.mp h with rfl | h
      · cases hc
      · exact List.mem_cons_of_mem _ (ih h hc)
    · rw [List.modifyHead_cons] at h
      rcases List.mem_cons.mp h with rfl | h
      · rcases List.mem_cons.mp hc with rfl | hc
        · exact List.mem_cons_self
        · exact List.mem_cons_of_mem _ (ih List.mem_cons_self hc)
      · exact List.mem_cons_of_mem _ (ih (List.mem_cons_of_mem _ h) hc)

theorem exists_piece {path s : Text} (h : Component.normal s ∈ components path) :
    ∃ piece ∈ path.splitOn '/', UnixPath.segment piece = some (.normal s) := by
  have hbody : Component.normal s ∈ (path.splitOn '/').filterMap UnixPath.segment := by
    unfold components at h
    dsimp only at h
    split at h
    · simpa using h
    · split at h
      · simpa using h
      · exact h
  exact List.mem_filterMap.mp hbody

theorem plainPiece_of_mem {path s : Text} (h : Component.normal s ∈ components path) :
    PlainName s ∧ s ∈ path.splitOn '/' := by
  obtain ⟨piece, hpiece, hseg⟩ := exists_piece h
  unfold UnixPath.segment at hseg
  split at hseg
  · cases hseg
  · rename_i hskip
    split at hseg
    · cases hseg
    · rename_i hup
      cases hseg
      exact ⟨⟨fun h => hskip (.inl h), fun h => hskip (.inr h), hup, notMem_of_mem_splitOn hpiece⟩,
        hpiece⟩

theorem plainName_of_mem {path s : Text} (h : Component.normal s ∈ components path) :
    PlainName s :=
  (plainPiece_of_mem h).1

theorem mem_splitOn_of_mem {path s : Text} (h : Component.normal s ∈ components path) :
    s ∈ path.splitOn '/' :=
  (plainPiece_of_mem h).2

theorem isAbsolute_push {path : Text} (h : isAbsolute path = true) (s : Text) :
    isAbsolute (push path s) = true := by
  unfold isAbsolute Text.startsWith at h ⊢
  rw [List.isPrefixOf_iff_prefix] at h ⊢
  unfold push
  split
  · exact h.trans (List.prefix_append _ _)
  · exact h.trans (List.prefix_append _ _)

theorem components_of_absolute {path : Text} (h : isAbsolute path = true) :
    components path = .rootDir :: (path.splitOn '/').filterMap UnixPath.segment := by
  simp [components, h]

theorem components_push {path s : Text} (h : isAbsolute path = true) (hs : PlainName s) :
    components (push path s) = components path ++ [.normal s] := by
  rw [components_of_absolute (isAbsolute_push h s), components_of_absolute h]
  have hsingle : s.splitOn '/' = [s] := List.splitOn_eq_singleton hs.no_slash
  have hlast : [s].filterMap UnixPath.segment = [.normal s] := by simp [hs.segment]
  unfold push
  split
  · rename_i hend
    obtain ⟨front, hfront⟩ : ['/'] <:+ path := List.isSuffixOf_iff_suffix.mp hend
    rw [← hfront, List.append_assoc, List.singleton_append, List.splitOn_append_cons_self,
      List.splitOn_append_cons_self, hsingle, List.filterMap_append, hlast, List.filterMap_append]
    simp [UnixPath.segment]
  · rw [List.splitOn_append_cons_self, hsingle, List.filterMap_append, hlast]
    rfl

theorem splitOn_join {ss : List Text} (hss : ∀ s ∈ ss, PlainName s) (hne : ss ≠ []) :
    (Text.join "/" ss).splitOn '/' = ss :=
  List.splitOn_intercalate '/' (fun s hs => (hss s hs).no_slash) hne

theorem isAbsolute_join {ss : List Text} (hss : ∀ s ∈ ss, PlainName s) (hne : ss ≠ []) :
    isAbsolute (Text.join "/" ss) = false := by
  by_contra h
  unfold isAbsolute Text.startsWith at h
  rw [Bool.not_eq_false, List.isPrefixOf_iff_prefix] at h
  obtain ⟨t, ht⟩ := h
  have hfirst : (Text.join "/" ss).splitOn '/' = [] :: t.splitOn '/' := by
    rw [← ht]
    exact List.splitOn_append_cons_self [] t
  rw [splitOn_join hss hne] at hfirst
  exact (hss [] (hfirst ▸ List.mem_cons_self)).ne_nil rfl

theorem components_join {ss : List Text} (hss : ∀ s ∈ ss, PlainName s) (hne : ss ≠ []) :
    components (Text.join "/" ss) = ss.map .normal := by
  have hseg : ss.filterMap UnixPath.segment = ss.map .normal := by
    rw [← List.filterMap_eq_map]
    exact List.filterMap_congr fun s hs => (hss s hs).segment
  have hdot : ss.head? ≠ some ("." : Text) := fun h =>
    (hss _ (List.mem_of_mem_head? h)).ne_dot rfl
  unfold components
  simp only [isAbsolute_join hss hne, splitOn_join hss hne, hdot, hseg, Bool.false_eq_true,
    if_false]

theorem mem_join {ss : List Text} {c : Char} (h : c ∈ Text.join "/" ss) :
    c = '/' ∨ ∃ s ∈ ss, c ∈ s := by
  induction ss with
  | nil => cases h
  | cons s ss ih =>
    cases ss with
    | nil => exact .inr ⟨s, List.mem_singleton_self s, by simpa [Text.join] using h⟩
    | cons x xs =>
      rw [Text.join, List.intercalate_cons_cons, List.mem_append, List.mem_append] at h
      rcases h with (h | h) | h
      · exact .inr ⟨s, List.mem_cons_self, h⟩
      · exact .inl (List.mem_singleton.mp h)
      · exact (ih h).imp_right fun ⟨y, hy, hc⟩ => ⟨y, List.mem_cons_of_mem _ hy, hc⟩

theorem mem_join_of_mem {ss : List Text} (hss : ∀ s ∈ ss, PlainName s) {s : Text} (hs : s ∈ ss)
    {c : Char} (hc : c ∈ s) : c ∈ Text.join "/" ss := by
  have hne : ss ≠ [] := List.ne_nil_of_mem hs
  exact @mem_of_mem_splitOn '/' c _ s (by rwa [splitOn_join hss hne]) hc

end UnixPath

end Jitgen
