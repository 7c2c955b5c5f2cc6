import Jitgen.Framework.CachedDir

/-!
# Replacing files of a directory

A job writes its bytes to a temporary file, synchronizes it and gives it its final name. Jobs may run
at once and be cut off anywhere: under every name there is always a whole file.
-/

namespace Jitgen

/-- A file to be put at `dst` by way of `tmp`. -/
structure Job (N β : Type) where
  tmp : N
  dst : N
  bytes : List β

namespace CachedDir

variable {X N β ι : Type} {jobs : ι → Option (Job N β)} {start d d' d'' : CachedDir N β}
  {φ ψ : ι → Prop} {n : N} {a : Job N β} {h i : Nat} {j : ι}

/-- Jobs have temporary names of their own, and these are nobody's destination. -/
structure SetApart (jobs : ι → Option (Job N β)) : Prop where
  tmp : ∀ {i j a b}, jobs i = some a → jobs j = some b → a.tmp = b.tmp → i = j
  dst : ∀ {i j a b}, jobs i = some a → jobs j = some b → a.tmp ≠ b.dst

/-- A name that no job uses for its temporary file. -/
def Plain (jobs : ι → Option (Job N β)) (n : N) : Prop :=
  ∀ i a, jobs i = some a → a.tmp ≠ n

/-- Bytes that one of some jobs puts under a name. -/
def PutBy (jobs : ι → Option (Job N β)) (φ : ι → Prop) (n : N) (bytes : List β) : Prop :=
  ∃ i a, φ i ∧ jobs i = some a ∧ a.dst = n ∧ a.bytes = bytes

theorem PutBy.mono {bytes : List β} (hput : PutBy jobs φ n bytes) (hφ : ∀ i, φ i → ψ i) :
    PutBy jobs ψ n bytes := by
  obtain ⟨i, a, hi, hrest⟩ := hput
  exact ⟨i, a, hφ i hi, hrest⟩

/-- A file that no job has as its temporary one. -/
def Unheld (jobs : ι → Option (Job N β)) (d : CachedDir N β) (i : Nat) : Prop :=
  ∀ j a, jobs j = some a → d.names a.tmp ≠ some i

/-- Whatever a crash leaves, a plain name has the file it had at the start, or the whole file of a
job. -/
structure Whole (jobs : ι → Option (Job N β)) (start d : CachedDir N β) : Prop where
  unique : ∀ {m n i}, d.names m = some i → d.names n = some i → m = n
  allocated : ∀ e ∈ d.views, ∀ n i, e n = some i → i < d.next
  synced : ∀ n, Plain jobs n → ∀ e ∈ d.views, ∀ i, e n = some i → d.synced i = true
  whole : ∀ n, Plain jobs n → ∀ e ∈ d.views, ∀ i, e n = some i →
    start.read n = some (d.contents i) ∨ PutBy jobs (fun _ => True) n (d.contents i)
  kept : ∀ n, Plain jobs n → ∀ e ∈ d.views, e n = none → start.read n = none
  unheld : ∀ n, Plain jobs n → ∀ e ∈ d.views, ∀ i, e n = some i → Unheld jobs d i
  anchored : d.anchored = start.anchored

/-- A directory as it is found, without anything that a crash could undo. -/
structure Clean (d : CachedDir N β) : Prop where
  unique : ∀ {m n i}, d.names m = some i → d.names n = some i → m = n
  allocated : ∀ n i, d.names n = some i → i < d.next
  settled : d.pending = []
  synced : ∀ n i, d.names n = some i → d.synced i = true

theorem Clean.whole (hclean : Clean d) : Whole jobs d d := by
  have hview : ∀ e ∈ d.views, e = d.names := by
    intro e he
    rw [views, hclean.settled] at he
    exact List.mem_singleton.mp he
  constructor
  case unique => exact hclean.unique
  case allocated =>
    intro e he n i hn
    rw [hview e he] at hn
    exact hclean.allocated n i hn
  case synced =>
    intro n _ e he i hn
    rw [hview e he] at hn
    exact hclean.synced n i hn
  case whole =>
    intro n _ e he i hn
    rw [hview e he] at hn
    exact .inl (by simp [read, hn])
  case kept =>
    intro n _ e he hn
    rw [hview e he] at hn
    simp [read, hn]
  case unheld =>
    intro n hplain e he i hn j a ha htmp
    rw [hview e he] at hn
    exact hplain j a ha (hclean.unique htmp hn)
  case anchored => rfl

/-- What some jobs may do to a directory, as the others see it. -/
structure Changes (jobs : ι → Option (Job N β)) (φ : ι → Prop) (d d' : CachedDir N β) : Prop where
  tmp : ∀ j a, ¬ φ j → jobs j = some a → d'.names a.tmp = d.names a.tmp ∧
    ∀ i, d.names a.tmp = some i → d'.contents i = d.contents i ∧ d'.synced i = d.synced i
  now : ∀ n, Plain jobs n → d'.names n = d.names n ∨
    ∃ i, d'.names n = some i ∧ PutBy jobs φ n (d'.contents i)
  later : ∀ n, Plain jobs n → ∀ e' ∈ d'.views, (∃ e ∈ d.views, e' n = e n) ∨
    ∃ i, e' n = some i ∧ PutBy jobs φ n (d'.contents i)
  stable : ∀ i < d.next, Unheld jobs d i → d'.contents i = d.contents i ∧ Unheld jobs d' i
  next : d.next ≤ d'.next

theorem Changes.refl (d : CachedDir N β) : Changes jobs φ d d where
  tmp _ _ _ _ := ⟨rfl, fun _ _ => ⟨rfl, rfl⟩⟩
  now _ _ := .inl rfl
  later _ _ e he := .inl ⟨e, he, rfl⟩
  stable _ _ hi := ⟨rfl, hi⟩
  next := Nat.le_refl _

theorem Changes.mono (hc : Changes jobs φ d d') (hφ : ∀ i, φ i → ψ i) : Changes jobs ψ d d' where
  tmp j a hj := hc.tmp j a fun h => hj (hφ j h)
  now n hn := (hc.now n hn).imp_right (Exists.imp fun _ => And.imp_right (PutBy.mono · hφ))
  later n hn e he :=
    (hc.later n hn e he).imp_right (Exists.imp fun _ => And.imp_right (PutBy.mono · hφ))
  stable := hc.stable
  next := hc.next

theorem Changes.contents (hc : Changes jobs φ d d') (hwhole : Whole jobs start d)
    (hn : Plain jobs n) {e : N → Option Nat} (he : e ∈ d.views) (hi : e n = some i) :
    d'.contents i = d.contents i :=
  (hc.stable i (hwhole.allocated e he n i hi) (hwhole.unheld n hn e he i hi)).1

theorem Changes.trans (hc : Changes jobs φ d d') (hwhole : Whole jobs start d')
    (hc' : Changes jobs φ d' d'') : Changes jobs φ d d'' := by
  have hput : ∀ n, Plain jobs n → ∀ e ∈ d'.views, ∀ i, e n = some i →
      PutBy jobs φ n (d'.contents i) → PutBy jobs φ n (d''.contents i) := by
    intro n hn e he i hi hby
    rwa [hc'.contents hwhole hn he hi]
  constructor
  case tmp =>
    intro j a hj ha
    obtain ⟨hname, hfile⟩ := hc.tmp j a hj ha
    obtain ⟨hname', hfile'⟩ := hc'.tmp j a hj ha
    refine ⟨hname'.trans hname, fun i hi => ?_⟩
    obtain ⟨hcontents, hsynced⟩ := hfile i hi
    obtain ⟨hcontents', hsynced'⟩ := hfile' i (hname.trans hi)
    exact ⟨hcontents'.trans hcontents, hsynced'.trans hsynced⟩
  case now =>
    intro n hn
    rcases hc'.now n hn with heq | hother
    · rcases hc.now n hn with heq' | ⟨i, hi, hby⟩
      · exact .inl (heq.trans heq')
      · exact .inr ⟨i, heq.trans hi, hput n hn _ List.mem_cons_self i hi hby⟩
    · exact .inr hother
  case later =>
    intro n hn e he
    rcases hc'.later n hn e he with ⟨e', he', heq⟩ | hother
    · rcases hc.later n hn e' he' with ⟨e'', he'', heq'⟩ | ⟨i, hi, hby⟩
      · exact .inl ⟨e'', he'', heq.trans heq'⟩
      · exact .inr ⟨i, heq.trans hi, hput n hn e' he' i hi hby⟩
    · exact .inr hother
  case stable =>
    intro i hi hunheld
    obtain ⟨hcontents, hunheld'⟩ := hc.stable i hi hunheld
    obtain ⟨hcontents', hunheld''⟩ := hc'.stable i (Nat.lt_of_lt_of_le hi hc.next) hunheld'
    exact ⟨hcontents'.trans hcontents, hunheld''⟩
  case next => exact Nat.le_trans hc.next hc'.next

/-- A change of the files that jobs hold, and of nothing that a plain name stands for. -/
structure Quiet (jobs : ι → Option (Job N β)) (d d' : CachedDir N β) : Prop where
  names : ∀ n, Plain jobs n → d'.names n = d.names n
  views : ∀ n, Plain jobs n → ∀ e' ∈ d'.views, ∃ e ∈ d.views, e' n = e n
  files : ∀ i < d.next, Unheld jobs d i → d'.contents i = d.contents i ∧
    d'.synced i = d.synced i ∧ Unheld jobs d' i
  next : d.next ≤ d'.next

theorem Quiet.whole (hquiet : Quiet jobs d d') (hwhole : Whole jobs start d)
    (hunique : ∀ {m n i}, d'.names m = some i → d'.names n = some i → m = n)
    (hallocated : ∀ e ∈ d'.views, ∀ n i, e n = some i → i < d'.next)
    (hanchored : d'.anchored = d.anchored) : Whole jobs start d' := by
  have hfile : ∀ n, Plain jobs n → ∀ e' ∈ d'.views, ∀ i, e' n = some i →
      ∃ e ∈ d.views, e n = some i ∧ d'.contents i = d.contents i ∧ d'.synced i = d.synced i ∧
        Unheld jobs d' i := by
    intro n hn e' he' i hi
    obtain ⟨e, he, heq⟩ := hquiet.views n hn e' he'
    rw [heq] at hi
    exact ⟨e, he, hi, hquiet.files i (hwhole.allocated e he n i hi) (hwhole.unheld n hn e he i hi)⟩
  constructor
  case unique => exact hunique
  case allocated => exact hallocated
  case synced =>
    intro n hn e' he' i hi
    obtain ⟨e, he, hi', _, hsynced, _⟩ := hfile n hn e' he' i hi
    exact hsynced.trans (hwhole.synced n hn e he i hi')
  case whole =>
    intro n hn e' he' i hi
    obtain ⟨e, he, hi', hcontents, _⟩ := hfile n hn e' he' i hi
    rw [hcontents]
    exact hwhole.whole n hn e he i hi'
  case kept =>
    intro n hn e' he' hnone
    obtain ⟨e, he, heq⟩ := hquiet.views n hn e' he'
    exact hwhole.kept n hn e he (heq.symm.trans hnone)
  case unheld =>
    intro n hn e' he' i hi
    obtain ⟨_, _, _, _, _, hunheld⟩ := hfile n hn e' he' i hi
    exact hunheld
  case anchored => exact hanchored.trans hwhole.anchored

theorem Quiet.changes (hquiet : Quiet jobs d d')
    (htmp : ∀ j a, ¬ φ j → jobs j = some a → d'.names a.tmp = d.names a.tmp ∧
      ∀ i, d.names a.tmp = some i → d'.contents i = d.contents i ∧ d'.synced i = d.synced i) :
    Changes jobs φ d d' where
  tmp := htmp
  now n hn := .inl (hquiet.names n hn)
  later n hn e' he' := .inl (hquiet.views n hn e' he')
  stable i hi hunheld :=
    have hfile := hquiet.files i hi hunheld
    ⟨hfile.1, hfile.2.2⟩
  next := hquiet.next

/-- A step of a job keeps everything whole, and the others see it as its own. -/
def Steps (jobs : ι → Option (Job N β)) (start : CachedDir N β) (j : ι) (d d' : CachedDir N β) :
    Prop :=
  Whole jobs start d' ∧ Changes jobs (· = j) d d'

theorem Steps.refl (hwhole : Whole jobs start d) : Steps jobs start j d d :=
  ⟨hwhole, Changes.refl d⟩

section

variable [DecidableEq N] (hjobs : SetApart jobs) (hwhole : Whole jobs start d) (ha : jobs j = some a)
include hjobs hwhole ha

theorem steps_create : Steps jobs start j d (d.create a.tmp) := by
  have hother : ∀ n, n ≠ a.tmp → (d.create a.tmp).names n = d.names n := by
    intro n hn
    exact Function.update_of_ne hn _ _
  have hself : (d.create a.tmp).names a.tmp = some d.next := Function.update_self _ _ _
  have hfresh : ∀ e ∈ d.views, ∀ n, e n ≠ some d.next := by
    intro e he n hn
    exact Nat.lt_irrefl _ (hwhole.allocated e he n _ hn)
  have hnext : ∀ n i, n ≠ a.tmp → (d.create a.tmp).names n = some i → i ≠ d.next := by
    rintro n i hn hi rfl
    exact hfresh _ List.mem_cons_self n ((hother n hn).symm.trans hi)
  have hviews : ∀ e' ∈ (d.create a.tmp).views, e' = (d.create a.tmp).names ∨ e' ∈ d.views := by
    intro e' he'
    exact List.mem_cons.mp he'
  have hquiet : Quiet jobs d (d.create a.tmp) := by
    constructor
    case names =>
      intro n hn
      exact hother n (hn j a ha).symm
    case views =>
      intro n hn e' he'
      rcases hviews e' he' with rfl | he'
      · exact ⟨d.names, List.mem_cons_self, hother n (hn j a ha).symm⟩
      · exact ⟨e', he', rfl⟩
    case files =>
      intro i hi hunheld
      have hne : i ≠ d.next := Nat.ne_of_lt hi
      refine ⟨Function.update_of_ne hne _ _, Function.update_of_ne hne _ _, ?_⟩
      intro k b hb hk
      by_cases htmp : b.tmp = a.tmp
      · rw [htmp, hself] at hk
        exact hne (Option.some.inj hk).symm
      · rw [hother _ htmp] at hk
        exact hunheld k b hb hk
    case next => exact Nat.le_succ _
  constructor
  · apply hquiet.whole hwhole
    case hunique =>
      intro m n i hm hn
      by_cases hm' : m = a.tmp
      · by_cases hn' : n = a.tmp
        · exact hm'.trans hn'.symm
        · rw [hm', hself] at hm
          exact absurd (Option.some.inj hm).symm (hnext n i hn' hn)
      · by_cases hn' : n = a.tmp
        · rw [hn', hself] at hn
          exact absurd (Option.some.inj hn).symm (hnext m i hm' hm)
        · rw [hother m hm'] at hm
          rw [hother n hn'] at hn
          exact hwhole.unique hm hn
    case hallocated =>
      intro e' he' n i hi
      rcases hviews e' he' with rfl | he'
      · by_cases hn : n = a.tmp
        · rw [hn, hself] at hi
          cases hi
          exact Nat.lt_succ_self _
        · rw [hother n hn] at hi
          exact Nat.lt_succ_of_lt (hwhole.allocated _ List.mem_cons_self n i hi)
      · exact Nat.lt_succ_of_lt (hwhole.allocated e' he' n i hi)
    case hanchored => rfl
  · apply hquiet.changes
    intro k b hk hb
    have hne : b.tmp ≠ a.tmp := fun heq => hk (hjobs.tmp hb ha heq)
    refine ⟨hother _ hne, fun i hi => ?_⟩
    have hi' : i ≠ d.next := Nat.ne_of_lt (hwhole.allocated _ List.mem_cons_self _ i hi)
    exact ⟨Function.update_of_ne hi' _ _, Function.update_of_ne hi' _ _⟩

omit [DecidableEq N] in
/-- A change of the contents of the job's temporary file. -/
theorem steps_file (hheld : d.names a.tmp = some h) (hnames : d'.names = d.names)
    (hpending : d'.pending = d.pending) (hnext : d'.next = d.next)
    (hanchored : d'.anchored = d.anchored)
    (hfiles : ∀ i, i ≠ h → d'.contents i = d.contents i ∧ d'.synced i = d.synced i) :
    Steps jobs start j d d' := by
  have hviews : d'.views = d.views := by rw [views, views, hnames, hpending]
  have hquiet : Quiet jobs d d' := by
    constructor
    case names =>
      intro n _
      rw [hnames]
    case views =>
      intro n _ e' he'
      exact ⟨e', hviews ▸ he', rfl⟩
    case files =>
      intro i _ hunheld
      have hne : i ≠ h := by
        rintro rfl
        exact hunheld j a ha hheld
      refine ⟨(hfiles i hne).1, (hfiles i hne).2, fun k b hb hk => ?_⟩
      rw [hnames] at hk
      exact hunheld k b hb hk
    case next => exact Nat.le_of_eq hnext.symm
  constructor
  · apply hquiet.whole hwhole
    case hunique =>
      intro m n i hm hn
      rw [hnames] at hm hn
      exact hwhole.unique hm hn
    case hallocated =>
      intro e' he' n i hi
      rw [hnext]
      exact hwhole.allocated e' (hviews ▸ he') n i hi
    case hanchored => exact hanchored
  · apply hquiet.changes
    intro k b hk hb
    refine ⟨by rw [hnames], fun i hi => hfiles i ?_⟩
    rintro rfl
    exact hk (hjobs.tmp hb ha (hwhole.unique hi hheld))

omit [DecidableEq N] in
theorem steps_append (hheld : d.names a.tmp = some h) (bytes : List β) :
    Steps jobs start j d (d.append h bytes) :=
  steps_file hjobs hwhole ha hheld rfl rfl rfl rfl fun _ hi =>
    ⟨Function.update_of_ne hi _ _, Function.update_of_ne hi _ _⟩

omit [DecidableEq N] in
theorem steps_flush (hheld : d.names a.tmp = some h) : Steps jobs start j d (d.flush h) :=
  steps_file hjobs hwhole ha hheld rfl rfl rfl rfl fun _ hi => ⟨rfl, Function.update_of_ne hi _ _⟩

/-- The temporary file, whole and synchronized, gets its final name. -/
theorem steps_move (hheld : d.names a.tmp = some h) (hbytes : d.contents h = a.bytes)
    (hsynced : d.synced h = true) : Steps jobs start j d (d.move a.tmp a.dst h) := by
  have hdst : a.tmp ≠ a.dst := hjobs.dst ha ha
  have hself : (d.move a.tmp a.dst h).names a.dst = some h := by
    change Function.update (Function.update d.names a.dst (some h)) a.tmp none a.dst = some h
    rw [Function.update_of_ne hdst.symm, Function.update_self]
  have hgone : (d.move a.tmp a.dst h).names a.tmp = none := Function.update_self _ _ _
  have hother : ∀ n, n ≠ a.tmp → n ≠ a.dst → (d.move a.tmp a.dst h).names n = d.names n := by
    intro n hn hn'
    change Function.update (Function.update d.names a.dst (some h)) a.tmp none n = d.names n
    rw [Function.update_of_ne hn, Function.update_of_ne hn']
  have hviews : ∀ e' ∈ (d.move a.tmp a.dst h).views,
      e' = (d.move a.tmp a.dst h).names ∨ e' ∈ d.views := by
    intro e' he'
    exact List.mem_cons.mp he'
  have hplain : ∀ n, Plain jobs n → ∀ e' ∈ (d.move a.tmp a.dst h).views,
      (∃ e ∈ d.views, e' n = e n) ∨ n = a.dst ∧ e' n = some h := by
    intro n hn e' he'
    rcases hviews e' he' with rfl | he'
    · by_cases hn' : n = a.dst
      · rw [hn']
        exact .inr ⟨rfl, hself⟩
      · exact .inl ⟨d.names, List.mem_cons_self, hother n (hn j a ha).symm hn'⟩
    · exact .inl ⟨e', he', rfl⟩
  have hput : PutBy jobs (· = j) a.dst (d.contents h) := ⟨j, a, rfl, ha, rfl, hbytes.symm⟩
  have htmps : ∀ i, (Unheld jobs d i ∨ i = h) → Unheld jobs (d.move a.tmp a.dst h) i := by
    intro i hi k b hb hk
    by_cases htmp : b.tmp = a.tmp
    · rw [htmp, hgone] at hk
      cases hk
    · rw [hother _ htmp (hjobs.dst hb ha)] at hk
      rcases hi with hi | rfl
      · exact hi k b hb hk
      · exact htmp (hwhole.unique hk hheld)
  constructor
  · constructor
    case unique =>
      intro m n i hm hn
      have hfrom : ∀ m, (d.move a.tmp a.dst h).names m = some i →
          m = a.dst ∧ i = h ∨ m ≠ a.tmp ∧ d.names m = some i := by
        intro m hm
        by_cases htmp : m = a.tmp
        · rw [htmp, hgone] at hm
          cases hm
        · by_cases hm' : m = a.dst
          · rw [hm', hself] at hm
            exact .inl ⟨hm', (Option.some.inj hm).symm⟩
          · exact .inr ⟨htmp, (hother m htmp hm').symm.trans hm⟩
      rcases hfrom m hm with ⟨hm', hih⟩ | ⟨hm', hold⟩
      · rcases hfrom n hn with ⟨hn', _⟩ | ⟨hn', hold'⟩
        · exact hm'.trans hn'.symm
        · exact absurd (hwhole.unique hold' (hih ▸ hheld)) hn'
      · rcases hfrom n hn with ⟨_, hih⟩ | ⟨_, hold'⟩
        · exact absurd (hwhole.unique hold (hih ▸ hheld)) hm'
        · exact hwhole.unique hold hold'
    case allocated =>
      intro e' he' n i hi
      rcases hviews e' he' with rfl | he'
      · by_cases htmp : n = a.tmp
        · rw [htmp, hgone] at hi
          cases hi
        · by_cases hn : n = a.dst
          · rw [hn, hself] at hi
            cases hi
            exact hwhole.allocated _ List.mem_cons_self _ _ hheld
          · rw [hother n htmp hn] at hi
            exact hwhole.allocated _ List.mem_cons_self n i hi
      · exact hwhole.allocated e' he' n i hi
    case synced =>
      intro n hn e' he' i hi
      rcases hplain n hn e' he' with ⟨e, he, heq⟩ | ⟨_, heq⟩
      · exact hwhole.synced n hn e he i (heq.symm.trans hi)
      · rw [heq] at hi
        cases hi
        exact hsynced
    case whole =>
      intro n hn e' he' i hi
      rcases hplain n hn e' he' with ⟨e, he, heq⟩ | ⟨rfl, heq⟩
      · exact hwhole.whole n hn e he i (heq.symm.trans hi)
      · rw [heq] at hi
        cases hi
        exact .inr (hput.mono fun _ _ => trivial)
    case kept =>
      intro n hn e' he' hnone
      rcases hplain n hn e' he' with ⟨e, he, heq⟩ | ⟨_, heq⟩
      · exact hwhole.kept n hn e he (heq.symm.trans hnone)
      · rw [heq] at hnone
        cases hnone
    case unheld =>
      intro n hn e' he' i hi
      rcases hplain n hn e' he' with ⟨e, he, heq⟩ | ⟨_, heq⟩
      · exact htmps i (.inl (hwhole.unheld n hn e he i (heq.symm.trans hi)))
      · rw [heq] at hi
        exact htmps i (.inr (Option.some.inj hi).symm)
    case anchored => exact hwhole.anchored
  · constructor
    case tmp =>
      intro k b hk hb
      have hne : b.tmp ≠ a.tmp := fun heq => hk (hjobs.tmp hb ha heq)
      exact ⟨hother _ hne (hjobs.dst hb ha), fun i _ => ⟨rfl, rfl⟩⟩
    case now =>
      intro n hn
      by_cases hn' : n = a.dst
      · rw [hn']
        exact .inr ⟨h, hself, hput⟩
      · exact .inl (hother n (hn j a ha).symm hn')
    case later =>
      intro n hn e' he'
      rcases hplain n hn e' he' with hbefore | ⟨rfl, heq⟩
      · exact .inl hbefore
      · exact .inr ⟨h, heq, hput⟩
    case stable =>
      intro i _ hunheld
      exact ⟨rfl, htmps i (.inl hunheld)⟩
    case next => exact Nat.le_refl _

omit [DecidableEq N] hjobs ha in
theorem steps_settleNames : Steps jobs start j d d.settleNames := by
  have hviews : ∀ e ∈ d.settleNames.views, e ∈ d.views := by
    intro e he
    rw [List.mem_singleton.mp he]
    exact List.mem_cons_self
  have hquiet : Quiet jobs d d.settleNames :=
    ⟨fun _ _ => rfl, fun _ _ e he => ⟨e, hviews e he, rfl⟩, fun _ _ hi => ⟨rfl, rfl, hi⟩, Nat.le_refl _⟩
  constructor
  · exact hquiet.whole hwhole hwhole.unique (fun e he => hwhole.allocated e (hviews e he)) rfl
  · exact hquiet.changes fun _ _ _ _ => ⟨rfl, fun _ _ => ⟨rfl, rfl⟩⟩

end

/-- Whatever is lost, the file of a job is there. -/
def Landed (jobs : ι → Option (Job N β)) (n : N) (d : CachedDir N β) : Prop :=
  ∀ e ∈ d.views, ∃ i, e n = some i ∧ PutBy jobs (fun _ => True) n (d.contents i)

theorem Landed.changes (hlanded : Landed jobs n d) (hn : Plain jobs n)
    (hwhole : Whole jobs start d) (hc : Changes jobs φ d d') : Landed jobs n d' := by
  intro e' he'
  rcases hc.later n hn e' he' with ⟨e, he, heq⟩ | ⟨i, hi, hput⟩
  · obtain ⟨i, hi, hput⟩ := hlanded e he
    rw [← hc.contents hwhole hn he hi] at hput
    exact ⟨i, heq.trans hi, hput⟩
  · exact ⟨i, hi, hput.mono fun _ _ => trivial⟩

theorem Whole.read_afterCrash (hwhole : Whole jobs start d) (hn : Plain jobs n)
    (hcrash : d' = d ∨ AfterCrash d d') :
    d'.read n = start.read n ∨
      (∃ bytes, d'.read n = some bytes ∧ PutBy jobs (fun _ => True) n bytes) ∨
      start.anchored = false ∧ ∀ m, d'.read m = none := by
  have hshown : ∀ e ∈ d.views, d'.names n = e n →
      (∀ i, e n = some i → d'.contents i = d.contents i) →
      d'.read n = start.read n ∨
        ∃ bytes, d'.read n = some bytes ∧ PutBy jobs (fun _ => True) n bytes := by
    intro e he heq hcontents
    cases hi : e n with
    | none =>
      rw [hwhole.kept n hn e he hi]
      exact .inl (by simp [read, heq, hi])
    | some i =>
      have hread : d'.read n = some (d.contents i) := by simp [read, heq, hi, hcontents i hi]
      rcases hwhole.whole n hn e he i hi with hold | hput
      · exact .inl (hread.trans hold.symm)
      · exact .inr ⟨_, hread, hput⟩
  rcases hcrash with rfl | hcrash
  · exact (hshown _ List.mem_cons_self rfl fun _ _ => rfl).imp_right .inl
  · cases hcrash with
    | kept hnames hcontents =>
      obtain ⟨e, he, heq⟩ := hnames n
      exact (hshown e he heq fun i hi => hcontents i (hwhole.synced n hn e he i hi)).imp_right .inl
    | lost hanchored hnames =>
      refine .inr (.inr ⟨hwhole.anchored.symm.trans hanchored, fun m => ?_⟩)
      simp [read, hnames m]

theorem Landed.read_afterCrash (hlanded : Landed jobs n d) (hwhole : Whole jobs start d)
    (hn : Plain jobs n) (hcrash : d' = d ∨ AfterCrash d d') :
    (∃ bytes, d'.read n = some bytes ∧ PutBy jobs (fun _ => True) n bytes) ∨
      start.anchored = false ∧ ∀ m, d'.read m = none := by
  rcases hcrash with rfl | hcrash
  · obtain ⟨i, hi, hput⟩ := hlanded _ List.mem_cons_self
    exact .inl ⟨_, by simp [read, hi], hput⟩
  · cases hcrash with
    | kept hnames hcontents =>
      obtain ⟨e, he, heq⟩ := hnames n
      obtain ⟨i, hi, hput⟩ := hlanded e he
      have hsame := hcontents i (hwhole.synced n hn e he i hi)
      exact .inl ⟨d.contents i, by simp [read, heq, hi, hsame], hput⟩
    | lost hanchored hnames =>
      refine .inr ⟨hwhole.anchored.symm.trans hanchored, fun m => ?_⟩
      simp [read, hnames m]

section

variable [DecidableEq N] {A : X → Type} {ε α : Type}

abbrev DirWorld (ι : Type) (A : X → Type) (N β : Type) :=
  World ι (OpAns (N := N) (β := β) A) (Choice A) (CachedDir N β)

/-- What a job relies on and owes the others. -/
def replacing (jobs : ι → Option (Job N β)) (start : CachedDir N β) (j : ι) :
    Contract ι (OpAns (N := N) (β := β) A) (Choice A) (CachedDir N β) where
  rely w w' := Whole jobs start w.state →
    Whole jobs start w'.state ∧ Changes jobs (· ≠ j) w.state w'.state
  guarantee _ w w' := Whole jobs start w.state → Steps jobs start j w.state w'.state
  rely_refl w hwhole := ⟨hwhole, Changes.refl w.state⟩
  rely_trans hr hr' hwhole :=
    have hfirst := hr hwhole
    have hsecond := hr' hfirst.1
    ⟨hsecond.1, hfirst.2.trans hfirst.1 hsecond.2⟩

/-- What the other jobs do not disturb. -/
def Stable (jobs : ι → Option (Job N β)) (start : CachedDir N β) (j : ι)
    (P : CachedDir N β → Prop) : Prop :=
  ∀ d d', Whole jobs start d → Changes jobs (· ≠ j) d d' → P d → P d'

theorem safe_op {w : DirWorld ι A N β} {o : Op X N β} {δ : Type} {wrap : δ → ε}
    {decode : OpAns A o → Except δ α} {P : CachedDir N β → Prop} {Q : α → CachedDir N β → Prop}
    (hP : Stable jobs start j P) (hQ : ∀ x, Stable jobs start j (Q x))
    (hstep : ∀ c d, Whole jobs start d → P d → Steps jobs start j d (exec c o d).2 ∧
      ∀ x, decode (exec c o d).1 = .ok x → Q x (exec c o d).2)
    (hwhole : Whole jobs start w.state) (hw : P w.state) :
    (Fallible.attempt o wrap decode).Safe exec j (replacing jobs start j)
      (fun x w => Whole jobs start w.state ∧ Q x w.state) w := by
  apply Fallible.safe_attempt
  intro w' hr c
  obtain ⟨hwhole', hchanges⟩ := hr hwhole
  obtain ⟨hsteps, hpost⟩ := hstep c w'.state hwhole' (hP _ _ hwhole hchanges hw)
  refine ⟨fun _ => hsteps, fun x hx w'' hr' => ?_⟩
  obtain ⟨hwhole'', hchanges'⟩ := hr' hsteps.1
  exact ⟨hwhole'', hQ x _ _ hsteps.1 hchanges' (hpost x hx)⟩

/-- The job's temporary file, with these bytes. -/
def Holds (a : Job N β) (h : Nat) (bytes : List β) (d : CachedDir N β) : Prop :=
  d.names a.tmp = some h ∧ d.contents h = bytes

omit [DecidableEq N] in
theorem stable_holds (ha : jobs j = some a) (bytes : List β) :
    Stable jobs start j (Holds a h bytes) := by
  rintro d d' _ hc ⟨hname, hcontents⟩
  obtain ⟨hname', hfile⟩ := hc.tmp j a (fun hne => hne rfl) ha
  exact ⟨hname'.trans hname, (hfile h hname).1.trans hcontents⟩

omit [DecidableEq N] in
theorem stable_holds_synced (ha : jobs j = some a) (bytes : List β) :
    Stable jobs start j fun d => Holds a h bytes d ∧ d.synced h = true := by
  rintro d d' hwhole hc ⟨hholds, hsynced⟩
  refine ⟨stable_holds ha bytes d d' hwhole hc hholds, ?_⟩
  exact ((hc.tmp j a (fun hne => hne rfl) ha).2 h hholds.1).2.trans hsynced

/-- A job's file is under the name now. -/
def Latest (jobs : ι → Option (Job N β)) (n : N) (d : CachedDir N β) : Prop :=
  ∃ i, d.names n = some i ∧ PutBy jobs (fun _ => True) n (d.contents i)

omit [DecidableEq N] in
theorem stable_latest (hn : Plain jobs n) : Stable jobs start j (Latest jobs n) := by
  rintro d d' hwhole hc ⟨i, hi, hput⟩
  rcases hc.now n hn with heq | ⟨i', hi', hput'⟩
  · rw [← hc.contents hwhole hn List.mem_cons_self hi] at hput
    exact ⟨i, heq.trans hi, hput⟩
  · exact ⟨i', hi', hput'.mono fun _ _ => trivial⟩

omit [DecidableEq N] in
theorem stable_landed (hn : Plain jobs n) : Stable jobs start j (Landed jobs n) :=
  fun _ _ hwhole hc hlanded => hlanded.changes hn hwhole hc

variable {w : DirWorld ι A N β} {wrap : Text → ε}

theorem safe_other {x : X} {δ : Type} {wrap : δ → ε} {decode : A x → Except δ α}
    (hwhole : Whole jobs start w.state) :
    (Fallible.attempt (.other x) wrap decode : Fallible _ (OpAns A) _).Safe exec j (replacing jobs start j)
      (fun _ w => Whole jobs start w.state ∧ True) w :=
  safe_op (P := fun _ => True) (Q := fun _ _ => True) (fun _ _ _ _ _ => trivial)
    (fun _ _ _ _ _ _ => trivial) (fun _ _ hwhole _ => ⟨Steps.refl hwhole, fun _ _ => trivial⟩)
    hwhole trivial

section

variable (hjobs : SetApart jobs) (ha : jobs j = some a)
include hjobs ha

omit [DecidableEq N] in
theorem SetApart.plain_dst : Plain jobs a.dst := fun _ _ hb => hjobs.dst hb ha

theorem safe_createNew (hwhole : Whole jobs start w.state) :
    (Fallible.attempt (.createNew a.tmp) wrap id : Fallible _ (OpAns A) _).Safe exec j
      (replacing jobs start j) (fun h w => Whole jobs start w.state ∧ Holds a h [] w.state) w := by
  refine safe_op (P := fun _ => True) (Q := fun h => Holds a h []) (fun _ _ _ _ _ => trivial)
    (fun _ => stable_holds ha []) (fun c d hwhole _ => ?_) hwhole trivial
  cases hfree : d.names a.tmp with
  | some i =>
    simp only [exec, hfree, Option.isSome_some, if_true]
    refine ⟨Steps.refl hwhole, fun x hx => ?_⟩
    cases hx
  | none =>
    have hsteps := steps_create hjobs hwhole ha
    simp only [exec, hfree, Option.isSome_none, Bool.false_eq_true, if_false]
    constructor
    · rcases c.settle_state d.next (d.create a.tmp) d with heq | heq
      · rw [heq]
        exact hsteps
      · rw [heq]
        exact Steps.refl hwhole
    · intro x hx
      obtain ⟨rfl, heq⟩ := Choice.settle_ok hx
      rw [heq]
      exact ⟨Function.update_self _ _ _, Function.update_self _ _ _⟩

theorem safe_write (hwhole : Whole jobs start w.state) (hholds : Holds a h [] w.state) :
    (Fallible.attempt (.write h a.bytes) wrap id : Fallible _ (OpAns A) _).Safe exec j
      (replacing jobs start j)
      (fun _ w => Whole jobs start w.state ∧ Holds a h a.bytes w.state) w := by
  refine safe_op (stable_holds ha []) (fun _ => stable_holds ha a.bytes) (fun c d hwhole hd => ?_)
    hwhole hholds
  cases herror : c.error with
  | none =>
    simp only [exec, herror]
    refine ⟨steps_append hjobs hwhole ha hd.1 a.bytes, fun _ _ => ⟨hd.1, ?_⟩⟩
    change Function.update d.contents h (d.contents h ++ a.bytes) h = a.bytes
    rw [Function.update_self, hd.2, List.nil_append]
  | some e =>
    simp only [exec, herror]
    refine ⟨steps_append hjobs hwhole ha hd.1 _, fun x hx => ?_⟩
    cases hx

theorem safe_syncFile (hwhole : Whole jobs start w.state) (hholds : Holds a h a.bytes w.state) :
    (Fallible.attempt (.syncFile h) wrap id : Fallible _ (OpAns A) _).Safe exec j (replacing jobs start j)
      (fun _ w => Whole jobs start w.state ∧ Holds a h a.bytes w.state ∧ w.state.synced h = true)
      w := by
  refine safe_op (stable_holds ha a.bytes) (fun _ => stable_holds_synced ha a.bytes)
    (fun c d hwhole hd => ?_) hwhole hholds
  constructor
  · rcases c.settle_state () (d.flush h) d with heq | heq
    · rw [exec, heq]
      exact steps_flush hjobs hwhole ha hd.1
    · rw [exec, heq]
      exact Steps.refl hwhole
  · intro x hx
    rw [exec, (Choice.settle_ok hx).2]
    exact ⟨hd, Function.update_self _ _ _⟩

theorem safe_rename (hwhole : Whole jobs start w.state) (hholds : Holds a h a.bytes w.state)
    (hsynced : w.state.synced h = true) :
    (Fallible.attempt (.rename a.tmp a.dst) wrap id : Fallible _ (OpAns A) _).Safe exec j
      (replacing jobs start j)
      (fun _ w => Whole jobs start w.state ∧ Latest jobs a.dst w.state) w := by
  refine safe_op (stable_holds_synced (h := h) ha a.bytes)
    (fun _ => stable_latest (hjobs.plain_dst ha)) (fun c d hwhole hd => ?_) hwhole ⟨hholds, hsynced⟩
  obtain ⟨⟨hname, hcontents⟩, hflushed⟩ := hd
  have hsteps := steps_move hjobs hwhole ha hname hcontents hflushed
  simp only [exec, hname]
  constructor
  · rcases c.settle_state () (d.move a.tmp a.dst h) d with heq | heq
    · rw [heq]
      exact hsteps
    · rw [heq]
      exact Steps.refl hwhole
  · intro x hx
    rw [(Choice.settle_ok hx).2]
    refine ⟨h, ?_, j, a, trivial, ha, rfl, hcontents.symm⟩
    change Function.update (Function.update d.names a.dst (some h)) a.tmp none a.dst = some h
    rw [Function.update_of_ne (hjobs.dst ha ha).symm, Function.update_self]

theorem safe_syncDir (hwhole : Whole jobs start w.state) (hlatest : Latest jobs a.dst w.state) :
    (Fallible.attempt .syncDir wrap id : Fallible _ (OpAns A) _).Safe exec j (replacing jobs start j)
      (fun _ w => Whole jobs start w.state ∧ Landed jobs a.dst w.state) w := by
  have hplain := hjobs.plain_dst ha
  refine safe_op (stable_latest hplain) (fun _ => stable_landed hplain) (fun c d hwhole hd => ?_)
    hwhole hlatest
  constructor
  · rcases c.settle_state () d.settleNames d with heq | heq
    · rw [exec, heq]
      exact steps_settleNames hwhole
    · rw [exec, heq]
      exact Steps.refl hwhole
  · intro x hx
    rw [exec, (Choice.settle_ok hx).2]
    intro e he
    rw [List.mem_singleton.mp he]
    exact hd

end

/-- A job that ends well has landed its file. -/
def Replaced (jobs : ι → Option (Job N β)) (start : CachedDir N β) (j : ι) (r : Except ε α)
    (w : DirWorld ι A N β) : Prop :=
  ∀ x, r = .ok x → Whole jobs start w.state ∧ ∀ a, jobs j = some a → Landed jobs a.dst w.state

omit [DecidableEq N] in
theorem replacements_compose [DecidableEq ι] (hjobs : SetApart jobs) :
    Pool.Composes (α := Except ε α) (replacing (A := A) jobs start) (Replaced jobs start)
      (fun w => Whole jobs start w.state) fun _ _ _ => True where
  invariant _ _ _ _ hg hwhole := (hg hwhole).1
  returned _ _ _ _ hg _ _ hr x hx :=
    have hbefore := hr x hx
    have hsteps := hg hbefore.1
    ⟨hsteps.1, fun a ha =>
      (hbefore.2 a ha).changes (hjobs.plain_dst ha) hbefore.1 hsteps.2⟩
  rely _ _ _ _ _ hij _ _ hg _ hwhole :=
    have hsteps := hg hwhole
    ⟨hsteps.1, hsteps.2.mono fun _ heq => heq ▸ hij⟩

end

end CachedDir

end Jitgen
