import Jitgen.Framework.Text

/-!
# The HTTP transport and its endpoints

An endpoint must be HTTPS, or plain HTTP to a loopback host. The check reads the authority with a
parser of its own; the URL standard's reading stands beside it.
-/

namespace Jitgen

open Text

def isLoopback (host : Text) : Bool :=
  host == ("localhost" : Text) || host == ("127.0.0.1" : Text) || host == ("::1" : Text)

/-- The host in the part of a URL after the scheme. -/
def hostOf (afterScheme : Text) : Text :=
  let authority := afterScheme.takeWhile (· != '/')
  let authority := authority.rtakeWhile (· != '@')
  match authority with
  | '[' :: rest => rest.takeWhile (· != ']')
  | _ => authority.takeWhile (· != ':')

def validateEndpoint (url : Text) : Except Text Unit :=
  if url.startsWith "https://" then .ok ()
  else match stripPrefix "http://" url with
    | some after =>
      if isLoopback (hostOf after) then .ok ()
      else .error (("refusing plain-HTTP endpoint " : Text) ++ debugQuoted url ++
        ": real providers require https:// (only a loopback host may use http://)")
    | none =>
      .error (("endpoint " : Text) ++ debugQuoted url ++
        " must start with https:// (or http:// for a loopback address)")

namespace Rfc3986

def scheme (url : Text) : Text := url.takeWhile (· != ':')

/-- A character that does not end the authority. -/
def inAuthority (c : Char) : Bool := c != '/' && c != '?' && c != '#'

/-- What stands between the scheme's `://` and the path, the query or the fragment. -/
def authority (url : Text) : Text :=
  match url.dropWhile (· != ':') with
  | ':' :: '/' :: '/' :: rest => rest.takeWhile inAuthority
  | _ => []

/-- The host of an authority, without userinfo and port; an address literal without its brackets. -/
def host (authority : Text) : Text :=
  match authority.rtakeWhile (· != '@') with
  | '[' :: rest => rest.takeWhile (· != ']')
  | hostPort => hostPort.takeWhile (· != ':')

end Rfc3986

def loopbackHosts : List Text := ["localhost", "127.0.0.1", "::1"]

/-- The endpoint is one to which a request may leave: TLS, or this machine. -/
def SafeEndpoint (url : Text) : Prop :=
  Rfc3986.scheme url = ("https" : Text) ∨
    Rfc3986.scheme url = ("http" : Text) ∧ Rfc3986.host (Rfc3986.authority url) ∈ loopbackHosts

instance (url : Text) : Decidable (SafeEndpoint url) :=
  inferInstanceAs (Decidable (_ ∨ _ ∧ _))

/-- A plain HTTP endpoint of another host, whose query or fragment ends before any path in an at sign
and a loopback host. -/
def Deceptive (url : Text) : Prop :=
  ∃ auth sep junk after, url = ("http://" : Text) ++ (auth ++ sep :: (junk ++ after)) ∧
    (∀ c ∈ auth, Rfc3986.inAuthority c = true) ∧ (sep = '?' ∨ sep = '#') ∧
    (∀ c ∈ junk, c ≠ '/') ∧ (after = [] ∨ after.head? = some '/') ∧ '@' ∈ junk ∧
    Rfc3986.host junk ∈ loopbackHosts ∧ Rfc3986.host auth ∉ loopbackHosts

private theorem takeWhile_append_of_not_mem {p : Char → Bool} {s t : Text} {sep : Char}
    (hsep : p sep = true) (h : sep ∉ (s ++ sep :: t).takeWhile p) :
    (s ++ sep :: t).takeWhile p = s.takeWhile p := by
  rw [List.takeWhile_append] at h ⊢
  split_ifs at h ⊢ with hall
  · simp [hsep] at h
  · rfl

private theorem takeWhile_append_cons {p : Char → Bool} {s t : Text} {c : Char}
    (hs : ∀ x ∈ s, p x = true) (hc : p c = false) : (s ++ c :: t).takeWhile p = s := by
  rw [List.takeWhile_append_of_pos hs, List.takeWhile_cons_of_neg (by simp [hc]), List.append_nil]

private theorem rtakeWhile_append_of_all {p : Char → Bool} {t : Text} (s : Text)
    (ht : ∀ x ∈ t, p x = true) :
    (s ++ t).rtakeWhile p = s.rtakeWhile p ++ t := by
  unfold List.rtakeWhile
  rw [List.reverse_append, List.takeWhile_append_of_pos (by simpa using ht), List.reverse_append,
    List.reverse_reverse]

private theorem rtakeWhile_append_of_mem {p : Char → Bool} {t : Text} (s : Text) {c : Char}
    (hc : c ∈ t) (hp : p c = false) : (s ++ t).rtakeWhile p = t.rtakeWhile p := by
  unfold List.rtakeWhile
  rw [List.reverse_append, List.takeWhile_append, if_neg]
  intro hlen
  have hall := List.takeWhile_eq_self_iff.mp
    (List.IsPrefix.eq_of_length (List.takeWhile_prefix p) hlen)
  have hpos := hall c (by simpa using hc)
  rw [hp] at hpos
  cases hpos

private theorem isLoopback_iff (host : Text) : isLoopback host = true ↔ host ∈ loopbackHosts := by
  simp [isLoopback, loopbackHosts, or_assoc]

private theorem loopback_plain {host : Text} (h : host ∈ loopbackHosts) :
    '?' ∉ host ∧ '#' ∉ host := by
  simp only [loopbackHosts, List.mem_cons, List.not_mem_nil, or_false] at h
  rcases h with rfl | rfl | rfl <;> decide

private theorem hostOf_eq (after : Text) :
    hostOf after = Rfc3986.host (after.takeWhile (· != '/')) := by
  unfold hostOf Rfc3986.host
  dsimp only
  split <;> rfl

private theorem authority_http (after : Text) :
    Rfc3986.authority (("http://" : Text) ++ after) = after.takeWhile Rfc3986.inAuthority := rfl

private theorem scheme_http (after : Text) :
    Rfc3986.scheme (("http://" : Text) ++ after) = ("http" : Text) := rfl

private theorem scheme_https (after : Text) :
    Rfc3986.scheme (("https://" : Text) ++ after) = ("https" : Text) := rfl

/-- Without an at sign behind the delimiter the two hosts are the same, if the first is plain. -/
private theorem host_append {auth junk : Text} {sep : Char} (hsep : sep = '?' ∨ sep = '#')
    (hjunk : '@' ∉ junk) (hplain : sep ∉ Rfc3986.host (auth ++ sep :: junk)) :
    Rfc3986.host (auth ++ sep :: junk) = Rfc3986.host auth := by
  have hall : ∀ x ∈ sep :: junk, (x != '@') = true := by
    intro x hx
    rcases List.mem_cons.mp hx with rfl | hx
    · rcases hsep with rfl | rfl <;> decide
    · exact bne_iff_ne.mpr fun heq => hjunk (heq ▸ hx)
  have hcolon : (sep != ':') = true := by rcases hsep with rfl | rfl <;> decide
  have hbracket : (sep != ']') = true := by rcases hsep with rfl | rfl <;> decide
  have hopen : sep ≠ '[' := by rcases hsep with rfl | rfl <;> decide
  unfold Rfc3986.host at hplain ⊢
  rw [rtakeWhile_append_of_all auth hall] at hplain ⊢
  cases hauth : auth.rtakeWhile (· != '@') with
  | nil =>
    rw [hauth] at hplain
    simp [hopen, hcolon] at hplain
  | cons c rest =>
    rw [hauth] at hplain
    by_cases hc : c = '['
    · subst hc
      exact takeWhile_append_of_not_mem hbracket hplain
    · have hmatch : ∀ t : Text, (match (c :: t : Text) with
          | '[' :: rest => rest.takeWhile (· != ']')
          | hostPort => hostPort.takeWhile (· != ':')) = (c :: t).takeWhile (· != ':') := by
        intro t
        split
        · rename_i heq
          exact absurd (List.cons.inj heq).1 hc
        · rfl
      rw [List.cons_append, hmatch] at hplain ⊢
      rw [hmatch]
      exact takeWhile_append_of_not_mem (s := c :: rest) hcolon hplain

private theorem validateEndpoint_ok_iff (url : Text) :
    validateEndpoint url = .ok () ↔ (∃ after, url = ("https://" : Text) ++ after) ∨
      ∃ after, url = ("http://" : Text) ++ after ∧ hostOf after ∈ loopbackHosts := by
  unfold validateEndpoint
  split_ifs with hs
  · have htls : ∃ after, url = ("https://" : Text) ++ after := by
      obtain ⟨after, rfl⟩ := List.isPrefixOf_iff_prefix.mp hs
      exact ⟨after, rfl⟩
    simp only [htls, true_or]
  · have hno : ¬ ∃ after, url = ("https://" : Text) ++ after := by
      rintro ⟨after, rfl⟩
      exact hs (List.isPrefixOf_iff_prefix.mpr ⟨after, rfl⟩)
    simp only [hno, false_or]
    cases hp : stripPrefix "http://" url with
    | none =>
      have hnone : ¬ ∃ after, url = ("http://" : Text) ++ after ∧ hostOf after ∈ loopbackHosts := by
        rintro ⟨after, rfl, -⟩
        simp [stripPrefix] at hp
      simp only [hnone, reduceCtorEq]
    | some after =>
      obtain rfl := stripPrefix_eq_some hp
      simp only [List.append_cancel_left_eq, exists_eq_left', ← isLoopback_iff]
      split_ifs with hloop
      · simp [hloop]
      · simp [hloop]

/-- What the check takes for the authority is the authority, alone or with the query or fragment that
follows it. -/
private theorem slash_split (after : Text) :
    after.takeWhile (· != '/') = after.takeWhile Rfc3986.inAuthority ∨
      ∃ sep junk, after.takeWhile (· != '/') =
        after.takeWhile Rfc3986.inAuthority ++ sep :: junk ∧ (sep = '?' ∨ sep = '#') := by
  have hinner : (after.takeWhile (· != '/')).takeWhile Rfc3986.inAuthority =
      after.takeWhile Rfc3986.inAuthority := by
    rw [List.takeWhile_takeWhile]
    congr 1
    funext c
    simp only [Rfc3986.inAuthority]
    grind
  have hsplit := List.takeWhile_append_dropWhile (p := Rfc3986.inAuthority)
    (l := after.takeWhile (· != '/'))
  rw [hinner] at hsplit
  cases hdrop : (after.takeWhile (· != '/')).dropWhile Rfc3986.inAuthority with
  | nil =>
    rw [hdrop, List.append_nil] at hsplit
    exact .inl hsplit.symm
  | cons sep junk =>
    rw [hdrop] at hsplit
    have hout : Rfc3986.inAuthority sep = false := by
      have h := List.head?_dropWhile_not Rfc3986.inAuthority (after.takeWhile (· != '/'))
      rw [hdrop] at h
      simpa using h
    have hmem : sep ∈ after.takeWhile (· != '/') := by
      rw [← hsplit]
      simp
    have hslash : (sep != '/') = true := List.mem_takeWhile_imp (p := (· != '/')) hmem
    refine .inr ⟨sep, junk, hsplit.symm, ?_⟩
    simp only [Rfc3986.inAuthority, Bool.and_eq_false_iff, bne_eq_false_iff_eq] at hout
    grind

private theorem deceptive_of_unsafe {after : Text} (hhost : hostOf after ∈ loopbackHosts)
    (hremote : Rfc3986.host (after.takeWhile Rfc3986.inAuthority) ∉ loopbackHosts) :
    Deceptive (("http://" : Text) ++ after) := by
  rw [hostOf_eq] at hhost
  rcases slash_split after with hsame | ⟨sep, junk, hsplit, hsep⟩
  · rw [hsame] at hhost
    exact absurd hhost hremote
  · have hjunk : ∀ c ∈ junk, c ≠ '/' := by
      intro c hc
      have hmem : c ∈ after.takeWhile (· != '/') := by
        rw [hsplit]
        simp [hc]
      exact bne_iff_ne.mp (List.mem_takeWhile_imp (p := (· != '/')) hmem)
    have hafter : after.takeWhile Rfc3986.inAuthority ++
        sep :: (junk ++ after.dropWhile (· != '/')) = after := by
      rw [← List.cons_append, ← List.append_assoc, ← hsplit, List.takeWhile_append_dropWhile]
    have hend : after.dropWhile (· != '/') = [] ∨
        (after.dropWhile (· != '/')).head? = some '/' := by
      cases hrest : after.dropWhile (· != '/') with
      | nil => exact .inl rfl
      | cons c rest =>
        have h := List.head?_dropWhile_not (· != '/') after
        rw [hrest] at h
        exact .inr (by simpa using h)
    rw [hsplit] at hhost
    by_cases hat : '@' ∈ junk
    · have hshadow : Rfc3986.host (after.takeWhile Rfc3986.inAuthority ++ sep :: junk) =
          Rfc3986.host junk := by
        unfold Rfc3986.host
        rw [List.append_cons, rtakeWhile_append_of_mem _ hat (by decide)]
      rw [hshadow] at hhost
      exact ⟨_, sep, junk, _, by rw [hafter], fun c hc => List.mem_takeWhile_imp hc, hsep, hjunk,
        hend, hat, hhost, hremote⟩
    · have hplain : sep ∉ Rfc3986.host (after.takeWhile Rfc3986.inAuthority ++ sep :: junk) := by
        rcases hsep with rfl | rfl
        · exact (loopback_plain hhost).1
        · exact (loopback_plain hhost).2
      rw [host_append hsep hat hplain] at hhost
      exact absurd hhost hremote

private theorem accepted_of_deceptive {url : Text} (h : Deceptive url) :
    validateEndpoint url = .ok () ∧ ¬ SafeEndpoint url := by
  obtain ⟨auth, sep, junk, after, rfl, hauth, hsep, hjunk, hafter, hat, hshadow, hremote⟩ := h
  have hdelimiter : Rfc3986.inAuthority sep = false := by rcases hsep with rfl | rfl <;> decide
  have hslash : ∀ c ∈ auth ++ sep :: junk, (c != '/') = true := by
    intro c hc
    rcases List.mem_append.mp hc with hc | hc
    · have h := hauth c hc
      simp only [Rfc3986.inAuthority, Bool.and_eq_true] at h
      exact h.1.1
    · rcases List.mem_cons.mp hc with rfl | hc
      · rcases hsep with rfl | rfl <;> decide
      · exact bne_iff_ne.mpr (hjunk c hc)
  have htaken : (auth ++ sep :: (junk ++ after)).takeWhile (· != '/') = auth ++ sep :: junk := by
    rw [← List.cons_append, ← List.append_assoc, List.takeWhile_append_of_pos hslash]
    rcases hafter with rfl | hafter
    · simp
    · obtain ⟨rest, rfl⟩ := List.head?_eq_some_iff.mp hafter
      simp
  constructor
  · rw [validateEndpoint_ok_iff]
    refine .inr ⟨_, rfl, ?_⟩
    rw [hostOf_eq, htaken]
    unfold Rfc3986.host at hshadow ⊢
    rwa [List.append_cons, rtakeWhile_append_of_mem _ hat (by decide)]
  · rintro (hscheme | ⟨-, hhost⟩)
    · exact absurd ((scheme_http _).symm.trans hscheme) (by decide)
    · rw [authority_http, takeWhile_append_cons hauth hdelimiter] at hhost
      exact hremote hhost

theorem accepted_unsafe_iff (url : Text) :
    (validateEndpoint url = .ok () ∧ ¬ SafeEndpoint url) ↔ Deceptive url := by
  constructor
  · rintro ⟨hok, hbad⟩
    rcases (validateEndpoint_ok_iff url).mp hok with ⟨after, rfl⟩ | ⟨after, rfl, hhost⟩
    · exact absurd (.inl (scheme_https after)) hbad
    · apply deceptive_of_unsafe hhost
      intro h
      exact hbad (.inr ⟨scheme_http after, by rwa [authority_http]⟩)
  · exact accepted_of_deceptive

end Jitgen
