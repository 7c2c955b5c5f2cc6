import Jitgen.Framework.SExpr
import Jitgen.Sandbox.Command

/-!
# The rules of a sandbox profile

Whatever the two paths of a profile are, it has the same tokens but for two string literals, which
stand for the paths.
-/

namespace Jitgen

open Text SExpr

/-- A rule of atoms only. -/
def plainRule (names : List Text) : List SExpr.Token := .opening :: names.map .atom ++ [.closing]

/-- What a profile says before the first of its paths: everything is denied but what is listed, and
writing files is not allowed everywhere. -/
def profileHead : List SExpr.Token :=
  plainRule ["version", "1"] ++ plainRule ["deny", "default"] ++
    plainRule ["allow", "process-fork"] ++ plainRule ["allow", "process-exec"] ++
    [.opening, .atom "allow", .atom "signal"] ++ plainRule ["target", "self"] ++ [.closing] ++
    plainRule ["allow", "sysctl-read"] ++ plainRule ["allow", "mach-lookup"] ++
    plainRule ["allow", "file-read*"] ++
    [.opening, .atom "allow", .atom "file-write*", .opening, .atom "subpath"]

/-- The tokens of a profile for two paths. -/
def profileTokens (overlay tmp : Text) : List SExpr.Token :=
  profileHead ++ [.str overlay] ++ [.closing, .opening, .atom "subpath"] ++ [.str tmp] ++
    ([.closing, .closing] ++ plainRule ["deny", "network*"])

/-- The tokens of every profile, with nothing in the literals. -/
def profileSkeleton : List SExpr.Token := profileTokens [] []

private theorem profileTokens_blank (overlay tmp : Text) :
    (profileTokens overlay tmp).map Token.blank = profileSkeleton := by
  simp [profileSkeleton, profileTokens, profileHead, plainRule, Token.blank]

private theorem literals_profileTokens (overlay tmp : Text) :
    literals (profileTokens overlay tmp) = [overlay, tmp] := by
  simp [literals, profileTokens, profileHead, plainRule]

private theorem run_profileHead :
    run .between
      (("(version 1)\n(deny default)\n(allow process-fork)\n(allow process-exec)\n" : Text) ++
      "(allow signal (target self))\n(allow sysctl-read)\n(allow mach-lookup)\n" ++
      "(allow file-read*)\n(allow file-write*\n  (subpath ") = (.between, profileHead) := by
  decide +kernel

private theorem tokens_renderProfile {overlay tmp profile : Text}
    (h : renderProfile overlay tmp = .ok profile) :
    tokens profile = some (profileTokens overlay tmp) := by
  have hmid : run .between (")\n  (subpath " : Text) =
      (.between, [.closing, .opening, .atom "subpath"]) := by decide
  have hend : run .between ("))\n(deny network*)\n" : Text) =
      (.between, [.closing, .closing] ++ plainRule ["deny", "network*"]) := by decide
  unfold renderProfile at h
  split_ifs at h
  injection h with h
  subst h
  exact tokens_quoted_pair run_profileHead hmid hend overlay tmp

/-- The profile of any two absolute paths has the tokens of every other profile, of which exactly
two are string literals: the first stands for the overlay and the second for the temporary
directory. -/
theorem profile_tokens (overlay tmp : Text) (hoverlay : UnixPath.isAbsolute overlay = true)
    (htmp : UnixPath.isAbsolute tmp = true) :
    ∃ profile ts, renderProfile overlay tmp = .ok profile ∧ tokens profile = some ts ∧
      ts.map Token.blank = profileSkeleton ∧ literals ts = [overlay, tmp] := by
  obtain ⟨profile, hprofile⟩ : ∃ profile, renderProfile overlay tmp = .ok profile := by
    unfold renderProfile
    rw [hoverlay, htmp]
    exact ⟨_, rfl⟩
  exact ⟨profile, profileTokens overlay tmp, hprofile, tokens_renderProfile hprofile,
    profileTokens_blank overlay tmp, literals_profileTokens overlay tmp⟩

/-- Paths with quotes, backslashes, parentheses and a line feed. -/
theorem profile_tokens_hostile :
    ∃ profile ts, renderProfile "/o\")) (allow network*) (\\" "/t\\\"\n(;" = .ok profile ∧
      tokens profile = some ts ∧ ts.map Token.blank = profileSkeleton ∧
      literals ts = [("/o\")) (allow network*) (\\" : Text), "/t\\\"\n(;"] :=
  profile_tokens _ _ (by decide) (by decide)

end Jitgen
