import Jitgen.Framework.Regex

/-!
# Secret redaction

The patterns are transcribed in the order they run. Each pass rewrites its leftmost-first matches
and records whether it rewrote anything.
-/

namespace Jitgen

open Text Regex

namespace Pattern

def lit (s : String) : Regex := s.toList.foldr (fun c r => .seq (.char (· == c)) r) .empty

/-- ASCII letters also match the two non-ASCII characters that fold to `k` and `s`. -/
def foldsTo (c d : Char) : Bool :=
  charToAsciiLower d == charToAsciiLower c || (charToAsciiLower c == 'k' && d.toNat == 0x212A) ||
    (charToAsciiLower c == 's' && d.toNat == 0x17F)

def litI (s : String) : Regex := s.toList.foldr (fun c r => .seq (.char (foldsTo c)) r) .empty

def oneOf (s : String) (c : Char) : Bool := s.toList.contains c

def atLeast (n : Nat) (p : Char → Bool) : Regex := .rep true n none (.char p)

def exactly (n : Nat) (p : Char → Bool) : Regex := .rep true n (some n) (.char p)

def optional (p : Char → Bool) : Regex := .rep true 0 (some 1) (.char p)

def seqs (rs : List Regex) : Regex := rs.foldr .seq .empty

def anyOf : List Regex → Regex
  | [] => .char fun _ => false
  | [r] => r
  | r :: rs => .alt r (anyOf rs)

def alnum : Char → Bool := isAsciiAlphanumeric

def alnumOr (s : String) (c : Char) : Bool := isAsciiAlphanumeric c || oneOf s c

/-- A case-insensitive class with the letters and digits also has the two folded characters. -/
def alnumOrI (s : String) (c : Char) : Bool :=
  alnumOr s c || c.toNat == 0x212A || c.toNat == 0x17F

def upperOrDigit (c : Char) : Bool := isAsciiUpper c || isAsciiDigit c

def awsKey : Regex :=
  seqs [.wordBoundary, .alt (lit "AKIA") (lit "ASIA"), exactly 16 upperOrDigit, .wordBoundary]

def githubToken : Regex :=
  seqs [.wordBoundary, lit "gh", .char (oneOf "pousr"), lit "_", atLeast 20 alnum, .wordBoundary]

def githubPat : Regex := seqs [.wordBoundary, lit "github_pat_", atLeast 20 (alnumOr "_")]

def gitlabPat : Regex := seqs [.wordBoundary, lit "glpat-", atLeast 18 (alnumOr "_-")]

def slackToken : Regex :=
  seqs [.wordBoundary, lit "xox", .char (oneOf "baprse"), lit "-", atLeast 10 (alnumOr "-")]

def slackAppToken : Regex := seqs [.wordBoundary, lit "xapp-", atLeast 10 (alnumOr "-")]

def slackWebhook : Regex :=
  seqs [lit "https://hooks.slack.com/services/", atLeast 1 (alnumOr "/_+-")]

def googleKey : Regex :=
  seqs [.wordBoundary, lit "AIza", exactly 35 (alnumOr "_-"), .wordBoundary]

def googleOauth : Regex := seqs [.wordBoundary, lit "ya29.", atLeast 20 (alnumOr "_-")]

def openaiKey : Regex := seqs [.wordBoundary, lit "sk-", atLeast 20 (alnumOr "_-")]

def npmToken : Regex := seqs [.wordBoundary, lit "npm_", exactly 36 alnum, .wordBoundary]

def jwt : Regex :=
  seqs [.wordBoundary, lit "eyJ", atLeast 8 (alnumOr "_-"), lit ".", atLeast 8 (alnumOr "_-"),
    lit ".", atLeast 4 (alnumOr "_-"), .wordBoundary]

def privateKey : Regex :=
  let header := fun c => isAsciiUpper c || c == ' '
  seqs [lit "-----BEGIN", atLeast 0 header, lit "PRIVATE KEY-----",
    .rep false 0 none (.char fun _ => true), lit "-----END", atLeast 0 header,
    lit "PRIVATE KEY-----"]

def bearer : Regex :=
  seqs [.wordBoundary, litI "bearer", atLeast 1 isWhitespace, atLeast 20 (alnumOrI "._-")]

def basicAuth : Regex :=
  seqs [.wordBoundary, litI "basic", atLeast 1 isWhitespace, atLeast 16 (alnumOrI "+/=")]

/-- `a` and `b` with an optional `_` or `-` between them. -/
def joinedI (a b : String) : Regex := seqs [litI a, optional (oneOf "_-"), litI b]

def assignmentQuoted : Regex :=
  seqs [.group 1 (seqs [
      anyOf [joinedI "api" "key", joinedI "secret" "key", joinedI "access" "key",
        joinedI "private" "key", joinedI "encryption" "key", joinedI "signing" "key",
        joinedI "client" "secret", joinedI "auth" "token", litI "secret", litI "token",
        litI "password", litI "passwd", litI "pwd", litI "credentials"],
      optional (oneOf "\"'"), atLeast 0 isWhitespace, .char (oneOf ":="),
      atLeast 0 isWhitespace, .char (oneOf "\"'")]),
    .group 2 (atLeast 6 fun c => !oneOf "\"'\n" c), .group 3 (.char (oneOf "\"'"))]

def assignmentEnv : Regex :=
  seqs [.wordBoundary, .group 1 (seqs [
      anyOf [seqs [.char isAsciiUpper, atLeast 0 upperOrDigit,
          .rep true 1 none (.seq (.char (oneOf "_-")) (atLeast 1 upperOrDigit))],
        lit "PASSWORD", lit "PASSWD", lit "SECRET", lit "TOKEN"],
      atLeast 0 isWhitespace, lit "=", atLeast 0 isWhitespace]),
    .group 2 (atLeast 16 (alnumOr "/+_-"))]

def assignmentConfigLine : Regex :=
  let blank := oneOf " \t"
  seqs [.lineStart, .group 1 (seqs [
      atLeast 0 blank, .rep true 0 (some 1) (.seq (litI "export") (atLeast 1 blank)),
      atLeast 0 (alnumOrI "_.-"),
      anyOf [litI "password", litI "passwd", litI "pwd", litI "secret", litI "token",
        joinedI "api" "key", joinedI "access" "key", joinedI "client" "secret",
        joinedI "auth" "token"],
      atLeast 0 (alnumOrI "_.-"), atLeast 0 blank, .group 2 (.char (oneOf ":=")),
      atLeast 0 blank]),
    .group 3 (.seq (atLeast 8 (alnumOrI "/+_-")) (.rep true 0 (some 2) (.char (· == '=')))),
    atLeast 0 blank, optional (· == '\r'), .lineEnd]

def urlCredential : Regex :=
  seqs [lit "://", .group 1 (atLeast 1 fun c => !isWhitespace c && !oneOf "/@:" c), lit ":",
    .group 2 (atLeast 1 fun c => !isWhitespace c && !oneOf "/@" c), lit "@"]

end Pattern

/-- Whole-match token patterns with the kind their replacement names. -/
def tokenPatterns : List (Text × Regex) :=
  [("aws-key", Pattern.awsKey), ("github-token", Pattern.githubToken),
    ("github-pat", Pattern.githubPat), ("gitlab-pat", Pattern.gitlabPat),
    ("slack-token", Pattern.slackToken), ("slack-app-token", Pattern.slackAppToken),
    ("slack-webhook", Pattern.slackWebhook), ("google-key", Pattern.googleKey),
    ("google-oauth", Pattern.googleOauth), ("openai-key", Pattern.openaiKey),
    ("npm-token", Pattern.npmToken), ("jwt", Pattern.jwt), ("private-key", Pattern.privateKey),
    ("bearer", Pattern.bearer), ("basic-auth", Pattern.basicAuth)]

/-- Heuristic: the unquoted value looks like a secret rather than like an identifier. -/
def looksLikeSecret (v : Text) : Bool :=
  if utf8Len v < 12 then false
  else if v.any isAsciiDigit || v.any (Pattern.oneOf "/+=") then true
  else !v.any isAsciiUpper && !v.any (Pattern.oneOf "_-") && 16 ≤ utf8Len v

def codeReceiverPrefixes : List Text := ["self.", "this.", "super.", "cls."]

structure Redaction where
  text : Text
  redacted : Bool
  deriving DecidableEq

variable [WordChars]

/-- One pass: rewrite every match, and note whether there was one. -/
def redactPass (re : Regex) (by' : Text → Position → Text) (r : Redaction) : Redaction :=
  if (re.findAll r.text).isEmpty then r else ⟨re.replaceAll by' r.text, true⟩

/-- Whether the config pass rewrites this match. -/
def configHit (q : Position) : Bool :=
  !(codeReceiverPrefixes.any fun p => (trimStart (q.group 1)).startsWith p) &&
    looksLikeSecret (q.group 3)

def configReplacement (m : Text) (q : Position) : Text :=
  if configHit q then q.group 1 ++ "[REDACTED]" else m

/-- The line-anchored pass decides match by match and counts only the matches it rewrote. -/
def redactConfig (r : Redaction) : Redaction :=
  if (Pattern.assignmentConfigLine.findAll r.text).any fun x => configHit x.2 then
    ⟨Pattern.assignmentConfigLine.replaceAll configReplacement r.text, true⟩
  else r

/-- Redact known secret formats. -/
def redact (input : Text) : Redaction :=
  let r := tokenPatterns.foldl
    (fun r kp => redactPass kp.2 (fun _ _ => "[REDACTED:" ++ kp.1 ++ "]") r) ⟨input, false⟩
  let r := redactPass Pattern.urlCredential (fun _ q => "://" ++ q.group 1 ++ ":[REDACTED]@") r
  let r := redactPass Pattern.assignmentQuoted
    (fun _ q => q.group 1 ++ "[REDACTED]" ++ q.group 3) r
  let r := redactPass Pattern.assignmentEnv (fun _ q => q.group 1 ++ "[REDACTED]") r
  redactConfig r

/-- A pass either reports a redaction or returns its input. -/
def Faithful (input : Text) (r : Redaction) : Prop := r.redacted = false → r.text = input

private theorem redactPass_faithful {re : Regex} {by' : Text → Position → Text} {r : Redaction}
    {input : Text} (h : Faithful input r) : Faithful input (redactPass re by' r) := by
  unfold redactPass
  split
  · exact h
  · intro hr
    cases hr

private theorem redactConfig_faithful {r : Redaction} {input : Text} (h : Faithful input r) :
    Faithful input (redactConfig r) := by
  unfold redactConfig
  split
  · intro hr
    cases hr
  · exact h

private theorem redact_faithful (input : Text) : Faithful input (redact input) := by
  have htokens : ∀ (ps : List (Text × Regex)) (r : Redaction), Faithful input r →
      Faithful input (ps.foldl
        (fun r kp => redactPass kp.2 (fun _ _ => "[REDACTED:" ++ kp.1 ++ "]") r) r) := by
    intro ps
    induction ps with
    | nil => exact fun _ h => h
    | cons p ps ih => exact fun r h => ih _ (redactPass_faithful h)
  exact redactConfig_faithful <| redactPass_faithful <| redactPass_faithful <|
    redactPass_faithful <| htokens _ _ fun _ => rfl

theorem redact_text_of_not_redacted {input : Text} (h : (redact input).redacted = false) :
    (redact input).text = input :=
  redact_faithful input h

attribute [irreducible] redact

end Jitgen
