import Jitgen.Framework.Text

/-!
# Hints of the command line

An error is followed by a hint, found by phrases of the message.
-/

namespace Jitgen.Cli

open Text

def troubleshootingUrl : Text :=
  "https://github.com/sondrateconsulting/jitgen/blob/v0.2.2/docs/troubleshooting.md"

def userGuideUrl : Text :=
  "https://github.com/sondrateconsulting/jitgen/blob/v0.2.2/docs/user-guide.md"

/-- What a hint is about. -/
inductive HintTopic where
  | providerConfig
  | providerCall
  | baseline
  | checkoutCap
  | runNotFound
  | runNotCompleted
  | outsideRepo
  | revision
  | repoPath
  | boundary
  | noSandbox
  | digestPinned
  | commitsGone
  | unknown
  deriving DecidableEq

/-- The first topic whose phrase the message has. The ones whose messages carry a value of the user
come before those found by a keyword alone. -/
def hintTopic (msg : Text) : HintTopic :=
  let has := hasSubstr msg
  if has "LLM provider configuration error" then .providerConfig
  else if has "LLM provider error" then .providerCall
  else if has "baseline file" then .baseline
  else if (has "invalid overlay:" || has "invalid snapshot:") && has "checkout cap" then .checkoutCap
  else if has "invalid run-id: no run " && has "in the state index" then .runNotFound
  else if has "is not in a completed state" then .runNotCompleted
  else if has "must be OUTSIDE" || has "must live outside" then .outsideRepo
  else if has "git intake: invalid revision" then .revision
  else if has "failed to resolve path" || has "could not find repository" ||
      has "not a git repository" then .repoPath
  else if has "boundary escape" then .boundary
  else if has "no isolating sandbox available" then .noSandbox
  else if has "digest-pinned" then .digestPinned
  else if has "no longer present" then .commitsGone
  else .unknown

/-- The hint on a topic, after the arrow and before the link. A resumed run takes its configuration
from the store, so it is told to run again. -/
def hintText (resumeLike : Bool) : HintTopic → Text
  | .providerConfig =>
    ("real-provider config: export the API key env var named by your trusted config " : Text) ++
      "(default ANTHROPIC_API_KEY / OPENAI_API_KEY), and set `model` (and `base_url` for " ++
      "openai-compatible/local) in that config. Run `jitgen doctor`. See "
  | .providerCall =>
    ("the LLM provider call failed (network, auth, rate limit, or a bad/blocked response). " : Text) ++
      "Check the message above, verify the key and connectivity, then retry. Real calls need " ++
      "--real-llm. See "
  | .baseline =>
    ("--baseline wants a readable UTF-8 file of catch fingerprints, one per line (`#` " : Text) ++
      "comments and blank lines allowed); copy the fingerprint jitgen prints for a gated " ++
      "catch. Check the path exists, is text, and is within the size cap. See "
  | .checkoutCap =>
    ("a repo file (or the whole tree) is too large to materialize into the sandbox for " : Text) ++
      "test runs. Large generated/vendored/data files are not needed to generate tests — " ++
      "remove, move, or ignore the file named in the error (or split a genuinely huge source " ++
      "file). See "
  | .runNotFound =>
    ("check the run id; `resume`/`report` locate runs via the global run index (no " : Text) ++
      "--repo needed). See "
  | .runNotCompleted =>
    "finish the run first with `jitgen resume --run-id <id>`, then report. See "
  | .outsideRepo =>
    ("point --state-dir/--config at a path OUTSIDE the target repo (or omit it for the " : Text) ++
      "XDG default). See "
  | .revision =>
    ("check --base/--head: each must resolve to a commit (a branch, tag, or revspec like " : Text) ++
      "`HEAD` or `HEAD~1`) reachable in the repo. See "
  | .repoPath =>
    ("check --repo points to an existing git working tree. Run `jitgen doctor` to " : Text) ++
      "sanity-check your environment. See "
  | .boundary =>
    ("jitgen reads only the repo you point --repo at. A normal `git worktree` must be " : Text) ++
      "nested in its main repo; a hand-edited `.git`/alternates/symlinked storage is refused. See "
  | .noSandbox =>
    if resumeLike then
      ("no isolating sandbox. `resume` reloads the original run's trusted config, so re-run " : Text) ++
        "`jitgen run …` with --unsafe-local-execution (trusted hosts) or a container runtime. " ++
        "Run `jitgen doctor`. See "
    else
      ("start a container runtime or run where an OS sandbox exists; or, on a trusted host, " : Text) ++
        "pass --unsafe-local-execution. Run `jitgen doctor` to see what's detected. See "
  | .digestPinned =>
    if resumeLike then
      ("the container tier needs a digest-pinned image, which `resume` can't take; re-run " : Text) ++
        "`jitgen run …` with --docker-image name@sha256:… (or set JITGEN_DOCKER_IMAGE). See "
    else "pass --docker-image name@sha256:… (or set JITGEN_DOCKER_IMAGE). See "
  | .commitsGone =>
    ("the pinned base/head commits were rewritten or GC'd; start a fresh `jitgen run` " : Text) ++
      "against current revisions. See "
  | .unknown => "see "

/-- What follows the link. -/
def hintEnd : HintTopic → Text
  | .boundary => " (\"repository boundary escape\")."
  | .unknown => " for common causes and fixes."
  | _ => "."

/-- The command a message is from, by what it begins with. -/
def commandOf (msg : Text) : Text :=
  match stripPrefix "jitgen " msg with
  | some rest => trim (rest.takeWhile (· != ':'))
  | none => []

/-- The hint that follows an error message. -/
def userHint (msg : Text) : Text :=
  let topic := hintTopic msg
  ("→ " : Text) ++ hintText (commandOf msg == "resume") topic ++ troubleshootingUrl ++ hintEnd topic

/-- Why a run of the built-in provider has accepted nothing. -/
def mockEmptyRunHint (providerWasMock isHarden producedOutput : Bool) : Option Text :=
  if !providerWasMock || !isHarden || producedOutput then none
  else some <|
    ("note: this run used jitgen's built-in mock LLM (the deterministic, offline default) — it " : Text) ++
      "exercises the full pipeline but doesn't synthesize real tests, so `0 accepted` is expected " ++
      "here, not a failure. To generate real tests, set a provider in a trusted config file and " ++
      "pass --real-llm (see " ++ userGuideUrl ++ " → Real providers)."

/-- That options of the gate do nothing while it is off. -/
def gateModifiersWithoutMasterNote (failOnCatch warnOnly hasBaseline : Bool) : Option Text :=
  if failOnCatch || (!warnOnly && !hasBaseline) then none
  else some <|
    ("note: --warn-only/--baseline/--fail-threshold only take effect with --fail-on-catch; the " : Text) ++
      "findings gate is off, so this run does not gate on catches (see " ++ userGuideUrl ++
      " → Findings gate)."

end Jitgen.Cli
