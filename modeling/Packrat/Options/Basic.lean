import Packrat.Grammar.Basic
import Packrat.Reporter
import Packrat.Text.Quoted

/-!
# Options

The settings of a match, and everything that a call can fail with.
-/

namespace Packrat

/-- The settings of a match. -/
structure Options where
  /-- Whether a match may leave input behind. -/
  allowRest : Bool := false
  /-- Which cause is reported when the match fails. -/
  reporter : ReporterKind := .deepest
  /-- Whether overwritten keys are noted. -/
  warn : Bool := true
  deriving DecidableEq, Repr, Inhabited

/-- A truth value in JSON. -/
def jsonBool (b : Bool) : String := if b then "true" else "false"

/-- The settings as compact JSON. -/
def Options.json (o : Options) : String :=
  "\x7b\"prefix\":" ++ jsonBool o.allowRest ++ ",\"reporter\":" ++ jsonString o.reporter.name
    ++ ",\"warn_duplicate_keys\":" ++ jsonBool o.warn ++ "\x7d"

/-- What a call can fail with. -/
inductive Failure where
  /-- The input does not match. -/
  | parse (cause : Cause)
  /-- The grammar cannot be used. -/
  | grammar (error : GrammarError)
  /-- The settings cannot be read. -/
  | config (reason : String)

namespace Failure

/-- The failure in words. -/
def message : Failure → String
  | .parse cause => "Parse error: " ++ cause.render
  | .grammar error => "Grammar error: " ++ error.message
  | .config reason => "Config error: " ++ reason

/-- The cause, if the input does not match. -/
def cause? : Failure → Option Cause
  | .parse cause => some cause
  | _ => none

end Failure

end Packrat
