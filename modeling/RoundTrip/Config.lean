import RoundTrip.Probe.Admission
import RoundTrip.Duration.Words

namespace RoundTrip

structure Config where
  stale : Duration := 5 * Duration.minute
  policy : DeadlinePolicy := {}
  sweep : Duration := Duration.second
  pods : PodTarget := {}
  deriving DecidableEq, Repr

/-- What is wrong with the configuration, if anything is; the first finding counts. -/
def Config.problem? (c : Config) : Option String :=
  if c.policy.maxTimeout < c.policy.defaultTimeout then
    some ("default timeout " ++ Duration.words c.policy.defaultTimeout ++
      " exceeds max timeout " ++ Duration.words c.policy.maxTimeout)
  else if c.stale = 0 then some "liveness stale duration must be positive"
  else if c.sweep = 0 then some "sweep interval must be positive"
  else if c.pods.ns = "" ∨ c.pods.name = "" then
    some "pod namespace and name must not be empty"
  else none

def Config.validate (c : Config) : Except ValidationError Unit :=
  match c.problem? with
  | none => .ok ()
  | some reason => .error (.invalidConfig reason)

end RoundTrip
