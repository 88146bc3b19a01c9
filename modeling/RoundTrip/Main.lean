import RoundTrip.Server.CommandLine

namespace RoundTrip.Server

def Settings.describe (s : Settings) : Except ValidationError (List String) := do
  let endpoints ← s.endpoints
  s.config.validate
  return [endpoints.summary, "probe listener: " ++ s.probeAddress,
      "receiver listener: " ++ s.receiverAddress] ++
    (s.grpcAddress.map fun a => "gRPC service: " ++ a).toList

def environment : IO (List (String × Option String)) :=
  Setting.all.mapM fun s => do return (s.variableName, ← IO.getEnv s.variableName)

def report : Except ValidationError (List String) → IO UInt32
  | .error e => do
    IO.eprintln ("Error: " ++ e.message)
    return 1
  | .ok lines => do
    lines.forM fun line => IO.println line
    return 0

def refuse (r : CommandLine.Refusal) : IO UInt32 := do
  if r.isAnswer then IO.println r.message else IO.eprintln ("error: " ++ r.message)
  return r.exitCode

end RoundTrip.Server

def main (args : List String) : IO UInt32 := do
  let environment ← RoundTrip.Server.environment
  match RoundTrip.Server.CommandLine.settings args fun name => (environment.lookup name).join with
  | .error r => RoundTrip.Server.refuse r
  | .ok settings => RoundTrip.Server.report settings.describe
