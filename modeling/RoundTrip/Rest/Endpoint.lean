import RoundTrip.Error
import RoundTrip.Url.Extend

namespace RoundTrip.Rest

structure Endpoint where
  base : Url
  token : Option String
  deriving DecidableEq, Repr

namespace Endpoint

/-- An empty token is none. -/
def ofText (url : String) (token : Option String) : Except ValidationError Endpoint :=
  let text := Text.trim url
  if text = "" then .error (.invalidConfig "endpoint URL must not be empty")
  else
    match Url.parse text with
    | .error fault =>
      .error (.invalidConfig ("endpoint URL '" ++ text ++ "' is invalid: " ++ fault.message))
    | .ok base =>
      if base.path.isRootless then
        .error (.invalidConfig ("endpoint URL '" ++ text ++ "' cannot carry a path"))
      else .ok ⟨base, token.filter (· ≠ "")⟩

end Endpoint

end RoundTrip.Rest
