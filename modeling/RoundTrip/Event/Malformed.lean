import RoundTrip.Json.Fault
import RoundTrip.Json.Basic
import RoundTrip.Error
import RoundTrip.Event.Basic

/-!
Why a request carries no event, and checks that both content modes share. The message of broken JSON
leaves out where it broke.
-/

namespace RoundTrip

namespace Event

inductive Malformed
  | headerNotText (name : String)
  | invalidTime (text : String) (fault : Timestamp.Fault)
  | unsupportedVersion (version : String)
  | missingHeader (attr : String)
  | invalidJson (fault : Json.Fault)
  | notObject
  | attributeNotString (name : String) (value : Json)
  | missingMember (name : String)
  | base64Data
  | extensionNotScalar (name : String)

def Malformed.message : Malformed → String
  | .headerNotText name => "header '" ++ name ++ "' is not valid text"
  | .invalidTime text fault => "invalid time '" ++ text ++ "': " ++ fault.message
  | .unsupportedVersion version => "unsupported specversion '" ++ version ++ "'"
  | .missingHeader attr => "missing ce-" ++ attr ++ " header"
  | .invalidJson fault => "invalid envelope JSON: " ++ fault.message
  | .notObject => "envelope must be a JSON object"
  | .attributeNotString name value =>
    "attribute '" ++ name ++ "' must be a string, got " ++ value.text
  | .missingMember name => "missing '" ++ name ++ "'"
  | .base64Data => "data_base64 payloads are not supported"
  | .extensionNotScalar name => "extension '" ++ name ++ "' must be a scalar"

def Malformed.toTransport (m : Malformed) : TransportError := .malformedEvent m.message

def parseTime (text : String) : Except Malformed Timestamp :=
  match Timestamp.parse text with
  | .ok t => .ok t
  | .error fault => .error (.invalidTime text fault)

/-- An envelope without a version is taken to be of the supported one. -/
def checkVersion : Option String → Except Malformed Unit
  | none => .ok ()
  | some v => if v = specVersion then .ok () else .error (.unsupportedVersion v)

def maxBytes : Nat := 1048576

end Event

end RoundTrip
