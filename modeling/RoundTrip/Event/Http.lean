import RoundTrip.Event.Binary
import RoundTrip.Event.Structured

namespace RoundTrip.Event

def structuredType : String := "application/cloudevents+json"

def isStructuredType (contentType : String) : Bool :=
  structuredType.toList.isPrefixOf (Text.trim contentType).toList

def isStructured (headers : Headers) : Bool := (contentTypeText? headers).any isStructuredType

def ofHttp (headers : Headers) (body : Bytes) : Except TransportError Event :=
  if maxBytes < body.length then .error (.payloadTooLarge body.length maxBytes)
  else
    match if isStructured headers then ofStructured body else ofBinary headers body with
    | .ok e => .ok e
    | .error m => .error m.toTransport

end RoundTrip.Event
