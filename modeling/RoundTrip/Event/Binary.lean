import RoundTrip.Event.Malformed
import RoundTrip.Header

namespace RoundTrip.Event

def headerMark : String := "ce-"

def contentTypeHeader : String := "content-type"

def attributeOf? (header : String) : Option String :=
  match header.toList with
  | 'c' :: 'e' :: '-' :: attr => some (String.ofList attr)
  | _ => none

structure Draft where
  id : Option String := none
  kind : Option String := none
  source : Option String := none
  version : Option String := none
  time : Option Timestamp := none
  subject : Option String := none
  extensions : List (String × String) := []

def Draft.set (d : Draft) (attr value : String) : Except Malformed Draft :=
  if attr = "id" then .ok { d with id := some value }
  else if attr = "type" then .ok { d with kind := some value }
  else if attr = "source" then .ok { d with source := some value }
  else if attr = "specversion" then .ok { d with version := some value }
  else if attr = "time" then (parseTime value).map fun t => { d with time := some t }
  else if attr = "subject" then .ok { d with subject := some value }
  else .ok { d with extensions := Entries.put (Text.lower attr) value d.extensions }

def Draft.read (d : Draft) (field : String × Bytes) : Except Malformed Draft :=
  match attributeOf? field.1 with
  | none => .ok d
  | some attr =>
    match Header.text? field.2 with
    | none => .error (.headerNotText field.1)
    | some value => d.set attr value

def Draft.readAll : Draft → List (String × Bytes) → Except Malformed Draft
  | d, [] => .ok d
  | d, field :: rest =>
    match d.read field with
    | .error m => .error m
    | .ok d => d.readAll rest

def contentTypeText? (headers : Headers) : Option String :=
  (headers.first? contentTypeHeader).bind Header.text?

/-- Completes the draft. A content type without a payload is not kept. -/
def Draft.finish (d : Draft) (headers : Headers) (body : Bytes) : Except Malformed Event := do
  checkVersion d.version
  let some id := d.id | .error (.missingHeader "id")
  let some kind := d.kind | .error (.missingHeader "type")
  let some source := d.source | .error (.missingHeader "source")
  let hasData := !body.isEmpty
  return { id, kind, source, time := d.time, subject := d.subject
           contentType := if hasData then contentTypeText? headers else none
           data := if hasData then some body else none
           extensions := d.extensions }

def ofBinary (headers : Headers) (body : Bytes) : Except Malformed Event :=
  match Draft.readAll {} headers.fields with
  | .error m => .error m
  | .ok d => d.finish headers body

def invalidName : String := "invalid HTTP header name"

def invalidValue : String := "failed to parse header value"

def putAttribute (headers : Headers) (name value : String) : Except TransportError Headers :=
  match Header.name? (headerMark ++ name) with
  | none =>
    .error (.serializationFailed ("invalid attribute name '" ++ name ++ "': " ++ invalidName))
  | some header =>
    match Header.value? value with
    | none =>
      .error (.serializationFailed
        ("invalid value for attribute '" ++ name ++ "': " ++ invalidValue))
    | some bytes => .ok (headers.put header bytes)

def putAttributes : Headers → List (String × String) → Except TransportError Headers
  | headers, [] => .ok headers
  | headers, (name, value) :: rest =>
    match putAttribute headers name value with
    | .error e => .error e
    | .ok headers => putAttributes headers rest

def coreAttributes (e : Event) : List (String × String) :=
  [("specversion", specVersion), ("id", e.id), ("type", e.kind), ("source", e.source)] ++
    (e.time.map fun t => ("time", t.text)).toList ++
    (e.subject.map fun s => ("subject", s)).toList

def attributes (e : Event) : List (String × String) := e.coreAttributes ++ e.extensions

def toBinary (e : Event) : Except TransportError (Headers × Bytes) :=
  match putAttributes .empty e.attributes with
  | .error error => .error error
  | .ok headers =>
    let body := e.data.getD []
    match e.contentType with
    | none => .ok (headers, body)
    | some contentType =>
      match Header.value? contentType with
      | none => .error (.serializationFailed ("invalid datacontenttype: " ++ invalidValue))
      | some bytes => .ok (headers.put contentTypeHeader bytes, body)

end RoundTrip.Event
