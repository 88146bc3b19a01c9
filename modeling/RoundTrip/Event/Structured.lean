import RoundTrip.Event.Malformed
import RoundTrip.Json.Reader

namespace RoundTrip.Event

abbrev Members := List (String × Json)

def stringMember (members : Members) (name : String) : Except Malformed (Option String) :=
  match Entries.get? name members with
  | none | some .null => .ok none
  | some (.str s) => .ok (some s)
  | some v => .error (.attributeNotString name v)

def requiredMember (members : Members) (name : String) : Except Malformed String :=
  match stringMember members name with
  | .error m => .error m
  | .ok none => .error (.missingMember name)
  | .ok (some s) => .ok s

def timeMember (members : Members) : Except Malformed (Option Timestamp) :=
  match stringMember members "time" with
  | .error m => .error m
  | .ok none => .ok none
  | .ok (some text) => (parseTime text).map some

def dataOf : Option Json → Option Bytes
  | none | some .null => none
  | some (.str s) => some (Text.Utf8.encode s)
  | some v => some v.bytes

def coreMembers : List String :=
  ["specversion", "id", "type", "source", "time", "subject", "datacontenttype", "data"]

def scalarText? : Json → Option String
  | .null => some ""
  | .str s => some s
  | .bool b => some (String.ofList (Json.boolText b))
  | .num n => some (String.ofList n.text)
  | .arr _ | .obj _ => none

/-- Takes the extensions in the order of their members, so that of several names that fold alike
the last stays. A `null` sets nothing. -/
def readExtensions :
    List (String × String) → Members → Except Malformed (List (String × String))
  | acc, [] => .ok acc
  | acc, (name, v) :: rest =>
    match v with
    | .null => readExtensions acc rest
    | v =>
      match scalarText? v with
      | none => .error (.extensionNotScalar name)
      | some text => readExtensions (Entries.put (Text.lower name) text acc) rest

def ofMembers (members : Members) : Except Malformed Event := do
  checkVersion (← stringMember members "specversion")
  let id ← requiredMember members "id"
  let kind ← requiredMember members "type"
  let source ← requiredMember members "source"
  let time ← timeMember members
  let subject ← stringMember members "subject"
  let contentType ← stringMember members "datacontenttype"
  if (Entries.get? "data_base64" members).isSome then .error .base64Data
  else
    let extensions ← readExtensions [] (members.filter fun m => !coreMembers.contains m.1)
    return { id, kind, source, time, subject, contentType
             data := dataOf (Entries.get? "data" members)
             extensions }

def ofStructured (bytes : Bytes) : Except Malformed Event :=
  match Json.parse bytes with
  | .error fault => .error (.invalidJson fault)
  | .ok (.obj members) => ofMembers members
  | .ok _ => .error .notObject

def isJsonType (contentType : Option String) : Bool :=
  match contentType with
  | none => false
  | some t => Text.occursIn "json".toList t.toList

/-- The payload as a value: JSON of a JSON type as it is, any other UTF-8 text as a string. -/
def dataValue (contentType : Option String) (data : Bytes) : Except TransportError Json :=
  let text : Except TransportError Json :=
    match Text.Utf8.decode? data with
    | some s => .ok (.str s)
    | none =>
      .error (.serializationFailed "binary data cannot be carried in structured mode")
  if isJsonType contentType then
    match Json.parse data with
    | .ok v => .ok v
    | .error _ => text
  else text

/-- The members of the envelope without the payload; an extension replaces an attribute of its
name. -/
def members (e : Event) : Members :=
  Entries.ofList
    ([("specversion", .str specVersion), ("id", .str e.id), ("type", .str e.kind),
        ("source", .str e.source)] ++
      (e.time.map fun t => ("time", Json.str t.text)).toList ++
      (e.subject.map fun s => ("subject", Json.str s)).toList ++
      (e.contentType.map fun c => ("datacontenttype", Json.str c)).toList ++
      e.extensions.map fun x => (x.1, Json.str x.2))

def toStructured (e : Event) : Except TransportError Bytes :=
  match e.data with
  | none => .ok (Json.obj e.members).bytes
  | some data =>
    match dataValue e.contentType data with
    | .error error => .error error
    | .ok v => .ok (Json.obj (Entries.put "data" v e.members)).bytes

end RoundTrip.Event
