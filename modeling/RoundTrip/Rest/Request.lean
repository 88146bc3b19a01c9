import RoundTrip.Event.Binary
import RoundTrip.Probe.Effect
import RoundTrip.Rest.Endpoint

namespace RoundTrip.Rest

inductive Method
  | post
  | put
  | patch
  | delete
  deriving DecidableEq, Repr

def Method.text : Method → String
  | .post => "POST"
  | .put => "PUT"
  | .patch => "PATCH"
  | .delete => "DELETE"

structure Request where
  method : Method
  url : Url
  headers : Headers
  body : Bytes
  deriving DecidableEq, Repr

structure Message where
  method : Method
  segments : List String
  query : List (String × String)
  headers : Headers
  body : Bytes

namespace Message

def bare (method : Method) (segments : List String) : Message := ⟨method, segments, [], .empty, []⟩

def withContent (m : Message) (contentType : String) (body : Bytes) : Message :=
  { m with
    headers := m.headers.put Event.contentTypeHeader (Text.Utf8.encode contentType), body }

def withJson (m : Message) (value : Json) : Message := m.withContent "application/json" value.bytes

end Message

def textMembers (pairs : List (String × String)) : Json :=
  .object (pairs.map fun p => (p.1, .str p.2))

def archiveClass : String := "ARCHIVE"

def objectPath (bucket object : String) : List String := ["b", bucket, "o", object]

def podsPath (ns : String) : List String := ["api", "v1", "namespaces", ns, "pods"]

def topicPath (project topic : String) : List String := ["v1", "projects", project, "topics", topic]

def manifest (pod : Pod) : Json :=
  .object
    [("apiVersion", .str "v1"), ("kind", .str "Pod"),
      ("metadata", textMembers [("name", pod.name), ("namespace", pod.ns)]),
      ("spec", .object
        [("containers", .arr [textMembers [("image", pod.image), ("name", "busybox")]]),
          ("restartPolicy", .str "Never")])]

def Message.ofEffect (project : String) : Effect → Except TransportError Message
  | .send ns broker event =>
    event.toBinary.map fun (headers, body) =>
      { bare .post [ns, broker] with headers, body }
  | .publish topic attributes =>
    .ok ((bare .post (topicPath project (topic ++ ":publish"))).withJson
      (.object [("messages", .arr [.object [("attributes", textMembers attributes)]])]))
  | .createTopic topic => .ok ((bare .put (topicPath project topic)).withJson (.object []))
  | .createObject bucket object contents =>
    .ok ({ bare .post ["upload", "storage", "v1", "b", bucket, "o"] with
        query := [("uploadType", "media"), ("name", object)] }.withContent "text/plain" contents)
  | .updateMetadata bucket object metadata =>
    .ok ((bare .patch (["storage", "v1"] ++ objectPath bucket object)).withJson
      (.object [("metadata", textMembers metadata)]))
  | .archiveObject bucket object =>
    .ok ((bare .post
        (["storage", "v1"] ++ objectPath bucket object ++ ["rewriteTo"] ++
          objectPath bucket object)).withJson
      (textMembers [("storageClass", archiveClass)]))
  | .deleteObject bucket object =>
    .ok (bare .delete (["storage", "v1"] ++ objectPath bucket object))
  | .createPod pod => .ok ((bare .post (podsPath pod.ns)).withJson (manifest pod))
  | .updatePod pod =>
    .ok ((bare .patch (podsPath pod.ns ++ [pod.name])).withContent
      "application/strategic-merge-patch+json" (manifest pod).bytes)
  | .deletePod ns name => .ok (bare .delete (podsPath ns ++ [name]))

def Endpoint.url (e : Endpoint) (m : Message) : Url :=
  let url := e.base.extend m.segments
  if m.query.isEmpty then url else url.appendPairs m.query

def Endpoint.authorize? (e : Endpoint) (headers : Headers) : Option Headers :=
  match e.token with
  | none => some headers
  | some token => (Header.value? ("Bearer " ++ token)).map (headers.put "authorization")

end RoundTrip.Rest
