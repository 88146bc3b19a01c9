import RoundTrip.Proofs.Probe.Classification

namespace RoundTrip

open Text

/-- `d` is what the platform delivers for the probe of `request`, in a project. All that does not
tell the probe is left open. -/
def Delivers (project : String) (request d : Event) : Probe → Prop
  | .broker _ _ => d = request
  | .pubsub topic => d.kind = Kind.pubsub.deliveredType ∧
      d.source = "//pubsub.googleapis.com/projects/" ++ project ++ "/topics/" ++ topic
  | .storage bucket _ phase => d.kind = (Kind.storage phase).deliveredType ∧
      d.source = "//storage.googleapis.com/projects/_/buckets/" ++ bucket
  | .scheduler _ => d.kind = Kind.scheduler.deliveredType
  | .ping _ => d.kind = Kind.ping.deliveredType
  | .pods _ _ phase => d.kind = (Kind.pods phase).deliveredType
  | .audit topic => d.kind = Kind.audit.deliveredType ∧
      d.extension? "methodname" = some "google.pubsub.v1.Publisher.CreateTopic" ∧
      d.subject = some ("pubsub.googleapis.com/projects/" ++ project ++ "/topics/" ++ topic)

def Probe.requested? : Probe → Option String
  | .pubsub topic => some topic
  | .storage bucket _ _ => some bucket
  | .broker _ _ | .scheduler _ | .ping _ | .pods _ _ _ | .audit _ => none

theorem Nonce.plain_text (nonce : Nonce) : '/' ∉ nonce.text.toList := by
  have digit : ∀ d < 16, Char.ofNat (if d < 10 then 0x30 + d else 0x57 + d) ≠ '/' := by decide
  rw [text, String.toList_ofList, List.mem_map]
  rintro ⟨i, -, same⟩
  exact digit _ (Nat.mod_lt _ (by decide)) same

theorem Probe.plain_auditTopic (nonce : Nonce) :
    '/' ∉ (auditTopicStart ++ nonce.text).toList := by
  rw [String.toList_append, List.mem_append, not_or]
  exact ⟨by decide, nonce.plain_text⟩

namespace Delivered

section

variable {project topic bucket : String}

theorem segments_topicSource (plainProject : '/' ∉ project.toList) (plain : '/' ∉ topic.toList) :
    Segments ("//pubsub.googleapis.com/projects/" ++ project ++ "/topics/" ++ topic)
      ["", "", "pubsub.googleapis.com", "projects", project, "topics", topic] := by
  refine ⟨?_, ?_, by simp⟩
  · rw [← String.toList_inj, String.toList_intercalate]
    simp [List.intercalate_cons_cons]
  · simp [plainProject, plain]

theorem segmentAfter_topicSource (plainProject : '/' ∉ project.toList)
    (plain : '/' ∉ topic.toList) :
    SegmentAfter ("//pubsub.googleapis.com/projects/" ++ project ++ "/topics/" ++ topic) "topics"
      (if project = "topics" then "topics" else topic) := by
  have segments := segments_topicSource plainProject plain
  split
  next same =>
    rw [same] at segments ⊢
    exact ⟨["", "", "pubsub.googleapis.com", "projects"], [topic], segments, by decide⟩
  next apart =>
    refine ⟨["", "", "pubsub.googleapis.com", "projects", project], [], segments, ?_⟩
    simp [Ne.symm apart]

theorem segmentAfter_bucketSource (plain : '/' ∉ bucket.toList) :
    SegmentAfter ("//storage.googleapis.com/projects/_/buckets/" ++ bucket) "buckets" bucket := by
  refine ⟨["", "", "storage.googleapis.com", "projects", "_"], [], ⟨?_, ?_, by simp⟩, by decide⟩
  · rw [← String.toList_inj, String.toList_intercalate]
    simp [List.intercalate_cons_cons]
  · simp [plain]

theorem lastSegment_subject (plainProject : '/' ∉ project.toList) (plain : '/' ∉ topic.toList) :
    LastSegment ("pubsub.googleapis.com/projects/" ++ project ++ "/topics/" ++ topic) topic := by
  refine ⟨["pubsub.googleapis.com", "projects", project, "topics"], ?_, ?_, by simp⟩
  · rw [← String.toList_inj, String.toList_intercalate]
    simp [List.intercalate_cons_cons]
  · simp [plainProject, plain]

end

def keyIn (project : String) : Probe → Key
  | .pubsub topic => .pubsub (if project = "topics" then "topics" else topic)
  | p => p.key

theorem key?_of_delivers {project : String} {request d : Event} {pods : PodTarget} {nonce : Nonce}
    {p : Probe} (kind : request.kind = p.kind.name) (valid : p.Valid request pods nonce)
    (plainProject : '/' ∉ project.toList)
    (plain : ∀ resource, p.requested? = some resource → '/' ∉ resource.toList)
    (delivers : Delivers project request d p) : key? d = some (keyIn project p) := by
  have filled := valid.filled
  rw [key?_eq_some_iff]
  cases valid with
  | broker ns =>
    obtain rfl : d = request := delivers
    exact ⟨kind, ⟨ns, rfl⟩, trivial⟩
  | pubsub =>
    obtain ⟨type, source⟩ := delivers
    refine ⟨type, ?_, ?_⟩
    · rw [keyIn, Key.NamedBy, NamesTopic, source]
      exact segmentAfter_topicSource plainProject (plain _ rfl)
    · rw [keyIn, Key.Filled]
      split
      · decide
      · exact filled
  | storage phase =>
    obtain ⟨type, source⟩ := delivers
    refine ⟨type, ?_, filled⟩
    rw [keyIn, Probe.key, Key.NamedBy, NamesBucket, source]
    · exact segmentAfter_bucketSource (plain _ rfl)
    · rintro topic ⟨⟩
  | audit =>
    obtain ⟨type, created, subject⟩ := delivers
    have last := lastSegment_subject plainProject (Probe.plain_auditTopic nonce)
    exact ⟨type, ⟨created, _, subject, last⟩, filled⟩
  | scheduler | ping | pods => exact ⟨delivers, trivial, trivial⟩

/-- The event that the platform delivers for an admitted probe has its key, unless it is a message
of a project called `topics` on a topic that is not. -/
theorem delivery_key_iff {policy : DeadlinePolicy} {pods : PodTarget} {nonce : Nonce}
    {request d : Event} {a : Admission} {project : String}
    (admitted : Admission.ofEvent policy pods nonce request = .ok a)
    (plainProject : '/' ∉ project.toList)
    (plain : ∀ resource, a.probe.requested? = some resource → '/' ∉ resource.toList)
    (delivers : Delivers project request d a.probe) :
    key? d = some a.key ↔
      ∀ topic, a.probe = .pubsub topic → project = "topics" → topic = "topics" := by
  obtain ⟨kind, valid⟩ := Admission.of_ok admitted
  rw [key?_of_delivers kind valid plainProject plain delivers, Option.some.injEq, Admission.key]
  cases a.probe with
  | pubsub topic =>
    rw [keyIn, Probe.key, Key.pubsub.injEq]
    constructor
    · rintro read _ ⟨⟩ same
      rw [if_pos same] at read
      exact read.symm
    · intro agrees
      split
      next same => exact (agrees topic rfl same).symm
      next => rfl
  | _ => simp [keyIn]

def publishRequest (topic : String) : Event :=
  (Event.bare "1" Kind.pubsub.name "caller").setExtension "topic" topic

def published (project topic : String) : Event :=
  Event.bare "2" Kind.pubsub.deliveredType
    ("//pubsub.googleapis.com/projects/" ++ project ++ "/topics/" ++ topic)

theorem delivery_key_topics :
    Admission.ofEvent {} {} 0 (publishRequest "topics") =
        .ok ⟨.pubsub "topics", 2 * Duration.minute⟩ ∧
      Delivers "topics" (publishRequest "topics") (published "topics" "topics")
        (.pubsub "topics") ∧
      key? (published "topics" "topics") = some (.pubsub "topics") := by
  have admitted : Admission.ofEvent {} {} 0 (publishRequest "topics") =
      .ok ⟨.pubsub "topics", 2 * Duration.minute⟩ := rfl
  have delivers : Delivers "topics" (publishRequest "topics") (published "topics" "topics")
      (.pubsub "topics") := ⟨rfl, rfl⟩
  refine ⟨admitted, delivers, (delivery_key_iff admitted (by decide) ?_ delivers).2 ?_⟩
  · rintro resource ⟨⟩
    decide
  · rintro topic ⟨⟩ -
    rfl

/-- A message of the project `topics` is taken for one on a topic of that name. -/
theorem not_every_delivery_has_key :
    ¬ ∀ (policy : DeadlinePolicy) (pods : PodTarget) (nonce : Nonce) (request d : Event)
      (a : Admission) (project : String),
      Admission.ofEvent policy pods nonce request = .ok a → '/' ∉ project.toList →
        (∀ resource, a.probe.requested? = some resource → '/' ∉ resource.toList) →
          Delivers project request d a.probe → key? d = some a.key := by
  intro every
  have read := every {} {} 0 (publishRequest "orders") (published "topics" "orders")
    ⟨.pubsub "orders", 2 * Duration.minute⟩ "topics" rfl (by decide)
    (by rintro resource ⟨⟩; decide) ⟨rfl, rfl⟩
  exact absurd read (by decide +kernel)

end Delivered

end RoundTrip
