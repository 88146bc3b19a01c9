import RoundTrip.Text.Utf8
import RoundTrip.Text.Entries
import RoundTrip.Timestamp.Rfc3339

namespace RoundTrip

structure Event where
  id : String
  /-- The `type` attribute; it selects the probe or classifies the delivery. -/
  kind : String
  source : String
  time : Option Timestamp
  subject : Option String
  contentType : Option String
  data : Option Bytes
  /-- Values under folded names, in the order of the names. -/
  extensions : List (String × String)
  deriving DecidableEq, Repr

namespace Event

def specVersion : String := "1.0"

def bare (id kind source : String) : Event :=
  ⟨id, kind, source, none, none, none, none, []⟩

def setExtension (e : Event) (name value : String) : Event :=
  { e with extensions := Entries.put (Text.lower name) value e.extensions }

def withSubject (e : Event) (subject : String) : Event := { e with subject := some subject }

def withTime (e : Event) (time : Timestamp) : Event := { e with time := some time }

def withData (e : Event) (contentType : String) (data : Bytes) : Event :=
  { e with contentType := some contentType, data := some data }

def extension? (e : Event) (name : String) : Option String :=
  Entries.get? (Text.lower name) e.extensions

def filledExtension? (e : Event) (name : String) : Option String :=
  (e.extension? name).filter fun v => !Text.allBlank v

end Event

end RoundTrip
