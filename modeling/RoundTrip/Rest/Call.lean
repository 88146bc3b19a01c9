import RoundTrip.Rest.Request

/-!
Calls to collaborators over a network. The network is a function from requests to what becomes of
them.
-/

namespace RoundTrip.Rest

inductive Exchange
  | unreachable
  | answered (status : Nat) (body : Bytes)
  deriving DecidableEq, Repr

abbrev Network := Request → Exchange

structure Client where
  endpoint : Endpoint
  project : String

namespace Client

def failed (effect : Effect) (message : String) : TriggerError :=
  .requestFailed effect.collaborator.name message

/-- Octets that the address of a request may have. -/
def maxUrlLength : Nat := 65534

def isSendable (url : Url) : Bool :=
  (url.scheme == "http" || url.scheme == "https") && url.text.length ≤ maxUrlLength

def request (c : Client) (effect : Effect) : Except TriggerError Request :=
  match Message.ofEffect c.project effect with
  | .error e => .error (failed effect e.message)
  | .ok m =>
    match c.endpoint.authorize? m.headers with
    | none => .error (failed effect "builder error")
    | some headers =>
      let url := c.endpoint.url m
      if isSendable url then .ok ⟨m.method, url, headers, m.body⟩
      else .error (failed effect ("builder error for url (" ++ url.text ++ ")"))

/-- What an exchange means for the call: any status of the 200s is success. -/
def verdict (effect : Effect) (r : Request) : Exchange → Except TriggerError Unit
  | .unreachable => .error (failed effect ("error sending request for url (" ++ r.url.text ++ ")"))
  | .answered status body =>
    if 200 ≤ status ∧ status < 300 then .ok ()
    else .error (.rejected effect.collaborator.name status (Text.Utf8.decodeLossy body))

def call (c : Client) (network : Network) (effect : Effect) :
    List Request × Except TriggerError Unit :=
  match c.request effect with
  | .error e => ([], .error e)
  | .ok r =>
    match network r with
    | .unreachable => ([], verdict effect r .unreachable)
    | exchange => ([r], verdict effect r exchange)

end Client

end RoundTrip.Rest
