import RoundTrip.Url.Host

namespace RoundTrip

inductive Url.Path
  /-- Text that does not divide into segments; nothing can be appended to it. -/
  | rootless (s : String)
  | segments (names : List String)
  deriving DecidableEq, Repr

structure Url where
  scheme : String
  username : String
  password : String
  host : Option Url.Host
  /-- Left out where it is the port that the scheme stands for. -/
  port : Option Nat
  path : Url.Path
  query : Option String
  fragment : Option String
  deriving DecidableEq, Repr

namespace Url

/-- Schemes whose URLs always have a path and take backslashes for slashes. -/
def isSpecial (scheme : String) : Bool :=
  ["http", "https", "ws", "wss", "ftp", "file"].contains scheme

def defaultPort (scheme : String) : Option Nat :=
  [("http", 80), ("https", 443), ("ws", 80), ("wss", 443), ("ftp", 21)].lookup scheme

def Path.text : Path → String
  | .rootless s => s
  | .segments names => String.join (names.map fun n => "/" ++ n)

/-- Two slashes at the start of a path must not be read as those of a host. -/
def Path.mark : Path → String
  | .segments ("" :: _ :: _) => "/."
  | _ => ""

def Path.isRootless : Path → Bool
  | .rootless _ => true
  | .segments _ => false

def credentials (u : Url) : String :=
  if u.username = "" ∧ u.password = "" then ""
  else u.username ++ (if u.password = "" then "" else ":" ++ u.password) ++ "@"

def portText : Option Nat → String
  | none => ""
  | some port => ":" ++ toString port

def marked (mark : String) : Option String → String
  | none => ""
  | some s => mark ++ s

/-- Host and port with two slashes in front. Files have the slashes even without a host. -/
def authority (u : Url) : String :=
  match u.host with
  | some host => "//" ++ u.credentials ++ host.text ++ portText u.port
  | none => if u.scheme = "file" then "//" else u.path.mark

def text (u : Url) : String :=
  u.scheme ++ ":" ++ u.authority ++ u.path.text ++ marked "?" u.query ++ marked "#" u.fragment

end Url

end RoundTrip
