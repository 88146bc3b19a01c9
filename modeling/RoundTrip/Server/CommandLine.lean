import RoundTrip.Server.Settings

/-!
Settings from the command line and the environment.

Words are read from left to right. A value that stands in a word of its own is taken in when the
next flag begins or the line ends, so a word that is not understood counts before such a value.
The environment is asked only for settings without a flag.
-/

namespace RoundTrip.Server.CommandLine

inductive Refusal
  | unknownWord
  | missingValue
  | repeatedFlag
  | badValue
  | unexpectedValue
  | help
  | version
  /-- No message but that of a panic. -/
  | panic
  deriving DecidableEq, Repr

def Refusal.message : Refusal → String
  | .unknownWord => "unexpected argument"
  | .missingValue => "a value is required"
  | .repeatedFlag => "the argument cannot be used multiple times"
  | .badValue => "invalid value"
  | .unexpectedValue => "unexpected value"
  | .help => "Synthetic round-trip prober for the event delivery platform"
  | .version => "probe-helper 0.1.0"
  | .panic => Duration.Fault.overflow.message

def Refusal.isAnswer : Refusal → Bool
  | .help | .version => true
  | _ => false

def Refusal.exitCode : Refusal → UInt32
  | .help | .version => 0
  | .panic => 101
  | _ => 2

structure Line where
  settings : Settings := {}
  given : List Setting := []
  /-- The last flag, with its value once that has been read. -/
  pending : Option (Setting × Option String) := none

namespace Line

def put (l : Line) (s : Setting) (value : String) : Except Refusal Line :=
  if l.given.contains s then .error .repeatedFlag
  else
    match l.settings.set s value with
    | .error .invalid => .error .badValue
    | .error .panic => .error .panic
    | .ok settings => .ok { l with settings, given := s :: l.given }

def settle (l : Line) : Except Refusal Line :=
  match l.pending with
  | none => .ok l
  | some (_, none) => .error .missingValue
  | some (s, some value) => { l with pending := none }.put s value

def ask (l : Line) (what : Refusal) : Option String → Except Refusal Line
  | some _ => .error .unexpectedValue
  | none => l.settle.bind fun _ => .error what

def flag (l : Line) (s : Setting) : Option String → Except Refusal Line
  | some value => l.settle.bind fun l => l.put s value
  | none => l.settle.map fun l => { l with pending := some (s, none) }

def long (l : Line) (name : String) (value : Option String) : Except Refusal Line :=
  if name = "help" then l.ask .help value
  else if name = "version" then l.ask .version value
  else
    match Setting.ofFlag? name with
    | none => .error .unknownWord
    | some s => l.flag s value

def short (l : Line) (letter : Char) : Except Refusal Line :=
  if letter = 'h' then l.ask .help none
  else if letter = 'V' then l.ask .version none
  else .error .unknownWord

/-- A word that is no flag: the value of the last flag or nothing that is understood. -/
def value (l : Line) (word : String) : Except Refusal Line :=
  match l.pending with
  | some (s, none) => .ok { l with pending := some (s, some word) }
  | _ => .error .unknownWord

def attached (cs : List Char) : Option String :=
  match cs.dropWhile (· ≠ '=') with
  | _ :: value => some (String.ofList value)
  | [] => none

def word (l : Line) (w : String) : Except Refusal Line :=
  match w.toList with
  | '-' :: '-' :: cs => l.long (String.ofList (cs.takeWhile (· ≠ '='))) (attached cs)
  | '-' :: c :: _ => l.short c
  | _ => l.value w

/-- Reads the words; after two hyphens alone there may be none. -/
def words (l : Line) : List String → Except Refusal Line
  | [] => l.settle
  | "--" :: rest => if rest.isEmpty then l.settle else .error .unknownWord
  | w :: rest => (l.word w).bind fun l => l.words rest

def environment (lookup : String → Option String) : Line → List Setting → Except Refusal Line
  | l, [] => .ok l
  | l, s :: rest =>
    if l.given.contains s then environment lookup l rest
    else
      match lookup s.variableName with
      | none => environment lookup l rest
      | some value => (l.put s value).bind fun l => environment lookup l rest

end Line

def settings (words : List String) (lookup : String → Option String) : Except Refusal Settings :=
  match Line.words {} words with
  | .error r => .error r
  | .ok l => (Line.environment lookup l Setting.all).map Line.settings

end RoundTrip.Server.CommandLine
