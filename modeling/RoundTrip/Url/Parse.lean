import RoundTrip.Url.Basic

/-!
Reading URLs as the URL standard does, without a base: blanks around them and line breaks within
them do not count, dot segments are resolved, and each part is escaped in its own way.
-/

namespace RoundTrip.Url

def clean (cs : List Char) : List Char :=
  (Text.strip (fun c => c.toNat ≤ 0x20) cs).filter fun c => c ≠ '\t' ∧ c ≠ '\n' ∧ c ≠ '\r'

def isSchemeChar (c : Char) : Bool := c.isAlphanum || c == '+' || c == '-' || c == '.'

def splitScheme? (cs : List Char) : Option (String × List Char) :=
  let scheme := cs.takeWhile isSchemeChar
  match cs.dropWhile isSchemeChar with
  | ':' :: rest =>
    if scheme.head?.any Char.isAlpha then some (Text.lower (String.ofList scheme), rest) else none
  | _ => none

def isSlash (special : Bool) (c : Char) : Bool := c == '/' || (special && c == '\\')

def endsAuthority (special : Bool) (c : Char) : Bool := isSlash special c || c == '?' || c == '#'

def endsPath (c : Char) : Bool := c == '?' || c == '#'

def splitUserinfo (cs : List Char) : Option (List Char) × List Char :=
  let back := (cs.reverse.takeWhile (· ≠ '@')).reverse
  if cs.contains '@' then (some (cs.take (cs.length - back.length - 1)), back) else (none, cs)

/-- Username and password; the first colon divides them. -/
def userinfo (cs : List Char) : String × String :=
  let write (cs : List Char) := String.ofList (Percent.encode Percent.inUserinfo cs)
  (write (cs.takeWhile (· ≠ ':')), write ((cs.dropWhile (· ≠ ':')).drop 1))

/-- Splits before the colon that begins a port; colons between brackets belong to the host. -/
def splitHost : Bool → List Char → List Char × List Char
  | _, [] => ([], [])
  | bracketed, c :: rest =>
    if c = ':' ∧ !bracketed then ([], c :: rest)
    else
      let bracketed := if c = '[' then true else if c = ']' then false else bracketed
      let (host, port) := splitHost bracketed rest
      (c :: host, port)

def maxPort : Nat := 65535

/-- The port and what is left behind its digits. Ports that the scheme stands for are left out. -/
def readPort (scheme : String) : List Char → Except Fault (Option Nat × List Char)
  | [] => .ok (none, [])
  | _ :: cs =>
    let digits := cs.takeWhile Char.isDigit
    let rest := cs.dropWhile Char.isDigit
    let port := Text.decimal digits
    if maxPort < port ∨ rest.head?.any (· ≠ '\\') then .error .invalidPort
    else .ok (if digits.isEmpty ∨ defaultPort scheme = some port then none else some port, rest)

def isDriveLetter : List Char → Bool
  | [c, d] => c.isAlpha && (d == ':' || d == '|')
  | _ => false

inductive Dots
  | here
  | up
  deriving DecidableEq, Repr

/-- Escaped segments that mean a place; their dots may be escaped too. -/
def dots? (segment : String) : Option Dots :=
  let s := Text.lower segment
  if s = "." ∨ s = "%2e" then some .here
  else if s = ".." ∨ s = ".%2e" ∨ s = "%2e." ∨ s = "%2e%2e" then some .up
  else none

/-- The segments above the nearest one; a drive letter stays. -/
def parent : List String → List String
  | [] => []
  | name :: above => if isDriveLetter name.toList then name :: above else above

/-- Resolves dot segments. The segments above, nearest first, have been resolved already. A path
that ends in a dot segment ends in an empty one. -/
def resolve (above : List String) : List String → List String
  | [] => above.reverse
  | [last] =>
    match dots? last with
    | some .here => ("" :: above).reverse
    | some .up => ("" :: parent above).reverse
    | none => (last :: above).reverse
  | segment :: rest =>
    match dots? segment with
    | some .here => resolve above rest
    | some .up => resolve (parent above) rest
    | none => resolve (segment :: above) rest

def readPath (special : Bool) (cs : List Char) : List String :=
  let cs := cs.takeWhile fun c => !endsPath c
  let segments := Text.splitOn '/' (cs.map fun c => if isSlash special c then '/' else c)
  resolve [] (segments.map fun s => String.ofList (Percent.encode Percent.inPath s))

def readTail (special : Bool) (cs : List Char) : Option String × Option String :=
  let cs := cs.dropWhile fun c => !endsPath c
  let escaped := if special then Percent.inSpecialQuery else Percent.inQuery
  let query := match cs with
    | '?' :: rest => some (String.ofList (Percent.encode escaped (rest.takeWhile (· ≠ '#'))))
    | _ => none
  let fragment := match cs.dropWhile (· ≠ '#') with
    | _ :: rest => some (String.ofList (Percent.encode Percent.inFragment rest))
    | [] => none
  (query, fragment)

def finish (scheme : String) (credentials : String × String) (host : Option Host)
    (port : Option Nat) (path : Path) (rest : List Char) : Url :=
  let (query, fragment) := readTail (isSpecial scheme) rest
  ⟨scheme, credentials.1, credentials.2, host, port, path, query, fragment⟩

def readHost (scheme : String) (cs : List Char) : Except Fault Host :=
  if isSpecial scheme then if cs.isEmpty then .error .emptyHost else Host.parse cs
  else Host.parsePlain cs

def pathAfterHost (special : Bool) (cs : List Char) : Path :=
  match cs with
  | [] => .segments (if special then [""] else [])
  | c :: rest =>
    if isSlash special c then .segments (readPath special rest)
    else if endsPath c ∧ !special then .segments []
    else .segments (readPath special cs)

def readAuthority (scheme : String) (cs : List Char) : Except Fault Url := do
  let special := isSpecial scheme
  let authority := cs.takeWhile fun c => !endsAuthority special c
  let rest := cs.dropWhile fun c => !endsAuthority special c
  let (info, hostAndPort) := splitUserinfo authority
  if info = some [] ∧ hostAndPort.isEmpty ∧ !rest.isEmpty then .error .emptyHost
  let credentials := userinfo (info.getD [])
  let (hostText, portText) := splitHost false hostAndPort
  let host ← readHost scheme hostText
  if hostText.isEmpty ∧ !portText.isEmpty then .error .emptyHost
  let (port, behind) ← readPort scheme portText
  if hostText.isEmpty ∧ credentials ≠ ("", "") then .error .emptyHost
  let rest := behind ++ rest
  return finish scheme credentials (some host) port (pathAfterHost special rest) rest

def driveLetter? (names : List String) : Option String :=
  match names.head?.map String.toList with
  | some [c, d] => if isDriveLetter [c, d] then some (String.ofList [c, ':']) else none
  | _ => none

def dropEmptyFront (names : List String) : List String :=
  match names.dropWhile (· = "") with
  | [] => [""]
  | names => names

/-- A file URL, read behind the slash that its path may begin with. The host goes away where the
path begins with a drive letter. -/
def finishFile (host : Option Host) (cs : List Char) : Url :=
  let names := readPath true (if cs.head?.any (isSlash true) then cs.drop 1 else cs)
  let finish (host : Option Host) (names : List String) :=
    finish "file" ("", "") host none (.segments names) cs
  match driveLetter? names with
  | some drive => finish none (drive :: names.drop 1)
  | none => finish host (dropEmptyFront names)

def readFile (cs : List Char) : Except Fault Url :=
  match cs with
  | a :: b :: rest =>
    if isSlash true a ∧ isSlash true b then
      let hostText := rest.takeWhile fun c => !endsAuthority true c
      if hostText.isEmpty ∨ isDriveLetter hostText then .ok (finishFile none rest)
      else
        match Host.parse hostText with
        | .error fault => .error fault
        | .ok host =>
          let rest := rest.dropWhile fun c => !endsAuthority true c
          .ok (finishFile (if host = .domain "localhost" then none else some host) rest)
    else .ok (finishFile none cs)
  | _ => .ok (finishFile none cs)

def readOther (scheme : String) (cs : List Char) : Except Fault Url :=
  match cs with
  | '/' :: '/' :: rest => readAuthority scheme rest
  | '/' :: rest =>
    .ok (finish scheme ("", "") none none (.segments (readPath false rest)) rest)
  | cs =>
    let path := String.ofList (Percent.encode Percent.isControl (cs.takeWhile fun c => !endsPath c))
    .ok (finish scheme ("", "") none none (.rootless path) cs)

def parse (s : String) : Except Fault Url :=
  match splitScheme? (clean s.toList) with
  | none => .error .noScheme
  | some (scheme, rest) =>
    if scheme = "file" then readFile rest
    else if isSpecial scheme then readAuthority scheme (rest.dropWhile (isSlash true))
    else readOther scheme rest

end RoundTrip.Url
