import RoundTrip.Url.Parse
import RoundTrip.Url.Form

namespace RoundTrip.Url

/-- One empty segment at the end of a path is the place where the next one goes. -/
def dropEmptyEnd (names : List String) : List String :=
  if 1 < names.length ∧ names.getLast? = some "" then names.dropLast else names

def segmentChars (segment : String) : List Char :=
  segment.toList.filter fun c => c ≠ '\t' ∧ c ≠ '\n' ∧ c ≠ '\r'

/-- Appends one segment. Plain dots append nothing. -/
def pushSegment (special : Bool) (names : List String) (segment : String) : List String :=
  if segment = "." ∨ segment = ".." then names
  else
    let names := if names = [""] then [] else names
    let escaped := if special then Percent.inSpecialSegment else Percent.inSegment
    resolve names.reverse [String.ofList (Percent.encode escaped (segmentChars segment))]

def extend (u : Url) (segments : List String) : Url :=
  match u.path with
  | .rootless _ => u
  | .segments names =>
    { u with
      path := .segments
        (segments.foldl (pushSegment (isSpecial u.scheme)) (dropEmptyEnd names)) }

def appendPairs (u : Url) (pairs : List (String × String)) : Url :=
  { u with query := some (pairs.foldl Form.append (u.query.getD "")) }

end RoundTrip.Url
