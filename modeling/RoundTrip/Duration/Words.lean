import RoundTrip.Duration.Basic

/-!
Durations in words, as configuration errors name them: `1year 2months 3days 4h 5m 6s 7ms 8us 9ns`.
A year has 365.25 days and a month 30.44 days.
-/

namespace RoundTrip.Duration

def month : Duration := 2630016 * second
def year : Duration := 31557600 * second

def word (count : Nat) (unit : String) : List String :=
  if count = 0 then [] else [toString count ++ unit]

def pluralWord (count : Nat) (unit : String) : List String :=
  word count (if count > 1 then unit ++ "s" else unit)

def words (d : Duration) : String :=
  let parts :=
    pluralWord (d / year) "year" ++
    pluralWord (d % year / month) "month" ++
    pluralWord (d % year % month / day) "day" ++
    word (d % year % month % day / hour) "h" ++
    word (d % year % month % day % hour / minute) "m" ++
    word (d % year % month % day % minute / second) "s" ++
    word (d % second / millisecond) "ms" ++
    word (d % millisecond / microsecond) "us" ++
    word (d % microsecond) "ns"
  if d = 0 then "0s" else String.intercalate " " parts

end RoundTrip.Duration
