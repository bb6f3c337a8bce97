import Mathlib.Data.List.Infix
import QueryHive.Library.Ascii
import QueryHive.Library.MarchYear
import QueryHive.Library.Numeral

/-! Dates in the format of a file. A pattern is compiled to tokens, and a text is read by them from its first byte
on: each token takes a field, and the last field of a kind is the one that counts. -/
namespace QueryHive.Import.Dates
open QueryHive.Library Text Numeral Weights

/-- One piece of a compiled pattern. A width is 2 for a doubled letter and 1 for one or two digits. -/
inductive Token where
  | year4 | year2
  | month (width : Nat)
  | day (width : Nat)
  | hour24 (width : Nat)
  | hour12 (width : Nat)
  | minute | second | fraction | amPm
  | literal (text : List Char)
  deriving DecidableEq, Repr

/-- A compiled `DATE_FORMAT`. -/
structure DatePattern where
  tokens : List Token
  source : String
  deriving DecidableEq, Repr

def isTimeZoneSign (c : Char) : Bool := c = '+' || c = '-'

/-- `carries_zone`: whether literal text spells a time zone. -/
def carriesZone (text : List Char) : Bool :=
  let upper := text.map Char.toUpper
  upper.contains 'Z' || decide (['U', 'T', 'C'] <:+: upper) || decide (['G', 'M', 'T'] <:+: upper) ||
    (text.zip text.tail).any fun (first, next) => isTimeZoneSign first && next.isDigit

/-- A quoted run behind its opening quote, and the text behind it; `''` is one quote. -/
def quotedRun (text : List Char) : List Char → Option (List Char × List Char)
  | [] => none
  | ['\''] => some (text, [])
  | '\'' :: '\'' :: rest => quotedRun (text ++ ['\'']) rest
  | '\'' :: rest => some (text, rest)
  | c :: rest => quotedRun (text ++ [c]) rest

/-- The literal of a quoted run; two quotes with nothing between are one quote. -/
def quotedText (text : List Char) : List Char := if text = [] then ['\''] else text

def tokenOf (c : Char) (run : Nat) : Option Token :=
  if c = 'y' ∧ run = 4 then some .year4
  else if c = 'y' ∧ run = 2 then some .year2
  else if c = 'M' ∧ (run = 1 ∨ run = 2) then some (.month run)
  else if c = 'd' ∧ (run = 1 ∨ run = 2) then some (.day run)
  else if c = 'H' ∧ (run = 1 ∨ run = 2) then some (.hour24 run)
  else if c = 'h' ∧ (run = 1 ∨ run = 2) then some (.hour12 run)
  else if c = 'm' ∧ run = 2 then some .minute
  else if c = 's' ∧ run = 2 then some .second
  else if c = 'S' ∧ 1 ≤ run ∧ run ≤ 9 then some .fraction
  else if c = 'a' ∧ run = 1 then some .amPm
  else none

/-- A character that is not a letter goes to the literal in front of it. -/
def pushLiteral (tokens : List Token) (c : Char) : List Token :=
  match tokens.getLast? with
  | some (.literal text) => tokens.dropLast ++ [.literal (text ++ [c])]
  | _ => tokens ++ [.literal [c]]

theorem quotedRun_shorter (found : quotedRun text rest = some (quoted, behind)) : behind.length < rest.length := by
  induction text, rest using quotedRun.induct with
  | case1 => cases found
  | case2 =>
    cases found
    exact Nat.zero_lt_one
  | case3 text rest ih =>
    rw [quotedRun] at found
    exact Nat.lt_trans (ih found) (by simp only [List.length_cons]; omega)
  | case4 text rest single double =>
    rw [quotedRun] at found
    · cases found
      exact Nat.lt_succ_self _
    · exact single
    · exact double
  | case5 text c rest =>
    rename_i single double ih
    rw [quotedRun] at found
    · exact Nat.lt_trans (ih found) (Nat.lt_succ_self _)
    all_goals assumption

/-- The loop of `parse`, with the tokens it has found. -/
def compile (pattern : String) (tokens : List Token) : List Char → Except String (List Token)
  | [] => .ok tokens
  | c :: rest =>
    if c = '\'' then
      match quoted : quotedRun [] rest with
      | none => .error s!"DATE_FORMAT '{pattern}' has an unclosed '"
      | some (text, behind) => compile pattern (tokens ++ [.literal (quotedText text)]) behind
    else if c.isAlpha then
      let run := (rest.takeWhile (· = c)).length + 1
      match tokenOf c run with
      | none =>
        let letters := String.ofList (List.replicate run c)
        .error (s!"DATE_FORMAT '{pattern}': '{letters}' is not a pattern letter this import " ++
          "reads (use yyyy, yy, MM, dd, HH, hh a, mm, ss, S, and 'quoted' text)")
      | some token => compile pattern (tokens ++ [token]) (rest.dropWhile (· = c))
    else compile pattern (pushLiteral tokens c) rest
termination_by rest => rest.length
decreasing_by
  · exact Nat.lt_trans (quotedRun_shorter quoted) (Nat.lt_succ_self _)
  · exact Nat.lt_succ_of_le (List.length_dropWhile_le _ _)
  · exact Nat.lt_succ_self _

def Token.isYear : Token → Bool
  | .year4 | .year2 => true
  | _ => false

def Token.isMonth : Token → Bool
  | .month _ => true
  | _ => false

def Token.isDay : Token → Bool
  | .day _ => true
  | _ => false

def Token.isHour12 : Token → Bool
  | .hour12 _ => true
  | _ => false

def zoneLiteral (tokens : List Token) : Option (List Char) :=
  tokens.findSome? fun token => match token with
    | .literal text => if carriesZone text then some text else none
    | _ => none

/-- `DatePattern::parse`. -/
def parse (pattern : String) : Except String DatePattern :=
  (compile pattern [] pattern.toList).bind fun tokens =>
    match zoneLiteral tokens with
    | some text =>
      let text := String.ofList text
      .error (s!"DATE_FORMAT '{pattern}': '{text}' is a time zone, and this pattern has no " ++
        "zone token, so it would be read and dropped. Leave the zone in the value " ++
        "and unset DATE_FORMAT, or convert the file to one zone first")
    | none =>
      if !(tokens.any Token.isYear && tokens.any Token.isMonth && tokens.any Token.isDay) then
        .error s!"DATE_FORMAT '{pattern}' must name a year, a month and a day"
      else if tokens.any Token.isHour12 != tokens.contains .amPm then
        .error s!"DATE_FORMAT '{pattern}': a 12-hour clock needs both hh and a"
      else .ok ⟨tokens, pattern⟩

/-- A read ends early with a refusal, or by a panic. -/
inductive Stop where
  | refused (message : String)
  | panicked
  deriving DecidableEq, Repr

/-- A date and perhaps a time as ISO text. -/
structure IsoDateTime where
  date : List Char
  time : Option (List Char)
  deriving DecidableEq, Repr

/-- `timestamp`. -/
def IsoDateTime.timestamp (iso : IsoDateTime) : List Char :=
  iso.date ++ ' ' :: iso.time.getD ['0', '0', ':', '0', '0', ':', '0', '0']

/-- The variables of the loop. -/
structure Reading where
  place : Nat
  year : Option Nat
  month : Option Nat
  day : Option Nat
  hour : Option Nat
  minute : Nat
  second : Nat
  fraction : Option (List Char)
  pm : Option Bool
  deriving DecidableEq, Repr

def Reading.start : Reading := ⟨0, none, none, none, none, 0, 0, none, none⟩

def isDigitByte (byte : UInt8) : Bool := 0x30 ≤ byte && byte ≤ 0x39

/-- At most `max` digits from a place on; a place behind the end is a panic. -/
def digitRun (bytes : List UInt8) (place max : Nat) : Except Stop (List UInt8) :=
  if bytes.length < place then .error .panicked else .ok (((bytes.drop place).take max).takeWhile isDigitByte)

/-- The digits a numeric token takes, as a number and how many they are. -/
def digits (bad : String → Stop) (why : String) (bytes : List UInt8) (place min max : Nat) : Except Stop (Nat × Nat) :=
  (digitRun bytes place max).bind fun run =>
    if run.length < min then .error (bad why) else .ok (value (run.map Ascii.charOf), run.length)

def step (bad : String → Stop) (text : List Char) (s : Reading) : Token → Except Stop Reading
  | .year4 => do
    let (year, width) ← digits bad "year" (encodeUtf8 text) s.place 4 4
    .ok { s with year := some year, place := s.place + width }
  | .year2 => do
    let (two, width) ← digits bad "year" (encodeUtf8 text) s.place 2 2
    .ok { s with year := some (if two ≤ 68 then 2000 + two else 1900 + two), place := s.place + width }
  | .month width => do
    let (month, width) ← digits bad "month" (encodeUtf8 text) s.place (min width 2) 2
    .ok { s with month := some month, place := s.place + width }
  | .day width => do
    let (day, width) ← digits bad "day" (encodeUtf8 text) s.place (min width 2) 2
    .ok { s with day := some day, place := s.place + width }
  | .hour24 width | .hour12 width => do
    let (hour, width) ← digits bad "hour" (encodeUtf8 text) s.place (min width 2) 2
    .ok { s with hour := some hour, place := s.place + width }
  | .minute => do
    let (minute, width) ← digits bad "minute" (encodeUtf8 text) s.place 2 2
    .ok { s with minute := minute, place := s.place + width }
  | .second => do
    let (second, width) ← digits bad "second" (encodeUtf8 text) s.place 2 2
    .ok { s with second := second, place := s.place + width }
  | .fraction => do
    let run ← digitRun (encodeUtf8 text) s.place 9
    if run = [] then .error (bad "fraction of a second")
    else match sliceTo Char.utf8Size text s.place (s.place + run.length) with
      | none => .error .panicked
      | some fraction => .ok { s with fraction := some fraction, place := s.place + run.length }
  | .amPm =>
    match sliceTo Char.utf8Size text s.place (s.place + 2) with
    | none => .error (bad "AM or PM")
    | some word =>
      if word.map Char.toUpper = ['A', 'M'] then .ok { s with pm := some false, place := s.place + 2 }
      else if word.map Char.toUpper = ['P', 'M'] then .ok { s with pm := some true, place := s.place + 2 }
      else .error (bad "AM or PM")
  | .literal literal =>
    match dropTo Char.utf8Size text s.place with
    | some rest =>
      if literal.isPrefixOf rest then .ok { s with place := s.place + (encodeUtf8 literal).length }
      else .error (bad ("expected '" ++ String.ofList literal ++ "'"))
    | none => .error (bad ("expected '" ++ String.ofList literal ++ "'"))

/-- `days_in_month`. -/
def daysInMonth (year month : Nat) : Nat :=
  if month = 4 ∨ month = 6 ∨ month = 9 ∨ month = 11 then 30
  else if month = 2 ∧ year % 4 = 0 ∧ (year % 100 ≠ 0 ∨ year % 400 = 0) then 29
  else if month = 2 then 28
  else 31

/-- The hour on a clock of 24; one on a clock of 12 has its marker. -/
def hourOf (bad : String → Stop) : Option Nat → Option Bool → Except Stop (Option Nat)
  | some hour, some pm =>
    if ¬(1 ≤ hour ∧ hour ≤ 12) then .error (bad "hour is not 1-12")
    else .ok (some (hour % 12 + if pm then 12 else 0))
  | hour, _ => .ok hour

def timeText (hour : Option Nat) (minute second : Nat) (fraction : Option (List Char)) : Option (List Char) :=
  hour.map fun hour =>
    padded 2 hour ++ ':' :: (padded 2 minute ++ ':' :: (padded 2 second ++ match fraction with
      | some digits => '.' :: digits
      | none => []))

/-- `read` behind its loop. -/
def conclude (bad : String → Stop) (s : Reading) : Except Stop IsoDateTime :=
  match s.year, s.month, s.day with
  | some year, some month, some day =>
    if ¬(1 ≤ month ∧ month ≤ 12) then .error (bad "month is not 1-12")
    else if day = 0 ∨ daysInMonth year month < day then .error (bad "no such day in that month")
    else (hourOf bad s.hour s.pm).bind fun hour =>
      if hour.any (23 < ·) || decide (59 < s.minute) || decide (59 < s.second) then
        .error (bad "time of day out of range")
      else .ok ⟨padded 4 year ++ '-' :: (padded 2 month ++ '-' :: padded 2 day),
        timeText hour s.minute s.second s.fraction⟩
  | _, _, _ => .error .panicked

/-- The message for a value that is refused. -/
def bad (pattern : DatePattern) (text : List Char) (why : String) : Stop :=
  let value := String.ofList text
  let source := pattern.source
  .refused s!"'{value}' is not a valid date for DATE_FORMAT {source} ({why})"

/-- `DatePattern::read`. -/
def DatePattern.read (pattern : DatePattern) (text : List Char) : Except Stop IsoDateTime := do
  let s ← pattern.tokens.foldlM (step (bad pattern text) (trim text)) Reading.start
  if s.place ≠ (encodeUtf8 (trim text)).length then .error (bad pattern text "unexpected text after the date")
  else conclude (bad pattern text) s

end QueryHive.Import.Dates
