import DnsMonitor.Go.Float
import DnsMonitor.Go.Net

namespace DnsMonitor.Go.Time

open DnsMonitor.Go.Strings DnsMonitor.Go.Net DnsMonitor.Go.Float

def microsecond : Int := 1000

def millisecond : Int := 1000000

def second : Int := 1000000000

def minute : Int := 60 * second

def hour : Int := 60 * minute

/-- The units of a duration; the micro sign has two encodings. -/
def unitMap : List (GoString × Int) :=
  [(str "ns", 1), (str "us", microsecond), (utf8 "µs", microsecond), (utf8 "μs", microsecond),
    (str "ms", millisecond), (str "s", second), (str "m", minute), (str "h", hour)]

section

variable {F : Type} [GoFloat F]

/-- The digits of a fraction and the power of ten below them. Digits that overflow 63 bits
are skipped. -/
def leadingFraction : Nat → F → GoString → Nat × F
  | x, scale, [] => (x, scale)
  | x, scale, c :: ds =>
    let y := 10 * x + digitValue c
    if x ≤ (2 ^ 63 - 1) / 10 ∧ y ≤ 2 ^ 63 then leadingFraction y (scale * ofInt 10) ds
    else (x, scale)

end

def isUnitByte (b : UInt8) : Bool := !(b = byte '.' || isDigit b)

def number (s : GoString) : GoString × GoString × GoString :=
  match s.dropWhile isDigit with
  | [] => (s.takeWhile isDigit, [], [])
  | c :: rest =>
    if c = byte '.' then (s.takeWhile isDigit, rest.takeWhile isDigit, rest.dropWhile isDigit)
    else (s.takeWhile isDigit, [], c :: rest)

section

variable (F : Type) [GoFloat F]

def component (pre post : GoString) (unit : Int) : Option Int :=
  if pre = [] ∧ post = [] then none
  else if 2 ^ 63 < digitsValue pre then none
  else if 2 ^ 63 / unit < digitsValue pre then none
  else
    let (f, scale) := leadingFraction 0 (ofInt 1 : F) post
    let v := digitsValue pre * unit +
      if 0 < f then GoFloat.trunc ((ofInt f : F) * (ofInt unit / scale)) else 0
    if v ≤ 2 ^ 63 then some v else none

/-- The sum of the components. Each has at least one byte, so that the length of the text
bounds their number. -/
def components : Nat → Int → GoString → Option Int
  | _, d, [] => some d
  | 0, _, _ => none
  | n + 1, d, s => do
    let (pre, post, rest) := number s
    let unit ← (unitMap.find? fun u => u.1 = rest.takeWhile isUnitByte).map (·.2)
    let v ← component F pre post unit
    if d + v ≤ 2 ^ 63 then components n (d + v) (rest.dropWhile isUnitByte) else none

def parseDuration (s : GoString) : Option Int :=
  let neg := s.head? = some (byte '-')
  let s := if neg ∨ s.head? = some (byte '+') then s.tail else s
  if s = str "0" then some 0
  else if s = [] then none
  else
    (components F s.length 0 s).bind fun d =>
      if neg then some (-d) else if d ≤ 2 ^ 63 - 1 then some d else none

end

end DnsMonitor.Go.Time
