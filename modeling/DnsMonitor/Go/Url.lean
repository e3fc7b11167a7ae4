import DnsMonitor.Go.Errors
import DnsMonitor.Go.Net
import DnsMonitor.Go.Unicode

namespace DnsMonitor.Go.Url

open DnsMonitor.Go.Strings DnsMonitor.Go.Unicode DnsMonitor.Go.Net DnsMonitor.Go.Errors

inductive Encoding where
  | path
  | host
  | zone
  | fragment
deriving DecidableEq

inductive ParseError where
  | controlCharacter
  | missingScheme
  | colonInFirstSegment
  | missingBracket
  | invalidPort (port : GoString)
  | invalidHost (b : UInt8)
  | invalidEscape (text : GoString)
deriving DecidableEq

structure URL where
  scheme : GoString := []
  opaquePart : GoString := []
  user : Option GoString := none
  host : GoString := []
  path : GoString := []
  rawPath : GoString := []
  omitHost : Bool := false
  forceQuery : Bool := false
  rawQuery : GoString := []
  fragment : GoString := []
deriving DecidableEq

def isLetter (b : UInt8) : Bool :=
  (byte 'a' ≤ b && b ≤ byte 'z') || (byte 'A' ≤ b && b ≤ byte 'Z')

def isControl (b : UInt8) : Bool := b < 0x20 || b = 0x7F

def shouldEscape (mode : Encoding) (c : UInt8) : Bool :=
  if isLetter c || isDigit c then false
  else if (mode = .host ∨ mode = .zone) ∧ c ∈ str "!$&'()*+,;=:[]<>\"" then false
  else if c ∈ str "-_.~" then false
  else if c ∈ str "$&+,/:;=?@" ∧ mode = .path then c = byte '?'
  else if c ∈ str "$&+,/:;=?@" ∧ mode = .fragment then false
  else if mode = .fragment ∧ c ∈ str "!()*" then false
  else true

def unescape (mode : Encoding) : GoString → Except ParseError GoString
  | [] => .ok []
  | c :: s =>
    if c = byte '%' then
      match s with
      | h :: l :: rest =>
        match hexValue h, hexValue l with
        | some x, some y =>
          let v := UInt8.ofNat (16 * x + y)
          let percent := [h, l] = str "25"
          if mode = .host ∧ x < 8 ∧ ¬ percent then .error (.invalidEscape [c, h, l])
          else if mode = .zone ∧ ¬ percent ∧ v ≠ byte ' ' ∧ shouldEscape .host v then
            .error (.invalidEscape [c, h, l])
          else (unescape mode rest).map (v :: ·)
        | _, _ => .error (.invalidEscape [c, h, l])
      | _ => .error (.invalidEscape (c :: s))
    else if (mode = .host ∨ mode = .zone) ∧ c < 0x80 ∧ shouldEscape mode c then
      .error (.invalidHost c)
    else (unescape mode s).map (c :: ·)

def upperHex (n : Nat) : UInt8 := if n < 10 then UInt8.ofNat (0x30 + n) else UInt8.ofNat (0x37 + n)

def escapeByte (mode : Encoding) (c : UInt8) : GoString :=
  if shouldEscape mode c then [byte '%', upperHex (c.toNat / 16), upperHex (c.toNat % 16)] else [c]

def escape (mode : Encoding) (s : GoString) : GoString := s.flatMap (escapeByte mode)

def validOptionalPort (port : GoString) : Bool :=
  match port with
  | [] => true
  | c :: ds => c = byte ':' && ds.all isDigit

def isSchemeByte (b : UInt8) : Bool :=
  isLetter b || isDigit b || b = byte '+' || b = byte '-' || b = byte '.'

def getScheme (rawURL : GoString) : Except ParseError (GoString × GoString) :=
  match rawURL.dropWhile isSchemeByte with
  | [] => .ok ([], rawURL)
  | c :: rest =>
    if c ≠ byte ':' then .ok ([], rawURL)
    else
      match rawURL.takeWhile isSchemeByte with
      | [] => .error .missingScheme
      | b :: name => if isLetter b then .ok (b :: name, rest) else .ok ([], rawURL)

def parseHost (host : GoString) : Except ParseError GoString :=
  if host.head? = some (byte '[') then
    match cutLast (byte ']') host with
    | none => .error .missingBracket
    | some (inner, colonPort) =>
      if ¬ validOptionalPort colonPort then .error (.invalidPort colonPort)
      else
        -- RFC 6874: a zone follows the first %25 before the closing bracket.
        match (List.range inner.length).find? (fun i => hasPrefix (inner.drop i) (str "%25")) with
        | some zone => do
          let host1 ← unescape .host (inner.take zone)
          let host2 ← unescape .zone (inner.drop zone)
          let host3 ← unescape .host (byte ']' :: colonPort)
          pure (host1 ++ host2 ++ host3)
        | none => unescape .host host
  else
    match cutLast (byte ':') host with
    | some (_, port) =>
      if ¬ validOptionalPort (byte ':' :: port) then .error (.invalidPort (byte ':' :: port))
      else unescape .host host
    | none => unescape .host host

/-- A user part is kept as written: both its uses here only ask whether it is there. -/
def parseAuthority (authority : GoString) : Except ParseError (Option GoString × GoString) :=
  match cutLast (byte '@') authority with
  | none => (parseHost authority).map fun host => (none, host)
  | some (userinfo, rest) => (parseHost rest).map fun host => (some userinfo, host)

/-- Split off the query. A single question mark at the end leaves an empty, forced query. -/
def splitQuery (rest : GoString) : GoString × Bool × GoString :=
  if hasSuffix rest (str "?") ∧ rest.count (byte '?') = 1 then (rest.dropLast, true, [])
  else
    match cut (byte '?') rest with
    | some (before, query) => (before, false, query)
    | none => (rest, false, [])

def splitAuthority (rest : GoString) : GoString × GoString :=
  match cut (byte '/') (rest.drop 2) with
  | some (authority, path) => (authority, byte '/' :: path)
  | none => (rest.drop 2, [])

def setPath (u : URL) (p : GoString) : Except ParseError URL :=
  (unescape .path p).map fun path =>
    { u with path := path, rawPath := if p = escape .path path then [] else p }

def parseHierarchy (u : URL) (rest : GoString) : Except ParseError URL :=
  if hasPrefix rest (str "/") = false ∧ u.scheme ≠ [] then .ok { u with opaquePart := rest }
  else if hasPrefix rest (str "/") = false ∧ byte ':' ∈ rest.takeWhile (· ≠ byte '/') then
    .error .colonInFirstSegment
  else if (u.scheme ≠ [] ∨ hasPrefix rest (str "///") = false) ∧ hasPrefix rest (str "//") then do
    let (user, host) ← parseAuthority (splitAuthority rest).1
    setPath { u with user, host } (splitAuthority rest).2
  else setPath { u with omitHost := u.scheme ≠ [] && hasPrefix rest (str "/") } rest

/-- `url.parse` without the fragment. A scheme is ASCII text. -/
def parseMain (rawURL : GoString) : Except ParseError URL :=
  if rawURL.any isControl then .error .controlCharacter
  else if rawURL = str "*" then .ok { path := str "*" }
  else do
    let (name, rest) ← getScheme rawURL
    let (rest, forceQuery, rawQuery) := splitQuery rest
    parseHierarchy { scheme := name.map lowerByte, forceQuery, rawQuery } rest

/-- `url.Parse` of Go 1.24.7, the version in `go.mod`. Later versions refuse text in brackets that
is not an IPv6 address. -/
def parse (rawURL : GoString) : Except ParseError URL :=
  match cut (byte '#') rawURL with
  | none => parseMain rawURL
  | some (u, frag) => do
    let url ← parseMain u
    if frag = [] then pure url
    else
      let fragment ← unescape .fragment frag
      pure { url with fragment }

def splitHost (hostPort : GoString) : GoString × GoString :=
  let (host, port) :=
    match cutLast (byte ':') hostPort with
    | some (h, p) => if validOptionalPort (byte ':' :: p) then (h, p) else (hostPort, [])
    | none => (hostPort, [])
  if host.head? = some (byte '[') ∧ hasSuffix host (str "]") then
    (host.tail.take (host.length - 2), port)
  else (host, port)

def URL.hostname (u : URL) : GoString := (splitHost u.host).1

def URL.port (u : URL) : GoString := (splitHost u.host).2

def validEncodedPath (s : GoString) : Bool :=
  s.all fun c => c ∈ str "!$&'()*+,;=:@[]%" || !shouldEscape .path c

def URL.escapedPath (u : URL) : GoString :=
  if u.rawPath ≠ [] ∧ validEncodedPath u.rawPath ∧ unescape .path u.rawPath = .ok u.path then
    u.rawPath
  else if u.path = str "*" then str "*"
  else escape .path u.path

def queryText (forceQuery : Bool) (rawQuery : GoString) : GoString :=
  if forceQuery ∨ rawQuery ≠ [] then byte '?' :: rawQuery else []

/-- `URL.String` for a URL without a user part. -/
def URL.string (u : URL) : GoString :=
  let scheme := if u.scheme ≠ [] then u.scheme ++ [byte ':'] else []
  let body :=
    if u.opaquePart ≠ [] then u.opaquePart
    else
      let authority :=
        if (u.scheme = [] ∧ u.host = []) ∨ (u.omitHost ∧ u.host = []) then []
        else if u.host ≠ [] ∨ u.path ≠ [] then str "//" ++ escape .host u.host
        else []
      let path := u.escapedPath
      let slash :=
        if path ≠ [] ∧ path.head? ≠ some (byte '/') ∧ u.host ≠ [] then [byte '/'] else []
      let dot :=
        if scheme ++ authority ++ slash = [] ∧ byte ':' ∈ path.takeWhile (· ≠ byte '/') then
          str "./"
        else []
      authority ++ slash ++ dot ++ path
  let fragment := if u.fragment ≠ [] then byte '#' :: escape .fragment u.fragment else []
  scheme ++ body ++ queryText u.forceQuery u.rawQuery ++ fragment

theorem hexValue_upperHex {n : Nat} (h : n < 16) : hexValue (upperHex n) = some n := by
  have : ∀ n : Fin 16, hexValue (upperHex n) = some n.val := by decide
  exact this ⟨n, h⟩

theorem unescape_cons {mode : Encoding} {c : UInt8} (h : c ≠ byte '%')
    (hm : ¬ ((mode = .host ∨ mode = .zone) ∧ c < 0x80 ∧ shouldEscape mode c = true))
    (s : GoString) : unescape mode (c :: s) = (unescape mode s).map (c :: ·) := by
  conv_lhs => unfold unescape
  rw [if_neg h, if_neg hm]

theorem unescape_path_escapeByte (c : UInt8) (s : GoString) :
    unescape .path (escapeByte .path c ++ s) = (unescape .path s).map (c :: ·) := by
  simp only [escapeByte]
  split_ifs with h
  · have hc : c.toNat < 256 := c.toNat_lt
    have hx := hexValue_upperHex (n := c.toNat / 16) (by omega)
    have hy := hexValue_upperHex (n := c.toNat % 16) (by omega)
    have hv : UInt8.ofNat (16 * (c.toNat / 16) + c.toNat % 16) = c := by
      rw [Nat.div_add_mod, UInt8.ofNat_toNat]
    simp only [List.cons_append, List.nil_append, unescape, if_true, hx, hy, hv]
    simp
  · rw [List.singleton_append, unescape_cons _ (by simp)]
    rintro rfl
    exact h (by decide)

theorem unescape_path_escape (s : GoString) : unescape .path (escape .path s) = .ok s := by
  induction s with
  | nil => rfl
  | cons c s ih =>
    rw [escape, List.flatMap_cons, unescape_path_escapeByte]
    simp only [escape] at ih
    rw [ih]
    rfl

theorem map_cons_eq_ok {x : Except ParseError GoString} {c : UInt8} {t : GoString} :
    x.map (c :: ·) = .ok t ↔ ∃ s, x = .ok s ∧ c :: s = t := by
  cases x <;> simp [Except.map]

theorem map_cons_ne_nil {x : Except ParseError GoString} {c : UInt8} {t : GoString}
    (h : x.map (c :: ·) = .ok t) : t ≠ [] := by
  obtain ⟨s, -, rfl⟩ := map_cons_eq_ok.mp h
  simp

theorem unescape_ne_nil {mode : Encoding} {c : UInt8} {s t : GoString}
    (h : unescape mode (c :: s) = .ok t) : t ≠ [] := by
  unfold unescape at h
  split_ifs at h
  · split at h
    · split at h
      · dsimp only at h
        split_ifs at h
        exact map_cons_ne_nil h
      · simp at h
    · simp at h
  · exact map_cons_ne_nil h

def isPathByte (b : UInt8) : Bool := isGraph b && b ≠ byte '?' && b ≠ byte '#'

theorem isPathByte_of_not_escaped {c : UInt8} (h : shouldEscape .path c = false) :
    isPathByte c = true := by
  revert h c
  apply forall_byte
  decide +kernel

theorem isPathByte_of_validEncoded {s : GoString} (h : validEncodedPath s = true) :
    ∀ b ∈ s, isPathByte b = true := by
  have hextra : (str "!$&'()*+,;=:@[]%").all isPathByte = true := by decide
  intro b hb
  have hb' := List.all_eq_true.mp h b hb
  simp only [Bool.or_eq_true, decide_eq_true_eq, Bool.not_eq_true'] at hb'
  obtain hmem | hkept := hb'
  · exact List.all_eq_true.mp hextra b hmem
  · exact isPathByte_of_not_escaped hkept

theorem isPathByte_escape (s : GoString) : ∀ b ∈ escape .path s, isPathByte b = true := by
  intro b hb
  obtain ⟨c, -, hc⟩ := List.mem_flatMap.mp hb
  simp only [escapeByte] at hc
  split_ifs at hc with h
  · have hex : ∀ n : Fin 16, isPathByte (upperHex n) = true := by decide
    have hlt : c.toNat < 256 := c.toNat_lt
    simp only [List.mem_cons, List.not_mem_nil, or_false] at hc
    obtain rfl | rfl | rfl := hc
    · decide
    · exact hex ⟨c.toNat / 16, by omega⟩
    · exact hex ⟨c.toNat % 16, by omega⟩
  · rw [List.mem_singleton] at hc
    subst hc
    exact isPathByte_of_not_escaped (Bool.eq_false_iff.mpr h)

theorem validEncodedPath_escape (s : GoString) : validEncodedPath (escape .path s) = true := by
  refine List.all_eq_true.mpr fun b hb => ?_
  obtain ⟨c, -, hc⟩ := List.mem_flatMap.mp hb
  simp only [escapeByte] at hc
  split_ifs at hc with h
  · have hex : ∀ n : Fin 16, shouldEscape .path (upperHex n) = false := by decide
    have hlt : c.toNat < 256 := c.toNat_lt
    simp only [List.mem_cons, List.not_mem_nil, or_false] at hc
    obtain rfl | rfl | rfl := hc
    · decide
    · simp [hex ⟨c.toNat / 16, by omega⟩]
    · simp [hex ⟨c.toNat % 16, by omega⟩]
  · rw [List.mem_singleton] at hc
    subst hc
    simp [h]

theorem escape_host_eq {s : GoString} (h : ∀ b ∈ s, shouldEscape .host b = false) :
    escape .host s = s := by
  induction s with
  | nil => rfl
  | cons c s ih =>
    have hs := ih (fun b hb => h b (by simp [hb]))
    simp only [escape] at hs
    simp [escape, escapeByte, h c (by simp), hs]

/-- The path as it is printed after it has been read from the text `p`. -/
def printedPath (p : GoString) : GoString :=
  if validEncodedPath p then p
  else
    match unescape .path p with
    | .ok path => escape .path path
    | .error _ => p

@[simp] theorem printedPath_nil : printedPath [] = [] := by
  simp [printedPath, validEncodedPath]

theorem printedPath_bytes {p x : GoString} (hx : unescape .path p = .ok x) :
    ∀ b ∈ printedPath p, isPathByte b = true := by
  simp only [printedPath, hx]
  split_ifs with h
  · exact isPathByte_of_validEncoded h
  · exact isPathByte_escape x

theorem validEncodedPath_printedPath {p x : GoString} (hx : unescape .path p = .ok x) :
    validEncodedPath (printedPath p) = true := by
  simp only [printedPath, hx]
  split_ifs with h
  · exact h
  · exact validEncodedPath_escape x

theorem unescape_printedPath {p x : GoString} (hx : unescape .path p = .ok x) :
    unescape .path (printedPath p) = .ok x := by
  simp only [printedPath, hx]
  split_ifs
  · exact hx
  · exact unescape_path_escape x

theorem printedPath_printedPath {p x : GoString} (hx : unescape .path p = .ok x) :
    printedPath (printedPath p) = printedPath p := by
  rw [printedPath, if_pos (validEncodedPath_printedPath hx)]

theorem escape_head {s : GoString} (h : s.head? = some (byte '/')) :
    (escape .path s).head? = some (byte '/') := by
  cases s with
  | nil => simp at h
  | cons c s =>
    obtain rfl : c = byte '/' := by simpa using h
    rfl

theorem unescape_head {s t : GoString} (ht : unescape .path s = .ok t)
    (h : s.head? = some (byte '/')) : t.head? = some (byte '/') := by
  cases s with
  | nil => simp at h
  | cons c s =>
    obtain rfl : c = byte '/' := by simpa using h
    rw [unescape_cons (by decide) (by simp)] at ht
    cases hs : unescape .path s with
    | error e => simp [hs, Except.map] at ht
    | ok r =>
      simp only [hs, Except.map, Except.ok.injEq] at ht
      simp [← ht]

theorem printedPath_head {p x : GoString} (hx : unescape .path p = .ok x)
    (h : p.head? = some (byte '/')) : (printedPath p).head? = some (byte '/') := by
  simp only [printedPath, hx]
  split_ifs
  · exact h
  · exact escape_head (unescape_head hx h)

def isPathText (p : GoString) : Prop := p = [] ∨ p.head? = some (byte '/')

theorem escapedPath_setPath {u v : URL} {p : GoString} (hp : isPathText p)
    (h : setPath u p = .ok v) : v.escapedPath = printedPath p := by
  simp only [setPath] at h
  cases hx : unescape .path p with
  | error e => simp [hx, Except.map] at h
  | ok x =>
    simp only [hx, Except.map, Except.ok.injEq] at h
    subst h
    have hstar : x ≠ str "*" := by
      rintro rfl
      obtain rfl | hp := hp
      · simp [unescape, str] at hx
      · have := unescape_head hx hp
        revert this
        decide
    by_cases he : p = escape .path x
    · simp [URL.escapedPath, printedPath, he, hstar, validEncodedPath_escape]
    · have hne : p ≠ [] := by
        rintro rfl
        simp only [unescape, Except.ok.injEq] at hx
        simp [← hx, escape] at he
      by_cases hv : validEncodedPath p = true
      · simp [URL.escapedPath, printedPath, he, hv, hne, hx]
      · simp [URL.escapedPath, printedPath, he, hv, hstar, hx]

end DnsMonitor.Go.Url
