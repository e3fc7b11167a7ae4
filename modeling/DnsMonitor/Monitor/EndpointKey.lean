import DnsMonitor.Monitor.Endpoint

namespace DnsMonitor.Monitor.EndpointKey

open DnsMonitor.Model DnsMonitor.Monitor.Validate DnsMonitor.Monitor.Stamp
open DnsMonitor.Monitor.Address DnsMonitor.Monitor.Canonical DnsMonitor.Monitor.Endpoint
open DnsMonitor.Go.Strings DnsMonitor.Go.Unicode DnsMonitor.Go.Net DnsMonitor.Go.Errors
open DnsMonitor.Go.Url DnsMonitor.Go.UrlText DnsMonitor.Go.Base64

/-- What an upstream address names. -/
inductive Endpoint where
  | url (scheme host : GoString) (port : Nat) (path query : GoString)
  | dnscrypt (host : GoString) (port : Nat) (publicKey provider : GoString)
deriving DecidableEq

def portNumber (port : GoString) : Nat := ((atoi port).getD 0).toNat

def effectivePort (scheme port : GoString) : Nat :=
  portNumber (if port = [] then defaultPort scheme else port)

def splitField (value : GoString) : GoString × GoString := (splitHostPort value).getD (value, [])

section

variable [CaseTables]

def urlEndpoint (u : URL) : Endpoint :=
  let scheme := toLower u.scheme
  .url scheme (toLower u.hostname) (effectivePort scheme u.port)
    (if isHTTP scheme ∧ u.path = [] then defaultPath else u.escapedPath) u.rawQuery

def fieldEndpoint (scheme value path : GoString) : Endpoint :=
  let (host, port) := splitField value
  .url scheme (toLower host) (effectivePort scheme port) path []

def fieldsEndpoint : Fields → Endpoint
  | .udp addr => fieldEndpoint (str "udp") addr []
  | .dot host => fieldEndpoint (str "tls") host []
  | .doq host => fieldEndpoint (str "quic") host []
  | .doh host path => fieldEndpoint (str "https") host (escape .path path)
  | .dnscrypt addr publicKey provider =>
    let (host, port) := splitField addr
    .dnscrypt host (if port = [] then 443 else portNumber port) publicKey
      (toLower (trimSuffix provider (str ".")))

end

instance (a : GoString) : Decidable (isStamp a) := inferInstanceAs (Decidable (_ = _))

def stampFields (a : GoString) : Option Fields :=
  (decodeString (trimRight (byte '=') (trimPrefix (trimSpace a) (str "sdns://")))).bind readFields

/-- The endpoint of an address, read off the address as it was given. -/
def endpoint [CaseTables] (a : GoString) : Option Endpoint :=
  if isStamp a then (stampFields a).map fieldsEndpoint
  else (parse (withScheme (trimSpace a))).toOption.map urlEndpoint

def fieldsLeftover : Fields → GoString
  | .dnscrypt addr _ _ => if (splitField addr).2 = [] ∧ byte ':' ∈ addr then addr else []
  | _ => []

/-- Spelling that does not change the endpoint: a question mark without a query and, in a
DNSCrypt stamp, a colon without a port. -/
def leftover (a : GoString) : GoString :=
  if isStamp a then ((stampFields a).map fieldsLeftover).getD []
  else
    match parse (withScheme (trimSpace a)) with
    | .ok u => if u.forceQuery then str "?" else []
    | .error _ => []

def fieldsSigned : Fields → Prop
  | .udp value => byte '+' ∈ value
  | .doh value _ => byte '+' ∈ value
  | .dot value => byte '+' ∈ value
  | .doq value => byte '+' ∈ value
  | .dnscrypt _ _ _ => False

/-- The address is a stamp, other than DNSCrypt, whose port is written with a sign. -/
def signedPort (a : GoString) : Prop := isStamp a ∧ ∃ f, stampFields a = some f ∧ fieldsSigned f

def keyText : Endpoint → GoString → GoString
  | .url scheme host port path query, rest =>
    render scheme (host ++ portText (if itoa port = defaultPort scheme then [] else itoa port)) path
      (rest ≠ []) query
  | .dnscrypt host port publicKey provider, rest =>
    str "dnscrypt://" ++
      (if rest = [] then host ++ portText (if port = 443 then [] else itoa port) else rest) ++
      byte '/' :: hexText publicKey ++ byte '/' :: provider

def schemes : List GoString := [str "udp", str "tcp", str "tls", str "https", str "h3", str "quic"]

theorem scheme_facts {scheme : GoString} (h : scheme ∈ schemes) :
    (∀ b ∈ scheme, isAscii b = true) ∧ scheme.map lowerByte = scheme ∧ scheme ≠ [] ∧
      byte ':' ∉ scheme ∧ scheme ≠ str "dnscrypt" ∧
      itoa (portNumber (defaultPort scheme)) = defaultPort scheme ∧ isScheme scheme := by
  simp only [schemes, List.mem_cons, List.not_mem_nil, or_false] at h
  obtain rfl | rfl | rfl | rfl | rfl | rfl := h
  all_goals
    exact ⟨List.all_eq_true.mp (by decide), by decide, by decide, by decide, by decide, by decide,
      ⟨_, rfl, by decide⟩, List.all_eq_true.mp (by decide)⟩

theorem canonicalPort_cases (port : GoString) :
    canonicalPort port = [] ∨ ∃ n, canonicalPort port = itoa n := by
  by_cases h : port = []
  · exact Or.inl (if_pos h)
  · exact Or.inr ⟨_, if_neg h⟩

theorem portText_key {scheme : GoString} (hs : scheme ∈ schemes) (port : GoString) :
    (if itoa (effectivePort scheme port) = defaultPort scheme then []
      else itoa (effectivePort scheme port)) =
    if canonicalPort port = [] ∨ canonicalPort port = defaultPort scheme then []
      else canonicalPort port := by
  by_cases h : port = []
  · have he : itoa (effectivePort scheme port) = defaultPort scheme := by
      rw [effectivePort, if_pos h, (scheme_facts hs).2.2.2.2.2.1]
    have hc : canonicalPort port = [] := if_pos h
    rw [if_pos he, if_pos (Or.inl hc)]
  · have he : itoa (effectivePort scheme port) = canonicalPort port := by
      rw [effectivePort, if_neg h, canonicalPort, if_neg h]
      rfl
    have hne : canonicalPort port ≠ [] := he ▸ itoa_ne_nil _
    simp only [he, hne, false_or]

theorem keyHost_eq {scheme host port : GoString} (h : byte ':' ∉ host) :
    keyHost scheme host port =
      host ++ portText (if port = [] ∨ port = defaultPort scheme then [] else port) := by
  simp only [keyHost]
  split_ifs with hp
  · simp [portText]
  · rw [not_or] at hp
    rw [joinHostPort, if_neg h, portText, if_neg hp.1]

theorem isHostByte_key {name : GoString} (hn : ∀ b ∈ name, isNameByte b = true) {c : Prop}
    [Decidable c] (port : GoString) :
    ∀ b ∈ name ++ portText (if c then [] else canonicalPort port), isHostByte b = true := by
  have hv : validOptionalPort (portText (if c then [] else canonicalPort port)) = true := by
    split_ifs
    · rfl
    · obtain h | ⟨n, h⟩ := canonicalPort_cases port
      · rw [h]
        rfl
      · have hd : ∀ b ∈ itoa n, isDigit b = true := fun b => isDigit_of_mem_itoa
        simpa [h, portText, itoa_ne_nil, validOptionalPort] using hd
  exact host_bytes hn hv

section

variable [CaseTables] {u : URL} {scheme host name port path query : GoString} {force : Bool}

theorem keyURL_scheme (hu : IsParsed u scheme host path force query) (hs : scheme ∈ schemes) :
    toLower u.scheme = scheme := by
  rw [hu.scheme, toLower_ascii (scheme_facts hs).1, (scheme_facts hs).2.1]

theorem toLower_name (hv : validateDomainName name = .ok ()) :
    toLower name = name.map lowerByte :=
  toLower_ascii fun b hb => (host_facts (by
    simp [isHostByte, bytes_of_validateDomainName hv b hb])).2.2.2.2

theorem string_keyURL (hu : IsParsed u scheme host path force query) (hs : scheme ∈ schemes)
    (hh : splitHost host = (name, port)) (hv : validateDomainName name = .ok ())
    (hp : isPathText (printedPath path)) :
    (keyURL u).string = keyText (.url scheme (name.map lowerByte) (effectivePort scheme port)
      (printedPath path) query) (if force then str "?" else []) := by
  have hv' := validateDomainName_lower hv
  have hn := bytes_of_validateDomainName hv'
  have hcolon : byte ':' ∉ name.map lowerByte := fun hm => (name_facts (hn _ hm)).2.2.2.1 rfl
  have hname : u.hostname = name := by rw [URL.hostname, hu.host, hh]
  have hport : u.port = port := by rw [URL.port, hu.host, hh]
  have hscheme : (keyURL u).scheme = scheme := keyURL_scheme hu hs
  have hhost : (keyURL u).host = name.map lowerByte ++ portText
      (if canonicalPort port = [] ∨ canonicalPort port = defaultPort scheme then []
        else canonicalPort port) := by
    simp only [keyURL, keyURL_scheme hu hs, hname, hport, toLower_name hv]
    exact keyHost_eq hcolon
  have hesc : (keyURL u).escapedPath = printedPath path := hu.escapedPath
  have hforce : decide ((if force = true then str "?" else []) ≠ []) = force := by
    cases force <;> simp [str]
  rw [string_eq_render, hscheme, hhost, hesc, keyText, portText_key hs, hforce]
  · exact congrArg₂ (render _ _ _) hu.forceQuery hu.rawQuery
  · rw [hscheme]
    exact (scheme_facts hs).2.2.1
  · exact hu.opaquePart
  · rw [hhost]
    simp [ne_nil_of_validateDomainName hv]
  · rw [hhost]
    exact fun b hb => (host_facts (isHostByte_key hn port b hb)).1
  · exact hu.fragment
  · rwa [hesc]

end

/-- What is known of an endpoint and the rest of its address, enough to read both off the key. -/
def isKeyed : Endpoint → GoString → Prop
  | .url scheme host _ path query, rest =>
    scheme ∈ schemes ∧ (∀ b ∈ host, isNameByte b = true) ∧
      (isPathText path ∧ ∀ b ∈ path, isBodyByte b = true) ∧ (rest = [] ∨ rest = str "?" ∧ query = [])
  | .dnscrypt host port publicKey _, rest =>
    (∃ ip : IPv4, host = ip.string) ∧ publicKey.length = 32 ∧
      (rest = [] ∨ port = 443 ∧ (rest = host ++ [byte ':'] ∨
        rest = byte '[' :: host ++ [byte ']', byte ':']))

theorem known_schemes {up : Upstream} : up.scheme.map lowerByte ∈ schemes :=
  mem_of_protocolOf up.known

theorem not_stamp_render {scheme : GoString} (hs : scheme ∈ schemes) (host path query : GoString)
    (force : Bool) : hasPrefix (render scheme host path force query) (str "sdns://") = false :=
  (render_starts hs host path query force).2.2.2

theorem commandAddress_stamp {e b : GoString} {f : Fields} (hb : decodeString e = some b)
    (hlen : 10 ≤ b.length) (hf : readFields b = some f) :
    commandAddress (str "sdns://" ++ e) = f.command (str "sdns://" ++ e) := by
  have hpre : hasPrefix (str "sdns://" ++ e) (str "sdns://") = true :=
    hasPrefix_iff.mpr (List.prefix_append _ _)
  rw [commandAddress, if_pos hpre, trimPrefix_append, hb]
  dsimp only
  rw [if_neg (by omega), commandStamp_eq hf]

section

variable [CaseTables] {a c : GoString} {p : Protocol}

theorem addressKey_eq (h : validateAddress a = .ok (c, p)) : addressKey a =
    (if hasPrefix (commandAddress c) (str "sdns://") then stampKey (commandAddress c)
      else
        match parse (commandAddress c) with
        | .error _ => .error "parse"
        | .ok u => pure (keyURL u).string) := by
  rw [addressKey, h]
  rfl

theorem addressKey_url (h : validateAddress a = .ok (c, p)) (hs : ¬ isStamp a) :
    ∃ e, endpoint a = some e ∧ isKeyed e (leftover a) ∧
      addressKey a = .ok (keyText e (leftover a)) := by
  obtain ⟨-, ⟨hst, -⟩ | ⟨-, u, hu, hv⟩⟩ := validateAddress_eq_ok.mp h
  · exact absurd hst hs
  obtain ⟨up, -, hp⟩ := exists_upstream hu hv
  rw [Upstream.validateURL_eq hp, Except.ok.injEq, Prod.mk.injEq] at hv
  obtain ⟨rfl, rfl⟩ := hv
  have hleft : leftover a = if up.forceQuery then str "?" else [] := by
    simp [leftover, hs, hu, hp.forceQuery]
  have hend : endpoint a = some (.url (up.scheme.map lowerByte) (up.name.map lowerByte)
      (effectivePort (up.scheme.map lowerByte) up.port) up.canonicalPath up.rawQuery) := by
    have hpath : (if isHTTP (up.scheme.map lowerByte) ∧ u.path = [] then defaultPath
        else u.escapedPath) = up.canonicalPath := by
      simp only [hp.escapedPath, hp.path_eq_nil]
      rfl
    simp [endpoint, hs, hu, Except.toOption, urlEndpoint, Upstream.toLower_scheme hp, URL.hostname,
      URL.port, Upstream.splitHost_eq hp, toLower_name up.validName, hpath, hp.rawQuery]
  obtain ⟨hpt, hbody, hprint, -⟩ := up.canonicalPath_facts
  refine ⟨_, hend, ⟨known_schemes, ?_, ⟨hpt, hbody⟩, ?_⟩, ?_⟩
  · exact bytes_of_validateDomainName (validateDomainName_lower up.validName)
  · rw [hleft]
    cases hf : up.forceQuery with
    | true => exact Or.inr ⟨rfl, up.isRendered.force hf⟩
    | false => exact Or.inl rfl
  · obtain ⟨u', hu', hp'⟩ := up.canonical.parse_text
    have hcommand : commandAddress up.canonical.text = up.canonical.text := by
      rw [commandAddress, not_stamp_text]
      rfl
    rw [addressKey_eq h, hcommand, not_stamp_text, if_neg (by simp), hu']
    have hsplit := splitHost_name up.canonical.name_bytes up.canonical.validOptionalPort
    rw [up.canonical.tail_portText] at hsplit
    have hpt' : isPathText (printedPath up.canonical.path) := by
      rw [show printedPath up.canonical.path = up.canonicalPath from hprint]
      exact hpt
    have hkey := string_keyURL hp' known_schemes hsplit up.canonical.validName hpt'
    have hprint' : printedPath up.canonical.path = up.canonicalPath := hprint
    have hname : up.canonical.name.map lowerByte = up.name.map lowerByte :=
      map_lowerByte_lowerByte up.name
    have hscheme : up.canonical.scheme.map lowerByte = up.scheme.map lowerByte :=
      map_lowerByte_lowerByte up.scheme
    rw [hprint', hname, hscheme] at hkey
    rw [hleft]
    exact congrArg Except.ok hkey

theorem stampFields_of_validateAddress (h : validateAddress a = .ok (c, p)) (hs : isStamp a) :
    ∃ b f, c = str "sdns://" ++ trimRight (byte '=') (trimPrefix (trimSpace a) (str "sdns://")) ∧
      decodeString (trimRight (byte '=') (trimPrefix (trimSpace a) (str "sdns://"))) = some b ∧
      10 ≤ b.length ∧ readFields b = some f ∧ f.isValid := by
  obtain ⟨-, ⟨-, hv, hc⟩ | ⟨hn, -⟩⟩ := validateAddress_eq_ok.mp h
  · obtain ⟨b, f, hb, hlen, hf, hvalid, -⟩ := validateStamp_eq_ok hv
    exact ⟨b, f, hc, hb, hlen, hf, hvalid⟩
  · exact absurd hs hn

end

section Stamps

variable {value name port : GoString}

theorem splitField_eq (h : IsHostField value name port) :
    splitField value = (name, port) := by
  obtain ⟨rfl, rfl, hs⟩ | hs := h.split <;> simp [splitField, hs]

variable [CaseTables]

theorem fieldEndpoint_eq (h : IsHostField value name port) (scheme path : GoString) :
    fieldEndpoint scheme value path =
      .url scheme (name.map lowerByte) (effectivePort scheme port) path [] := by
  simp only [fieldEndpoint, splitField_eq h, toLower_name h.validName]

structure IsPrinted (path : GoString) : Prop where
  isPathText : isPathText path
  bytes : ∀ b ∈ path, isBodyByte b = true
  decodable : ∃ x, unescape .path path = .ok x
  printed : printedPath path = path

omit [CaseTables] in
theorem isPrinted_nil : IsPrinted [] := ⟨Or.inl rfl, by simp, ⟨[], rfl⟩, printedPath_nil⟩

omit [CaseTables] in
theorem isPrinted_escape {path : GoString} (h : hasPrefix path (str "/") = true) :
    IsPrinted (escape .path path) := by
  obtain ⟨t, ht⟩ := hasPrefix_iff.mp h
  refine ⟨Or.inr (escape_head (by rw [← ht]; rfl)), ?_, ⟨path, unescape_path_escape path⟩, ?_⟩
  · exact fun b hb => body_of_path (isPathByte_escape path b hb)
  · exact if_pos (validEncodedPath_escape path)

theorem key_field (h : IsHostField value name port) {scheme path : GoString}
    (hs : scheme ∈ schemes) (hp : IsPrinted path) :
    (byte '+' ∈ value → ∃ e, parse (render scheme value path false []) = .error e) ∧
      (byte '+' ∉ value → ∃ u, parse (render scheme value path false []) = .ok u ∧
        (keyURL u).string = keyText (fieldEndpoint scheme value path) []) := by
  have hr := h.isRendered (scheme_facts hs).2.2.2.2.2.2 hp.isPathText hp.bytes
  constructor
  · intro hplus
    exact ⟨_, by rw [parse_render hr, h.parseHost_plus hplus]; rfl⟩
  · intro hplus
    obtain ⟨hhost, hsplit⟩ := h.parseHost_eq hplus
    obtain ⟨u, hu, hparsed⟩ := parse_render_ok hr hhost hp.decodable
    rw [(scheme_facts hs).2.1] at hparsed
    have hkey := string_keyURL hparsed hs hsplit h.validName
      (by rw [hp.printed]; exact hp.isPathText)
    rw [hp.printed] at hkey
    exact ⟨u, hu, by rw [hkey, fieldEndpoint_eq h]; rfl⟩

theorem isKeyed_field (h : IsHostField value name port) {scheme path : GoString}
    (hs : scheme ∈ schemes) (hp : IsPrinted path) : isKeyed (fieldEndpoint scheme value path) [] := by
  rw [fieldEndpoint_eq h]
  exact ⟨hs, bytes_of_validateDomainName (validateDomainName_lower h.validName),
    ⟨hp.isPathText, hp.bytes⟩, Or.inl rfl⟩

end Stamps

section DNSCrypt

variable {addr port : GoString} {ip : IPv4}

/-- A DNSCrypt endpoint in its key: without the port 443, and as written when the port is
empty. -/
theorem keyEndpoint_eq (h : IsHostField addr ip.string port) (publicKey provider : GoString) :
    keyEndpoint addr =
      (if fieldsLeftover (.dnscrypt addr publicKey provider) = [] then ip.string ++ portText
        (if (if port = [] then 443 else portNumber port) = 443 then []
          else itoa (if port = [] then 443 else portNumber port))
      else fieldsLeftover (.dnscrypt addr publicKey provider)) := by
  have hcolon : byte ':' ∉ ip.string := ip.not_mem_string (by decide) (by decide)
  obtain ⟨rfl, rfl, hs⟩ | hs := h.split
  · simp [keyEndpoint, fieldsLeftover, hs, hcolon, portText]
  · have hmem : byte ':' ∈ addr := by
      obtain ⟨-, -, -, -, -, ⟨rfl, -⟩ | rfl⟩ := splitHostPort_eq_some hs <;> simp
    have hne : addr ≠ [] := List.ne_nil_of_mem hmem
    by_cases hp : port = []
    · subst hp
      have hatoi : atoi [] = none := rfl
      simp [keyEndpoint, fieldsLeftover, splitField, hs, hatoi, hmem, hne]
    · obtain ⟨n, hn, h1, h2⟩ := (validatePort_eq_ok.mp h.validPort).resolve_left hp
      have hnum : portNumber port = n.toNat := by rw [portNumber, hn]; rfl
      have hiff : n = 443 ↔ n.toNat = 443 := by omega
      simp only [keyEndpoint, fieldsLeftover, splitField, hs, hn, hp, hnum, Option.getD_some,
        false_and, if_false, if_true, joinHostPort, hcolon, hiff]
      split_ifs with h443
      · simp [portText]
      · simp [portText, itoa_ne_nil]

theorem isKeyed_dnscrypt (h : IsHostField addr ip.string port) {publicKey : GoString}
    (hlen : publicKey.length = 32) (provider : GoString) [CaseTables] :
    isKeyed (fieldsEndpoint (.dnscrypt addr publicKey provider))
      (fieldsLeftover (.dnscrypt addr publicKey provider)) := by
  simp only [fieldsEndpoint, fieldsLeftover, splitField_eq h]
  refine ⟨⟨ip, rfl⟩, hlen, ?_⟩
  by_cases hl : port = [] ∧ byte ':' ∈ addr
  · obtain ⟨rfl, hmem⟩ := hl
    rw [if_pos ⟨rfl, hmem⟩, if_pos rfl]
    refine Or.inr ⟨rfl, ?_⟩
    obtain ⟨rfl, -⟩ | rfl | rfl := h.text
    · exact absurd hmem (ip.not_mem_string (by decide) (by decide))
    · exact Or.inl rfl
    · exact Or.inr rfl
  · rw [if_neg hl]
    exact Or.inl rfl

end DNSCrypt

theorem readFields_dnscrypt {b addr publicKey provider : GoString}
    (h : readFields b = some (.dnscrypt addr publicKey provider)) : b.headD 0 = 1 ∧
      ∃ s t u, readLP (b.drop 9) = .ok (addr, s) ∧ readLP s = .ok (publicKey, t) ∧
        readLP t = .ok (provider, u) := by
  simp only [readFields, Option.bind_eq_bind, Option.bind_eq_some_iff, toOption_eq_some] at h
  obtain ⟨⟨addr', s⟩, hr, h⟩ := h
  split_ifs at h with h0 h1
  · simp at h
  · simp only [Option.bind_eq_some_iff, toOption_eq_some, Option.some.injEq,
      Fields.dnscrypt.injEq] at h
    obtain ⟨⟨k, t⟩, hk, ⟨v, u⟩, hv, rfl, rfl, rfl⟩ := h
    exact ⟨h1, s, t, u, hr, hk, hv⟩
  all_goals simp [Option.bind_eq_some_iff] at h

theorem render_field (scheme value : GoString) :
    render scheme value [] false [] = scheme ++ str "://" ++ value := by
  simp [render, queryText, str]

theorem string_doh {host path : GoString} (hne : host ≠ [])
    (hesc : ∀ b ∈ host, shouldEscape .host b = false) (hp : hasPrefix path (str "/") = true) :
    ({ scheme := str "https", host := host, path := path : URL }).string =
      render (str "https") host (escape .path path) false [] := by
  obtain ⟨t, ht⟩ := hasPrefix_iff.mp hp
  have hhead : path.head? = some (byte '/') := by
    rw [← ht]
    rfl
  have hstar : path ≠ str "*" := by
    rintro rfl
    exact absurd hhead (by decide)
  have hpath : ({ scheme := str "https", host := host, path := path : URL }).escapedPath =
      escape .path path := by
    simp [URL.escapedPath, hstar]
  rw [string_eq_render (by simp [str]) rfl hne hesc rfl (hpath ▸ Or.inr (escape_head hhead)), hpath]

section

variable [CaseTables] {a c : GoString} {p : Protocol}

def isKeyOf (a : GoString) (f : Fields) : Prop :=
  isKeyed (fieldsEndpoint f) (fieldsLeftover f) ∧
    (fieldsSigned f → ∃ e, addressKey a = .error e) ∧
    (¬ fieldsSigned f → addressKey a = .ok (keyText (fieldsEndpoint f) (fieldsLeftover f)))

theorem isKeyOf_url {f : Fields} {scheme value name port path : GoString}
    (h : validateAddress a = .ok (c, p)) (hfield : IsHostField value name port)
    (hs : scheme ∈ schemes) (hp : IsPrinted path)
    (hcommand : commandAddress c = render scheme value path false [])
    (hend : fieldsEndpoint f = fieldEndpoint scheme value path) (hleft : fieldsLeftover f = [])
    (hsigned : fieldsSigned f ↔ byte '+' ∈ value) : isKeyOf a f := by
  have hkey := addressKey_eq h
  rw [hcommand, not_stamp_render hs, if_neg (by simp)] at hkey
  obtain ⟨hbad, hgood⟩ := key_field hfield hs hp
  rw [isKeyOf, hend, hleft, hsigned]
  refine ⟨isKeyed_field hfield hs hp, fun hplus => ?_, fun hplus => ?_⟩
  · obtain ⟨e, he⟩ := hbad hplus
    rw [hkey, he]
    exact ⟨_, rfl⟩
  · obtain ⟨u, hu, hstring⟩ := hgood hplus
    rw [hkey, hu, ← hstring]
    rfl

theorem isKeyOf_dnscrypt {e b addr publicKey provider : GoString}
    (h : validateAddress a = .ok (str "sdns://" ++ e, p)) (hb : decodeString e = some b)
    (hlen : 10 ≤ b.length) (hf : readFields b = some (.dnscrypt addr publicKey provider))
    (hvalid : Fields.isValid (.dnscrypt addr publicKey provider)) :
    isKeyOf a (.dnscrypt addr publicKey provider) := by
  obtain ⟨ip, port, hfield⟩ := isHostField_of_stampAddress (by decide) hvalid.1
  obtain ⟨hhead, s, t, u, h1, h2, h3⟩ := readFields_dnscrypt hf
  have hkey := addressKey_eq h
  have hpre : hasPrefix (str "sdns://" ++ e) (str "sdns://") = true :=
    hasPrefix_iff.mpr (List.prefix_append _ _)
  rw [commandAddress_stamp hb hlen hf, Fields.command, if_pos hpre, stampKey,
    trimPrefix_append, hb] at hkey
  refine ⟨isKeyed_dnscrypt hfield hvalid.2.1 provider, fun hs => absurd hs id, fun _ => ?_⟩
  rw [hkey]
  simp only [bind_eq_ok, require_eq_ok, pure_eq_ok]
  refine ⟨(), ⟨hlen, hhead⟩, _, h1, _, h2, _, h3, ?_⟩
  simp only [fieldsEndpoint, splitField_eq hfield, keyText]
  rw [keyEndpoint_eq hfield publicKey provider]

/-- The key of a stamp is that of the endpoint its fields name, unless the port of a URL is
written with a sign. -/
theorem addressKey_stamp (h : validateAddress a = .ok (c, p)) (hs : isStamp a) :
    ∃ f, stampFields a = some f ∧ isKeyOf a f := by
  obtain ⟨b, f, hc, hb, hlen, hf, hvalid⟩ := stampFields_of_validateAddress h hs
  have hcommand := commandAddress_stamp hb hlen hf
  rw [hc] at h
  refine ⟨f, by rw [stampFields, hb]; exact hf, ?_⟩
  cases f with
  | udp addr =>
    obtain ⟨ip, port, hfield⟩ := isHostField_of_stampAddress (by decide) hvalid
    refine isKeyOf_url h hfield (show str "udp" ∈ schemes by decide)
      isPrinted_nil ?_ rfl rfl Iff.rfl
    rw [hcommand, render_field]
    rfl
  | dot host =>
    obtain ⟨name, port, hfield⟩ := isHostField_of_stampHost hvalid
    refine isKeyOf_url h hfield (show str "tls" ∈ schemes by decide)
      isPrinted_nil ?_ rfl rfl Iff.rfl
    rw [hcommand, render_field]
    rfl
  | doq host =>
    obtain ⟨name, port, hfield⟩ := isHostField_of_stampHost hvalid
    refine isKeyOf_url h hfield (show str "quic" ∈ schemes by decide)
      isPrinted_nil ?_ rfl rfl Iff.rfl
    rw [hcommand, render_field]
    rfl
  | doh host path =>
    obtain ⟨name, port, hfield⟩ := isHostField_of_stampHost hvalid.1
    refine isKeyOf_url h hfield (show str "https" ∈ schemes by decide)
      (isPrinted_escape hvalid.2) ?_ rfl rfl Iff.rfl
    rw [hcommand, Fields.command,
      string_doh hfield.ne_nil (fun b hb => (field_facts (hfield.bytes b hb)).1) hvalid.2]
  | dnscrypt addr publicKey provider => exact isKeyOf_dnscrypt h hb hlen hf hvalid

end

end DnsMonitor.Monitor.EndpointKey
