import DnsMonitor.Monitor.Canonical

namespace DnsMonitor.Monitor.Endpoint

open DnsMonitor.Model DnsMonitor.Monitor.Validate DnsMonitor.Monitor.Stamp
open DnsMonitor.Monitor.Address DnsMonitor.Monitor.Canonical
open DnsMonitor.Go.Strings DnsMonitor.Go.Unicode DnsMonitor.Go.Net DnsMonitor.Go.Errors
open DnsMonitor.Go.Url DnsMonitor.Go.UrlText DnsMonitor.Go.Base64

def defaultPort (scheme : GoString) : GoString :=
  if scheme = str "udp" ∨ scheme = str "tcp" then str "53"
  else if scheme = str "tls" ∨ scheme = str "quic" then str "853"
  else if scheme = str "https" ∨ scheme = str "h3" then str "443"
  else []

def canonicalPort (port : GoString) : GoString :=
  if port = [] then [] else itoa ((atoi port).getD 0).toNat

def keyHost (scheme host port : GoString) : GoString :=
  if port = [] ∨ port = defaultPort scheme then host else joinHostPort host port

def hexText (s : GoString) : GoString :=
  s.flatMap fun b => [lowerByte (upperHex (b.toNat / 16)), lowerByte (upperHex (b.toNat % 16))]

/-- The endpoint of a DNSCrypt stamp without the default port and without leading zeros. -/
def keyEndpoint (endpoint : GoString) : GoString :=
  match splitHostPort endpoint with
  | none => endpoint
  | some (host, port) =>
    match atoi port with
    | none => endpoint
    | some n => if n = 443 then host else joinHostPort host (itoa n.toNat)

section

variable [CaseTables]

def keyURL (u : URL) : URL :=
  let scheme := toLower u.scheme
  { u with scheme, host := keyHost scheme (toLower u.hostname) (canonicalPort u.port) }

/-- The reads are unchecked in the source. An accepted stamp has all three fields. -/
def stampKey (address : GoString) : Except String GoString :=
  match decodeString (trimPrefix address (str "sdns://")) with
  | none => .error "无法规范化 DNS stamp"
  | some b => do
    require (10 ≤ b.length ∧ b.headD 0 = 1) "无法规范化 DNS stamp"
    let (endpoint, s) ← readLP (b.drop 9)
    let (key, s) ← readLP s
    let (provider, _) ← readLP s
    pure (str "dnscrypt://" ++ keyEndpoint endpoint ++ byte '/' :: hexText key ++
      byte '/' :: toLower (trimSuffix provider (str ".")))

def addressKey (address : GoString) : Except String GoString := do
  let (canonical, _) ← validateAddress address
  let address := commandAddress canonical
  if hasPrefix address (str "sdns://") then stampKey address
  else
    match parse address with
    | .error _ => .error "parse"
    | .ok u => pure (keyURL u).string

end

structure IsHostField (value name port : GoString) : Prop where
  validName : validateDomainName name = .ok ()
  validPort : validatePort port = .ok ()
  split : value = name ∧ port = [] ∧ splitHostPort value = none ∨
    splitHostPort value = some (name, port)

theorem splitHostPort_of_no_colon {value : GoString} (h : byte ':' ∉ value) :
    splitHostPort value = none := by
  rw [splitHostPort, cutLast_eq_none.mpr h]

theorem isHostField_of_stampHost {value : GoString} (h : validateStampHost value = .ok ()) :
    ∃ name port, IsHostField value name port := by
  simp only [validateStampHost] at h
  split_ifs at h with hc
  · split at h
    · simp at h
    · next host port hs =>
      simp only [bind_eq_ok, require_eq_ok] at h
      obtain ⟨_, -, _, hp, hh⟩ := h
      exact ⟨host, port, validateHost_eq_ok.mp hh, hp, Or.inr hs⟩
  · exact ⟨value, [], validateHost_eq_ok.mp h, rfl,
      Or.inl ⟨rfl, rfl, splitHostPort_of_no_colon hc⟩⟩

theorem isHostField_of_stampAddress {p : UInt8} {addr : GoString} (hp : p < 2)
    (h : validateStampAddress p addr = .ok ()) :
    ∃ (ip : IPv4) (port : GoString), IsHostField addr ip.string port := by
  have hp' : ¬ 2 ≤ p := UInt8.not_le.mpr hp
  have hip : ∀ {host : GoString}, ((parseIP host).bind IP.to4).isSome = true → byte ':' ∉ host →
      ∃ ip : IPv4, host = ip.string := by
    intro host hsome hc
    rw [parseIP_of_no_colon hc] at hsome
    cases h4 : parseIPv4 host with
    | none => simp [h4] at hsome
    | some ip => exact ⟨ip, parseIPv4_eq_some h4⟩
  simp only [validateStampAddress, hp', and_false, if_false] at h
  split_ifs at h with hne
  · obtain ⟨host, hh, hr⟩ := bind_eq_ok.mp h
    obtain ⟨hsome, hcolon⟩ := require_eq_ok.mp hr
    obtain ⟨ip, rfl⟩ := hip hsome hcolon
    simp only [stampAddressHost, hp', if_false] at hh
    split_ifs at hh with hc
    · split at hh
      · simp at hh
      · next host port hs =>
        simp only [bind_eq_ok, pure_eq_ok] at hh
        obtain ⟨_, hport, rfl⟩ := hh
        exact ⟨ip, port, validateDomainName_string ip, hport, Or.inr hs⟩
    · obtain rfl := Except.ok.inj hh
      exact ⟨ip, [], validateDomainName_string ip, rfl,
        Or.inl ⟨rfl, rfl, splitHostPort_of_no_colon hc⟩⟩
  · exact absurd hp (require_eq_ok.mp h)

theorem digits_of_validatePort {port : GoString} (h : validatePort port = .ok ())
    (hplus : byte '+' ∉ port) : ∀ b ∈ port, isDigit b = true := by
  obtain rfl | ⟨n, hn, h1, -⟩ := validatePort_eq_ok.mp h
  · simp
  · simp only [atoi] at hn
    split_ifs at hn with hminus hp
    · obtain ⟨k, -, hk⟩ := Option.bind_eq_some_iff.mp hn
      split_ifs at hk
      rw [Option.some.injEq] at hk
      omega
    · exact absurd (List.mem_of_mem_head? hp) hplus
    · obtain ⟨k, hk, -⟩ := Option.bind_eq_some_iff.mp hn
      exact parseDigits_bytes hk

def isFieldByte (b : UInt8) : Bool := isHostByte b || b = byte '+'

theorem field_facts {b : UInt8} (h : isFieldByte b = true) :
    shouldEscape .host b = false ∧ isAuthorityByte b = true ∧ b ≠ byte '/' := by
  simp only [isFieldByte, Bool.or_eq_true, decide_eq_true_eq] at h
  obtain hhost | rfl := h
  · obtain ⟨hesc, hauth, -⟩ := host_facts hhost
    exact ⟨hesc, hauth, (body_of_authority hauth).2.1⟩
  · decide

theorem isFieldByte_of_atoi {b : UInt8} (h : isAtoiByte b = true) : isFieldByte b = true := by
  simp only [isAtoiByte, Bool.or_eq_true, decide_eq_true_eq] at h
  obtain (hdigit | rfl) | rfl := h
  · simp [isFieldByte, isHostByte, name_of_digit hdigit]
  all_goals decide

namespace IsHostField

variable {value name port : GoString} (h : IsHostField value name port)

include h

theorem text : value = name ∧ port = [] ∨ value = name ++ byte ':' :: port ∨
    value = byte '[' :: name ++ byte ']' :: byte ':' :: port := by
  obtain ⟨hv, hp, -⟩ | hs := h.split
  · exact Or.inl ⟨hv, hp⟩
  · exact Or.inr ((splitHostPort_eq_some hs).2.2.2.2.2.imp_left And.left)

theorem name_bytes : ∀ b ∈ name, isNameByte b = true := bytes_of_validateDomainName h.validName

theorem port_bytes : ∀ b ∈ port, isAtoiByte b = true := bytes_of_validatePort h.validPort

theorem bytes : ∀ b ∈ value, isFieldByte b = true := by
  have hn : ∀ b ∈ name, isFieldByte b = true := fun b hb => by
    simp [isFieldByte, isHostByte, h.name_bytes b hb]
  have hp : ∀ b ∈ port, isFieldByte b = true := fun b hb => isFieldByte_of_atoi (h.port_bytes b hb)
  intro b hb
  obtain ⟨rfl, -⟩ | rfl | rfl := h.text
  · exact hn b hb
  · cases List.mem_append.mp hb with
    | inl hb => exact hn b hb
    | inr hb =>
      obtain rfl | hb := List.mem_cons.mp hb
      · decide
      · exact hp b hb
  · simp only [List.cons_append, List.mem_cons, List.mem_append] at hb
    obtain rfl | hb | rfl | rfl | hb := hb
    · decide
    · exact hn b hb
    · decide
    · decide
    · exact hp b hb

theorem ne_nil : value ≠ [] := by
  obtain ⟨rfl, -⟩ | rfl | rfl := h.text
  · exact ne_nil_of_validateDomainName h.validName
  · simp
  · simp

theorem plus_mem_iff : byte '+' ∈ value ↔ byte '+' ∈ port := by
  have hn : byte '+' ∉ name := fun hm => absurd (h.name_bytes _ hm) (by decide)
  have h1 : byte '+' ≠ byte ':' := by decide
  have h2 : byte '+' ≠ byte '[' := by decide
  have h3 : byte '+' ≠ byte ']' := by decide
  obtain ⟨rfl, rfl⟩ | rfl | rfl := h.text <;> simp [hn, h1, h2, h3]

theorem parseHost_eq (hp : byte '+' ∉ value) :
    parseHost value = .ok value ∧ splitHost value = (name, port) := by
  have hd := digits_of_validatePort h.validPort (mt h.plus_mem_iff.mpr hp)
  have hv : validOptionalPort (byte ':' :: port) = true := by simpa [validOptionalPort] using hd
  obtain ⟨rfl, rfl⟩ | rfl | rfl := h.text
  · have hnil : validOptionalPort [] = true := rfl
    have h1 := parseHost_name h.name_bytes hnil
    have h2 := splitHost_name h.name_bytes hnil
    rw [List.append_nil] at h1 h2
    exact ⟨h1, h2⟩
  · exact ⟨parseHost_name h.name_bytes hv, splitHost_name h.name_bytes hv⟩
  · exact ⟨parseHost_bracketed h.name_bytes hv, splitHost_bracketed h.name_bytes hv⟩

/-- A port with a sign passes `Atoi` but is no port for `net/url`. -/
theorem parseHost_plus (hp : byte '+' ∈ value) :
    parseHost value = .error (.invalidPort (byte ':' :: port)) := by
  have hport : byte '+' ∈ port := h.plus_mem_iff.mp hp
  have hv : validOptionalPort (byte ':' :: port) = false := by
    refine Bool.eq_false_iff.mpr fun hv => ?_
    simp only [validOptionalPort, Bool.and_eq_true, List.all_eq_true] at hv
    exact absurd (hv.2 _ hport) (by decide)
  have hno : ∀ c, isAtoiByte c = false → c ∉ port := fun c hc hm => by
    simp [h.port_bytes c hm] at hc
  obtain ⟨-, rfl⟩ | rfl | rfl := h.text
  · simp at hport
  · have hcut : cutLast (byte ':') (name ++ byte ':' :: port) = some (name, port) :=
      cutLast_append name (hno _ (by decide))
    have hhead : (name ++ byte ':' :: port).head? ≠ some (byte '[') := by
      obtain ⟨c, t, rfl⟩ := List.exists_cons_of_ne_nil (ne_nil_of_validateDomainName h.validName)
      have hc := (name_facts (h.name_bytes c (by simp))).2.2.2.2.2.1
      simpa using hc
    rw [parseHost, if_neg hhead, hcut]
    simp [hv]
  · have hmem : byte ']' ∉ byte ':' :: port := by
      rw [List.mem_cons, not_or]
      exact ⟨by decide, hno _ (by decide)⟩
    have hcut : cutLast (byte ']') (byte '[' :: name ++ byte ']' :: byte ':' :: port) =
        some (byte '[' :: name, byte ':' :: port) := cutLast_append _ hmem
    have hhead : (byte '[' :: name ++ byte ']' :: byte ':' :: port).head? = some (byte '[') := rfl
    rw [parseHost, if_pos hhead, hcut]
    simp [hv]

theorem isRendered {scheme path : GoString} (hs : isScheme scheme) (hp : isPathText path)
    (hb : ∀ b ∈ path, isBodyByte b = true) : IsRendered scheme value path false [] :=
  ⟨hs, fun b hb => (field_facts (h.bytes b hb)).2.1, hp, hb, by simp, by simp⟩

end IsHostField

end DnsMonitor.Monitor.Endpoint
