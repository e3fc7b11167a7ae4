import DnsMonitor.Monitor.Stamp

namespace DnsMonitor.Monitor.Address

open DnsMonitor.Model DnsMonitor.Monitor.Validate DnsMonitor.Monitor.Stamp
open DnsMonitor.Go.Strings DnsMonitor.Go.Unicode DnsMonitor.Go.Net DnsMonitor.Go.Errors
open DnsMonitor.Go.Url DnsMonitor.Go.UrlText

def protocolOf (scheme : GoString) : Option Protocol :=
  if scheme = str "udp" then some .udp
  else if scheme = str "tcp" then some .tcp
  else if scheme = str "tls" then some .dot
  else if scheme = str "https" then some .doh
  else if scheme = str "h3" then some .doh3
  else if scheme = str "quic" then some .doq
  else none

def isHTTP (scheme : GoString) : Bool := scheme = str "https" || scheme = str "h3"

def isPlain (scheme : GoString) : Bool := scheme = str "udp" || scheme = str "tcp"

def defaultPath : GoString := str "/dns-query"

section

variable [CaseTables]

def canonicalURL (u : URL) : URL :=
  let scheme := toLower u.scheme
  let path := if isHTTP scheme ∧ u.path = [] then defaultPath else u.path
  { u with scheme, path, host := toLower u.host }

def validateURL (u : URL) : Except String (GoString × Protocol) := do
  require (u.user = none ∧ u.fragment = [] ∧ u.opaquePart = [])
    "DNS 地址格式无效；不支持凭据、URL 片段或不安全 TLS 参数"
  let scheme := toLower u.scheme
  match protocolOf scheme with
  | none => .error "支持 UDP、TCP、tls://、https://、h3://、quic:// 和 sdns://"
  | some p =>
    validateHost u.hostname
    require (byte '[' ∉ u.host) "仅支持 IPv4，不支持 IPv6 地址"
    validatePort u.port
    require (hasSuffix u.host (str ":") = false) "端口不能为空"
    require (isHTTP scheme = true ∨ u.path = [] ∧ u.rawQuery = [])
      "只有 HTTPS/HTTP3 上游可以包含路径和查询参数"
    require (isPlain scheme = true → ((parseIP u.hostname).bind IP.to4).isSome)
      "普通 UDP/TCP 上游请填写 IPv4 地址，避免依赖系统 DNS"
    pure ((canonicalURL u).string, p)

def withScheme (a : GoString) : GoString :=
  if contains a (str "://") then a else str "udp://" ++ a

def validateAddress (address : GoString) : Except String (GoString × Protocol) := do
  let a := trimSpace address
  require (¬ (a = [] ∨ 4096 < a.length ∨ containsSpace a))
    "DNS 地址不能为空、包含空白或超过 4096 字节"
  require (¬ (hasPrefix a (str "[/") ∨ a = str "#"))
    "请填写单个上游地址；不支持 AdGuard 分流规则或系统 DNS 占位符"
  if hasPrefix a (str "sdns://") then
    let p ← validateStamp (trimPrefix a (str "sdns://"))
    pure (str "sdns://" ++ trimRight (byte '=') (trimPrefix a (str "sdns://")), p)
  else
    match parse (withScheme a) with
    | .error _ => .error "DNS 地址格式无效；不支持凭据、URL 片段或不安全 TLS 参数"
    | .ok u => validateURL u

end

def portText (port : GoString) : GoString := if port = [] then [] else byte ':' :: port

theorem defaultPath_facts : isPathText defaultPath ∧ (∀ b ∈ defaultPath, isBodyByte b = true) ∧
    printedPath defaultPath = defaultPath ∧ ∃ x, unescape .path defaultPath = .ok x := by
  refine ⟨Or.inr rfl, List.all_eq_true.mp (by decide), by decide +kernel, defaultPath,
    by decide +kernel⟩

structure Upstream where
  scheme : GoString
  name : GoString
  port : GoString
  path : GoString
  forceQuery : Bool
  rawQuery : GoString
  protocol : Protocol
  isRendered : IsRendered scheme (name ++ portText port) path forceQuery rawQuery
  known : protocolOf (scheme.map lowerByte) = some protocol
  validName : validateDomainName name = .ok ()
  digits : ∀ b ∈ port, isDigit b = true
  validPort : validatePort port = .ok ()
  decodable : ∃ x, unescape .path path = .ok x
  bare : isHTTP (scheme.map lowerByte) = true ∨ path = [] ∧ rawQuery = []
  plain : isPlain (scheme.map lowerByte) = true → ∃ ip : IPv4, name = ip.string

namespace Upstream

variable (up : Upstream)

def text : GoString :=
  render up.scheme (up.name ++ portText up.port) up.path up.forceQuery up.rawQuery

def canonicalPath : GoString :=
  if isHTTP (up.scheme.map lowerByte) ∧ up.path = [] then defaultPath else printedPath up.path

theorem validOptionalPort : validOptionalPort (portText up.port) = true := by
  by_cases h : up.port = []
  · simp [portText, h, Go.Url.validOptionalPort]
  · simpa [portText, h, Go.Url.validOptionalPort] using up.digits

theorem name_bytes : ∀ b ∈ up.name, isNameByte b = true := bytes_of_validateDomainName up.validName

theorem canonicalPath_facts : isPathText up.canonicalPath ∧
    (∀ b ∈ up.canonicalPath, isBodyByte b = true) ∧ printedPath up.canonicalPath = up.canonicalPath ∧
    ∃ x, unescape .path up.canonicalPath = .ok x := by
  obtain ⟨x, hx⟩ := up.decodable
  simp only [canonicalPath]
  split_ifs with h
  · exact defaultPath_facts
  · refine ⟨?_, fun b hb => body_of_path (printedPath_bytes hx b hb), printedPath_printedPath hx,
      x, unescape_printedPath hx⟩
    cases up.isRendered.isPathText with
    | inl hp => exact Or.inl (by rw [hp, printedPath_nil])
    | inr hp => exact Or.inr (printedPath_head hx hp)

end Upstream

theorem lowerByte_facts : ∀ b, lowerByte (lowerByte b) = lowerByte b ∧
    (isLetter b = true → isLetter (lowerByte b) = true) ∧
    (isSchemeByte b = true → isSchemeByte (lowerByte b) = true ∧ isAscii (lowerByte b) = true) ∧
    (isDigit b = true ∨ b = byte '.' ∨ b = byte ':' → lowerByte b = b) := by
  apply forall_byte
  decide +kernel

theorem lowerByte_lowerByte (b : UInt8) : lowerByte (lowerByte b) = lowerByte b :=
  (lowerByte_facts b).1

theorem map_lowerByte_lowerByte (s : GoString) :
    (s.map lowerByte).map lowerByte = s.map lowerByte := by
  simp [lowerByte_lowerByte]

theorem isScheme_lower {s : GoString} (h : isScheme s) : isScheme (s.map lowerByte) := by
  obtain ⟨⟨b, hb, hlb⟩, hsb⟩ := h
  refine ⟨⟨lowerByte b, by simpa using ⟨b, hb, rfl⟩, (lowerByte_facts b).2.1 hlb⟩, fun c hc => ?_⟩
  obtain ⟨a, ha, rfl⟩ := List.mem_map.mp hc
  exact ((lowerByte_facts a).2.2.1 (hsb a ha)).1

theorem toLower_isScheme [CaseTables] {s : GoString} (h : isScheme s) :
    toLower (s.map lowerByte) = s.map lowerByte := by
  rw [toLower_ascii, map_lowerByte_lowerByte]
  intro b hb
  obtain ⟨c, hc, rfl⟩ := List.mem_map.mp hb
  exact ((lowerByte_facts c).2.2.1 (h.2 c hc)).2

theorem map_lowerByte_eq {s : GoString} (h : ∀ b ∈ s, isDigit b = true ∨ b = byte '.') :
    s.map lowerByte = s := by
  have hall : ∀ b ∈ s, lowerByte b = b := fun b hb =>
    (lowerByte_facts b).2.2.2 ((h b hb).imp_right .inl)
  exact (List.map_congr_left hall).trans (List.map_id' _)

/-- The upstream with scheme and host in small letters and with its path as it is printed. -/
def Upstream.canonical (up : Upstream) : Upstream where
  scheme := up.scheme.map lowerByte
  name := up.name.map lowerByte
  port := up.port
  path := up.canonicalPath
  forceQuery := up.forceQuery
  rawQuery := up.rawQuery
  protocol := up.protocol
  isRendered := {
    isScheme := isScheme_lower up.isRendered.isScheme
    hostBytes := fun b hb => (host_facts (host_bytes
      (bytes_of_validateDomainName (validateDomainName_lower up.validName))
      up.validOptionalPort b hb)).2.1
    isPathText := up.canonicalPath_facts.1
    pathBytes := up.canonicalPath_facts.2.1
    queryBytes := up.isRendered.queryBytes
    force := up.isRendered.force }
  known := by rw [map_lowerByte_lowerByte, up.known]
  validName := validateDomainName_lower up.validName
  digits := up.digits
  validPort := up.validPort
  decodable := up.canonicalPath_facts.2.2.2
  bare := by
    rw [map_lowerByte_lowerByte]
    obtain h | ⟨hp, hq⟩ := up.bare
    · exact Or.inl h
    · by_cases hs : isHTTP (up.scheme.map lowerByte) = true
      · exact Or.inl hs
      · exact Or.inr ⟨by simp [Upstream.canonicalPath, hs, hp], hq⟩
  plain := fun h => by
    rw [map_lowerByte_lowerByte] at h
    obtain ⟨ip, hip⟩ := up.plain h
    exact ⟨ip, by rw [hip, map_lowerByte_eq fun b => ip.mem_string]⟩

namespace Upstream

variable (up : Upstream)

theorem canonicalPath_ne_nil (h : isHTTP (up.scheme.map lowerByte) = true) :
    up.canonicalPath ≠ [] := by
  simp only [canonicalPath]
  split_ifs with hp
  · decide
  · have hne : up.path ≠ [] := fun hnil => hp ⟨h, hnil⟩
    obtain ⟨x, hx⟩ := up.decodable
    have hhead := printedPath_head hx (up.isRendered.isPathText.resolve_left hne)
    rintro hnil
    simp [hnil] at hhead

theorem canonicalPath_canonical : up.canonical.canonicalPath = up.canonicalPath := by
  rw [canonicalPath]
  split_ifs with h
  · obtain ⟨hs, hnil⟩ := h
    have hs' : isHTTP (up.scheme.map lowerByte) = true := by
      rwa [← map_lowerByte_lowerByte up.scheme]
    exact absurd hnil (up.canonicalPath_ne_nil hs')
  · exact up.canonicalPath_facts.2.2.1

theorem canonical_text : up.canonical.canonical.text = up.canonical.text := by
  have hpath := up.canonicalPath_canonical
  simp only [text, canonical, map_lowerByte_lowerByte] at hpath ⊢
  rw [hpath]

theorem tail_portText : (portText up.port).tail = up.port := by
  by_cases h : up.port = [] <;> simp [portText, h]

def parsesTo (u : URL) : Prop :=
  IsParsed u (up.scheme.map lowerByte) (up.name ++ portText up.port) up.path up.forceQuery
    up.rawQuery

theorem parse_text : ∃ u, parse up.text = .ok u ∧ up.parsesTo u :=
  parse_render_ok up.isRendered (parseHost_name up.name_bytes up.validOptionalPort) up.decodable

variable {up} {u : URL} (hu : up.parsesTo u)

include hu

theorem splitHost_eq : splitHost u.host = (up.name, up.port) := by
  rw [hu.host, splitHost_name up.name_bytes up.validOptionalPort, tail_portText]

theorem host_isHostByte : ∀ b ∈ u.host, isHostByte b = true := by
  rw [hu.host]
  exact host_bytes up.name_bytes up.validOptionalPort

variable [CaseTables]

theorem toLower_scheme : toLower u.scheme = up.scheme.map lowerByte := by
  rw [hu.scheme, toLower_isScheme up.isRendered.isScheme]

theorem toLower_host : toLower u.host = up.name.map lowerByte ++ portText up.port := by
  rw [toLower_ascii fun b hb => (host_facts (host_isHostByte hu b hb)).2.2.2.2, hu.host,
    List.map_append]
  congr 1
  have hall : ∀ b ∈ portText up.port, lowerByte b = b := by
    intro b hb
    obtain hcolon | hdigit := mem_colonPort up.validOptionalPort hb
    · exact (lowerByte_facts b).2.2.2 (.inr (.inr hcolon))
    · exact (lowerByte_facts b).2.2.2 (.inl hdigit)
  exact (List.map_congr_left hall).trans (List.map_id' _)

theorem escapedPath_canonicalURL : (canonicalURL u).escapedPath = up.canonicalPath := by
  simp only [canonicalURL, canonicalPath, toLower_scheme hu, hu.path_eq_nil]
  split_ifs with h
  · have hraw := hu.rawPath h.2
    simp only [URL.escapedPath, hraw]
    decide +kernel
  · exact hu.escapedPath

theorem string_canonicalURL : (canonicalURL u).string = up.canonical.text := by
  have hesc := escapedPath_canonicalURL hu
  have hhost : (canonicalURL u).host = up.canonical.name ++ portText up.canonical.port :=
    toLower_host hu
  have hscheme : (canonicalURL u).scheme = up.canonical.scheme := toLower_scheme hu
  have hne : up.canonical.scheme ≠ [] := by
    obtain ⟨⟨b, hb, -⟩, -⟩ := up.canonical.isRendered.isScheme
    rintro hnil
    simp [hnil] at hb
  rw [string_eq_render, hesc, hhost, hscheme]
  · exact congrArg₂ (render _ _ _) hu.forceQuery hu.rawQuery
  · rwa [hscheme]
  · exact hu.opaquePart
  · rw [hhost]
    simp [ne_nil_of_validateDomainName up.canonical.validName]
  · rw [hhost]
    exact fun b hb =>
      (host_facts (host_bytes up.canonical.name_bytes up.canonical.validOptionalPort b hb)).1
  · exact hu.fragment
  · rw [hesc]
    exact up.canonicalPath_facts.1

omit [CaseTables] in
theorem not_hasSuffix_colon : hasSuffix u.host (str ":") = false := by
  refine Bool.eq_false_iff.mpr fun h => ?_
  obtain ⟨t, ht⟩ := hasSuffix_iff.mp h
  have hl : u.host.getLast? = some (byte ':') := by
    rw [← ht]
    exact List.getLast?_concat
  rw [hu.host] at hl
  by_cases hp : up.port = []
  · rw [portText, if_pos hp, List.append_nil] at hl
    exact (name_facts (up.name_bytes _ (List.mem_of_getLast? hl))).2.2.2.1 rfl
  · rw [portText, if_neg hp, List.getLast?_append_of_ne_nil _ (by simp)] at hl
    obtain ⟨c, p, hcp⟩ := List.exists_cons_of_ne_nil hp
    rw [hcp, List.getLast?_cons_cons, ← hcp] at hl
    exact absurd (up.digits _ (List.mem_of_getLast? hl)) (by decide)

/-- An upstream is accepted, and its canonical text is what is stored. -/
theorem validateURL_eq : validateURL u = .ok (up.canonical.text, up.protocol) := by
  have hbracket : byte '[' ∉ u.host := by
    rw [hu.host]
    intro hm
    cases List.mem_append.mp hm with
    | inl hm => exact (name_facts (up.name_bytes _ hm)).2.2.2.2.2.1 rfl
    | inr hm => exact not_mem_colonPort up.validOptionalPort (by decide) (by decide) hm
  have hquery : isHTTP (up.scheme.map lowerByte) = true ∨ u.path = [] ∧ u.rawQuery = [] := by
    rw [hu.path_eq_nil, hu.rawQuery]
    exact up.bare
  have hplain : isPlain (up.scheme.map lowerByte) = true →
      ((parseIP up.name).bind IP.to4).isSome := by
    intro h
    obtain ⟨ip, hip⟩ := up.plain h
    simp [hip, parseIP_string, IP.to4]
  simp only [validateURL, URL.hostname, URL.port, splitHost_eq hu, toLower_scheme hu, up.known]
  simp only [bind_eq_ok, require_eq_ok, pure_eq_ok]
  exact ⟨(), ⟨hu.user, hu.fragment, hu.opaquePart⟩, (), validateHost_eq_ok.mpr up.validName, (),
    hbracket, (), up.validPort, (), not_hasSuffix_colon hu, (), hquery, (), hplain,
    by rw [string_canonicalURL hu]⟩

end Upstream

theorem splitHost_inv {s name port : GoString} (h : splitHost s = (name, port))
    (hb : byte '[' ∉ s) (hn : ∀ b ∈ name, isNameByte b = true)
    (hs : hasSuffix s (str ":") = false) :
    s = name ++ portText port ∧ ∀ b ∈ port, isDigit b = true := by
  have hcolon : byte ':' ∉ name := fun hm => (name_facts (hn _ hm)).2.2.2.1 rfl
  have hhead : ∀ t : GoString, (∀ b ∈ t, b ∈ s) → ∀ q, ¬ (t.head? = some (byte '[') ∧ q) :=
    fun t ht q hq => hb (ht _ (List.mem_of_mem_head? hq.1))
  simp only [splitHost] at h
  cases hc : cutLast (byte ':') s with
  | none =>
    simp only [hc] at h
    rw [if_neg (hhead s (fun _ hb => hb) _), Prod.mk.injEq] at h
    obtain ⟨rfl, rfl⟩ := h
    simp [portText]
  | some r =>
    obtain ⟨before, after⟩ := r
    obtain ⟨hs', ha⟩ := cutLast_eq_some.mp hc
    simp only [hc] at h
    by_cases hv : validOptionalPort (byte ':' :: after) = true
    · simp only [hv, if_true] at h
      rw [if_neg (hhead before (fun b hb => by rw [hs']; simp [hb]) _), Prod.mk.injEq] at h
      obtain ⟨rfl, rfl⟩ := h
      have hne : after ≠ [] := by
        rintro rfl
        have hsuf : hasSuffix s (str ":") = true := hasSuffix_iff.mpr ⟨before, hs'.symm⟩
        simp [hs] at hsuf
      exact ⟨by rw [portText, if_neg hne, hs'], by simpa [validOptionalPort] using hv⟩
    · simp only [hv, Bool.false_eq_true, if_false] at h
      rw [if_neg (hhead s (fun _ hb => hb) _), Prod.mk.injEq] at h
      obtain ⟨rfl, rfl⟩ := h
      exact absurd (by rw [hs']; simp) hcolon

section

variable [CaseTables]

theorem exists_upstream {a : GoString} {u : URL} {r : GoString × Protocol}
    (ha : parse a = .ok u) (h : validateURL u = .ok r) :
    ∃ up : Upstream, (a = up.text ∨ a = up.text ++ [byte '#']) ∧ up.parsesTo u := by
  simp only [validateURL] at h
  obtain ⟨_, hparts, h⟩ := bind_eq_ok.mp h
  rw [require_eq_ok] at hparts
  obtain ⟨huser, hfrag, -⟩ := hparts
  split at h
  · simp at h
  next p hp =>
  simp only [bind_eq_ok, require_eq_ok] at h
  obtain ⟨_, hhost, _, hbracket, _, hport, _, hcolon, _, hquery, _, hplain, -⟩ := h
  have hname := validateHost_eq_ok.mp hhost
  have hbytes := bytes_of_validateDomainName hname
  have hhne : u.host ≠ [] := by
    intro hnil
    rw [URL.hostname, hnil] at hname
    exact ne_nil_of_validateDomainName hname rfl
  have hsne : u.scheme ≠ [] := by
    intro hnil
    rw [hnil] at hp
    exact absurd hp (by simp [toLower, mapRunes, protocolOf, str])
  obtain ⟨scheme, host, path, hr, htext, hscheme, hph, hset⟩ :=
    parse_eq_ok ha hsne huser hfrag hhne
  have hlow : toLower u.scheme = scheme.map lowerByte := by
    rw [hscheme, toLower_isScheme hr.isScheme]
  rw [hlow] at hp hquery hplain
  obtain ⟨hsplit, hdigits⟩ : u.host = u.hostname ++ portText u.port ∧
      ∀ b ∈ u.port, isDigit b = true := splitHost_inv rfl hbracket hbytes hcolon
  have hvalid : validOptionalPort (portText u.port) = true := by
    by_cases hn : u.port = []
    · simp [portText, hn, validOptionalPort]
    · simpa [portText, hn, validOptionalPort] using hdigits
  have hhosteq : host = u.host := by
    refine parseHost_inv hph ?_ hbracket
    rw [hsplit]
    exact host_bytes hbytes hvalid
  have hparsed := isParsed_setPath hr.isPathText hset
  have hparsed' : IsParsed u (scheme.map lowerByte) (u.hostname ++ portText u.port) path
      u.forceQuery u.rawQuery := by rwa [← hscheme, ← hsplit]
  refine ⟨{
    scheme, path
    name := u.hostname
    port := u.port
    forceQuery := u.forceQuery
    rawQuery := u.rawQuery
    protocol := p
    isRendered := by
      rw [← hsplit, ← hhosteq]
      exact hr
    known := hp
    validName := hname
    digits := hdigits
    validPort := hport
    decodable := ⟨u.path, (setPath_eq_ok hset).1⟩
    bare := by rwa [← hparsed.path_eq_nil]
    plain := ?_ }, ?_, ?_⟩
  · intro hs
    have hno : byte ':' ∉ u.hostname := fun hm => (name_facts (hbytes _ hm)).2.2.2.1 rfl
    have hsome := hplain hs
    rw [parseIP_of_no_colon hno] at hsome
    cases h4 : parseIPv4 u.hostname with
    | none => simp [h4] at hsome
    | some ip => exact ⟨ip, parseIPv4_eq_some h4⟩
  · simp only [Upstream.text]
    rw [← hsplit, ← hhosteq]
    exact htext
  · exact hparsed'

end

end DnsMonitor.Monitor.Address
