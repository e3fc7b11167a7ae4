import DnsMonitor.Monitor.EndpointKey

namespace DnsMonitor.Monitor.Translation

open DnsMonitor.Model DnsMonitor.Monitor.Validate DnsMonitor.Monitor.Stamp
open DnsMonitor.Monitor.Address DnsMonitor.Monitor.Canonical DnsMonitor.Monitor.Endpoint
open DnsMonitor.Monitor.EndpointKey
open DnsMonitor.Go.Strings DnsMonitor.Go.Unicode DnsMonitor.Go.Net DnsMonitor.Go.Errors
open DnsMonitor.Go.Url DnsMonitor.Go.UrlText DnsMonitor.Go.Base64

/-- What a stamp encodes for a transport that has a URL: the field with its host and port, and a
path. -/
structure Target where
  scheme : GoString
  value : GoString
  path : GoString

def target : Fields → Option Target
  | .udp addr => some ⟨str "udp", addr, []⟩
  | .doh host path => some ⟨str "https", host, path⟩
  | .dot host => some ⟨str "tls", host, []⟩
  | .doq host => some ⟨str "quic", host, []⟩
  | .dnscrypt _ _ _ => none

/-- The port of the field is written without a sign and without brackets around the host, and it
is not left out after a colon. -/
def isPlainField (value : GoString) : Prop :=
  byte '+' ∉ value ∧ byte '[' ∉ value ∧ hasSuffix value (str ":") = false

instance (value : GoString) : Decidable (isPlainField value) :=
  inferInstanceAs (Decidable (_ ∧ _ ∧ _))

section

variable {value name port : GoString}

theorem plain_text (h : IsHostField value name port) (hp : isPlainField value) :
    value = name ++ portText port ∧ ∀ b ∈ port, isDigit b = true := by
  obtain ⟨hplus, hbracket, hcolon⟩ := hp
  refine ⟨?_, digits_of_validatePort h.validPort (mt h.plus_mem_iff.mpr hplus)⟩
  obtain ⟨rfl, rfl⟩ | rfl | rfl := h.text
  · exact (List.append_nil _).symm
  · by_cases hnone : port = []
    · subst hnone
      have hsuffix : hasSuffix (name ++ [byte ':']) (str ":") = true :=
        hasSuffix_iff.mpr ⟨name, rfl⟩
      rw [hsuffix] at hcolon
      cases hcolon
    · rw [portText, if_neg hnone]
  · exact absurd (List.mem_cons_self) hbracket

theorem plain_of_upstream (up : Upstream) : isPlainField (up.name ++ portText up.port) := by
  have hno : ∀ c, isNameByte c = false → isDigit c = false → c ≠ byte ':' →
      c ∉ up.name ++ portText up.port := by
    intro c hname hdigit hcolon hm
    cases List.mem_append.mp hm with
    | inl hm => exact absurd (up.name_bytes c hm) (by simp [hname])
    | inr hm => exact not_mem_colonPort up.validOptionalPort hdigit hcolon hm
  obtain ⟨u, -, hu⟩ := up.parse_text
  have hsuffix := Upstream.not_hasSuffix_colon hu
  rw [hu.host] at hsuffix
  exact ⟨hno _ (by decide) (by decide) (by decide), hno _ (by decide) (by decide) (by decide), hsuffix⟩

end

section

theorem length_readLP {s field rest : GoString} (h : readLP s = .ok (field, rest)) :
    field.length ≤ 255 := by
  cases s with
  | nil => cases h
  | cons n s =>
    rw [readLP] at h
    split_ifs at h with hlen
    injection h with h
    injection h with hfield
    have hn := n.toNat_lt
    rw [← hfield, List.length_take]
    omega

theorem target_length {b : GoString} {f : Fields} {t : Target} (hf : readFields b = some f)
    (ht : target f = some t) : t.value.length ≤ 255 ∧ t.path.length ≤ 255 := by
  simp only [readFields, Option.bind_eq_bind, Option.bind_eq_some_iff, toOption_eq_some] at hf
  obtain ⟨⟨addr, s⟩, haddr, hf⟩ := hf
  split_ifs at hf with h0 h1 h2
  · rw [← Option.some.inj hf] at ht
    rw [← Option.some.inj ht]
    exact ⟨length_readLP haddr, Nat.zero_le _⟩
  all_goals simp only [Option.bind_eq_some_iff, toOption_eq_some] at hf
  · obtain ⟨_, _, _, _, hf⟩ := hf
    rw [← Option.some.inj hf] at ht
    cases ht
  · obtain ⟨_, _, _, hhost, _, hpath, hf⟩ := hf
    rw [← Option.some.inj hf] at ht
    rw [← Option.some.inj ht]
    exact ⟨length_readLP hhost, length_readLP hpath⟩
  · obtain ⟨_, _, _, hhost, hf⟩ := hf
    rw [← Option.some.inj hf] at ht
    rw [← Option.some.inj ht]
    exact ⟨length_readLP hhost, Nat.zero_le _⟩
  · obtain ⟨_, _, _, hhost, hf⟩ := hf
    rw [← Option.some.inj hf] at ht
    rw [← Option.some.inj ht]
    exact ⟨length_readLP hhost, Nat.zero_le _⟩
  · obtain ⟨_, _, _, _, hf⟩ := hf
    cases hf

theorem length_escape (mode : Encoding) (s : GoString) : (escape mode s).length ≤ 3 * s.length := by
  induction s with
  | nil => exact le_rfl
  | cons b s ih =>
    have hbyte : (escapeByte mode b).length ≤ 3 := by
      rw [escapeByte]
      split_ifs
      · exact le_rfl
      · exact Nat.le_of_ble_eq_true rfl
    rw [escape, List.flatMap_cons, List.length_append, ← escape, List.length_cons]
    omega

structure Encoded (t : Target) (name port : GoString) (p : Protocol) : Prop where
  field : IsHostField t.value name port
  scheme : t.scheme ∈ schemes
  known : protocolOf t.scheme = some p
  printed : IsPrinted (escape .path t.path)
  bare : isHTTP t.scheme = true ∨ t.path = []
  plain : isPlain t.scheme = true → ∃ ip : IPv4, name = ip.string

def Target.text (t : Target) : GoString := render t.scheme t.value (escape .path t.path) false []

theorem encoded_of_valid {f : Fields} {t : Target} (hv : f.isValid) (ht : target f = some t)
    (address : GoString) : ∃ name port, Encoded t name port f.protocol ∧
      f.command address = t.text := by
  cases f with
  | dnscrypt addr publicKey provider => cases ht
  | udp addr =>
    obtain rfl := Option.some.inj ht
    obtain ⟨ip, port, hfield⟩ := isHostField_of_stampAddress (by decide) hv
    exact ⟨_, _, ⟨hfield, show str "udp" ∈ schemes by decide, rfl, isPrinted_nil, Or.inr rfl,
      fun _ => ⟨ip, rfl⟩⟩, (render_field (str "udp") addr).symm⟩
  | dot host =>
    obtain rfl := Option.some.inj ht
    obtain ⟨name, port, hfield⟩ := isHostField_of_stampHost hv
    exact ⟨_, _, ⟨hfield, show str "tls" ∈ schemes by decide, rfl, isPrinted_nil, Or.inr rfl,
      fun h => absurd (show isPlain (str "tls") = true from h) (by decide)⟩,
      (render_field (str "tls") host).symm⟩
  | doq host =>
    obtain rfl := Option.some.inj ht
    obtain ⟨name, port, hfield⟩ := isHostField_of_stampHost hv
    exact ⟨_, _, ⟨hfield, show str "quic" ∈ schemes by decide, rfl, isPrinted_nil, Or.inr rfl,
      fun h => absurd (show isPlain (str "quic") = true from h) (by decide)⟩,
      (render_field (str "quic") host).symm⟩
  | doh host path =>
    obtain rfl := Option.some.inj ht
    obtain ⟨name, port, hfield⟩ := isHostField_of_stampHost hv.1
    exact ⟨_, _, ⟨hfield, show str "https" ∈ schemes by decide, rfl, isPrinted_escape hv.2,
      Or.inl rfl, fun h => absurd (show isPlain (str "https") = true from h) (by decide)⟩,
      string_doh hfield.ne_nil (fun b hb => (field_facts (hfield.bytes b hb)).1) hv.2⟩

end

namespace Encoded

variable {t : Target} {name port : GoString} {p : Protocol} (h : Encoded t name port p)

include h

theorem lower_scheme : t.scheme.map lowerByte = t.scheme := (scheme_facts h.scheme).2.1

theorem isRendered : IsRendered t.scheme t.value (escape .path t.path) false [] :=
  h.field.isRendered (scheme_facts h.scheme).2.2.2.2.2.2 h.printed.isPathText h.printed.bytes

theorem graph : ∀ b ∈ t.text, isGraph b = true := by
  have hfield : ∀ b, isFieldByte b = true → isGraph b = true := by
    apply forall_byte
    decide +kernel
  have hpath : ∀ b, isPathByte b = true → isGraph b = true := by
    apply forall_byte
    decide +kernel
  intro b hb
  simp only [Target.text, render, queryText, Bool.false_eq_true, ne_eq, not_true, or_self, if_false,
    List.append_nil, List.append_assoc, List.mem_append, List.mem_cons] at hb
  obtain hb | (rfl | rfl | rfl | hb) | hb := hb
  · exact graph_of_scheme ((scheme_facts h.scheme).2.2.2.2.2.2.2 b hb)
  · decide
  · decide
  · decide
  · exact hfield b (h.field.bytes b hb)
  · exact hpath b (isPathByte_escape _ b hb)

theorem parse_text (hplus : byte '+' ∉ t.value) : ∃ u, parse t.text = .ok u ∧
    IsParsed u t.scheme t.value (escape .path t.path) false [] ∧ u.path = t.path := by
  obtain ⟨hhost, -⟩ := h.field.parseHost_eq hplus
  have hx := unescape_path_escape t.path
  obtain ⟨u, hu⟩ : ∃ u, setPath (hostURL (t.scheme.map lowerByte) t.value false [])
      (escape .path t.path) = .ok u := by simp [setPath, hx, Except.map]
  have hparsed := isParsed_setPath h.printed.isPathText hu
  rw [h.lower_scheme] at hparsed
  have hpath := (setPath_eq_ok hu).1
  rw [hx, Except.ok.injEq] at hpath
  refine ⟨u, ?_, hparsed, hpath.symm⟩
  rw [Target.text, parse_render h.isRendered, hhost]
  exact hu

theorem trimmed : trimSpace t.text = t.text ∧ withScheme t.text = t.text ∧ ¬ isStamp t.text := by
  have htrim : trimSpace t.text = t.text :=
    trimSpace_of_not_containsSpace (containsSpace_of_graph h.graph)
  refine ⟨htrim, ?_, ?_⟩
  · have hc : contains t.text (str "://") = true := by
      refine contains_iff.mpr ⟨t.scheme, t.value ++ escape .path t.path ++ queryText false [], ?_⟩
      simp [Target.text, render, str]
    rw [withScheme, if_pos hc]
  · rw [isStamp, htrim, Target.text, not_stamp_render h.scheme]
    exact Bool.false_ne_true

def upstream (hp : isPlainField t.value) : Upstream where
  scheme := t.scheme
  name := name
  port := port
  path := escape .path t.path
  forceQuery := false
  rawQuery := []
  protocol := p
  isRendered := by
    rw [← (plain_text h.field hp).1]
    exact h.isRendered
  known := by rw [h.lower_scheme, h.known]
  validName := h.field.validName
  digits := (plain_text h.field hp).2
  validPort := h.field.validPort
  decodable := h.printed.decodable
  bare := by
    rw [h.lower_scheme]
    exact h.bare.imp_right fun hnil => ⟨by rw [hnil]; rfl, rfl⟩
  plain := by
    rw [h.lower_scheme]
    exact h.plain

theorem upstream_text (hp : isPlainField t.value) : (h.upstream hp).text = t.text := by
  rw [Target.text, (plain_text h.field hp).1]
  rfl

variable [CaseTables]

/-- The text is accepted exactly when the field is plain. -/
theorem accepted_iff (hlen : t.text.length ≤ 4096) :
    (∃ c, validateAddress t.text = .ok (c, p)) ↔ isPlainField t.value := by
  obtain ⟨htrim, hscheme, hstamp⟩ := h.trimmed
  constructor
  · rintro ⟨c, hc⟩
    obtain ⟨-, ⟨hs, -⟩ | ⟨-, u, hu, hv⟩⟩ := validateAddress_eq_ok.mp hc
    · exact absurd hs hstamp
    · rw [htrim, hscheme] at hu
      obtain ⟨up, -, hup⟩ := exists_upstream hu hv
      have hplus : byte '+' ∉ t.value := by
        intro hplus
        rw [Target.text, parse_render h.isRendered, h.field.parseHost_plus hplus] at hu
        cases hu
      obtain ⟨v, hv, hparsed, -⟩ := h.parse_text hplus
      rw [hu, Except.ok.injEq] at hv
      subst hv
      rw [← hparsed.host, hup.host]
      exact plain_of_upstream up
  · intro hp
    obtain ⟨u, hu, hup⟩ := (h.upstream hp).parse_text
    rw [h.upstream_text hp] at hu
    refine ⟨_, validateAddress_eq_ok.mpr ⟨?_, Or.inr ⟨hstamp, u, ?_, Upstream.validateURL_eq hup⟩⟩⟩
    · obtain ⟨hne, hrule, hcomment, -⟩ :=
        render_starts h.scheme t.value (escape .path t.path) [] false
      rw [htrim]
      exact ⟨⟨hne, hlen, containsSpace_of_graph h.graph⟩, hrule, hcomment⟩
    · rw [htrim, hscheme, hu]

end Encoded

section

variable [CaseTables] {a c : GoString} {p : Protocol}

/-- The address that is handed over for a stamp: the stamp itself for DNSCrypt, and otherwise a URL
that is accepted and names what the stamp encodes. -/
structure Faithful (a c : GoString) (p : Protocol) : Prop where
  dnscrypt : p = .dnscrypt → commandAddress c = c
  native : p ≠ .dnscrypt → ∃ f t, stampFields a = some f ∧ target f = some t ∧
    hasPrefix (commandAddress c) (str "sdns://") = false ∧
    (∃ c', validateAddress (commandAddress c) = .ok (c', p)) ∧
    ∃ u, parse (commandAddress c) = .ok u ∧ u.hostname = (splitField t.value).1 ∧
      effectivePort u.scheme u.port = effectivePort t.scheme (splitField t.value).2 ∧
      u.path = t.path

omit [CaseTables] in
theorem target_eq_none {f : Fields} : target f = none ↔ f.protocol = .dnscrypt := by
  cases f <;> simp [target, Fields.protocol]

omit [CaseTables] in
theorem text_length {b : GoString} {f : Fields} {t : Target} (hf : readFields b = some f)
    (ht : target f = some t) (hs : t.scheme ∈ schemes) : t.text.length ≤ 4096 := by
  obtain ⟨hvalue, hpath⟩ := target_length hf ht
  have hescape := length_escape .path t.path
  have hscheme : ∀ s ∈ schemes, s.length ≤ 5 := by decide
  have hshort := hscheme _ hs
  simp only [Target.text, render, queryText, Bool.false_eq_true, ne_eq, not_true, or_self, if_false,
    List.append_nil, List.length_append, List.length_cons]
  omega

/-- A stamp is translated faithfully exactly when the port in it is written as `net/url` reads
it; other stamps than those of DNSCrypt are never handed over as they are. -/
theorem translation_iff (h : validateAddress a = .ok (c, p)) (hs : isStamp a) :
    (p ≠ .dnscrypt → hasPrefix (commandAddress c) (str "sdns://") = false) ∧
      (Faithful a c p ↔
        ∀ f t, stampFields a = some f → target f = some t → isPlainField t.value) := by
  obtain ⟨-, ⟨-, hv, hc⟩ | ⟨hn, -⟩⟩ := validateAddress_eq_ok.mp h
  · obtain ⟨b, f, hb, hlen, hf, hvalid, hp⟩ := validateStamp_eq_ok hv
    have hcommand := commandAddress_stamp hb hlen hf
    rw [← hc] at hcommand
    have hfields : stampFields a = some f := by
      rw [stampFields, hb]
      exact hf
    cases ht : target f with
    | none =>
      have hdnscrypt := hp.trans (target_eq_none.mp ht)
      refine ⟨fun hne => absurd hdnscrypt hne, iff_of_true ⟨fun _ => ?_, fun hne => ?_⟩ ?_⟩
      · cases f with
        | dnscrypt addr publicKey provider => exact hcommand
        | _ => cases ht
      · exact absurd hdnscrypt hne
      · intro g t hg htarget
        obtain rfl := Option.some.inj (hfields.symm.trans hg)
        rw [ht] at htarget
        cases htarget
    | some t =>
      obtain ⟨name, port, hencoded, htext⟩ := encoded_of_valid hvalid ht c
      rw [htext] at hcommand
      have hne : p ≠ .dnscrypt := by
        intro hd
        rw [target_eq_none.mpr (hp.symm.trans hd)] at ht
        cases ht
      have hnative : hasPrefix (commandAddress c) (str "sdns://") = false := by
        rw [hcommand]
        exact not_stamp_render hencoded.scheme _ _ _ _
      have haccepted := hencoded.accepted_iff (text_length hf ht hencoded.scheme)
      rw [← hcommand, ← hp] at haccepted
      refine ⟨fun _ => hnative, ?_, ?_⟩
      · intro hfaithful g t' hg htarget
        obtain ⟨_, _, _, _, _, hvalidated, _⟩ := hfaithful.native hne
        obtain rfl := Option.some.inj (hfields.symm.trans hg)
        obtain rfl := Option.some.inj (ht.symm.trans htarget)
        exact haccepted.mp hvalidated
      · intro hplain
        have hp := hplain f t hfields ht
        obtain ⟨u, hu, hparsed, hpath⟩ := hencoded.parse_text hp.1
        have hsplit := (hencoded.field.parseHost_eq hp.1).2
        refine ⟨fun hd => absurd hd hne, fun _ => ⟨f, t, hfields, ht, hnative,
          haccepted.mpr hp, u, by rw [hcommand, hu], ?_, ?_, hpath⟩⟩
        · rw [URL.hostname, hparsed.host, hsplit, splitField_eq hencoded.field]
        · rw [URL.port, hparsed.host, hparsed.scheme, hsplit, splitField_eq hencoded.field]
  · exact absurd hs hn

end

section

local instance : CaseTables := asciiTables

def openStamp : GoString := str "sdns://AAAAAAAAAAAACDEuMS4xLjE6"

/-- The stamp is accepted, and the URL it is translated into is not. -/
theorem openStamp_rejected : validateAddress openStamp = .ok (openStamp, .udp) ∧
    commandAddress openStamp = str "udp://1.1.1.1:" ∧
    validateAddress (commandAddress openStamp) = .error "端口不能为空" ∧
    ¬ Faithful openStamp openStamp .udp := by
  have hrejected : validateAddress (commandAddress openStamp) = .error "端口不能为空" := by
    decide +kernel
  refine ⟨by decide +kernel, by decide +kernel, hrejected, fun h => ?_⟩
  obtain ⟨_, _, _, _, _, ⟨c, hc⟩, _⟩ := h.native (by decide)
  rw [hrejected] at hc
  cases hc

def spacedStamp : GoString := str "sdns://AgAAAAAAAAAAAIAAEGRucy5leGFtcGxlOjA0NDMEL2EgYg"

theorem translation_iff_spaced :
    commandAddress spacedStamp = str "https://dns.example:0443/a%20b" ∧
      Faithful spacedStamp spacedStamp .doh := by
  have hvalid : validateAddress spacedStamp = .ok (spacedStamp, .doh) := by decide +kernel
  refine ⟨by decide +kernel, (translation_iff hvalid (by decide +kernel)).2.mpr ?_⟩
  have hall : ∀ f ∈ stampFields spacedStamp, ∀ t ∈ target f, isPlainField t.value := by
    decide +kernel
  exact fun f t hf ht => hall f hf t ht

end

end DnsMonitor.Monitor.Translation
