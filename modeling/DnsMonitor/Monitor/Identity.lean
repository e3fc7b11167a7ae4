import DnsMonitor.Monitor.EndpointKey

namespace DnsMonitor.Monitor.Identity

open DnsMonitor.Model DnsMonitor.Monitor.Validate DnsMonitor.Monitor.Stamp
open DnsMonitor.Monitor.Address DnsMonitor.Monitor.Canonical DnsMonitor.Monitor.Endpoint
open DnsMonitor.Monitor.EndpointKey
open DnsMonitor.Go.Strings DnsMonitor.Go.Unicode DnsMonitor.Go.Net DnsMonitor.Go.Errors
open DnsMonitor.Go.Url DnsMonitor.Go.UrlText

theorem hexText_injective : Function.Injective hexText := by
  have hvalue : ∀ n : Fin 16, hexValue (lowerByte (upperHex n)) = some n.val := by decide
  have hpair : ∀ b c : UInt8, lowerByte (upperHex (b.toNat / 16)) = lowerByte (upperHex (c.toNat / 16)) →
      lowerByte (upperHex (b.toNat % 16)) = lowerByte (upperHex (c.toNat % 16)) → b = c := by
    intro b c h1 h2
    have hb := b.toNat_lt
    have hc := c.toNat_lt
    have e1 := congrArg hexValue h1
    have e2 := congrArg hexValue h2
    rw [hvalue ⟨b.toNat / 16, by omega⟩, hvalue ⟨c.toNat / 16, by omega⟩, Option.some.injEq] at e1
    rw [hvalue ⟨b.toNat % 16, by omega⟩, hvalue ⟨c.toNat % 16, by omega⟩, Option.some.injEq] at e2
    dsimp only at e1 e2
    exact UInt8.toNat_inj.mp (by omega)
  intro s t h
  induction s generalizing t with
  | nil =>
    cases t with
    | nil => rfl
    | cons c t => simp [hexText] at h
  | cons b s ih =>
    cases t with
    | nil => simp [hexText] at h
    | cons c t =>
      simp only [hexText, List.flatMap_cons, List.cons_append, List.nil_append,
        List.cons.injEq] at h
      rw [hpair b c h.1 h.2.1, ih h.2.2]

theorem length_hexText (s : GoString) : (hexText s).length = 2 * s.length := by
  induction s with
  | nil => rfl
  | cons b s ih =>
    simp only [hexText] at ih
    simp only [hexText, List.flatMap_cons, List.length_append, List.length_cons, List.length_nil, ih]
    omega

theorem append_portText_inj {host host' q q' : GoString} (h : byte ':' ∉ host)
    (h' : byte ':' ∉ host') (heq : host ++ portText q = host' ++ portText q') :
    host = host' ∧ q = q' := by
  have hcut := congrArg (cut (byte ':')) heq
  simp only [portText] at hcut heq
  split_ifs at hcut heq with hq hq' hq'
  · exact ⟨by simpa using heq, by rw [hq, hq']⟩
  · rw [List.append_nil, cut_eq_none.mpr h, cut_append h'] at hcut
    simp at hcut
  · rw [List.append_nil, cut_eq_none.mpr h', cut_append h] at hcut
    simp at hcut
  · rw [cut_append h, cut_append h', Option.some.injEq, Prod.mk.injEq] at hcut
    exact hcut

theorem port_inj {text : GoString} {n m : Nat}
    (h : (if itoa n = text then [] else itoa n) = if itoa m = text then [] else itoa m) : n = m := by
  apply itoa_injective
  split_ifs at h with hn hm hm
  · rw [hn, hm]
  · exact absurd h.symm (itoa_ne_nil m)
  · exact absurd h (itoa_ne_nil n)
  · exact h

theorem portText_bytes {text : GoString} {n : Nat} {b : UInt8}
    (h : b ∈ portText (if itoa n = text then [] else itoa n)) : b = byte ':' ∨ isDigit b = true := by
  by_cases hd : itoa n = text
  · simp [hd, portText] at h
  · rw [if_neg hd, portText, if_neg (itoa_ne_nil n)] at h
    exact (List.mem_cons.mp h).imp_right isDigit_of_mem_itoa

theorem host_no_colon {host : GoString} (h : ∀ b ∈ host, isNameByte b = true) : byte ':' ∉ host :=
  fun hm => (name_facts (h _ hm)).2.2.2.1 rfl

theorem hostPort_facts {host text : GoString} {n : Nat} (h : ∀ b ∈ host, isNameByte b = true) :
    byte '/' ∉ host ++ portText (if itoa n = text then [] else itoa n) ∧
      byte '?' ∉ host ++ portText (if itoa n = text then [] else itoa n) := by
  have hb : ∀ b ∈ host ++ portText (if itoa n = text then [] else itoa n),
      b ≠ byte '/' ∧ b ≠ byte '?' := by
    have hname : ∀ b, isNameByte b = true → b ≠ byte '/' ∧ b ≠ byte '?' := by
      intro b hn
      obtain ⟨hbody, hslash, -⟩ := body_of_authority (name_facts hn).2.1
      exact ⟨hslash, (query_of_body hbody).2⟩
    intro b hm
    cases List.mem_append.mp hm with
    | inl hm => exact hname b (h b hm)
    | inr hm =>
      obtain rfl | hd := portText_bytes hm
      · decide
      · exact hname b (name_of_digit hd)
  exact ⟨fun hm => (hb _ hm).1 rfl, fun hm => (hb _ hm).2 rfl⟩

theorem url_inj {scheme scheme' host host' path path' query query' rest rest' : GoString}
    {port port' : Nat} (h : isKeyed (.url scheme host port path query) rest)
    (h' : isKeyed (.url scheme' host' port' path' query') rest')
    (heq : keyText (.url scheme host port path query) rest =
      keyText (.url scheme' host' port' path' query') rest') :
    Endpoint.url scheme host port path query = .url scheme' host' port' path' query' ∧
      rest = rest' := by
  obtain ⟨hs, hn, ⟨hp, hb⟩, hr⟩ := h
  obtain ⟨hs', hn', ⟨hp', hb'⟩, hr'⟩ := h'
  have hquestion : ∀ {p : GoString}, (∀ b ∈ p, isBodyByte b = true) → byte '?' ∉ p :=
    fun hp hm => (query_of_body (hp _ hm)).2 rfl
  have hforce : ∀ {r q : GoString}, (r = [] ∨ r = str "?" ∧ q = []) →
      decide (r ≠ []) = true → q = [] := by
    rintro r q (rfl | ⟨-, rfl⟩) hd
    · simp at hd
    · rfl
  obtain ⟨rfl, hhost, rfl, hrest, rfl⟩ := render_injective (scheme_facts hs).2.2.2.1
    (scheme_facts hs').2.2.2.1 (hostPort_facts hn) (hostPort_facts hn') ⟨hp, hquestion hb⟩
    ⟨hp', hquestion hb'⟩ (hforce hr) (hforce hr') heq
  obtain ⟨rfl, hport⟩ := append_portText_inj (host_no_colon hn) (host_no_colon hn') hhost
  obtain rfl := port_inj hport
  refine ⟨rfl, ?_⟩
  obtain rfl | ⟨rfl, -⟩ := hr <;> obtain rfl | ⟨rfl, -⟩ := hr'
  · rfl
  · exact absurd hrest (by decide)
  · exact absurd hrest (by decide)
  · rfl

def dnscryptText (host : GoString) (port : Nat) (rest : GoString) : GoString :=
  if rest = [] then host ++ portText (if port = 443 then [] else itoa port) else rest

theorem itoa_443 {port : Nat} : port = 443 ↔ itoa port = str "443" := by
  have h : itoa 443 = str "443" := by decide
  rw [← h]
  exact itoa_injective.eq_iff.symm

theorem getLast?_dnscryptText (ip : IPv4) (port : Nat) :
    (dnscryptText ip.string port []).getLast? ≠ some (byte ':') := by
  have hcolon : byte ':' ∉ ip.string := ip.not_mem_string (by decide) (by decide)
  intro hl
  rw [dnscryptText, if_pos rfl] at hl
  by_cases h : port = 443
  · rw [if_pos h, portText, if_pos rfl, List.append_nil] at hl
    exact hcolon (List.mem_of_getLast? hl)
  · rw [if_neg h, portText, if_neg (itoa_ne_nil port), ← List.singleton_append, ← List.append_assoc,
      List.getLast?_append_of_ne_nil _ (itoa_ne_nil port)] at hl
    exact absurd (isDigit_of_mem_itoa (List.mem_of_getLast? hl)) (by decide)

def isDnscryptRest (ip : IPv4) (port : Nat) (rest : GoString) : Prop :=
  rest = [] ∨ port = 443 ∧ (rest = ip.string ++ [byte ':'] ∨
    rest = byte '[' :: ip.string ++ [byte ']', byte ':'])

theorem isDnscryptRest.facts {ip : IPv4} {port : Nat} {rest : GoString}
    (h : isDnscryptRest ip port rest) (hne : rest ≠ []) :
    port = 443 ∧ rest.getLast? = some (byte ':') ∧ rest.filter (fun b => isDigit b || b = byte '.') =
      ip.string := by
  have hfilter : ip.string.filter (fun b => isDigit b || b = byte '.') = ip.string :=
    List.filter_eq_self.mpr fun b hb => by simpa using ip.mem_string hb
  have hno : ∀ b ∈ [byte '[', byte ']', byte ':'], (isDigit b || b = byte '.') = false := by
    decide +kernel
  obtain rfl | ⟨hport, rfl | rfl⟩ := h
  · exact absurd rfl hne
  · refine ⟨hport, List.getLast?_concat, ?_⟩
    rw [List.filter_append, hfilter, List.filter_cons_of_neg (by simp [hno]), List.filter_nil,
      List.append_nil]
  · refine ⟨hport, ?_, ?_⟩
    · rw [List.getLast?_append_of_ne_nil _ (by simp)]
      rfl
    · rw [List.filter_append, List.filter_cons_of_neg (by simp [hno]), hfilter,
        List.filter_cons_of_neg (by simp [hno]), List.filter_cons_of_neg (by simp [hno]),
        List.filter_nil, List.append_nil]

theorem dnscryptText_inj {ip ip' : IPv4} {port port' : Nat} {rest rest' : GoString}
    (hr : isDnscryptRest ip port rest) (hr' : isDnscryptRest ip' port' rest')
    (heq : dnscryptText ip.string port rest = dnscryptText ip'.string port' rest') :
    ip.string = ip'.string ∧ port = port' ∧ rest = rest' := by
  by_cases h : rest = [] <;> by_cases h' : rest' = []
  · subst h h'
    have hno : ∀ ip : IPv4, byte ':' ∉ ip.string := fun ip =>
      ip.not_mem_string (by decide) (by decide)
    simp only [dnscryptText, if_true, itoa_443] at heq
    obtain ⟨hip, hport⟩ := append_portText_inj (hno ip) (hno ip') heq
    exact ⟨hip, port_inj hport, rfl⟩
  · subst h
    have hl := (hr'.facts h').2.1
    rw [← show dnscryptText ip'.string port' rest' = rest' from if_neg h', ← heq] at hl
    exact absurd hl (getLast?_dnscryptText ip port)
  · subst h'
    have hl := (hr.facts h).2.1
    rw [← show dnscryptText ip.string port rest = rest from if_neg h, heq] at hl
    exact absurd hl (getLast?_dnscryptText ip' port')
  · rw [dnscryptText, if_neg h, dnscryptText, if_neg h'] at heq
    subst heq
    obtain ⟨hport, -, hip⟩ := hr.facts h
    obtain ⟨hport', -, hip'⟩ := hr'.facts h'
    exact ⟨hip.symm.trans hip', hport.trans hport'.symm, rfl⟩

theorem keyText_dnscrypt (host publicKey provider rest : GoString) (port : Nat) :
    keyText (.dnscrypt host port publicKey provider) rest = str "dnscrypt://" ++
      (dnscryptText host port rest ++ byte '/' :: (hexText publicKey ++ byte '/' :: provider)) := by
  simp [keyText, dnscryptText]

theorem dnscryptText_no_slash {ip : IPv4} {port : Nat} {rest : GoString}
    (h : isDnscryptRest ip port rest) : byte '/' ∉ dnscryptText ip.string port rest := by
  have hip : byte '/' ∉ ip.string := ip.not_mem_string (by decide) (by decide)
  have h1 : byte '/' ≠ byte ':' := by decide
  have h2 : byte '/' ≠ byte '[' := by decide
  have h3 : byte '/' ≠ byte ']' := by decide
  obtain rfl | ⟨-, rfl | rfl⟩ := h
  · intro hm
    simp only [dnscryptText, if_true, itoa_443] at hm
    cases List.mem_append.mp hm with
    | inl hm => exact hip hm
    | inr hm =>
      cases portText_bytes hm with
      | inl hd => exact h1 hd
      | inr hd => exact absurd hd (by decide)
  · simp [dnscryptText, hip, h1]
  · simp [dnscryptText, hip, h1, h2, h3]

theorem dnscrypt_inj {host host' publicKey publicKey' provider provider' rest rest' : GoString}
    {port port' : Nat} (h : isKeyed (.dnscrypt host port publicKey provider) rest)
    (h' : isKeyed (.dnscrypt host' port' publicKey' provider') rest')
    (heq : keyText (.dnscrypt host port publicKey provider) rest =
      keyText (.dnscrypt host' port' publicKey' provider') rest') :
    Endpoint.dnscrypt host port publicKey provider =
      .dnscrypt host' port' publicKey' provider' ∧ rest = rest' := by
  obtain ⟨⟨ip, rfl⟩, hlen, hr⟩ := h
  obtain ⟨⟨ip', rfl⟩, hlen', hr'⟩ := h'
  rw [keyText_dnscrypt, keyText_dnscrypt] at heq
  have hcut := congrArg (cut (byte '/')) (List.append_cancel_left heq)
  rw [cut_append (dnscryptText_no_slash hr), cut_append (dnscryptText_no_slash hr'),
    Option.some.injEq, Prod.mk.injEq] at hcut
  obtain ⟨htext, hrest⟩ := hcut
  obtain ⟨hip, rfl, rfl⟩ := dnscryptText_inj hr hr' htext
  have hlength : (hexText publicKey).length = (hexText publicKey').length := by
    rw [length_hexText, length_hexText, hlen, hlen']
  obtain ⟨hhex, hprovider⟩ := List.append_inj hrest hlength
  obtain rfl := hexText_injective hhex
  obtain ⟨-, rfl⟩ := List.cons.inj hprovider
  exact ⟨by rw [hip], rfl⟩

theorem url_ne_dnscrypt {scheme host path query rest : GoString} {port : Nat} (s : GoString)
    (h : isKeyed (.url scheme host port path query) rest) :
    keyText (.url scheme host port path query) rest ≠ str "dnscrypt://" ++ s := by
  intro heq
  have hcut := congrArg (cut (byte ':')) heq
  have hno : byte ':' ∉ str "dnscrypt" := by decide
  have htext : str "dnscrypt://" ++ s = str "dnscrypt" ++ byte ':' :: (str "//" ++ s) := rfl
  rw [htext, cut_append hno, keyText, render, List.append_assoc, List.append_assoc] at hcut
  simp only [List.cons_append] at hcut
  rw [cut_append (scheme_facts h.1).2.2.2.1, Option.some.injEq, Prod.mk.injEq] at hcut
  exact (scheme_facts h.1).2.2.2.2.1 hcut.1

/-- The key determines the endpoint and what its address leaves over. -/
theorem keyText_inj {e e' : Endpoint} {rest rest' : GoString} (h : isKeyed e rest)
    (h' : isKeyed e' rest') : keyText e rest = keyText e' rest' ↔ e = e' ∧ rest = rest' := by
  constructor
  · intro heq
    cases e with
    | url scheme host port path query =>
      cases e' with
      | url scheme' host' port' path' query' => exact url_inj h h' heq
      | dnscrypt host' port' publicKey' provider' =>
        rw [keyText_dnscrypt] at heq
        exact absurd heq (url_ne_dnscrypt _ h)
    | dnscrypt host port publicKey provider =>
      cases e' with
      | url scheme' host' port' path' query' =>
        rw [keyText_dnscrypt] at heq
        exact absurd heq.symm (url_ne_dnscrypt _ h')
      | dnscrypt host' port' publicKey' provider' => exact dnscrypt_inj h h' heq
  · rintro ⟨rfl, rfl⟩
    rfl

section

variable [CaseTables] {a b c : GoString} {p : Protocol}

/-- An accepted address has an endpoint, and its key, if it has one, is the text of it. -/
theorem endpoint_of_validateAddress (h : validateAddress a = .ok (c, p)) :
    ∃ e, endpoint a = some e ∧ isKeyed e (leftover a) ∧
      (signedPort a → ∃ x, addressKey a = .error x) ∧
      (¬ signedPort a → addressKey a = .ok (keyText e (leftover a))) := by
  by_cases hs : isStamp a
  · obtain ⟨f, hf, hk, hbad, hgood⟩ := addressKey_stamp h hs
    have hsigned : signedPort a ↔ fieldsSigned f := by simp [signedPort, hs, hf]
    have hleft : leftover a = fieldsLeftover f := by simp [leftover, hs, hf]
    rw [hsigned, hleft]
    exact ⟨fieldsEndpoint f, by simp [endpoint, hs, hf], hk, hbad, hgood⟩
  · obtain ⟨e, he, hk, hkey⟩ := addressKey_url h hs
    exact ⟨e, he, hk, fun hsigned => absurd hsigned.1 hs, fun _ => hkey⟩

theorem endpoint_of_addressKey {k : GoString} (h : addressKey a = .ok k) :
    ∃ e, endpoint a = some e ∧ isKeyed e (leftover a) ∧ k = keyText e (leftover a) := by
  obtain ⟨⟨c, p⟩, hv, -⟩ := bind_eq_ok.mp h
  obtain ⟨e, he, hk, hbad, hgood⟩ := endpoint_of_validateAddress hv
  by_cases hs : signedPort a
  · obtain ⟨x, hx⟩ := hbad hs
    simp [hx] at h
  · rw [hgood hs, Except.ok.injEq] at h
    exact ⟨e, he, hk, h.symm⟩

/-- Equal keys mean equal endpoints, and the converse fails exactly for two spellings of one
endpoint that leave different texts over. -/
theorem addressKey_identifies {k l : GoString} (ha : addressKey a = .ok k)
    (hb : addressKey b = .ok l) : (k = l ↔ endpoint a = endpoint b) ↔
      (endpoint a = endpoint b → leftover a = leftover b) := by
  obtain ⟨e, he, hk, rfl⟩ := endpoint_of_addressKey ha
  obtain ⟨e', he', hk', rfl⟩ := endpoint_of_addressKey hb
  rw [keyText_inj hk hk', he, he', Option.some.injEq]
  tauto

end

section

local instance : CaseTables := asciiTables

theorem addressKey_identifies_default : (str "udp://1.1.1.1" = str "udp://1.1.1.1" ↔
    endpoint (str "1.1.1.1") = endpoint (str "UDP://1.1.1.1:0053")) := by
  have ha : addressKey (str "1.1.1.1") = .ok (str "udp://1.1.1.1") := by decide +kernel
  have hb : addressKey (str "UDP://1.1.1.1:0053") = .ok (str "udp://1.1.1.1") := by decide +kernel
  have hleft : leftover (str "1.1.1.1") = leftover (str "UDP://1.1.1.1:0053") := by decide +kernel
  exact (addressKey_identifies ha hb).mpr fun _ => hleft

/-- Both addresses name the same endpoint, but the question mark stays in the key. -/
theorem danglingQuery_splits : ∃ k l, addressKey (str "1.1.1.1") = .ok k ∧
    addressKey (str "1.1.1.1?") = .ok l ∧ endpoint (str "1.1.1.1") = endpoint (str "1.1.1.1?") ∧
    k ≠ l := by
  refine ⟨str "udp://1.1.1.1", str "udp://1.1.1.1?", ?_, ?_, ?_, ?_⟩ <;> decide +kernel

end

section

variable [CaseTables] {a c : GoString} {p : Protocol}

def keyable (a : GoString) : Prop := ¬ signedPort a ∧ (isStamp a ∨ fits a)

theorem validateAddress_canonical_ok (h : validateAddress a = .ok (c, p)) {r : GoString × Protocol}
    (hc : validateAddress c = .ok r) : isStamp a ∨ fits a := by
  by_cases hs : isStamp a
  · exact Or.inl hs
  · obtain ⟨up, ht, hq, rfl, rfl⟩ := upstream_of_validateAddress h hs
    obtain ⟨hw, -⟩ := validateAddress_eq_ok.mp hc
    rw [trimSpace_of_not_containsSpace ((containsSpace_render up).trans hq)] at hw
    exact Or.inr ((fits_iff (addressText_eq ht)).mpr hw.1.2.1)

theorem addressKey_of_canonical (h : validateAddress a = .ok (c, p)) {k : GoString}
    (hc : addressKey c = .ok k) : addressKey a = .ok k ∧ keyable a := by
  obtain ⟨e, -, -, hbad, -⟩ := endpoint_of_validateAddress h
  obtain ⟨r, hv, -⟩ := bind_eq_ok.mp hc
  have hfits := validateAddress_canonical_ok h hv
  have hkey : addressKey c = addressKey a := by
    rw [addressKey_eq ((validateAddress_again h).mpr hfits), addressKey_eq h]
  rw [hkey] at hc
  refine ⟨hc, fun hs => ?_, hfits⟩
  obtain ⟨x, hx⟩ := hbad hs
  simp [hx] at hc

theorem addressKey_of_keyable (h : validateAddress a = .ok (c, p)) (ha : keyable a) :
    ∃ k, addressKey c = .ok k ∧ addressKey a = .ok k := by
  obtain ⟨e, -, -, -, hgood⟩ := endpoint_of_validateAddress h
  have hkey : addressKey c = addressKey a := by
    rw [addressKey_eq ((validateAddress_again h).mpr ha.2), addressKey_eq h]
  exact ⟨_, by rw [hkey, hgood ha.1], hgood ha.1⟩

/-- The table from keys to servers that `prepareImport` builds before it reads the rows. -/
def indexServers : List Server → Except String (List (GoString × Server))
  | [] => pure []
  | server :: servers => do
    let key ← (addressKey server.address).mapError fun e => "现有服务器的地址无法规范化: " ++ e
    let rest ← indexServers servers
    pure ((key, server) :: rest)

theorem indexServers_ok {servers : List Server} : (∃ table, indexServers servers = .ok table) ↔
    ∀ s ∈ servers, ∃ k, addressKey s.address = .ok k := by
  induction servers with
  | nil => simp [indexServers]
  | cons s servers ih =>
    rw [List.forall_mem_cons, ← ih]
    simp only [indexServers, bind_eq_ok, mapError_eq_ok, pure_eq_ok]
    constructor
    · rintro ⟨_, k, hk, rest, hrest, -⟩
      exact ⟨⟨k, hk⟩, rest, hrest⟩
    · rintro ⟨⟨k, hk⟩, rest, hrest⟩
      exact ⟨_, k, hk, rest, hrest, rfl⟩

/-- A stored address has the key of the address it was stored from exactly when that one is
keyable, and an import can index the stored servers exactly when all of them are. -/
theorem stored_keys :
    (∀ (a c : GoString) (p : Protocol), validateAddress a = .ok (c, p) →
      ((∃ k, addressKey c = .ok k ∧ addressKey a = .ok k) ↔ keyable a)) ∧
    ∀ (given : Server → GoString) (servers : List Server),
      (∀ s ∈ servers, validateAddress (given s) = .ok (s.address, s.protocol)) →
      ((∃ table, indexServers servers = .ok table) ↔ ∀ s ∈ servers, keyable (given s)) := by
  constructor
  · intro a c p h
    exact ⟨fun ⟨k, hk, _⟩ => (addressKey_of_canonical h hk).2, addressKey_of_keyable h⟩
  · intro given servers h
    rw [indexServers_ok]
    refine forall₂_congr fun s hs => ⟨fun ⟨k, hk⟩ => (addressKey_of_canonical (h s hs) hk).2, ?_⟩
    intro hkey
    obtain ⟨k, hk, -⟩ := addressKey_of_keyable (h s hs) hkey
    exact ⟨k, hk⟩

end

section

local instance : CaseTables := asciiTables

def storedServer : Server where
  trustEpoch := 0
  id := 1
  name := str "example"
  provider := []
  address := str "https://dns.example:443/dns-query"
  protocol := .doh
  enabled := true
  trusted := false
  notes := []
  createdAt := 0

theorem stored_keys_example : (∃ k, addressKey storedServer.address = .ok k ∧
      addressKey (str "HTTPS://DNS.example:443") = .ok k) ∧
    ∃ table, indexServers [storedServer] = .ok table := by
  have h : validateAddress (str "HTTPS://DNS.example:443") =
      .ok (storedServer.address, storedServer.protocol) := by decide +kernel
  have hkey : keyable (str "HTTPS://DNS.example:443") := by
    refine ⟨fun hs => absurd hs.1 (by decide), Or.inr ?_⟩
    simp only [fits]
    decide +kernel
  refine ⟨(stored_keys.1 _ _ _ h).mpr hkey,
    (stored_keys.2 (fun _ => str "HTTPS://DNS.example:443") _ ?_).mpr ?_⟩
  · exact fun s hs => by rwa [List.mem_singleton.mp hs]
  · exact fun s _ => hkey

/-- A UDP stamp for the address 1.1.1.1:+53. -/
def signedStamp : GoString := str "sdns://AAAAAAAAAAAACzEuMS4xLjE6KzUz"

theorem signedStamp_no_key : validateAddress signedStamp = .ok (signedStamp, .udp) ∧
    addressKey signedStamp = .error "parse" := by
  constructor <;> decide +kernel

end

end DnsMonitor.Monitor.Identity
