import DnsMonitor.Monitor.Identity

namespace DnsMonitor.Monitor.Keys

open DnsMonitor.Model DnsMonitor.Monitor.Validate DnsMonitor.Monitor.Stamp
open DnsMonitor.Monitor.Address DnsMonitor.Monitor.Canonical DnsMonitor.Monitor.Endpoint
open DnsMonitor.Monitor.EndpointKey DnsMonitor.Monitor.Identity
open DnsMonitor.Go.Strings DnsMonitor.Go.Unicode DnsMonitor.Go.Net DnsMonitor.Go.Errors
open DnsMonitor.Go.Url DnsMonitor.Go.UrlText

theorem portNumber_itoa {n : Nat} (h : n < 2 ^ 63) : portNumber (itoa n) = n := by
  have hsign : ∀ c, isDigit c = false → (itoa n).head? ≠ some c := by
    intro c hc hhead
    have := isDigit_of_mem_itoa (List.mem_of_mem_head? hhead)
    simp [hc] at this
  have hatoi : atoi (itoa n) = some (n : Int) := by
    rw [atoi, if_neg (hsign _ (by decide)), if_neg (hsign _ (by decide)), parseDigits_itoa,
      Option.bind_some, if_pos h]
  rw [portNumber, hatoi]
  rfl

def keyPort (scheme : GoString) (port : Nat) : GoString :=
  if itoa port = defaultPort scheme then [] else itoa port

theorem effectivePort_keyPort {scheme : GoString} {n : Nat} (h : n < 2 ^ 63) :
    effectivePort scheme (keyPort scheme n) = n := by
  unfold effectivePort keyPort
  by_cases hd : itoa n = defaultPort scheme
  · rw [if_pos hd, if_pos rfl, ← hd, portNumber_itoa h]
  · rw [if_neg hd, if_neg (itoa_ne_nil n), portNumber_itoa h]

theorem effectivePort_lt {scheme port : GoString} (hs : scheme ∈ schemes)
    (h : validatePort port = .ok ()) : effectivePort scheme port < 2 ^ 63 := by
  unfold effectivePort
  split_ifs with hp
  · simp only [schemes, List.mem_cons, List.not_mem_nil, or_false] at hs
    obtain rfl | rfl | rfl | rfl | rfl | rfl := hs <;> decide
  · obtain ⟨n, hn, h1, h2⟩ := (validatePort_eq_ok.mp h).resolve_left hp
    rw [portNumber, hn, Option.getD_some]
    omega

/-- What the parts of a key are like that was made from a URL. -/
structure IsKeyURL (scheme host : GoString) (port : Nat) (path query rest : GoString) : Prop where
  known : scheme ∈ schemes
  validHost : validateDomainName host = .ok ()
  lower : host.map lowerByte = host
  bound : port < 2 ^ 63
  printed : IsPrinted path
  httpPath : isHTTP scheme = true → path ≠ []
  queryBytes : ∀ b ∈ query, isQueryByte b = true
  querySpace : containsSpace query = false
  spelling : rest = [] ∨ rest = str "?" ∧ query = []

section

variable [CaseTables] {a c : GoString} {p : Protocol}

omit [CaseTables] in
theorem isKeyURL_upstream {up : Upstream} (hq : containsSpace up.rawQuery = false) :
    IsKeyURL (up.scheme.map lowerByte) (up.name.map lowerByte)
      (effectivePort (up.scheme.map lowerByte) up.port) up.canonicalPath up.rawQuery
      (if up.forceQuery then str "?" else []) where
  known := known_schemes
  validHost := validateDomainName_lower up.validName
  lower := map_lowerByte_lowerByte up.name
  bound := effectivePort_lt known_schemes up.validPort
  printed := by
    obtain ⟨htext, hbytes, hprinted, hdecodable⟩ := up.canonicalPath_facts
    exact ⟨htext, hbytes, hdecodable, hprinted⟩
  httpPath := up.canonicalPath_ne_nil
  queryBytes := up.isRendered.queryBytes
  querySpace := hq
  spelling := by
    cases hf : up.forceQuery with
    | true => exact .inr ⟨rfl, up.isRendered.force hf⟩
    | false => exact .inl rfl

theorem endpoint_of_parse {u : URL} {up : Upstream} (hu : parse (withScheme (trimSpace a)) = .ok u)
    (hp : up.parsesTo u) (hs : ¬ isStamp a) :
    endpoint a = some (.url (up.scheme.map lowerByte) (up.name.map lowerByte)
      (effectivePort (up.scheme.map lowerByte) up.port) up.canonicalPath up.rawQuery) ∧
      leftover a = if up.forceQuery then str "?" else [] := by
  have hpath : (if isHTTP (up.scheme.map lowerByte) ∧ u.path = [] then defaultPath
      else u.escapedPath) = up.canonicalPath := by
    simp only [hp.escapedPath, hp.path_eq_nil]
    rfl
  constructor
  · simp [endpoint, hs, hu, Except.toOption, urlEndpoint, Upstream.toLower_scheme hp, URL.hostname,
      URL.port, Upstream.splitHost_eq hp, toLower_name up.validName, hpath, hp.rawQuery]
  · simp [leftover, hs, hu, hp.forceQuery]

theorem isKeyURL_field {value name port scheme path : GoString}
    (h : IsHostField value name port) (hs : scheme ∈ schemes) (hp : IsPrinted path)
    (hhttp : isHTTP scheme = true → path ≠ []) :
    ∃ host n, fieldEndpoint scheme value path = .url scheme host n path [] ∧
      IsKeyURL scheme host n path [] [] := by
  refine ⟨name.map lowerByte, effectivePort scheme port, fieldEndpoint_eq h scheme path, ?_⟩
  exact {
    known := hs
    validHost := validateDomainName_lower h.validName
    lower := map_lowerByte_lowerByte name
    bound := effectivePort_lt hs h.validPort
    printed := hp
    httpPath := hhttp
    queryBytes := by simp
    querySpace := rfl
    spelling := .inl rfl }

theorem key_cases {k : GoString} (h : addressKey a = .ok k) :
    (∃ scheme host port path query rest, IsKeyURL scheme host port path query rest ∧
      k = keyText (.url scheme host port path query) rest) ∨ ∃ t, k = str "dnscrypt://" ++ t := by
  obtain ⟨⟨c, p⟩, hv, _⟩ := bind_eq_ok.mp h
  obtain ⟨e, he, _, rfl⟩ := endpoint_of_addressKey h
  by_cases hs : isStamp a
  · obtain ⟨b, f, _, hb, _, hf, hvalid⟩ := stampFields_of_validateAddress hv hs
    have hfields : stampFields a = some f := by rw [stampFields, hb]; exact hf
    have hend : fieldsEndpoint f = e := by
      rw [endpoint, if_pos hs, hfields] at he
      exact Option.some.inj he
    have hleft : leftover a = fieldsLeftover f := by simp [leftover, hs, hfields]
    rw [hleft, ← hend]
    have hurl : ∀ {value name port scheme path : GoString}, IsHostField value name port →
        scheme ∈ schemes → IsPrinted path → (isHTTP scheme = true → path ≠ []) →
        ∃ scheme' host n path' query rest, IsKeyURL scheme' host n path' query rest ∧
          keyText (fieldEndpoint scheme value path) [] =
            keyText (.url scheme' host n path' query) rest := by
      intro value name port scheme path hfield hscheme hpath hhttp
      obtain ⟨host, n, hend, hkey⟩ := isKeyURL_field hfield hscheme hpath hhttp
      exact ⟨_, _, _, _, _, _, hkey, by rw [hend]⟩
    cases f with
    | udp addr =>
      obtain ⟨ip, port, hfield⟩ := isHostField_of_stampAddress (by decide) hvalid
      exact .inl (hurl hfield (show str "udp" ∈ schemes by decide) isPrinted_nil (by decide))
    | dot host =>
      obtain ⟨name, port, hfield⟩ := isHostField_of_stampHost hvalid
      exact .inl (hurl hfield (show str "tls" ∈ schemes by decide) isPrinted_nil (by decide))
    | doq host =>
      obtain ⟨name, port, hfield⟩ := isHostField_of_stampHost hvalid
      exact .inl (hurl hfield (show str "quic" ∈ schemes by decide) isPrinted_nil (by decide))
    | doh host path =>
      obtain ⟨name, port, hfield⟩ := isHostField_of_stampHost hvalid.1
      have hhead : (escape .path path).head? = some (byte '/') := by
        obtain ⟨t, ht⟩ := hasPrefix_iff.mp hvalid.2
        exact escape_head (by rw [← ht]; rfl)
      refine .inl (hurl hfield (show str "https" ∈ schemes by decide)
        (isPrinted_escape hvalid.2) fun _ hnil => ?_)
      simp [hnil] at hhead
    | dnscrypt addr publicKey provider =>
      right
      simp only [fieldsEndpoint, keyText_dnscrypt]
      exact ⟨_, rfl⟩
  · obtain ⟨⟨⟨_, _, hspace⟩, _⟩, ⟨hst, -⟩ | ⟨-, u, hu, hvalid⟩⟩ := validateAddress_eq_ok.mp hv
    · exact absurd hst hs
    obtain ⟨up, ht, hp⟩ := exists_upstream hu hvalid
    obtain ⟨hend, hleft⟩ := endpoint_of_parse hu hp hs
    rw [hend] at he
    obtain rfl := Option.some.inj he
    have hq := containsSpace_rawQuery ((containsSpace_withScheme _).trans hspace) ht
    exact .inl ⟨_, _, _, _, _, _, isKeyURL_upstream hq, by rw [hleft]⟩

theorem not_dnscrypt (t : GoString) {r : GoString × Protocol} :
    validateAddress (str "dnscrypt://" ++ t) ≠ .ok r := by
  intro hv
  obtain ⟨t', ht'⟩ := trimSpace_graph (p := str "dnscrypt://")
    (List.all_eq_true.mp (by decide)) (by decide) t
  have htext : str "dnscrypt://" ++ t' = str "dnscrypt" ++ byte ':' :: (str "//" ++ t') := rfl
  have hs : ¬ isStamp (str "dnscrypt://" ++ t) := by
    have hpre : hasPrefix (str "dnscrypt" ++ byte ':' :: (str "//" ++ t')) (str "sdns://") =
        false := rfl
    rw [isStamp, ht', htext, hpre]
    decide
  obtain ⟨up, ht, _⟩ := upstream_of_validateAddress hv hs
  have hcontains : contains (str "dnscrypt://" ++ t') (str "://") = true :=
    contains_iff.mpr ⟨str "dnscrypt", t', by rw [htext]; rfl⟩
  rw [withScheme, ht', if_pos hcontains, htext] at ht
  have hno : byte ':' ∉ up.scheme := fun hm => by
    have := up.isRendered.isScheme.2 _ hm
    revert this
    decide
  obtain ⟨tail, htail⟩ : ∃ tail, str "dnscrypt" ++ byte ':' :: (str "//" ++ t') =
      up.scheme ++ byte ':' :: tail := by
    cases ht with
    | inl ht => exact ⟨_, by rw [ht, Upstream.text, render]; simp; rfl⟩
    | inr ht => exact ⟨_, by rw [ht, Upstream.text, render]; simp; rfl⟩
  have hcut := congrArg (cut (byte ':')) htail
  rw [cut_append (by decide), cut_append hno, Option.some.injEq, Prod.mk.injEq] at hcut
  have hknown : up.scheme.map lowerByte ∈ schemes := known_schemes
  rw [← hcut.1] at hknown
  revert hknown
  decide

omit [CaseTables] in
theorem validOptionalPort_key (scheme : GoString) (port : Nat) :
    validOptionalPort (portText (keyPort scheme port)) = true := by
  unfold keyPort
  split_ifs
  · rfl
  · have hd : ∀ b ∈ itoa port, isDigit b = true := fun b => isDigit_of_mem_itoa
    simpa [portText, itoa_ne_nil, validOptionalPort] using hd

section

variable {scheme host path query rest : GoString} {port : Nat}
  (h : IsKeyURL scheme host port path query rest)

include h

omit [CaseTables] in
theorem keyHost_bytes : ∀ b ∈ host ++ portText (keyPort scheme port), isHostByte b = true :=
  host_bytes (bytes_of_validateDomainName h.validHost) (validOptionalPort_key scheme port)

omit [CaseTables] in
theorem isRendered_key : IsRendered scheme (host ++ portText (keyPort scheme port)) path
    (rest ≠ []) query where
  isScheme := (scheme_facts h.known).2.2.2.2.2.2
  hostBytes b hb := (host_facts (keyHost_bytes h b hb)).2.1
  isPathText := h.printed.isPathText
  pathBytes := h.printed.bytes
  queryBytes := h.queryBytes
  force hf := by
    obtain hr | ⟨_, hq⟩ := h.spelling
    · simp [hr] at hf
    · exact hq

omit [CaseTables] in
theorem containsSpace_keyText :
    containsSpace (keyText (.url scheme host port path query) rest) = false := by
  obtain ⟨x, hx⟩ := h.printed.decodable
  have htext : keyText (.url scheme host port path query) rest =
      (scheme ++ byte ':' :: byte '/' :: byte '/' :: (host ++ portText (keyPort scheme port)) ++
        path) ++ queryText (rest ≠ []) query := rfl
  rw [htext, containsSpace_append]
  · simp only [queryText]
    split_ifs with hq
    · rw [containsSpace_cons (by decide)]
      exact h.querySpace
    · rfl
  · intro b hb
    simp only [List.append_assoc, List.cons_append, List.mem_append, List.mem_cons] at hb
    obtain hb | rfl | rfl | rfl | hb | hb | hb := hb
    · exact graph_of_scheme ((scheme_facts h.known).2.2.2.2.2.2.2 b hb)
    · decide
    · decide
    · decide
    · exact (host_facts (keyHost_bytes h b (List.mem_append_left _ hb))).2.2.1
    · exact (host_facts (keyHost_bytes h b (List.mem_append_right _ hb))).2.2.1
    · rw [← h.printed.printed] at hb
      have hbyte := printedPath_bytes hx b hb
      simp only [isPathByte, Bool.and_eq_true] at hbyte
      exact hbyte.1.1

theorem addressKey_keyURL {k : GoString}
    (hk : addressKey (keyText (.url scheme host port path query) rest) = .ok k) :
    k = keyText (.url scheme host port path query) rest := by
  have hspace := containsSpace_keyText h
  have hrendered := isRendered_key h
  have hname := bytes_of_validateDomainName h.validHost
  have hport := validOptionalPort_key scheme port
  have htext : keyText (.url scheme host port path query) rest =
      render scheme (host ++ portText (keyPort scheme port)) path (rest ≠ []) query := rfl
  obtain ⟨u, hu, hp⟩ := parse_render_ok hrendered (parseHost_name hname hport) h.printed.decodable
  have htail : (portText (keyPort scheme port)).tail = keyPort scheme port := by
    unfold portText
    split_ifs with hnil
    · rw [hnil]
      rfl
    · rfl
  have hsplit := splitHost_name hname hport
  rw [(scheme_facts h.known).2.1] at hp
  rw [htail] at hsplit
  have htrim := trimSpace_of_not_containsSpace hspace
  have hs : ¬ isStamp (keyText (.url scheme host port path query) rest) := by
    rw [isStamp, htrim, htext, not_stamp_render h.known]
    simp
  have hcontains : contains (keyText (.url scheme host port path query) rest) (str "://") = true :=
    contains_iff.mpr ⟨scheme, host ++ portText (keyPort scheme port) ++ path ++
      queryText (rest ≠ []) query, by simp [htext, render, str]⟩
  have hparse : parse (withScheme (trimSpace (keyText (.url scheme host port path query) rest))) =
      .ok u := by rw [htrim, withScheme, if_pos hcontains, htext, hu]
  obtain ⟨⟨c, p⟩, hv, _⟩ := bind_eq_ok.mp hk
  obtain ⟨e, he, _, hkey⟩ := addressKey_url hv hs
  have hlower : toLower u.hostname = host := by
    rw [URL.hostname, hp.host, hsplit, toLower_name h.validHost, h.lower]
  have hpath : (if isHTTP scheme = true ∧ u.path = [] then defaultPath else u.escapedPath) =
      path := by
    rw [if_neg fun hc => h.httpPath hc.1 (hp.path_eq_nil.mp hc.2), hp.escapedPath,
      h.printed.printed]
  have hend : endpoint (keyText (.url scheme host port path query) rest) =
      some (.url scheme host port path query) := by
    rw [endpoint, if_neg hs, hparse]
    simp only [Except.toOption, Option.map_some, urlEndpoint, keyURL_scheme hp h.known, hlower,
      hpath, hp.rawQuery]
    rw [URL.port, hp.host, hsplit, effectivePort_keyPort h.bound]
  have hleft : leftover (keyText (.url scheme host port path query) rest) = rest := by
    rw [leftover, if_neg hs, hparse]
    dsimp only
    rw [hp.forceQuery]
    obtain hr | ⟨hr, _⟩ := h.spelling
    · simp [hr]
    · simp [hr, str]
  rw [hend] at he
  rw [hkey, hleft, ← Option.some.inj he] at hk
  exact (Except.ok.inj hk).symm

end

theorem key_ne_nil {k : GoString} (h : addressKey a = .ok k) : k ≠ [] := by
  obtain ⟨scheme, host, port, path, query, rest, hkey, rfl⟩ | ⟨t, rfl⟩ := key_cases h
  · simp [keyText, render, (scheme_facts hkey.known).2.2.1]
  · simp [str]

theorem addressKey_key {k l : GoString} (h : addressKey a = .ok k) (hl : addressKey k = .ok l) :
    l = k := by
  obtain ⟨scheme, host, port, path, query, rest, hkey, rfl⟩ | ⟨t, rfl⟩ := key_cases h
  · exact addressKey_keyURL hkey hl
  · obtain ⟨r, hv, _⟩ := bind_eq_ok.mp hl
    exact absurd hv (not_dnscrypt t)

end

end DnsMonitor.Monitor.Keys
