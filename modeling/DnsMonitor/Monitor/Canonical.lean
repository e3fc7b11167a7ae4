import DnsMonitor.Monitor.Address

namespace DnsMonitor.Monitor.Canonical

open DnsMonitor.Model DnsMonitor.Monitor.Validate DnsMonitor.Monitor.Stamp
open DnsMonitor.Monitor.Address
open DnsMonitor.Go.Strings DnsMonitor.Go.Unicode DnsMonitor.Go.Net DnsMonitor.Go.Errors
open DnsMonitor.Go.Url DnsMonitor.Go.UrlText

def isStamp (a : GoString) : Prop := hasPrefix (trimSpace a) (str "sdns://") = true

def addressText (a : GoString) : GoString :=
  match cut (byte '#') (withScheme (trimSpace a)) with
  | some (text, _) => text
  | none => withScheme (trimSpace a)

def addressScheme (a : GoString) : GoString :=
  match cut (byte ':') (addressText a) with
  | some (scheme, _) => scheme.map lowerByte
  | none => []

def addressPath (a : GoString) : GoString :=
  match cut (byte ':') (addressText a) with
  | some (_, rest) => (splitAuthority (splitQuery rest).1).2
  | none => []

/-- The path that is stored in the place of the path given. -/
def storedPath (scheme path : GoString) : GoString :=
  if isHTTP scheme ∧ path = [] then defaultPath else printedPath path

/-- The address keeps within the limit when its path is replaced by the stored one. -/
def fits (a : GoString) : Prop :=
  (addressText a).length + (storedPath (addressScheme a) (addressPath a)).length ≤
    4096 + (addressPath a).length

/-- What the checks before the transport ask of a trimmed text. -/
def isWord (a : GoString) : Prop :=
  (a ≠ [] ∧ a.length ≤ 4096 ∧ containsSpace a = false) ∧
    hasPrefix a (str "[/") = false ∧ a ≠ str "#"

section

variable [CaseTables] {a c : GoString} {p : Protocol}

theorem validateAddress_eq_ok : validateAddress a = .ok (c, p) ↔ isWord (trimSpace a) ∧
    ((isStamp a ∧ validateStamp (trimPrefix (trimSpace a) (str "sdns://")) = .ok p ∧
        c = str "sdns://" ++ trimRight (byte '=') (trimPrefix (trimSpace a) (str "sdns://"))) ∨
      (¬ isStamp a ∧ ∃ u, parse (withScheme (trimSpace a)) = .ok u ∧
        validateURL u = .ok (c, p))) := by
  simp only [validateAddress, bind_eq_ok, require_eq_ok, isWord, isStamp, not_or, not_lt,
    Bool.not_eq_true]
  by_cases hs : hasPrefix (trimSpace a) (str "sdns://") = true
  · simp only [hs, if_true, bind_eq_ok, pure_eq_ok, Prod.mk.injEq]
    constructor
    · rintro ⟨_, hw, _, hd, q, hq, hc, rfl⟩
      exact ⟨⟨hw, hd⟩, Or.inl ⟨trivial, hq, hc.symm⟩⟩
    · rintro ⟨⟨hw, hd⟩, ⟨-, hq, hc⟩ | ⟨hn, -⟩⟩
      · exact ⟨(), hw, (), hd, p, hq, hc.symm, rfl⟩
      · exact absurd hn (by decide)
  · simp only [hs, if_false, Bool.false_eq_true, true_and, false_and, false_or]
    constructor
    · rintro ⟨_, hw, _, hd, h⟩
      split at h
      · simp at h
      · next u hu => exact ⟨⟨hw, hd⟩, u, hu, h⟩
    · rintro ⟨⟨hw, hd⟩, u, hu, h⟩
      exact ⟨(), hw, (), hd, by rw [hu]; exact h⟩

omit [CaseTables] in
theorem isStamp_iff : isStamp a ↔ ∃ e, trimSpace a = str "sdns://" ++ e := by
  rw [isStamp, hasPrefix_iff]
  exact exists_congr fun e => eq_comm

omit [CaseTables] in
theorem validateStamp_trimRight (e : GoString) :
    validateStamp (trimRight (byte '=') e) = validateStamp e := by
  rw [validateStamp, trimRight_trimRight, validateStamp]

theorem validateAddress_stamp (h : validateAddress a = .ok (c, p)) (hs : isStamp a) :
    validateAddress c = .ok (c, p) := by
  obtain ⟨⟨⟨hne, hlen, hspace⟩, -⟩, hcase⟩ := validateAddress_eq_ok.mp h
  obtain ⟨e, he⟩ := isStamp_iff.mp hs
  obtain ⟨-, hv, hc⟩ | ⟨hn, -⟩ := hcase
  · rw [he, trimPrefix_append] at hv hc
    obtain ⟨r, hr⟩ := trimRight_prefix (byte '=') e
    have hsplit : trimSpace a = c ++ r := by rw [he, hc, List.append_assoc, hr]
    rw [hsplit] at hlen hspace
    have hcs := containsSpace_prefix hspace
    have htrim := trimSpace_of_not_containsSpace hcs
    have hlen' : c.length ≤ 4096 := by
      rw [List.length_append] at hlen
      omega
    have hpre : hasPrefix (trimSpace c) (str "sdns://") = true := by
      rw [htrim, hc]
      exact hasPrefix_iff.mpr (List.prefix_append _ _)
    have hword : isWord (trimSpace c) := by
      rw [htrim]
      refine ⟨⟨by simp [hc, str], hlen', hcs⟩, ?_, ?_⟩
      · rw [hc]
        rfl
      · rw [hc]
        simp [str]
    refine validateAddress_eq_ok.mpr ⟨hword, Or.inl ⟨hpre, ?_, ?_⟩⟩
    · rw [htrim, hc, trimPrefix_append, validateStamp_trimRight, hv]
    · rw [htrim, hc, trimPrefix_append, trimRight_trimRight]
  · exact absurd hs hn

omit [CaseTables] in
theorem mem_of_protocolOf {scheme : GoString} (h : protocolOf scheme = some p) :
    scheme ∈ [str "udp", str "tcp", str "tls", str "https", str "h3", str "quic"] := by
  simp only [protocolOf] at h
  split_ifs at h <;> simp_all

omit [CaseTables] in
theorem canonicalPath_graph (up : Upstream) : ∀ b ∈ up.canonicalPath, isGraph b = true := by
  obtain ⟨x, hx⟩ := up.decodable
  simp only [Upstream.canonicalPath]
  split_ifs
  · exact List.all_eq_true.mp (by decide)
  · intro b hb
    have h := printedPath_bytes hx b hb
    simp only [isPathByte, Bool.and_eq_true] at h
    exact h.1.1

omit [CaseTables] in
theorem graph_of_scheme {b : UInt8} (h : isSchemeByte b = true) : isGraph b = true := by
  revert h b
  apply forall_byte
  decide +kernel

omit [CaseTables] in
theorem canonical_graph (up : Upstream) : ∃ front, up.canonical.text =
    front ++ queryText up.forceQuery up.rawQuery ∧ ∀ b ∈ front, isGraph b = true := by
  refine ⟨up.canonical.scheme ++ byte ':' :: byte '/' :: byte '/' ::
    (up.canonical.name ++ portText up.canonical.port) ++ up.canonicalPath, rfl, ?_⟩
  intro b hb
  simp only [List.append_assoc, List.cons_append, List.mem_append, List.mem_cons] at hb
  obtain hb | rfl | rfl | rfl | hb | hb | hb := hb
  · exact graph_of_scheme (up.canonical.isRendered.isScheme.2 b hb)
  · decide
  · decide
  · decide
  · exact (name_facts (up.canonical.name_bytes b hb)).2.2.1
  · exact (host_facts (host_bytes up.canonical.name_bytes up.canonical.validOptionalPort b
      (List.mem_append_right _ hb))).2.2.1
  · exact canonicalPath_graph up b hb

omit [CaseTables] in
theorem containsSpace_render (up : Upstream) :
    containsSpace up.canonical.text = containsSpace up.rawQuery := by
  obtain ⟨front, htext, hfront⟩ := canonical_graph up
  rw [htext, containsSpace_append hfront]
  simp only [queryText]
  split_ifs with h
  · exact containsSpace_cons (by decide) _
  · rw [not_or, not_not] at h
    rw [h.2]

omit [CaseTables] in
theorem containsSpace_withScheme (s : GoString) :
    containsSpace (withScheme s) = containsSpace s := by
  simp only [withScheme]
  split_ifs
  · rfl
  · exact containsSpace_append (List.all_eq_true.mp (by decide)) s

omit [CaseTables] in
theorem containsSpace_rawQuery {up : Upstream} {t : GoString} (h : containsSpace t = false)
    (ht : t = up.text ∨ t = up.text ++ [byte '#']) : containsSpace up.rawQuery = false := by
  have htext : containsSpace up.text = false := by
    obtain rfl | rfl := ht
    · exact h
    · exact containsSpace_prefix h
  by_cases hq : up.rawQuery = []
  · rw [hq]
    rfl
  · refine containsSpace_suffix htext ⟨up.scheme ++ byte ':' :: byte '/' :: byte '/' ::
      (up.name ++ portText up.port) ++ up.path ++ [byte '?'], ?_⟩
    simp [Upstream.text, render, queryText, hq]

omit [CaseTables] in
theorem render_starts {scheme : GoString}
    (h : scheme ∈ [str "udp", str "tcp", str "tls", str "https", str "h3", str "quic"])
    (host path query : GoString) (force : Bool) :
    render scheme host path force query ≠ [] ∧
      hasPrefix (render scheme host path force query) (str "[/") = false ∧
      render scheme host path force query ≠ str "#" ∧
      hasPrefix (render scheme host path force query) (str "sdns://") = false := by
  simp only [List.mem_cons, List.not_mem_nil, or_false] at h
  obtain rfl | rfl | rfl | rfl | rfl | rfl := h
  all_goals exact ⟨by simp [render], rfl, by simp [render, str], rfl⟩

omit [CaseTables] in
theorem isWord_canonical {up : Upstream} (h : containsSpace up.rawQuery = false) :
    isWord up.canonical.text ↔ up.canonical.text.length ≤ 4096 := by
  have hspace := (containsSpace_render up).trans h
  obtain ⟨hne, hrule, hcomment, -⟩ := render_starts (mem_of_protocolOf up.known)
    (up.name.map lowerByte ++ portText up.port) up.canonicalPath up.rawQuery up.forceQuery
  exact ⟨fun hw => hw.1.2.1, fun hl => ⟨⟨hne, hl, hspace⟩, hrule, hcomment⟩⟩

omit [CaseTables] in
theorem withScheme_text (up : Upstream) : withScheme up.text = up.text := by
  have hc : contains up.text (str "://") = true := by
    refine contains_iff.mpr ⟨up.scheme, up.name ++ portText up.port ++ up.path ++
      queryText up.forceQuery up.rawQuery, ?_⟩
    simp [Upstream.text, render, str]
  rw [withScheme, if_pos hc]

omit [CaseTables] in
theorem not_stamp_text (up : Upstream) : hasPrefix up.canonical.text (str "sdns://") = false :=
  (render_starts (mem_of_protocolOf up.known) _ _ _ _).2.2.2

theorem validateAddress_canonical {up : Upstream} (h : containsSpace up.rawQuery = false) :
    validateAddress up.canonical.text = .ok (up.canonical.text, up.protocol) ↔
      up.canonical.text.length ≤ 4096 := by
  have htrim := trimSpace_of_not_containsSpace ((containsSpace_render up).trans h)
  have hstamp : ¬ isStamp up.canonical.text := by
    rw [isStamp, htrim, not_stamp_text]
    simp
  rw [validateAddress_eq_ok, htrim, isWord_canonical h, withScheme_text]
  obtain ⟨u, hu, hp⟩ := up.canonical.parse_text
  have hv := Upstream.validateURL_eq hp
  rw [up.canonical_text] at hv
  exact ⟨fun hw => hw.1, fun hl => ⟨hl, Or.inr ⟨hstamp, u, hu, hv⟩⟩⟩

theorem upstream_of_validateAddress (h : validateAddress a = .ok (c, p)) (hs : ¬ isStamp a) :
    ∃ up : Upstream, (withScheme (trimSpace a) = up.text ∨
      withScheme (trimSpace a) = up.text ++ [byte '#']) ∧
      containsSpace up.rawQuery = false ∧ c = up.canonical.text ∧ p = up.protocol := by
  obtain ⟨⟨⟨-, -, hspace⟩, -⟩, hcase⟩ := validateAddress_eq_ok.mp h
  obtain ⟨hst, -⟩ | ⟨-, u, hu, hv⟩ := hcase
  · exact absurd hst hs
  · obtain ⟨up, ht, hp⟩ := exists_upstream hu hv
    rw [Upstream.validateURL_eq hp, Except.ok.injEq, Prod.mk.injEq] at hv
    refine ⟨up, ht, containsSpace_rawQuery ?_ ht, hv.1.symm, hv.2.symm⟩
    rw [containsSpace_withScheme, hspace]

omit [CaseTables] in
theorem addressText_eq {up : Upstream} (ht : withScheme (trimSpace a) = up.text ∨
    withScheme (trimSpace a) = up.text ++ [byte '#']) : addressText a = up.text := by
  have hno : byte '#' ∉ up.text := fun hm => by
    have := up.isRendered.bytes _ hm
    simp [isQueryByte] at this
  rw [addressText]
  cases ht with
  | inl ht => rw [ht, cut_eq_none.mpr hno]
  | inr ht => rw [ht, cut_append hno]

omit [CaseTables] in
theorem fits_iff {up : Upstream} (ht : addressText a = up.text) :
    fits a ↔ up.canonical.text.length ≤ 4096 := by
  have hcolon : byte ':' ∉ up.scheme := fun hm => by
    have := up.isRendered.isScheme.2 _ hm
    revert this
    decide
  have hslash : byte '/' ∉ up.name ++ portText up.port := fun hm =>
    (body_of_authority (up.isRendered.hostBytes _ hm)).2.1 rfl
  have hcut : cut (byte ':') (addressText a) = some (up.scheme,
      (byte '/' :: byte '/' :: (up.name ++ portText up.port) ++ up.path) ++
        queryText up.forceQuery up.rawQuery) := by
    rw [ht, Upstream.text, render, ← cut_append hcolon]
    simp
  have hpath : addressPath a = up.path := by
    rw [addressPath, hcut]
    dsimp only
    rw [splitQuery_append up.isRendered.no_question up.isRendered.force,
      splitAuthority_append hslash up.isRendered.isPathText]
  have hscheme : addressScheme a = up.scheme.map lowerByte := by rw [addressScheme, hcut]
  have hstored : storedPath (addressScheme a) (addressPath a) = up.canonicalPath := by
    rw [hscheme, hpath]
    rfl
  rw [fits, hstored, hpath, ht]
  simp only [Upstream.text, Upstream.canonical, render, List.length_append, List.length_cons,
    List.length_map]
  omega

/-- A stored address can be submitted again exactly when it is a stamp or printing it did not
take it over the limit. -/
theorem validateAddress_again (h : validateAddress a = .ok (c, p)) :
    validateAddress c = .ok (c, p) ↔ isStamp a ∨ fits a := by
  by_cases hs : isStamp a
  · exact ⟨fun _ => Or.inl hs, fun _ => validateAddress_stamp h hs⟩
  · obtain ⟨up, ht, hq, rfl, rfl⟩ := upstream_of_validateAddress h hs
    rw [validateAddress_canonical hq, fits_iff (addressText_eq ht)]
    exact ⟨Or.inr, fun hf => hf.resolve_left hs⟩

end

section Query

variable {query : GoString} (hq : ∀ b ∈ query, isQueryByte b = true)

def queryUpstream : Upstream where
  scheme := str "https"
  name := str "dns.example"
  port := []
  path := []
  forceQuery := false
  rawQuery := query
  protocol := .doh
  isRendered := ⟨⟨⟨byte 'h', rfl, by decide⟩, List.all_eq_true.mp (by decide)⟩,
    List.all_eq_true.mp (by decide), Or.inl rfl, by simp, hq, by simp⟩
  known := by decide
  validName := by decide
  digits := by simp
  validPort := by decide
  decodable := ⟨[], rfl⟩
  bare := Or.inl (by decide)
  plain := fun h => absurd h (by decide)

variable (hne : query ≠ [])

include hne

theorem queryUpstream_text : (queryUpstream hq).text = str "https://dns.example?" ++ query := by
  simp [Upstream.text, queryUpstream, render, queryText, portText, str, hne]

theorem queryUpstream_canonical :
    (queryUpstream hq).canonical.text = str "https://dns.example/dns-query?" ++ query := by
  have hpath : (queryUpstream hq).canonicalPath = defaultPath := if_pos ⟨rfl, rfl⟩
  have hscheme : (str "https").map lowerByte = str "https" := by decide
  have hname : (str "dns.example").map lowerByte = str "dns.example" := by decide
  simp only [Upstream.text, Upstream.canonical, hpath]
  simp only [queryUpstream, hscheme, hname]
  simp [render, queryText, portText, defaultPath, str, hne]

variable [CaseTables]

include hq in
theorem validateAddress_queryUpstream (hg : ∀ b ∈ query, isGraph b = true)
    (hlen : query.length ≤ 4076) : validateAddress (str "https://dns.example?" ++ query) =
      .ok (str "https://dns.example/dns-query?" ++ query, .doh) := by
  have hgraph : ∀ b ∈ str "https://dns.example?" ++ query, isGraph b = true := by
    have hall : ∀ b ∈ str "https://dns.example?", isGraph b = true :=
      List.all_eq_true.mp (by decide)
    intro b hb
    exact (List.mem_append.mp hb).elim (hall b) (hg b)
  have hspace := containsSpace_of_graph hgraph
  have htrim := trimSpace_of_not_containsSpace hspace
  have hlen' : (str "https://dns.example?" ++ query).length ≤ 4096 := by
    have hl : (str "https://dns.example?").length = 20 := by decide
    rw [List.length_append, hl]
    omega
  have hword : isWord (str "https://dns.example?" ++ query) :=
    ⟨⟨by simp [str], hlen', hspace⟩, rfl, by simp [str]⟩
  have hstamp : ¬ isStamp (str "https://dns.example?" ++ query) := by
    rw [isStamp, htrim]
    exact Bool.eq_false_iff.mp rfl
  obtain ⟨u, hu, hp⟩ := (queryUpstream hq).parse_text
  have hscheme := withScheme_text (queryUpstream hq)
  rw [queryUpstream_text hq hne] at hu hscheme
  refine validateAddress_eq_ok.mpr ⟨by rwa [htrim], Or.inr ⟨hstamp, u, ?_, ?_⟩⟩
  · rw [htrim, hscheme, hu]
  · rw [Upstream.validateURL_eq hp, queryUpstream_canonical hq hne]
    rfl

end Query

section

local instance : CaseTables := asciiTables

def longQuery : GoString := List.replicate 4070 (byte 'x')

/-- The default path takes the stored text over the limit. -/
theorem longQuery_rejected :
    validateAddress (str "https://dns.example?" ++ longQuery) =
        .ok (str "https://dns.example/dns-query?" ++ longQuery, .doh) ∧
      validateAddress (str "https://dns.example/dns-query?" ++ longQuery) ≠
        .ok (str "https://dns.example/dns-query?" ++ longQuery, .doh) := by
  have hx : ∀ b ∈ longQuery, b = byte 'x' := fun b => List.eq_of_mem_replicate
  have hq : ∀ b ∈ longQuery, isQueryByte b = true := fun b hb => by
    rw [hx b hb]
    decide
  have hg : ∀ b ∈ longQuery, isGraph b = true := fun b hb => by
    rw [hx b hb]
    decide
  have hlen : longQuery.length = 4070 := List.length_replicate
  have hne : longQuery ≠ [] := by
    intro hnil
    rw [hnil] at hlen
    simp at hlen
  refine ⟨validateAddress_queryUpstream hq hne hg (by omega), fun h => ?_⟩
  rw [← queryUpstream_canonical hq hne] at h
  have hl := (validateAddress_canonical (containsSpace_of_graph hg)).mp h
  rw [queryUpstream_canonical hq hne] at hl
  have hpre : (str "https://dns.example/dns-query?").length = 30 := by decide
  rw [List.length_append, hlen, hpre] at hl
  omega

theorem bareAddress_again : ∃ c p, validateAddress (str "1.1.1.1:0053") = .ok (c, p) ∧
    validateAddress c = .ok (c, p) := by
  have h : validateAddress (str "1.1.1.1:0053") = .ok (str "udp://1.1.1.1:0053", .udp) := by
    decide +kernel
  refine ⟨_, _, h, (validateAddress_again h).mpr (Or.inr ?_)⟩
  simp only [fits]
  decide +kernel

end

end DnsMonitor.Monitor.Canonical
