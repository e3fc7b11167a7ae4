import DnsMonitor.Monitor.Validate

namespace DnsMonitor.Monitor.Config

open DnsMonitor.Model DnsMonitor.Monitor.Validate
open DnsMonitor.Go.Strings DnsMonitor.Go.Unicode DnsMonitor.Go.Net DnsMonitor.Go.Errors
open DnsMonitor.Go.UrlText DnsMonitor.Go.Float

def queryTypes : List GoString :=
  [str "A", str "CNAME", str "MX", str "NS", str "TXT", str "SOA", str "SRV", str "CAA",
    str "HTTPS", str "SVCB", str "PTR"]

section

variable [CaseTables]

def normalizeType (type : GoString) : GoString :=
  let type := toUpper (trimSpace type)
  if type = [] then str "A" else type

def validateDomain (d : Domain) : Except String Domain := do
  let name := toLower (trimSuffix (trimSpace d.name) (str "."))
  let type := normalizeType d.type
  validateDomainName name
  require (type ∈ queryTypes)
    "查询类型支持 A、CNAME、MX、NS、TXT、SOA、SRV、CAA、HTTPS、SVCB、PTR（仅 IPv4）"
  pure ⟨name, type⟩

/-- The loop over the domains, with the index and the keys seen before. -/
def validateDomains : Nat → List GoString → List Domain → Except String (List Domain)
  | _, _, [] => pure []
  | i, seen, d :: ds => do
    let d ← (validateDomain d).mapError fun e => "域名 " ++ toString (i + 1) ++ ": " ++ e
    let key := d.name ++ byte '/' :: d.type
    require (key ∉ seen) "探测域名与记录类型不能重复"
    let ds ← validateDomains (i + 1) (key :: seen) ds
    pure (d :: ds)

def validateListen (listen : GoString) : Except String GoString :=
  match splitHostPort (trimSpace listen) with
  | none => .error "监听地址请填写 IPv4:端口，例如 0.0.0.0:8080"
  | some (host, port) =>
    match (parseIP host).bind IP.to4 with
    | none => .error "监听地址必须为 IPv4"
    | some ip => do
      require (byte ':' ∉ host) "监听地址必须为 IPv4"
      require (validatePort port = .ok () ∧ port ≠ []) "监听端口范围必须为 1–65535"
      pure (joinHostPort ip.string port)

variable {F : Type} [GoFloat F]

def isBetween (low x high : F) : Prop := low ≤ x ∧ x ≤ high

instance (low x high : F) : Decidable (isBetween low x high) :=
  inferInstanceAs (Decidable (_ ∧ _))

def validateLimits (c : Config F) : Except String Unit := do
  require (¬ (c.intervalSeconds < 5 ∨ 86400 < c.intervalSeconds)) "探测周期范围为 5–86400 秒"
  require (¬ (c.timeoutSeconds < 1 ∨ 60 < c.timeoutSeconds)) "超时范围为 1–60 秒"
  require (¬ (c.concurrency < 0 ∨ 50 < c.concurrency)) "并发范围为 0–50，0 表示暂停"
  require (¬ (GoFloat.isNaN c.maxBackoffHours ∨ GoFloat.isInf c.maxBackoffHours ∨
    c.maxBackoffHours < ofInt 0 ∨ ofInt 24 < c.maxBackoffHours))
    "最大退避范围为 0–24 小时，0 表示禁用"
  require (¬ (c.referenceTTLSeconds < 0 ∨ 86400 < c.referenceTTLSeconds))
    "可信参考缓存范围为 0–86400 秒，0 表示不使用缓存"
  require (¬ (GoFloat.isNaN c.referenceHistoryHours ∨ GoFloat.isInf c.referenceHistoryHours ∨
    c.referenceHistoryHours < ofInt 0 ∨ ofInt 720 < c.referenceHistoryHours))
    "可信近期历史范围为 0–720 小时，0 表示关闭历史参考"
  require (¬ (c.ratingWindowMinutes < 5 ∨ 1440 < c.ratingWindowMinutes))
    "评级统计窗口范围为 5–1440 分钟"
  require (¬ (c.ratingMinSamples < 1 ∨ 100 < c.ratingMinSamples)) "评级最低采样数范围为 1–100 次"
  require (¬ (c.ratingMinCoverageMinutes < 0 ∨ 1440 < c.ratingMinCoverageMinutes))
    "评级最低覆盖时间范围为 0–1440 分钟，0 表示不要求覆盖时间"
  require (¬ c.ratingWindowMinutes < c.ratingMinCoverageMinutes)
    "评级最低覆盖时间不能超过评级统计窗口"
  require (isBetween (ofInt 0) c.ratingWAvail (ofInt 1) ∧
    isBetween (ofInt 0) c.ratingWSuccess (ofInt 1) ∧
    isBetween (ofInt 0) c.ratingWLatency (ofInt 1)) "评级权重须为 0–1 之间的小数"
  require (¬ GoFloat.ofRat (1 / 1000) <
    GoFloat.abs (c.ratingWAvail + c.ratingWSuccess + c.ratingWLatency - ofInt 1))
    "三项评级权重之和必须等于 1"
  require (¬ (c.domains.length = 0 ∨ 100 < c.domains.length)) "请配置 1–100 个探测域名"

/-- `ValidateConfig`, returning the value it leaves behind. -/
def validateConfig (c : Config F) : Except String (Config F) := do
  let listen ← validateListen c.listen
  validateLimits c
  let domains ← validateDomains 0 [] c.domains
  pure { c with listen, domains }

end

theorem validateListen_eq_ok {listen out : GoString} (h : validateListen listen = .ok out) :
    ∃ (ip : IPv4) (port : GoString), out = ip.string ++ byte ':' :: port ∧ port ≠ [] ∧
      validatePort port = .ok () := by
  simp only [validateListen] at h
  split at h
  · simp at h
  · next host port hs =>
    split at h
    · simp at h
    · next ip hip =>
      simp only [bind_eq_ok, require_eq_ok, pure_eq_ok] at h
      obtain ⟨_, hc, _, ⟨hp, hne⟩, rfl⟩ := h
      have hcolon : byte ':' ∉ ip.string := ip.not_mem_string (by decide) (by decide)
      exact ⟨ip, port, by rw [joinHostPort, if_neg hcolon], hne, hp⟩

theorem byte_facts : ∀ b,
    (isAtoiByte b = true → isGraph b = true ∧ b ≠ byte ':' ∧ b ≠ byte '[' ∧ b ≠ byte ']') ∧
    (isDigit b = true ∨ b = byte '.' → isGraph b = true ∧ b ≠ byte '[' ∧ b ≠ byte ']') ∧
    (isNameByte b = true → isGraph b = true ∧ isAscii b = true) := by
  apply forall_byte
  decide +kernel

theorem atoi_byte_facts {b : UInt8} (h : isAtoiByte b = true) :
    isGraph b = true ∧ b ≠ byte ':' ∧ b ≠ byte '[' ∧ b ≠ byte ']' :=
  (byte_facts b).1 h

theorem ip_byte_facts {b : UInt8} (h : isDigit b = true ∨ b = byte '.') :
    isGraph b = true ∧ b ≠ byte '[' ∧ b ≠ byte ']' :=
  (byte_facts b).2.1 h

theorem validateListen_again {listen out : GoString} (h : validateListen listen = .ok out) :
    validateListen out = .ok out := by
  obtain ⟨ip, port, rfl, hne, hp⟩ := validateListen_eq_ok h
  have hbytes := bytes_of_validatePort hp
  have hcolon : byte ':' ∉ ip.string := ip.not_mem_string (by decide) (by decide)
  have htrim : trimSpace (ip.string ++ byte ':' :: port) = ip.string ++ byte ':' :: port := by
    refine trimSpace_of_not_containsSpace (containsSpace_of_graph fun b hb => ?_)
    cases List.mem_append.mp hb with
    | inl hb => exact (ip_byte_facts (ip.mem_string hb)).1
    | inr hb =>
      obtain rfl | hb := List.mem_cons.mp hb
      · decide
      · exact (atoi_byte_facts (hbytes b hb)).1
  have hsplit : splitHostPort (ip.string ++ byte ':' :: port) = some (ip.string, port) := by
    refine splitHostPort_join hcolon (fun hm => (atoi_byte_facts (hbytes _ hm)).2.1 rfl) ?_
    intro b hb
    cases List.mem_append.mp hb with
    | inl hb => exact (ip_byte_facts (ip.mem_string hb)).2
    | inr hb => exact (atoi_byte_facts (hbytes b hb)).2.2
  have hport : validatePort port = .ok () ∧ port ≠ [] := ⟨hp, hne⟩
  simp only [validateListen, htrim, hsplit, parseIP_string, Option.bind_some, IP.to4, bind_eq_ok,
    require_eq_ok, pure_eq_ok, joinHostPort, if_neg hcolon]
  exact ⟨(), hcolon, (), hport, trivial⟩

section Domains

variable [CaseTables]

theorem validateDomain_eq_ok {d d' : Domain} : validateDomain d = .ok d' ↔
    d'.name = toLower (trimSuffix (trimSpace d.name) (str ".")) ∧
      d'.type = normalizeType d.type ∧ validateDomainName d'.name = .ok () ∧
      d'.type ∈ queryTypes := by
  cases d'
  simp only [validateDomain, bind_eq_ok, require_eq_ok, pure_eq_ok, Domain.mk.injEq]
  constructor
  · rintro ⟨_, hn, _, ht, rfl, rfl⟩
    exact ⟨rfl, rfl, hn, ht⟩
  · rintro ⟨rfl, rfl, hn, ht⟩
    exact ⟨(), hn, (), ht, rfl, rfl⟩

theorem normalizeType_of_mem {type : GoString} (h : type ∈ queryTypes) :
    normalizeType type = type := by
  have hfacts : ∀ t ∈ queryTypes, t.all isAscii = true ∧ trimSpace t = t ∧
      t.map upperByte = t ∧ t ≠ [] := by
    decide
  obtain ⟨ha, ht, hu, hne⟩ := hfacts type h
  rw [normalizeType, ht, toUpper_ascii (List.all_eq_true.mp ha), hu, if_neg hne]

omit [CaseTables] in
theorem graph_of_name {b : UInt8} (h : isNameByte b = true) :
    isGraph b = true ∧ isAscii b = true :=
  (byte_facts b).2.2 h

omit [CaseTables] in
theorem validateDomainName_facts {name : GoString} (h : validateDomainName name = .ok ()) :
    trimSpace name = name ∧ ∀ b ∈ name, isAscii b = true := by
  have hb := bytes_of_validateDomainName h
  exact ⟨trimSpace_of_not_containsSpace (containsSpace_of_graph fun b hm =>
    (graph_of_name (hb b hm)).1), fun b hm => (graph_of_name (hb b hm)).2⟩

/-- A normalised domain passes a second time unless its name ended in two dots. -/
theorem validateDomain_again {d d' : Domain} (h : validateDomain d = .ok d') :
    validateDomain d' = .ok d' ↔ ¬ str ".." <:+ trimSpace d.name := by
  obtain ⟨hname, -, hvalid, htype⟩ := validateDomain_eq_ok.mp h
  obtain ⟨htrim, hascii⟩ := validateDomainName_facts hvalid
  rw [validateDomain_eq_ok, normalizeType_of_mem htype, htrim]
  constructor
  · rintro ⟨hagain, -⟩ ⟨m, hm⟩
    have hd : trimSpace d.name = (m ++ [byte '.']) ++ str "." := by simp [← hm, str]
    have hn : d'.name = toLower m ++ str "." := by
      rw [hname, hd, trimSuffix_append, toLower_append (by decide)]
      rfl
    have hm : ∀ b ∈ toLower m, isAscii b = true := fun b hb =>
      hascii b (by rw [hn]; exact List.mem_append_left _ hb)
    rw [hn, trimSuffix_append, toLower_toLower hm] at hagain
    simp [str] at hagain
  · intro hno
    refine ⟨?_, rfl, hvalid, htype⟩
    have hdot : ¬ str "." <:+ d'.name := by
      rintro ⟨t, ht⟩
      have hl : (toLower (trimSuffix (trimSpace d.name) (str "."))).getLast? = some 0x2E := by
        rw [← hname, ← ht]
        exact List.getLast?_concat
      obtain ⟨m, hm⟩ := List.getLast?_eq_some_iff.mp (getLast?_mapRunes_lower _ _ hl)
      cases trimSuffix_dot (trimSpace d.name) with
      | inl hs =>
        have hsuf : str "." <:+ trimSpace d.name := ⟨m, by rw [hs, hm]; rfl⟩
        obtain ⟨k, hk⟩ := hsuf
        rw [← hk, trimSuffix_append] at hs
        simp [str] at hs
      | inr hs => exact hno ⟨m, by rw [hs, hm, List.append_assoc]; rfl⟩
    rw [trimSuffix_of_not hdot, hname, toLower_toLower]
    exact fun b hb => hascii b (by rwa [hname])

end Domains

section Config

variable [CaseTables]

def subjectKey (d : Domain) : GoString := d.name ++ byte '/' :: d.type

theorem validateDomains_cons {i : Nat} {seen : List GoString} {d : Domain} {ds out : List Domain} :
    validateDomains i seen (d :: ds) = .ok out ↔ ∃ d' ds', validateDomain d = .ok d' ∧
      subjectKey d' ∉ seen ∧ validateDomains (i + 1) (subjectKey d' :: seen) ds = .ok ds' ∧
      out = d' :: ds' := by
  simp only [validateDomains, bind_eq_ok, mapError_eq_ok, require_eq_ok, pure_eq_ok]
  constructor
  · rintro ⟨d', hd, _, hk, ds', hds, rfl⟩
    exact ⟨d', ds', hd, hk, hds, rfl⟩
  · rintro ⟨d', ds', hd, hk, hds, rfl⟩
    exact ⟨d', hd, (), hk, ds', hds, rfl⟩

theorem validateDomains_again {i : Nat} {seen : List GoString} {ds out : List Domain}
    (h : validateDomains i seen ds = .ok out) :
    validateDomains i seen out = .ok out ↔ ∀ d ∈ ds, ¬ str ".." <:+ trimSpace d.name := by
  induction ds generalizing i seen out with
  | nil =>
    obtain rfl := pure_eq_ok.mp h
    simp [validateDomains]
  | cons d ds ih =>
    obtain ⟨d', ds', hd, hk, hds, rfl⟩ := validateDomains_cons.mp h
    rw [validateDomains_cons, List.forall_mem_cons, ← validateDomain_again hd, ← ih hds]
    constructor
    · rintro ⟨e, es, he, -, hes, heq⟩
      obtain ⟨rfl, rfl⟩ := List.cons.inj heq
      exact ⟨he, hes⟩
    · rintro ⟨he, hes⟩
      exact ⟨d', ds', he, hk, hes, rfl⟩

variable {F : Type} [GoFloat F] {c c' : Config F}

theorem validateConfig_eq_ok : validateConfig c = .ok c' ↔ ∃ listen domains,
    validateListen c.listen = .ok listen ∧ validateLimits c = .ok () ∧
      validateDomains 0 [] c.domains = .ok domains ∧ c' = { c with listen, domains } := by
  simp only [validateConfig, bind_eq_ok, pure_eq_ok]
  constructor
  · rintro ⟨listen, hl, _, hlim, domains, hd, rfl⟩
    exact ⟨listen, domains, hl, hlim, hd, rfl⟩
  · rintro ⟨listen, domains, hl, hlim, hd, rfl⟩
    exact ⟨listen, hl, (), hlim, domains, hd, rfl⟩

theorem validateDomains_length {i : Nat} {seen : List GoString} {ds out : List Domain}
    (h : validateDomains i seen ds = .ok out) : out.length = ds.length := by
  induction ds generalizing i seen out with
  | nil =>
    obtain rfl := pure_eq_ok.mp h
    rfl
  | cons d ds ih =>
    obtain ⟨d', ds', -, -, hds, rfl⟩ := validateDomains_cons.mp h
    simp [ih hds]

/-- An accepted configuration is accepted again and left as it is, exactly when no domain was
given with two dots at its end. -/
theorem validateConfig_again (h : validateConfig c = .ok c') :
    validateConfig c' = .ok c' ↔ ∀ d ∈ c.domains, ¬ str ".." <:+ trimSpace d.name := by
  obtain ⟨listen, domains, hl, hlim, hd, rfl⟩ := validateConfig_eq_ok.mp h
  have hlim' : validateLimits { c with listen, domains } = .ok () := by
    simpa only [validateLimits, validateDomains_length hd] using hlim
  rw [← validateDomains_again hd, validateConfig_eq_ok]
  constructor
  · rintro ⟨listen', domains', -, -, hd', heq⟩
    obtain rfl : domains = domains' := congrArg Config.domains heq
    exact hd'
  · intro hd'
    exact ⟨listen, domains, validateListen_again hl, hlim', hd', rfl⟩

end Config

section

local instance : CaseTables := asciiTables

def doubleDots : Config ℚ :=
  { defaultConfig with domains := [⟨str "example.com..", str "A"⟩, ⟨str "example.com", str "A"⟩] }

/-- The configuration is accepted and then rejected as a pair of equal domains. -/
theorem doubleDots_rejected : ∃ c, validateConfig doubleDots = .ok c ∧
    validateConfig c = .error "探测域名与记录类型不能重复" := by
  refine ⟨{ doubleDots with domains :=
    [⟨str "example.com.", str "A"⟩, ⟨str "example.com", str "A"⟩] }, ?_, ?_⟩
  · decide +kernel
  · decide +kernel

def spacedDomains : Config ℚ :=
  { defaultConfig with domains := [⟨str "  Example.COM. ", str " a"⟩,
      ⟨str "example.com", str "txt\t"⟩, ⟨str "\tMail.Example.Org", str "mx "⟩] }

theorem spacedDomains_again : ∃ c : Config ℚ, validateConfig spacedDomains = .ok c ∧
    c.domains = [⟨str "example.com", str "A"⟩, ⟨str "example.com", str "TXT"⟩,
      ⟨str "mail.example.org", str "MX"⟩] ∧ validateConfig c = .ok c := by
  have h : validateConfig spacedDomains = .ok { spacedDomains with domains :=
      [⟨str "example.com", str "A"⟩, ⟨str "example.com", str "TXT"⟩,
        ⟨str "mail.example.org", str "MX"⟩] } := by decide +kernel
  exact ⟨_, h, rfl, (validateConfig_again h).mpr (by decide +kernel)⟩

end

end DnsMonitor.Monitor.Config
