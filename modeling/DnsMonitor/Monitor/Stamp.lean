import DnsMonitor.Go.Base64
import DnsMonitor.Monitor.Validate

namespace DnsMonitor.Monitor.Stamp

open DnsMonitor.Model DnsMonitor.Monitor.Validate
open DnsMonitor.Go.Strings DnsMonitor.Go.Net DnsMonitor.Go.Errors DnsMonitor.Go.Url
open DnsMonitor.Go.UrlText DnsMonitor.Go.Base64

/-- Read one field with its length in front. The result is the field and what follows it. -/
def readLP : GoString → Except String (GoString × GoString)
  | [] => .error "DNS stamp 字段缺失"
  | n :: s =>
    if s.length < n.toNat then .error "DNS stamp 字段截断"
    else .ok (s.take n.toNat, s.drop n.toNat)

/-- Certificate hashes are fields with a continuation bit. Only empty ones are accepted. -/
def readHashes : GoString → Except String GoString
  | [] => .error "DNS stamp 哈希字段缺失"
  | b :: s =>
    if s.length < b.toNat % 128 then .error "DNS stamp 哈希截断"
    else if b.toNat % 128 ≠ 0 then
      .error "doggo 不支持 stamp 证书哈希固定；请使用系统证书验证的 https://、tls:// 或 quic:// 地址"
    else if 128 ≤ b.toNat then readHashes s
    else .ok s

def readBootstrap : GoString → Except String Unit
  | [] => .ok ()
  | b :: s =>
    if s.length < b.toNat % 128 then .error "DNS stamp bootstrap 截断"
    else if 0 < b.toNat % 128 then
      .error "doggo 不支持 stamp bootstrap 约束；请使用标准上游地址"
    else if 128 ≤ b.toNat ∧ s = [] then .error "DNS stamp bootstrap 后续字段缺失"
    else if b.toNat < 128 ∧ s ≠ [] then .error "DNS stamp 存在多余字段"
    else readBootstrap s

def validateStampHost (value : GoString) : Except String Unit :=
  if byte ':' ∈ value then
    match splitHostPort value with
    | none => .error "address"
    | some (host, port) => do
      require (port ≠ []) "stamp port is empty"
      validatePort port
      validateHost host
  else validateHost value

def stampProtocol (p : UInt8) : Option Protocol :=
  if p = 0 then some .udp
  else if p = 1 then some .dnscrypt
  else if p = 2 then some .doh
  else if p = 3 then some .dot
  else if p = 4 then some .doq
  else none

def stampAddressHost (p : UInt8) (addr : GoString) : Except String GoString :=
  if byte ':' ∈ addr then
    if 2 ≤ p then .error "加密 DNS stamp 的 IP 字段不得含端口；请将端口写在主机名字段"
    else
      match splitHostPort addr with
      | none => .error "DNS stamp 必须使用 IPv4 地址"
      | some (host, port) => do
        validatePort port
        pure host
  else .ok addr

def validateStampAddress (p : UInt8) (addr : GoString) : Except String Unit :=
  if addr ≠ [] ∧ 2 ≤ p then
    .error "doggo 不支持此 stamp 的固定 IP 约束；请改用 https://、tls:// 或 quic:// 上游地址"
  else if addr ≠ [] then do
    let host ← stampAddressHost p addr
    require (((parseIP host).bind IP.to4).isSome ∧ byte ':' ∉ host) "DNS stamp 地址必须使用 IPv4"
  else require (¬ p < 2) "DNS stamp 缺少 IPv4 地址"

def validateStampPath (s : GoString) : Except String GoString :=
  match readLP s with
  | .error _ => .error "DoH stamp 缺少有效路径"
  | .ok (path, s) => do
    require (hasPrefix path (str "/") = true) "DoH stamp 缺少有效路径"
    pure s

/-- The fields of an encrypted transport: no hashes, a host, a path for DoH, no bootstrap. -/
def validateStampName (p : UInt8) (s : GoString) : Except String Unit := do
  let s ← readHashes s
  match readLP s with
  | .error _ => .error "DNS stamp 主机名无效"
  | .ok (host, s) =>
    require (validateStampHost host = .ok ()) "DNS stamp 主机名无效"
    let s ← (if p = 2 then validateStampPath s else .ok s)
    readBootstrap s

def validateDNSCrypt (s : GoString) : Except String Unit :=
  match readLP s with
  | .error _ => .error "DNSCrypt 公钥必须为 32 字节"
  | .ok (publicKey, s) => do
    require (publicKey.length = 32) "DNSCrypt 公钥必须为 32 字节"
    match readLP s with
    | .error _ => .error "DNSCrypt 提供商字段无效"
    | .ok (provider, s) =>
      require (provider ≠ []) "DNSCrypt 提供商字段无效"
      require (s = []) "DNS stamp 存在多余字段"

def validateStampRest (p : UInt8) (s : GoString) : Except String Unit :=
  if p = 0 then require (s = []) "DNS stamp 存在多余字段"
  else if p = 1 then validateDNSCrypt s
  else validateStampName p s

def validateStampBytes (b : GoString) : Except String Protocol := do
  let p := b.headD 0
  match stampProtocol p with
  | none => .error "不支持此 DNS stamp 协议（不支持匿名中继）"
  | some protocol =>
    let (addr, s) ← readLP (b.drop 9)
    validateStampAddress p addr
    validateStampRest p s
    pure protocol

def validateStamp (encoded : GoString) : Except String Protocol :=
  match decodeString (trimRight (byte '=') encoded) with
  | none => .error "DNS stamp 编码无效"
  | some b => do
    require (10 ≤ b.length) "DNS stamp 编码无效"
    validateStampBytes b

def skipHashes : GoString → Option GoString
  | [] => none
  | b :: s =>
    if b.toNat % 128 ≠ 0 then none
    else if 128 ≤ b.toNat then skipHashes s
    else some s

def commandStamp (address b : GoString) : GoString :=
  let p := b.headD 0
  if p ≠ 0 ∧ p ≠ 2 ∧ p ≠ 3 ∧ p ≠ 4 then address
  else
    match readLP (b.drop 9) with
    | .error _ => address
    | .ok (addr, s) =>
      if p = 0 then str "udp://" ++ addr
      else
        match skipHashes s with
        | none => address
        | some s =>
          match readLP s with
          | .error _ => address
          | .ok (host, s) =>
            if p = 2 then
              match readLP s with
              | .error _ => address
              | .ok (path, _) =>
                ({ scheme := str "https", host := host, path := path : URL }).string
            else (if p = 4 then str "quic://" else str "tls://") ++ host

def commandAddress (address : GoString) : GoString :=
  if hasPrefix address (str "sdns://") then
    match decodeString (trimPrefix address (str "sdns://")) with
    | none => address
    | some b => if b.length < 10 then address else commandStamp address b
  else address

inductive Fields where
  | udp (addr : GoString)
  | dnscrypt (addr publicKey provider : GoString)
  | doh (host path : GoString)
  | dot (host : GoString)
  | doq (host : GoString)

def Fields.protocol : Fields → Protocol
  | .udp _ => .udp
  | .dnscrypt _ _ _ => .dnscrypt
  | .doh _ _ => .doh
  | .dot _ => .dot
  | .doq _ => .doq

def Fields.isValid : Fields → Prop
  | .udp addr => validateStampAddress 0 addr = .ok ()
  | .dnscrypt addr publicKey provider =>
    validateStampAddress 1 addr = .ok () ∧ publicKey.length = 32 ∧ provider ≠ []
  | .doh host path => validateStampHost host = .ok () ∧ hasPrefix path (str "/") = true
  | .dot host => validateStampHost host = .ok ()
  | .doq host => validateStampHost host = .ok ()

def readFields (b : GoString) : Option Fields := do
  let p := b.headD 0
  let (addr, s) ← (readLP (b.drop 9)).toOption
  if p = 0 then some (.udp addr)
  else if p = 1 then do
    let (publicKey, s) ← (readLP s).toOption
    let (provider, _) ← (readLP s).toOption
    some (.dnscrypt addr publicKey provider)
  else do
    let s ← skipHashes s
    let (host, s) ← (readLP s).toOption
    if p = 2 then do
      let (path, _) ← (readLP s).toOption
      some (.doh host path)
    else if p = 3 then some (.dot host)
    else if p = 4 then some (.doq host)
    else none

def Fields.command (address : GoString) : Fields → GoString
  | .udp addr => str "udp://" ++ addr
  | .dnscrypt _ _ _ => address
  | .doh host path => ({ scheme := str "https", host := host, path := path : URL }).string
  | .dot host => str "tls://" ++ host
  | .doq host => str "quic://" ++ host

theorem skipHashes_of_readHashes {s t : GoString} (h : readHashes s = .ok t) :
    skipHashes s = some t := by
  induction s with
  | nil => simp [readHashes] at h
  | cons b s ih =>
    simp only [readHashes] at h
    split_ifs at h with h1 h2 h3
    · simpa [skipHashes, h2, h3] using ih h
    · rw [Except.ok.injEq] at h
      simpa [skipHashes, h2, h3] using h

theorem stampProtocol_eq_some {p : UInt8} {protocol : Protocol}
    (h : stampProtocol p = some protocol) : p = 0 ∧ protocol = .udp ∨
      p = 1 ∧ protocol = .dnscrypt ∨ p = 2 ∧ protocol = .doh ∨ p = 3 ∧ protocol = .dot ∨
      p = 4 ∧ protocol = .doq := by
  simp only [stampProtocol] at h
  split_ifs at h <;> simp_all

theorem validateDNSCrypt_eq_ok {s : GoString} (h : validateDNSCrypt s = .ok ()) :
    ∃ publicKey provider t, readLP s = .ok (publicKey, t) ∧ readLP t = .ok (provider, []) ∧
      publicKey.length = 32 ∧ provider ≠ [] := by
  simp only [validateDNSCrypt] at h
  split at h
  · simp at h
  · next publicKey t hk =>
    obtain ⟨_, hlen, h⟩ := bind_eq_ok.mp h
    split at h
    · simp at h
    · next provider u hp =>
      obtain ⟨_, hne, h⟩ := bind_eq_ok.mp h
      rw [require_eq_ok] at hlen hne h
      subst h
      exact ⟨publicKey, provider, t, hk, hp, hlen, hne⟩

theorem validateStampName_eq_ok {p : UInt8} {s : GoString}
    (h : validateStampName p s = .ok ()) : ∃ t u host, readHashes s = .ok t ∧
      readLP t = .ok (host, u) ∧ validateStampHost host = .ok () ∧
      (p = 2 → ∃ path v, readLP u = .ok (path, v) ∧ hasPrefix path (str "/") = true) := by
  simp only [validateStampName] at h
  obtain ⟨t, ht, h⟩ := bind_eq_ok.mp h
  split at h
  · simp at h
  · next host u hu =>
    obtain ⟨_, hh, h⟩ := bind_eq_ok.mp h
    obtain ⟨v, hv, -⟩ := bind_eq_ok.mp h
    refine ⟨t, u, host, ht, hu, require_eq_ok.mp hh, fun hp => ?_⟩
    rw [if_pos hp] at hv
    simp only [validateStampPath] at hv
    split at hv
    · simp at hv
    · next path w hw =>
      obtain ⟨_, hpre, -⟩ := bind_eq_ok.mp hv
      exact ⟨path, w, hw, require_eq_ok.mp hpre⟩

theorem validateStampBytes_eq_ok {b : GoString} {protocol : Protocol}
    (h : validateStampBytes b = .ok protocol) :
    ∃ fields, readFields b = some fields ∧ fields.isValid ∧ protocol = fields.protocol := by
  simp only [validateStampBytes] at h
  split at h
  · simp at h
  · next proto hproto =>
    obtain ⟨⟨addr, s⟩, hr, h⟩ := bind_eq_ok.mp h
    obtain ⟨_, ha, h⟩ := bind_eq_ok.mp h
    obtain ⟨_, hs, h⟩ := bind_eq_ok.mp h
    obtain rfl := pure_eq_ok.mp h
    dsimp only at ha hs
    simp only [readFields, hr]
    generalize b.headD 0 = p at hproto ha hs
    obtain ⟨rfl, rfl⟩ | ⟨rfl, rfl⟩ | ⟨rfl, rfl⟩ | ⟨rfl, rfl⟩ | ⟨rfl, rfl⟩ :=
      stampProtocol_eq_some hproto
    · exact ⟨.udp addr, rfl, ha, rfl⟩
    · obtain ⟨publicKey, provider, t, hk, hv, hlen, hne⟩ := validateDNSCrypt_eq_ok hs
      refine ⟨.dnscrypt addr publicKey provider, ?_, ⟨ha, hlen, hne⟩, rfl⟩
      simp [Except.toOption, hk, hv]
    · obtain ⟨t, u, host, ht, hu, hh, hpath⟩ := validateStampName_eq_ok hs
      obtain ⟨path, v, hv, hpre⟩ := hpath rfl
      refine ⟨.doh host path, ?_, ⟨hh, hpre⟩, rfl⟩
      simp [Except.toOption, skipHashes_of_readHashes ht, hu, hv]
    · obtain ⟨t, u, host, ht, hu, hh, -⟩ := validateStampName_eq_ok hs
      refine ⟨.dot host, ?_, hh, rfl⟩
      simp [Except.toOption, skipHashes_of_readHashes ht, hu]
    · obtain ⟨t, u, host, ht, hu, hh, -⟩ := validateStampName_eq_ok hs
      refine ⟨.doq host, ?_, hh, rfl⟩
      simp [Except.toOption, skipHashes_of_readHashes ht, hu]

theorem validateStamp_eq_ok {encoded : GoString} {protocol : Protocol}
    (h : validateStamp encoded = .ok protocol) :
    ∃ b fields, decodeString (trimRight (byte '=') encoded) = some b ∧ 10 ≤ b.length ∧
      readFields b = some fields ∧ fields.isValid ∧ protocol = fields.protocol := by
  simp only [validateStamp] at h
  split at h
  · simp at h
  · next b hb =>
    obtain ⟨_, hlen, h⟩ := bind_eq_ok.mp h
    obtain ⟨fields, hf, hv, hp⟩ := validateStampBytes_eq_ok h
    exact ⟨b, fields, hb, require_eq_ok.mp hlen, hf, hv, hp⟩

theorem toOption_eq_some {ε α : Type} {x : Except ε α} {a : α} :
    x.toOption = some a ↔ x = .ok a := by
  cases x <;> simp [Except.toOption]

/-- Translation reads the same fields as validation. -/
theorem commandStamp_eq {address b : GoString} {fields : Fields}
    (h : readFields b = some fields) : commandStamp address b = fields.command address := by
  simp only [readFields, Option.bind_eq_bind, Option.bind_eq_some_iff, toOption_eq_some] at h
  obtain ⟨⟨addr, s⟩, hr, h⟩ := h
  simp only [commandStamp, hr]
  generalize b.headD 0 = p at h
  by_cases h0 : p = 0
  · rw [if_pos h0, Option.some.injEq] at h
    subst h
    simp [h0, Fields.command]
  rw [if_neg h0] at h
  by_cases h1 : p = 1
  · simp only [if_pos h1, Option.bind_eq_some_iff, toOption_eq_some, Option.some.injEq] at h
    obtain ⟨_, _, _, _, rfl⟩ := h
    simp [h1, Fields.command]
  simp only [if_neg h1, Option.bind_eq_some_iff] at h
  obtain ⟨t, ht, ⟨host, u⟩, hu, h⟩ := h
  rw [toOption_eq_some] at hu
  split_ifs at h with h2 h3 h4
  · obtain ⟨⟨path, v⟩, hv, h⟩ := Option.bind_eq_some_iff.mp h
    rw [toOption_eq_some] at hv
    rw [Option.some.injEq] at h
    subst h
    simp [h2, ht, hu, hv, Fields.command]
  · rw [Option.some.injEq] at h
    subst h
    simp [h3, ht, hu, Fields.command]
  · rw [Option.some.injEq] at h
    subst h
    simp [h4, ht, hu, Fields.command]

end DnsMonitor.Monitor.Stamp
