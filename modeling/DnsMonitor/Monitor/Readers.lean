import DnsMonitor.Lib.Cursors
import DnsMonitor.Monitor.EndpointKey

namespace DnsMonitor.Monitor.Readers

open DnsMonitor.Model DnsMonitor.Lib.Cursors
open DnsMonitor.Monitor.Validate DnsMonitor.Monitor.Stamp DnsMonitor.Monitor.Address
open DnsMonitor.Monitor.Canonical DnsMonitor.Monitor.Endpoint DnsMonitor.Monitor.EndpointKey
open DnsMonitor.Go.Strings DnsMonitor.Go.Unicode DnsMonitor.Go.Errors DnsMonitor.Go.Url
open DnsMonitor.Go.Base64

abbrev StampField := Span UInt8

def validateRead (b : GoString) (pos : Nat) : Except String (StampField × Nat) :=
  readSpan UInt8.toNat "DNS stamp 字段缺失" "DNS stamp 字段截断" b pos

theorem lt_of_getElem? {b : GoString} {pos : Nat} {n : UInt8} (h : b[pos]? = some n) :
    b.length - (pos + 1 + n.toNat % 128) < b.length - pos := by
  have := (List.getElem?_eq_some_iff.mp h).1
  omega

def readHashesAt (b : GoString) (pos : Nat) : Except String Nat :=
  match h : b[pos]? with
  | none => .error "DNS stamp 哈希字段缺失"
  | some n =>
    if b.length < pos + 1 + n.toNat % 128 then .error "DNS stamp 哈希截断"
    else if n.toNat % 128 ≠ 0 then
      .error "doggo 不支持 stamp 证书哈希固定；请使用系统证书验证的 https://、tls:// 或 quic:// 地址"
    else if 128 ≤ n.toNat then readHashesAt b (pos + 1 + n.toNat % 128)
    else .ok (pos + 1 + n.toNat % 128)
termination_by b.length - pos
decreasing_by exact lt_of_getElem? h

def readBootstrapAt (b : GoString) (pos : Nat) : Except String Unit :=
  match h : b[pos]? with
  | none => .ok ()
  | some n =>
    if b.length < pos + 1 + n.toNat % 128 then .error "DNS stamp bootstrap 截断"
    else if 0 < n.toNat % 128 then
      .error "doggo 不支持 stamp bootstrap 约束；请使用标准上游地址"
    else if 128 ≤ n.toNat ∧ pos + 1 + n.toNat % 128 = b.length then
      .error "DNS stamp bootstrap 后续字段缺失"
    else if n.toNat < 128 ∧ pos + 1 + n.toNat % 128 < b.length then
      .error "DNS stamp 存在多余字段"
    else readBootstrapAt b (pos + 1 + n.toNat % 128)
termination_by b.length - pos
decreasing_by exact lt_of_getElem? h

def validatePathAt (b : GoString) (pos : Nat) : Except String (List StampField × Nat) :=
  match validateRead b pos with
  | .error _ => .error "DoH stamp 缺少有效路径"
  | .ok (path, pos) => do
    require (hasPrefix path.text (str "/") = true) "DoH stamp 缺少有效路径"
    pure ([path], pos)

def validateNameAt (p : UInt8) (b : GoString) (pos : Nat) : Except String (List StampField) := do
  let pos ← readHashesAt b pos
  match validateRead b pos with
  | .error _ => .error "DNS stamp 主机名无效"
  | .ok (host, pos) =>
    require (validateStampHost host.text = .ok ()) "DNS stamp 主机名无效"
    let (path, pos) ← (if p = 2 then validatePathAt b pos else .ok ([], pos))
    readBootstrapAt b pos
    pure (host :: path)

def validateDNSCryptAt (b : GoString) (pos : Nat) : Except String (List StampField) :=
  match validateRead b pos with
  | .error _ => .error "DNSCrypt 公钥必须为 32 字节"
  | .ok (publicKey, pos) => do
    require (publicKey.text.length = 32) "DNSCrypt 公钥必须为 32 字节"
    match validateRead b pos with
    | .error _ => .error "DNSCrypt 提供商字段无效"
    | .ok (provider, pos) =>
      require (provider.text ≠ []) "DNSCrypt 提供商字段无效"
      require (pos = b.length) "DNS stamp 存在多余字段"
      pure [publicKey, provider]

def validateRestAt (p : UInt8) (b : GoString) (pos : Nat) : Except String (List StampField) :=
  if p = 0 then do
    require (pos = b.length) "DNS stamp 存在多余字段"
    pure []
  else if p = 1 then validateDNSCryptAt b pos
  else validateNameAt p b pos

def validateStampAt (b : GoString) : Except String (Protocol × List StampField) := do
  let p := b.headD 0
  match stampProtocol p with
  | none => .error "不支持此 DNS stamp 协议（不支持匿名中继）"
  | some protocol =>
    let (addr, pos) ← validateRead b 9
    validateStampAddress p addr.text
    let fields ← validateRestAt p b pos
    pure (protocol, addr :: fields)

def commandRead (b : GoString) (pos : Nat) : Except Unit (StampField × Nat) :=
  readSpan UInt8.toNat () () b pos

def skipHashesAt (b : GoString) (pos : Nat) : Option Nat :=
  match h : b[pos]? with
  | none => none
  | some n =>
    if n.toNat % 128 ≠ 0 then none
    else if 128 ≤ n.toNat then skipHashesAt b (pos + 1)
    else some (pos + 1)
termination_by b.length - pos
decreasing_by
  have := (List.getElem?_eq_some_iff.mp h).1
  omega

def commandStampAt (address b : GoString) : GoString × List StampField :=
  let p := b.headD 0
  if p ≠ 0 ∧ p ≠ 2 ∧ p ≠ 3 ∧ p ≠ 4 then (address, [])
  else
    match commandRead b 9 with
    | .error _ => (address, [])
    | .ok (addr, pos) =>
      if p = 0 then (str "udp://" ++ addr.text, [addr])
      else
        match skipHashesAt b pos with
        | none => (address, [addr])
        | some pos =>
          match commandRead b pos with
          | .error _ => (address, [addr])
          | .ok (host, pos) =>
            if p = 2 then
              match commandRead b pos with
              | .error _ => (address, [addr, host])
              | .ok (path, _) =>
                (({ scheme := str "https", host := host.text, path := path.text : URL }).string,
                  [addr, host, path])
            else ((if p = 4 then str "quic://" else str "tls://") ++ host.text, [addr, host])

inductive KeyFailure where
  /-- A read outside the bytes of the stamp. -/
  | outside
  | error (message : String)
deriving DecidableEq

def keyRead (b : GoString) (pos : Nat) : Except KeyFailure (StampField × Nat) :=
  readSpan UInt8.toNat .outside .outside b pos

def keyReads (b : GoString) : Except KeyFailure (StampField × StampField × StampField) := do
  let (endpoint, pos) ← keyRead b 9
  let (key, pos) ← keyRead b pos
  let (provider, _) ← keyRead b pos
  pure (endpoint, key, provider)

section

variable [CaseTables]

def stampKeyAt (address : GoString) : Except KeyFailure GoString :=
  match decodeString (trimPrefix address (str "sdns://")) with
  | none => .error (.error "无法规范化 DNS stamp")
  | some b => do
    require (10 ≤ b.length ∧ b.headD 0 = 1) (.error "无法规范化 DNS stamp")
    let (endpoint, key, provider) ← keyReads b
    pure (str "dnscrypt://" ++ keyEndpoint endpoint.text ++ byte '/' :: hexText key.text ++
      byte '/' :: toLower (trimSuffix provider.text (str ".")))

def addressKeyAt (address : GoString) : Except KeyFailure GoString := do
  let (canonical, _) ← (validateAddress address).mapError .error
  let address := commandAddress canonical
  if hasPrefix address (str "sdns://") then stampKeyAt address
  else
    match parse address with
    | .error _ => .error (.error "parse")
    | .ok u => pure (keyURL u).string

def KeyRuns (a b : GoString) : Prop :=
  ∃ c p, validateAddress a = .ok (c, p) ∧ hasPrefix (commandAddress c) (str "sdns://") = true ∧
    decodeString (trimPrefix (commandAddress c) (str "sdns://")) = some b ∧
    10 ≤ b.length ∧ b.headD 0 = 1

end

section

variable {b : GoString} {pos : Nat}

theorem readLP_drop : readLP (b.drop pos) =
    (validateRead b pos).map fun r => (r.1.text, b.drop r.2) := by
  simp only [validateRead, readSpan]
  cases h : b[pos]? with
  | none =>
    rw [drop_of_getElem?_none h]
    rfl
  | some n =>
    simp only [drop_of_getElem? h, readLP, length_drop_lt h]
    split_ifs
    · rfl
    · rw [List.drop_drop]
      rfl

theorem readHashes_drop : readHashes (b.drop pos) = (readHashesAt b pos).map (b.drop ·) := by
  fun_induction readHashesAt b pos with
  | case1 pos h =>
    rw [drop_of_getElem?_none h]
    rfl
  | case2 pos n h hl =>
    rw [drop_of_getElem? h, readHashes, if_pos ((length_drop_lt h _).mpr hl)]
    rfl
  | case3 pos n h hl hn =>
    rw [drop_of_getElem? h, readHashes, if_neg (mt (length_drop_lt h _).mp hl), if_pos hn]
    rfl
  | case4 pos n h hl hn hm ih =>
    rw [drop_of_getElem? h, readHashes, if_neg (mt (length_drop_lt h _).mp hl), if_neg hn,
      if_pos hm, ← ih, not_ne_iff.mp hn, add_zero]
  | case5 pos n h hl hn hm =>
    rw [drop_of_getElem? h, readHashes, if_neg (mt (length_drop_lt h _).mp hl), if_neg hn,
      if_neg hm, not_ne_iff.mp hn, add_zero]
    rfl

theorem skipHashes_drop : skipHashes (b.drop pos) = (skipHashesAt b pos).map (b.drop ·) := by
  fun_induction skipHashesAt b pos with
  | case1 pos h =>
    rw [drop_of_getElem?_none h]
    rfl
  | case2 pos n h hn =>
    rw [drop_of_getElem? h, skipHashes, if_pos hn]
    rfl
  | case3 pos n h hn hm ih => rw [drop_of_getElem? h, skipHashes, if_neg hn, if_pos hm, ih]
  | case4 pos n h hn hm =>
    rw [drop_of_getElem? h, skipHashes, if_neg hn, if_neg hm]
    rfl

theorem drop_eq_nil_of_empty {n : UInt8} (h : b[pos]? = some n) (hn : ¬ 0 < n.toNat % 128) :
    b.drop (pos + 1) = [] ↔ pos + 1 + n.toNat % 128 = b.length := by
  have := (List.getElem?_eq_some_iff.mp h).1
  rw [List.drop_eq_nil_iff]
  omega

theorem readBootstrap_drop : readBootstrap (b.drop pos) = readBootstrapAt b pos := by
  fun_induction readBootstrapAt b pos with
  | case1 pos h =>
    rw [drop_of_getElem?_none h]
    rfl
  | case2 pos n h hl =>
    rw [drop_of_getElem? h, readBootstrap, if_pos ((length_drop_lt h _).mpr hl)]
  | case3 pos n h hl hn =>
    rw [drop_of_getElem? h, readBootstrap, if_neg (mt (length_drop_lt h _).mp hl), if_pos hn]
  | case4 pos n h hl hn hm =>
    rw [drop_of_getElem? h, readBootstrap, if_neg (mt (length_drop_lt h _).mp hl), if_neg hn,
      if_pos ⟨hm.1, (drop_eq_nil_of_empty h hn).mpr hm.2⟩]
  | case5 pos n h hl hn hm hz =>
    have hne : b.drop (pos + 1) ≠ [] := fun he => hz.2.ne ((drop_eq_nil_of_empty h hn).mp he)
    rw [drop_of_getElem? h, readBootstrap, if_neg (mt (length_drop_lt h _).mp hl), if_neg hn,
      if_neg (fun hc => hne hc.2), if_pos ⟨hz.1, hne⟩]
  | case6 pos n h hl hn hm hz ih =>
    have hend : b.drop (pos + 1) = [] ↔ pos + 1 + n.toNat % 128 = b.length :=
      drop_eq_nil_of_empty h hn
    have hm' : ¬ (128 ≤ n.toNat ∧ b.drop (pos + 1) = []) := by rwa [hend]
    have hz' : ¬ (n.toNat < 128 ∧ b.drop (pos + 1) ≠ []) := by
      rw [ne_eq, hend]
      omega
    have hzero : n.toNat % 128 = 0 := by omega
    rw [drop_of_getElem? h, readBootstrap, if_neg (mt (length_drop_lt h _).mp hl), if_neg hn,
      if_neg hm', if_neg hz', ← ih, hzero, add_zero]

theorem validatePath_drop : validateStampPath (b.drop pos) =
    (validatePathAt b pos).map fun r => b.drop r.2 := by
  simp only [validateStampPath, validatePathAt, readLP_drop]
  cases validateRead b pos with
  | error e => rfl
  | ok r =>
    simp only [map_ok, exceptMap_bind]
    rfl

/-- A read ends within the bytes, so nothing is left exactly when it ends with them. -/
theorem drop_eq_nil_of_read {r : StampField × Nat} (h : validateRead b pos = .ok r) :
    b.drop r.2 = [] ↔ r.2 = b.length := by
  obtain ⟨hf, hq⟩ := readSpan_eq_ok.mp h
  have hle := hf.stop_le
  rw [List.drop_eq_nil_iff, hq]
  omega

theorem validateDNSCrypt_drop : validateDNSCrypt (b.drop pos) =
    (validateDNSCryptAt b pos).map fun _ => () := by
  simp only [validateDNSCrypt, validateDNSCryptAt, readLP_drop]
  cases validateRead b pos with
  | error e => rfl
  | ok r =>
    simp only [map_ok, exceptMap_bind, readLP_drop]
    congr 1
    funext _
    cases h : validateRead b r.2 with
    | error e => rfl
    | ok q =>
      simp only [map_ok, exceptMap_bind, map_pure_ok, bind_pure_unit, drop_eq_nil_of_read h]

theorem validateName_drop (p : UInt8) : validateStampName p (b.drop pos) =
    (validateNameAt p b pos).map fun _ => () := by
  simp only [validateStampName, validateNameAt, readHashes_drop]
  cases readHashesAt b pos with
  | error e => rfl
  | ok pos =>
    simp only [map_ok, ok_bind, readLP_drop]
    cases validateRead b pos with
    | error e => rfl
    | ok r =>
      simp only [map_ok, exceptMap_bind, map_pure_ok, bind_pure_unit]
      congr 1
      funext _
      split_ifs
      · rw [validatePath_drop]
        cases validatePathAt b r.2 with
        | error e => rfl
        | ok q => simp only [map_ok, ok_bind, readBootstrap_drop]
      · simp only [ok_bind, readBootstrap_drop]

theorem validateRest_drop {r : StampField × Nat} (h : validateRead b pos = .ok r) (p : UInt8) :
    validateStampRest p (b.drop r.2) = (validateRestAt p b r.2).map fun _ => () := by
  simp only [validateStampRest, validateRestAt, drop_eq_nil_of_read h]
  split_ifs
  · rw [exceptMap_bind]
    exact bind_pure_unit.symm
  · exact validateDNSCrypt_drop
  · exact validateName_drop p

/-- The protocol of a stamp is the one of the reader that keeps no positions. -/
theorem validateStampAt_fst (b : GoString) :
    (validateStampAt b).map Prod.fst = validateStampBytes b := by
  simp only [validateStampAt, validateStampBytes, readLP_drop]
  cases stampProtocol (b.headD 0) with
  | none => rfl
  | some protocol =>
    dsimp only
    cases h : validateRead b 9 with
    | error e => rfl
    | ok r =>
      simp only [map_ok, ok_bind, exceptMap_bind, map_pure_ok, validateRest_drop h]
      congr 1
      funext _
      cases validateRestAt (b.headD 0) b r.2 with
      | error e => rfl
      | ok fields => rfl

theorem commandRead_eq : commandRead b pos = (validateRead b pos).mapError fun _ => () :=
  (readSpan_mapError fun _ => ()).symm

theorem commandStampAt_fst (address b : GoString) :
    (commandStampAt address b).1 = commandStamp address b := by
  simp only [commandStampAt, commandStamp, readLP_drop, commandRead_eq]
  cases validateRead b 9 with
  | error e => split_ifs <;> rfl
  | ok r =>
    simp only [map_ok, mapError_ok, skipHashes_drop]
    cases skipHashesAt b r.2 with
    | none => split_ifs <;> rfl
    | some pos =>
      simp only [Option.map_some, readLP_drop]
      cases validateRead b pos with
      | error e => split_ifs <;> rfl
      | ok q =>
        simp only [map_ok, mapError_ok, readLP_drop]
        cases validateRead b q.2 with
        | error e => split_ifs <;> rfl
        | ok q' => split_ifs <;> rfl

/-- The fields of a stamp at their positions. Behind them are empty bootstrap fields at most. -/
inductive Layout (b : GoString) : Protocol → List StampField → Prop
  | udp {addr : StampField} (protocol : b.headD 0 = 0) (address : SpanAt UInt8.toNat b 9 addr)
      (stop : addr.stop = b.length) : Layout b .udp [addr]
  | dnscrypt {addr publicKey provider : StampField} (protocol : b.headD 0 = 1)
      (address : SpanAt UInt8.toNat b 9 addr) (key : SpanAt UInt8.toNat b addr.stop publicKey)
      (name : SpanAt UInt8.toNat b publicKey.stop provider) (stop : provider.stop = b.length) :
      Layout b .dnscrypt [addr, publicKey, provider]
  | doh {addr host path : StampField} {pos : Nat} (protocol : b.headD 0 = 2)
      (address : SpanAt UInt8.toNat b 9 addr) (hashes : readHashesAt b addr.stop = .ok pos)
      (name : SpanAt UInt8.toNat b pos host) (text : SpanAt UInt8.toNat b host.stop path)
      (rest : readBootstrapAt b path.stop = .ok ()) : Layout b .doh [addr, host, path]
  | dot {addr host : StampField} {pos : Nat} (protocol : b.headD 0 = 3)
      (address : SpanAt UInt8.toNat b 9 addr) (hashes : readHashesAt b addr.stop = .ok pos)
      (name : SpanAt UInt8.toNat b pos host) (rest : readBootstrapAt b host.stop = .ok ()) :
      Layout b .dot [addr, host]
  | doq {addr host : StampField} {pos : Nat} (protocol : b.headD 0 = 4)
      (address : SpanAt UInt8.toNat b 9 addr) (hashes : readHashesAt b addr.stop = .ok pos)
      (name : SpanAt UInt8.toNat b pos host) (rest : readBootstrapAt b host.stop = .ok ()) :
      Layout b .doq [addr, host]

theorem validateDNSCryptAt_eq_ok {fields : List StampField}
    (h : validateDNSCryptAt b pos = .ok fields) : ∃ publicKey provider,
      SpanAt UInt8.toNat b pos publicKey ∧ SpanAt UInt8.toNat b publicKey.stop provider ∧
        provider.stop = b.length ∧ fields = [publicKey, provider] := by
  simp only [validateDNSCryptAt] at h
  split at h
  · cases h
  · next publicKey q hr =>
    obtain ⟨hk, rfl⟩ := readSpan_eq_ok.mp hr
    obtain ⟨_, -, h⟩ := bind_eq_ok.mp h
    split at h
    · cases h
    · next provider q hr =>
      obtain ⟨hp, rfl⟩ := readSpan_eq_ok.mp hr
      simp only [bind_eq_ok, require_eq_ok, pure_eq_ok] at h
      obtain ⟨_, -, _, hstop, rfl⟩ := h
      exact ⟨publicKey, provider, hk, hp, hstop, rfl⟩

theorem validatePathAt_eq_ok {r : List StampField × Nat} (h : validatePathAt b pos = .ok r) :
    ∃ path, SpanAt UInt8.toNat b pos path ∧ r = ([path], path.stop) := by
  simp only [validatePathAt] at h
  split at h
  · cases h
  · next path q hr =>
    obtain ⟨hp, rfl⟩ := readSpan_eq_ok.mp hr
    simp only [bind_eq_ok, pure_eq_ok] at h
    obtain ⟨_, -, rfl⟩ := h
    exact ⟨path, hp, rfl⟩

theorem validateNameAt_eq_ok {p : UInt8} {fields : List StampField}
    (h : validateNameAt p b pos = .ok fields) : ∃ q host, readHashesAt b pos = .ok q ∧
      SpanAt UInt8.toNat b q host ∧
      (p = 2 ∧ (∃ path, SpanAt UInt8.toNat b host.stop path ∧
          readBootstrapAt b path.stop = .ok () ∧ fields = [host, path]) ∨
        p ≠ 2 ∧ readBootstrapAt b host.stop = .ok () ∧ fields = [host]) := by
  simp only [validateNameAt] at h
  obtain ⟨q, hq, h⟩ := bind_eq_ok.mp h
  split at h
  · cases h
  · next host stop hr =>
    obtain ⟨hh, rfl⟩ := readSpan_eq_ok.mp hr
    simp only [bind_eq_ok, pure_eq_ok] at h
    obtain ⟨_, -, r, hp2, _, hrest, rfl⟩ := h
    refine ⟨q, host, hq, hh, ?_⟩
    split_ifs at hp2 with hp
    · obtain ⟨path, hpath, rfl⟩ := validatePathAt_eq_ok hp2
      exact Or.inl ⟨hp, path, hpath, hrest, rfl⟩
    · cases hp2
      exact Or.inr ⟨hp, hrest, rfl⟩

theorem layout_of_validateStampAt {protocol : Protocol} {fields : List StampField}
    (h : validateStampAt b = .ok (protocol, fields)) : Layout b protocol fields := by
  simp only [validateStampAt] at h
  split at h
  · cases h
  · next proto hproto =>
    obtain ⟨⟨addr, q⟩, hr, h⟩ := bind_eq_ok.mp h
    obtain ⟨haddr, rfl⟩ := readSpan_eq_ok.mp hr
    simp only [bind_eq_ok, pure_eq_ok, Prod.mk.injEq] at h
    obtain ⟨_, -, rest, hrest, rfl, rfl⟩ := h
    obtain ⟨hp, rfl⟩ | ⟨hp, rfl⟩ | ⟨hp, rfl⟩ | ⟨hp, rfl⟩ | ⟨hp, rfl⟩ :=
      stampProtocol_eq_some hproto
    · rw [hp, validateRestAt, if_pos rfl] at hrest
      simp only [bind_eq_ok, require_eq_ok, pure_eq_ok] at hrest
      obtain ⟨_, hstop, rfl⟩ := hrest
      exact .udp hp haddr hstop
    · rw [hp] at hrest
      obtain ⟨publicKey, provider, hk, hn, hstop, rfl⟩ := validateDNSCryptAt_eq_ok hrest
      exact .dnscrypt hp haddr hk hn hstop
    · rw [hp] at hrest
      obtain ⟨q, host, hq, hh, ⟨-, path, hpath, hb, rfl⟩ | ⟨hne, -⟩⟩ := validateNameAt_eq_ok hrest
      · exact .doh hp haddr hq hh hpath hb
      · exact absurd rfl hne
    · rw [hp] at hrest
      obtain ⟨q, host, hq, hh, ⟨hne, -⟩ | ⟨-, hb, rfl⟩⟩ := validateNameAt_eq_ok hrest
      · exact absurd hne (by decide)
      · exact .dot hp haddr hq hh hb
    · rw [hp] at hrest
      obtain ⟨q, host, hq, hh, ⟨hne, -⟩ | ⟨-, hb, rfl⟩⟩ := validateNameAt_eq_ok hrest
      · exact absurd hne (by decide)
      · exact .doq hp haddr hq hh hb

theorem skipHashesAt_some {n : UInt8} (h : b[pos]? = some n) : skipHashesAt b pos =
    if n.toNat % 128 ≠ 0 then none
    else if 128 ≤ n.toNat then skipHashesAt b (pos + 1)
    else some (pos + 1) := by
  rw [skipHashesAt]
  split
  · next hn => rw [hn] at h; cases h
  · next m hm =>
    obtain rfl : m = n := Option.some.inj (hm.symm.trans h)
    rfl

theorem skipHashesAt_of_readHashesAt {q : Nat} (h : readHashesAt b pos = .ok q) :
    skipHashesAt b pos = some q := by
  fun_induction readHashesAt b pos with
  | case1 pos hn => cases h
  | case2 pos n hn hl => cases h
  | case3 pos n hn hl hz => cases h
  | case4 pos n hn hl hz hm ih =>
    rw [not_ne_iff.mp hz, add_zero] at ih h
    rw [skipHashesAt_some hn, if_neg hz, if_pos hm, ih h]
  | case5 pos n hn hl hz hm =>
    rw [not_ne_iff.mp hz, add_zero, Except.ok.injEq] at h
    rw [skipHashesAt_some hn, if_neg hz, if_neg hm, h]

theorem empty_of_readBootstrapAt (h : readBootstrapAt b pos = .ok ()) :
    ∀ n ∈ b.drop pos, n.toNat % 128 = 0 := by
  fun_induction readBootstrapAt b pos with
  | case1 pos hn => simp [drop_of_getElem?_none hn]
  | case2 pos n hn hl => cases h
  | case3 pos n hn hl hz => cases h
  | case4 pos n hn hl hz hm => cases h
  | case5 pos n hn hl hz hm hs => cases h
  | case6 pos n hn hl hz hm hs ih =>
    have hzero : n.toNat % 128 = 0 := by omega
    rw [hzero, add_zero] at ih h
    rw [drop_of_getElem? hn, List.forall_mem_cons]
    exact ⟨hzero, ih h⟩

theorem Layout.within {protocol : Protocol} {fields : List StampField}
    (h : Layout b protocol fields) : (∀ f ∈ fields, f.stop ≤ b.length) ∧
      ∀ last ∈ fields.getLast?, ∀ n ∈ b.drop last.stop, n.toNat % 128 = 0 := by
  cases h with
  | udp hp ha hs => simp [hs]
  | dnscrypt hp ha hk hn hs => simp [ha.stop_le, hk.stop_le, hs]
  | doh hp ha hq hn ht hr =>
    simpa [ha.stop_le, hn.stop_le, ht.stop_le] using empty_of_readBootstrapAt hr
  | dot hp ha hq hn hr => simpa [ha.stop_le, hn.stop_le] using empty_of_readBootstrapAt hr
  | doq hp ha hq hn hr => simpa [ha.stop_le, hn.stop_le] using empty_of_readBootstrapAt hr

theorem Layout.command_reads {protocol : Protocol} {fields : List StampField}
    (h : Layout b protocol fields) (hne : protocol ≠ .dnscrypt) (address : GoString) :
    (commandStampAt address b).2 = fields := by
  cases h with
  | udp hp ha hs =>
    simp only [commandStampAt, hp, commandRead, readSpan_of_spanAt ha]
    rfl
  | dnscrypt hp ha hk hn hs => exact absurd rfl hne
  | doh hp ha hq hn ht hr =>
    simp only [commandStampAt, hp, commandRead, readSpan_of_spanAt ha, readSpan_of_spanAt hn,
      readSpan_of_spanAt ht, skipHashesAt_of_readHashesAt hq]
    rfl
  | dot hp ha hq hn hr | doq hp ha hq hn hr =>
    simp only [commandStampAt, hp, commandRead, readSpan_of_spanAt ha, readSpan_of_spanAt hn,
      skipHashesAt_of_readHashesAt hq]
    rfl

/-- The unchecked reads find the fields of the layout. -/
theorem Layout.key_reads {protocol : Protocol} {fields : List StampField}
    (h : Layout b protocol fields) (hp : b.headD 0 = 1) : protocol = .dnscrypt ∧
      ∃ endpoint key provider, fields = [endpoint, key, provider] ∧
        keyReads b = .ok (endpoint, key, provider) ∧ provider.stop = b.length := by
  cases h with
  | dnscrypt _ ha hk hn hs =>
    refine ⟨rfl, _, _, _, rfl, ?_, hs⟩
    simp only [keyReads, keyRead, readSpan_of_spanAt ha, readSpan_of_spanAt hk,
      readSpan_of_spanAt hn, ok_bind]
    rfl
  | udp h0 | doh h0 | dot h0 | doq h0 => exact absurd (hp.symm.trans h0) (by decide)

end

structure Parsed (e b : GoString) (protocol : Protocol) (fields : List StampField) : Prop where
  accepted : validateStamp e = .ok protocol
  decoded : decodeString (trimRight (byte '=') e) = some b
  length : 10 ≤ b.length
  parsed : validateStampAt b = .ok (protocol, fields)
  within : ∀ f ∈ fields, f.stop ≤ b.length
  rest : ∀ last ∈ fields.getLast?, ∀ n ∈ b.drop last.stop, n.toNat % 128 = 0

theorem parsed_of_validateStamp {e : GoString} {protocol : Protocol}
    (h : validateStamp e = .ok protocol) : ∃ b fields, Parsed e b protocol fields := by
  have haccepted := h
  simp only [validateStamp] at h
  split at h
  · cases h
  · next b hb =>
    obtain ⟨_, hlen, h⟩ := bind_eq_ok.mp h
    rw [← validateStampAt_fst] at h
    obtain ⟨⟨_, fields⟩, hfields, rfl⟩ := map_eq_ok.mp h
    obtain ⟨hwithin, hrest⟩ := (layout_of_validateStampAt hfields).within
    exact ⟨b, fields, haccepted, hb, require_eq_ok.mp hlen, hfields, hwithin, hrest⟩

theorem Parsed.command {e b address : GoString} {protocol : Protocol} {fields : List StampField}
    (h : Parsed e b protocol fields) (hne : protocol ≠ .dnscrypt)
    (hpre : hasPrefix address (str "sdns://") = true)
    (hb : decodeString (trimPrefix address (str "sdns://")) = some b) :
    commandStampAt address b = (commandAddress address, fields) := by
  have hfields := (layout_of_validateStampAt h.parsed).command_reads hne address
  have hlen : ¬ b.length < 10 := Nat.not_lt.mpr h.length
  rw [commandAddress, if_pos hpre, hb]
  simp only [if_neg hlen, ← commandStampAt_fst, ← hfields]

theorem command_not_stamp {f : Fields} (h : f.isValid) (hne : f.protocol ≠ .dnscrypt)
    (address : GoString) : hasPrefix (f.command address) (str "sdns://") = false := by
  cases f with
  | udp addr => rfl
  | dnscrypt addr publicKey provider => exact absurd rfl hne
  | doh host path =>
    obtain ⟨name, port, hfield⟩ := isHostField_of_stampHost h.1
    rw [Fields.command,
      string_doh hfield.ne_nil (fun b hb => (field_facts (hfield.bytes b hb)).1) h.2]
    rfl
  | dot host => rfl
  | doq host => rfl

section

variable [CaseTables] {a b : GoString}

theorem parsed_of_keyRuns (h : KeyRuns a b) : ∃ e fields, trimSpace a = str "sdns://" ++ e ∧
    Parsed e b .dnscrypt fields := by
  obtain ⟨c, p, hv, hpre, hdecoded, hlen, hhead⟩ := h
  obtain ⟨-, ⟨hs, hstamp, hc⟩ | ⟨-, u, hu, hurl⟩⟩ := validateAddress_eq_ok.mp hv
  · obtain ⟨e, he⟩ := isStamp_iff.mp hs
    rw [he, trimPrefix_append] at hstamp hc
    obtain ⟨b', fields, hparsed⟩ := parsed_of_validateStamp hstamp
    obtain ⟨b'', f, hb'', -, hf, hvalid, hp⟩ := validateStamp_eq_ok hstamp
    obtain rfl := Option.some.inj (hb''.symm.trans hparsed.decoded)
    have hcommand := commandAddress_stamp hparsed.decoded hparsed.length hf
    rw [← hc] at hcommand
    have hdnscrypt : p = .dnscrypt := by
      by_contra hne
      rw [hcommand, command_not_stamp hvalid (hp ▸ hne)] at hpre
      cases hpre
    have hkept : commandAddress c = c := by
      cases f with
      | dnscrypt addr publicKey provider => exact hcommand
      | udp addr | doh host path | dot host | doq host =>
        rw [hp] at hdnscrypt
        cases hdnscrypt
    rw [hkept, hc, trimPrefix_append] at hdecoded
    obtain rfl := Option.some.inj (hdecoded.symm.trans hparsed.decoded)
    exact ⟨e, fields, he, hdnscrypt ▸ hparsed⟩
  · obtain ⟨up, -, hp⟩ := exists_upstream hu hurl
    rw [Upstream.validateURL_eq hp, Except.ok.injEq, Prod.mk.injEq] at hurl
    obtain ⟨rfl, rfl⟩ := hurl
    have hkept : commandAddress up.canonical.text = up.canonical.text := by
      rw [commandAddress, not_stamp_text]
      rfl
    rw [hkept, not_stamp_text] at hpre
    cases hpre

theorem keyReads_of_keyRuns (h : KeyRuns a b) : ∃ e endpoint key provider,
    trimSpace a = str "sdns://" ++ e ∧ Parsed e b .dnscrypt [endpoint, key, provider] ∧
      keyReads b = .ok (endpoint, key, provider) ∧ provider.stop = b.length := by
  obtain ⟨e, fields, he, hparsed⟩ := parsed_of_keyRuns h
  obtain ⟨_, _, _, _, _, _, hhead⟩ := h
  obtain ⟨-, endpoint, key, provider, rfl, hreads, hstop⟩ :=
    (layout_of_validateStampAt hparsed.parsed).key_reads hhead
  exact ⟨e, endpoint, key, provider, he, hparsed, hreads, hstop⟩

omit [CaseTables] in
theorem readLP_of_keyRead {pos q : Nat} {f : StampField} (h : keyRead b pos = .ok (f, q)) :
    readLP (b.drop pos) = .ok (f.text, b.drop q) := by
  have hv : validateRead b pos = .ok (f, q) := readSpan_eq_ok.mpr (readSpan_eq_ok.mp h)
  rw [readLP_drop, hv]
  rfl

theorem stampKeyAt_eq {address : GoString}
    (h : ∀ b, decodeString (trimPrefix address (str "sdns://")) = some b → 10 ≤ b.length →
      b.headD 0 = 1 → ∃ fields, keyReads b = .ok fields) :
    stampKeyAt address = (stampKey address).mapError .error := by
  simp only [stampKeyAt, stampKey]
  cases hb : decodeString (trimPrefix address (str "sdns://")) with
  | none => rfl
  | some b =>
    dsimp only
    by_cases hc : 10 ≤ b.length ∧ b.headD 0 = 1
    · obtain ⟨fields, hf⟩ := h b hb hc.1 hc.2
      simp only [keyReads, bind_eq_ok, pure_eq_ok] at hf
      obtain ⟨⟨endpoint, q₁⟩, h₁, ⟨key, q₂⟩, h₂, ⟨provider, q₃⟩, h₃, rfl⟩ := hf
      rw [require, if_pos hc, require, if_pos hc]
      simp only [keyReads, h₁, h₂, h₃, readLP_of_keyRead h₁, readLP_of_keyRead h₂,
        readLP_of_keyRead h₃, ok_bind]
      rfl
    · rw [require, if_neg hc, require, if_neg hc]
      rfl

theorem addressKeyAt_eq (a : GoString) : addressKeyAt a = (addressKey a).mapError .error := by
  simp only [addressKeyAt, addressKey]
  cases hv : validateAddress a with
  | error e => rfl
  | ok r =>
    obtain ⟨c, p⟩ := r
    change (if hasPrefix (commandAddress c) (str "sdns://") = true then _ else _) =
      Except.mapError _ (if _ then _ else _)
    by_cases hpre : hasPrefix (commandAddress c) (str "sdns://") = true
    · rw [if_pos hpre, if_pos hpre]
      refine stampKeyAt_eq fun b hb hlen hhead => ?_
      obtain ⟨_, _, _, _, -, -, hreads, -⟩ :=
        keyReads_of_keyRuns ⟨c, p, hv, hpre, hb, hlen, hhead⟩
      exact ⟨_, hreads⟩
    · rw [if_neg hpre, if_neg hpre]
      cases parse (commandAddress c) with
      | error e => rfl
      | ok u => rfl

theorem addressKeyAt_within (a : GoString) : addressKeyAt a ≠ .error .outside := by
  rw [addressKeyAt_eq]
  cases addressKey a with
  | error e => simp [mapError_error]
  | ok key => simp [mapError_ok]

/-- The unchecked reads of a key stay within the stamp: they are made only of bytes that
validation has accepted, and read the fields it has parsed, to the last byte. Translation reads
the parsed fields of every other stamp, from each address that decodes to its bytes. -/
theorem readers_agree :
    (∀ a, addressKeyAt a ≠ .error .outside) ∧
      (∀ a b, KeyRuns a b → ∃ e endpoint key provider, trimSpace a = str "sdns://" ++ e ∧
        Parsed e b .dnscrypt [endpoint, key, provider] ∧
        keyReads b = .ok (endpoint, key, provider) ∧ provider.stop = b.length) ∧
      ∀ e protocol, validateStamp e = .ok protocol → protocol ≠ .dnscrypt →
        ∃ b fields, Parsed e b protocol fields ∧
          commandStampAt (str "sdns://" ++ trimRight (byte '=') e) b =
            (commandAddress (str "sdns://" ++ trimRight (byte '=') e), fields) ∧
          ∀ address, hasPrefix address (str "sdns://") = true →
            decodeString (trimPrefix address (str "sdns://")) = some b →
            commandStampAt address b = (commandAddress address, fields) := by
  refine ⟨addressKeyAt_within, fun a b h => keyReads_of_keyRuns h, fun e protocol h hne => ?_⟩
  obtain ⟨b, fields, hparsed⟩ := parsed_of_validateStamp h
  refine ⟨b, fields, hparsed, ?_, fun address hpre hb => hparsed.command hne hpre hb⟩
  refine hparsed.command hne (hasPrefix_iff.mpr (List.prefix_append _ _)) ?_
  rw [trimPrefix_append]
  exact hparsed.decoded

end

section

local instance : CaseTables := asciiTables

def plainStamp : GoString :=
  str "AQAAAAAAAAAABzEuMi4zLjQgAAECAwQFBgcICQoLDA0ODxAREhMUFRYXGBkaGxwdHh8KMi5kbnNjcnlwdA"

def paddedStamp : GoString := str " sdns://" ++ plainStamp ++ str "= "

def emptyHashes : GoString := str "AgAAAAAAAAAAAICAAAtkbnMuZXhhbXBsZQIvcYAA"

theorem readers_agree_stamps :
    (∃ b e endpoint key provider, trimSpace paddedStamp = str "sdns://" ++ e ∧
      Parsed e b .dnscrypt [endpoint, key, provider] ∧
      keyReads b = .ok (endpoint, key, provider) ∧ provider.stop = b.length) ∧
      ∃ b fields, Parsed emptyHashes b .doh fields ∧
        commandStampAt (str "sdns://" ++ emptyHashes) b = (str "https://dns.example/q", fields) := by
  obtain ⟨-, hkey, hcommand⟩ := readers_agree
  constructor
  · have hruns : ∃ b, KeyRuns paddedStamp b := by
      exact ⟨_, str "sdns://" ++ plainStamp, .dnscrypt, by decide +kernel, by decide +kernel, rfl,
        by decide +kernel, by decide +kernel⟩
    obtain ⟨b, hb⟩ := hruns
    exact ⟨b, hkey paddedStamp b hb⟩
  · obtain ⟨b, fields, hparsed, hread, -⟩ :=
      hcommand emptyHashes .doh (by decide +kernel) (by decide)
    have htrim : trimRight (byte '=') emptyHashes = emptyHashes := by decide +kernel
    have htext : commandAddress (str "sdns://" ++ emptyHashes) = str "https://dns.example/q" := by
      decide +kernel
    rw [htrim, htext] at hread
    exact ⟨b, fields, hparsed, hread⟩

end

end DnsMonitor.Monitor.Readers
