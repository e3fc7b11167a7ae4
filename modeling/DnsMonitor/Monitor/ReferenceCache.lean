import DnsMonitor.Go.Format
import DnsMonitor.Lib.Evictions
import DnsMonitor.Monitor.Canonical
import DnsMonitor.Monitor.Config
import DnsMonitor.Monitor.Lookup
import Mathlib.Algebra.Order.BigOperators.Group.List

namespace DnsMonitor.Monitor.ReferenceCache

open DnsMonitor.Model DnsMonitor.Lib.Evictions
open DnsMonitor.Monitor.Config DnsMonitor.Monitor.Lookup DnsMonitor.Monitor.Validate
open DnsMonitor.Monitor.Address DnsMonitor.Monitor.Stamp DnsMonitor.Monitor.Canonical
open DnsMonitor.Go.Strings DnsMonitor.Go.Unicode DnsMonitor.Go.Format DnsMonitor.Go.Float
open DnsMonitor.Go.Base64 DnsMonitor.Go.UrlText DnsMonitor.Go.Errors

/-- A cached result, with the raw output and the error text of its probe. -/
structure CachedProbe (F : Type) where
  result : ProbeResult F
  raw : GoString
  error : GoString
deriving DecidableEq

abbrev Cache (F : Type) := List (GoString × CachedProbe F)

def cacheKey (s : Server) (d : Domain) : GoString :=
  joinNul [formatInt s.id, formatInt s.trustEpoch, s.address, d.name, d.type]

section

variable {F : Type}

def CachedProbe.valid (v : CachedProbe F) (referenceTTLSeconds now : Int) : Bool :=
  v.result.success && v.result.records ≠ [] && 0 < referenceTTLSeconds &&
    now - v.result.timestamp < referenceTTLSeconds * 1000 &&
    v.result.records.all fun r => 0 < r.ttlSeconds && now < r.expiresAt

def cacheGet (referenceTTLSeconds now : Int) (key : GoString) (cache : Cache F) :
    Option (ProbeResult F) :=
  match cache.find? (·.1 = key) with
  | some (_, v) => if v.valid referenceTTLSeconds now then some v.result else none
  | none => none

def CachedProbe.size (v : CachedProbe F) : Nat :=
  v.raw.length + v.error.length + v.result.records.length * 128 + 256 +
    (v.result.answers.map (·.length)).sum

def fits (cache : Cache F) : Bool :=
  cache.length ≤ 512 && (cache.map (·.2.size)).sum ≤ 8 * 1024 * 1024

def bound (walk : Walk (GoString × CachedProbe F)) (cache : Cache F) : Cache F :=
  evict fits (·.result.timestamp) walk cache.length cache

def allowedServers (servers : List Server) : List GoString :=
  (servers.filter fun s => s.enabled && s.trusted).map fun s =>
    joinNul [formatInt s.id, formatInt s.trustEpoch, s.address]

def allowedDomains (domains : List Domain) : List GoString :=
  domains.map fun d => joinNul [d.name, d.type]

def validKey (servers : List Server) (domains : List Domain) (key : GoString) : Bool :=
  match key.splitOn nul with
  | [id, epoch, address, name, type] =>
    joinNul [id, epoch, address] ∈ allowedServers servers &&
      joinNul [name, type] ∈ allowedDomains domains
  | _ => false

def prune (c : Config F) (servers : List Server) (now : Int) (cache : Cache F) : Cache F :=
  cache.filter fun e => validKey servers c.domains e.1 &&
    now - e.2.result.timestamp ≤ c.referenceTTLSeconds * 1000

end

/-- A lookup for a collection of references asks the cache before it waits for a slot and again
once it has one. -/
def referenceLookup {F : Type} [GoFloat F] [CaseTables] (referenceTTLSeconds : Int)
    (server : Server) (domain : Domain) (turn : Turn F) (first second : Int × Cache F) :
    ProbeResult F × GoString :=
  let key := cacheKey server domain
  match cacheGet referenceTTLSeconds first.1 key first.2 with
  | some result => (result, [])
  | none =>
    if turn.slot ≠ .granted then lookup server domain turn
    else
      match cacheGet referenceTTLSeconds second.1 key second.2 with
      | some result => (result, [])
      | none => lookup server domain turn

attribute [ext] Domain

def Plain (d : Domain) : Prop := nul ∉ d.name ∧ nul ∉ d.type

section

variable [CaseTables]

omit [CaseTables] in
theorem nul_of_name {b : UInt8} (h : isNameByte b = true) : b ≠ nul := by
  rintro rfl
  revert h
  decide

theorem plain_validateDomain {d d' : Domain} (h : validateDomain d = .ok d') : Plain d' := by
  obtain ⟨-, -, hname, htype⟩ := validateDomain_eq_ok.mp h
  have htypes : ∀ t ∈ queryTypes, nul ∉ t := by decide +kernel
  exact ⟨fun hb => nul_of_name (bytes_of_validateDomainName hname nul hb) rfl, htypes _ htype⟩

theorem plain_validateDomains {i : Nat} {seen : List GoString} {ds out : List Domain}
    (h : validateDomains i seen ds = .ok out) : ∀ d ∈ out, Plain d := by
  induction ds generalizing i seen out with
  | nil =>
    obtain rfl := pure_eq_ok.mp h
    simp
  | cons d ds ih =>
    obtain ⟨d', ds', hd, -, hds, rfl⟩ := validateDomains_cons.mp h
    exact List.forall_mem_cons.mpr ⟨plain_validateDomain hd, ih hds⟩

theorem plain_validateConfig {F : Type} [GoFloat F] {c c' : Config F}
    (h : validateConfig c = .ok c') : ∀ d ∈ c'.domains, Plain d := by
  obtain ⟨_, _, -, -, hdomains, rfl⟩ := validateConfig_eq_ok.mp h
  exact plain_validateDomains hdomains

end

theorem cacheKey_eq (s : Server) (d : Domain) : cacheKey s d =
    formatInt s.id ++ nul :: (formatInt s.trustEpoch ++ nul ::
      ((s.address ++ nul :: d.name) ++ nul :: d.type)) := by
  simp [cacheKey, joinNul_cons]

/-- Keys of domains that the program accepts tell their parts. -/
theorem cacheKey_inj {s s' : Server} {d d' : Domain} (hd : Plain d) (hd' : Plain d')
    (h : cacheKey s d = cacheKey s' d') :
    s.id = s'.id ∧ s.trustEpoch = s'.trustEpoch ∧ s.address = s'.address ∧ d = d' := by
  rw [cacheKey_eq, cacheKey_eq] at h
  obtain ⟨hid, h⟩ := append_nul_inj (nul_not_mem_formatInt _) (nul_not_mem_formatInt _) h
  obtain ⟨hepoch, h⟩ := append_nul_inj (nul_not_mem_formatInt _) (nul_not_mem_formatInt _) h
  obtain ⟨h, htype⟩ := append_nul_inj_last hd.2 hd'.2 h
  obtain ⟨haddress, hname⟩ := append_nul_inj_last hd.1 hd'.1 h
  exact ⟨formatInt_injective hid, formatInt_injective hepoch, haddress, Domain.ext hname htype⟩

/-- An address with a zero byte takes more than its place in a key. -/
theorem validKey_nul {s : Server} {d : Domain} (hs : nul ∈ s.address) (hd : Plain d)
    (servers : List Server) (domains : List Domain) :
    validKey servers domains (cacheKey s d) = false := by
  obtain ⟨p, q, hpq⟩ := List.append_of_mem hs
  have hlength : ((cacheKey s d).splitOn nul).length =
      (p.splitOn nul).length + (q.splitOn nul).length + 4 := by
    rw [cacheKey_eq, hpq,
      List.splitOn_append_cons_self_of_not_mem (nul_not_mem_formatInt _),
      List.splitOn_append_cons_self_of_not_mem (nul_not_mem_formatInt _),
      List.splitOn_append_cons_self, List.splitOn_append_cons_self, List.splitOn_append_cons_self,
      List.splitOn_eq_singleton hd.1, List.splitOn_eq_singleton hd.2]
    simp only [List.length_cons, List.length_append, List.length_nil]
  have hp := List.length_pos_of_ne_nil (List.splitOn_ne_nil nul p)
  have hq := List.length_pos_of_ne_nil (List.splitOn_ne_nil nul q)
  unfold validKey
  split
  · rename_i h
    rw [h] at hlength
    simp only [List.length_cons, List.length_nil] at hlength
    omega
  · rfl

theorem mem_allowedServers {s : Server} {servers : List Server} :
    joinNul [formatInt s.id, formatInt s.trustEpoch, s.address] ∈ allowedServers servers ↔
      ∃ t ∈ servers, t.enabled = true ∧ t.trusted = true ∧ t.id = s.id ∧
        t.trustEpoch = s.trustEpoch ∧ t.address = s.address := by
  simp only [allowedServers, List.mem_map, List.mem_filter, Bool.and_eq_true]
  constructor
  · rintro ⟨t, ⟨ht, he, htr⟩, hk⟩
    simp only [joinNul_cons, joinNul_singleton] at hk
    obtain ⟨hid, hk⟩ := append_nul_inj (nul_not_mem_formatInt _) (nul_not_mem_formatInt _) hk
    obtain ⟨hepoch, haddress⟩ :=
      append_nul_inj (nul_not_mem_formatInt _) (nul_not_mem_formatInt _) hk
    exact ⟨t, ht, he, htr, formatInt_injective hid, formatInt_injective hepoch, haddress⟩
  · rintro ⟨t, ht, he, htr, hid, hepoch, haddress⟩
    exact ⟨t, ⟨ht, he, htr⟩, by rw [hid, hepoch, haddress]⟩

theorem mem_allowedDomains {d : Domain} (hd : Plain d) {domains : List Domain}
    (hdomains : ∀ e ∈ domains, Plain e) :
    joinNul [d.name, d.type] ∈ allowedDomains domains ↔ d ∈ domains := by
  simp only [allowedDomains, List.mem_map]
  constructor
  · rintro ⟨e, he, hk⟩
    simp only [joinNul_cons, joinNul_singleton] at hk
    obtain ⟨hname, htype⟩ := append_nul_inj (hdomains e he).1 hd.1 hk
    exact Domain.ext hname htype ▸ he
  · exact fun h => ⟨d, h, rfl⟩

theorem validKey_cacheKey {s : Server} {d : Domain} (hd : Plain d) {servers : List Server}
    {domains : List Domain} (hdomains : ∀ e ∈ domains, Plain e) :
    validKey servers domains (cacheKey s d) = true ↔ nul ∉ s.address ∧
      (∃ t ∈ servers, t.enabled = true ∧ t.trusted = true ∧ t.id = s.id ∧
        t.trustEpoch = s.trustEpoch ∧ t.address = s.address) ∧ d ∈ domains := by
  by_cases hs : nul ∈ s.address
  · simp [validKey_nul hs hd, hs]
  · have hsplit : (cacheKey s d).splitOn nul =
        [formatInt s.id, formatInt s.trustEpoch, s.address, d.name, d.type] := by
      apply splitOn_joinNul
      · simp [nul_not_mem_formatInt, hs, hd.1, hd.2]
      · simp
    rw [validKey, hsplit]
    simp only [Bool.and_eq_true, decide_eq_true_eq, mem_allowedServers,
      mem_allowedDomains hd hdomains, hs, not_false_eq_true, true_and]

end DnsMonitor.Monitor.ReferenceCache
