import DnsMonitor.Httpapi.Handlers

namespace DnsMonitor.Httpapi.Calls

open DnsMonitor.Model DnsMonitor.Lib DnsMonitor.Lib.Programs
open DnsMonitor.Httpapi.ServerCsv DnsMonitor.Httpapi.Handlers
open DnsMonitor.Monitor.Config DnsMonitor.Store.Schema
open DnsMonitor.Go.Strings DnsMonitor.Go.Unicode DnsMonitor.Go.Url DnsMonitor.Go.ServeMux
open DnsMonitor.Go.Errors DnsMonitor.Go.Float

section

variable {F : Type}

def Lists (L : List Server → Prop) (x : Exchange (Answer (F := F))) : Prop :=
  ∀ servers, x = ⟨.listServers, servers⟩ → L servers

variable [GoFloat F] [CaseTables] {L : List Server → Prop} {settings : Settings F} {r : Request}
  {values : List GoString}

def Checked (v : Override) : Prop :=
  (v.verdict = str "auto" ∨ v.verdict = str "clean" ∨ v.verdict = str "polluted") ∧
    v.note.length ≤ 2000 ∧ ∃ d, validateDomain d = .ok ⟨v.domain, v.type⟩

/-- The calls that a request can make, with what was checked before each. -/
def Made (L : List Server → Prop) (settings : Settings F) (r : Request) : Call F → Prop
  | .enter _ => r.credentials = some (str "admin", settings.key)
  | .leave token => token = r.token
  | .saveServer v => ∃ input, normalizeServerInput input = (v, .ok ())
  | .importServers snapshot items => ∃ servers input, L servers ∧ input.snapshot = some snapshot ∧
      readImport servers input = .ok items
  | .saveConfig c => ∃ input, validateConfig input = .ok c
  | .saveOverride v => Checked v
  | _ => True

theorem asks_login : (login settings r).Asks (Lists L) (Made L settings r) := by
  rw [login]
  cases hcredentials : r.credentials with
  | none => trivial
  | some credentials =>
    obtain ⟨user, password⟩ := credentials
    dsimp only
    split_ifs with h
    · trivial
    · rw [not_or, not_not, not_not] at h
      obtain ⟨rfl, rfl⟩ := h
      refine ⟨trivial, ?_⟩
      rintro (e | b) -
      · trivial
      · refine ⟨hcredentials, ?_⟩
        rintro (_ | _) -
        · trivial
        · trivial

theorem asks_storeServer (server : Server) :
    (storeServer server : Handler F).Asks (Lists L) (Made L settings r) := by
  rw [storeServer]
  split
  · trivial
  · rename_i hnormal
    refine ⟨⟨_, hnormal⟩, ?_⟩
    rintro (e | id) -
    · trivial
    · refine ⟨trivial, ?_⟩
      rintro (_ | server) -
      · trivial
      · exact ⟨trivial, fun _ _ => trivial⟩

theorem asks_saveServer : (saveServer settings r values).Asks (Lists L) (Made L settings r) := by
  rw [saveServer]
  split
  · trivial
  · dsimp only
    split_ifs
    · split
      · trivial
      · refine ⟨trivial, ?_⟩
        rintro (_ | server) -
        · trivial
        · exact asks_storeServer _
    · exact asks_storeServer _

theorem asks_deleteServer :
    (deleteServer values : Handler F).Asks (Lists L) (Made L settings r) := by
  rw [deleteServer]
  split
  · trivial
  · refine ⟨trivial, ?_⟩
    rintro (e | _) -
    · trivial
    · exact ⟨trivial, fun _ _ => trivial⟩

theorem asks_results : (results r values : Handler F).Asks (Lists L) (Made L settings r) := by
  rw [results]
  split
  · trivial
  · refine ⟨trivial, ?_⟩
    rintro (e | records) -
    · trivial
    · trivial

theorem asks_config : (config settings r).Asks (Lists L) (Made L settings r) := by
  refine ⟨trivial, ?_⟩
  intro prior _
  dsimp only
  split
  · trivial
  · split
    · trivial
    · rename_i hvalid
      refine ⟨⟨_, hvalid⟩, ?_⟩
      rintro (e | _) -
      · trivial
      · exact ⟨trivial, fun _ _ => trivial⟩

theorem validateDomain_of_config {v : Override} {c : Config F}
    (h : validateConfig (overrideConfig v : Config F) = .ok c) :
    validateDomain ⟨v.domain, v.type⟩ = .ok (c.domains.headD ⟨[], []⟩) := by
  obtain ⟨listen, domains, -, -, hdomains, rfl⟩ := validateConfig_eq_ok.mp h
  simp only [overrideConfig, validateDomains, bind_eq_ok, mapError_eq_ok, pure_eq_ok] at hdomains
  obtain ⟨d, hd, _, -, _, rfl, rfl⟩ := hdomains
  exact hd

theorem asks_override : (override settings r).Asks (Lists L) (Made L settings r) := by
  rw [override]
  split
  · trivial
  · rename_i v _
    split_ifs with hverdict
    · trivial
    · split
      · trivial
      · rename_i cfg hcfg
        rw [storeOverride]
        split_ifs with hnote
        · trivial
        · refine ⟨trivial, ?_⟩
          rintro (_ | server) -
          · trivial
          · refine ⟨trivial, ?_⟩
            intro now _
            have hverdict : v.verdict = str "auto" ∨ v.verdict = str "clean" ∨
                v.verdict = str "polluted" := by tauto
            refine ⟨⟨hverdict, not_lt.mp hnote, _, validateDomain_of_config hcfg⟩, ?_⟩
            rintro (e | _) -
            · trivial
            · trivial

theorem asks_previewServerImport :
    (previewServerImport settings r).Asks (Lists L) (Made L settings r) := by
  rw [previewServerImport]
  split
  · trivial
  · refine ⟨trivial, ?_⟩
    intro servers _
    dsimp only
    split
    · trivial
    · trivial

theorem snapshot_of_readImport {servers : List Server} {input : ImportRequest}
    {items : List ServerImportItem} (h : readImport servers input = .ok items) :
    input.snapshot = some (Store.Servers.serverSnapshot servers) := by
  simp only [readImport, bind_eq_ok, require_eq_ok] at h
  obtain ⟨_, hsnapshot, -⟩ := h
  exact hsnapshot

theorem asks_importServers :
    (Handlers.importServers settings r).Asks (Lists L) (Made L settings r) := by
  rw [Handlers.importServers]
  split
  · trivial
  · refine ⟨trivial, ?_⟩
    intro servers hservers
    dsimp only
    split
    · trivial
    · rename_i items hitems
      have hsnapshot := snapshot_of_readImport hitems
      refine ⟨⟨servers, _, hservers servers rfl, by rw [hsnapshot]; rfl, hitems⟩, ?_⟩
      rintro (e | result) -
      · dsimp only
        split_ifs
        · trivial
        · trivial
      · exact ⟨trivial, fun _ _ => trivial⟩

theorem asks_route (handler : Route) :
    (route settings r values handler).Asks (Lists L) (Made L settings r) := by
  cases handler with
  | login => exact asks_login
  | logout => exact ⟨rfl, fun _ _ => trivial⟩
  | saveServer => exact asks_saveServer
  | exportServers => exact ⟨trivial, fun _ _ => trivial⟩
  | previewServerImport => exact asks_previewServerImport
  | importServers => exact asks_importServers
  | deleteServer => exact asks_deleteServer
  | results => exact asks_results
  | config => exact asks_config
  | override => exact asks_override
  | health => trivial
  | serverTemplate => trivial
  | _ => exact ⟨trivial, fun _ _ => trivial⟩

theorem asks_serveMux : (serveMux settings r).Asks (Lists L) (Made L settings r) := by
  rw [serveMux]
  split
  · exact asks_route _
  · trivial
  · trivial

theorem asks_handler (L : List Server → Prop) (settings : Settings F) (r : Request) :
    (handler settings r).Asks (Lists L) (Made L settings r) := by
  rw [handler]
  split_ifs
  · trivial
  · exact asks_serveMux
  · refine ⟨trivial, ?_⟩
    rintro (_ | _) -
    · trivial
    · exact asks_serveMux
  · exact asks_serveMux

end

end DnsMonitor.Httpapi.Calls
