import DnsMonitor.Go.ServeMux
import DnsMonitor.Go.Time
import DnsMonitor.Httpapi.ServerCsv
import DnsMonitor.Lib.Leases
import DnsMonitor.Lib.Programs
import DnsMonitor.Monitor.Config
import DnsMonitor.Store.Paging
import DnsMonitor.Store.Run

namespace DnsMonitor.Httpapi.Handlers

open DnsMonitor.Model DnsMonitor.Lib DnsMonitor.Lib.Programs DnsMonitor.Httpapi.ServerCsv
open DnsMonitor.Monitor.Config DnsMonitor.Monitor.Endpoint
open DnsMonitor.Store.Schema DnsMonitor.Store.Paging DnsMonitor.Store.Override
open DnsMonitor.Go.Strings DnsMonitor.Go.Unicode DnsMonitor.Go.Net DnsMonitor.Go.Url
open DnsMonitor.Go.ServeMux DnsMonitor.Go.Time DnsMonitor.Go.Float

inductive Route where
  | health
  | login
  | logout
  | state
  | saveServer
  | probeAll
  | exportServers
  | serverTemplate
  | previewServerImport
  | importServers
  | deleteServer
  | history
  | results
  | probe
  | config
  | override
  | export
  | inspect
  | service
  | assets
deriving DecidableEq

def api (method : String) (path : List Segment) (route : Route) : Pattern Route where
  method := str method
  segments := .literal (str "api") :: path
  handler := route

def literal (s : String) : Segment := .literal (str s)

/-- The patterns of `Handler`, the one for all other files at the end. -/
def patterns : List (Pattern Route) :=
  [api "GET" [literal "health"] .health,
    api "GET" [literal "session"] .login,
    api "DELETE" [literal "session"] .logout,
    api "GET" [literal "state"] .state,
    api "POST" [literal "servers"] .saveServer,
    api "POST" [literal "probes"] .probeAll,
    api "GET" [literal "servers", literal "export"] .exportServers,
    api "GET" [literal "servers", literal "template"] .serverTemplate,
    api "POST" [literal "servers", literal "import", literal "preview"] .previewServerImport,
    api "POST" [literal "servers", literal "import"] .importServers,
    api "PUT" [literal "servers", .wildcard] .saveServer,
    api "DELETE" [literal "servers", .wildcard] .deleteServer,
    api "GET" [literal "servers", .wildcard, literal "history"] .history,
    api "GET" [literal "servers", .wildcard, literal "results"] .results,
    api "POST" [literal "servers", .wildcard, literal "probe"] .probe,
    api "PUT" [literal "config"] .config,
    api "PUT" [literal "overrides"] .override,
    api "GET" [literal "export"] .export,
    api "GET" [literal "service"] .inspect,
    api "POST" [literal "service", .wildcard] .service,
    { method := str "GET", segments := [], subtree := true, handler := .assets }]

structure Request where
  method : GoString
  url : URL
  host : GoString
  /-- A header that is missing is empty. -/
  origin : GoString
  secFetchSite : GoString
  token : GoString
  /-- The user and the password of `BasicAuth`. -/
  credentials : Option (GoString × GoString)
  query : GoString → GoString
  body : GoString

inductive Body (F : Type) where
  | error (text : Message)
  | health (version : GoString)
  | token (token : GoString)
  | ok
  | server (server : Server)
  | results (results : List (StoredResult F))
  | config (config : Config F) (restartRequired : Bool)
  | override (override : Override)
  | csv (filename text : GoString)
  | preview (preview : Preview)
  | imported (result : ServerImportResult)
  /-- A reply of `net/http`, or of code that is not modelled here. -/
  | other

structure Response (F : Type) where
  status : Nat
  body : Body F

inductive Call (F : Type) where
  | authorized (token : GoString)
  /-- `rand.Read` of 32 bytes. -/
  | random
  /-- The critical section of `login`. -/
  | enter (token : GoString)
  /-- The critical section of `logout`. -/
  | leave (token : GoString)
  | listServers
  | getServer (id : Int)
  | getConfig
  | resultsPage (id limit before beforeID : Int)
  | saveServer (server : Server)
  | deleteServer (id : Int)
  | importServers (snapshot : List Server) (items : List ServerImportItem)
  | saveConfig (config : Config F)
  | saveOverride (override : Override)
  /-- `time.Now().UnixMilli()`. -/
  | now
  | wake
  /-- A handler that changes neither the sessions nor the store, for the status of its reply. -/
  | elsewhere (route : Route) (values : List GoString)

abbrev Answer {F : Type} : Call F → Type
  | .authorized _ => Bool
  | .random => Except Message GoString
  | .enter _ => Bool
  | .leave _ => Unit
  | .listServers => List Server
  | .getServer _ => Option Server
  | .getConfig => Config F
  | .resultsPage .. => Except StoreError (List (StoredResult F))
  -- the identifier of the row that is written
  | .saveServer _ => Except StoreError Int
  | .deleteServer _ => Except StoreError Unit
  | .importServers .. => Except StoreError ServerImportResult
  | .saveConfig _ => Except StoreError Unit
  | .saveOverride _ => Except StoreError Unit
  | .now => Int
  | .wake => Unit
  | .elsewhere .. => Nat

abbrev Handler (F : Type) := Program (Call F) Answer (Response F)

/-- `decode`: the value of a body of one JSON object of at most 1 MiB. A configuration starts from
the one given. -/
structure Decoder (F : Type) where
  server : GoString → Except Message Server
  config : GoString → Config F → Except Message (Config F)
  override : GoString → Except Message Override
  preview : GoString → Except Message GoString
  importRequest : GoString → Except Message ImportRequest

structure Settings (F : Type) where
  key : GoString
  initialConfiguredListen : GoString
  decode : Decoder F

section

variable {F : Type}

def problem (status : Nat) (text : Message) : Handler F := .done ⟨status, .error text⟩

def idFrom (values : List GoString) : Option Int :=
  (atoi (values.headD [])).bind fun id => if id ≤ 0 then none else some id

def badID : Message := message "无效的服务器编号"

def noServerMessage : Message := message "服务器不存在"

def login (settings : Settings F) (r : Request) : Handler F :=
  let refused := problem 401 (message "访问密钥不正确，请查看程序目录中的 data/access-key.txt")
  match r.credentials with
  | none => refused
  | some (user, password) =>
    if user ≠ str "admin" ∨ password ≠ settings.key then refused
    else .ask .random fun
      | .error e => problem 500 e
      | .ok b =>
        let token := hexText b
        .ask (.enter token) fun
          | false => problem 429 (message "会话数量已满，请先退出其他页面或重启程序")
          | true => .done ⟨200, .token token⟩

def logout (r : Request) : Handler F := .ask (.leave r.token) fun _ => .done ⟨200, .ok⟩

section

variable [CaseTables]

/-- The end of `saveServer`, with `Store.SaveServer` that reads the row it has written. -/
def storeServer (server : Server) : Handler F :=
  match normalizeServerInput server with
  | (_, .error e) => problem 400 e
  | (server, .ok ()) => .ask (.saveServer server) fun
    | .error e => problem 400 [.store e]
    | .ok id => .ask (.getServer id) fun
      | none => problem 400 [.store .noRows]
      | some server => .ask .wake fun _ => .done ⟨200, .server server⟩

def saveServer (settings : Settings F) (r : Request) (values : List GoString) : Handler F :=
  match settings.decode.server r.body with
  | .error e => problem 400 e
  | .ok server =>
    let server := { server with id := 0 }
    if r.method = str "PUT" then
      match idFrom values with
      | none => problem 400 badID
      | some id => .ask (.getServer id) fun
        | none => problem 404 noServerMessage
        | some _ => storeServer { server with id }
    else storeServer server

end

def deleteServer (values : List GoString) : Handler F :=
  match idFrom values with
  | none => problem 400 badID
  | some id => .ask (.deleteServer id) fun
    | .error e => problem 400 [.store e]
    | .ok () => .ask .wake fun _ => .done ⟨200, .ok⟩

/-- The value of `strconv.ParseInt` where its error is ignored. -/
def looseInt (s : GoString) : Int :=
  if s.head? = some (byte '-') then
    match parseDigits s.tail with
    | none => 0
    | some n => max (-n) (-2 ^ 63)
  else
    match parseDigits (if s.head? = some (byte '+') then s.tail else s) with
    | none => 0
    | some n => min n (2 ^ 63 - 1)

def results (r : Request) (values : List GoString) : Handler F :=
  match idFrom values with
  | none => problem 400 badID
  | some id =>
    let limit := looseInt (r.query (str "limit"))
    let limit := if limit ≤ 0 then 100 else limit
    let limit := if 200 < limit then 200 else limit
    .ask (.resultsPage id limit (looseInt (r.query (str "before")))
      (looseInt (r.query (str "before_id")))) fun
      | .error e => problem 500 [.store e]
      | .ok records => .done ⟨200, .results records⟩

section

variable [GoFloat F]

/-- The saved values of the settings that older clients leave out. -/
def presetConfig (prior : Config F) : Config F where
  listen := []
  intervalSeconds := 0
  timeoutSeconds := 0
  concurrency := 0
  smartBackoff := false
  maxBackoffHours := ofInt 0
  referenceTTLSeconds := 0
  referenceHistoryHours := prior.referenceHistoryHours
  ratingWindowMinutes := prior.ratingWindowMinutes
  ratingMinSamples := prior.ratingMinSamples
  ratingMinCoverageMinutes := prior.ratingMinCoverageMinutes
  ratingWAvail := prior.ratingWAvail
  ratingWSuccess := prior.ratingWSuccess
  ratingWLatency := prior.ratingWLatency
  domains := []

variable [CaseTables]

def config (settings : Settings F) (r : Request) : Handler F :=
  .ask .getConfig fun prior =>
    match settings.decode.config r.body (presetConfig prior) with
    | .error e => problem 400 e
    | .ok cfg =>
      match validateConfig cfg with
      | .error e => problem 400 (message e)
      | .ok cfg => .ask (.saveConfig cfg) fun
        | .error e => problem 500 [.store e]
        | .ok () => .ask .wake fun _ =>
          .done ⟨200, .config cfg (cfg.listen ≠ settings.initialConfiguredListen)⟩

def overrideConfig (v : Override) : Config F :=
  { (defaultConfig : Config F) with domains := [⟨v.domain, v.type⟩] }

def storeOverride (v : Override) : Handler F :=
  if 2000 < v.note.length then problem 400 (message "说明过长")
  else .ask (.getServer v.serverID) fun
    | none => problem 404 noServerMessage
    | some _ => .ask .now fun now =>
      .ask (.saveOverride { v with updatedAt := now }) fun
        | .error e => problem (if e = errTrustedOverride then 400 else 500) [.store e]
        | .ok () => .done ⟨200, .override { v with updatedAt := now }⟩

def override (settings : Settings F) (r : Request) : Handler F :=
  match settings.decode.override r.body with
  | .error e => problem 400 e
  | .ok v =>
    if v.verdict ≠ str "auto" ∧ v.verdict ≠ str "clean" ∧ v.verdict ≠ str "polluted" then
      problem 400 (message "无效判定")
    else
      match validateConfig (overrideConfig v : Config F) with
      | .error e => problem 400 (message e)
      | .ok cfg =>
        let domain := cfg.domains.headD ⟨[], []⟩
        storeOverride { v with domain := domain.name, type := domain.type }

end

section

variable [CaseTables]

def previewServerImport (settings : Settings F) (r : Request) : Handler F :=
  match settings.decode.preview r.body with
  | .error e => problem 400 e
  | .ok csv => .ask .listServers fun servers =>
    match prepareImport csv servers with
    | .error e => problem 400 e
    | .ok preview => .done ⟨200, .preview preview⟩

def importServers (settings : Settings F) (r : Request) : Handler F :=
  match settings.decode.importRequest r.body with
  | .error e => problem 400 e
  | .ok input => .ask .listServers fun servers =>
    match readImport servers input with
    | .error p => problem p.status p.message
    | .ok items => .ask (.importServers (input.snapshot.getD []) items) fun
      | .error e =>
        if e = Store.Servers.errImportConflict then
          problem 409 (message "服务器列表已变化，请重新预览后确认导入")
        else problem 400 [.store e]
      | .ok result => .ask .wake fun _ => .done ⟨200, .imported result⟩

end

def exportServers : Handler F := .ask .listServers fun servers =>
  .done ⟨200, .csv (str "dns-monitor-servers.csv") (writeServerCSV servers)⟩

def templateServers : List Server :=
  [{ noServer with
      name := utf8 "Cloudflare 示例"
      provider := str "Cloudflare"
      address := str "1.1.1.1"
      enabled := true
      notes := utf8 "示例行，请替换或删除；可信须由用户自行确认" },
    { noServer with
      name := utf8 "Google DoH 示例"
      provider := str "Google"
      address := str "https://dns.google/dns-query"
      enabled := true
      notes := utf8 "地址决定协议；enabled/trusted 使用 true 或 false" }]

def serverTemplate : Handler F := .done
  ⟨200, .csv (str "dns-monitor-servers-template.csv") (writeServerCSV templateServers)⟩

variable [GoFloat F] [CaseTables] (settings : Settings F)

def route (r : Request) (values : List GoString) : Route → Handler F
  | .health => .done ⟨200, .health (str "1.6.0")⟩
  | .login => login settings r
  | .logout => logout r
  | .saveServer => saveServer settings r values
  | .exportServers => exportServers
  | .serverTemplate => serverTemplate
  | .previewServerImport => previewServerImport settings r
  | .importServers => importServers settings r
  | .deleteServer => deleteServer values
  | .results => results r values
  | .config => config settings r
  | .override => override settings r
  | other => .ask (.elsewhere other values) fun status => .done ⟨status, .other⟩

def serveMux (r : Request) : Handler F :=
  match findHandler patterns r.method r.url with
  | .handle handler values => route settings r values handler
  | .redirect => .done ⟨301, .other⟩
  | .methodNotAllowed => .done ⟨405, .other⟩

def crossSite (r : Request) : Bool :=
  (r.origin ≠ [] && match parse r.origin with
    | .error _ => true
    | .ok u => u.host ≠ r.host || u.scheme ≠ str "http" && u.scheme ≠ str "https") ||
  r.secFetchSite = str "cross-site"

def isOpen (r : Request) : Bool :=
  r.url.path = str "/api/health" || r.url.path = str "/api/session" && r.method = str "GET"

def handler (r : Request) : Handler F :=
  if hasPrefix r.url.path (str "/api/") then
    if crossSite r then problem 403 (message "不接受跨站请求")
    else if isOpen r then serveMux settings r
    else .ask (.authorized r.token) fun
      | false => problem 401 (message "请使用 data/access-key.txt 中的访问密钥登录")
      | true => serveMux settings r
  else serveMux settings r

end

end DnsMonitor.Httpapi.Handlers
