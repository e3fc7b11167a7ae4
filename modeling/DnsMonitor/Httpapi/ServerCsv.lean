import DnsMonitor.Go.Csv
import DnsMonitor.Go.Utf8
import DnsMonitor.Monitor.Endpoint
import DnsMonitor.Store.Servers

namespace DnsMonitor.Httpapi.ServerCsv

open DnsMonitor.Model DnsMonitor.Monitor.Address DnsMonitor.Monitor.Endpoint
open DnsMonitor.Store.Schema DnsMonitor.Store.Servers
open DnsMonitor.Go.Strings DnsMonitor.Go.Unicode DnsMonitor.Go.Utf8 DnsMonitor.Go.Errors
open DnsMonitor.Go.Csv

/-- A piece of a message: a text, a value printed with `%q`, or the error of `encoding/csv` or of
the store. -/
inductive Piece where
  | text (s : GoString)
  | quoted (value : GoString)
  | malformed
  | store (e : StoreError)
deriving DecidableEq

abbrev Message := List Piece

def message (s : String) : Message := [.text (utf8 s)]

def serverCSVHeader : List GoString :=
  [str "name", str "provider", str "address", str "enabled", str "trusted", str "notes"]

def bom : GoString := [0xEF, 0xBB, 0xBF]

/-- Keep a spreadsheet from reading a cell as a formula. -/
def csvSafe (v : GoString) : GoString :=
  if hasPrefix v (str "=") || hasPrefix v (str "+") || hasPrefix v (str "-") ||
      hasPrefix v (str "@") || hasPrefix v [0x09] || hasPrefix v [0x0D] then
    0x27 :: v
  else v

def formatBool (b : Bool) : GoString := if b then str "true" else str "false"

def serverRow (server : Server) : List GoString :=
  [server.name, server.provider, server.address, formatBool server.enabled,
    formatBool server.trusted, server.notes].map csvSafe

def writeServerCSV (servers : List Server) : GoString :=
  bom ++ writeAll (serverCSVHeader :: servers.map serverRow)

section

variable [CaseTables]

/-- The server as far as it is normalized, and the error if it is refused. -/
def normalizeServerInput (server : Server) : Server × Except Message Unit :=
  let server := { server with
    name := trimSpace server.name
    provider := trimSpace server.provider
    notes := trimSpace server.notes }
  if !validString (server.name ++ server.provider ++ server.notes) || server.name.length = 0 ||
      160 < server.name.length || 160 < server.provider.length || 2000 < server.notes.length then
    (server, .error (message
      "名称必填且最多 160 字节，供应商最多 160 字节，备注最多 2000 字节；请使用 UTF-8"))
  else
    match validateAddress server.address with
    | .error e => (server, .error (message e))
    | .ok (address, protocol) => ({ server with address, protocol }, .ok ())

def parseCSVBool (value : GoString) (fallback : Bool) : Except Message Bool :=
  let v := toLower (trimSpace value)
  if v = [] then .ok fallback
  else if v = str "true" ∨ v = str "1" ∨ v = str "yes" ∨ v = utf8 "是" then .ok true
  else if v = str "false" ∨ v = str "0" ∨ v = str "no" ∨ v = utf8 "否" then .ok false
  else .error [.text (utf8 "布尔字段应填写 true/false 或 1/0，收到 "), .quoted value]

def aliases : List (GoString × GoString) :=
  [(utf8 "名称", str "name"), (utf8 "供应商", str "provider"), (utf8 "地址", str "address"),
    (utf8 "dns地址", str "address"), (utf8 "启用", str "enabled"), (utf8 "可信", str "trusted"),
    (utf8 "备注", str "notes")]

def readHeader : Nat → List (GoString × Nat) → List GoString →
    Except Message (List (GoString × Nat))
  | _, columns, [] => .ok columns
  | i, columns, v :: header => do
    let v := toLower (trimSpace v)
    let v := (aliases.lookup v).getD v
    require (v ∈ serverCSVHeader)
      [.text (utf8 "不支持 CSV 字段 "), .quoted v, .text (utf8 "，请按模板填写")]
    require (columns.lookup v = none) [.text (utf8 "CSV 表头包含重复字段 "), .quoted v]
    readHeader (i + 1) ((v, i) :: columns) header

def readColumns (header : List GoString) : Except Message (List (GoString × Nat)) := do
  let columns ← readHeader 0 [] header
  require (columns.lookup (str "name") ≠ none) (message "CSV 缺少 name 列")
  require (columns.lookup (str "address") ≠ none) (message "CSV 缺少 address 列")
  pure columns

def keyServers : List Server → Except Message (List (GoString × Server))
  | [] => .ok []
  | server :: servers => do
    let key ← (addressKey server.address).mapError fun e =>
      [.text (utf8 "现有服务器 "), .text server.name, .text (utf8 " 的地址无法规范化: "),
        .text (utf8 e)]
    let rest ← keyServers servers
    pure ((key, server) :: rest)

structure PreviewRow where
  row : Nat
  server : Server
  key : GoString
  duplicate : Bool
  existing : Option Server
  /-- Zero when there is no such row. -/
  duplicateOfRow : Nat
  error : Option Message
deriving DecidableEq

structure Preview where
  snapshot : List Server
  rows : List PreviewRow
  errors : Nat

/-- The zero value, but for the protocol, which is not shown before the address is accepted. -/
def noServer : Server where
  trustEpoch := 0
  id := 0
  name := []
  provider := []
  address := []
  protocol := .udp
  enabled := false
  trusted := false
  notes := []
  createdAt := 0

def cell (columns : List (GoString × Nat)) (cells : List GoString) (name : GoString) : GoString :=
  match columns.lookup name with
  | none => []
  | some i => cells.getD i []

/-- The server of a row as far as it can be read, and its key or the error. -/
def readRow (columns : List (GoString × Nat)) (cells : List GoString) :
    Server × Except Message GoString :=
  let server := { noServer with
    name := cell columns cells (str "name")
    provider := cell columns cells (str "provider")
    address := cell columns cells (str "address")
    notes := cell columns cells (str "notes") }
  match parseCSVBool (cell columns cells (str "enabled")) true with
  | .error e => (server, .error e)
  | .ok enabled =>
    let server := { server with enabled }
    match parseCSVBool (cell columns cells (str "trusted")) false with
    | .error e => (server, .error e)
    | .ok trusted =>
      match normalizeServerInput { server with trusted } with
      | (server, .error e) => (server, .error e)
      | (server, .ok ()) => (server, (addressKey server.address).mapError message)

/-- The columns that the header has not are taken over from the existing server. -/
def mergeExisting (columns : List (GoString × Nat)) (existing server : Server) : Server :=
  let supplied := fun name => (columns.lookup name).isSome
  { server with
    id := existing.id
    provider := if supplied (str "provider") then server.provider else existing.provider
    enabled := if supplied (str "enabled") then server.enabled else existing.enabled
    trusted := if supplied (str "trusted") then server.trusted else existing.trusted
    notes := if supplied (str "notes") then server.notes else existing.notes }

/-- A row that could be read, against the existing servers with its key and the row that had
its key first. -/
def previewRead (columns : List (GoString × Nat)) (matching : List Server) (prior : Option Nat)
    (row : Nat) (server : Server) (key : GoString) : PreviewRow :=
  let preview : PreviewRow :=
    match matching with
    | [] =>
      { row, server, key, duplicate := false, existing := none, duplicateOfRow := 0, error := none }
    | [existing] =>
      { row, server := mergeExisting columns existing server, key, duplicate := true,
        existing := some existing, duplicateOfRow := 0, error := none }
    | _ =>
      { row, server, key, duplicate := false, existing := none, duplicateOfRow := 0,
        error := some [.text (utf8 "现有配置有 "), .text (Go.Net.itoa matching.length),
          .text (utf8 " 条相同 DNS 地址，请先整理重复节点后重试")] }
  match prior with
  | none => preview
  | some prior => { preview with duplicate := true, duplicateOfRow := prior }

def unread (row : Nat) (server : Server) (error : Message) : PreviewRow :=
  { row, server, key := [], duplicate := false, existing := none, duplicateOfRow := 0,
    error := some error }

/-- The rows from a row number on; `firstRow` holds the first row of each key. -/
def previewRows (columns : List (GoString × Nat)) (width : Nat) (byKey : List (GoString × Server)) :
    Nat → List (GoString × Nat) → List (List GoString) → List PreviewRow
  | _, _, [] => []
  | row, firstRow, cells :: rest =>
    if cells.length ≠ width then
      unread row noServer (message "列数与表头不一致") ::
        previewRows columns width byKey (row + 1) firstRow rest
    else
      match readRow columns cells with
      | (server, .error e) =>
        unread row server e :: previewRows columns width byKey (row + 1) firstRow rest
      | (server, .ok key) =>
        let matching := (byKey.filter fun p => p.1 = key).map (·.2)
        let prior := firstRow.lookup key
        previewRead columns matching prior row server key ::
          previewRows columns width byKey (row + 1)
            (if prior.isSome then firstRow else (key, row) :: firstRow) rest

def prepareImport (raw : GoString) (servers : List Server) : Except Message Preview := do
  require (validString raw = true) (message "CSV 必须使用 UTF-8 编码（可带 BOM）")
  require (raw.length ≤ 900 * 1024) (message "CSV 不得超过 900 KiB")
  match readAll (trimPrefix raw bom) with
  | ([], _) => .error (message "CSV 缺少有效表头，请下载模板")
  | (header :: records, complete) => do
    let columns ← readColumns header
    let byKey ← keyServers servers
    require (records.length ≤ 1000) (message "每次最多导入 1000 台服务器，请分批导入")
    require (complete = true) [.text (utf8 "第 "), .text (Go.Net.itoa (records.length + 1)),
      .text (utf8 " 条 CSV 记录格式错误: "), .malformed]
    let rows := previewRows columns header.length byKey 1 [] records
    require (rows ≠ []) (message "CSV 没有服务器记录")
    pure { snapshot := serverSnapshot servers, rows,
           errors := (rows.filter (·.error.isSome)).length }

structure ImportDecision where
  row : Int
  action : GoString
deriving DecidableEq

structure ImportRequest where
  csv : GoString
  /-- None for the empty text. -/
  snapshot : Option (List Server)
  decisions : List ImportDecision

structure Problem where
  status : Nat
  message : Message
deriving DecidableEq

def readDecisions (rows : List PreviewRow) :
    List (Int × GoString) → List ImportDecision → Except Message (List (Int × GoString))
  | decisions, [] => .ok decisions
  | decisions, d :: rest => do
    require (1 ≤ d.row ∧ d.row ≤ rows.length ∧ (d.action = str "skip" ∨ d.action = str "overwrite"))
      (message "无效的重复记录处理选择")
    require (decisions.lookup d.row = none) (message "同一记录有多个处理选择")
    require ((rows[(d.row - 1).toNat]?).any (·.duplicate) = true)
      (message "只需要为重复记录选择处理方式")
    readDecisions rows ((d.row, d.action) :: decisions) rest

def importItemOf (decisions : List (Int × GoString)) (row : PreviewRow) :
    Except Message ServerImportItem :=
  if row.duplicate then
    match decisions.lookup (row.row : Int) with
    | none => .error [.text (utf8 "请为第 "), .text (Go.Net.itoa row.row),
        .text (utf8 " 条重复记录选择跳过或覆盖")]
    | some action => .ok { row := row.row, key := row.key, action, server := row.server }
  else .ok { row := row.row, key := row.key, action := str "create", server := row.server }

variable {F : Type}

/-- The items of a request against the servers as they are listed. -/
def readImport (servers : List Server) (input : ImportRequest) :
    Except Problem (List ServerImportItem) := do
  require (input.snapshot = some (serverSnapshot servers))
    ⟨409, message "服务器列表已变化，请重新预览后确认导入"⟩
  let preview ← (prepareImport input.csv servers).mapError fun e => ⟨400, e⟩
  require (preview.errors = 0) ⟨400, message "CSV 有无效记录，请先修正所有标记的错误"⟩
  let decisions ← (readDecisions preview.rows [] input.decisions).mapError fun e => ⟨400, e⟩
  (preview.rows.mapM (importItemOf decisions)).mapError fun e => ⟨400, e⟩

/-- The store that the servers were listed from, and the one that the transaction finds. -/
def importServers (listed db : DB F) (now : Int) (input : ImportRequest) :
    Except Problem ServerImportResult × DB F :=
  match readImport listed.servers input with
  | .error e => (.error e, db)
  | .ok items =>
    match Store.Servers.importServers db now (input.snapshot.getD []) items with
    | .ok (db, result) => (.ok result, db)
    | .error e =>
      if e = errImportConflict then
        (.error ⟨409, message "服务器列表已变化，请重新预览后确认导入"⟩, db)
      else (.error ⟨400, [.store e]⟩, db)

end

end DnsMonitor.Httpapi.ServerCsv
