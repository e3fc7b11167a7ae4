import DnsMonitor.Store.Schema

namespace DnsMonitor.Store.Servers

open DnsMonitor.Model DnsMonitor.Lib.Tables DnsMonitor.Store.Schema
open DnsMonitor.Go.Strings DnsMonitor.Go.Errors

variable {F : Type}

/-- The columns whose change invalidates what a trusted server has answered. -/
def sameSource (old new : Server) : Bool :=
  old.trusted = new.trusted && old.enabled = new.enabled && old.address = new.address

/-- The row `old` after `UPDATE servers SET ...` with the values of `v`, and after the trigger. -/
def updatedServer (v old : Server) : Server :=
  { v with
    id := old.id
    createdAt := old.createdAt
    trustEpoch := if sameSource old v then old.trustEpoch else old.trustEpoch + 1 }

/-- The update of one server, and the deletion of its observations by the trigger. -/
def updateServer (db : DB F) (v : Server) : DB F :=
  { db with
    servers := update (fun s => s.id = v.id) (updatedServer v) db.servers
    trustedObservations := delete (fun o => o.serverID = v.id &&
      db.servers.any fun s => s.id = v.id && !sameSource s v) db.trustedObservations }

def insertServer (db : DB F) (now : Int) (v : Server) : DB F :=
  { db with
    servers := db.servers ++
      [{ v with id := db.serverSeq + 1, createdAt := now, trustEpoch := 0 }]
    serverSeq := db.serverSeq + 1 }

def saveServer (db : DB F) (now : Int) (v : Server) : Except StoreError (DB F) :=
  if v.id = 0 then .ok (insertServer db now v)
  else
    match findServer db v.id with
    | none => .error .noRows
    | some _ => .ok (updateServer db v)

def deleteServer (db : DB F) (id : Int) : Except StoreError (DB F) :=
  match findServer db id with
  | none => .error .noRows
  | some _ => .ok (deleteServerRows id db)

/-- A Go map with the last value of each key in front. -/
def lookup {κ α : Type} [DecidableEq κ] (m : List (κ × α)) (k : κ) : Option α :=
  (m.find? fun p => p.1 = k).map (·.2)

/-- Note the server of an address key; a key of two servers belongs to none. -/
def addKey (key : GoString) (id : Int) (byKey : List (GoString × Int)) : List (GoString × Int) :=
  match lookup byKey key with
  | some previous => if previous ≠ id then (key, 0) :: byKey else (key, id) :: byKey
  | none => (key, id) :: byKey

structure ImportState (F : Type) where
  db : DB F
  byID : List (Int × Server)
  byKey : List (GoString × Int)
  result : ServerImportResult

def rowError (row : Int) (message : String) : StoreError :=
  .text ("CSV 第 " ++ toString row ++ " 行" ++ message)

def errImportConflict : StoreError := .text "服务器列表已变化，请重新预览 CSV 后导入"

def prepareItem (byKey : List (GoString × Int)) (byID : List (Int × Server))
    (item : ServerImportItem) : Except StoreError (List (GoString × Int)) :=
  if 0 < item.server.id then
    match lookup byID item.server.id with
    | none => .error (rowError item.row "的覆盖目标不存在")
    | some _ => .ok (if item.key ≠ [] then addKey item.key item.server.id byKey else byKey)
  else .ok byKey

def createItem (now : Int) (s : ImportState F) (item : ServerImportItem) :
    Except StoreError (ImportState F) := do
  require (item.server.id = 0) (rowError item.row "不能用新增操作覆盖现有服务器")
  require (lookup s.byKey item.key = none) (rowError item.row "地址重复，请选择覆盖或跳过")
  let db := insertServer s.db now item.server
  let server := { item.server with id := db.serverSeq, createdAt := now }
  return { db, byID := (server.id, server) :: s.byID, byKey := (item.key, server.id) :: s.byKey,
           result := { s.result with created := s.result.created + 1 } }

def overwriteItem (s : ImportState F) (item : ServerImportItem) :
    Except StoreError (ImportState F) :=
  let id := if item.server.id = 0 then (lookup s.byKey item.key).getD 0 else item.server.id
  match lookup s.byID id with
  | none => .error (rowError item.row "找不到唯一覆盖目标")
  | some existing => do
    require (id ≠ 0) (rowError item.row "找不到唯一覆盖目标")
    let server := { item.server with id, createdAt := existing.createdAt }
    require ((findServer s.db id).isSome) (rowError item.row "的覆盖目标不存在")
    return { db := updateServer s.db server, byID := (id, server) :: s.byID,
             byKey := (item.key, id) :: s.byKey,
             result := { s.result with updated := s.result.updated + 1 } }

def importItem (now : Int) (s : ImportState F) (item : ServerImportItem) :
    Except StoreError (ImportState F) :=
  if item.action = str "skip" then
    .ok { s with result := { s.result with skipped := s.result.skipped + 1 } }
  else if item.key = [] then .error (rowError item.row "缺少地址标识")
  else if item.action = str "create" then createItem now s item
  else if item.action = str "overwrite" then overwriteItem s item
  else .error (rowError item.row "导入操作无效")

theorem createItem_ok {now : Int} {s : ImportState F} {item : ServerImportItem}
    (hid : item.server.id = 0) (hfree : lookup s.byKey item.key = none) :
    createItem now s item = .ok {
      db := insertServer s.db now item.server
      byID := (s.db.serverSeq + 1,
        { item.server with id := s.db.serverSeq + 1, createdAt := now }) :: s.byID
      byKey := (item.key, s.db.serverSeq + 1) :: s.byKey
      result := { s.result with created := s.result.created + 1 } } := by
  simp [createItem, require, hid, hfree, insertServer, bind, Except.bind, pure, Except.pure]

theorem overwriteItem_ok {s : ImportState F} {item : ServerImportItem} {t existing : Server}
    (hid : (if item.server.id = 0 then (lookup s.byKey item.key).getD 0 else item.server.id) =
      t.id)
    (hpos : t.id ≠ 0) (hexisting : lookup s.byID t.id = some existing) (ht : t ∈ s.db.servers) :
    overwriteItem s item = .ok {
      db := updateServer s.db { item.server with id := t.id, createdAt := existing.createdAt }
      byID := (t.id, { item.server with id := t.id, createdAt := existing.createdAt }) :: s.byID
      byKey := (item.key, t.id) :: s.byKey
      result := { s.result with updated := s.result.updated + 1 } } := by
  have hfind : (findServer s.db t.id).isSome = true := List.find?_isSome.mpr ⟨t, ht, by simp⟩
  simp only [overwriteItem, hid, hexisting]
  simp [require, hpos, hfind, bind, Except.bind, pure, Except.pure]

/-- `ServerSnapshot`: the digest is modelled by what it is computed from. -/
def serverSnapshot (servers : List Server) : List Server :=
  (servers.map fun s => { s with trustEpoch := 0 }).insertionSort fun s t => s.id ≤ t.id

def importServers (db : DB F) (now : Int) (snapshot : List Server) (items : List ServerImportItem) :
    Except StoreError (DB F × ServerImportResult) := do
  require (serverSnapshot db.servers = snapshot) errImportConflict
  let byID := db.servers.map fun s => (s.id, s)
  let byKey ← items.foldlM (fun byKey item => prepareItem byKey byID item)
    (db.servers.foldl (fun byKey s => addKey s.address s.id byKey) [])
  let s ← items.foldlM (importItem now) { db, byID, byKey, result := ⟨0, 0, 0⟩ }
  return (s.db, s.result)

structure ServerView (g : DB F → DB F) : Prop where
  servers : ∀ db, (g db).servers = db.servers
  serverSeq : ∀ db, (g db).serverSeq = db.serverSeq
  insert : ∀ db now v, g (insertServer db now v) = insertServer (g db) now v
  update : ∀ db v, g (updateServer db v) = updateServer (g db) v

variable {g : DB F → DB F}

def viewState (g : DB F → DB F) (s : ImportState F) : ImportState F := { s with db := g s.db }

theorem ServerView.findServer_eq (hg : ServerView g) (db : DB F) (id : Int) :
    findServer (g db) id = findServer db id := by
  rw [findServer, hg.servers, findServer]

theorem overwriteItem_view (hg : ServerView g) (s : ImportState F) (item : ServerImportItem) :
    (overwriteItem s item).map (viewState g) = overwriteItem (viewState g s) item := by
  have hid : (viewState g s).byID = s.byID := rfl
  have hkey : (viewState g s).byKey = s.byKey := rfl
  have hdb : (viewState g s).db = g s.db := rfl
  simp only [overwriteItem, hid, hkey]
  split
  · rfl
  · simp only [exceptMap_bind, hdb, hg.findServer_eq, ← hg.update]
    rfl

theorem importItem_view (hg : ServerView g) (now : Int) (s : ImportState F)
    (item : ServerImportItem) :
    (importItem now s item).map (viewState g) = importItem now (viewState g s) item := by
  have hdb : (viewState g s).db = g s.db := rfl
  unfold importItem
  split_ifs
  · rfl
  · rfl
  · simp only [createItem, exceptMap_bind, hdb, ← hg.insert, hg.serverSeq]
    rfl
  · exact overwriteItem_view hg s item
  · rfl

theorem importServers_view (hg : ServerView g) (db : DB F) (now : Int) (snapshot : List Server)
    (items : List ServerImportItem) :
    ((importServers db now snapshot items).map (·.1)).map g =
      (importServers (g db) now snapshot items).map (·.1) := by
  simp only [importServers, exceptMap_bind, hg.servers]
  congr 1
  funext _
  congr 1
  funext byKey
  let s : ImportState F :=
    { db, byID := db.servers.map fun s => (s.id, s), byKey, result := ⟨0, 0, 0⟩ }
  have hloop : (items.foldlM (importItem now) s).map (viewState g) =
      items.foldlM (importItem now) (viewState g s) :=
    foldlM_map (importItem_view hg now) items s
  change (items.foldlM (importItem now) s >>= fun s => _) =
    (items.foldlM (importItem now) (viewState g s) >>= fun s => _)
  rw [← hloop]
  cases items.foldlM (importItem now) s <;> rfl

theorem saveServer_view (hg : ServerView g) (db : DB F) (now : Int) (v : Server) :
    (saveServer db now v).map g = saveServer (g db) now v := by
  simp only [saveServer, hg.findServer_eq]
  split_ifs
  · rw [← hg.insert]
    rfl
  · split
    · rfl
    · rw [← hg.update]
      rfl

end DnsMonitor.Store.Servers
