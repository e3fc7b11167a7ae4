import DnsMonitor.Httpapi.Calls
import DnsMonitor.Httpapi.Preview
import DnsMonitor.Httpapi.Sessions

namespace DnsMonitor.Httpapi.Inputs

open DnsMonitor.Model DnsMonitor.Lib DnsMonitor.Lib.Programs DnsMonitor.Lib.Tables
open DnsMonitor.Httpapi.ServerCsv DnsMonitor.Httpapi.Preview
open DnsMonitor.Httpapi.Handlers DnsMonitor.Httpapi.Sessions DnsMonitor.Httpapi.Calls
open DnsMonitor.Monitor.Address DnsMonitor.Monitor.Config DnsMonitor.Monitor.Endpoint
open DnsMonitor.Store.Schema DnsMonitor.Store.Servers DnsMonitor.Store.Override
open DnsMonitor.Store.Cleanup DnsMonitor.Store.Rounds DnsMonitor.Store.Migration
open DnsMonitor.Store.Run
open DnsMonitor.Go.Strings DnsMonitor.Go.Unicode DnsMonitor.Go.Errors DnsMonitor.Go.Float

section

variable [CaseTables]

structure Normal (v : Server) : Prop where
  name : isTrimmed v.name ∧ v.name ≠ [] ∧ v.name.length ≤ 160
  provider : isTrimmed v.provider ∧ v.provider.length ≤ 160
  notes : isTrimmed v.notes ∧ v.notes.length ≤ 2000
  address : ∃ a, validateAddress a = .ok (v.address, v.protocol)

theorem normal_normalizeServerInput {s t : Server} (h : normalizeServerInput s = (t, .ok ())) :
    Normal t := by
  simp only [normalizeServerInput] at h
  split_ifs at h with hbad
  · simp at h
  · split at h
    · simp at h
    · rename_i address protocol hvalid
      obtain rfl := (Prod.mk.inj h).1
      simp only [Bool.or_eq_true, Bool.not_eq_true', decide_eq_true_eq, not_or, not_lt] at hbad
      obtain ⟨⟨⟨⟨-, hempty⟩, hname⟩, hprovider⟩, hnotes⟩ := hbad
      exact {
        name := ⟨isTrimmed_trimSpace _, fun hn => hempty (List.length_eq_zero_iff.mpr hn), hname⟩
        provider := ⟨isTrimmed_trimSpace _, hprovider⟩
        notes := ⟨isTrimmed_trimSpace _, hnotes⟩
        address := ⟨s.address, hvalid⟩ }

variable {columns : List (GoString × Nat)} {servers : List Server}

theorem normal_readRow {cells : List GoString} {s : Server} {key : GoString}
    (h : readRow columns cells = (s, .ok key)) : Normal s := by
  simp only [readRow] at h
  split at h
  · simp at h
  · split at h
    · simp at h
    · split at h
      · simp at h
      · rename_i hnormal
        obtain rfl := (Prod.mk.inj h).1
        exact normal_normalizeServerInput hnormal

theorem normal_mergeExisting {existing server : Server} (he : Normal existing)
    (hs : Normal server) : Normal (mergeExisting columns existing server) where
  name := hs.name
  provider := by
    rw [mergeExisting]
    dsimp only
    split_ifs
    · exact hs.provider
    · exact he.provider
  notes := by
    rw [mergeExisting]
    dsimp only
    split_ifs
    · exact hs.notes
    · exact he.notes
  address := hs.address

theorem normal_previewRead {matching : List Server} {prior : Option Nat} {row : Nat}
    {server : Server} {key : GoString} (hmatching : ∀ s ∈ matching, Normal s)
    (hs : Normal server) :
    Normal (previewRead columns matching prior row server key).server := by
  match matching, hmatching with
  | [], _ => cases prior <;> exact hs
  | [existing], h =>
    have hmerged : Normal (mergeExisting columns existing server) :=
      normal_mergeExisting (h existing (by simp)) hs
    cases prior <;> exact hmerged
  | _ :: _ :: _, _ => cases prior <;> exact hs

theorem normal_previewRows {width : Nat} {byKey : List (GoString × Server)}
    (hkey : ∀ p ∈ byKey, Normal p.2) (row : Nat) (firstRow : List (GoString × Nat))
    (records : List (List GoString)) :
    ∀ p ∈ previewRows columns width byKey row firstRow records, p.error = none →
      Normal p.server := by
  induction records generalizing row firstRow with
  | nil => simp [previewRows]
  | cons cells rest ih =>
    intro p hp herror
    rw [previewRows] at hp
    split_ifs at hp with hwidth
    · obtain rfl | hp := List.mem_cons.mp hp
      · simp [unread] at herror
      · exact ih _ _ p hp herror
    · split at hp
      · obtain rfl | hp := List.mem_cons.mp hp
        · simp [unread] at herror
        · exact ih _ _ p hp herror
      · rename_i server key hread
        obtain rfl | hp := List.mem_cons.mp hp
        · apply normal_previewRead _ (normal_readRow hread)
          intro s hs
          obtain ⟨q, hq, rfl⟩ := List.mem_map.mp hs
          exact hkey q (List.mem_filter.mp hq).1
        · exact ih _ _ p hp herror

theorem normal_keyServers {byKey : List (GoString × Server)} (hservers : ∀ s ∈ servers, Normal s)
    (h : keyServers servers = .ok byKey) : ∀ p ∈ byKey, Normal p.2 := by
  induction servers generalizing byKey with
  | nil =>
    obtain rfl := Except.ok.inj h
    simp
  | cons s servers ih =>
    simp only [keyServers, bind_eq_ok, pure_eq_ok] at h
    obtain ⟨key, -, rest, hrest, rfl⟩ := h
    obtain ⟨hs, hservers⟩ := List.forall_mem_cons.mp hservers
    exact List.forall_mem_cons.mpr ⟨hs, ih hservers hrest⟩

theorem normal_prepareImport {raw : GoString} {p : Preview} (hservers : ∀ s ∈ servers, Normal s)
    (h : prepareImport raw servers = .ok p) (herrors : p.errors = 0) :
    ∀ row ∈ p.rows, Normal row.server := by
  unfold prepareImport at h
  simp only [bind_eq_ok] at h
  obtain ⟨_, -, _, -, h⟩ := h
  split at h
  · cases h
  · simp only [bind_eq_ok, pure_eq_ok] at h
    obtain ⟨columns, -, byKey, hkeys, _, -, _, -, _, -, rfl⟩ := h
    intro row hrow
    apply normal_previewRows (normal_keyServers hservers hkeys) _ _ _ row hrow
    have hnone := List.filter_eq_nil_iff.mp (List.length_eq_zero_iff.mp herrors) row hrow
    simpa using hnone

theorem normal_readImport {input : ImportRequest} {items : List ServerImportItem}
    (hservers : ∀ s ∈ servers, Normal s) (h : readImport servers input = .ok items) :
    ∀ item ∈ items, Normal item.server := by
  simp only [readImport, bind_eq_ok, mapError_eq_ok, require_eq_ok] at h
  obtain ⟨_, -, p, hp, _, herrors, decisions, -, hitems⟩ := h
  have hrows := normal_prepareImport hservers hp herrors
  intro item hitem
  obtain ⟨row, hrow, hof⟩ := mem_mapM hitems hitem
  have hserver : item.server = row.server := by
    rw [importItemOf] at hof
    split_ifs at hof
    · split at hof
      · cases hof
      · exact congrArg ServerImportItem.server (Except.ok.inj hof).symm
    · exact congrArg ServerImportItem.server (Except.ok.inj hof).symm
  exact hserver ▸ hrows row hrow

end

section

variable [CaseTables]

structure Verdict (o : Override) : Prop where
  verdict : o.verdict = str "clean" ∨ o.verdict = str "polluted"
  note : o.note.length ≤ 2000
  subject : ∃ d c, validateDomain d = .ok c ∧ normalizeSubject c.name c.type = (o.domain, o.type)

variable {F : Type} [GoFloat F]

/-- All input that is stored was accepted. -/
structure Stored (db : DB F) : Prop where
  config : ∃ input, validateConfig input = .ok db.config
  servers : ∀ v ∈ db.servers, Normal v
  overrides : ∀ o ∈ db.overrides, Verdict o

variable {db db' : DB F}

/-- The tables that only the handlers write are the same. -/
structure SameInputs (db db' : DB F) : Prop where
  config : db'.config = db.config
  servers : db'.servers = db.servers
  overrides : db'.overrides = db.overrides

theorem Stored.congr (h : Stored db) (hs : SameInputs db db') : Stored db' := by
  refine ⟨?_, ?_, ?_⟩
  · exact hs.config ▸ h.config
  · exact hs.servers ▸ h.servers
  · exact hs.overrides ▸ h.overrides

theorem stored_insertServer (h : Stored db) (now : Int) {v : Server} (hv : Normal v) :
    Stored (insertServer db now v) where
  config := h.config
  servers := by
    intro s hs
    obtain hs | hs := List.mem_append.mp hs
    · exact h.servers s hs
    · obtain rfl := List.mem_singleton.mp hs
      exact ⟨hv.name, hv.provider, hv.notes, hv.address⟩
  overrides := h.overrides

theorem stored_updateServer (h : Stored db) {v : Server} (hv : Normal v) :
    Stored (updateServer db v) where
  config := h.config
  servers := by
    intro s hs
    obtain ⟨old, hold, rfl⟩ := mem_update.mp hs
    split_ifs
    · exact ⟨hv.name, hv.provider, hv.notes, hv.address⟩
    · exact h.servers old hold
  overrides := h.overrides

theorem stored_deleteServerRows (h : Stored db) (id : Int) : Stored (deleteServerRows id db) where
  config := h.config
  servers s hs := h.servers s (mem_delete.mp hs).1
  overrides o ho := h.overrides o (mem_delete.mp ho).1

theorem verdict_normalizeOverride {v : Override} (hv : Checked v) (hauto : v.verdict ≠ str "auto")
    (now : Int) : Verdict (normalizeOverride now v) where
  verdict := hv.1.resolve_left hauto
  note := hv.2.1
  subject := by
    obtain ⟨d, hd⟩ := hv.2.2
    exact ⟨d, _, hd, rfl⟩

theorem stored_putOverride (h : Stored db) {o : Override}
    (ho : o.verdict ≠ str "auto" → Verdict o) : Stored (putOverride db o) where
  config := h.config
  servers := h.servers
  overrides := by
    intro p hp
    simp only [putOverride] at hp
    split_ifs at hp with hauto
    · exact h.overrides p (mem_delete.mp hp).1
    · rw [upsertOverride] at hp
      split_ifs at hp
      · obtain ⟨q, hq, rfl⟩ := mem_update.mp hp
        split_ifs
        · exact ⟨(ho hauto).verdict, (ho hauto).note, (h.overrides q hq).subject⟩
        · exact h.overrides q hq
      · obtain hp | hp := List.mem_append.mp hp
        · exact h.overrides p hp
        · exact List.mem_singleton.mp hp ▸ ho hauto

omit [CaseTables] in
theorem sameInputs_rebuildRound {id : Int} (hs : rebuildRound id db = .ok db') :
    SameInputs db db' := by
  cases rebuilt hs with
  | dropped => exact ⟨rfl, rfl, rfl⟩
  | recounted => exact ⟨rfl, rfl, rfl⟩

omit [CaseTables] in
theorem sameInputs_cleanup {before : Int} {t : CleanupStep} (hs : cleanup before t db = .ok db') :
    SameInputs db db' := by
  cases t with
  | pruneObservations => exact Except.ok.inj hs ▸ ⟨rfl, rfl, rfl⟩
  | pruneReferences ids => exact pruneReferences_ok hs ▸ ⟨rfl, rfl, rfl⟩
  | dropRounds ids => exact Except.ok.inj hs ▸ ⟨rfl, rfl, rfl⟩
  | pruneResults ids =>
    refine rebuildPartial_keeps (P := SameInputs db) ?_ ⟨rfl, rfl, rfl⟩ hs
    intro id _ d d' hd hr
    have hsame := sameInputs_rebuildRound hr
    exact ⟨hsame.config.trans hd.config, hsame.servers.trans hd.servers,
      hsame.overrides.trans hd.overrides⟩
  | dropAudit ids => exact Except.ok.inj hs ▸ ⟨rfl, rfl, rfl⟩

def isMonitors : Store.Run.Event F → Bool
  | .saveRound _ => true
  | .saveTrustedObservation _ _ => true
  | .pruneTrustedReferences _ _ => true
  | .cleanup _ _ => true
  | _ => false

theorem sameInputs_step (db : DB F) {e : Store.Run.Event F} (he : isMonitors e = true) :
    SameInputs db (Store.Run.step db e) := by
  cases ha : Store.Run.apply db e with
  | error err => simpa [Store.Run.step, ha] using (⟨rfl, rfl, rfl⟩ : SameInputs db db)
  | ok db' =>
    rw [step_of_ok ha]
    cases e with
    | saveRound v =>
      obtain ⟨-, -, -, snapshots, rfl⟩ := saveRound_ok ha
      exact ⟨rfl, rfl, rfl⟩
    | saveTrustedObservation v result =>
      obtain rfl := Except.ok.inj ha
      obtain ⟨rows, hrows⟩ := saveTrustedObservation_eq db v result
      exact hrows ▸ ⟨rfl, rfl, rfl⟩
    | pruneTrustedReferences now hours =>
      obtain rfl := Except.ok.inj ha
      exact ⟨rfl, rfl, rfl⟩
    | cleanup before t => exact sameInputs_cleanup ha
    | _ => cases he

theorem stored_importItem {now : Int} {s s' : ImportState F} {item : ServerImportItem}
    (h : Stored s.db) (hitem : Normal item.server) (hs : importItem now s item = .ok s') :
    Stored s'.db := by
  unfold importItem at hs
  split_ifs at hs
  · obtain rfl := Except.ok.inj hs
    exact h
  · simp only [createItem, bind_eq_ok, pure_eq_ok] at hs
    obtain ⟨_, -, _, -, rfl⟩ := hs
    exact stored_insertServer h now hitem
  · unfold overwriteItem at hs
    dsimp only at hs
    split at hs
    · cases hs
    · simp only [bind_eq_ok, pure_eq_ok] at hs
      obtain ⟨_, -, _, -, rfl⟩ := hs
      exact stored_updateServer h ⟨hitem.name, hitem.provider, hitem.notes, hitem.address⟩

theorem stored_foldlM {now : Int} {items : List ServerImportItem}
    (hitems : ∀ item ∈ items, Normal item.server) {s s' : ImportState F} (h : Stored s.db)
    (hs : items.foldlM (importItem now) s = .ok s') : Stored s'.db := by
  induction items generalizing s with
  | nil =>
    rw [List.foldlM_nil, pure_eq_ok] at hs
    exact hs ▸ h
  | cons item items ih =>
    rw [List.foldlM_cons, bind_eq_ok] at hs
    obtain ⟨t, ht, hs⟩ := hs
    obtain ⟨hitem, hitems⟩ := List.forall_mem_cons.mp hitems
    exact ih hitems (stored_importItem h hitem ht) hs

theorem stored_importServers (h : Stored db) {now : Int} {snapshot : List Server}
    {items : List ServerImportItem} (hitems : ∀ item ∈ items, Normal item.server)
    {r : DB F × ServerImportResult}
    (hs : Store.Servers.importServers db now snapshot items = .ok r) : Stored r.1 := by
  simp only [Store.Servers.importServers, bind_eq_ok, pure_eq_ok] at hs
  obtain ⟨_, -, _, -, s, hs, rfl⟩ := hs
  exact stored_foldlM hitems h hs

def Accepted : Store.Run.Event F → Prop
  | .saveConfig c => ∃ input, validateConfig input = .ok c
  | .saveServer _ v => Normal v
  | .importServers _ _ items => ∀ item ∈ items, Normal item.server
  | .saveOverride _ v => Checked v
  | _ => True

theorem stored_step (h : Stored db) {e : Store.Run.Event F} (he : Accepted e) :
    Stored (Store.Run.step db e) := by
  cases ha : Store.Run.apply db e with
  | error err => simpa [Store.Run.step, ha] using h
  | ok db' =>
    rw [step_of_ok ha]
    cases e with
    | saveConfig c =>
      obtain rfl := saveConfig_ok ha
      exact ⟨he, h.servers, h.overrides⟩
    | saveServer now v =>
      obtain ⟨-, rfl⟩ | ⟨-, -, rfl⟩ := saveServer_ok ha
      · exact stored_insertServer h now he
      · exact stored_updateServer h he
    | deleteServer id => exact deleteServer_ok ha ▸ stored_deleteServerRows h id
    | importServers now snapshot items =>
      obtain ⟨r, hr, rfl⟩ := map_eq_ok.mp ha
      exact stored_importServers h he hr
    | saveOverride now v =>
      obtain ⟨-, rfl⟩ := saveOverride_ok ha
      exact stored_putOverride h fun hauto => verdict_normalizeOverride he hauto now
    | _ => exact step_of_ok ha ▸ h.congr (sameInputs_step db rfl)

structure Held (db : DB F) (s : Shared F) : Prop where
  stored : Stored s.db
  calls : ∃ es, s.db = Runs.run Store.Run.step db es

theorem held_write {s : Shared F} (h : Held db s) {e : Store.Run.Event F} (he : Accepted e) :
    Held db (write s e) where
  stored := stored_step h.stored he
  calls := by
    obtain ⟨es, hes⟩ := h.calls
    exact ⟨es ++ [e], by rw [write, Runs.run_append, ← hes]; rfl⟩

def AllNormal (servers : List Server) : Prop := ∀ v ∈ servers, Normal v

theorem held_perform {settings : Settings F} {r : Request} (m : Moment) {s : Shared F}
    {a : Call F} (ha : Made AllNormal settings r a) (h : Held db s) :
    Lists AllNormal ⟨a, (perform m s a).1⟩ ∧ Held db (perform m s a).2 := by
  cases a with
  | listServers =>
    refine ⟨?_, h⟩
    intro servers hservers
    obtain rfl := eq_of_heq (Sigma.mk.inj hservers).2
    exact h.stored.servers
  | saveServer v =>
    obtain ⟨input, hnormal⟩ := ha
    refine ⟨fun _ hl => (by cases hl), held_write h ?_⟩
    exact normal_normalizeServerInput hnormal
  | importServers snapshot items =>
    obtain ⟨servers, input, hservers, -, hitems⟩ := ha
    refine ⟨fun _ hl => (by cases hl), held_write h ?_⟩
    exact normal_readImport hservers hitems
  | saveConfig c => exact ⟨fun _ hl => (by cases hl), held_write h ha⟩
  | saveOverride v => exact ⟨fun _ hl => (by cases hl), held_write h ha⟩
  | deleteServer id => exact ⟨fun _ hl => (by cases hl), held_write h trivial⟩
  | _ => exact ⟨fun _ hl => (by cases hl), ⟨h.stored, h.calls⟩⟩

theorem held_background {s : Shared F} (h : Held db s) (d : Background F) :
    Held db (background s d) := by
  cases d with
  | takeSignal => exact ⟨h.stored, h.calls⟩
  | _ => exact held_write h trivial

/-- Whatever requests are served at the same time, and whatever the monitor stores meanwhile: the
store stays one that calls of it lead to, with nothing in it that was not accepted. -/
theorem stored_always (settings : Settings F) {db : DB F} (h : Stored db)
    (es : List (ServerEvent F)) :
    Stored (served settings db es).shared.db ∧
      ∃ calls, (served settings db es).shared.db =
        Runs.run Store.Run.step db calls := by
  have hserve : ∀ r, ((server settings).serve r).Asks (Lists AllNormal)
      fun a => ∃ r, Made AllNormal settings r a := by
    intro r
    exact (asks_handler AllNormal settings r).mono fun a ha => ⟨r, ha⟩
  have hheld : Held db (served settings db es).shared := by
    refine (sound_run hserve ?_ ?_ ⟨h, [], rfl⟩ es).shared
    · rintro m s a ⟨r, ha⟩ hs
      exact held_perform m ha hs
    · intro s d hs
      exact held_background hs d
  exact ⟨hheld.stored, hheld.calls⟩

end

section

local instance : CaseTables := asciiTables

def exampleBody : GoString := str "\x7b\"name\":\" Cloudflare \",\"address\":\"1.1.1.1\"\x7d"

def exampleDecode : Decoder ℚ :=
  { exampleSettings.decode with
    server := fun body =>
      if body = exampleBody then
        .ok { noServer with name := str " Cloudflare ", address := str "1.1.1.1" }
      else .error [] }

def exampleSaving : List (ServerEvent ℚ) :=
  [.arrive (exampleRequest (str "GET") (str "/api/session") []
      (some (str "admin", str "0123456789abcdef"))),
    .advance 0 (exampleMoment 0), .advance 0 (exampleMoment 0),
    .arrive { exampleRequest (str "POST") (str "/api/servers") exampleToken none with
      body := exampleBody },
    .advance 1 (exampleMoment 1), .advance 1 (exampleMoment 2)]

theorem stored_always_example :
    let db := (served { exampleSettings with decode := exampleDecode } emptyDB exampleSaving).shared.db
    db.servers.map (·.name) = [str "Cloudflare"] ∧
      Stored db ∧ ∃ calls, db = Runs.run Store.Run.step emptyDB calls := by
  intro db
  have hname : db.servers.map (·.name) = [str "Cloudflare"] := by decide +kernel
  have hempty : Stored (emptyDB : DB ℚ) := {
    config := ⟨defaultConfig, by decide +kernel⟩
    servers := by simp [emptyDB]
    overrides := by simp [emptyDB] }
  exact ⟨hname, stored_always { exampleSettings with decode := exampleDecode } hempty exampleSaving⟩

end

end DnsMonitor.Httpapi.Inputs
