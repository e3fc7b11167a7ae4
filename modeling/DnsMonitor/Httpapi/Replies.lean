import DnsMonitor.Httpapi.Inputs
import DnsMonitor.Store.Trust

namespace DnsMonitor.Httpapi.Replies

open DnsMonitor.Model DnsMonitor.Lib DnsMonitor.Lib.Programs DnsMonitor.Lib.Tables
open DnsMonitor.Httpapi.ServerCsv DnsMonitor.Httpapi.Handlers DnsMonitor.Httpapi.Sessions
open DnsMonitor.Monitor.Config DnsMonitor.Monitor.Endpoint
open DnsMonitor.Store.Schema DnsMonitor.Store.Migration DnsMonitor.Store.Run
open DnsMonitor.Store.WellFormed
open DnsMonitor.Go.Strings DnsMonitor.Go.Unicode DnsMonitor.Go.Url DnsMonitor.Go.ServeMux
open DnsMonitor.Go.Errors DnsMonitor.Go.Float

section

variable {F : Type}

def isWritten : Exchange (Answer (F := F)) → Bool
  | ⟨.saveServer _, .ok _⟩ => true
  | ⟨.deleteServer _, .ok _⟩ => true
  | ⟨.importServers _ _, .ok _⟩ => true
  | ⟨.saveConfig _, .ok _⟩ => true
  | ⟨.saveOverride _, .ok _⟩ => true
  | _ => false

def announces : Body F → Bool
  | .server _ => true
  | .config _ _ => true
  | .override _ => true
  | .imported _ => true
  | _ => false

def Quiet (l : List (Exchange (Answer (F := F)))) : Prop := ∀ x ∈ l, isWritten x = false

/-- What follows a write in a request that is served: the monitor is woken, but for a verdict. -/
def Told (w : Exchange (Answer (F := F))) (rest : List (Exchange (Answer (F := F)))) : Prop :=
  (∃ v, w = ⟨.saveOverride v, .ok ()⟩ ∧ rest = []) ∨ ∃ reads, rest = reads ++ [⟨.wake, ()⟩]

/-- The write of a server that was gone when it was read again. -/
def Lost (w : Exchange (Answer (F := F))) (rest : List (Exchange (Answer (F := F)))) : Prop :=
  ∃ v id, w = ⟨.saveServer v, .ok id⟩ ∧ rest = [⟨.getServer id, none⟩]

/-- The reply shows what was written: for a server, the row of its id as it was read again. -/
def Shows (w : Exchange (Answer (F := F))) (rest : List (Exchange (Answer (F := F)))) :
    Body F → Prop
  | .server a => ∃ v id, w = ⟨.saveServer v, .ok id⟩ ∧ ⟨.getServer id, some a⟩ ∈ rest
  | .config c _ => w = ⟨.saveConfig c, .ok ()⟩
  | .override v => w = ⟨.saveOverride v, .ok ()⟩
  | .imported result => ∃ snapshot items, w = ⟨.importServers snapshot items, .ok result⟩
  | .ok => ∃ id, w = ⟨.deleteServer id, .ok ()⟩
  | _ => False

/-- A request either writes nothing, or once and says so. -/
inductive Replied (l : List (Exchange (Answer (F := F)))) (response : Response F) : Prop where
  | quiet (hquiet : Quiet l) (hbody : announces response.body = false)
  | written (init : List (Exchange (Answer (F := F)))) (w : Exchange (Answer (F := F)))
      (rest : List (Exchange (Answer (F := F)))) (hl : l = init ++ w :: rest)
      (hinit : Quiet init) (hw : isWritten w = true) (hrest : Quiet rest)
      (hsaid : response.status = 200 ∧ Shows w rest response.body ∧ Told w rest ∨
        response.status = 400 ∧ announces response.body = false ∧ Lost w rest)

variable {l : List (Exchange (Answer (F := F)))} {response : Response F}
  {x : Exchange (Answer (F := F))}

theorem Replied.cons (hx : isWritten x = false) (h : Replied l response) :
    Replied (x :: l) response := by
  cases h with
  | quiet hquiet hbody => exact .quiet (List.forall_mem_cons.mpr ⟨hx, hquiet⟩) hbody
  | written init w rest hl hinit hw hrest hsaid =>
    exact .written (x :: init) w rest (hl ▸ rfl) (List.forall_mem_cons.mpr ⟨hx, hinit⟩) hw hrest
      hsaid

theorem ends_ask {a : Call F} {next : Answer a → Handler F}
    (ha : ∀ r, isWritten ⟨a, r⟩ = false) (h : ∀ r, (next r).Ends Replied) :
    (Program.ask a next : Handler F).Ends Replied :=
  fun r => (h r).mono fun _ _ => Replied.cons (ha r)

theorem ends_problem (status : Nat) (text : Message) :
    (problem status text : Handler F).Ends Replied :=
  .quiet (by simp [Quiet]) rfl

theorem ends_done {response : Response F} (h : announces response.body = false) :
    (Program.done response : Handler F).Ends Replied :=
  .quiet (by simp [Quiet]) h

theorem replied_failed {w : Exchange (Answer (F := F))} (hw : isWritten w = false) (status : Nat)
    (text : Message) : Replied [w] ⟨status, .error text⟩ :=
  .quiet (by simp [Quiet, hw]) rfl

theorem replied_woken {w : Exchange (Answer (F := F))} {body : Body F} (hw : isWritten w = true)
    (hbody : Shows w [⟨.wake, ()⟩] body) : Replied [w, ⟨.wake, ()⟩] ⟨200, body⟩ :=
  .written [] w [⟨.wake, ()⟩] rfl (by simp [Quiet]) hw (by simp [Quiet, isWritten])
    (.inl ⟨rfl, hbody, .inr ⟨[], rfl⟩⟩)

variable [CaseTables]

theorem ends_storeServer (server : Server) : (storeServer server : Handler F).Ends Replied := by
  rw [storeServer]
  split
  · exact ends_problem _ _
  · rename_i server _
    rintro (e | id)
    · exact replied_failed rfl _ _
    · rintro (_ | saved)
      · exact .written [] ⟨.saveServer server, .ok id⟩ [⟨.getServer id, none⟩] rfl
          (by simp [Quiet]) rfl (by simp [Quiet, isWritten]) (.inr ⟨rfl, rfl, server, id, rfl, rfl⟩)
      · intro _
        exact .written [] ⟨.saveServer server, .ok id⟩ [⟨.getServer id, some saved⟩, ⟨.wake, ()⟩]
          rfl (by simp [Quiet]) rfl (by simp [Quiet, isWritten])
          (.inl ⟨rfl, ⟨server, id, rfl, by simp⟩, .inr ⟨[⟨.getServer id, some saved⟩], rfl⟩⟩)

variable {settings : Settings F} {r : Request} {values : List GoString}

theorem ends_saveServer : (saveServer settings r values).Ends Replied := by
  rw [saveServer]
  split
  · exact ends_problem _ _
  · dsimp only
    split_ifs
    · split
      · exact ends_problem _ _
      · refine ends_ask (fun _ => rfl) ?_
        rintro (_ | server)
        · exact ends_problem _ _
        · exact ends_storeServer _
    · exact ends_storeServer _

theorem ends_previewServerImport : (previewServerImport settings r).Ends Replied := by
  rw [previewServerImport]
  split
  · exact ends_problem _ _
  · refine ends_ask (fun _ => rfl) ?_
    intro servers
    split
    · exact ends_problem _ _
    · exact ends_done rfl

theorem ends_importServers : (Handlers.importServers settings r).Ends Replied := by
  rw [Handlers.importServers]
  split
  · exact ends_problem _ _
  · refine ends_ask (fun _ => rfl) ?_
    intro servers
    split
    · exact ends_problem _ _
    · rename_i items _
      rintro (e | result)
      · dsimp only
        split_ifs
        · exact replied_failed rfl _ _
        · exact replied_failed rfl _ _
      · exact fun _ => replied_woken rfl ⟨_, items, rfl⟩

omit [CaseTables] in
theorem ends_login : (login settings r).Ends Replied := by
  rw [login]
  cases r.credentials with
  | none => exact ends_problem _ _
  | some credentials =>
    dsimp only
    split_ifs
    · exact ends_problem _ _
    · refine ends_ask (fun _ => rfl) ?_
      rintro (e | b)
      · exact ends_problem _ _
      · refine ends_ask (fun _ => rfl) ?_
        rintro (_ | _)
        · exact ends_problem _ _
        · exact ends_done rfl

omit [CaseTables] in
theorem ends_deleteServer : (deleteServer values : Handler F).Ends Replied := by
  rw [deleteServer]
  split
  · exact ends_problem _ _
  · rintro (e | _)
    · exact replied_failed rfl _ _
    · exact fun _ => replied_woken rfl ⟨_, rfl⟩

omit [CaseTables] in
theorem ends_results : (results r values : Handler F).Ends Replied := by
  rw [results]
  split
  · exact ends_problem _ _
  · refine ends_ask (fun _ => rfl) ?_
    rintro (e | records)
    · exact ends_problem _ _
    · exact ends_done rfl

omit [CaseTables] in
theorem ends_storeOverride (v : Override) : (storeOverride v : Handler F).Ends Replied := by
  rw [storeOverride]
  split_ifs
  · exact ends_problem _ _
  · refine ends_ask (fun _ => rfl) ?_
    rintro (_ | server)
    · exact ends_problem _ _
    · refine ends_ask (fun _ => rfl) ?_
      intro now
      rintro (e | _)
      · exact replied_failed rfl _ _
      · exact .written [] _ [] rfl (by simp [Quiet]) rfl (by simp [Quiet])
          (.inl ⟨rfl, rfl, .inl ⟨_, rfl, rfl⟩⟩)

variable [GoFloat F]

theorem ends_config : (config settings r).Ends Replied := by
  refine ends_ask (fun _ => rfl) ?_
  intro prior
  split
  · exact ends_problem _ _
  · split
    · exact ends_problem _ _
    · rintro (e | _)
      · exact replied_failed rfl _ _
      · exact fun _ => replied_woken rfl rfl

theorem ends_override : (override settings r).Ends Replied := by
  rw [override]
  split
  · exact ends_problem _ _
  · split_ifs
    · exact ends_problem _ _
    · split
      · exact ends_problem _ _
      · exact ends_storeOverride _

theorem ends_route (handler : Route) : (route settings r values handler).Ends Replied := by
  cases handler with
  | login => exact ends_login
  | logout => exact ends_ask (fun _ => rfl) fun _ => ends_done rfl
  | saveServer => exact ends_saveServer
  | exportServers => exact ends_ask (fun _ => rfl) fun _ => ends_done rfl
  | previewServerImport => exact ends_previewServerImport
  | importServers => exact ends_importServers
  | deleteServer => exact ends_deleteServer
  | results => exact ends_results
  | config => exact ends_config
  | override => exact ends_override
  | health => exact ends_done rfl
  | serverTemplate => exact ends_done rfl
  | _ => exact ends_ask (fun _ => rfl) fun _ => ends_done rfl

theorem ends_serveMux : (serveMux settings r).Ends Replied := by
  rw [serveMux]
  split
  · exact ends_route _
  · exact ends_done rfl
  · exact ends_done rfl

theorem ends_handler (settings : Settings F) (r : Request) :
    (handler settings r).Ends Replied := by
  rw [handler]
  split_ifs
  · exact ends_problem _ _
  · exact ends_serveMux
  · refine ends_ask (fun _ => rfl) ?_
    rintro (_ | _)
    · exact ends_problem _ _
    · exact ends_serveMux
  · exact ends_serveMux

end

section

variable {F : Type} [GoFloat F] [CaseTables]

def HasServer (id : Int) (db : DB F) : Prop := ∃ v ∈ db.servers, v.id = id

variable {db : DB F} {id : Int}

omit [GoFloat F] [CaseTables] in
theorem hasServer_insertServer (h : HasServer id db) (now : Int) (v : Server) :
    HasServer id (Store.Servers.insertServer db now v) := by
  obtain ⟨s, hs, hid⟩ := h
  exact ⟨s, List.mem_append_left _ hs, hid⟩

omit [GoFloat F] [CaseTables] in
theorem hasServer_updateServer (h : HasServer id db) (v : Server) :
    HasServer id (Store.Servers.updateServer db v) := by
  obtain ⟨s, hs, hid⟩ := h
  refine ⟨_, mem_update.mpr ⟨s, hs, rfl⟩, ?_⟩
  split_ifs
  · exact hid
  · exact hid

theorem hasServer_step (h : HasServer id db) {e : Store.Run.Event F} (he : e ≠ .deleteServer id) :
    HasServer id (Store.Run.step db e) := by
  cases ha : Store.Run.apply db e with
  | error err => simpa [Store.Run.step, ha] using h
  | ok db' =>
    cases e with
    | saveConfig c =>
      obtain rfl := saveConfig_ok ha
      exact step_of_ok ha ▸ h
    | saveServer now v =>
      rw [step_of_ok ha]
      obtain ⟨-, rfl⟩ | ⟨-, -, rfl⟩ := saveServer_ok ha
      · exact hasServer_insertServer h now v
      · exact hasServer_updateServer h v
    | deleteServer other =>
      rw [step_of_ok ha, deleteServer_ok ha]
      obtain ⟨v, hv, hid⟩ := h
      refine ⟨v, mem_delete.mpr ⟨hv, ?_⟩, hid⟩
      rw [decide_eq_false_iff_not, hid]
      rintro rfl
      exact he rfl
    | importServers now snapshot items =>
      rw [step_of_ok ha]
      obtain ⟨r, hr, rfl⟩ := map_eq_ok.mp ha
      exact importServers_invariant (P := HasServer id) (fun _ now v h => hasServer_insertServer h now v)
        (fun _ v h => hasServer_updateServer h v) h hr
    | saveOverride now v =>
      rw [step_of_ok ha]
      obtain ⟨-, rfl⟩ := saveOverride_ok ha
      exact h
    | _ =>
      obtain ⟨v, hv, hid⟩ := h
      exact ⟨v, by rwa [(Inputs.sameInputs_step db rfl).servers], hid⟩

theorem hasServer_perform {s : Shared F} (h : HasServer id s.db) (m : Moment) {a : Call F}
    (ha : a ≠ .deleteServer id) : HasServer id (perform m s a).2.db := by
  cases a with
  | saveServer v => exact hasServer_step h (by simp)
  | deleteServer other => exact hasServer_step h (by simpa using ha)
  | importServers snapshot items => exact hasServer_step h (by simp)
  | saveConfig c => exact hasServer_step h (by simp)
  | saveOverride v => exact hasServer_step h (by simp)
  | _ => exact h

theorem hasServer_background {s : Shared F} (h : HasServer id s.db) (d : Background F) :
    HasServer id (background s d).db := by
  cases d with
  | takeSignal => exact h
  | _ => exact hasServer_step h (by simp)

variable {settings : Settings F} {s₀ : Shared F} {before between : List (Sessions.Step F)}

theorem deleted_between (h : HasServer id (replay (server settings) s₀ before).db)
    (hgone : ¬ HasServer id (replay (server settings) s₀ (before ++ between)).db) :
    ∃ first j d r later, between = first ++ .asked j d ⟨.deleteServer id, r⟩ :: later ∧
      HasServer id (replay (server settings) s₀ (before ++ first)).db := by
  induction between using List.reverseRecOn with
  | nil => exact absurd h (by simpa using hgone)
  | append_singleton between x ih =>
    by_cases hthere : HasServer id (replay (server settings) s₀ (before ++ between)).db
    · have hlast : (replay (server settings) s₀ (before ++ (between ++ [x]))) =
          apply (server settings) (replay (server settings) s₀ (before ++ between)) x := by
        rw [← List.append_assoc, replay, Runs.run_append]
        rfl
      rw [hlast] at hgone
      cases x with
      | asked j d x =>
        obtain ⟨a, r⟩ := x
        by_cases ha : a = .deleteServer id
        · subst ha
          exact ⟨between, j, d, r, [], rfl, hthere⟩
        · exact absurd (hasServer_perform hthere d ha) hgone
      | outside d => exact absurd (hasServer_background hthere d) hgone
    · obtain ⟨first, j, d, r, later, rfl, hfirst⟩ := ih hthere
      exact ⟨first, j, d, r, later ++ [x], by simp, hfirst⟩

omit [GoFloat F] [CaseTables] in
theorem hasServer_iff : HasServer id db ↔ (findServer db id).isSome = true := by
  simp [HasServer, findServer]

omit [GoFloat F] [CaseTables] in
theorem hasServer_of_saveServer {now : Int} {v : Server} {db' : DB F}
    (h : Store.Servers.saveServer db now v = .ok db') :
    HasServer (if v.id = 0 then db'.serverSeq else v.id) db' := by
  obtain ⟨hv, rfl⟩ | ⟨⟨s, hs, hid⟩, hv, rfl⟩ := saveServer_ok h
  · rw [if_pos hv]
    exact ⟨_, List.mem_append_right _ (List.mem_singleton_self _), rfl⟩
  · rw [if_neg hv]
    exact hasServer_updateServer ⟨s, hs, hid⟩ v

omit [GoFloat F] [CaseTables] in
theorem deleteServer_of_hasServer (h : HasServer id db) :
    (Store.Servers.deleteServer db id).map (fun _ => ()) = .ok () := by
  obtain ⟨v, hv⟩ := Option.isSome_iff_exists.mp (hasServer_iff.mp h)
  rw [Store.Servers.deleteServer, hv]
  rfl

variable {s : Serving F} {after : List (Sessions.Step F)} {i : Nat} {m : Moment}

/-- Where a request finds the server gone that it has just written, another request has deleted
it in between. -/
theorem deleted_of_lost (h : Logged (server settings) s₀ s)
    {w : Exchange (Answer (F := F))} (hlog : s.log = before ++ .asked i m w :: after)
    (hlost : Lost w (exchanges i after)) : ∃ v id j d, w = ⟨.saveServer v, .ok id⟩ ∧ j ≠ i ∧
      .asked j d ⟨.deleteServer id, .ok ()⟩ ∈ after := by
  obtain ⟨v, id, rfl, hrest⟩ := hlost
  obtain ⟨between, e, last, rfl, hbetween, -⟩ := exists_split (hrest.trans (List.nil_append _).symm)
  have hsaved : HasServer id (replay (server settings) s₀
      (before ++ [.asked i m ⟨.saveServer v, .ok id⟩])).db := by
    have hanswer := h.answered _ _ _ _ _ hlog
    obtain ⟨db', hdb', hid⟩ := map_eq_ok.mp hanswer.symm
    have hstep : (replay (server settings) s₀
        (before ++ [.asked i m ⟨.saveServer v, .ok id⟩])).db = db' := by
      rw [replay, Runs.run_append]
      exact step_of_ok hdb'
    rw [hstep, ← hid]
    exact hasServer_of_saveServer hdb'
  rw [List.append_cons] at hlog
  generalize before ++ [.asked i m ⟨.saveServer v, .ok id⟩] = saved at hlog hsaved
  have hgone : ¬ HasServer id (replay (server settings) s₀ (saved ++ between)).db := by
    have hnone : none = findServer (replay (server settings) s₀ (saved ++ between)).db id :=
      h.answered _ i e ⟨.getServer id, none⟩ last (by rw [hlog, List.append_assoc])
    rw [hasServer_iff, ← hnone]
    exact Bool.false_ne_true
  obtain ⟨first, j, d, r, later, rfl, hthere⟩ := deleted_between hsaved hgone
  have hother : j ≠ i := by
    rintro rfl
    have hmem : ⟨.deleteServer id, r⟩ ∈
        exchanges j (first ++ .asked j d ⟨.deleteServer id, r⟩ :: later) :=
      mem_exchanges.mpr ⟨d, by simp⟩
    rw [hbetween] at hmem
    cases hmem
  have hanswer : r = (Store.Servers.deleteServer (replay (server settings) s₀ (saved ++ first)).db
      id).map fun _ => () :=
    h.answered (saved ++ first) j d ⟨.deleteServer id, r⟩
      (later ++ .asked i e ⟨.getServer id, none⟩ :: last) (by rw [hlog]; simp)
  obtain rfl := hanswer.trans (deleteServer_of_hasServer hthere)
  exact ⟨v, id, j, d, rfl, hother, by simp⟩

def writesServers : Call F → Bool
  | .saveServer _ => true
  | .deleteServer _ => true
  | .importServers _ _ => true
  | _ => false

theorem written_perform (s : Shared F) (m : Moment) (a : Call F) :
    (perform m s a).2.db = s.db ∨ ∃ e, (perform m s a).2.db = Store.Run.step s.db e := by
  cases a with
  | saveServer v => exact .inr ⟨.saveServer m.millis v, rfl⟩
  | deleteServer id => exact .inr ⟨.deleteServer id, rfl⟩
  | importServers snapshot items => exact .inr ⟨.importServers m.millis snapshot items, rfl⟩
  | saveConfig c => exact .inr ⟨.saveConfig c, rfl⟩
  | saveOverride v => exact .inr ⟨.saveOverride m.millis v, rfl⟩
  | _ => exact .inl rfl

theorem written_background (s : Shared F) (d : Background F) : (background s d).db = s.db ∨
    ∃ e, Inputs.isMonitors e = true ∧ (background s d).db = Store.Run.step s.db e := by
  cases d with
  | takeSignal => exact .inl rfl
  | saveRound round => exact .inr ⟨.saveRound round, rfl, rfl⟩
  | saveTrustedObservation v result => exact .inr ⟨.saveTrustedObservation v result, rfl, rfl⟩
  | pruneTrustedReferences now hours => exact .inr ⟨.pruneTrustedReferences now hours, rfl, rfl⟩
  | cleanup before t => exact .inr ⟨.cleanup before t, rfl, rfl⟩

theorem wellFormed_replay (settings : Settings F) (h : WellFormed db)
    (log : List (Sessions.Step F)) :
    WellFormed (replay (server settings) (opened db) log).db := by
  have hstep : ∀ (db : DB F) e, WellFormed db → WellFormed (Store.Run.step db e) :=
    step_invariant fun _ _ _ => wellFormed_apply
  refine Runs.run_invariant (P := fun s : Shared F => WellFormed s.db) ?_ h log
  intro s x hs
  cases x with
  | asked j d x =>
    obtain hsame | ⟨e, he⟩ := written_perform s d x.1
    · exact hsame.symm ▸ hs
    · exact he.symm ▸ hstep s.db e hs
  | outside d =>
    obtain hsame | ⟨e, -, he⟩ := written_background s d
    · exact hsame.symm ▸ hs
    · exact he.symm ▸ hstep s.db e hs

theorem servers_perform (s : Shared F) (m : Moment) {a : Call F} (ha : writesServers a = false) :
    (perform m s a).2.db.servers = s.db.servers := by
  cases a with
  | saveServer v => cases ha
  | deleteServer id => cases ha
  | importServers snapshot items => cases ha
  | saveConfig c =>
    cases hc : Store.Run.apply s.db (.saveConfig c) with
    | error err => simp [perform, write, Store.Run.step, hc]
    | ok db' =>
      rw [perform, write, step_of_ok hc, saveConfig_ok hc]
  | saveOverride v =>
    cases hv : Store.Run.apply s.db (.saveOverride m.millis v) with
    | error err => simp [perform, write, Store.Run.step, hv]
    | ok db' =>
      rw [perform, write, step_of_ok hv, (saveOverride_ok hv).2]
      rfl
  | _ => rfl

theorem servers_background (s : Shared F) (d : Background F) :
    (background s d).db.servers = s.db.servers := by
  obtain hsame | ⟨e, hmonitors, he⟩ := written_background s d
  · rw [hsame]
  · rw [he, (Inputs.sameInputs_step s.db hmonitors).servers]

theorem servers_replay (settings : Settings F) (s₀ : Shared F) {between : List (Sessions.Step F)}
    (h : ∀ j d x, .asked j d x ∈ between → writesServers x.1 = false) :
    (replay (server settings) s₀ between).db.servers = s₀.db.servers := by
  induction between generalizing s₀ with
  | nil => rfl
  | cons x between ih =>
    have hrest := ih (apply (server settings) s₀ x)
      fun j d y hy => h j d y (List.mem_cons_of_mem _ hy)
    refine hrest.trans ?_
    cases x with
    | asked j d x => exact servers_perform s₀ d (h j d x List.mem_cons_self)
    | outside d => exact servers_background s₀ d

def IsRow (v : Server) (id : Int) (row : Server) : Prop :=
  ∃ createdAt trustEpoch, row = { v with id, createdAt, trustEpoch }

omit [GoFloat F] [CaseTables] in
theorem isRow_of_saveServer (hw : WellFormed db) {now : Int} {v : Server} {db' : DB F}
    (h : Store.Servers.saveServer db now v = .ok db') :
    ∃ row, findServer db' (if v.id = 0 then db'.serverSeq else v.id) = some row ∧
      IsRow v (if v.id = 0 then db'.serverSeq else v.id) row := by
  obtain ⟨hv, rfl⟩ | ⟨⟨s, hs, hid⟩, hv, rfl⟩ := saveServer_ok h
  · rw [if_pos hv]
    refine ⟨{ v with id := db.serverSeq + 1, createdAt := now, trustEpoch := 0 }, ?_, now, 0, rfl⟩
    have hnew : db.servers.find? (·.id = db.serverSeq + 1) = none :=
      Store.Trust.findServer_new hw (by omega)
    rw [findServer, Store.Servers.insertServer, List.find?_append, hnew]
    simp
  · rw [if_neg hv, Store.Trust.findServer_update]
    obtain ⟨old, hold⟩ := Option.isSome_iff_exists.mp (hasServer_iff.mp ⟨s, hs, hid⟩)
    have holdid := (findServer_some hold).2
    rw [hold]
    exact ⟨Store.Servers.updatedServer v old, by simp [holdid], old.createdAt,
      (Store.Servers.updatedServer v old).trustEpoch, holdid ▸ rfl⟩

/-- The server that a reply shows, of a request that has saved one between `before` and `between`:
its row when it was read again, as it was saved unless servers were written since. -/
structure ReadBack (settings : Settings F) (db : DB F) (before between : List (Sessions.Step F))
    (save : Sessions.Step F) (v : Server) (id : Int) (shown : Server) : Prop where
  read : findServer (replay (server settings) (opened db) (before ++ save :: between)).db id =
    some shown
  same : (∀ j d x, .asked j d x ∈ between → writesServers x.1 = false) →
    findServer (replay (server settings) (opened db) (before ++ [save])).db id = some shown
  saved : WellFormed db → ∃ row, IsRow v id row ∧
    findServer (replay (server settings) (opened db) (before ++ [save])).db id = some row

theorem readBack_of_shows {s : Serving F} (h : Logged (server settings) (opened db) s) {v : Server}
    (hlog : s.log = before ++ .asked i m ⟨.saveServer v, .ok id⟩ :: after) {shown : Server}
    (hshown : ⟨.getServer id, some shown⟩ ∈ exchanges i after) :
    ∃ between d later, after = between ++ .asked i d ⟨.getServer id, some shown⟩ :: later ∧
      ReadBack settings db before between (.asked i m ⟨.saveServer v, .ok id⟩) v id shown := by
  obtain ⟨d, hmem⟩ := mem_exchanges.mp hshown
  obtain ⟨between, later, rfl⟩ := List.append_of_mem hmem
  have hread : some shown = findServer (replay (server settings) (opened db)
      (before ++ .asked i m ⟨.saveServer v, .ok id⟩ :: between)).db id :=
    h.answered _ i d ⟨.getServer id, some shown⟩ later (by rw [hlog]; simp)
  refine ⟨between, d, later, rfl, hread.symm, fun hquiet => ?_, fun hw => ?_⟩
  · have hservers := servers_replay settings (replay (server settings) (opened db)
      (before ++ [.asked i m ⟨.saveServer v, .ok id⟩])) hquiet
    rw [replay, replay, ← Runs.run_append, ← List.append_cons] at hservers
    exact (congrArg (List.find? _) hservers.symm).trans hread.symm
  · have hanswer := h.answered _ _ _ _ _ hlog
    obtain ⟨db', hdb', hid⟩ := map_eq_ok.mp hanswer.symm
    have hstep : (replay (server settings) (opened db)
        (before ++ [.asked i m ⟨.saveServer v, .ok id⟩])).db = db' := by
      rw [replay, Runs.run_append]
      exact step_of_ok hdb'
    obtain ⟨row, hrow, his⟩ := isRow_of_saveServer (wellFormed_replay settings hw before) hdb'
    rw [hid] at hrow his
    exact ⟨row, his, hstep ▸ hrow⟩

omit [GoFloat F] [CaseTables] in
theorem split_unique {l l' r r' : List (Exchange (Answer (F := F)))}
    {w w' : Exchange (Answer (F := F))} (h : l ++ w :: r = l' ++ w' :: r') (hl' : Quiet l')
    (hr' : Quiet r') (hw : isWritten w = true) : l = l' ∧ w = w' ∧ r = r' := by
  induction l generalizing l' with
  | nil =>
    cases l' with
    | nil =>
      obtain ⟨rfl, rfl⟩ := List.cons.inj h
      exact ⟨rfl, rfl, rfl⟩
    | cons x l' =>
      obtain ⟨rfl, -⟩ := List.cons.inj h
      rw [hl' w List.mem_cons_self] at hw
      cases hw
  | cons x l ih =>
    cases l' with
    | nil =>
      obtain ⟨-, htail⟩ := List.cons.inj h
      rw [hr' w (by simp [← htail])] at hw
      cases hw
    | cons y l' =>
      obtain ⟨rfl, htail⟩ := List.cons.inj h
      obtain ⟨rfl, rfl, rfl⟩ := ih htail fun z hz => hl' z (List.mem_cons_of_mem _ hz)
      exact ⟨rfl, rfl, rfl⟩

/-- What the reply of a request says about its writes, among all that has happened. -/
structure Honest (settings : Settings F) (db : DB F) (s : Serving F) (i : Nat)
    (response : Response F) : Prop where
  once : (exchanges i s.log).countP isWritten ≤ 1
  written : ∀ before m w after, s.log = before ++ .asked i m w :: after → isWritten w = true →
    (response.status = 200 ∧ Shows w (exchanges i after) response.body ∧
      ((∃ v, w = ⟨.saveOverride v, .ok ()⟩) ∨ ∃ d, .asked i d ⟨.wake, ()⟩ ∈ after)) ∨
    (response.status = 400 ∧ announces response.body = false ∧
      ∃ v id j d, w = ⟨.saveServer v, .ok id⟩ ∧ j ≠ i ∧
        .asked j d ⟨.deleteServer id, .ok ()⟩ ∈ after)
  readBack : ∀ before m v id after shown,
    s.log = before ++ .asked i m ⟨.saveServer v, .ok id⟩ :: after → response.body = .server shown →
    ∃ between d later, after = between ++ .asked i d ⟨.getServer id, some shown⟩ :: later ∧
      ReadBack settings db before between (.asked i m ⟨.saveServer v, .ok id⟩) v id shown
  announced : announces response.body = true → ∃ m w, .asked i m w ∈ s.log ∧ isWritten w = true

/-- Whatever requests are served at the same time: a request writes once at most. Then its reply
shows what was written (of a server, the row as it was read again), and the monitor was woken after
it, but for a verdict; an error is the reply only where another request has deleted the server
since. -/
theorem replies_honest (settings : Settings F) (db : DB F) (es : List (ServerEvent F)) {i : Nat}
    {r : Request} {response : Response F}
    (hthread : (served settings db es).threads[i]? = some (r, .done response)) :
    Honest settings db (served settings db es) i response := by
  have h := logged (server settings) (opened db) es
  have hsplit : ∀ before m w after,
      (served settings db es).log = before ++ .asked i m w :: after →
      exchanges i (served settings db es).log = exchanges i before ++ w :: exchanges i after := by
    intro before m w after hlog
    rw [hlog, List.append_cons, exchanges_append, exchanges_append, exchanges_asked, if_pos rfl,
      List.append_assoc, List.singleton_append]
  cases h.ends (P := fun _ => Replied) (fun r => ends_handler settings r) hthread with
  | quiet hquiet hbody =>
    refine ⟨?_, ?_, ?_, ?_⟩
    · rw [List.countP_eq_zero.mpr fun x hx => by simp [hquiet x hx]]
      exact Nat.zero_le 1
    · intro before m w after hlog hw
      rw [hquiet w (by rw [hsplit before m w after hlog]; simp)] at hw
      cases hw
    · intro before m v id after shown _ hshown
      rw [hshown] at hbody
      cases hbody
    · intro hannounced
      rw [hbody] at hannounced
      cases hannounced
  | written init w rest hl hinit hw hrest hsaid =>
    refine ⟨?_, ?_, ?_, ?_⟩
    · rw [hl, List.countP_append, List.countP_cons,
        List.countP_eq_zero.mpr fun x hx => by simp [hinit x hx],
        List.countP_eq_zero.mpr fun x hx => by simp [hrest x hx]]
      simp [hw]
    · intro before m w' after hlog hw'
      obtain ⟨-, rfl, hafter⟩ :=
        split_unique ((hsplit before m w' after hlog).symm.trans hl) hinit hrest hw'
      obtain ⟨hstatus, hshows, htold⟩ | ⟨hstatus, hbody, hlost⟩ := hsaid
      · refine .inl ⟨hstatus, hafter ▸ hshows, ?_⟩
        obtain ⟨v, hv, -⟩ | ⟨reads, hreads⟩ := htold
        · exact .inl ⟨v, hv⟩
        · right
          apply mem_exchanges.mp
          rw [hafter, hreads]
          simp
      · exact .inr ⟨hstatus, hbody, deleted_of_lost h hlog (hafter ▸ hlost)⟩
    · intro before m v id after shown hlog hshown
      obtain ⟨-, hsame, hafter⟩ :=
        split_unique ((hsplit before m _ after hlog).symm.trans hl) hinit hrest rfl
      obtain ⟨-, hshows, -⟩ | ⟨-, hbody, -⟩ := hsaid
      · rw [hshown] at hshows
        obtain ⟨v', id', hw', hmem⟩ := hshows
        cases hsame.trans hw'
        exact readBack_of_shows h hlog (hafter ▸ hmem)
      · rw [hshown] at hbody
        cases hbody
    · intro _
      obtain ⟨m, hm⟩ := mem_exchanges.mp (show w ∈ exchanges i (served settings db es).log by
        rw [hl]; simp)
      exact ⟨m, w, hm, hw⟩

end

section

local instance : CaseTables := asciiTables

def exampleOther : GoString := str "\x7b\"name\":\"Quad9\",\"address\":\"9.9.9.9\"\x7d"

def exampleServing : Settings ℚ :=
  { exampleSettings with
    decode := { Inputs.exampleDecode with
      server := fun body =>
        if body = exampleOther then
          .ok { noServer with name := str "Quad9", address := str "9.9.9.9" }
        else Inputs.exampleDecode.server body } }

/-- Two servers are saved. Before they are read again, other requests change the first one and
delete the second. -/
def exampleRace : List (ServerEvent ℚ) :=
  [.arrive (exampleRequest (str "GET") (str "/api/session") []
      (some (str "admin", str "0123456789abcdef"))),
    .advance 0 (exampleMoment 0), .advance 0 (exampleMoment 0),
    .arrive { exampleRequest (str "POST") (str "/api/servers") exampleToken none with
      body := Inputs.exampleBody },
    .advance 1 (exampleMoment 1), .advance 1 (exampleMoment 2),
    .arrive { exampleRequest (str "PUT") (str "/api/servers/1") exampleToken none with
      body := exampleOther },
    .advance 2 (exampleMoment 3), .advance 2 (exampleMoment 4), .advance 2 (exampleMoment 5),
    .advance 1 (exampleMoment 6), .advance 1 (exampleMoment 7),
    .arrive { exampleRequest (str "POST") (str "/api/servers") exampleToken none with
      body := Inputs.exampleBody },
    .advance 3 (exampleMoment 8), .advance 3 (exampleMoment 9),
    .arrive (exampleRequest (str "DELETE") (str "/api/servers/2") exampleToken none),
    .advance 4 (exampleMoment 10), .advance 4 (exampleMoment 11), .advance 4 (exampleMoment 12),
    .advance 3 (exampleMoment 13)]

def shownServer : Handler ℚ → Option Server
  | .done ⟨_, .server shown⟩ => some shown
  | _ => none

theorem shownServer_eq_some {q : Handler ℚ} {shown : Server} (h : shownServer q = some shown) :
    ∃ status, q = .done ⟨status, .server shown⟩ := by
  unfold shownServer at h
  split at h
  · obtain rfl := Option.some.inj h
    exact ⟨_, rfl⟩
  · cases h

theorem replies_honest_example :
    let s := served exampleServing emptyDB exampleRace
    (∃ r response shown, s.threads[1]? = some (r, .done response) ∧
      response.body = .server shown ∧ shown.name = str "Quad9" ∧
      Honest exampleServing emptyDB s 1 response) ∧
    ∃ r response, s.threads[3]? = some (r, .done response) ∧ response.status = 400 ∧
      Honest exampleServing emptyDB s 3 response := by
  intro s
  have hshown : (s.threads[1]?.bind fun thread => shownServer thread.2).map (·.name) =
      some (str "Quad9") := by
    decide +kernel
  have hgone : (s.threads[3]?).any (fun
      | (_, .done response) => response.status = 400
      | (_, .ask _ _) => false) = true := by
    decide +kernel
  constructor
  · obtain ⟨shown, hserver, hname⟩ := Option.map_eq_some_iff.mp hshown
    obtain ⟨⟨r, q⟩, hthread, hserver⟩ := Option.bind_eq_some_iff.mp hserver
    obtain ⟨status, rfl⟩ := shownServer_eq_some hserver
    refine ⟨r, ⟨status, .server shown⟩, shown, hthread, rfl, hname, ?_⟩
    exact replies_honest exampleServing emptyDB exampleRace hthread
  · obtain ⟨⟨r, q⟩, hthread, hstatus⟩ := (Option.any_eq_true _ _).mp hgone
    cases q with
    | done response =>
      refine ⟨r, response, hthread, by simpa using hstatus, ?_⟩
      exact replies_honest exampleServing emptyDB exampleRace hthread
    | ask a next => cases hstatus

end

end DnsMonitor.Httpapi.Replies
