import DnsMonitor.Httpapi.Handlers

namespace DnsMonitor.Httpapi.Sessions

open DnsMonitor.Model DnsMonitor.Lib DnsMonitor.Lib.Programs DnsMonitor.Lib.Evictions
open DnsMonitor.Httpapi.ServerCsv DnsMonitor.Httpapi.Handlers
open DnsMonitor.Monitor.Endpoint
open DnsMonitor.Store.Schema DnsMonitor.Store.Cleanup DnsMonitor.Store.Migration
open DnsMonitor.Go.Strings DnsMonitor.Go.Unicode DnsMonitor.Go.Time DnsMonitor.Go.Float

abbrev SessionTable := List (GoString × Int)

structure Shared (F : Type) where
  sessions : SessionTable
  db : DB F
  /-- A signal waits for the monitor. -/
  awake : Bool

/-- The circumstances in which a call is answered. The sessions are timed by the monotonic clock. -/
structure Moment where
  /-- When the loop of `login` meets each session. -/
  reads : GoString → Int
  instant : Int
  millis : Int
  random : Except Message GoString
  elsewhere : Route → List GoString → Nat

/-- What the monitor does to the store, and when it takes the signal. -/
inductive Background (F : Type) where
  | saveRound (round : Round F)
  | saveTrustedObservation (server : Server) (result : ProbeResult F)
  | pruneTrustedReferences (now : Int) (historyHours : F)
  | cleanup (before : Int) (transaction : CleanupStep)
  | takeSignal

abbrev Step (F : Type) := Entry (Answer (F := F)) Moment (Background F)

abbrev ServerEvent (F : Type) := Programs.Event Moment (Background F) Request

abbrev Serving (F : Type) :=
  Pool (Answer (F := F)) (Response F) (Shared F) Moment (Background F) Request

def lifetime : Int := 12 * hour

def maxSessions : Nat := 64

section

variable {F : Type}

def authorized (now : Int) (token : GoString) (sessions : SessionTable) : Bool × SessionTable :=
  match Leases.find token sessions with
  | none => (false, erase token sessions)
  | some expires =>
    if expires < now then (false, erase token sessions) else (true, sessions)

/-- `login` from the lock on. -/
def enter (m : Moment) (token : GoString) (sessions : SessionTable) : Bool × SessionTable :=
  let sessions := sessions.filter fun session => !decide (session.2 < m.reads session.1)
  if maxSessions ≤ sessions.length then (false, sessions)
  else (true, put token (m.instant + lifetime) sessions)

variable [GoFloat F] [CaseTables]

def write (s : Shared F) (e : Store.Run.Event F) : Shared F :=
  { s with db := Store.Run.step s.db e }

def perform (m : Moment) (s : Shared F) : (a : Call F) → Answer a × Shared F
  | .authorized token =>
    let (ok, sessions) := authorized m.instant token s.sessions
    (ok, { s with sessions })
  | .random => (m.random, s)
  | .enter token =>
    let (ok, sessions) := enter m token s.sessions
    (ok, { s with sessions })
  | .leave token => ((), { s with sessions := erase token s.sessions })
  | .listServers => (s.db.servers, s)
  | .getServer id => (findServer s.db id, s)
  | .getConfig => (s.db.config, s)
  | .resultsPage id limit before beforeID =>
    (Store.Paging.resultsPage s.db id limit before beforeID, s)
  | .saveServer v =>
    ((Store.Servers.saveServer s.db m.millis v).map fun db =>
      if v.id = 0 then db.serverSeq else v.id, write s (.saveServer m.millis v))
  | .deleteServer id =>
    ((Store.Servers.deleteServer s.db id).map fun _ => (), write s (.deleteServer id))
  | .importServers snapshot items =>
    ((Store.Servers.importServers s.db m.millis snapshot items).map (·.2),
      write s (.importServers m.millis snapshot items))
  | .saveConfig c => ((Store.Run.saveConfig s.db c).map fun _ => (), write s (.saveConfig c))
  | .saveOverride v =>
    ((Store.Override.saveOverride s.db m.millis v).map fun _ => (),
      write s (.saveOverride m.millis v))
  | .now => (m.millis, s)
  | .wake => ((), { s with awake := true })
  | .elsewhere handler values => (m.elsewhere handler values, s)

def background (s : Shared F) : Background F → Shared F
  | .saveRound round => write s (.saveRound round)
  | .saveTrustedObservation v result => write s (.saveTrustedObservation v result)
  | .pruneTrustedReferences now hours => write s (.pruneTrustedReferences now hours)
  | .cleanup before t => write s (.cleanup before t)
  | .takeSignal => { s with awake := false }

def server (settings : Settings F) :
    Machine (Call F) Answer (Response F) (Shared F) Moment (Background F) Request where
  serve := handler settings
  perform := perform
  outside := background

def opened (db : DB F) : Shared F := ⟨[], db, false⟩

abbrev served (settings : Settings F) (db : DB F) (es : List (ServerEvent F)) : Serving F :=
  Runs.run (step (server settings)) (start (opened db)) es

end

section

variable {F : Type}

theorem authorized_eq (now : Int) (token : GoString) (sessions : SessionTable) :
    authorized now token sessions =
      (Leases.answer maxSessions sessions (.check now token),
        Leases.step maxSessions sessions (.check now token)) := by
  rw [authorized, Leases.step, Leases.answer]
  cases Leases.find token sessions with
  | none => simp
  | some expires => by_cases h : expires < now <;> simp [h]

theorem enter_eq (m : Moment) (token : GoString) (sessions : SessionTable) :
    enter m token sessions =
      (Leases.answer maxSessions sessions (.grant m.reads token (m.instant + lifetime)),
        Leases.step maxSessions sessions (.grant m.reads token (m.instant + lifetime))) := by
  rw [enter, Leases.step, Leases.answer]
  by_cases h : (Leases.sweep m.reads sessions).length < maxSessions
  · rw [if_pos h, decide_eq_true h]
    exact if_neg (not_le.mpr h)
  · rw [if_neg h, decide_eq_false h]
    exact if_pos (not_lt.mp h)

def operation : Step F → Option (Leases.Op GoString Int × Bool)
  | .asked _ m ⟨.authorized token, ok⟩ => some (.check m.instant token, ok)
  | .asked _ m ⟨.enter token, ok⟩ => some (.grant m.reads token (m.instant + lifetime), ok)
  | .asked _ _ ⟨.leave token, _⟩ => some (.revoke token, true)
  | _ => none

def operations (log : List (Step F)) : List (Leases.Op GoString Int × Bool) :=
  log.filterMap operation

def readings : Step F → Set Int
  | .asked _ m ⟨.authorized _, _⟩ => {m.instant}
  | .asked _ m ⟨.enter _, _⟩ => insert m.instant (Set.range m.reads)
  | _ => ∅

def Monotonic (log : List (Step F)) : Prop :=
  log.Pairwise fun x y => ∀ r ∈ readings x, ∀ s ∈ readings y, r ≤ s

/-- A login has issued the token, at most its lifetime ago, and nobody has logged it out since. -/
def Live (log : List (Step F)) (token : GoString) (now : Int) : Prop :=
  ∃ earlier i m between, log = earlier ++ .asked i m ⟨.enter token, true⟩ :: between ∧
    now ≤ m.instant + lifetime ∧ ∀ j d r, .asked j d ⟨.leave token, r⟩ ∉ between

variable {log before after : List (Step F)}
  {token : GoString}

theorem reads_subset {x : Step F}
    {op : Leases.Op GoString Int × Bool} (h : operation x = some op) : op.1.reads ⊆ readings x := by
  unfold operation at h
  split at h
  · obtain rfl := Option.some.inj h
    exact subset_rfl
  · obtain rfl := Option.some.inj h
    exact Set.subset_insert _ _
  · obtain rfl := Option.some.inj h
    exact Set.empty_subset _
  · cases h

theorem Monotonic.ordered (h : Monotonic log) : Leases.Ordered (operations log) := by
  rw [Leases.Ordered, operations, List.pairwise_filterMap]
  apply h.imp
  intro x y hxy op hop op' hop' r hr s hs
  exact hxy r (reads_subset hop hr) s (reads_subset hop' hs)

theorem operation_eq_grant {x : Step F}
    {reads : GoString → Int} {expires : Int}
    (h : operation x = some (.grant reads token expires, true)) : ∃ i m,
      x = .asked i m ⟨.enter token, true⟩ ∧ expires = m.instant + lifetime := by
  unfold operation at h
  split at h
  · simp at h
  · rename_i i m _ _
    obtain ⟨hop, rfl⟩ := Prod.mk.inj (Option.some.inj h)
    obtain ⟨-, rfl, rfl⟩ := Leases.Op.grant.inj hop
    exact ⟨i, m, rfl, rfl⟩
  · simp at h
  · cases h

theorem mem_operations_revoke {b : Bool} : (.revoke token, b) ∈ operations log →
    ∃ i m r, Entry.asked i m ⟨.leave token, r⟩ ∈ log := by
  intro h
  obtain ⟨x, hx, hop⟩ := List.mem_filterMap.mp h
  unfold operation at hop
  split at hop
  · simp at hop
  · simp at hop
  · rename_i i m _ r
    obtain ⟨hop, -⟩ := Prod.mk.inj (Option.some.inj hop)
    obtain rfl := Leases.Op.revoke.inj hop
    exact ⟨i, m, r, hx⟩
  · cases hop

theorem live_iff (h : Monotonic log) {now : Int} : Live log token now ↔
    ∃ expires, Leases.held (operations log) token = some expires ∧ now ≤ expires := by
  constructor
  · rintro ⟨earlier, i, m, between, rfl, hle, hbetween⟩
    have hsplit : operations (earlier ++ .asked i m ⟨.enter token, true⟩ :: between) =
        operations earlier ++ (.grant m.reads token (m.instant + lifetime), true) ::
          operations between := by
      simp [operations, operation]
    have hkept : ∀ b, (.revoke token, b) ∉ operations between := by
      intro b hb
      obtain ⟨j, d, r, hmem⟩ := mem_operations_revoke hb
      exact hbetween j d r hmem
    obtain ⟨expires, hheld, hor⟩ :=
      Leases.held_of_granted (operations earlier) m.reads (m.instant + lifetime) hkept
    refine ⟨expires, by rw [hsplit, hheld], ?_⟩
    obtain rfl | ⟨reads, hmem⟩ := hor
    · exact hle
    · -- a later login with the same token
      obtain ⟨y, hy, hop⟩ := List.mem_filterMap.mp hmem
      obtain ⟨j, d, rfl, rfl⟩ := operation_eq_grant hop
      have hlater := (List.pairwise_cons.mp (List.pairwise_append.mp h).2.1).1 _ hy
      have := hlater m.instant (Set.mem_insert _ _) d.instant (Set.mem_insert _ _)
      omega
  · rintro ⟨expires, hheld, hle⟩
    obtain ⟨before, reads, after, hops, hafter⟩ := Leases.granted_of_held hheld
    obtain ⟨earlier, rest, rfl, hearlier, hrest⟩ := List.filterMap_eq_append_iff.mp hops
    obtain ⟨skipped, x, between, rfl, hskipped, hx, hbetween⟩ := List.filterMap_eq_cons_iff.mp hrest
    obtain ⟨i, m, rfl, rfl⟩ := operation_eq_grant hx
    refine ⟨earlier ++ skipped, i, m, between, by simp, hle, ?_⟩
    intro j d r hmem
    apply hafter true
    rw [← hbetween]
    exact List.mem_filterMap.mpr ⟨_, hmem, rfl⟩

variable [GoFloat F] [CaseTables] {settings : Settings F} {db : DB F}

theorem sessions_apply (s : Shared F) (x : Step F) :
    (apply (server settings) s x).sessions =
      match operation x with
      | some op => Leases.step maxSessions s.sessions op.1
      | none => s.sessions := by
  cases x with
  | asked i m x =>
    obtain ⟨a, r⟩ := x
    cases a with
    | authorized token => exact congrArg Prod.snd (authorized_eq _ _ _)
    | enter token => exact congrArg Prod.snd (enter_eq _ _ _)
    | _ => rfl
  | outside d => cases d <;> rfl

theorem sessions_replay (settings : Settings F) (db : DB F) (log : List (Step F)) :
    (replay (server settings) (opened db) log).sessions =
      Leases.replay maxSessions (operations log) := by
  induction log using List.reverseRecOn with
  | nil => rfl
  | append_singleton log x ih =>
    have happ : (replay (server settings) (opened db) (log ++ [x])).sessions =
        (apply (server settings) (replay (server settings) (opened db) log) x).sessions := by
      simp [replay, Runs.run_append]
    have hops : operations (log ++ [x]) = operations log ++ (operation x).toList := by
      cases hop : operation x <;> simp [operations, hop]
    rw [happ, sessions_apply, ih, hops]
    cases operation x with
    | none => rw [Option.toList_none, List.append_nil]
    | some op => rw [Option.toList_some, Leases.replay_append_singleton]

theorem answered_operations {s : Serving F} (h : Logged (server settings) (opened db) s) :
    Leases.Answered maxSessions (operations s.log) := by
  intro before x after hops
  obtain ⟨earlier, rest, hlog, rfl, hrest⟩ := List.filterMap_eq_append_iff.mp hops
  obtain ⟨skipped, y, later, rfl, hskipped, hy, rfl⟩ := List.filterMap_eq_cons_iff.mp hrest
  have hops : List.filterMap operation earlier = operations (earlier ++ skipped) := by
    rw [operations, List.filterMap_append, List.filterMap_eq_nil_iff.mpr hskipped,
      List.append_nil]
  rw [hops, ← sessions_replay settings db]
  have hsplit : s.log = (earlier ++ skipped) ++ y :: later := by simp [hlog]
  unfold operation at hy
  split at hy
  · obtain rfl := Option.some.inj hy
    have := h.answered _ _ _ _ _ hsplit
    exact this.trans (congrArg Prod.fst (authorized_eq _ _ _))
  · obtain rfl := Option.some.inj hy
    have := h.answered _ _ _ _ _ hsplit
    exact this.trans (congrArg Prod.fst (enter_eq _ _ _))
  · obtain rfl := Option.some.inj hy
    rfl
  · cases hy

variable {s : Serving F}
  {i : Nat} {m : Moment} {ok : Bool}

theorem authorized_iff (h : Logged (server settings) (opened db) s)
    (hlog : s.log = before ++ .asked i m ⟨.authorized token, ok⟩ :: after)
    (hclock : Monotonic s.log) : ok = true ↔ Live before token m.instant := by
  have hanswered := answered_operations h
  have hordered := hclock.ordered
  have hops : operations s.log =
      (operations before ++ [(.check m.instant token, ok)]) ++ operations after := by
    simp [hlog, operations, operation]
  rw [hops] at hanswered hordered
  rw [hlog] at hclock
  rw [live_iff (List.pairwise_append.mp hclock).1]
  exact Leases.check_iff hanswered.of_append (List.pairwise_append.mp hordered).1

theorem enter_iff (h : Logged (server settings) (opened db) s)
    (hlog : s.log = before ++ .asked i m ⟨.enter token, ok⟩ :: after)
    (hclock : Monotonic s.log) :
    ok = true ↔ {other | Live before other (m.reads other)}.ncard < maxSessions := by
  have hanswered := answered_operations h
  have hordered := hclock.ordered
  have hops : operations s.log =
      (operations before ++ [(.grant m.reads token (m.instant + lifetime), ok)]) ++
        operations after := by
    simp [hlog, operations, operation]
  rw [hops] at hanswered hordered
  rw [hlog] at hclock
  simp only [live_iff (List.pairwise_append.mp hclock).1]
  exact Leases.grant_iff hanswered.of_append (List.pairwise_append.mp hordered).1

structure Exact (s : Serving F) : Prop where
  accepted : ∀ before i m token ok after,
    s.log = before ++ .asked i m ⟨.authorized token, ok⟩ :: after →
    (ok = true ↔ Live before token m.instant)
  refused : ∀ before i m token ok after,
    s.log = before ++ .asked i m ⟨.enter token, ok⟩ :: after →
    (ok = false ↔ maxSessions ≤ {other | Live before other (m.reads other)}.ncard)
  bounded : s.shared.sessions.length ≤ maxSessions

/-- Whatever requests are served at the same time: a token is accepted exactly while it is live, a
login that knows the key is refused exactly while 64 tokens are, and no more are ever kept. -/
theorem sessions_exact (settings : Settings F) (db : DB F)
    (es : List (ServerEvent F))
    (hclock : Monotonic (served settings db es).log) :
    Exact (served settings db es) := by
  have h := logged (server settings) (opened db) es
  refine ⟨?_, ?_, ?_⟩
  · intro before i m token ok after hlog
    exact authorized_iff h hlog hclock
  · intro before i m token ok after hlog
    rw [← Bool.not_eq_true, enter_iff h hlog hclock, not_lt]
  · rw [h.shared, sessions_replay]
    exact Leases.length_replay _

def instantOf : Step F → Option Int
  | .asked _ m _ => some m.instant
  | .outside _ => none

theorem monotonic_of_sorted {es : List (ServerEvent F)}
    (hreads : ∀ i m, .advance i m ∈ es → ∀ token, m.reads token = m.instant)
    (hsorted : ((served settings db es).log.filterMap
      instantOf).Pairwise (· ≤ ·)) :
    Monotonic (served settings db es).log := by
  have hreadings : ∀ x ∈ (served settings db es).log,
      ∀ r ∈ readings x, instantOf x = some r := by
    intro x hx r hr
    cases x with
    | asked i m x =>
      have hm := hreads i m (advance_of_mem hx)
      unfold readings at hr
      split at hr
      · rename_i heq
        cases heq
        exact congrArg some hr.symm
      · rename_i heq
        cases heq
        obtain rfl | ⟨token, rfl⟩ := hr
        · rfl
        · exact congrArg some (hm token).symm
      · cases hr
    | outside d => cases hr
  apply (List.pairwise_filterMap.mp hsorted).imp_of_mem
  intro x y hx hy hxy r hr s hs
  exact hxy r (hreadings x hx r hr) s (hreadings y hy s hs)

end

section

local instance : CaseTables := asciiTables

def exampleSettings : Settings ℚ where
  key := str "0123456789abcdef"
  initialConfiguredListen := str "0.0.0.0:8080"
  decode := {
    server := fun _ => .error []
    config := fun _ _ => .error []
    override := fun _ => .error []
    preview := fun _ => .error []
    importRequest := fun _ => .error [] }

def exampleRequest (method path token : GoString) (credentials : Option (GoString × GoString)) :
    Request where
  method := method
  url := { path := path }
  host := str "127.0.0.1:8080"
  origin := []
  secFetchSite := []
  token := token
  credentials := credentials
  query := fun _ => []
  body := []

def exampleMoment (instant : Int) : Moment where
  reads := fun _ => instant
  instant := instant
  millis := 0
  random := .ok (List.replicate 32 1)
  elsewhere := fun _ _ => 200

def exampleToken : GoString := hexText (List.replicate 32 1)

def exampleEvents : List (ServerEvent ℚ) :=
  [.arrive (exampleRequest (str "GET") (str "/api/session") []
      (some (str "admin", str "0123456789abcdef"))),
    .advance 0 (exampleMoment 0), .advance 0 (exampleMoment 0),
    .arrive (exampleRequest (str "GET") (str "/api/state") exampleToken none),
    .advance 1 (exampleMoment lifetime),
    .arrive (exampleRequest (str "GET") (str "/api/state") exampleToken none),
    .advance 2 (exampleMoment (lifetime + 1))]

theorem monotonic_example :
    Monotonic (served exampleSettings emptyDB exampleEvents).log := by
  refine monotonic_of_sorted ?_ (by decide +kernel)
  intro i m hm token
  simp only [exampleEvents, List.mem_cons, List.not_mem_nil, Event.advance.injEq, reduceCtorEq,
    or_false, false_or] at hm
  obtain ⟨-, rfl⟩ | ⟨-, rfl⟩ | ⟨-, rfl⟩ | ⟨-, rfl⟩ := hm <;> rfl

theorem sessions_exact_example :
    let s := served exampleSettings emptyDB exampleEvents
    (operations s.log).map (·.2) = [true, true, false] ∧ Exact s := by
  intro s
  have hanswers : (operations s.log).map (·.2) = [true, true, false] := by decide +kernel
  exact ⟨hanswers, sessions_exact exampleSettings emptyDB exampleEvents monotonic_example⟩

end

end DnsMonitor.Httpapi.Sessions
