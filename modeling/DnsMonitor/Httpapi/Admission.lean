import DnsMonitor.Httpapi.Calls
import DnsMonitor.Httpapi.Sessions

namespace DnsMonitor.Httpapi.Admission

open DnsMonitor.Model DnsMonitor.Lib DnsMonitor.Lib.Programs
open DnsMonitor.Httpapi.ServerCsv DnsMonitor.Httpapi.Handlers DnsMonitor.Httpapi.Sessions
open DnsMonitor.Httpapi.Calls
open DnsMonitor.Monitor.Endpoint DnsMonitor.Store.Schema DnsMonitor.Store.Migration
open DnsMonitor.Go.Strings DnsMonitor.Go.Unicode DnsMonitor.Go.Url DnsMonitor.Go.ServeMux
open DnsMonitor.Go.Float

def resource : Route → GoString
  | .health => str "health"
  | .login => str "session"
  | .logout => str "session"
  | .state => str "state"
  | .probeAll => str "probes"
  | .config => str "config"
  | .override => str "overrides"
  | .export => str "export"
  | .inspect => str "service"
  | .service => str "service"
  | .assets => []
  | _ => str "servers"

theorem patterns_resource : ∀ p ∈ patterns, p.handler ≠ .assets →
    p.segments.take 2 = [literal "api", .literal (resource p.handler)] := by
  decide +kernel

theorem patterns_method : ∀ p ∈ patterns, p.method ≠ str "CONNECT" ∧
    (p.handler = .logout → p.method = str "DELETE") := by
  decide +kernel

theorem patterns_session : ∀ p ∈ patterns, (resource p.handler = str "health" → p.handler = .health) ∧
    (resource p.handler = str "session" → p.handler = .login ∨ p.handler = .logout) := by
  decide +kernel

/-- The path of a request that is routed to a handler, however it was escaped. -/
theorem path_of_route {method : GoString} {u : URL} {route : Route} {values : List GoString}
    (h : findHandler patterns method u = .handle route values) (hroute : route ≠ .assets) :
    ∃ rest, u.path = str "/api/" ++ resource route ++ rest ∧
      (rest = [] ∨ rest.head? = some (byte '/')) := by
  obtain ⟨p, hp, rfl, hmethod, hmatch, hclean⟩ := findHandler_handle h
  have hconnect := (patterns_method p hp).1
  have hget : str "HEAD" ≠ str "CONNECT" := by decide
  have hslash : u.escapedPath.head? = some (byte '/') := by
    obtain hc | hc := hclean
    · obtain rfl | ⟨-, rfl⟩ := hmethod
      · exact absurd hc hconnect
      · exact absurd hc hget
    · simp only [isClean, Bool.and_eq_true, decide_eq_true_eq] at hc
      exact hc.1.1
  have hpath := path_eq hslash (unescape_escapedPath u)
  have hsegments : p.segments = literal "api" :: .literal (resource p.handler) ::
      p.segments.drop 2 := by
    conv_lhs => rw [← List.take_append_drop 2 p.segments, patterns_resource p hp hroute]
    rfl
  rw [hsegments] at hmatch
  obtain ⟨a, more, hmore, ha, hmatch⟩ := matchPath_literal hmatch
  obtain ⟨b, rest, rfl, hb, -⟩ := matchPath_literal hmatch
  rw [hmore, List.map_cons, List.map_cons, ha, hb, List.intercalate_cons_cons] at hpath
  cases rest with
  | nil =>
    refine ⟨[], ?_, .inl rfl⟩
    rw [hpath]
    simp [List.intercalate]
    rfl
  | cons c rest =>
    refine ⟨byte '/' :: [byte '/'].intercalate ((c :: rest).map pathUnescape), ?_, .inr rfl⟩
    rw [hpath, List.map_cons, List.intercalate_cons_cons]
    simp [List.append_assoc]
    rfl

theorem append_eq_name {a rest name : GoString} (hname : byte '/' ∉ name)
    (hrest : rest = [] ∨ rest.head? = some (byte '/')) (h : a ++ rest = name) : a = name := by
  cases rest with
  | nil => rw [← h, List.append_nil]
  | cons c rest =>
    have hc : c = byte '/' := by simpa using hrest
    exact absurd (by simp [← h, hc]) hname

theorem route_of_isOpen {r : Request} {handler : Route} {values : List GoString}
    (hopen : isOpen r = true) (h : findHandler patterns r.method r.url = .handle handler values) :
    handler = .assets ∨ handler = .health ∨ handler = .login := by
  by_cases hassets : handler = .assets
  · exact .inl hassets
  obtain ⟨rest, hpath, hrest⟩ := path_of_route h hassets
  obtain ⟨p, hp, rfl, hmethod, -⟩ := findHandler_handle h
  simp only [isOpen, Bool.or_eq_true, Bool.and_eq_true, decide_eq_true_eq] at hopen
  rw [hpath, List.append_assoc] at hopen
  obtain hhealth | ⟨hsession, hget⟩ := hopen
  · have hsplit : str "/api/health" = str "/api/" ++ str "health" := by decide
    rw [hsplit, List.append_right_inj] at hhealth
    have hname := append_eq_name (by decide) hrest hhealth
    exact .inr (.inl ((patterns_session p hp).1 hname))
  · have hsplit : str "/api/session" = str "/api/" ++ str "session" := by decide
    rw [hsplit, List.append_right_inj] at hsession
    have hname := append_eq_name (by decide) hrest hsession
    obtain hlogin | hlogout := (patterns_session p hp).2 hname
    · exact .inr (.inr hlogin)
    · have hdelete := (patterns_method p hp).2 hlogout
      rw [hdelete, hget] at hmethod
      exact absurd hmethod (by decide)

theorem route_of_not_api {r : Request} {handler : Route} {values : List GoString}
    (hapi : hasPrefix r.url.path (str "/api/") = false)
    (h : findHandler patterns r.method r.url = .handle handler values) : handler = .assets := by
  by_contra hassets
  obtain ⟨rest, hpath, -⟩ := path_of_route h hassets
  rw [hpath, List.append_assoc, ← Bool.not_eq_true, hasPrefix_iff] at hapi
  exact hapi (List.prefix_append _ _)

section

variable {F : Type}

/-- The calls that only a request with a session makes. -/
def isProtected : Call F → Bool
  | .authorized _ => false
  | .random => false
  | .enter _ => false
  | .elsewhere .assets _ => false
  | _ => true

def Admits (r : Request) (x : Exchange (Answer (F := F))) : Prop :=
  crossSite r = false ∧ x = ⟨.authorized r.token, true⟩

theorem guards_problem {opens : Exchange (Answer (F := F)) → Prop} {guarded : Call F → Prop}
    (status : Nat) (text : Message) : (problem status text : Handler F).Guards opens guarded :=
  trivial

theorem guards_login (settings : Settings F) (r : Request)
    (opens : Exchange (Answer (F := F)) → Prop) :
    (login settings r).Guards opens (isProtected · = true) := by
  rw [login]
  cases r.credentials with
  | none => exact guards_problem _ _
  | some credentials =>
    dsimp only
    split_ifs
    · exact guards_problem _ _
    · refine ⟨Bool.false_ne_true, ?_⟩
      rintro (e | b)
      · exact .inr (guards_problem _ _)
      · refine .inr ⟨Bool.false_ne_true, ?_⟩
        rintro (_ | _)
        · exact .inr (guards_problem _ _)
        · exact .inr trivial

variable [GoFloat F] [CaseTables]

theorem guards_serveMux {settings : Settings F} {r : Request}
    (hroute : ∀ handler values, findHandler patterns r.method r.url = .handle handler values →
      handler = .assets ∨ handler = .health ∨ handler = .login)
    (opens : Exchange (Answer (F := F)) → Prop) :
    (serveMux settings r).Guards opens (isProtected · = true) := by
  rw [serveMux]
  split
  · rename_i handler values hfind
    obtain rfl | rfl | rfl := hroute handler values hfind
    · exact ⟨Bool.false_ne_true, fun _ => .inr trivial⟩
    · trivial
    · exact guards_login settings r opens
  · trivial
  · trivial

theorem guards_handler (settings : Settings F) (r : Request) :
    (handler settings r).Guards (Admits r) (isProtected · = true) := by
  rw [handler]
  split_ifs with hapi hcross hopen
  · exact guards_problem _ _
  · exact guards_serveMux (fun _ _ h => route_of_isOpen hopen h) _
  · refine ⟨Bool.false_ne_true, ?_⟩
    rintro (_ | _)
    · exact .inr (guards_problem _ _)
    · exact .inl ⟨Bool.eq_false_iff.mpr hcross, rfl⟩
  · exact guards_serveMux (fun _ _ h => .inl (route_of_not_api (Bool.eq_false_iff.mpr hapi) h)) _

variable {settings : Settings F} {db : DB F}
  {s : Serving F}

theorem credentials_of_enter (h : Logged (server settings) (opened db) s) {i : Nat} {m : Moment}
    {token : GoString} {ok : Bool} (hx : .asked i m ⟨.enter token, ok⟩ ∈ s.log) :
    ∃ r q, s.threads[i]? = some (r, q) ∧
      r.credentials = some (str "admin", settings.key) := by
  obtain ⟨r, q, hthread, htalk⟩ := h.thread hx
  refine ⟨r, q, hthread, ?_⟩
  exact (asks_handler (fun _ => True) settings r).of_talk htalk (fun _ _ _ _ => trivial) _
    (mem_exchanges.mpr ⟨m, hx⟩)

/-- Whatever the path of a request looks like and whatever else happens meanwhile: where it reads
or writes anything, its own token was accepted before, while a login had issued it that knew the
key. -/
theorem protected_admitted (settings : Settings F) (db : DB F)
    (es : List (ServerEvent F))
    (hclock : Monotonic (served settings db es).log)
    {before after : List (Step F)} {i : Nat}
    {m : Moment} {x : Exchange (Answer (F := F))}
    (hlog : (served settings db es).log =
      before ++ .asked i m x :: after) (hx : isProtected x.1 = true) :
    ∃ r q d earlier later,
      (served settings db es).threads[i]? = some (r, q) ∧
      crossSite r = false ∧
      before = earlier ++ .asked i d ⟨.authorized r.token, true⟩ :: later ∧
      Live earlier r.token d.instant ∧
      ∀ j l ok, .asked j l ⟨.enter r.token, ok⟩ ∈ earlier → ∃ r' q',
        (served settings db es).threads[j]? = some (r', q') ∧
        r'.credentials = some (str "admin", settings.key) := by
  have h := logged (server settings) (opened db) es
  obtain ⟨r, q, d, _, hthread, hmem, hsite, rfl⟩ :=
    h.opened (fun r => guards_handler settings r) hlog hx
  obtain ⟨earlier, later, rfl⟩ := List.append_of_mem hmem
  rw [List.append_assoc, List.cons_append] at hlog
  refine ⟨r, q, d, earlier, later, hthread, hsite, rfl, ?_, ?_⟩
  · exact (authorized_iff h hlog hclock).mp rfl
  · intro j l ok henter
    exact credentials_of_enter h (by rw [hlog]; exact List.mem_append_left _ henter)

end

section

local instance : CaseTables := asciiTables

def exampleDeletion : List (ServerEvent ℚ) :=
  [.arrive (exampleRequest (str "GET") (str "/api/session") []
      (some (str "admin", str "0123456789abcdef"))),
    .advance 0 (exampleMoment 0), .advance 0 (exampleMoment 0),
    .arrive (exampleRequest (str "DELETE") (str "/api/servers/7") exampleToken none),
    .advance 1 (exampleMoment 1), .advance 1 (exampleMoment 2)]

theorem protected_admitted_example : ∃ before i m x after,
    let s := served exampleSettings emptyDB exampleDeletion
    s.log = before ++ .asked i m x :: after ∧ isProtected x.1 = true ∧
      ∃ r q d earlier later, s.threads[i]? = some (r, q) ∧ crossSite r = false ∧
        before = earlier ++ .asked i d ⟨.authorized r.token, true⟩ :: later ∧
        Live earlier r.token d.instant ∧
        ∀ j l ok, .asked j l ⟨.enter r.token, ok⟩ ∈ earlier → ∃ r' q',
          s.threads[j]? = some (r', q') ∧
          r'.credentials = some (str "admin", exampleSettings.key) := by
  have hclock : Monotonic (served exampleSettings emptyDB exampleDeletion).log := by
    refine monotonic_of_sorted ?_ (by decide +kernel)
    intro i m hm token
    simp only [exampleDeletion, List.mem_cons, List.not_mem_nil, Event.advance.injEq, reduceCtorEq,
      or_false, false_or] at hm
    obtain ⟨-, rfl⟩ | ⟨-, rfl⟩ | ⟨-, rfl⟩ | ⟨-, rfl⟩ := hm <;> rfl
  have hdeleted : (served exampleSettings emptyDB exampleDeletion).log.any (fun
        | .asked _ _ x => isProtected x.1
        | .outside _ => false) = true := by
    decide +kernel
  obtain ⟨entry, hmem, hprotected⟩ := List.any_eq_true.mp hdeleted
  obtain ⟨before, after, hlog⟩ := List.append_of_mem hmem
  cases entry with
  | asked i m x =>
    exact ⟨before, i, m, x, after, hlog, hprotected,
      protected_admitted exampleSettings emptyDB exampleDeletion hclock hlog hprotected⟩
  | outside d => simp at hprotected

end

end DnsMonitor.Httpapi.Admission
