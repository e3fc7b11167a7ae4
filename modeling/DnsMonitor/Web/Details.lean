import DnsMonitor.Store.Clients

namespace DnsMonitor.Web.Details

open DnsMonitor.Model DnsMonitor.Lib DnsMonitor.Lib.Tables DnsMonitor.Lib.Pages
open DnsMonitor.Store.Schema DnsMonitor.Store.Migration DnsMonitor.Store.Run DnsMonitor.Store.Retained
open DnsMonitor.Store.Paging DnsMonitor.Store.Walking DnsMonitor.Store.Clients
open DnsMonitor.Go.Strings DnsMonitor.Go.Unicode DnsMonitor.Go.Errors DnsMonitor.Go.Float

section

variable {F : Type}

/-- A request of `loadResults` under way. -/
structure Sent (F : Type) where
  number : Nat
  id : Option Int
  reset : Bool
  /-- The parameters `before` and `before_id`. The page has them exactly up to 2^53, which times
  in milliseconds and row ids stay below. -/
  before : Option (Int × Int)
  /-- The results in the reply of the server, which the page has not seen yet. -/
  reply : Option (List (StoredResult F))

/-- The store beside what the page keeps in `state` for the dialog. -/
structure View (F : Type) where
  db : DB F
  detailID : Option Int
  results : List (StoredResult F)
  resultEnd : Bool
  loadingResults : Option Int
  resultsRequest : Nat
  sent : List (Sent F)

inductive Action (F : Type) where
  | store (e : Event F)
  | openDetail (id : Int)
  | loadResults (reset : Bool)
  /-- The server answers a request. -/
  | answer (number : Nat)
  /-- The page receives an answer. -/
  | receive (number : Nat)
  /-- A request fails. -/
  | fail (number : Nat)

def loadResults (reset : Bool) (s : View F) : View F :=
  if s.loadingResults = s.detailID then s
  else
    let number := s.resultsRequest + 1
    let last := s.results.getLast?
    let before := if reset then none else last.map fun last => (last.result.timestamp, last.id)
    { s with
      resultsRequest := number
      loadingResults := s.detailID
      sent := s.sent ++ [⟨number, s.detailID, reset, before, none⟩] }

def openDetail (id : Int) (s : View F) : View F :=
  loadResults true { s with detailID := some id, results := [], resultEnd := false }

def reply (db : DB F) (p : Sent F) : Option (List (StoredResult F)) :=
  let cursor := p.before.getD (0, 0)
  p.id.bind fun id =>
    if id ≤ 0 then none else (resultsPage db id 100 cursor.1 cursor.2).toOption

/-- The reply of a request that is still the last one. -/
def accept (p : Sent F) (results : List (StoredResult F)) (s : View F) : View F :=
  if p.id ≠ s.detailID ∨ p.number ≠ s.resultsRequest then s
  else
    { s with
      results := if p.reset then results else s.results ++ results
      resultEnd := results.length < 100 }

def finish (p : Sent F) (s : View F) : View F :=
  { s with
    loadingResults := if p.number = s.resultsRequest then none else s.loadingResults
    sent := s.sent.filter (·.number ≠ p.number) }

def answered (number : Nat) (db : DB F) (p : Sent F) : Sent F :=
  if p.number = number ∧ p.reply = none then { p with reply := reply db p } else p

variable [GoFloat F] [CaseTables]

def step (s : View F) : Action F → View F
  | .store e => { s with db := Store.Run.step s.db e }
  | .openDetail id => openDetail id s
  | .loadResults reset => loadResults reset s
  | .answer number => { s with sent := s.sent.map (answered number s.db) }
  | .receive number =>
    match s.sent.find? (·.number = number) with
    | some p =>
      match p.reply with
      | some results => finish p (accept p results s)
      | none => s
    | none => s
  | .fail number =>
    match s.sent.find? (·.number = number) with
    | some p => finish p s
    | none => s

def start (db : DB F) : View F := ⟨db, none, [], false, none, 0, []⟩

def after (db : DB F) (es : List (Action F)) : View F := Runs.run step (start db) es

theorem after_append (db : DB F) (es : List (Action F)) (e : Action F) :
    after db (es ++ [e]) = step (after db es) e := by
  rw [after, Runs.run_append]
  rfl

omit [GoFloat F] [CaseTables] in
/-- A list begins with the last reply that was accepted to a request without a cursor. -/
def beginning (s : View F) (number : Option Nat) : Action F → Option Nat
  | .receive n =>
    match s.sent.find? (·.number = n) with
    | some p =>
      if p.reply.isSome ∧ p.before = none ∧ p.id = s.detailID ∧ p.number = s.resultsRequest then
        some p.number
      else number
    | none => number
  | _ => number

def began (db : DB F) (es : List (Action F)) : Option Nat :=
  (Runs.run (fun t e => (step t.1 e, beginning t.1 t.2 e)) (start db, none) es).2

theorem began_append (db : DB F) (es : List (Action F)) (e : Action F) :
    began db (es ++ [e]) = beginning (after db es) (began db es) e := by
  have hstate : (Runs.run (fun t e => (step t.1 e, beginning t.1 t.2 e)) (start db, none) es).1 =
      after db es :=
    (List.foldl_hom Prod.fst fun _ _ => rfl).symm
  rw [began, Runs.run_append, ← hstate]
  rfl

/-- After the events `pre` of a run the server gives its reply to a request. -/
def AnsweredAfter (db : DB F) (es pre : List (Action F)) (number : Nat) : Prop :=
  pre ++ [.answer number] <+: es ∧
    ∃ p ∈ (after db pre).sent, p.number = number ∧ p.reply = none ∧
      (reply (after db pre).db p).isSome = true

/-- The dialog was last opened while results of the same server were awaited. -/
def Reopened (db : DB F) (es : List (Action F)) : Prop :=
  ∃ pre id post, es = pre ++ .openDetail id :: post ∧ (after db pre).loadingResults = some id ∧
    ∀ other, .openDetail other ∉ post

end

section

variable {F : Type} {c : Client F} {id : Int} {db₀ : DB F}

def Tracks (c : Client F) : Prop :=
  (c.before, c.beforeID) =
    (c.received.getLast?.map fun last => (last.result.timestamp, last.id)).getD (0, 0)

def Newest (db : DB F) (id : Int) (c : Client F) : Prop :=
  ∀ v, c.received.head? = some v → ∀ r ∈ rowsOf id db, r.timestamp < maxInt64 →
    resultKey r ≤ storedKey v

theorem tracks_page (h : Tracks c) (limit : Int) : Tracks (clientPage id limit c) := by
  unfold clientPage
  split
  · exact h
  · next page hpage =>
    cases hlast : page.getLast? with
    | none =>
      rw [List.getLast?_eq_none_iff.mp hlast]
      simpa [Tracks] using h
    | some last => simp [Tracks, hlast]

theorem received_page (limit : Int) {page : List (StoredResult F)}
    (h : resultsPage c.db id limit c.before c.beforeID = .ok page) :
    (clientPage id limit c).received = c.received ++ page ∧ (clientPage id limit c).db = c.db ∧
      (clientPage id limit c).finished = (c.finished || decide (page.length < pageLimit limit)) := by
  unfold clientPage
  rw [h]
  dsimp only
  split <;> exact ⟨rfl, rfl, rfl⟩

theorem finished_of_short {page : List (StoredResult F)} {finished : Bool}
    (h : finished = (c.finished || decide (page.length < pageLimit 100)))
    (hshort : page.length < 100) : finished = true := by
  have hlimit : pageLimit 100 = 100 := by decide
  rw [h, hlimit, decide_eq_true (Nat.cast_lt_ofNat.mpr hshort), Bool.or_true]

theorem newest_fresh (h : Served db₀ id (fresh db₀)) : Newest db₀ id (clientPage id 100 (fresh db₀)) := by
  obtain ⟨page, rows, hpage, hrows, hkeys⟩ := h.page_ok 100
  intro v hv r hr hlt
  rw [(received_page 100 hpage).1] at hv
  have hhead : (page.map storedKey).head? = some (storedKey v) := by
    rw [List.head?_map]
    exact congrArg _ hv
  rw [hkeys, hrows] at hhead
  apply le_head_top hhead
  refine List.mem_filter.mpr ⟨hr, decide_eq_true ?_⟩
  exact Prod.Lex.toLex_lt_toLex.mpr (.inl hlt)

end

section

variable {F : Type} [GoFloat F] [CaseTables] {db now : DB F} {es : List (Action F)} {id : Int}
  {c : Client F} {n number : Nat} {list : List (StoredResult F)} {es' : List (Action F)}

/-- A list as the end of what a client has received that began with a request of the run. -/
structure Traced (db : DB F) (es : List (Action F)) (number : Nat) (id : Int) (now : DB F)
    (c : Client F) (n : Nat) (list : List (StoredResult F)) : Prop where
  began : ∃ pre, AnsweredAfter db es pre number ∧ Served (after db pre).db id c ∧
    Newest (after db pre).db id c
  tracks : Tracks c
  now : c.db = now
  rest : c.received.drop n = list
  within : n ≤ c.received.length
  whole : n = 0 ∨ Reopened db es
  known : ∀ v ∈ list, ∃ pre, pre <+: es ∧ ∃ r ∈ rowsOf id (after db pre).db,
    resultKey r = storedKey v

theorem AnsweredAfter.append {pre : List (Action F)} (h : AnsweredAfter db es pre number)
    (e : Action F) : AnsweredAfter db (es ++ [e]) pre number :=
  ⟨h.1.trans (List.prefix_append _ _), h.2⟩

theorem Traced.append (h : Traced db es number id now c n list) {e : Action F}
    (hwhole : Reopened db es → Reopened db (es ++ [e])) :
    Traced db (es ++ [e]) number id now c n list where
  began := by
    obtain ⟨pre, hpre, hserved⟩ := h.began
    exact ⟨pre, hpre.append e, hserved⟩
  tracks := h.tracks
  now := h.now
  rest := h.rest
  within := h.within
  whole := h.whole.imp_right hwhole
  known v hv := by
    obtain ⟨pre, hpre, hr⟩ := h.known v hv
    exact ⟨pre, hpre.trans (List.prefix_append _ _), hr⟩

theorem reopened_append {e : Action F} (h : Reopened db es) (he : ∀ id, e ≠ .openDetail id) :
    Reopened db (es ++ [e]) := by
  obtain ⟨pre, id, post, rfl, hloading, hpost⟩ := h
  refine ⟨pre, id, post ++ [e], by simp, hloading, fun other hmem => ?_⟩
  cases List.mem_append.mp hmem with
  | inl hmem => exact hpost other hmem
  | inr hmem => exact he other (List.mem_singleton.mp hmem).symm

theorem Traced.store (h : Traced db es number id now c n list) (hl : Listed now)
    (hp : AllRows IsPositive now) {e : Event F} (he : PositiveTimes e) :
    Traced db es number id (Store.Run.step now e) { c with db := Store.Run.step now e } n list where
  began := by
    obtain ⟨pre, hpre, hserved, hnewest⟩ := h.began
    obtain ⟨hl', hlater⟩ := listed_step hl e
    exact ⟨pre, hpre, hserved.store hl' (h.now ▸ hlater) (positive_step hp he), hnewest⟩
  tracks := h.tracks
  now := rfl
  rest := h.rest
  within := h.within
  whole := h.whole
  known := h.known

theorem known_page (hserved : Served db₀ id c) (hnow : c.db = (after db es).db)
    {page : List (StoredResult F)} (hpage : resultsPage c.db id 100 c.before c.beforeID = .ok page)
    {v : StoredResult F} (hv : v ∈ page) : ∃ pre, pre <+: es ∧
      ∃ r ∈ rowsOf id (after db pre).db, resultKey r = storedKey v := by
  obtain ⟨page', rows, hpage', hrows, hkeys⟩ := hserved.page_ok 100
  obtain rfl : page = page' := Except.ok.inj (hpage.symm.trans hpage')
  obtain ⟨r, hr, hk⟩ := List.mem_map.mp (hkeys ▸ List.mem_map_of_mem hv)
  exact ⟨es, List.prefix_rfl, r, hnow ▸ (mem_page (hrows ▸ hr)).1, hk⟩

theorem traced_first (hanswered : AnsweredAfter db es es' number)
    (hsame : (after db es).db = (after db es').db) (hl : Listed (after db es').db)
    (hp : AllRows IsPositive (after db es').db) {page : List (StoredResult F)}
    (hpage : resultsPage (after db es').db id 100 0 0 = .ok page) : ∃ c,
      Traced db es number id (after db es').db c 0 page ∧
        (page.length < 100 → c.finished = true) := by
  have hserved : Served (after db es').db id (fresh (after db es').db) :=
    served_fresh hl fun r hr => timestamp_pos hl hp hr
  obtain ⟨hreceived, hdb, hfinished⟩ :=
    received_page (c := fresh (after db es').db) 100 hpage
  refine ⟨clientPage id 100 (fresh (after db es').db), ⟨?_, ?_, hdb, hreceived, Nat.zero_le _,
    .inl rfl, fun v hv => ?_⟩, finished_of_short hfinished⟩
  · exact ⟨es', hanswered, hserved.page 100, newest_fresh hserved⟩
  · exact tracks_page (c := fresh (after db es').db) rfl 100
  · exact known_page hserved hsame.symm hpage hv

theorem Traced.page (h : Traced db es number id (after db es).db c n list) (hne : c.received ≠ [])
    {page : List (StoredResult F)}
    (hpage : resultsPage (after db es).db id 100 c.before c.beforeID = .ok page) :
    Traced db es number id (after db es).db (clientPage id 100 c) n (list ++ page) ∧
      (page.length < 100 → (clientPage id 100 c).finished = true) := by
  rw [← h.now] at hpage
  obtain ⟨hreceived, hdb, hfinished⟩ := received_page 100 hpage
  obtain ⟨pre, hpre, hserved, hnewest⟩ := h.began
  refine ⟨⟨⟨pre, hpre, hserved.page 100, fun v hv => hnewest v ?_⟩, tracks_page h.tracks 100,
    hdb.trans h.now, ?_, ?_, h.whole, fun v hv => ?_⟩, finished_of_short hfinished⟩
  · rwa [hreceived, List.head?_append_of_ne_nil _ hne] at hv
  · rw [hreceived, List.drop_append_of_le_length h.within, h.rest]
  · rw [hreceived, List.length_append]
    exact h.within.trans (Nat.le_add_right _ _)
  · cases List.mem_append.mp hv with
    | inl hv => exact h.known v hv
    | inr hv => exact known_page hserved h.now hpage hv

theorem Traced.clear (h : Traced db es number id now c n list) (hr : Reopened db es) :
    Traced db es number id now c c.received.length [] where
  began := h.began
  tracks := h.tracks
  now := h.now
  rest := List.drop_length
  within := le_rfl
  whole := .inr hr
  known v hv := by cases hv

theorem Traced.cut {front : List (StoredResult F)}
    (h : Traced db es number id now c n (front ++ list)) (hr : Reopened db es) :
    Traced db es number id now c (n + front.length) list where
  began := h.began
  tracks := h.tracks
  now := h.now
  rest := by rw [← List.drop_drop, h.rest, List.drop_left]
  within := by
    have hlen := congrArg List.length h.rest
    rw [List.length_drop, List.length_append] at hlen
    have hwithin := h.within
    omega
  whole := .inr hr
  known v hv := h.known v (List.mem_append_right _ hv)

def origin (b : Option Nat) (p : Sent F) : Option Nat := if p.before = none then some p.number else b

/-- What a request will bring that the page waits for. -/
structure Awaited (db : DB F) (es : List (Action F)) (b : Option Nat) (s : View F) (id : Int)
    (p : Sent F) : Prop where
  replied : ∀ results, p.reply = some results → ∃ number c n, origin b p = some number ∧
    Traced db es number id s.db c n (if p.reset then results else s.results ++ results) ∧
      (results.length < 100 → c.finished = true)
  waiting : p.reply = none → p.before = none ∧ (p.reset = true ∨ s.results = []) ∨
    p.reset = false ∧ ∃ number c n, b = some number ∧ Traced db es number id s.db c n s.results ∧
      c.received ≠ [] ∧ p.before = some (c.before, c.beforeID)

/-- The list of the dialog has not begun, or with a request of the run. -/
def Begun (db : DB F) (es : List (Action F)) (b : Option Nat) (s : View F) (id : Int) : Prop :=
  (s.results = [] ∧ s.resultEnd = false) ∨ ∃ number c n, b = some number ∧
    Traced db es number id s.db c n s.results ∧ (s.resultEnd = true → c.finished = true)

structure Inv (db : DB F) (es : List (Action F)) (b : Option Nat) (s : View F) : Prop where
  listed : Listed s.db
  positive : AllRows IsPositive s.db
  numbers : ∀ p ∈ s.sent, p.number ≤ s.resultsRequest
  closed : s.detailID = none → s.results = []
  loading : ∀ id, s.loadingResults = some id →
    s.detailID = some id ∧ ∃ p ∈ s.sent, p.number = s.resultsRequest
  shown : ∀ id, s.detailID = some id → Begun db es b s id
  live : ∀ p ∈ s.sent, p.number = s.resultsRequest →
    ∃ id, p.id = some id ∧ s.loadingResults = some id ∧ Awaited db es b s id p

variable {s : View F} {b : Option Nat}

theorem Traced.last (h : Traced db es number id now c n list) {last : StoredResult F}
    (hlast : list.getLast? = some last) :
    c.received ≠ [] ∧ (c.before, c.beforeID) = (last.result.timestamp, last.id) := by
  rw [← h.rest, List.getLast?_drop] at hlast
  split_ifs at hlast
  refine ⟨?_, ?_⟩
  · rintro hnil
    rw [hnil] at hlast
    cases hlast
  · have htracks := h.tracks
    rw [Tracks, hlast] at htracks
    exact htracks

theorem inv_send (hlisted : Listed s.db) (hpositive : AllRows IsPositive s.db)
    (hnumbers : ∀ p ∈ s.sent, p.number ≤ s.resultsRequest) (hid : s.detailID = some id)
    (hidle : s.loadingResults ≠ some id)
    (hshown : Begun db es b s id) (reset : Bool) : Inv db es b (loadResults reset s) := by
  rw [loadResults, if_neg (hid ▸ hidle)]
  refine ⟨hlisted, hpositive, ?_, ?_, ?_, ?_, ?_⟩
  · intro p hp
    cases List.mem_append.mp hp with
    | inl hp => exact (hnumbers p hp).trans (Nat.le_succ _)
    | inr hp => rw [List.mem_singleton.mp hp]
  · intro hnone
    cases hid.symm.trans hnone
  · intro other hother
    exact ⟨hother, _, List.mem_append_right _ (List.mem_singleton_self _), rfl⟩
  · intro other hother
    obtain rfl := Option.some.inj (hid.symm.trans hother)
    exact hshown
  · intro p hp hlive
    cases List.mem_append.mp hp with
    | inl hp =>
      have hold := hnumbers p hp
      dsimp only at hlive
      omega
    | inr hp =>
      rw [List.mem_singleton.mp hp]
      refine ⟨id, hid, hid, fun results hreply => (by cases hreply), fun _ => ?_⟩
      cases reset with
      | true => exact .inl ⟨rfl, .inl rfl⟩
      | false =>
        cases hlast : s.results.getLast? with
        | none => exact .inl ⟨by simp, .inr (List.getLast?_eq_none_iff.mp hlast)⟩
        | some last =>
          obtain ⟨hnil, -⟩ | ⟨number, c, n, hb, htraced, -⟩ := hshown
          · rw [hnil] at hlast
            cases hlast
          · obtain ⟨hne, hcursor⟩ := htraced.last hlast
            exact .inr ⟨rfl, number, c, n, hb, htraced, hne, by simp [hcursor]⟩

theorem Awaited.append {p : Sent F} (h : Awaited db es b s id p) {e : Action F}
    (hwhole : Reopened db es → Reopened db (es ++ [e])) : Awaited db (es ++ [e]) b s id p where
  replied results hreply := by
    obtain ⟨number, c, n, hb, htraced, hfinished⟩ := h.replied results hreply
    exact ⟨number, c, n, hb, htraced.append hwhole, hfinished⟩
  waiting hreply := by
    refine (h.waiting hreply).imp_right fun ⟨hreset, number, c, n, hb, htraced, hrest⟩ => ?_
    exact ⟨hreset, number, c, n, hb, htraced.append hwhole, hrest⟩

theorem Inv.append (h : Inv db es b s) {e : Action F} (he : ∀ id, e ≠ .openDetail id) :
    Inv db (es ++ [e]) b s where
  listed := h.listed
  positive := h.positive
  numbers := h.numbers
  closed := h.closed
  loading := h.loading
  shown id hid := by
    refine (h.shown id hid).imp_right fun ⟨number, c, n, hb, htraced, hfinished⟩ => ?_
    exact ⟨number, c, n, hb, htraced.append fun hr => reopened_append hr he, hfinished⟩
  live p hp hlive := by
    obtain ⟨id, hid, hloading, hawaited⟩ := h.live p hp hlive
    exact ⟨id, hid, hloading, hawaited.append fun hr => reopened_append hr he⟩

theorem inv_store (h : Inv db es b s) {e : Event F} (he : PositiveTimes e) :
    Inv db es b { s with db := Store.Run.step s.db e } where
  listed := (listed_step h.listed e).1
  positive := positive_step h.positive he
  numbers := h.numbers
  closed := h.closed
  loading := h.loading
  shown id hid := by
    refine (h.shown id hid).imp_right fun ⟨number, c, n, hb, htraced, hfinished⟩ => ?_
    exact ⟨number, _, n, hb, htraced.store h.listed h.positive he, hfinished⟩
  live p hp hlive := by
    obtain ⟨id, hid, hloading, hawaited⟩ := h.live p hp hlive
    refine ⟨id, hid, hloading, fun results hreply => ?_, fun hreply => ?_⟩
    · obtain ⟨number, c, n, hb, htraced, hfinished⟩ := hawaited.replied results hreply
      exact ⟨number, _, n, hb, htraced.store h.listed h.positive he, hfinished⟩
    · refine (hawaited.waiting hreply).imp_right fun ⟨hreset, number, c, n, hb, htraced, hrest⟩ => ?_
      exact ⟨hreset, number, _, n, hb, htraced.store h.listed h.positive he, hrest⟩

theorem inv_loadResults (h : Inv db es b s) (reset : Bool) : Inv db es b (loadResults reset s) := by
  by_cases hidle : s.loadingResults = s.detailID
  · rwa [loadResults, if_pos hidle]
  · cases hid : s.detailID with
    | none =>
      -- nothing is loaded before the dialog opens for the first time
      obtain ⟨id, hloading⟩ := Option.ne_none_iff_exists'.mp (hid ▸ hidle)
      cases hid.symm.trans (h.loading id hloading).1
    | some id =>
      exact inv_send h.listed h.positive h.numbers hid (hid ▸ hidle) (h.shown id hid) reset

theorem inv_openDetail (h : Inv db es b s) (hloading : s.loadingResults = (after db es).loadingResults) :
    Inv db (es ++ [.openDetail id]) b (openDetail id s) := by
  by_cases hidle : s.loadingResults = some id
  · have hreopened : Reopened db (es ++ [.openDetail id]) :=
      ⟨es, id, [], rfl, hloading ▸ hidle, by simp⟩
    rw [openDetail, loadResults, if_pos hidle]
    refine ⟨h.listed, h.positive, h.numbers, fun _ => rfl, ?_, ?_, ?_⟩
    · intro other hother
      obtain rfl := Option.some.inj (hidle.symm.trans hother)
      exact ⟨rfl, (h.loading id hidle).2⟩
    · exact fun other _ => .inl ⟨rfl, rfl⟩
    · intro p hp hlive
      obtain ⟨other, hother, hwaits, hawaited⟩ := h.live p hp hlive
      obtain rfl := Option.some.inj (hidle.symm.trans hwaits)
      refine ⟨id, hother, hidle, fun results hreply => ?_, fun hreply => ?_⟩
      · obtain ⟨number, c, n, hb, htraced, hfinished⟩ := hawaited.replied results hreply
        have htraced := htraced.append fun _ => hreopened
        cases hreset : p.reset with
        | true =>
          rw [hreset] at htraced
          exact ⟨number, c, n, hb, htraced, hfinished⟩
        | false =>
          rw [hreset] at htraced
          exact ⟨number, c, n + s.results.length, hb, htraced.cut hreopened, hfinished⟩
      · refine (hawaited.waiting hreply).imp (fun hbefore => ⟨hbefore.1, .inr rfl⟩) ?_
        rintro ⟨hreset, number, c, n, hb, htraced, hne, hbefore⟩
        exact ⟨hreset, number, c, _, hb, (htraced.append fun _ => hreopened).clear hreopened, hne,
          hbefore⟩
  · exact inv_send (s := { s with detailID := some id, results := [], resultEnd := false })
      h.listed h.positive h.numbers rfl hidle (.inl ⟨rfl, rfl⟩) true

omit [GoFloat F] [CaseTables] in
theorem reply_eq_some {p : Sent F} {results : List (StoredResult F)} (hid : p.id = some id)
    (h : reply now p = some results) :
    resultsPage now id 100 (p.before.getD (0, 0)).1 (p.before.getD (0, 0)).2 = .ok results := by
  simp only [reply, hid, Option.bind_some] at h
  split_ifs at h
  cases hpage : resultsPage now id 100 (p.before.getD (0, 0)).1 (p.before.getD (0, 0)).2 with
  | error err =>
    rw [hpage] at h
    cases h
  | ok page =>
    rw [hpage] at h
    exact congrArg _ (Option.some.inj h)

theorem Awaited.answer {p : Sent F} (h : Awaited db es b s id p) (hid : p.id = some id)
    (hs : s = after db es) (hp : p ∈ s.sent) (hl : Listed s.db) (hpositive : AllRows IsPositive s.db)
    {number : Nat} (hstep : ∀ i, (Action.answer number : Action F) ≠ .openDetail i) :
    Awaited db (es ++ [.answer number]) b s id (answered number s.db p) := by
  have hnow : (after db (es ++ [.answer number])).db = (after db es).db := by
    rw [after_append, step]
  have happend := h.append (e := .answer number) fun hr => reopened_append hr hstep
  unfold answered
  split_ifs with hturn
  · obtain ⟨rfl, hnone⟩ := hturn
    refine ⟨fun results hreply => ?_, fun _ => happend.waiting hnone⟩
    have hpage := reply_eq_some hid hreply
    cases happend.waiting hnone with
    | inl hfirst =>
      obtain ⟨hbefore, hlist⟩ := hfirst
      rw [hbefore, hs] at hpage
      have hanswered : AnsweredAfter db (es ++ [.answer p.number]) es p.number := by
        refine ⟨List.prefix_rfl, p, hs ▸ hp, rfl, hnone, ?_⟩
        rw [← hs, show reply s.db p = some results from hreply]
        rfl
      obtain ⟨c, htraced, hfinished⟩ := traced_first hanswered hnow (hs ▸ hl) (hs ▸ hpositive) hpage
      have hsame : (if p.reset then results else s.results ++ results) = results := by
        obtain hreset | hnil := hlist
        · simp [hreset]
        · simp [hnil]
      refine ⟨p.number, c, 0, if_pos hbefore, ?_, hfinished⟩
      rw [hsame, hs]
      exact htraced
    | inr hmore =>
      obtain ⟨hreset, other, c, n, hb, htraced, hne, hbefore⟩ := hmore
      rw [hbefore] at hpage
      rw [hs, ← hnow] at htraced hpage
      obtain ⟨hnext, hfinished⟩ := htraced.page hne hpage
      refine ⟨other, _, n, ?_, ?_, hfinished⟩
      · rw [origin, hbefore, if_neg nofun]
        exact hb
      · rw [hnow, ← hs] at hnext
        simpa only [hreset, Bool.false_eq_true, if_false] using hnext
  · exact happend

theorem inv_answer (h : Inv db es b s) (hs : s = after db es) (number : Nat) :
    Inv db (es ++ [.answer number]) b { s with sent := s.sent.map (answered number s.db) } := by
  have hstep : ∀ id, (Action.answer number : Action F) ≠ .openDetail id := nofun
  have happend := h.append hstep
  have hkeep : ∀ p : Sent F, (answered number s.db p).number = p.number ∧
      (answered number s.db p).id = p.id := by
    intro p
    unfold answered
    split_ifs <;> exact ⟨rfl, rfl⟩
  refine ⟨h.listed, h.positive, ?_, h.closed, ?_, happend.shown, ?_⟩
  · intro q hq
    obtain ⟨p, hp, rfl⟩ := List.mem_map.mp hq
    exact (hkeep p).1 ▸ h.numbers p hp
  · intro id hid
    obtain ⟨hdetail, p, hp, hlive⟩ := h.loading id hid
    exact ⟨hdetail, _, List.mem_map_of_mem hp, (hkeep p).1.trans hlive⟩
  · intro q hq hlive
    obtain ⟨p, hp, rfl⟩ := List.mem_map.mp hq
    obtain ⟨id, hid, hloading, hawaited⟩ := h.live p hp ((hkeep p).1.symm.trans hlive)
    obtain ⟨hreplied, hwaiting⟩ := hawaited.answer hid hs hp h.listed h.positive hstep
    exact ⟨id, (hkeep p).2.trans hid, hloading, hreplied, hwaiting⟩

theorem inv_finish (h : Inv db es b s) (p : Sent F) : Inv db es b (finish p s) := by
  refine ⟨h.listed, h.positive, fun q hq => h.numbers q (List.mem_of_mem_filter hq), h.closed, ?_,
    h.shown, ?_⟩
  · intro id hid
    dsimp only [finish] at hid ⊢
    split_ifs at hid with hlast
    obtain ⟨hdetail, q, hq, hlive⟩ := h.loading id hid
    exact ⟨hdetail, q, List.mem_filter.mpr ⟨hq, by simp [hlive, Ne.symm hlast]⟩, hlive⟩
  · intro q hq hlive
    obtain ⟨hq, hother⟩ := List.mem_filter.mp hq
    obtain ⟨id, hid, hloading, hawaited⟩ := h.live q hq hlive
    have hne : p.number ≠ s.resultsRequest := by
      rintro heq
      exact (of_decide_eq_true hother) (hlive.trans heq.symm)
    exact ⟨id, hid, by simpa [finish, hne] using hloading, ⟨hawaited.replied, hawaited.waiting⟩⟩

theorem inv_receive (h : Inv db es b s) {p : Sent F} (hp : p ∈ s.sent)
    {results : List (StoredResult F)} (hreply : p.reply = some results) :
    Inv db es (if p.before = none ∧ p.id = s.detailID ∧ p.number = s.resultsRequest then
      some p.number else b) (finish p (accept p results s)) := by
  by_cases hlate : p.id ≠ s.detailID ∨ p.number ≠ s.resultsRequest
  · rw [accept, if_pos hlate, if_neg (by tauto)]
    exact inv_finish h p
  · rw [accept, if_neg hlate]
    rw [not_or, not_not, not_not] at hlate
    obtain ⟨id, hid, -, hawaited⟩ := h.live p hp hlate.2
    have hdetail : s.detailID = some id := hlate.1.symm.trans hid
    refine ⟨h.listed, h.positive, fun q hq => h.numbers q (List.mem_of_mem_filter hq), ?_, ?_, ?_,
      ?_⟩
    · intro hnone
      cases hdetail.symm.trans hnone
    · intro other hother
      simp [finish, hlate.2] at hother
    · intro other hother
      obtain rfl := Option.some.inj (hdetail.symm.trans hother)
      obtain ⟨number, c, n, hb, htraced, hfinished⟩ := hawaited.replied results hreply
      refine .inr ⟨number, c, n, ?_, htraced, fun hend => hfinished (of_decide_eq_true hend)⟩
      rw [origin] at hb
      simpa only [hlate, and_true] using hb
    · intro q hq hlive
      obtain ⟨-, hother⟩ := List.mem_filter.mp hq
      exact absurd (hlive.trans hlate.2.symm) (of_decide_eq_true hother)

def PositiveStore : Action F → Prop
  | .store e => PositiveTimes e
  | _ => True

theorem inv_after (hl : Listed db) (hp : ∀ r ∈ db.results, 0 < r.timestamp)
    (hes : ∀ e ∈ es, PositiveStore e) : Inv db es (began db es) (after db es) := by
  induction es using List.reverseRecOn with
  | nil =>
    refine ⟨hl, positive_of_timestamps hl hp, ?_, fun _ => rfl, nofun, nofun, ?_⟩
    · intro p hmem
      cases hmem
    · intro p hmem
      cases hmem
  | append_singleton es e ih =>
    have h := ih fun e he => hes e (List.mem_append_left _ he)
    have he := hes e (List.mem_append_right _ (List.mem_singleton_self e))
    rw [after_append, began_append]
    cases e with
    | store e => exact inv_store (h.append (by simp)) he
    | openDetail id => exact inv_openDetail h rfl
    | loadResults reset => exact inv_loadResults (h.append (by simp)) reset
    | answer number => exact inv_answer h rfl number
    | receive number =>
      rw [step, beginning]
      cases hfind : (after db es).sent.find? (·.number = number) with
      | none => exact h.append (by simp)
      | some p =>
        cases hreply : p.reply with
        | none => simpa [hreply] using h.append (e := .receive number) (by simp)
        | some results =>
          have hreceive := inv_receive (h.append (e := .receive number) (by simp))
            (List.mem_of_find?_eq_some hfind) hreply
          simpa [hreply] using hreceive
    | fail number =>
      rw [step]
      split
      · next p hfind => exact inv_finish (h.append (by simp)) p
      · exact h.append (by simp)

/-- What the dialog of a server shows, in a state of the page. -/
structure Shown (db : DB F) (es : List (Action F)) (id : Int) (s : View F) : Prop where
  descending : (s.results.map storedKey).Pairwise fun k l => l < k
  once : (s.results.map (·.id)).Nodup
  known : ∀ v ∈ s.results, ∃ pre, pre <+: es ∧ ∃ r ∈ (after db pre).db.results,
    r.serverID = id ∧ r.timestamp = v.result.timestamp ∧ r.id = v.id
  whole : (s.results = [] ∧ s.resultEnd = false) ∨ ∃ number pre, began db es = some number ∧
    AnsweredAfter db es pre number ∧
    (¬ Reopened db es → ∀ v, s.results.head? = some v → ∀ r ∈ (after db pre).db.results,
      r.serverID = id → r.timestamp < maxInt64 → resultKey r ≤ storedKey v) ∧
    ∀ r ∈ s.db.results, r.serverID = id → r.timestamp < maxInt64 →
      r.id ≤ (after db pre).db.resultSeq →
      (s.resultEnd = true ∨ ∃ v ∈ s.results, storedKey v ≤ resultKey r) →
      (¬ Reopened db es ∨ ∃ v ∈ s.results, resultKey r ≤ storedKey v) →
      ∃ v ∈ s.results, v.id = r.id
  waits : ∀ other, s.loadingResults = some other →
    other = id ∧ ∃ p ∈ s.sent, p.number = s.resultsRequest

theorem Traced.mem (h : Traced db es number id now c n list) (hw : c.received.map storedKey |>.Pairwise
    fun k l => l < k) {v : StoredResult F} (hv : v ∈ c.received)
    (habove : ¬ Reopened db es ∨ ∃ u ∈ list, storedKey v ≤ storedKey u) : v ∈ list := by
  have hwhole : n = 0 → v ∈ list := by
    rintro rfl
    exact h.rest ▸ hv
  obtain hno | ⟨u, hu, hle⟩ := habove
  · exact hwhole (h.whole.resolve_right hno)
  · rw [← List.take_append_drop n c.received, h.rest] at hv hw
    cases List.mem_append.mp hv with
    | inr hv => exact hv
    | inl hv =>
      rw [List.map_append, List.pairwise_append] at hw
      have hlt := hw.2.2 _ (List.mem_map_of_mem hv) _ (List.mem_map_of_mem hu)
      exact absurd hle (not_le.mpr hlt)

theorem Traced.complete (h : Traced db es number id now c n list) {ended : Bool}
    (hended : ended = true → c.finished = true) {db₀ : DB F} (hserved : Served db₀ id c)
    {r : ResultRow F} (hr : r ∈ now.results) (hserver : r.serverID = id)
    (hlt : r.timestamp < maxInt64) (hseq : r.id ≤ db₀.resultSeq)
    (hbelow : ended = true ∨ ∃ v ∈ list, storedKey v ≤ resultKey r)
    (habove : ¬ Reopened db es ∨ ∃ v ∈ list, resultKey r ≤ storedKey v) :
    ∃ v ∈ list, v.id = r.id := by
  have hrow : r ∈ rowsOf id c.db := List.mem_filter.mpr ⟨h.now ▸ hr, decide_eq_true hserver⟩
  have hwanted : Wanted db₀ (resultKey r) := ⟨hlt, hseq⟩
  have hreceived : resultKey r ∈ c.received.map storedKey := by
    cases hbelow with
    | inl hend => exact hserved.finished (hended hend) r hrow hwanted
    | inr hlower =>
      obtain ⟨v, hv, hle⟩ := hlower
      refine (hserved.progress.rest r hrow hwanted).resolve_right fun hcursor => ?_
      have hv' : v ∈ c.received := List.mem_of_mem_drop (h.rest.symm ▸ hv)
      have hreach := hserved.progress.above _ (List.mem_map_of_mem hv')
      exact absurd (hcursor.trans_le hreach) (not_lt.mpr hle)
  obtain ⟨u, hu, hk⟩ := List.mem_map.mp hreceived
  exact ⟨u, h.mem hserved.progress.descending hu (hk.symm ▸ habove), (storedKey_eq hk).2⟩

/-- However the answers come in and whatever is stored meanwhile: the dialog shows results of its
own server, each once and from the newest on, and none is missing between the first and the last.
None is missing before the first either, if nothing was awaited for the server when the dialog
opened; and it never waits for a request that is not on its way. -/
theorem details_shown (legacy : Legacy F) (hlegacy : Listed legacy.db) (calls : List (Event F))
    (hdb : db = Runs.run Store.Run.step (openStore legacy) calls)
    (hpositive : ∀ r ∈ db.results, 0 < r.timestamp) (hes : ∀ e ∈ es, PositiveStore e)
    (hid : (after db es).detailID = some id) : Shown db es id (after db es) := by
  have hlisted : Listed db := hdb ▸ listed_run (listed_migrate hlegacy) calls
  have h := inv_after hlisted hpositive hes
  have hwaits : ∀ other, (after db es).loadingResults = some other → other = id ∧
      ∃ p ∈ (after db es).sent, p.number = (after db es).resultsRequest := by
    intro other hother
    obtain ⟨hdetail, hlive⟩ := h.loading other hother
    exact ⟨Option.some.inj (hdetail.symm.trans hid), hlive⟩
  obtain hempty | ⟨number, c, n, hbegan, htraced, hended⟩ := h.shown id hid
  · refine ⟨?_, ?_, ?_, .inl hempty, hwaits⟩
    · simp [hempty.1]
    · simp [hempty.1]
    · simp [hempty.1]
  · obtain ⟨pre, hpre, hserved, hnewest⟩ := htraced.began
    have hrest : (after db es).results.Sublist c.received := htraced.rest ▸ List.drop_sublist _ _
    refine ⟨?_, ?_, ?_, .inr ⟨number, pre, hbegan, hpre, ?_, ?_⟩, hwaits⟩
    · exact hserved.progress.descending.sublist (hrest.map storedKey)
    · exact hserved.once.sublist (hrest.map (·.id))
    · intro v hv
      obtain ⟨pre, hpre, r, hr, hk⟩ := htraced.known v hv
      obtain ⟨hr, hserver⟩ := List.mem_filter.mp hr
      obtain ⟨ht, hrid⟩ := storedKey_eq hk.symm
      exact ⟨pre, hpre, r, hr, of_decide_eq_true hserver, ht.symm, hrid.symm⟩
    · intro hno v hv r hr hserver hlt
      obtain rfl := htraced.whole.resolve_right hno
      rw [← htraced.rest] at hv
      exact hnewest v hv r (List.mem_filter.mpr ⟨hr, decide_eq_true hserver⟩) hlt
    · intro r hr hserver hlt hseq
      exact htraced.complete hended hserved hr hserver hlt hseq

end

section

local instance : CaseTables := asciiTables

def openedRun : List (Action ℚ) :=
  [.openDetail 1, .answer 1, .receive 1, .loadResults false, .answer 2, .receive 2]

/-- Results of two moments, of which the later ones do not fill a page. -/
def twoMoments : List Int := List.replicate 60 9 ++ List.replicate 45 7

theorem details_shown_opened :
    ((after (datedStore twoMoments) openedRun).results.map (·.result.timestamp) = twoMoments ∧
      (after (datedStore twoMoments) openedRun).detailID = some 1) ∧
      Shown (datedStore twoMoments) openedRun 1 (after (datedStore twoMoments) openedRun) := by
  have hes : ∀ e ∈ openedRun, PositiveStore e := by
    simp [openedRun, PositiveStore]
  have hrun : (after (datedStore twoMoments) openedRun).results.map (·.result.timestamp) =
      twoMoments ∧ (after (datedStore twoMoments) openedRun).detailID = some 1 := by
    decide +kernel
  exact ⟨hrun, details_shown emptyLegacy listed_emptyLegacy _ rfl (by decide +kernel) hes hrun.2⟩

end

end DnsMonitor.Web.Details
