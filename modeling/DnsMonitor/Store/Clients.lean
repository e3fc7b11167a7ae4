import DnsMonitor.Store.Walking

namespace DnsMonitor.Store.Clients

open DnsMonitor.Model DnsMonitor.Lib DnsMonitor.Lib.Tables DnsMonitor.Lib.Pages
open DnsMonitor.Store.Schema DnsMonitor.Store.Rounds DnsMonitor.Store.Cleanup
open DnsMonitor.Store.Migration DnsMonitor.Store.Run DnsMonitor.Store.Retained
open DnsMonitor.Store.Paging DnsMonitor.Store.Walking
open DnsMonitor.Go.Strings DnsMonitor.Go.Unicode DnsMonitor.Go.Errors DnsMonitor.Go.Float

section

variable {F : Type} {db db' : DB F}

def IsPositive (r : ResultRow F) : Prop := ∀ raw, r.rawJSON = some raw → 0 < raw.timestamp

theorem positive_rule : RowRule (F := F) IsPositive where
  congr h hraw _ raw hr := h raw (hraw ▸ hr)
  pruned before {r} h raw hr := by
    obtain ⟨raw₀, hraw₀, rfl⟩ := Option.map_eq_some_iff.mp hr
    exact h raw₀ hraw₀

/-- The results of a round to save are not dated before the epoch; those without a time get the
one of the round. -/
def PositiveTimes (e : Event F) : Prop := ∀ v, e = .saveRound v → ∀ r ∈ v.results, 0 ≤ r.timestamp

theorem timestamp_pos (h : Listed db) (hp : AllRows IsPositive db) {r : ResultRow F}
    (hr : r ∈ db.results) : 0 < r.timestamp := by
  obtain ⟨raw, hraw, ht⟩ := Option.map_eq_some_iff.mp (h.decoded r hr)
  exact ht ▸ hp r hr raw hraw

theorem positive_of_timestamps (h : Listed db) (ht : ∀ r ∈ db.results, 0 < r.timestamp) :
    AllRows IsPositive db := by
  intro r hr raw hraw
  have hd := h.decoded r hr
  rw [hraw, Option.map_some, Option.some.injEq] at hd
  exact hd ▸ ht r hr

variable [GoFloat F] [CaseTables]

theorem positive_step (h : AllRows IsPositive db) {e : Event F} (he : PositiveTimes e) :
    AllRows IsPositive (step db e) := by
  cases ha : apply db e with
  | error err => simpa [step, ha] using h
  | ok db' =>
    rw [step_of_ok ha]
    refine allRows_apply positive_rule h (fun v hv r hr overrides roundID id raw hraw => ?_) ha
    injection hraw with hraw
    subst hv hraw
    obtain ⟨_, hfinished, _⟩ := saveRound_ok ha
    have hnonneg := he v rfl r hr
    simp only [normalizeResult]
    split_ifs <;> omega

end

section

variable {F : Type} {db₀ : DB F} {serverID : Int} {c : Client F}

def rowsOf (serverID : Int) (db : DB F) : List (ResultRow F) :=
  db.results.filter fun r => r.serverID = serverID

/-- What the next page lies below. Numbers are positive, so the first page takes the rows before
the largest time. -/
def cursorKey (c : Client F) : Int ×ₗ Int :=
  if 0 < c.beforeID then toLex (c.before, c.beforeID) else toLex (maxInt64, 1)

def Wanted (db₀ : DB F) (k : Int ×ₗ Int) : Prop :=
  (ofLex k).1 < maxInt64 ∧ (ofLex k).2 ≤ db₀.resultSeq

/-- What a client has received, and what is left for it. -/
structure Served (db₀ : DB F) (serverID : Int) (c : Client F) : Prop where
  listed : Listed c.db
  later : Later db₀ c.db
  positive : AllRows IsPositive c.db
  cursor : c.before = 0 ∧ c.beforeID = 0 ∨
    0 < c.before ∧ c.before < maxInt64 ∧ 0 < c.beforeID
  progress : Progress resultKey (Wanted db₀) (rowsOf serverID c.db) (c.received.map storedKey)
    (cursorKey c)
  below : ∀ v ∈ c.received, v.result.timestamp < maxInt64
  once : (c.received.map (·.id)).Nodup
  source : ∀ v ∈ c.received, v.id ≤ c.db.resultSeq ∧
    ∀ q ∈ c.db.results, q.id = v.id → q.timestamp = v.result.timestamp
  finished : c.finished = true → ∀ r ∈ rowsOf serverID c.db, Wanted db₀ (resultKey r) →
    resultKey r ∈ c.received.map storedKey

def fresh (db : DB F) : Client F := ⟨db, 0, 0, [], false⟩

theorem served_fresh (h : Listed db₀) (hp : ∀ r ∈ db₀.results, 0 < r.timestamp) :
    Served db₀ serverID (fresh db₀) where
  listed := h
  later := Later.refl db₀
  positive := positive_of_timestamps h hp
  cursor := Or.inl ⟨rfl, rfl⟩
  progress := by
    apply progress_start
    intro k hk
    have hlt : toLex (ofLex k) < toLex ((maxInt64, 1) : Int × Int) :=
      Prod.Lex.toLex_lt_toLex.mpr (Or.inl hk.1)
    exact hlt
  below := by simp [fresh]
  once := by simp [fresh]
  source := by simp [fresh]
  finished hf := by cases hf

theorem Served.store (h : Served db₀ serverID c) {db' : DB F} (hl : Listed db')
    (hd : Later c.db db') (hp : AllRows IsPositive db') :
    Served db₀ serverID { c with db := db' } := by
  have hrows : ∀ q ∈ rowsOf serverID db', Wanted db₀ (resultKey q) →
      ∃ r ∈ rowsOf serverID c.db, resultKey r = resultKey q := by
    intro q hq hw
    obtain ⟨hq, hs⟩ := List.mem_filter.mp hq
    obtain ⟨r, hr, hrid, hrs, hrt⟩ := hd.rows q hq (hw.2.trans h.later.seq)
    refine ⟨r, List.mem_filter.mpr ⟨hr, ?_⟩, by rw [resultKey, resultKey, hrid, hrt]⟩
    rw [hrs]
    exact hs
  exact
    { listed := hl
      later := h.later.trans hd
      positive := hp
      cursor := h.cursor
      progress := h.progress.frame fun q hq hw => by
        obtain ⟨r, hr, hk⟩ := hrows q hq hw
        exact hk ▸ List.mem_map_of_mem hr
      below := h.below
      once := h.once
      source := fun v hv => by
        obtain ⟨hseq, htime⟩ := h.source v hv
        refine ⟨hseq.trans hd.seq, fun q hq hid => ?_⟩
        obtain ⟨r, hr, hrid, -, hrt⟩ := hd.rows q hq (hid ▸ hseq)
        exact hrt ▸ htime r hr (hrid.trans hid)
      finished := fun hf q hq hw => by
        obtain ⟨r, hr, hk⟩ := hrows q hq hw
        exact hk ▸ h.finished hf r hr (hk ▸ hw) }

theorem pageLimit_pos (limit : Int) : 0 < pageLimit limit := by
  unfold pageLimit
  dsimp only
  split_ifs <;> omega

theorem filter_pageCondition (h : Served db₀ serverID c) :
    c.db.results.filter (fun r => r.serverID = serverID &&
      if 0 < c.beforeID then isBelow (if c.before ≤ 0 then maxInt64 else c.before) c.beforeID r
      else r.timestamp < (if c.before ≤ 0 then maxInt64 else c.before)) =
    (rowsOf serverID c.db).filter fun r => resultKey r < cursorKey c := by
  rw [rowsOf, List.filter_filter]
  apply List.filter_congr
  intro r hr
  rw [Bool.and_comm]
  congr 1
  unfold cursorKey
  cases h.cursor with
  | inl hzero =>
    have hid := (h.listed.seq r hr).1
    rw [hzero.1, hzero.2, if_neg (lt_irrefl _), if_neg (lt_irrefl _), if_pos le_rfl,
      Bool.eq_iff_iff, decide_eq_true_iff, decide_eq_true_iff, resultKey,
      Prod.Lex.toLex_lt_toLex]
    dsimp only
    omega
  | inr hpos =>
    obtain ⟨hbefore, -, hid⟩ := hpos
    rw [if_pos hid, if_pos hid, if_neg (not_le.mpr hbefore), Bool.eq_iff_iff, decide_eq_true_iff,
      isBelow_iff]

theorem Served.timestamp_lt (h : Served db₀ serverID c) {r : ResultRow F} (hr : r ∈ c.db.results)
    (hlt : resultKey r < cursorKey c) : r.timestamp < maxInt64 := by
  have hid := (h.listed.seq r hr).1
  unfold cursorKey at hlt
  cases h.cursor with
  | inl hzero =>
    rw [hzero.2, if_neg (lt_irrefl _), resultKey, Prod.Lex.toLex_lt_toLex] at hlt
    dsimp only at hlt
    omega
  | inr hpos =>
    rw [if_pos hpos.2.2, resultKey, Prod.Lex.toLex_lt_toLex] at hlt
    dsimp only at hlt
    omega

/-- What a page gives the client: the rows of a page in order, as it decodes them. -/
theorem Served.page_ok (h : Served db₀ serverID c) (limit : Int) :
    ∃ page rows, resultsPage c.db serverID limit c.before c.beforeID = .ok page ∧
      rows = top resultKey (pageLimit limit).toNat
        ((rowsOf serverID c.db).filter fun r => resultKey r < cursorKey c) ∧
      page.map storedKey = rows.map resultKey := by
  obtain ⟨page, hpage, hkeys⟩ := selectResults_ok h.listed
    (fun r => r.serverID = serverID &&
      if 0 < c.beforeID then isBelow (if c.before ≤ 0 then maxInt64 else c.before) c.beforeID r
      else r.timestamp < (if c.before ≤ 0 then maxInt64 else c.before)) (pageLimit limit).toNat
  rw [filter_pageCondition h] at hkeys
  exact ⟨page, _, hpage, rfl, hkeys⟩

theorem mem_of_page {limit : Nat} {page : List (StoredResult F)} {rows : List (ResultRow F)}
    (hrows : rows = top resultKey limit
      ((rowsOf serverID c.db).filter fun r => resultKey r < cursorKey c))
    (hkeys : page.map storedKey = rows.map resultKey) {v : StoredResult F} (hv : v ∈ page) :
    ∃ r ∈ c.db.results, resultKey r < cursorKey c ∧ r.timestamp = v.result.timestamp ∧
      r.id = v.id := by
  obtain ⟨r, hr, hk⟩ := List.mem_map.mp (hkeys ▸ List.mem_map_of_mem hv)
  obtain ⟨hm, hlt⟩ := mem_page (hrows ▸ hr)
  obtain ⟨ht, hid⟩ := storedKey_eq hk.symm
  exact ⟨r, List.mem_of_mem_filter hm, hlt, ht.symm, hid.symm⟩

theorem Served.once_append (h : Served db₀ serverID c) {limit : Nat}
    {page : List (StoredResult F)} {rows : List (ResultRow F)}
    (hrows : rows = top resultKey limit
      ((rowsOf serverID c.db).filter fun r => resultKey r < cursorKey c))
    (hkeys : page.map storedKey = rows.map resultKey) :
    ((c.received ++ page).map (·.id)).Nodup := by
  have hn := nodup_keys h.listed fun r => r.serverID = serverID
  have hdesc := h.progress.append hn hrows
  rw [← hkeys, List.pairwise_append] at hdesc
  have hpageids : (page.map (·.id)).Nodup := by
    have hids : page.map (·.id) = rows.map (·.id) := by
      have hmap := congrArg (List.map fun k : Int ×ₗ Int => (ofLex k).2) hkeys
      rwa [List.map_map, List.map_map] at hmap
    rw [hids, hrows]
    apply nodup_map_top
    exact h.listed.ids.sublist ((List.filter_sublist.trans List.filter_sublist).map _)
  rw [List.map_append]
  refine h.once.append hpageids ?_
  intro id hold hnew
  obtain ⟨u, hu, rfl⟩ := List.mem_map.mp hold
  obtain ⟨v, hv, hid⟩ := List.mem_map.mp hnew
  obtain ⟨r, hr, -, ht, hrid⟩ := mem_of_page hrows hkeys hv
  have htime := (h.source u hu).2 r hr (hrid.trans hid)
  have he : storedKey v = storedKey u := by
    rw [storedKey, storedKey, hid, ← ht, htime]
  have hlt := hdesc.2.2 _ (List.mem_map_of_mem hu) _ (List.mem_map_of_mem hv)
  exact absurd (he ▸ hlt) (lt_irrefl _)

theorem Served.below_append (h : Served db₀ serverID c) {limit : Nat}
    {page : List (StoredResult F)} {rows : List (ResultRow F)}
    (hrows : rows = top resultKey limit
      ((rowsOf serverID c.db).filter fun r => resultKey r < cursorKey c))
    (hkeys : page.map storedKey = rows.map resultKey) :
    ∀ v ∈ c.received ++ page, v.result.timestamp < maxInt64 := by
  intro v hv
  cases List.mem_append.mp hv with
  | inl hv => exact h.below v hv
  | inr hv =>
    obtain ⟨r, hr, hlt, ht, -⟩ := mem_of_page hrows hkeys hv
    exact ht ▸ h.timestamp_lt hr hlt

theorem Served.source_append (h : Served db₀ serverID c) {limit : Nat}
    {page : List (StoredResult F)} {rows : List (ResultRow F)}
    (hrows : rows = top resultKey limit
      ((rowsOf serverID c.db).filter fun r => resultKey r < cursorKey c))
    (hkeys : page.map storedKey = rows.map resultKey) :
    ∀ v ∈ c.received ++ page, v.id ≤ c.db.resultSeq ∧
      ∀ q ∈ c.db.results, q.id = v.id → q.timestamp = v.result.timestamp := by
  intro v hv
  cases List.mem_append.mp hv with
  | inl hv => exact h.source v hv
  | inr hv =>
    obtain ⟨r, hr, -, ht, hid⟩ := mem_of_page hrows hkeys hv
    refine ⟨hid ▸ (h.listed.seq r hr).2, fun q hq hqid => ?_⟩
    rw [List.inj_on_of_nodup_map h.listed.ids hq hr (hqid.trans hid.symm), ht]

theorem Served.finished_append (h : Served db₀ serverID c) {limit : Int}
    {page : List (StoredResult F)} {rows : List (ResultRow F)}
    (hrows : rows = top resultKey (pageLimit limit).toNat
      ((rowsOf serverID c.db).filter fun r => resultKey r < cursorKey c))
    (hkeys : page.map storedKey = rows.map resultKey)
    (hf : (c.finished || decide (page.length < pageLimit limit)) = true) :
    ∀ r ∈ rowsOf serverID c.db, Wanted db₀ (resultKey r) →
      resultKey r ∈ (c.received ++ page).map storedKey := by
  have hlen : page.length = rows.length := by
    simpa using congrArg List.length hkeys
  intro r hr hw
  rw [List.map_append, hkeys]
  cases Bool.or_eq_true_iff.mp hf with
  | inl hf => exact List.mem_append_left _ (h.finished hf r hr hw)
  | inr hshort =>
    have hpos := pageLimit_pos limit
    have hlt : rows.length < (pageLimit limit).toNat := by
      have := of_decide_eq_true hshort
      omega
    exact h.progress.complete hrows hlt hr hw

theorem Served.page (h : Served db₀ serverID c) (limit : Int) :
    Served db₀ serverID (clientPage serverID limit c) := by
  obtain ⟨page, rows, hpage, hrows, hkeys⟩ := h.page_ok limit
  have hn := nodup_keys h.listed fun r => r.serverID = serverID
  have honce := h.once_append hrows hkeys
  have hbelow := h.below_append hrows hkeys
  have hsource := h.source_append hrows hkeys
  have hfinished := h.finished_append hrows hkeys
  unfold clientPage
  rw [hpage]
  dsimp only
  cases hlast : page.getLast? with
  | none =>
    have hnil := List.getLast?_eq_none_iff.mp hlast
    subst hnil
    rw [List.append_nil] at honce hbelow hsource hfinished ⊢
    exact
      { listed := h.listed
        later := h.later
        positive := h.positive
        cursor := h.cursor
        progress := h.progress
        below := hbelow
        once := honce
        source := hsource
        finished := hfinished }
  | some last =>
    have hmem := List.mem_of_getLast? hlast
    obtain ⟨row, hrow, hrowkey⟩ := getLast?_of_map_eq hkeys hlast
    have hturn := h.progress.turn hn hrows hrow
    rw [hrowkey, ← hkeys, ← List.map_append] at hturn
    obtain ⟨r, hr, hlt, ht, hid⟩ := mem_of_page hrows hkeys hmem
    have hidpos : 0 < last.id := hid ▸ (h.listed.seq r hr).1
    have htpos : 0 < last.result.timestamp := ht ▸ timestamp_pos h.listed h.positive hr
    have htlt : last.result.timestamp < maxInt64 := ht ▸ h.timestamp_lt hr hlt
    refine
      { listed := h.listed
        later := h.later
        positive := h.positive
        cursor := Or.inr ⟨htpos, htlt, hidpos⟩
        progress := ?_
        below := hbelow
        once := honce
        source := hsource
        finished := hfinished }
    unfold cursorKey
    rw [if_pos hidpos]
    exact hturn

end

section

variable {F : Type} [GoFloat F] [CaseTables] {db₀ : DB F} {serverID : Int} {c : Client F}

def PositiveAction : ClientAction F → Prop
  | .store e => PositiveTimes e
  | .page _ => True

theorem served_step (h : Served db₀ serverID c) {a : ClientAction F} (ha : PositiveAction a) :
    Served db₀ serverID (clientStep serverID c a) := by
  cases a with
  | store e =>
    obtain ⟨hl, hd⟩ := listed_step h.listed e
    exact h.store hl hd (positive_step h.positive ha)
  | page limit => exact h.page limit

theorem served_run (h : Served db₀ serverID c) {actions : List (ClientAction F)}
    (ha : ∀ a ∈ actions, PositiveAction a) :
    Served db₀ serverID (Runs.run (clientStep serverID) c actions) :=
  Runs.run_invariant_of (P := Served db₀ serverID) (C := PositiveAction)
    (fun _ _ ha h => served_step h ha) h ha

structure Receives (db : DB F) (serverID : Int) (c : Client F) : Prop where
  descending : (c.received.map storedKey).Pairwise fun k l => l < k
  once : (c.received.map (·.id)).Nodup
  complete : c.finished = true → ∀ r ∈ db.results, r.serverID = serverID → Survives r c.db →
    ∃ v ∈ c.received, v.id = r.id

omit [GoFloat F] [CaseTables] in
theorem Served.receives (h₀ : Listed db₀) (h : Served db₀ serverID c)
    (hlt : ∀ r ∈ db₀.results, r.timestamp < maxInt64) : Receives db₀ serverID c where
  descending := h.progress.descending
  once := h.once
  complete hf r hr hs hsurvives := by
    obtain ⟨q, hq, hqid⟩ := hsurvives
    obtain ⟨r', hr', hid', hserver, htime⟩ :=
      h.later.rows q hq (hqid ▸ (h₀.seq r hr).2)
    have he : r' = r := List.inj_on_of_nodup_map h₀.ids hr' hr (hid'.trans hqid)
    subst he
    have hrow : q ∈ rowsOf serverID c.db :=
      List.mem_filter.mpr ⟨hq, decide_eq_true (hserver.symm.trans hs)⟩
    have hbefore : q.timestamp < maxInt64 := htime ▸ hlt r' hr'
    have hseq : q.id ≤ db₀.resultSeq := hqid ▸ (h₀.seq r' hr).2
    have hw : Wanted db₀ (resultKey q) := ⟨hbefore, hseq⟩
    obtain ⟨v, hv, hk⟩ := List.mem_map.mp (h.finished hf q hrow hw)
    exact ⟨v, hv, (storedKey_eq hk).2.trans hqid⟩

omit [GoFloat F] [CaseTables] in
/-- A page lowers the cursor, or it is empty and the client finishes. -/
theorem Served.cursor_lt (h : Served db₀ serverID c) (limit : Int) :
    (clientPage serverID limit c).finished = true ∧
        cursorKey (clientPage serverID limit c) = cursorKey c ∨
      cursorKey (clientPage serverID limit c) < cursorKey c := by
  obtain ⟨page, rows, hpage, hrows, hkeys⟩ := h.page_ok limit
  unfold clientPage
  rw [hpage]
  dsimp only
  cases hlast : page.getLast? with
  | none =>
    have hpos := pageLimit_pos limit
    rw [List.getLast?_eq_none_iff.mp hlast]
    exact Or.inl ⟨by simp [hpos], rfl⟩
  | some last =>
    obtain ⟨r, hr, hlt, ht, hid⟩ := mem_of_page hrows hkeys (List.mem_of_getLast? hlast)
    have hidpos : 0 < last.id := hid ▸ (h.listed.seq r hr).1
    right
    have hkey : resultKey r = toLex (last.result.timestamp, last.id) := by
      rw [resultKey, ht, hid]
    rw [hkey] at hlt
    refine lt_of_eq_of_lt ?_ hlt
    unfold cursorKey
    rw [if_pos hidpos]

def natKey (k : Int ×ₗ Int) : ℕ ×ₗ ℕ := toLex ((ofLex k).1.toNat, (ofLex k).2.toNat)

omit [GoFloat F] [CaseTables] in
theorem Served.cursor_pos (h : Served db₀ serverID c) :
    0 < (ofLex (cursorKey c)).1 ∧ 0 < (ofLex (cursorKey c)).2 := by
  unfold cursorKey
  cases h.cursor with
  | inl hzero =>
    rw [hzero.2, if_neg (lt_irrefl _)]
    exact ⟨by decide, by decide⟩
  | inr hpos =>
    rw [if_pos hpos.2.2]
    exact ⟨hpos.1, hpos.2.2⟩

omit [GoFloat F] [CaseTables] in
theorem natKey_lt {k l : Int ×ₗ Int} (hk : 0 < (ofLex k).1 ∧ 0 < (ofLex k).2) (h : k < l) :
    natKey k < natKey l := by
  have hlex := Prod.Lex.lt_iff.mp h
  rw [natKey, natKey, Prod.Lex.toLex_lt_toLex]
  dsimp only
  omega

def clientAt (serverID : Int) (db : DB F) (f : ℕ → ClientAction F) (n : ℕ) : Client F :=
  Runs.run (clientStep serverID) (fresh db) ((List.range n).map f)

theorem clientAt_succ (f : ℕ → ClientAction F) (n : ℕ) :
    clientAt serverID db₀ f (n + 1) = clientStep serverID (clientAt serverID db₀ f n) (f n) := by
  rw [clientAt, List.range_succ, List.map_append, Runs.run_append]
  rfl

theorem client_finishes (h₀ : Listed db₀) (hp : ∀ r ∈ db₀.results, 0 < r.timestamp)
    {f : ℕ → ClientAction F} (hf : ∀ i, PositiveAction (f i))
    (hinf : ∀ i, ∃ j, i ≤ j ∧ ∃ limit, f j = .page limit) :
    ∃ i, (clientAt serverID db₀ f i).finished = true := by
  have hserved : ∀ i, Served db₀ serverID (clientAt serverID db₀ f i) := by
    intro i
    apply served_run (served_fresh h₀ hp)
    intro a ha
    obtain ⟨j, -, rfl⟩ := List.mem_map.mp ha
    exact hf j
  refine Runs.reaches_of_lowered (D := fun c : Client F => c.finished = true)
    (fun c => natKey (cursorKey c)) (fun i => ?_) (fun i hi => ?_) hinf
  · rw [clientAt_succ]
    cases hfi : f i with
    | store e => exact le_rfl
    | page limit =>
      cases (hserved i).cursor_lt limit with
      | inl hsame => exact (congrArg natKey hsame.2).le
      | inr hlow => exact (natKey_lt ((hserved i).page limit).cursor_pos hlow).le
  · obtain ⟨limit, hlimit⟩ := hi
    rw [clientAt_succ, hlimit]
    cases (hserved i).cursor_lt limit with
    | inl hdone => exact Or.inl hdone.1
    | inr hlow => exact Or.inr (natKey_lt ((hserved i).page limit).cursor_pos hlow)

omit [GoFloat F] [CaseTables] in
theorem clientPage_db (limit : Int) (c : Client F) : (clientPage serverID limit c).db = c.db := by
  unfold clientPage
  split
  · rfl
  · dsimp only
    split <;> rfl

theorem clientAt_pages_db (serverID : Int) (db₀ : DB F) (n : ℕ) :
    (clientAt serverID db₀ (fun _ => .page 200) n).db = db₀ := by
  induction n with
  | zero => rfl
  | succ n ih =>
    rw [clientAt_succ]
    exact (clientPage_db 200 _).trans ih

/-- A client is served right exactly if no row of the first database has the largest time. -/
theorem client_iff (h₀ : Listed db₀) (hfits : Fits db₀)
    (hp : ∀ r ∈ db₀.results, 0 < r.timestamp) :
    (∀ serverID actions, (∀ a ∈ actions, PositiveAction a) →
      Receives db₀ serverID (Runs.run (clientStep serverID) (fresh db₀) actions)) ↔
    ∀ r ∈ db₀.results, r.timestamp ≠ maxInt64 := by
  constructor
  · intro h r hr hmax
    -- a client of the row's server that asks on until it finishes, with nothing beside it
    obtain ⟨n, hn⟩ : ∃ n, (clientAt r.serverID db₀ (fun _ => .page 200) n).finished = true :=
      client_finishes h₀ hp (fun _ => trivial) fun i => ⟨i, le_rfl, 200, rfl⟩
    have hactions : ∀ a ∈ (List.range n).map (fun _ => .page 200),
        PositiveAction (F := F) a := by
      intro a ha
      obtain ⟨i, -, rfl⟩ := List.mem_map.mp ha
      trivial
    have hstored : r ∈ (clientAt r.serverID db₀ (fun _ => .page 200) n).db.results := by
      rw [clientAt_pages_db]
      exact hr
    obtain ⟨v, hv, hid⟩ := (h r.serverID _ hactions).complete hn r hr rfl ⟨r, hstored, rfl⟩
    have hserved : Served db₀ r.serverID (clientAt r.serverID db₀ (fun _ => .page 200) n) :=
      served_run (served_fresh h₀ hp) hactions
    have htime := (hserved.source v hv).2 r hstored hid.symm
    have hlt := hserved.below v hv
    rw [← htime, hmax] at hlt
    exact absurd hlt (lt_irrefl _)
  · intro h serverID actions hactions
    refine (served_run (served_fresh h₀ hp) hactions).receives h₀ fun r hr => ?_
    exact lt_of_le_of_ne (hfits r hr).1 (h r hr)

/-- Whatever is called between the pages, `WalkResults` comes to an end and delivers the rows of
its snapshot in order, each once, and those that stay all of them; a client of `ResultsPage`
receives each row at most once and, when it finishes, every row that it began with and that
stays. This holds exactly if none of the rows has the largest time. The walk needs only that
none has the largest number beside it, and a client that goes on finishes in any case. -/
theorem paging_iff (legacy : Legacy F) (hlegacy : Listed legacy.db) (es : List (Event F))
    (db : DB F) (hdb : db = Runs.run step (openStore legacy) es) (hfits : Fits db)
    (hpositive : ∀ r ∈ db.results, 0 < r.timestamp) :
    ((∀ serverID since actions, Delivers db serverID since actions
        (Runs.run (walkStep serverID since) ⟨db, .start, []⟩ (.snapshot :: actions))) ∧
      (∀ serverID actions, (∀ a ∈ actions, PositiveAction a) →
        Receives db serverID (Runs.run (clientStep serverID) (fresh db) actions)) ↔
      ∀ r ∈ db.results, r.timestamp ≠ maxInt64) ∧
    ((∀ serverID since actions, Delivers db serverID since actions
        (Runs.run (walkStep serverID since) ⟨db, .start, []⟩ (.snapshot :: actions))) ↔
      ∀ r ∈ db.results, ¬ (r.timestamp = maxInt64 ∧ r.id = maxInt64)) ∧
    ∀ serverID (f : ℕ → ClientAction F), (∀ i, PositiveAction (f i)) →
      (∀ i, ∃ j, i ≤ j ∧ ∃ limit, f j = .page limit) →
      ∃ i, (clientAt serverID db f i).finished = true := by
  have h : Listed db := by
    rw [hdb]
    exact listed_run (listed_migrate hlegacy) es
  have hwalk := walk_iff h hfits
  have hclient := client_iff h hfits hpositive
  refine ⟨?_, hwalk, fun serverID f hf hinf => client_finishes h hpositive hf hinf⟩
  constructor
  · intro hboth
    exact hclient.mp hboth.2
  · intro hrows
    exact ⟨hwalk.mpr fun r hr hmax => hrows r hr hmax.1, hclient.mpr hrows⟩

end

section

local instance : CaseTables := asciiTables

def datedStore (timestamps : List Int) : DB ℚ :=
  Runs.run step (openStore emptyLegacy)
    [.saveServer 1 exampleServer,
      .saveRound { exampleRound 5 (timestamps.map fun timestamp =>
          { exampleResult true (str "clean") with timestamp }) with auxiliary := true }]

theorem listed_emptyLegacy : Listed (emptyLegacy (F := ℚ)).db := by
  constructor <;> simp [emptyLegacy, emptyDB]

/-- The row of the largest time does not come with the first page, and there is no other. -/
theorem paging_misses_largest_time :
    let db := datedStore [maxInt64]
    let c := Runs.run (clientStep 1) (fresh db) [.page 100]
    (∃ r ∈ db.results, 0 < r.timestamp ∧ r.serverID = 1 ∧ Survives r c.db) ∧
      c.finished = true ∧ c.received = [] ∧ ¬ Receives db 1 c := by
  have hrun : (Runs.run (clientStep 1) (fresh (datedStore [maxInt64])) [.page 100]).finished =
        true ∧
      (Runs.run (clientStep 1) (fresh (datedStore [maxInt64])) [.page 100]).received = [] ∧
      (Runs.run (clientStep 1) (fresh (datedStore [maxInt64])) [.page 100]).db =
        datedStore [maxInt64] := by
    decide +kernel
  obtain ⟨r, hr, hpos, hserver⟩ : ∃ r ∈ (datedStore [maxInt64]).results,
      0 < r.timestamp ∧ r.serverID = 1 := by
    decide +kernel
  obtain ⟨hfinished, hnil, hdb⟩ := hrun
  have hsurvives : Survives r
      (Runs.run (clientStep 1) (fresh (datedStore [maxInt64])) [.page 100]).db :=
    hdb.symm ▸ ⟨r, hr, rfl⟩
  refine ⟨⟨r, hr, hpos, hserver, hsurvives⟩, hfinished, hnil, fun h => ?_⟩
  obtain ⟨v, hv, -⟩ := h.complete hfinished r hr hserver hsurvives
  rw [hnil] at hv
  cases hv

/-- Results of equal times, on either side of the ends of the pages. -/
def equalTimes : List Int := [7, 9, 7, 9, 7, 9, 7]

theorem paging_iff_dated :
    ((Runs.run (clientStep 1) (fresh (datedStore equalTimes))
        [.page 2, .page 2, .page 2, .page 2]).received.map fun v => (v.result.timestamp, v.id)) =
      [(9, 6), (9, 4), (9, 2), (7, 7), (7, 5), (7, 3), (7, 1)] ∧
    (∀ serverID since actions, Delivers (datedStore equalTimes) serverID since actions
      (Runs.run (walkStep serverID since) ⟨datedStore equalTimes, .start, []⟩
        (.snapshot :: actions))) ∧
    ∀ serverID actions, (∀ a ∈ actions, PositiveAction a) →
      Receives (datedStore equalTimes) serverID
        (Runs.run (clientStep serverID) (fresh (datedStore equalTimes)) actions) := by
  have hdated : Fits (datedStore equalTimes) ∧
      ∀ r ∈ (datedStore equalTimes).results, 0 < r.timestamp ∧ r.timestamp ≠ maxInt64 := by
    unfold Fits
    decide +kernel
  refine ⟨by decide +kernel, ?_⟩
  exact (paging_iff emptyLegacy listed_emptyLegacy _ (datedStore equalTimes) rfl hdated.1
    fun r hr => (hdated.2 r hr).1).1.mpr fun r hr => (hdated.2 r hr).2

end

end DnsMonitor.Store.Clients
