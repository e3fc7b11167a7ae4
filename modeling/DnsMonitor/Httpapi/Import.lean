import DnsMonitor.Httpapi.Decisions
import DnsMonitor.Store.Run
import DnsMonitor.Store.WellFormed

namespace DnsMonitor.Httpapi.Import

open DnsMonitor.Model DnsMonitor.Monitor.Endpoint DnsMonitor.Monitor.Keys
open DnsMonitor.Httpapi.ServerCsv DnsMonitor.Httpapi.Preview DnsMonitor.Httpapi.Decisions
open DnsMonitor.Store.Schema DnsMonitor.Store.Servers DnsMonitor.Store.Migration
open DnsMonitor.Store.WellFormed DnsMonitor.Store.Run DnsMonitor.Lib.Tables DnsMonitor.Lib
open DnsMonitor.Go.Strings DnsMonitor.Go.Unicode DnsMonitor.Go.Errors

def withoutEpoch (s : Server) : Server := { s with trustEpoch := 0 }

theorem perm_of_serverSnapshot {l m : List Server} (h : serverSnapshot l = serverSnapshot m) :
    (l.map withoutEpoch).Perm (m.map withoutEpoch) :=
  ((List.perm_insertionSort _ _).symm.trans (List.Perm.of_eq h)).trans
    (List.perm_insertionSort _ _)

theorem agree_withoutEpoch {columns : List (GoString × Nat)} {s t : Server}
    (h : withoutEpoch s = withoutEpoch t) : Agree columns s t := by
  simp only [withoutEpoch, Server.mk.injEq] at h
  exact ⟨fun _ => h.2.2.2.1, fun _ => h.2.2.2.2.2.2.1, fun _ => h.2.2.2.2.2.2.2.1,
    fun _ => h.2.2.2.2.2.2.2.2.1⟩

theorem lookup_cons {κ α : Type} [DecidableEq κ] (k j : κ) (a : α) (m : List (κ × α)) :
    lookup ((k, a) :: m) j = if k = j then some a else lookup m j := by
  by_cases h : k = j <;> simp [lookup, h]

section

variable [CaseTables] {F : Type} {columns : List (GoString × Nat)} {now : Int}
  {decisions : List ImportDecision} {initial listed : List Server}
  {rows done rest earlier : List PreviewRow} {row : PreviewRow} {key : GoString}

theorem filter_withoutEpoch (key : GoString) (l : List Server) :
    (l.map withoutEpoch).filter (hasKey key) = (l.filter (hasKey key)).map withoutEpoch :=
  List.filter_map

theorem isRow_of_serverSnapshot (hs : serverSnapshot initial = serverSnapshot listed)
    (h : IsRow columns listed earlier row) : IsRow columns initial earlier row := by
  have hperm := (perm_of_serverSnapshot hs).filter (hasKey row.key)
  rw [filter_withoutEpoch, filter_withoutEpoch] at hperm
  have hnil : initial.filter (hasKey row.key) = [] ↔ listed.filter (hasKey row.key) = [] := by
    have hlength := hperm.length_eq
    rw [List.length_map, List.length_map] at hlength
    rw [← List.length_eq_zero_iff, ← List.length_eq_zero_iff, hlength]
  exact {
    number := h.number
    address := h.address
    duplicate := by rw [ne_eq, hnil]; exact h.duplicate
    fresh := fun hempty => h.fresh (hnil.mp hempty)
    found := by
      intro hne
      obtain ⟨e, he, hid, hagree⟩ := h.found fun hempty => hne (hnil.mpr hempty)
      rw [he, List.map_singleton, List.perm_singleton, List.map_eq_singleton_iff] at hperm
      obtain ⟨d, hd, hde⟩ := hperm
      refine ⟨d, hd, hid.trans (congrArg Server.id hde).symm, ?_⟩
      exact (agree_withoutEpoch hde).trans hagree }

theorem keyed_of_serverSnapshot (hs : serverSnapshot initial = serverSnapshot listed)
    (h : ∀ s ∈ listed, ∃ key, addressKey s.address = .ok key) :
    ∀ s ∈ initial, ∃ key, addressKey s.address = .ok key := by
  intro s hmem
  have := (perm_of_serverSnapshot hs).subset (List.mem_map_of_mem hmem)
  obtain ⟨t, ht, hts⟩ := List.mem_map.mp this
  obtain ⟨key, hkey⟩ := h t ht
  have haddress : (withoutEpoch t).address = (withoutEpoch s).address := by rw [hts]
  exact ⟨key, haddress ▸ hkey⟩

def isFresh (row : PreviewRow) : Bool := !row.duplicate

def AreRows (columns : List (GoString × Nat)) (initial : List Server)
    (rows : List PreviewRow) : Prop :=
  ∀ before row after, rows = before ++ row :: after → IsRow columns initial before row

theorem AreRows.of_append (h : AreRows columns initial (done ++ rest)) :
    AreRows columns initial done := by
  intro before row after hdone
  exact h before row (after ++ rest) (by simp [hdone])

theorem AreRows.exists_before (h : AreRows columns initial rows) (hrow : row ∈ rows) :
    ∃ before, IsRow columns initial before row := by
  obtain ⟨before, after, hsplit⟩ := List.append_of_mem hrow
  exact ⟨before, h before row after hsplit⟩

theorem countP_fresh (h : AreRows columns initial done) (key : GoString) :
    (done.filter isFresh).countP (fun row => row.key = key) =
      if initial.filter (hasKey key) = [] ∧ key ∈ done.map (·.key) then 1 else 0 := by
  induction done using List.reverseRecOn with
  | nil => simp
  | append_singleton before row ih =>
    have hrow := h before row [] (by simp)
    rw [List.filter_append, List.countP_append, ih h.of_append]
    by_cases hkey : row.key = key
    · subst hkey
      have hdup := hrow.duplicate
      cases hd : row.duplicate with
      | false =>
        simp only [hd, Bool.false_eq_true, false_iff, not_or, not_not] at hdup
        simp [isFresh, hd, hdup.1, hdup.2]
      | true =>
        simp only [hd, true_iff] at hdup
        by_cases hinitial : initial.filter (hasKey row.key) = []
        · have hmem := hdup.resolve_left (not_not.mpr hinitial)
          simp [isFresh, hd, hinitial, hmem]
        · simp [isFresh, hd, hinitial]
    · have hnone : (List.filter isFresh [row]).countP (fun r => r.key = key) = 0 := by
        rw [List.countP_eq_zero]
        intro r hr
        have := List.mem_of_mem_filter hr
        simp_all
      simp [hnone, Ne.symm hkey]

def trace (s : Server) : Int × Except String GoString := (s.id, addressKey s.address)

/-- The state after the rows `done`, and the listing that it stands for. -/
structure Imported (columns : List (GoString × Nat)) (initial : List Server)
    (rows done : List PreviewRow) (s : ImportState F) (l : Listing) : Prop where
  wellFormed : WellFormed s.db
  listing : l = ⟨s.db.servers, s.db.serverSeq⟩
  keys : s.db.servers.map (fun t => addressKey t.address) =
    initial.map (fun t => addressKey t.address) ++
      (done.filter isFresh).map fun row => .ok row.key
  agree : ∀ t ∈ s.db.servers, ∀ row ∈ rows, hasKey row.key t = true → Agree columns t row.server
  byID : ∀ t ∈ s.db.servers, (lookup s.byID t.id).isSome = true
  known : ∀ row ∈ rows, row.server.id ≠ 0 → ∀ t ∈ s.db.servers, hasKey row.key t = true →
    t.id = row.server.id
  byKey : ∀ row ∈ rows, row.server.id = 0 →
    lookup s.byKey row.key = (s.db.servers.find? (hasKey row.key)).map (·.id)
  result : s.result.created + s.result.updated + s.result.skipped = done.length

variable {s : ImportState F} {l : Listing}

theorem Imported.countP_servers (h : Imported columns initial rows done s l)
    (hdone : AreRows columns initial done) (key : GoString) :
    s.db.servers.countP (hasKey key) = initial.countP (hasKey key) +
      if initial.filter (hasKey key) = [] ∧ key ∈ done.map (·.key) then 1 else 0 := by
  have hcount : ∀ servers : List Server, servers.countP (hasKey key) =
      (servers.map fun t => addressKey t.address).countP fun k => k = .ok key := by
    intro servers
    rw [List.countP_map]
    rfl
  have hfresh : ((done.filter isFresh).map fun row => Except.ok row.key).countP
      (fun k : Except String GoString => k = .ok key) =
      (done.filter isFresh).countP fun row => row.key = key := by
    rw [List.countP_map]
    congr 1
    funext row
    simp
  rw [hcount, h.keys, List.countP_append, ← hcount, hfresh, countP_fresh hdone]

theorem Imported.exists_target (h : Imported columns initial rows done s l)
    (hdone : AreRows columns initial done) (hrow : IsRow columns initial done row)
    (hdup : row.duplicate = true) : ∃ t, s.db.servers.filter (hasKey row.key) = [t] := by
  rw [← List.length_eq_one_iff, ← List.countP_eq_length_filter, h.countP_servers hdone]
  by_cases hinitial : initial.filter (hasKey row.key) = []
  · have hmem := (hrow.duplicate.mp hdup).resolve_left (not_not.mpr hinitial)
    rw [if_pos ⟨hinitial, hmem⟩, List.countP_eq_length_filter, hinitial]
    rfl
  · obtain ⟨e, he, -⟩ := hrow.found hinitial
    rw [if_neg fun hc => hinitial hc.1, List.countP_eq_length_filter, he]
    rfl

theorem Imported.no_target (h : Imported columns initial rows done s l)
    (hdone : AreRows columns initial done) (hrow : IsRow columns initial done row)
    (hdup : row.duplicate = false) :
    initial.filter (hasKey row.key) = [] ∧ ∀ t ∈ s.db.servers, hasKey row.key t = false := by
  have hno : ¬(initial.filter (hasKey row.key) ≠ [] ∨ row.key ∈ done.map (·.key)) :=
    fun hc => by simp [hrow.duplicate.mpr hc] at hdup
  rw [not_or, not_not] at hno
  refine ⟨hno.1, fun t ht => ?_⟩
  have hcount := h.countP_servers hdone row.key
  have hzero : initial.countP (hasKey row.key) = 0 := by
    rw [List.countP_eq_length_filter, hno.1, List.length_nil]
  rw [if_neg fun hc => hno.2 hc.2, hzero, List.countP_eq_zero] at hcount
  simpa using hcount t ht

omit [CaseTables] in
theorem length_done (done : List PreviewRow) (row : PreviewRow) :
    ((done ++ [row]).length : Int) = done.length + 1 := by
  rw [List.length_append, List.length_singleton, Nat.cast_add, Nat.cast_one]

theorem importItem_create (haddress : addressKey row.server.address = .ok row.key)
    (hdup : row.duplicate = false) :
    importItem now s (itemOf decisions row) = createItem now s (itemOf decisions row) := by
  have haction : (itemOf decisions row).action = str "create" := by
    simp [itemOf, action, hdup]
  have hkey : (itemOf decisions row).key ≠ [] := key_ne_nil haddress
  rw [importItem, haction, if_neg (by decide), if_neg hkey, if_pos rfl]

theorem importItem_overwrite (haddress : addressKey row.server.address = .ok row.key)
    (hover : overwrites decisions row = true) :
    importItem now s (itemOf decisions row) = overwriteItem s (itemOf decisions row) := by
  have hdup : row.duplicate = true := (Bool.and_eq_true_iff.mp hover).1
  have haction : (itemOf decisions row).action = str "overwrite" := by
    simp [itemOf, action, hdup, hover]
  have hkey : (itemOf decisions row).key ≠ [] := key_ne_nil haddress
  rw [importItem, haction, if_neg (by decide), if_neg hkey, if_neg (by decide), if_pos rfl]

theorem AreRows.fresh_of_key (hrows : AreRows columns initial rows)
    (haddress : addressKey row.server.address = .ok row.key)
    (hinitial : initial.filter (hasKey row.key) = []) {r : PreviewRow} (hr : r ∈ rows)
    {new : Server} (hnew : new.address = row.server.address) (hkey : hasKey r.key new = true) :
    r.key = row.key ∧ r.server.id = 0 ∧ Agree columns defaults r.server := by
  have hk : r.key = row.key := by
    rw [hasKey_iff, hnew] at hkey
    exact (Except.ok.inj (haddress.symm.trans hkey)).symm
  obtain ⟨before, hbefore⟩ := hrows.exists_before hr
  exact ⟨hk, hbefore.fresh (hk ▸ hinitial)⟩

variable (now decisions) in
theorem Imported.create (h : Imported columns initial rows done s l)
    (hrows : AreRows columns initial rows) (hsplit : rows = done ++ row :: rest)
    (hdup : row.duplicate = false) :
    ∃ s', importItem now s (itemOf decisions row) = .ok s' ∧
      Imported columns initial rows (done ++ [row]) s'
        (importRow columns now decisions l row) := by
  have hdone : AreRows columns initial done := AreRows.of_append (hsplit ▸ hrows)
  have hrow := hrows done row rest hsplit
  obtain ⟨hinitial, hnone⟩ := h.no_target hdone hrow hdup
  obtain ⟨hid, hagree⟩ := hrow.fresh hinitial
  have hmem : row ∈ rows := by simp [hsplit]
  have hfree : lookup s.byKey row.key = none := by
    rw [h.byKey row hmem hid, List.find?_eq_none.mpr fun t ht => by simp [hnone t ht]]
    rfl
  refine ⟨_, (importItem_create hrow.address hdup).trans (createItem_ok hid hfree), ?_⟩
  let new : Server :=
    { row.server with id := s.db.serverSeq + 1, createdAt := now, trustEpoch := 0 }
  have hsame : ∀ r ∈ rows, hasKey r.key new = true →
      r.key = row.key ∧ r.server.id = 0 ∧ Agree columns defaults r.server :=
    fun r hr hkey => hrows.fresh_of_key hrow.address hinitial hr rfl hkey
  exact {
    wellFormed := wellFormed_insertServer h.wellFormed now row.server
    listing := by
      rw [importRow, if_pos hdup, h.listing]
      rfl
    keys := by
      change (s.db.servers ++ [new]).map _ = _
      rw [List.map_append, List.map_singleton, h.keys, List.filter_append,
        List.filter_cons_of_pos (by simp [isFresh, hdup]), List.filter_nil, List.map_append,
        List.map_singleton, ← List.append_assoc, hrow.address]
    agree := by
      intro t ht r hr hkey
      cases List.mem_append.mp ht with
      | inl ht => exact h.agree t ht r hr hkey
      | inr ht =>
        obtain rfl := List.mem_singleton.mp ht
        have hnew := hagree.symm.trans (hsame r hr hkey).2.2
        exact ⟨hnew.provider, hnew.enabled, hnew.trusted, hnew.notes⟩
    byID := by
      intro t ht
      rw [lookup_cons]
      split_ifs with hid
      · rfl
      · cases List.mem_append.mp ht with
        | inl ht => exact h.byID t ht
        | inr ht => exact absurd (congrArg Server.id (List.mem_singleton.mp ht)).symm hid
    known := by
      intro r hr hne t ht hkey
      cases List.mem_append.mp ht with
      | inl ht => exact h.known r hr hne t ht hkey
      | inr ht =>
        obtain rfl := List.mem_singleton.mp ht
        exact absurd (hsame r hr hkey).2.1 hne
    byKey := by
      intro r hr hzero
      rw [lookup_cons]
      change (if row.key = r.key then _ else _) =
        ((s.db.servers ++ [new]).find? (hasKey r.key)).map (·.id)
      rw [List.find?_append]
      split_ifs with hk
      · have hold : s.db.servers.find? (hasKey r.key) = none :=
          List.find?_eq_none.mpr fun t ht => by simp [← hk, hnone t ht]
        have hnew : hasKey r.key new = true := hasKey_iff.mpr (hk ▸ hrow.address)
        simp [hold, hnew, new]
      · have hnew : hasKey r.key new = false := by
          rw [Bool.eq_false_iff]
          exact fun hkey => hk (hsame r hr hkey).1.symm
        simp [h.byKey r hr hzero, hnew]
    result := by
      have := h.result
      simp only [length_done]
      omega }

omit [CaseTables] in
theorem agree_overwritten (columns : List (GoString × Nat)) (new old : Server) :
    Agree columns old (overwritten columns new old) := by
  have h := agree_mergeExisting columns old new
  exact ⟨h.provider, h.enabled, h.trusted, h.notes⟩

theorem trace_overwritten {new old : Server} (hnew : addressKey new.address = .ok key)
    (hold : hasKey key old = true) : trace (overwritten columns new old) = trace old := by
  rw [hasKey_iff] at hold
  change (old.id, addressKey new.address) = (old.id, addressKey old.address)
  rw [hnew, hold]

theorem find_trace (key : GoString) (servers : List Server) :
    (servers.find? (hasKey key)).map (·.id) =
      ((servers.map trace).find? fun k => k.2 = .ok key).map (·.1) := by
  rw [List.find?_map, Option.map_map]
  rfl

theorem find_of_trace {servers servers' : List Server}
    (h : servers'.map trace = servers.map trace) (key : GoString) :
    (servers'.find? (hasKey key)).map (·.id) = (servers.find? (hasKey key)).map (·.id) := by
  rw [find_trace, h, ← find_trace]

theorem keys_of_trace {servers servers' : List Server}
    (h : servers'.map trace = servers.map trace) :
    servers'.map (fun t => addressKey t.address) = servers.map fun t => addressKey t.address := by
  have hsecond := congrArg (List.map (·.2)) h
  rw [List.map_map, List.map_map] at hsecond
  exact hsecond

theorem exists_of_trace {servers servers' : List Server}
    (h : servers'.map trace = servers.map trace) {u : Server} (hu : u ∈ servers') :
    ∃ v ∈ servers, v.id = u.id ∧ ∀ key, hasKey key u = true → hasKey key v = true := by
  have hmem := List.mem_map_of_mem (f := trace) hu
  rw [h] at hmem
  obtain ⟨v, hv, htrace⟩ := List.mem_map.mp hmem
  refine ⟨v, hv, congrArg (·.1) htrace, fun key hkey => ?_⟩
  exact hasKey_iff.mpr ((congrArg (·.2) htrace).trans (hasKey_iff.mp hkey))

def IsTarget (db : DB F) (key : GoString) (t : Server) : Prop :=
  ∀ u, u ∈ db.servers ∧ hasKey key u = true ↔ u = t

theorem Imported.id_target (h : Imported columns initial rows done s l) (hmem : row ∈ rows)
    {t : Server} (ht : IsTarget s.db row.key t) :
    (if row.server.id = 0 then (lookup s.byKey row.key).getD 0 else row.server.id) = t.id := by
  obtain ⟨htmem, htkey⟩ := (ht t).mpr rfl
  split_ifs with hzero
  · obtain ⟨u, hu⟩ : ∃ u, s.db.servers.find? (hasKey row.key) = some u :=
      Option.isSome_iff_exists.mp (List.find?_isSome.mpr ⟨t, htmem, htkey⟩)
    have hut : u = t := (ht u).mp ⟨List.mem_of_find?_eq_some hu, List.find?_some hu⟩
    rw [h.byKey row hmem hzero, hu, hut]
    rfl
  · exact (h.known row hmem hzero t htmem htkey).symm

/-- The update of the row with the target's id merges the listed server with its key. -/
theorem Imported.update_target (h : Imported columns initial rows done s l) (hmem : row ∈ rows)
    {t : Server} (ht : IsTarget s.db row.key t) (createdAt : Int) :
    (updateServer s.db { row.server with id := t.id, createdAt }).servers =
      update (hasKey row.key) (overwritten columns row.server) s.db.servers := by
  obtain ⟨htmem, htkey⟩ := (ht t).mpr rfl
  apply List.map_congr_left
  intro u hu
  have hcond : u.id = t.id ↔ hasKey row.key u = true := by
    constructor
    · intro huid
      have := List.inj_on_of_nodup_map h.wellFormed.server_ids hu htmem huid
      exact this ▸ htkey
    · intro hukey
      rw [(ht u).mp ⟨hu, hukey⟩]
  by_cases hukey : hasKey row.key u = true
  · simp only [hukey, hcond.mpr hukey, decide_true, if_true]
    rw [overwritten, mergeExisting_of_agree (h.agree u hu row hmem hukey)]
    rfl
  · simp [hukey, mt hcond.mp hukey]

/-- Merging a row leaves what the other rows want of the servers. -/
theorem Imported.agree_update (h : Imported columns initial rows done s l)
    (haddress : addressKey row.server.address = .ok row.key) {u : Server}
    (hu : u ∈ update (hasKey row.key) (overwritten columns row.server) s.db.servers)
    {r : PreviewRow} (hr : r ∈ rows) (hkey : hasKey r.key u = true) :
    Agree columns u r.server := by
  obtain ⟨v, hv, rfl⟩ := mem_update.mp hu
  by_cases hvkey : hasKey row.key v = true
  · simp only [hvkey, if_true] at hkey ⊢
    have hk : r.key = row.key := by
      have hadr : addressKey row.server.address = .ok r.key := hasKey_iff.mp hkey
      exact Except.ok.inj (hadr.symm.trans haddress)
    exact (agree_overwritten columns row.server v).symm.trans (h.agree v hv r hr (hk ▸ hvkey))
  · simp only [hvkey] at hkey ⊢
    exact h.agree v hv r hr hkey

variable (now decisions) in
theorem Imported.overwrite (h : Imported columns initial rows done s l)
    (hrows : AreRows columns initial rows) (hsplit : rows = done ++ row :: rest)
    (hover : overwrites decisions row = true) :
    ∃ s', importItem now s (itemOf decisions row) = .ok s' ∧
      Imported columns initial rows (done ++ [row]) s'
        (importRow columns now decisions l row) := by
  have hdup : row.duplicate = true := (Bool.and_eq_true_iff.mp hover).1
  have hrow := hrows done row rest hsplit
  obtain ⟨t, hfilter⟩ := h.exists_target (AreRows.of_append (hsplit ▸ hrows)) hrow hdup
  have hmem : row ∈ rows := by simp [hsplit]
  have ht : IsTarget s.db row.key t := by
    intro u
    rw [← List.mem_filter, hfilter, List.mem_singleton]
  have htmem := ((ht t).mpr rfl).1
  have hpos : t.id ≠ 0 := by
    have := h.wellFormed.server_seq t.id (List.mem_map_of_mem htmem)
    omega
  have hid := h.id_target hmem ht
  obtain ⟨existing, hexisting⟩ := Option.isSome_iff_exists.mp (h.byID t htmem)
  refine ⟨_, (importItem_overwrite hrow.address hover).trans
    (overwriteItem_ok hid hpos hexisting htmem), ?_⟩
  have hservers := h.update_target hmem ht existing.createdAt
  have htrace : (update (hasKey row.key) (overwritten columns row.server) s.db.servers).map trace =
      s.db.servers.map trace :=
    map_update_of fun u _ hu => trace_overwritten hrow.address hu
  rw [← hservers] at htrace
  exact {
    wellFormed := wellFormed_updateServer h.wellFormed _
    listing := by
      rw [importRow, if_neg (by simp [hdup]), if_pos hover, h.listing]
      exact congrArg (Listing.mk · _) hservers.symm
    keys := by
      rw [List.filter_append, List.filter_cons_of_neg (by simp [isFresh, hdup]), List.filter_nil,
        List.append_nil, ← h.keys]
      exact keys_of_trace htrace
    agree := fun u hu r hr hkey => h.agree_update hrow.address (hservers ▸ hu) hr hkey
    byID := by
      intro u hu
      rw [lookup_cons]
      split_ifs with huid
      · rfl
      · obtain ⟨v, hv, hvid, -⟩ := exists_of_trace htrace hu
        exact hvid ▸ h.byID v hv
    known := by
      intro r hr hne u hu hkey
      obtain ⟨v, hv, hvid, hvkey⟩ := exists_of_trace htrace hu
      exact hvid.symm.trans (h.known r hr hne v hv (hvkey r.key hkey))
    byKey := by
      intro r hr hzero
      rw [lookup_cons]
      apply Eq.trans _ (find_of_trace htrace r.key).symm
      split_ifs with hk
      · rw [← hk, ← List.head?_filter]
        change _ = ((s.db.servers.filter (hasKey row.key)).head?).map _
        rw [hfilter]
        rfl
      · exact h.byKey r hr hzero
    result := by
      have := h.result
      simp only [length_done]
      omega }

variable (now decisions) in
theorem Imported.skip (h : Imported columns initial rows done s l)
    (hdup : row.duplicate = true) (hover : overwrites decisions row = false) :
    ∃ s', importItem now s (itemOf decisions row) = .ok s' ∧
      Imported columns initial rows (done ++ [row]) s'
        (importRow columns now decisions l row) := by
  refine ⟨{ s with result := { s.result with skipped := s.result.skipped + 1 } }, ?_, ?_⟩
  · have haction : (itemOf decisions row).action = str "skip" := by
      simp [itemOf, action, hdup, hover]
    rw [importItem, if_pos haction]
  have hrow : importRow columns now decisions l row = l := by
    simp [importRow, hdup, hover]
  rw [hrow]
  exact {
    wellFormed := h.wellFormed
    listing := h.listing
    keys := by
      rw [List.filter_append, List.filter_cons_of_neg (by simp [isFresh, hdup]), List.filter_nil,
        List.append_nil]
      exact h.keys
    agree := h.agree
    byID := h.byID
    known := h.known
    byKey := h.byKey
    result := by
      have := h.result
      simp only [length_done]
      omega }

variable (now decisions) in
theorem Imported.item (h : Imported columns initial rows done s l)
    (hrows : AreRows columns initial rows) (hsplit : rows = done ++ row :: rest) :
    ∃ s', importItem now s (itemOf decisions row) = .ok s' ∧
      Imported columns initial rows (done ++ [row]) s'
        (importRow columns now decisions l row) := by
  cases hdup : row.duplicate with
  | false => exact h.create now decisions hrows hsplit hdup
  | true =>
    cases hover : overwrites decisions row with
    | false => exact h.skip now decisions hdup hover
    | true => exact h.overwrite now decisions hrows hsplit hover

variable (now decisions) in
/-- The transaction imports row after row. -/
theorem Imported.run {after : List PreviewRow} (h : Imported columns initial rows done s l)
    (hrows : AreRows columns initial rows) (hsplit : rows = done ++ rest ++ after) :
    ∃ s', (rest.map (itemOf decisions)).foldlM (importItem now) s = .ok s' ∧
      Imported columns initial rows (done ++ rest) s'
        (rest.foldl (importRow columns now decisions) l) := by
  induction rest generalizing done s l with
  | nil =>
    rw [List.append_nil]
    exact ⟨s, rfl, h⟩
  | cons row rest ih =>
    have hrest : rows = done ++ row :: (rest ++ after) := by simp [hsplit]
    obtain ⟨s₁, h₁, himported⟩ := h.item now decisions hrows hrest
    obtain ⟨s₂, h₂, hdone⟩ := ih himported (by simp [hsplit])
    have happend : done ++ row :: rest = done ++ [row] ++ rest := by simp
    refine ⟨s₂, ?_, happend ▸ hdone⟩
    rw [List.map_cons, List.foldlM_cons, h₁]
    exact h₂

omit [CaseTables] in
theorem lookup_addKey (k : GoString) (id : Int) (m : List (GoString × Int)) {j : GoString}
    (hne : k ≠ j) : lookup (addKey k id m) j = lookup m j := by
  rw [addKey]
  split
  · split_ifs <;> rw [lookup_cons, if_neg hne]
  · rw [lookup_cons, if_neg hne]

omit [CaseTables] in
theorem lookup_addresses {servers : List Server} {k : GoString}
    (h : ∀ s ∈ servers, s.address ≠ k) (m : List (GoString × Int)) :
    lookup (servers.foldl (fun byKey s => addKey s.address s.id byKey) m) k = lookup m k := by
  induction servers generalizing m with
  | nil => rfl
  | cons s servers ih =>
    rw [List.forall_mem_cons] at h
    rw [List.foldl_cons, ih h.2, lookup_addKey _ _ _ h.1]

variable (decisions) in
omit [CaseTables] in
theorem prepareItem_items {byID : List (Int × Server)}
    (hid : ∀ row ∈ rest, 0 < row.server.id → (lookup byID row.server.id).isSome = true)
    (m : List (GoString × Int)) :
    ∃ m', (rest.map (itemOf decisions)).foldlM (fun m item => prepareItem m byID item) m =
        .ok m' ∧
      ∀ k, (∀ row ∈ rest, 0 < row.server.id → row.key ≠ k) → lookup m' k = lookup m k := by
  induction rest generalizing m with
  | nil => exact ⟨m, rfl, fun _ _ => rfl⟩
  | cons row rest ih =>
    rw [List.forall_mem_cons] at hid
    have hstep : ∃ m₁, prepareItem m byID (itemOf decisions row) = .ok m₁ ∧
        ∀ k, (0 < row.server.id → row.key ≠ k) → lookup m₁ k = lookup m k := by
      by_cases hpos : 0 < row.server.id
      · obtain ⟨known, hknown⟩ := Option.isSome_iff_exists.mp (hid.1 hpos)
        refine ⟨if row.key ≠ [] then addKey row.key row.server.id m else m, ?_, fun k hk => ?_⟩
        · have hitem : 0 < (itemOf decisions row).server.id := hpos
          rw [prepareItem, if_pos hitem]
          simp only [itemOf, hknown]
          rfl
        · split_ifs
          · exact lookup_addKey _ _ _ (hk hpos)
          · rfl
      · have hitem : ¬0 < (itemOf decisions row).server.id := hpos
        exact ⟨m, by rw [prepareItem, if_neg hitem], fun _ _ => rfl⟩
    obtain ⟨m₁, h₁, hlookup₁⟩ := hstep
    obtain ⟨m₂, h₂, hlookup₂⟩ := ih hid.2 m₁
    refine ⟨m₂, ?_, fun k hk => ?_⟩
    · rw [List.map_cons, List.foldlM_cons, h₁]
      exact h₂
    · rw [List.forall_mem_cons] at hk
      rw [hlookup₂ k hk.2, hlookup₁ k hk.1]

theorem filter_ne_nil {servers : List Server} {t : Server} (ht : t ∈ servers)
    (hkey : hasKey key t = true) : servers.filter (hasKey key) ≠ [] :=
  List.ne_nil_of_mem (List.mem_filter.mpr ⟨ht, hkey⟩)

variable (decisions) in
theorem imported_start {db : DB F} (hdb : WellFormed db)
    (hrows : AreRows columns db.servers rows)
    (hkeyed : ∀ s ∈ db.servers, ∃ key, addressKey s.address = .ok key) :
    ∃ byKey, (rows.map (itemOf decisions)).foldlM
        (fun byKey item => prepareItem byKey (db.servers.map fun s => (s.id, s)) item)
        (db.servers.foldl (fun byKey s => addKey s.address s.id byKey) []) = .ok byKey ∧
      Imported columns db.servers rows []
        { db, byID := db.servers.map fun s => (s.id, s), byKey, result := ⟨0, 0, 0⟩ }
        ⟨db.servers, db.serverSeq⟩ := by
  have hbyID : ∀ t ∈ db.servers,
      (lookup (db.servers.map fun s => (s.id, s)) t.id).isSome = true := by
    intro t ht
    rw [lookup, Option.isSome_map, List.find?_isSome]
    exact ⟨(t.id, t), List.mem_map_of_mem ht, by simp⟩
  have hfound : ∀ row ∈ rows, row.server.id ≠ 0 → ∃ e ∈ db.servers,
      db.servers.filter (hasKey row.key) = [e] ∧ row.server.id = e.id := by
    intro row hrow hne
    obtain ⟨before, hbefore⟩ := hrows.exists_before hrow
    obtain ⟨e, he, hid, -⟩ := hbefore.found fun hnil => hne (hbefore.fresh hnil).1
    exact ⟨e, (List.mem_filter.mp (he ▸ List.mem_singleton_self e)).1, he, hid⟩
  have hfresh : ∀ row ∈ rows, row.server.id = 0 → db.servers.filter (hasKey row.key) = [] := by
    intro row hrow hzero
    obtain ⟨before, hbefore⟩ := hrows.exists_before hrow
    by_contra hne
    obtain ⟨e, he, hid, -⟩ := hbefore.found hne
    have hmem := (List.mem_filter.mp (he ▸ List.mem_singleton_self e)).1
    have := hdb.server_seq e.id (List.mem_map_of_mem hmem)
    omega
  obtain ⟨byKey, hbyKey, hlookup⟩ := prepareItem_items decisions
    (fun row hrow hpos => by
      obtain ⟨e, he, -, hid⟩ := hfound row hrow (by omega)
      rw [hid]
      exact hbyID e he) (db.servers.foldl (fun byKey s => addKey s.address s.id byKey) [])
  refine ⟨byKey, hbyKey, ?_⟩
  exact {
    wellFormed := hdb
    listing := rfl
    keys := by simp
    agree := by
      intro t ht row hrow hkey
      obtain ⟨before, hbefore⟩ := hrows.exists_before hrow
      obtain ⟨e, he, -, hagree⟩ := hbefore.found (filter_ne_nil ht hkey)
      have hte : t ∈ db.servers.filter (hasKey row.key) := List.mem_filter.mpr ⟨ht, hkey⟩
      rw [he, List.mem_singleton] at hte
      exact hte ▸ hagree
    byID := hbyID
    known := by
      intro row hrow hne t ht hkey
      obtain ⟨e, -, he, hid⟩ := hfound row hrow hne
      have hte : t ∈ db.servers.filter (hasKey row.key) := List.mem_filter.mpr ⟨ht, hkey⟩
      rw [he, List.mem_singleton] at hte
      rw [hte, hid]
    byKey := by
      intro row hrow hzero
      have hnil := hfresh row hrow hzero
      have hnone : ∀ t ∈ db.servers, ¬hasKey row.key t = true :=
        fun t ht hkey => filter_ne_nil ht hkey hnil
      rw [List.find?_eq_none.mpr hnone, hlookup, lookup_addresses]
      · rfl
      · -- An address that reads like a key has that key.
        intro t ht hsame
        obtain ⟨before, hbefore⟩ := hrows.exists_before hrow
        obtain ⟨k, hk⟩ := hkeyed t ht
        have hself : k = row.key := addressKey_key hbefore.address (hsame ▸ hk)
        exact hnone t ht (hasKey_iff.mpr (hself ▸ hk))
      · intro r hr hpos hsame
        obtain ⟨e, he, hfilter, -⟩ := hfound r hr (by omega)
        rw [hsame, hnil] at hfilter
        simp at hfilter
    result := rfl }

theorem Imported.countP_le (h : Imported columns initial rows done s l)
    (hdone : AreRows columns initial done) (key : GoString) :
    s.db.servers.countP (hasKey key) ≤ max 1 (initial.countP (hasKey key)) := by
  rw [h.countP_servers hdone]
  split_ifs with hcond
  · rw [List.countP_eq_length_filter, hcond.1]
    simp
  · omega

variable (now) in
theorem importServers_rows {listedDB db : DB F} {input : ImportRequest} {p : Preview}
    (hdb : WellFormed db) (hp : prepareImport input.csv listedDB.servers = .ok p)
    (herrors : p.errors = 0) (hdecided : Decided p.rows input.decisions)
    (hsnapshot : input.snapshot = some (serverSnapshot listedDB.servers))
    (hsame : serverSnapshot db.servers = serverSnapshot listedDB.servers) :
    AreRows (csvColumns input.csv) db.servers p.rows ∧
      ∃ start s : ImportState F,
        Imported (csvColumns input.csv) db.servers p.rows [] start ⟨db.servers, db.serverSeq⟩ ∧
        (p.rows.map (itemOf input.decisions)).foldlM (importItem now) start = .ok s ∧
        ServerCsv.importServers listedDB db now input = (.ok s.result, s.db) := by
  obtain ⟨hkeyed, hlisted⟩ := isRow_prepareImport hp herrors
  have hrows : AreRows (csvColumns input.csv) db.servers p.rows :=
    fun before row after h => isRow_of_serverSnapshot hsame (hlisted before row after h)
  refine ⟨hrows, ?_⟩
  obtain ⟨byKey, hbyKey, hstart⟩ := imported_start input.decisions hdb hrows
    (keyed_of_serverSnapshot hsame hkeyed)
  have hall : p.rows = [] ++ p.rows ++ [] := by simp
  obtain ⟨s, hs, -⟩ := hstart.run now input.decisions hrows hall
  refine ⟨_, s, hstart, hs, ?_⟩
  have hnumbered : Numbered p.rows := fun before row after h => (hrows before row after h).number
  obtain ⟨m, hm, hitems⟩ := readDecisions_items hnumbered hdecided
  have hread : readImport listedDB.servers input = .ok (p.rows.map (itemOf input.decisions)) := by
    simp [readImport, require, hsnapshot, hp, herrors, hm, hitems, bind, Except.bind,
      mapError_ok]
  have hstore : Store.Servers.importServers db now (input.snapshot.getD [])
      (p.rows.map (itemOf input.decisions)) = .ok (s.db, s.result) := by
    rw [Store.Servers.importServers]
    simp [require, hsnapshot, hsame, hbyKey, hs, bind, Except.bind, pure, Except.pure]
  simp only [ServerCsv.importServers, hread, hstore]

theorem importServers_changed {listedDB db : DB F} {input : ImportRequest}
    (h : input.snapshot ≠ some (serverSnapshot db.servers)) :
    ∃ e, ServerCsv.importServers listedDB db now input = (.error e, db) := by
  rw [ServerCsv.importServers]
  cases hread : readImport listedDB.servers input with
  | error e => exact ⟨e, rfl⟩
  | ok items =>
    simp only [readImport, bind_eq_ok, require_eq_ok] at hread
    obtain ⟨_, hsnapshot, -⟩ := hread
    have hne : serverSnapshot db.servers ≠ serverSnapshot listedDB.servers :=
      fun he => h (he ▸ hsnapshot)
    have hstore : Store.Servers.importServers db now (input.snapshot.getD []) items =
        .error errImportConflict := by
      simp [Store.Servers.importServers, require, hsnapshot, hne, bind, Except.bind]
    simp only [hstore, if_true]
    exact ⟨_, rfl⟩

/-- The import of an accepted text is the import of its rows, one after the other, or nothing. -/
theorem import_exact {listedDB db : DB F} (hdb : WellFormed db) (now : Int)
    (input : ImportRequest) :
    (∀ p, prepareImport input.csv listedDB.servers = .ok p → p.errors = 0 →
      Decided p.rows input.decisions →
      input.snapshot = some (serverSnapshot listedDB.servers) →
      serverSnapshot db.servers = serverSnapshot listedDB.servers →
      let imported := fun rows : List PreviewRow =>
        rows.foldl (importRow (csvColumns input.csv) now input.decisions)
          ⟨db.servers, db.serverSeq⟩
      ∃ result db', ServerCsv.importServers listedDB db now input = (.ok result, db') ∧
        imported p.rows = ⟨db'.servers, db'.serverSeq⟩ ∧
        (∀ before row after, p.rows = before ++ row :: after →
          overwrites input.decisions row = true →
          (imported before).servers.countP (hasKey row.key) = 1) ∧
        result.created + result.updated + result.skipped = p.rows.length ∧
        ∀ key, db'.servers.countP (hasKey key) ≤ max 1 (db.servers.countP (hasKey key))) ∧
    (input.snapshot ≠ some (serverSnapshot db.servers) →
      ∃ e, ServerCsv.importServers listedDB db now input = (.error e, db)) := by
  refine ⟨?_, importServers_changed⟩
  intro p hp herrors hdecided hsnapshot hsame imported
  obtain ⟨hrows, start, s, hstart, hs, hresult⟩ :=
    importServers_rows now hdb hp herrors hdecided hsnapshot hsame
  have hfront : ∀ before after, p.rows = before ++ after → ∃ s' : ImportState F,
      (before.map (itemOf input.decisions)).foldlM (importItem now) start = .ok s' ∧
        Imported (csvColumns input.csv) db.servers p.rows before s' (imported before) :=
    fun before after hsplit =>
      hstart.run now input.decisions hrows (show p.rows = [] ++ before ++ after from hsplit)
  obtain ⟨s', hs', hdone⟩ := hfront p.rows [] (by simp)
  obtain rfl : s' = s := Except.ok.inj (hs'.symm.trans hs)
  refine ⟨s'.result, s'.db, hresult, hdone.listing, ?_, hdone.result, hdone.countP_le hrows⟩
  intro before row after hsplit hover
  obtain ⟨s₁, -, hbefore⟩ := hfront before (row :: after) hsplit
  obtain ⟨t, ht⟩ := hbefore.exists_target (AreRows.of_append (hsplit ▸ hrows))
    (hrows before row after hsplit) (Bool.and_eq_true_iff.mp hover).1
  rw [hbefore.listing, List.countP_eq_length_filter, ht]
  rfl

end

section

local instance : CaseTables := asciiTables

def exampleDB : DB ℚ := Runs.run step (openStore emptyLegacy) [.saveServer 900 exampleServer]

def exampleImport : ImportRequest where
  csv := str "name,address\nhome,1.1.1.1\nold,UDP://1.1.1.1\nnew,tls://9.9.9.9\nnewer,tls://9.9.9.9:853\n"
  snapshot := some (serverSnapshot exampleDB.servers)
  decisions := [⟨4, str "overwrite"⟩, ⟨1, str "overwrite"⟩, ⟨2, str "skip"⟩]

theorem import_exact_example : ∃ result db',
    ServerCsv.importServers exampleDB exampleDB 1000 exampleImport = (.ok result, db') ∧
      result.created + result.updated + result.skipped = 4 ∧
      ∀ key, db'.servers.countP (hasKey key) ≤ max 1 (exampleDB.servers.countP (hasKey key)) := by
  have hrows : (prepareImport exampleImport.csv exampleDB.servers).toOption.map
      (fun p => (p.errors, p.rows.map fun row => (row.row, row.duplicate))) =
        some (0, [(1, true), (2, true), (3, false), (4, true)]) := by decide +kernel
  obtain ⟨p, hp, hvalue⟩ := Option.map_eq_some_iff.mp hrows
  obtain ⟨herrors, hpairs⟩ := Prod.mk.inj hvalue
  have hok : prepareImport exampleImport.csv exampleDB.servers = .ok p := by
    cases h : prepareImport exampleImport.csv exampleDB.servers with
    | error e => simp [h, Except.toOption] at hp
    | ok q => simpa [h, Except.toOption] using hp
  have hmem : ∀ row ∈ p.rows,
      (row.row, row.duplicate) ∈ [(1, true), (2, true), (3, false), (4, true)] :=
    fun row hrow => hpairs ▸ List.mem_map_of_mem hrow
  have hdecided : Decided p.rows exampleImport.decisions := by
    constructor
    · decide
    · decide
    · have hd : ∀ d ∈ exampleImport.decisions, (d.row.toNat, true) ∈
          p.rows.map (fun row => (row.row, row.duplicate)) ∧ 0 ≤ d.row := by
        rw [hpairs]
        decide
      intro d hin
      obtain ⟨hpair, hpos⟩ := hd d hin
      obtain ⟨row, hrow, he⟩ := List.mem_map.mp hpair
      obtain ⟨hnum, hdup⟩ := Prod.mk.inj he
      exact ⟨row, hrow, by omega, hdup⟩
    · intro row hrow hdup
      have := hmem row hrow
      rw [hdup] at this
      generalize row.row = n at this
      revert n
      simp [exampleImport]
  have hdb : WellFormed exampleDB := wellFormed_reachable ⟨emptyLegacy, _, rfl⟩
  obtain ⟨result, db', himport, -, -, hsum, hkeys⟩ :=
    (import_exact hdb 1000 exampleImport).1 p hok herrors hdecided rfl rfl
  have hlength : p.rows.length = 4 := by
    have := congrArg List.length hpairs
    rwa [List.length_map] at this
  exact ⟨result, db', himport, by rw [hsum, hlength]; rfl, hkeys⟩

end

end DnsMonitor.Httpapi.Import
