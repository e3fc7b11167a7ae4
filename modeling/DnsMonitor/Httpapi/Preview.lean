import DnsMonitor.Httpapi.ServerCsv
import DnsMonitor.Monitor.Keys

namespace DnsMonitor.Httpapi.Preview

open DnsMonitor.Model DnsMonitor.Monitor.Endpoint DnsMonitor.Monitor.Keys
open DnsMonitor.Httpapi.ServerCsv DnsMonitor.Store.Servers
open DnsMonitor.Go.Strings DnsMonitor.Go.Unicode DnsMonitor.Go.Errors DnsMonitor.Go.Csv

variable {columns : List (GoString × Nat)} {s t u : Server}

/-- The two servers do not differ in a column that the header has not. -/
structure Agree (columns : List (GoString × Nat)) (s t : Server) : Prop where
  provider : columns.lookup (str "provider") = none → s.provider = t.provider
  enabled : columns.lookup (str "enabled") = none → s.enabled = t.enabled
  trusted : columns.lookup (str "trusted") = none → s.trusted = t.trusted
  notes : columns.lookup (str "notes") = none → s.notes = t.notes

theorem Agree.symm (h : Agree columns s t) : Agree columns t s where
  provider hc := (h.provider hc).symm
  enabled hc := (h.enabled hc).symm
  trusted hc := (h.trusted hc).symm
  notes hc := (h.notes hc).symm

theorem Agree.trans (h : Agree columns s t) (h' : Agree columns t u) : Agree columns s u where
  provider hc := (h.provider hc).trans (h'.provider hc)
  enabled hc := (h.enabled hc).trans (h'.enabled hc)
  trusted hc := (h.trusted hc).trans (h'.trusted hc)
  notes hc := (h.notes hc).trans (h'.notes hc)

theorem agree_mergeExisting (columns : List (GoString × Nat)) (s t : Server) :
    Agree columns s (mergeExisting columns s t) := by
  constructor
  all_goals
    intro hc
    simp [mergeExisting, hc]

theorem mergeExisting_of_agree (h : Agree columns s t) :
    mergeExisting columns s t = { t with id := s.id } := by
  have hif : ∀ {α : Type} {c : Option Nat} {a b : α}, (c = none → b = a) →
      (if c.isSome then a else b) = a := by
    intro α c a b hc
    cases c with
    | none => simp [hc]
    | some i => rfl
  simp only [mergeExisting, hif h.provider, hif h.enabled, hif h.trusted, hif h.notes]

/-- What the columns are that the header has not, where there is no server to take them from. -/
def defaults : Server := { noServer with enabled := true }

section

variable [CaseTables] {servers : List Server} {key : GoString}

theorem normalizeServerInput_ok (h : normalizeServerInput s = (t, .ok ())) :
    ∃ address protocol, t = { s with
      name := trimSpace s.name
      provider := trimSpace s.provider
      notes := trimSpace s.notes
      address, protocol } := by
  simp only [normalizeServerInput] at h
  split_ifs at h with hbad
  · simp at h
  · split at h
    · simp at h
    · next address protocol hv => exact ⟨address, protocol, (Prod.ext_iff.mp h).1.symm⟩

theorem parseCSVBool_nil (fallback : Bool) : parseCSVBool [] fallback = .ok fallback := by
  have hempty : toLower (trimSpace []) = [] := rfl
  simp [parseCSVBool, hempty]

omit [CaseTables] in
theorem cell_missing {name : GoString} {cells : List GoString} (h : columns.lookup name = none) :
    cell columns cells name = [] := by
  rw [cell, h]

theorem agree_readRow {cells : List GoString} (h : readRow columns cells = (s, .ok key)) :
    Agree columns defaults s ∧ s.id = 0 ∧ addressKey s.address = .ok key := by
  simp only [readRow] at h
  split at h
  · simp at h
  next enabled henabled =>
  split at h
  · simp at h
  next trusted htrusted =>
  split at h
  · simp at h
  next server hnorm =>
  obtain ⟨address, protocol, rfl⟩ := normalizeServerInput_ok hnorm
  obtain ⟨rfl, hkey⟩ := Prod.ext_iff.mp h
  refine ⟨?_, rfl, mapError_eq_ok.mp hkey⟩
  constructor
  · intro hc
    simp only [cell_missing hc]
    rfl
  · intro hc
    rw [cell_missing hc, parseCSVBool_nil] at henabled
    exact Except.ok.inj henabled
  · intro hc
    rw [cell_missing hc, parseCSVBool_nil] at htrusted
    exact Except.ok.inj htrusted
  · intro hc
    simp only [cell_missing hc]
    rfl

def hasKey (key : GoString) (s : Server) : Bool := addressKey s.address = .ok key

theorem hasKey_iff : hasKey key s = true ↔ addressKey s.address = .ok key := by
  simp [hasKey]

theorem keyServers_ok {byKey : List (GoString × Server)} (h : keyServers servers = .ok byKey) :
    (∀ s ∈ servers, ∃ key, addressKey s.address = .ok key) ∧
      ∀ key, (byKey.filter fun p => p.1 = key).map (·.2) = servers.filter (hasKey key) := by
  induction servers generalizing byKey with
  | nil =>
    obtain rfl := Except.ok.inj h
    simp
  | cons s servers ih =>
    simp only [keyServers, bind_eq_ok, pure_eq_ok, mapError_eq_ok] at h
    obtain ⟨k, hk, rest, hrest, rfl⟩ := h
    obtain ⟨hkeyed, hfilter⟩ := ih hrest
    refine ⟨List.forall_mem_cons.mpr ⟨⟨k, hk⟩, hkeyed⟩, fun key => ?_⟩
    by_cases hkey : k = key
    · have hs : hasKey key s = true := hasKey_iff.mpr (hkey ▸ hk)
      rw [List.filter_cons_of_pos (by simp [hkey]), List.filter_cons_of_pos hs, List.map_cons,
        hfilter]
    · have hs : ¬hasKey key s = true := by
        rw [hasKey_iff, hk]
        simpa using hkey
      rw [List.filter_cons_of_neg (by simp [hkey]), List.filter_cons_of_neg hs, hfilter]

structure IsRow (columns : List (GoString × Nat)) (servers : List Server)
    (earlier : List PreviewRow) (row : PreviewRow) : Prop where
  number : row.row = earlier.length + 1
  address : addressKey row.server.address = .ok row.key
  duplicate : row.duplicate = true ↔
    servers.filter (hasKey row.key) ≠ [] ∨ row.key ∈ earlier.map (·.key)
  fresh : servers.filter (hasKey row.key) = [] →
    row.server.id = 0 ∧ Agree columns defaults row.server
  found : servers.filter (hasKey row.key) ≠ [] → ∃ e, servers.filter (hasKey row.key) = [e] ∧
    row.server.id = e.id ∧ Agree columns e row.server

theorem isRow_previewRead {earlier : List PreviewRow} {prior : Option Nat}
    (hagree : Agree columns defaults s) (hid : s.id = 0) (hkey : addressKey s.address = .ok key)
    (hprior : prior.isSome = true ↔ key ∈ earlier.map (·.key))
    (herror : (previewRead columns (servers.filter (hasKey key)) prior (earlier.length + 1) s
      key).error = none) :
    IsRow columns servers earlier (previewRead columns (servers.filter (hasKey key)) prior
      (earlier.length + 1) s key) := by
  have hmem : key ∈ earlier.map (·.key) ↔ prior ≠ none := by
    rw [← hprior, Option.isSome_iff_ne_none]
  cases hmatch : servers.filter (hasKey key) with
  | nil =>
    have hrow : ∀ row : PreviewRow, row.row = earlier.length + 1 → row.server = s → row.key = key →
        (row.duplicate = true ↔ prior ≠ none) → IsRow columns servers earlier row := by
      intro row hnumber hserver hk hdup
      subst hserver hk
      exact {
        number := hnumber
        address := hkey
        duplicate := by rw [hdup, hmatch, hmem]; simp
        fresh := fun _ => ⟨hid, hagree⟩
        found := fun hne => absurd hmatch hne }
    cases prior with
    | none => exact hrow _ rfl rfl rfl (by simp [previewRead])
    | some prior => exact hrow _ rfl rfl rfl (by simp [previewRead])
  | cons e rest =>
    cases rest with
    | nil =>
      have hrow : ∀ row : PreviewRow, row.row = earlier.length + 1 →
          row.server = mergeExisting columns e s → row.key = key → row.duplicate = true →
          IsRow columns servers earlier row := by
        intro row hnumber hserver hk hdup
        subst hk
        exact {
          number := hnumber
          address := by rw [hserver]; exact hkey
          duplicate := by simp [hdup, hmatch]
          fresh := fun hnil => by simp [hmatch] at hnil
          found := fun _ => ⟨e, hmatch, by rw [hserver]; rfl,
            by rw [hserver]; exact agree_mergeExisting columns e s⟩ }
      cases prior with
      | none => exact hrow _ rfl rfl rfl rfl
      | some prior => exact hrow _ rfl rfl rfl rfl
    | cons e' rest =>
      rw [hmatch] at herror
      cases prior <;> simp [previewRead] at herror

omit [CaseTables] in
theorem previewRead_key (matching : List Server) (prior : Option Nat) (row : Nat) :
    (previewRead columns matching prior row s key).key = key := by
  obtain _ | ⟨e, _ | ⟨e', rest⟩⟩ := matching <;> cases prior <;> rfl

theorem isRow_previewRows {byKey : List (GoString × Server)} {width : Nat}
    (hbyKey : ∀ key, (byKey.filter fun p => p.1 = key).map (·.2) = servers.filter (hasKey key))
    (records : List (List GoString)) {earlier : List PreviewRow}
    {firstRow : List (GoString × Nat)}
    (hfirst : ∀ key, (firstRow.lookup key).isSome = true ↔ key ∈ earlier.map (·.key))
    (herrors : ∀ row ∈ previewRows columns width byKey (earlier.length + 1) firstRow records,
      row.error = none)
    {before after : List PreviewRow} {row : PreviewRow}
    (hrows : previewRows columns width byKey (earlier.length + 1) firstRow records =
      before ++ row :: after) : IsRow columns servers (earlier ++ before) row := by
  induction records generalizing earlier firstRow before with
  | nil => simp [previewRows] at hrows
  | cons cells records ih =>
    rw [previewRows] at herrors hrows
    split_ifs at herrors hrows with hwidth
    · exact absurd (herrors _ (List.mem_cons_self ..)) (by simp [unread])
    cases hread : readRow columns cells with
    | mk server result =>
      cases result with
      | error e =>
        rw [hread] at herrors
        exact absurd (herrors _ (List.mem_cons_self ..)) (by simp [unread])
      | ok key =>
        simp only [hread, hbyKey] at herrors hrows
        obtain ⟨hagree, hid, hkey⟩ := agree_readRow hread
        have hrow := isRow_previewRead hagree hid hkey (hfirst key)
          (herrors _ (List.mem_cons_self ..))
        cases before with
        | nil =>
          obtain ⟨rfl, -⟩ := List.cons.inj hrows
          rw [List.append_nil]
          exact hrow
        | cons first before =>
          obtain ⟨hfirstrow, hrest⟩ := List.cons.inj hrows
          have hk : first.key = key := by rw [← hfirstrow, previewRead_key]
          have hlength : earlier.length + 1 + 1 = (earlier ++ [first]).length + 1 := by simp
          rw [hlength] at hrest herrors
          have happend : earlier ++ first :: before = earlier ++ [first] ++ before := by simp
          rw [happend]
          apply ih _ _ hrest
          · intro k
            rw [List.map_append, List.mem_append, ← hfirst k, List.map_singleton,
              List.mem_singleton, hk]
            split_ifs with hsome
            · exact ⟨.inl, fun h => h.elim id fun h => h ▸ hsome⟩
            · rw [List.lookup_cons]
              by_cases hkk : k = key
              · simp [hkk]
              · simp [beq_eq_false_iff_ne.mpr hkk, hkk]
          · exact fun row hmem => herrors row (List.mem_cons_of_mem _ hmem)

def csvColumns (raw : GoString) : List (GoString × Nat) :=
  ((readColumns ((readAll (trimPrefix raw bom)).1.headD [])).toOption).getD []

theorem isRow_prepareImport {raw : GoString} {p : Preview}
    (h : prepareImport raw servers = .ok p) (herrors : p.errors = 0) :
    (∀ s ∈ servers, ∃ key, addressKey s.address = .ok key) ∧
      ∀ before row after, p.rows = before ++ row :: after →
        IsRow (csvColumns raw) servers before row := by
  simp only [prepareImport, bind_eq_ok, require_eq_ok] at h
  obtain ⟨_, -, _, -, h⟩ := h
  unfold csvColumns
  cases hread : readAll (trimPrefix raw bom) with
  | mk records complete =>
    rw [hread] at h
    cases records with
    | nil => simp at h
    | cons header records =>
      simp only [bind_eq_ok, require_eq_ok, pure_eq_ok] at h
      obtain ⟨columns, hcolumns, byKey, hbyKey, _, -, _, -, _, -, rfl⟩ := h
      obtain ⟨hkeyed, hfilter⟩ := keyServers_ok hbyKey
      refine ⟨hkeyed, fun before row after hrows => ?_⟩
      simp only [List.headD_cons, hcolumns, Except.toOption, Option.getD_some]
      have hnone := List.filter_eq_nil_iff.mp (List.length_eq_zero_iff.mp herrors)
      have hfirst : ∀ key, (([] : List (GoString × Nat)).lookup key).isSome = true ↔
          key ∈ ([] : List PreviewRow).map (·.key) := by simp
      exact isRow_previewRows hfilter records hfirst
        (fun row hmem => by simpa using hnone row hmem) hrows

end

end DnsMonitor.Httpapi.Preview
