import DnsMonitor.Httpapi.Import
import DnsMonitor.Monitor.StoredText

namespace DnsMonitor.Httpapi.RoundTrip

open DnsMonitor.Model DnsMonitor.Monitor.Address DnsMonitor.Monitor.Endpoint
open DnsMonitor.Monitor.StoredText
open DnsMonitor.Httpapi.ServerCsv DnsMonitor.Httpapi.Preview DnsMonitor.Httpapi.Decisions
open DnsMonitor.Httpapi.Import
open DnsMonitor.Store.Schema DnsMonitor.Store.Servers DnsMonitor.Store.Migration
open DnsMonitor.Store.WellFormed DnsMonitor.Store.Run DnsMonitor.Lib.Tables DnsMonitor.Lib
open DnsMonitor.Go.Strings DnsMonitor.Go.Unicode DnsMonitor.Go.Errors DnsMonitor.Go.Url
open DnsMonitor.Go.Utf8 DnsMonitor.Go.Csv DnsMonitor.Go.Chars

def restored (v : GoString) : GoString := withoutCR (csvSafe v)

structure IsPlain (v : GoString) : Prop where
  noCR : cr ∉ v
  noFormula : ∀ b ∈ v.head?, b ∉ str "=+-@"

theorem csvSafe_cases (v : GoString) : csvSafe v = v ∨ csvSafe v = 0x27 :: v := by
  unfold csvSafe
  split_ifs
  · exact .inr rfl
  · exact .inl rfl

theorem csvSafe_of_head {b : UInt8} (t : GoString)
    (h : b ∉ str "=+-@" ∧ b ≠ 0x09 ∧ b ≠ 0x0D) : csvSafe (b :: t) = b :: t := by
  obtain ⟨hb, htab, hcr⟩ := h
  have hsigns : b ≠ 0x3D ∧ b ≠ 0x2B ∧ b ≠ 0x2D ∧ b ≠ 0x40 := by
    refine ⟨?_, ?_, ?_, ?_⟩ <;> (rintro rfl; exact hb (by decide))
  have hno : ∀ c : UInt8, b ≠ c → hasPrefix (b :: t) [c] = false := by
    intro c hc
    rw [Bool.eq_false_iff, ne_eq, hasPrefix_iff, List.cons_prefix_cons]
    exact fun hp => hc hp.1.symm
  have heq : ∀ s c, str s = [c] → b ≠ c → hasPrefix (b :: t) (str s) = false :=
    fun s c hs hc => hs ▸ hno c hc
  rw [csvSafe, heq "=" 0x3D (by decide) hsigns.1, heq "+" 0x2B (by decide) hsigns.2.1,
    heq "-" 0x2D (by decide) hsigns.2.2.1, heq "@" 0x40 (by decide) hsigns.2.2.2,
    hno _ htab, hno _ hcr]
  rfl

theorem withoutCR_of_not_mem {v : GoString} (h : cr ∉ v) : withoutCR v = v := by
  apply List.filter_eq_self.mpr
  intro b hb
  exact decide_eq_true fun he => h (he ▸ hb)

theorem space_head {v : GoString} (h : isTrimmed v) {b : UInt8} (hb : b ∈ v.head?) : [b] ∉ spaces := by
  intro hspace
  obtain ⟨t, rfl⟩ := List.head?_eq_some_iff.mp hb
  exact leading_eq_none.mp h.1 [b] hspace ⟨t, rfl⟩

theorem restored_plain {v : GoString} (ht : isTrimmed v) (h : IsPlain v) : restored v = v := by
  have hsafe : csvSafe v = v := by
    cases v with
    | nil => rfl
    | cons b t =>
      have hspace := space_head ht (b := b) rfl
      refine csvSafe_of_head t ⟨h.noFormula b rfl, ?_, ?_⟩
      · rintro rfl
        exact hspace (by decide)
      · rintro rfl
        exact hspace (by decide)
  rw [restored, hsafe, withoutCR_of_not_mem h.noCR]

theorem restored_text {v : GoString} (hv : IsText v) : IsText (restored v) := by
  apply isText_withoutCR
  obtain h | h := csvSafe_cases v <;> rw [h]
  · exact hv
  · exact .ascii (by decide) hv

theorem restored_trimmed {v : GoString} (hv : IsText v) (ht : isTrimmed v) :
    isTrimmed (restored v) := by
  rw [restored]
  obtain h | h := csvSafe_cases v <;> rw [h]
  · exact isTrimmed_withoutCR hv ht
  · have hcons : withoutCR (0x27 :: v) = 0x27 :: withoutCR v := rfl
    rw [hcons]
    exact isTrimmed_cons (isTrimmed_withoutCR hv ht) (by decide)

theorem restored_ne_nil {v : GoString} (ht : isTrimmed v) (hne : v ≠ []) : restored v ≠ [] := by
  obtain ⟨b, t, rfl⟩ := List.exists_cons_of_ne_nil hne
  have hb : b ≠ cr := by
    rintro rfl
    exact space_head ht (b := cr) rfl (by decide)
  have hmem : b ∈ restored (b :: t) := by
    apply List.mem_filter.mpr
    refine ⟨?_, by simpa using hb⟩
    obtain h | h := csvSafe_cases (b :: t) <;> simp [h]
  exact List.ne_nil_of_mem hmem

theorem restored_word {b : UInt8} {t : GoString} (hb : isLetter b = true)
    (h : containsSpace (b :: t) = false) : restored (b :: t) = b :: t := by
  have hcr : cr ∉ b :: t := by
    intro hmem
    obtain ⟨x, y, hsplit⟩ := List.append_of_mem hmem
    have hnone := containsSpace_eq_false.mp h (cr :: y) ⟨x, hsplit.symm⟩
    exact leading_eq_none.mp hnone [cr] (by decide) ⟨y, rfl⟩
  have hhead : b ∉ str "=+-@" ∧ b ≠ 0x09 ∧ b ≠ 0x0D := by
    revert hb
    clear h hcr
    revert b
    apply forall_byte
    decide +kernel
  rw [restored, csvSafe_of_head t hhead, withoutCR_of_not_mem hcr]

theorem restored_bool (b : Bool) : restored (formatBool b) = formatBool b := by
  cases b <;> decide

section

variable [CaseTables] {s : Server} {key : GoString}

/-- The texts of the input are decoded from JSON, so they are valid. -/
def Saved (s : Server) : Prop := ∃ input t : Server,
  (validString input.name = true ∧ validString input.provider = true ∧
    validString input.address = true ∧ validString input.notes = true) ∧
  normalizeServerInput input = (t, .ok ()) ∧
  s = { t with id := s.id, createdAt := s.createdAt, trustEpoch := s.trustEpoch }

/-- The texts keep within their limits when they are exported. -/
structure Restorable (s : Server) : Prop where
  name : (restored s.name).length ≤ 160
  provider : (restored s.provider).length ≤ 160
  notes : (restored s.notes).length ≤ 2000

def restoredServer (s : Server) : Server :=
  { s with
    name := restored s.name
    provider := restored s.provider
    notes := restored s.notes }

theorem normalizeServerInput_eq_ok {input t : Server}
    (h : normalizeServerInput input = (t, .ok ())) : trimSpace input.name ≠ [] ∧
      ∃ address protocol, validateAddress input.address = .ok (address, protocol) ∧
        t = { input with
          name := trimSpace input.name
          provider := trimSpace input.provider
          notes := trimSpace input.notes
          address, protocol } := by
  simp only [normalizeServerInput] at h
  split_ifs at h with hbad
  · simp at h
  · split at h
    · simp at h
    · next address protocol hv =>
      simp only [Bool.or_eq_true, decide_eq_true_eq, not_or] at hbad
      refine ⟨fun hnil => hbad.1.1.1.2 (by rw [hnil]; rfl), address, protocol, hv, ?_⟩
      exact (Prod.ext_iff.mp h).1.symm

structure IsStored (s : Server) : Prop where
  name : IsText s.name ∧ isTrimmed s.name
  nameSet : s.name ≠ []
  provider : IsText s.provider ∧ isTrimmed s.provider
  notes : IsText s.notes ∧ isTrimmed s.notes
  address : validateAddress s.address = .ok (s.address, s.protocol)
  addressText : IsText s.address
  addressRestored : restored s.address = s.address

theorem isStored_of_saved (h : Saved s) (hkey : addressKey s.address = .ok key) : IsStored s := by
  obtain ⟨input, t, ⟨hname, hprovider, haddress, hnotes⟩, hnorm, hs⟩ := h
  obtain ⟨hne, address, protocol, hvalid, rfl⟩ := normalizeServerInput_eq_ok hnorm
  have hsaddress : s.address = address := by rw [hs]
  have hsprotocol : s.protocol = protocol := by rw [hs]
  have htrim : ∀ {v w : GoString}, validString v = true → w = trimSpace v →
      IsText w ∧ isTrimmed w := by
    rintro v _ hv rfl
    exact ⟨isText_trimSpace (validString_iff.mp hv), isTrimmed_trimSpace v⟩
  obtain ⟨htext, hspace, b, rest, hhead, hletter⟩ :=
    stored_text hvalid (validString_iff.mp haddress)
  rw [hsaddress] at hkey
  exact {
    name := htrim hname (by rw [hs])
    nameSet := by
      rw [hs]
      exact hne
    provider := htrim hprovider (by rw [hs])
    notes := htrim hnotes (by rw [hs])
    address := by
      rw [hsaddress, hsprotocol]
      exact validateAddress_stored hvalid hkey
    addressText := hsaddress ▸ htext
    addressRestored := by
      rw [hsaddress, hhead]
      exact restored_word hletter (hhead ▸ hspace) }

def exportColumns : List (GoString × Nat) :=
  [(str "notes", 5), (str "trusted", 4), (str "enabled", 3), (str "address", 2),
    (str "provider", 1), (str "name", 0)]

theorem toLower_word {v : GoString} (hspace : trimSpace v = v)
    (hascii : ∀ b ∈ v, isAscii b = true) (hlower : v.map lowerByte = v) :
    toLower (trimSpace v) = v := by
  rw [hspace, toLower_ascii hascii, hlower]

theorem readHeader_cons {v : GoString} (hv : v ∈ serverCSVHeader) {i : Nat}
    {columns : List (GoString × Nat)} (hnew : columns.lookup v = none) (header : List GoString) :
    readHeader i columns (v :: header) = readHeader (i + 1) ((v, i) :: columns) header := by
  have hwords : ∀ w ∈ serverCSVHeader, (trimSpace w = w ∧ w.all isAscii = true ∧
      w.map lowerByte = w) ∧ aliases.lookup w = none := by decide +kernel
  obtain ⟨⟨hspace, hascii, hlower⟩, halias⟩ := hwords v hv
  simp only [readHeader, toLower_word hspace (List.all_eq_true.mp hascii) hlower, halias, Option.getD_none, require,
    if_pos hv, if_pos hnew, bind, Except.bind]

theorem readColumns_header : readColumns serverCSVHeader = .ok exportColumns := by
  have hread : readHeader 0 [] serverCSVHeader = .ok exportColumns := by
    rw [serverCSVHeader]
    rw [readHeader_cons (by decide) (by decide), readHeader_cons (by decide) (by decide),
      readHeader_cons (by decide) (by decide), readHeader_cons (by decide) (by decide),
      readHeader_cons (by decide) (by decide), readHeader_cons (by decide) (by decide)]
    rfl
  have hname : exportColumns.lookup (str "name") ≠ none := by decide
  have haddress : exportColumns.lookup (str "address") ≠ none := by decide
  simp only [readColumns, hread, require, if_pos hname, if_pos haddress, bind, Except.bind, pure,
    Except.pure]

theorem parseCSVBool_formatBool (b fallback : Bool) :
    parseCSVBool (formatBool b) fallback = .ok b := by
  have hlower : toLower (trimSpace (formatBool b)) = formatBool b := by
    cases b with
    | false => exact toLower_word (by decide +kernel) (by decide +kernel) (by decide +kernel)
    | true => exact toLower_word (by decide +kernel) (by decide +kernel) (by decide +kernel)
  simp only [parseCSVBool, hlower]
  cases b with
  | false =>
    have hset : formatBool false ≠ [] := by decide
    have hno : ¬(formatBool false = str "true" ∨ formatBool false = str "1" ∨
        formatBool false = str "yes" ∨ formatBool false = utf8 "是") := by decide +kernel
    rw [if_neg hset, if_neg hno, if_pos (.inl rfl)]
  | true =>
    have hset : formatBool true ≠ [] := by decide
    rw [if_neg hset, if_pos (.inl rfl)]

theorem record_eq (h : IsStored s) : (serverRow s).map withoutCR =
    [restored s.name, restored s.provider, s.address, formatBool s.enabled, formatBool s.trusted,
      restored s.notes] := by
  have hmap : (serverRow s).map withoutCR = [restored s.name, restored s.provider,
      restored s.address, restored (formatBool s.enabled), restored (formatBool s.trusted),
      restored s.notes] := rfl
  rw [hmap, h.addressRestored, restored_bool, restored_bool]

theorem readRow_record (h : IsStored s) (hfit : Restorable s)
    (hkey : addressKey s.address = .ok key) :
    readRow exportColumns ((serverRow s).map withoutCR) =
      ({ restoredServer s with id := 0, createdAt := 0, trustEpoch := 0 }, .ok key) := by
  have hcell : ∀ a b c d e f : GoString,
      cell exportColumns [a, b, c, d, e, f] (str "name") = a ∧
      cell exportColumns [a, b, c, d, e, f] (str "provider") = b ∧
      cell exportColumns [a, b, c, d, e, f] (str "address") = c ∧
      cell exportColumns [a, b, c, d, e, f] (str "enabled") = d ∧
      cell exportColumns [a, b, c, d, e, f] (str "trusted") = e ∧
      cell exportColumns [a, b, c, d, e, f] (str "notes") = f :=
    fun _ _ _ _ _ _ => ⟨rfl, rfl, rfl, rfl, rfl, rfl⟩
  obtain ⟨h1, h2, h3, h4, h5, h6⟩ := hcell (restored s.name) (restored s.provider) s.address
    (formatBool s.enabled) (formatBool s.trusted) (restored s.notes)
  have hname := trimSpace_of_isTrimmed (restored_trimmed h.name.1 h.name.2)
  have hprovider := trimSpace_of_isTrimmed (restored_trimmed h.provider.1 h.provider.2)
  have hnotes := trimSpace_of_isTrimmed (restored_trimmed h.notes.1 h.notes.2)
  have htext : validString (restored s.name ++ restored s.provider ++ restored s.notes) = true :=
    validString_iff.mpr (((restored_text h.name.1).append (restored_text h.provider.1)).append
      (restored_text h.notes.1))
  have hset : (restored s.name).length ≠ 0 := fun hzero =>
    restored_ne_nil h.name.2 h.nameSet (List.length_eq_zero_iff.mp hzero)
  have hlimits : ¬160 < (restored s.name).length ∧ ¬160 < (restored s.provider).length ∧
      ¬2000 < (restored s.notes).length := by
    have := hfit.name
    have := hfit.provider
    have := hfit.notes
    omega
  rw [record_eq h]
  simp only [readRow, h1, h2, h3, h4, h5, h6, parseCSVBool_formatBool, normalizeServerInput,
    hname, hprovider, hnotes, htext, hset, hlimits, h.address, decide_false, Bool.not_true,
    Bool.or_self, Bool.false_eq_true, if_false, hkey]
  rfl

def exportRow (row : Nat) (s : Server) (key : GoString) : PreviewRow where
  row := row
  server := { restoredServer s with createdAt := 0, trustEpoch := 0 }
  key := key
  duplicate := true
  existing := some s
  duplicateOfRow := 0
  error := none

def keyOf (s : Server) : GoString := (addressKey s.address).toOption.getD []

def exportRows : Nat → List Server → List PreviewRow
  | _, [] => []
  | row, s :: servers => exportRow row s (keyOf s) :: exportRows (row + 1) servers

structure Exported (servers : List Server) : Prop where
  stored : ∀ s ∈ servers, IsStored s
  fits : ∀ s ∈ servers, Restorable s
  keyed : ∀ s ∈ servers, addressKey s.address = .ok (keyOf s)
  distinct : (servers.map keyOf).Nodup

variable {servers before rest : List Server}

theorem Exported.hasKey_iff (h : Exported servers) {s t : Server} (hs : s ∈ servers)
    (ht : t ∈ servers) : hasKey (keyOf s) t = true ↔ t = s := by
  rw [Preview.hasKey_iff, h.keyed t ht, Except.ok.injEq]
  exact ⟨fun he => List.inj_on_of_nodup_map h.distinct ht hs he, fun he => he ▸ rfl⟩

theorem Exported.filter_key (h : Exported servers) {s : Server} (hs : s ∈ servers) :
    servers.filter (hasKey (keyOf s)) = [s] := by
  rw [filter_single h.distinct.of_map hs, if_pos ((h.hasKey_iff hs hs).mpr rfl)]
  intro t ht hne
  rw [Bool.eq_false_iff]
  exact fun hkey => hne ((h.hasKey_iff hs ht).mp hkey)

omit [CaseTables] in
theorem previewRow_export (s : Server) (key : GoString) (row : Nat) :
    previewRead exportColumns [s] none row
      { restoredServer s with id := 0, createdAt := 0, trustEpoch := 0 } key =
      exportRow row s key := rfl

theorem previewRows_export (h : Exported servers) {byKey : List (GoString × Server)}
    (hbyKey : ∀ key, (byKey.filter fun p => p.1 = key).map (·.2) = servers.filter (hasKey key))
    (hsplit : servers = before ++ rest) {firstRow : List (GoString × Nat)}
    (hfirst : ∀ key, key ∉ before.map keyOf → firstRow.lookup key = none) :
    previewRows exportColumns 6 byKey (before.length + 1) firstRow
      (rest.map fun s => (serverRow s).map withoutCR) = exportRows (before.length + 1) rest := by
  induction rest generalizing before firstRow with
  | nil => rfl
  | cons s rest ih =>
    have hs : s ∈ servers := by simp [hsplit]
    have hwidth : ((serverRow s).map withoutCR).length = 6 := rfl
    have hnew : keyOf s ∉ before.map keyOf := by
      have hdistinct := h.distinct
      rw [hsplit, List.map_append, List.nodup_append'] at hdistinct
      exact fun hmem => hdistinct.2.2 hmem (by simp)
    have hmatch : (byKey.filter fun p => p.1 = keyOf s).map (·.2) = [s] := by
      rw [hbyKey, h.filter_key hs]
    have hsplit' : servers = before ++ [s] ++ rest := by simp [hsplit]
    have hfirst' : ∀ key, key ∉ (before ++ [s]).map keyOf →
        ((keyOf s, before.length + 1) :: firstRow).lookup key = none := by
      intro key hkey
      rw [List.map_append, List.mem_append, not_or, List.map_singleton, List.mem_singleton] at hkey
      rw [List.lookup_cons, beq_eq_false_iff_ne.mpr hkey.2]
      exact hfirst key hkey.1
    have hrest := ih hsplit' hfirst'
    rw [List.length_append, List.length_singleton] at hrest
    rw [List.map_cons, previewRows, if_neg (by simp [hwidth]),
      readRow_record (h.stored s hs) (h.fits s hs) (h.keyed s hs)]
    simp only [hmatch, hfirst _ hnew, Option.isSome_none, Bool.false_eq_true, if_false]
    rw [previewRow_export, hrest, exportRows]

theorem exportRows_error (row : Nat) (servers : List Server) :
    ∀ r ∈ exportRows row servers, r.error = none := by
  induction servers generalizing row with
  | nil => simp [exportRows]
  | cons s servers ih => exact List.forall_mem_cons.mpr ⟨rfl, ih _⟩

theorem Exported.keyServers (h : Exported servers) : ∃ byKey,
    ServerCsv.keyServers servers = .ok byKey := by
  have hkeyed := h.keyed
  clear h
  induction servers with
  | nil => exact ⟨[], rfl⟩
  | cons s servers ih =>
    rw [List.forall_mem_cons] at hkeyed
    obtain ⟨byKey, hbyKey⟩ := ih hkeyed.2
    refine ⟨(keyOf s, s) :: byKey, ?_⟩
    simp [ServerCsv.keyServers, hkeyed.1, hbyKey, mapError_ok]

omit [CaseTables] in
theorem readAll_export (servers : List Server) :
    trimPrefix (writeServerCSV servers) bom = writeAll (serverCSVHeader :: servers.map serverRow) ∧
      readAll (writeAll (serverCSVHeader :: servers.map serverRow)) =
        (serverCSVHeader :: servers.map fun s => (serverRow s).map withoutCR, true) := by
  constructor
  · exact trimPrefix_append _ _
  · have hheader : serverCSVHeader.map withoutCR = serverCSVHeader := by decide
    rw [readAll_writeAll, List.map_cons, hheader, List.map_map]
    · rfl
    · intro r hr
      cases List.mem_cons.mp hr with
      | inl h => simp [h, serverCSVHeader]
      | inr h =>
        obtain ⟨s, -, rfl⟩ := List.mem_map.mp h
        exact (by decide : 2 ≤ 6)

theorem isText_export (h : ∀ s ∈ servers, IsStored s) : IsText (writeServerCSV servers) := by
  have hcell : ∀ {v : GoString}, IsText v → IsText (csvSafe v) := by
    intro v hv
    obtain hs | hs := csvSafe_cases v <;> rw [hs]
    · exact hv
    · exact .ascii (by decide) hv
  have hbool : ∀ b, IsText (formatBool b) := by
    intro b
    cases b <;> exact isText_ascii (by decide +kernel)
  have hbom : IsText bom := validString_iff.mp (by decide +kernel)
  apply hbom.append (isText_writeAll _)
  intro r hr
  cases List.mem_cons.mp hr with
  | inl hheader =>
    rw [hheader]
    exact fun v hv => validString_iff.mp ((show ∀ v ∈ serverCSVHeader, validString v = true by
      decide +kernel) v hv)
  | inr hrow =>
    obtain ⟨s, hs, rfl⟩ := List.mem_map.mp hrow
    have hstored := h s hs
    intro v hv
    obtain ⟨w, hw, rfl⟩ := List.mem_map.mp hv
    apply hcell
    simp only [List.mem_cons, List.not_mem_nil, or_false] at hw
    obtain rfl | rfl | rfl | rfl | rfl | rfl := hw
    · exact hstored.name.1
    · exact hstored.provider.1
    · exact hstored.addressText
    · exact hbool _
    · exact hbool _
    · exact hstored.notes.1

theorem prepareImport_export (h : Exported servers) (hne : servers ≠ [])
    (hlength : servers.length ≤ 1000) (hsize : (writeServerCSV servers).length ≤ 900 * 1024) :
    prepareImport (writeServerCSV servers) servers = .ok
      { snapshot := serverSnapshot servers, rows := exportRows 1 servers, errors := 0 } := by
  obtain ⟨byKey, hbyKey⟩ := h.keyServers
  obtain ⟨hfront, hread⟩ := readAll_export servers
  have hvalid := validString_iff.mpr (isText_export h.stored)
  have hrows : previewRows exportColumns serverCSVHeader.length byKey 1 []
      (servers.map fun s => (serverRow s).map withoutCR) = exportRows 1 servers :=
    previewRows_export h (keyServers_ok hbyKey).2 (List.nil_append servers).symm (by simp)
  have herrors : ((exportRows 1 servers).filter (·.error.isSome)).length = 0 := by
    rw [List.length_eq_zero_iff, List.filter_eq_nil_iff]
    intro r hr
    simp [exportRows_error 1 servers r hr]
  have hsome : exportRows 1 servers ≠ [] := by
    cases servers with
    | nil => exact absurd rfl hne
    | cons s servers => simp [exportRows]
  have hcount : (servers.map fun s => (serverRow s).map withoutCR).length ≤ 1000 := by
    rwa [List.length_map]
  simp only [prepareImport, require, if_pos hvalid, if_pos hsize, hfront, hread,
    readColumns_header, hbyKey, if_pos hcount, hrows, if_pos hsome, herrors, if_true, bind,
    Except.bind, pure, Except.pure]

theorem csvColumns_export (servers : List Server) :
    csvColumns (writeServerCSV servers) = exportColumns := by
  obtain ⟨hfront, hread⟩ := readAll_export servers
  rw [csvColumns, hfront, hread, List.headD_cons, readColumns_header]
  rfl

def overwriteAll (rows : List PreviewRow) : List ImportDecision :=
  rows.map fun row => ⟨row.row, str "overwrite"⟩

omit [CaseTables] in
theorem overwritten_export (s : Server) (key : GoString) (row : Nat) :
    overwritten exportColumns (exportRow row s key).server s = restoredServer s := by
  have hsource : sameSource s (mergeExisting exportColumns s (exportRow row s key).server) = true := by
    simp [sameSource, mergeExisting, exportRow, restoredServer]
  rw [overwritten, updatedServer, if_pos hsource]
  rfl

omit [CaseTables] in
theorem overwrites_export {rows : List PreviewRow} {row : PreviewRow} (hrow : row ∈ rows)
    (hdup : row.duplicate = true) : overwrites (overwriteAll rows) row = true := by
  rw [overwrites, hdup, Bool.true_and, List.any_eq_true]
  exact ⟨_, List.mem_map_of_mem hrow, by simp⟩

theorem exportRows_duplicate (row : Nat) (servers : List Server) :
    ∀ r ∈ exportRows row servers, r.duplicate = true := by
  induction servers generalizing row with
  | nil => simp [exportRows]
  | cons s servers ih => exact List.forall_mem_cons.mpr ⟨rfl, ih _⟩

theorem exportRows_number (row : Nat) (servers : List Server) :
    (exportRows row servers).map (·.row) = List.range' row servers.length := by
  induction servers generalizing row with
  | nil => rfl
  | cons s servers ih =>
    rw [exportRows, List.map_cons, ih]
    rfl

theorem decided_export (servers : List Server) :
    Decided (exportRows 1 servers) (overwriteAll (exportRows 1 servers)) where
  action := by
    intro d hd
    obtain ⟨row, -, rfl⟩ := List.mem_map.mp hd
    exact .inr rfl
  distinct := by
    have hnumbers : (overwriteAll (exportRows 1 servers)).map (·.row) =
        ((exportRows 1 servers).map (·.row)).map fun n : Nat => (n : Int) := by
      rw [overwriteAll, List.map_map, List.map_map]
      rfl
    rw [hnumbers, exportRows_number]
    exact List.Nodup.map (fun _ _ => Int.ofNat.inj) (List.nodup_range' ..)
  duplicate := by
    intro d hd
    obtain ⟨row, hrow, rfl⟩ := List.mem_map.mp hd
    exact ⟨row, hrow, rfl, exportRows_duplicate 1 servers row hrow⟩
  complete := by
    intro row hrow _
    exact List.mem_map.mpr ⟨_, List.mem_map_of_mem hrow, rfl⟩

theorem update_export (h : Exported servers) {s : Server} (hsplit : servers = before ++ s :: rest)
    (row : Nat) :
    update (hasKey (keyOf s)) (overwritten exportColumns (exportRow row s (keyOf s)).server)
      (before.map restoredServer ++ s :: rest) =
      (before ++ [s]).map restoredServer ++ rest := by
  have hs : s ∈ servers := by simp [hsplit]
  have hdistinct := h.distinct.of_map
  rw [hsplit, List.nodup_append'] at hdistinct
  obtain ⟨-, hrest, hdisjoint⟩ := hdistinct
  have hbefore : ∀ t ∈ before, hasKey (keyOf s) (restoredServer t) = false := by
    intro t ht
    rw [Bool.eq_false_iff]
    intro hkey
    have hts := (h.hasKey_iff hs (show t ∈ servers by simp [hsplit, ht])).mp hkey
    exact hdisjoint ht (by simp [hts])
  have hafter : ∀ t ∈ rest, hasKey (keyOf s) t = false := by
    intro t ht
    rw [Bool.eq_false_iff]
    intro hkey
    have hts := (h.hasKey_iff hs (by simp [hsplit, ht])).mp hkey
    exact (List.nodup_cons.mp hrest).1 (hts ▸ ht)
  have hself : hasKey (keyOf s) s = true := (h.hasKey_iff hs hs).mpr rfl
  have happend : ∀ (p : Server → Bool) (f : Server → Server) (l m : List Server),
      update p f (l ++ m) = update p f l ++ update p f m := fun p f l m => List.map_append
  have hcons : ∀ (p : Server → Bool) (f : Server → Server) (t : Server) (m : List Server),
      update p f (t :: m) = (if p t then f t else t) :: update p f m := fun _ _ _ _ => rfl
  rw [happend, hcons, hself, if_pos rfl, overwritten_export, update_of_none hafter,
    update_of_none (by simpa using hbefore)]
  simp

/-- The import of the rows restores server after server. -/
theorem importRows_export (h : Exported servers) (now : Int)
    {decisions : List ImportDecision} (hsplit : servers = before ++ rest) (row : Nat)
    (hover : ∀ r ∈ exportRows row rest, overwrites decisions r = true) (seq : Int) :
    (exportRows row rest).foldl (importRow exportColumns now decisions)
        ⟨before.map restoredServer ++ rest, seq⟩ = ⟨servers.map restoredServer, seq⟩ := by
  induction rest generalizing before row with
  | nil =>
    rw [hsplit]
    simp [exportRows]
  | cons s rest ih =>
    have hfirst := hover _ (List.mem_cons_self ..)
    have hstep : importRow exportColumns now decisions ⟨before.map restoredServer ++ s :: rest, seq⟩
        (exportRow row s (keyOf s)) = ⟨(before ++ [s]).map restoredServer ++ rest, seq⟩ := by
      rw [importRow, if_neg (by simp [exportRow]), if_pos hfirst]
      exact congrArg (Listing.mk · seq) (update_export h hsplit row)
    rw [exportRows, List.foldl_cons, hstep]
    exact ih (by simp [hsplit]) (row + 1) fun r hr => hover r (List.mem_cons_of_mem _ hr)

theorem exported_of_saved (hsaved : ∀ s ∈ servers, Saved s) (hfits : ∀ s ∈ servers, Restorable s)
    (hkeyed : ∀ s ∈ servers, ∃ key, addressKey s.address = .ok key)
    (hdistinct : (servers.map fun s => addressKey s.address).Nodup) : Exported servers := by
  have hkey : ∀ s ∈ servers, addressKey s.address = .ok (keyOf s) := by
    intro s hs
    obtain ⟨key, hkey⟩ := hkeyed s hs
    simp [keyOf, hkey, Except.toOption]
  refine ⟨fun s hs => isStored_of_saved (hsaved s hs) (hkey s hs), hfits, hkey, ?_⟩
  have hmap : servers.map (fun s => addressKey s.address) =
      (servers.map keyOf).map (Except.ok : GoString → Except String GoString) := by
    rw [List.map_map]
    exact List.map_congr_left hkey
  rw [hmap] at hdistinct
  exact hdistinct.of_map

theorem restoredServer_plain (h : IsStored s) (hname : IsPlain s.name)
    (hprovider : IsPlain s.provider) (hnotes : IsPlain s.notes) : restoredServer s = s := by
  rw [restoredServer, restored_plain h.name.2 hname, restored_plain h.provider.2 hprovider,
    restored_plain h.notes.2 hnotes]

theorem exportRows_existing (row : Nat) (servers : List Server) :
    (exportRows row servers).map (fun r => (r.duplicate, r.existing, r.error)) =
      servers.map fun s => (true, some s, none) := by
  induction servers generalizing row with
  | nil => rfl
  | cons s servers ih =>
    rw [exportRows, List.map_cons, ih]
    rfl

/-- Importing an export leaves every server as it was, but for what a file does to its texts. -/
theorem export_import {F : Type} {db : DB F} (hdb : WellFormed db) (now : Int)
    (hsaved : ∀ s ∈ db.servers, Saved s) (hfits : ∀ s ∈ db.servers, Restorable s)
    (hkeyed : ∀ s ∈ db.servers, ∃ key, addressKey s.address = .ok key)
    (hdistinct : (db.servers.map fun s => addressKey s.address).Nodup)
    (hne : db.servers ≠ []) (hlength : db.servers.length ≤ 1000)
    (hsize : (writeServerCSV db.servers).length ≤ 900 * 1024) :
    ∃ p, prepareImport (writeServerCSV db.servers) db.servers = .ok p ∧ p.errors = 0 ∧
      p.rows.map (fun row => (row.duplicate, row.existing, row.error)) =
        db.servers.map (fun s => (true, some s, none)) ∧
      ∃ result db', ServerCsv.importServers db db now
          ⟨writeServerCSV db.servers, some p.snapshot, overwriteAll p.rows⟩ = (.ok result, db') ∧
        db'.servers = db.servers.map restoredServer ∧
        ∀ s ∈ db.servers, IsPlain s.name → IsPlain s.provider → IsPlain s.notes →
          restoredServer s = s := by
  have h := exported_of_saved hsaved hfits hkeyed hdistinct
  have hp := prepareImport_export h hne hlength hsize
  refine ⟨_, hp, rfl, exportRows_existing 1 _, ?_⟩
  let input : ImportRequest := ⟨writeServerCSV db.servers, some (serverSnapshot db.servers),
    overwriteAll (exportRows 1 db.servers)⟩
  have hdecided : Decided (exportRows 1 db.servers) input.decisions := decided_export db.servers
  obtain ⟨hrows, start, s, hstart, hs, hresult⟩ :=
    importServers_rows now hdb (show prepareImport input.csv db.servers = _ from hp) rfl hdecided
      rfl rfl
  refine ⟨s.result, s.db, hresult, ?_, fun s hs => restoredServer_plain (h.stored s hs)⟩
  obtain ⟨s', hs', hdone⟩ := hstart.run now (overwriteAll (exportRows 1 db.servers)) hrows
    (show exportRows 1 db.servers = [] ++ exportRows 1 db.servers ++ [] by simp)
  obtain rfl : s' = s := Except.ok.inj (hs'.symm.trans hs)
  have hall := importRows_export h now (List.nil_append db.servers).symm 1
    (fun r hr => overwrites_export hr (exportRows_duplicate 1 _ r hr)) db.serverSeq
  have hlisting := hdone.listing
  rw [csvColumns_export] at hlisting
  exact (congrArg Listing.servers (hlisting.symm.trans hall))

end

section

local instance : CaseTables := asciiTables

theorem saved_of_normalized {s : Server}
    (h : (validString s.name && validString s.provider && validString s.address &&
      validString s.notes) = true ∧ normalizeServerInput s = (s, .ok ())) : Saved s := by
  simp only [Bool.and_eq_true] at h
  exact ⟨s, s, ⟨h.1.1.1.1, h.1.1.1.2, h.1.1.2, h.1.2⟩, h.2, rfl⟩

/-- Two servers with quotes, commas, lines and a text that a spreadsheet would take as a formula. -/
def quotedDB : DB ℚ :=
  Runs.run step (openStore emptyLegacy)
    [.saveServer 900 { exampleServer with name := str "home, \"old\"", notes := str "one\ntwo" },
      .saveServer 901 { exampleServer with
        name := str "=SUM(1,2)", provider := str "\"a\",b", address := str "udp://9.9.9.9:53" }]

theorem export_import_example : ∃ p result db',
    prepareImport (writeServerCSV quotedDB.servers) quotedDB.servers = .ok p ∧
    ServerCsv.importServers quotedDB quotedDB 1000
      ⟨writeServerCSV quotedDB.servers, some p.snapshot, overwriteAll p.rows⟩ =
        (.ok result, db') ∧
    db'.servers = quotedDB.servers.map restoredServer ∧
    db'.servers.map (fun s => (s.name, s.provider, s.notes)) =
      [(str "home, \"old\"", [], str "one\ntwo"), (str "'=SUM(1,2)", str "\"a\",b", [])] := by
  have hkeyed : ∀ s ∈ quotedDB.servers, ∃ key, addressKey s.address = .ok key := by
    have hkey : ∀ s ∈ quotedDB.servers, addressKey s.address = .ok (str "udp://1.1.1.1") ∨
        addressKey s.address = .ok (str "udp://9.9.9.9") := by decide +kernel
    exact fun s hs => (hkey s hs).elim (fun h => ⟨_, h⟩) fun h => ⟨_, h⟩
  have hsaved : ∀ s ∈ quotedDB.servers, (validString s.name && validString s.provider &&
      validString s.address && validString s.notes) = true ∧
      normalizeServerInput s = (s, .ok ()) := by decide +kernel
  have hfits : ∀ s ∈ quotedDB.servers, (restored s.name).length ≤ 160 ∧
      (restored s.provider).length ≤ 160 ∧ (restored s.notes).length ≤ 2000 := by decide +kernel
  obtain ⟨p, hp, -, -, result, db', himport, hservers, -⟩ :=
    export_import (wellFormed_reachable ⟨emptyLegacy, _, rfl⟩) 1000
      (fun s hs => saved_of_normalized (hsaved s hs))
      (fun s hs => ⟨(hfits s hs).1, (hfits s hs).2.1, (hfits s hs).2.2⟩) hkeyed
      (by decide +kernel) (by decide +kernel) (by decide +kernel) (by decide +kernel)
  refine ⟨p, result, db', hp, himport, hservers, ?_⟩
  rw [hservers]
  decide +kernel

def formulaServer : Server := { exampleServer with name := str "-x", notes := str "a\rb" }

def formulaDB : DB ℚ := Runs.run step (openStore emptyLegacy) [.saveServer 900 formulaServer]

def longDB : DB ℚ := Runs.run step (openStore emptyLegacy)
  [.saveServer 900 { exampleServer with name := byte '-' :: List.replicate 159 (byte 'x') }]

theorem export_import_formula :
    ((∀ s ∈ formulaDB.servers, Saved s) ∧
      (∀ s ∈ formulaDB.servers, ∃ key, addressKey s.address = .ok key) ∧
      (formulaDB.servers.map fun s => addressKey s.address).Nodup ∧
      formulaDB.servers.length ≤ 1000 ∧
      (writeServerCSV formulaDB.servers).length ≤ 900 * 1024 ∧
      formulaDB.servers.map (fun s => (s.name, s.notes)) = [(str "-x", str "a\rb")] ∧
      ∃ p, prepareImport (writeServerCSV formulaDB.servers) formulaDB.servers = .ok p ∧
        (ServerCsv.importServers formulaDB formulaDB 1000
          ⟨writeServerCSV formulaDB.servers, some p.snapshot, overwriteAll p.rows⟩).2.servers.map
            (fun s => (s.name, s.notes)) = [(str "'-x", str "ab")]) ∧
    ((∀ s ∈ longDB.servers, Saved s) ∧
      (prepareImport (writeServerCSV longDB.servers) longDB.servers).toOption.map (·.errors) =
        some 1) ∧
    (prepareImport (writeServerCSV []) []).toOption.isNone = true := by
  have hsaved : ∀ s ∈ formulaDB.servers ++ longDB.servers, (validString s.name &&
      validString s.provider && validString s.address && validString s.notes) = true ∧
      normalizeServerInput s = (s, .ok ()) := by decide +kernel
  have hkey : ∀ s ∈ formulaDB.servers, addressKey s.address = .ok (str "udp://1.1.1.1") := by
    decide +kernel
  have himport : (prepareImport (writeServerCSV formulaDB.servers) formulaDB.servers).toOption.map
      (fun p => (ServerCsv.importServers formulaDB formulaDB 1000 ⟨writeServerCSV formulaDB.servers,
        some p.snapshot, overwriteAll p.rows⟩).2.servers.map fun s => (s.name, s.notes)) =
      some [(str "'-x", str "ab")] := by decide +kernel
  obtain ⟨p, hp, hrows⟩ := Option.map_eq_some_iff.mp himport
  refine ⟨⟨fun s hs => saved_of_normalized (hsaved s (by simp [hs])), fun s hs => ⟨_, hkey s hs⟩, ?_, ?_, ?_,
    ?_, p, ?_, hrows⟩, ⟨fun s hs => saved_of_normalized (hsaved s (by simp [hs])), ?_⟩, ?_⟩
  · decide +kernel
  · decide +kernel
  · decide +kernel
  · decide +kernel
  · cases h : prepareImport (writeServerCSV formulaDB.servers) formulaDB.servers with
    | error e => simp [h, Except.toOption] at hp
    | ok q => simpa [h, Except.toOption] using hp
  · decide +kernel
  · decide +kernel

end

end DnsMonitor.Httpapi.RoundTrip
