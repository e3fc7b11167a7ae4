import DnsMonitor.Lib.Leaders
import DnsMonitor.Store.Upserts
import Mathlib.Data.List.Lex
import Mathlib.Data.Prod.Lex

namespace DnsMonitor.Store.Selection

open DnsMonitor.Model DnsMonitor.Lib DnsMonitor.Lib.Leaders
open DnsMonitor.Lib.Tables (delete delete_sublist mem_delete)
open DnsMonitor.Store.Schema DnsMonitor.Store.References DnsMonitor.Store.Pool
open DnsMonitor.Store.Servers DnsMonitor.Store.Migration DnsMonitor.Store.Run
open DnsMonitor.Store.WellFormed DnsMonitor.Store.Trust DnsMonitor.Store.Upserts
open DnsMonitor.Go.Strings DnsMonitor.Go.Unicode DnsMonitor.Go.Net DnsMonitor.Go.Float

section

local instance linearOrderUInt8 : LinearOrder UInt8 where
  le_refl := UInt8.le_refl
  le_trans _ _ _ := UInt8.le_trans
  le_antisymm _ _ := UInt8.le_antisymm
  le_total := UInt8.le_total
  lt_iff_le_not_ge a b := by
    simp only [UInt8.le_iff_toNat_le, UInt8.lt_iff_toNat_lt]
    omega
  toDecidableLE := inferInstance
  toDecidableLT := inferInstance
  toDecidableEq := inferInstance

abbrev Key : Type := Int × GoString × GoString × GoString

abbrev Rank : Type := Int ×ₗ (Int ×ₗ GoString ×ₗ GoString ×ₗ GoString)ᵒᵈ

def rankOf (observedAt : Int) (k : Key) : Rank :=
  toLex (observedAt, OrderDual.toDual (toLex (k.1, toLex (k.2.1, toLex (k.2.2.1, k.2.2.2)))))

/-- The rows that were observed later rank higher, of those of one time the ones of lower keys. -/
def rank (r : ObservationRow) : Rank := rankOf r.observedAt (key r)

def subject (k : Key) : Int × GoString × GoString := (k.1, k.2.1, k.2.2.1)

def ranking : Ranking ObservationRow Key (Int × GoString × GoString) Rank := ⟨rank, key, subject⟩

variable {q r : ObservationRow} {rs rows : List ObservationRow}

theorem rankOf_injective {s t : Int} {j k : Key} (h : rankOf s j = rankOf t k) :
    s = t ∧ j = k := by
  simp only [rankOf, toLex_inj, Prod.mk.injEq, OrderDual.toDual_inj] at h
  obtain ⟨ht, h1, h2, h3, h4⟩ := h
  exact ⟨ht, Prod.ext h1 (Prod.ext h2 (Prod.ext h3 h4))⟩

theorem rank_le_iff (h : key q = key r) : rank q ≤ rank r ↔ q.observedAt ≤ r.observedAt := by
  rw [rank, rank, h, rankOf, rankOf, Prod.Lex.toLex_le_toLex, le_iff_lt_or_eq (a := q.observedAt)]
  exact or_congr_right (and_iff_left le_rfl)

theorem precedes_iff : precedes q r = true ↔ rank r < rank q := by
  simp only [precedes, rank, rankOf, key, Prod.Lex.toLex_lt_toLex, OrderDual.toDual_lt_toDual,
    Bool.or_eq_true, Bool.and_eq_true, decide_eq_true_eq]
  simp only [eq_comm]

theorem precedesInSubject_iff (h : subject (key q) = subject (key r)) :
    precedesInSubject q r = true ↔ rank r < rank q := by
  simp only [subject, key, Prod.mk.injEq] at h
  rw [← precedes_iff, precedesInSubject, precedes, h.1, h.2.1, h.2.2]
  simp

/-- Of one key and one time there is no more than one row. -/
def Unambiguous (s : Finset ObservationRow) : Prop := Set.InjOn rank s

theorem unambiguous_of_keyed (h : Keyed rows) : Unambiguous rows.toFinset := by
  intro q hq r hr he
  exact h.eq (List.mem_toFinset.mp hq) (List.mem_toFinset.mp hr) (rankOf_injective he).2

theorem mem_upsert_key (hrows : Keyed rows) (hk : key q = key r) :
    q ∈ upsertObservation r rows ↔
      q = r ∧ (∀ p ∈ rows, key p = key r → p.observedAt ≤ r.observedAt) ∨
        q ∈ rows ∧ r.observedAt < q.observedAt := by
  rw [upsert_eq]
  split_ifs with hin
  · obtain ⟨p, hp, hpk⟩ := List.mem_map.mp hin
    have hone : ∀ p' ∈ rows, key p' = key r → p' = p :=
      fun p' hp' hk' => hrows.eq hp' hp (hk'.trans hpk.symm)
    rw [List.mem_map]
    constructor
    · rintro ⟨p', hp', rfl⟩
      rw [key_refreshed] at hk
      obtain rfl := hone p' hp' hk
      by_cases hle : p'.observedAt ≤ r.observedAt
      · left
        refine ⟨if_pos ⟨hk, hle⟩, ?_⟩
        intro q hq hqk
        rwa [hone q hq hqk]
      · right
        rw [refreshed, if_neg fun h => hle h.2]
        exact ⟨hp', not_le.mp hle⟩
    · rintro (⟨rfl, hle⟩ | ⟨hq, hlt⟩)
      · exact ⟨p, hp, if_pos ⟨hpk, hle p hp hpk⟩⟩
      · exact ⟨q, hq, if_neg fun h => absurd h.2 (not_le.mpr hlt)⟩
  · have hnone : ∀ p ∈ rows, key p ≠ key r := fun p hp he => hin (he ▸ List.mem_map_of_mem hp)
    rw [List.mem_append, List.mem_singleton]
    constructor
    · rintro (hq | he)
      · exact absurd hk (hnone q hq)
      · exact .inl ⟨he, fun p hp he => absurd he (hnone p hp)⟩
    · rintro (⟨he, -⟩ | ⟨hq, -⟩)
      · exact .inr he
      · exact .inl hq

theorem toFinset_upsert (hrows : Keyed rows)
    (h : Unambiguous (insert r rows.toFinset)) :
    (upsertObservation r rows).toFinset = latest ranking (insert r rows.toFinset) := by
  ext q
  rw [List.mem_toFinset, mem_latest]
  simp only [Finset.mem_insert, List.mem_toFinset, ranking]
  by_cases hk : key q = key r
  · rw [mem_upsert_key hrows hk]
    constructor
    · rintro (⟨rfl, hle⟩ | ⟨hq, hlt⟩)
      · refine ⟨.inl rfl, ?_⟩
        rintro b (rfl | hb) hbk
        · exact le_rfl
        · exact (rank_le_iff hbk).mpr (hle b hb hbk)
      · refine ⟨.inr hq, ?_⟩
        rintro b (rfl | hb) hbk
        · exact (rank_le_iff hbk).mpr hlt.le
        · rw [hrows.eq hb hq hbk]
    · rintro ⟨he | hq, hmax⟩
      · left
        refine ⟨he, fun p hp hpk => ?_⟩
        rw [← he] at hpk ⊢
        exact (rank_le_iff hpk).mp (hmax p (.inr hp) hpk)
      · have hle := (rank_le_iff hk.symm).mp (hmax r (.inl rfl) hk.symm)
        cases hle.lt_or_eq with
        | inl hlt => exact .inr ⟨hq, hlt⟩
        | inr he =>
          have hsame : rank q = rank r := by rw [rank, rank, hk, he]
          have hqr : q = r := h (by simp [hq]) (by simp) hsame
          refine .inl ⟨hqr, fun p hp hpk => ?_⟩
          rw [← hqr] at hpk ⊢
          rw [hrows.eq hp hq hpk]
  · rw [mem_upsert_other hk]
    constructor
    · refine fun hq => ⟨.inr hq, ?_⟩
      rintro b (rfl | hb) hbk
      · exact absurd hbk.symm hk
      · rw [hrows.eq hb hq hbk]
    · rintro ⟨he | hq, -⟩
      · exact absurd (congrArg key he) hk
      · exact hq

theorem toFinset_upsertAll (hrows : Keyed rows)
    (h : Unambiguous (rows.toFinset ∪ rs.toFinset)) :
    (upsertAll rs rows).toFinset = latest ranking (rows.toFinset ∪ rs.toFinset) := by
  induction rs generalizing rows with
  | nil =>
    rw [List.toFinset_nil, Finset.union_empty]
    ext q
    rw [mem_latest]
    simp only [List.mem_toFinset, ranking]
    exact ⟨fun hq => ⟨hq, fun b hb hk => (hrows.eq hb hq hk) ▸ le_rfl⟩, fun hq => hq.1⟩
  | cons r rs ih =>
    have hunion : rows.toFinset ∪ (r :: rs).toFinset =
        insert r rows.toFinset ∪ rs.toFinset := by
      rw [List.toFinset_cons, Finset.union_insert, Finset.insert_union]
    rw [hunion] at h ⊢
    have hone : Unambiguous (insert r rows.toFinset) :=
      h.mono (Finset.coe_subset.mpr Finset.subset_union_left)
    have hfirst := toFinset_upsert hrows hone
    rw [upsertAll_cons, ih (keyed_upsert hrows r), hfirst, latest_absorb]
    rw [hfirst]
    exact h.mono (Finset.coe_subset.mpr (Finset.union_subset_union_left latest_subset))

/-- The rows of one source and domain are at most 256, and all rows 16384. -/
structure Capped (rows : List ObservationRow) : Prop where
  keyed : Keyed rows
  subjects : ∀ d, (rows.filter fun r => subject (key r) = d).length ≤ maxTrustedSubjectAddresses
  total : rows.length ≤ maxTrustedAddresses

theorem Capped.sublist (h : Capped rows) (hs : rs.Sublist rows) : Capped rs where
  keyed := h.keyed.sublist hs
  subjects d := (hs.filter _).length_le.trans (h.subjects d)
  total := hs.length_le.trans h.total

theorem length_filter_eq_card (h : rows.Nodup) (p : ObservationRow → Bool) :
    (rows.filter p).length = (rows.toFinset.filter fun r => p r).card := by
  rw [← List.toFinset_filter, List.toFinset_card_of_nodup (h.filter _)]

theorem limited_of_subjects (h : rows.Nodup)
    (hsubjects : ∀ d, (rows.filter fun r => subject (key r) = d).length ≤
      maxTrustedSubjectAddresses) :
    Limited ranking maxTrustedSubjectAddresses rows.toFinset := by
  intro d
  have hle := hsubjects d
  rw [length_filter_eq_card h] at hle
  simp only [decide_eq_true_eq] at hle
  exact hle

theorem capped_of_limited (hkeyed : Keyed rows)
    (hlimited : Limited ranking maxTrustedSubjectAddresses rows.toFinset)
    (htotal : rows.toFinset.card ≤ maxTrustedAddresses) : Capped rows where
  keyed := hkeyed
  subjects d := by
    rw [length_filter_eq_card hkeyed.nodup]
    simp only [decide_eq_true_eq]
    exact hlimited d
  total := by rwa [List.toFinset_card_of_nodup hkeyed.nodup] at htotal

theorem toFinset_evict_all (h : rows.Nodup) (limit : Nat) :
    (evict (fun _ => true) precedes limit rows).toFinset =
      topOf rank (fun _ => ()) limit rows.toFinset := by
  ext r
  rw [List.mem_toFinset, mem_evict, mem_topOf, List.mem_toFinset, List.filter_true,
    length_filter_eq_card h, above]
  simp only [precedes_iff, true_and, forall_const]

theorem toFinset_evict_subject (h : rows.Nodup) {inGroup : ObservationRow → Bool}
    {d : Int × GoString × GoString} (hgroup : ∀ r, inGroup r = true ↔ subject (key r) = d)
    {limit : Nat} (hothers : ∀ d', d' ≠ d →
      (rows.filter fun r => subject (key r) = d').length ≤ limit) :
    (evict inGroup precedesInSubject limit rows).toFinset =
      topOf rank ranking.groupOf limit rows.toFinset := by
  ext r
  rw [List.mem_toFinset, mem_evict, mem_topOf, List.mem_toFinset]
  apply and_congr_right
  intro hr
  by_cases hd : subject (key r) = d
  · rw [forall_prop_of_true ((hgroup r).mpr hd), List.filter_filter, length_filter_eq_card h]
    have hsame : (rows.toFinset.filter fun q => (inGroup q && precedesInSubject q r) = true) =
        above rank ranking.groupOf rows.toFinset (ranking.groupOf r) (rank r) := by
      apply Finset.filter_congr
      intro q _
      rw [Bool.and_eq_true, hgroup]
      constructor
      · rintro ⟨hq, hlt⟩
        exact ⟨hq.trans hd.symm, (precedesInSubject_iff (hq.trans hd.symm)).mp hlt⟩
      · rintro ⟨hq, hlt⟩
        exact ⟨hq.trans hd, (precedesInSubject_iff hq).mpr hlt⟩
    simp only [Bool.and_comm] at hsame ⊢
    rw [hsame]
  · refine iff_of_true (fun hin => absurd ((hgroup r).mp hin) hd) ?_
    have hle := hothers _ hd
    rw [length_filter_eq_card h] at hle
    simp only [decide_eq_true_eq] at hle
    exact (card_above_lt (List.mem_toFinset.mpr hr)).trans_le hle

variable {current : Server} {domain type : GoString}

theorem subject_newRow {record : AnswerRecord} (h : newRow current domain type record = some r) :
    subject (key r) = (current.id, domain, type) := by
  have hof := newRow_eq_some h
  rw [subject, key, hof.serverID, hof.domain, hof.type]

theorem toFinset_saveRecords (h : Capped rows) (records : List AnswerRecord) :
    (saveRecords current domain type records rows).toFinset =
      cut ranking maxTrustedSubjectAddresses maxTrustedAddresses
        (upsertAll (records.filterMap (newRow current domain type)) rows).toFinset := by
  have hkeyed := keyed_upsertAll h.keyed (records.filterMap (newRow current domain type))
  rw [saveRecords, saveRecord_foldl, toFinset_evict_all, toFinset_evict_subject hkeyed.nodup
    (d := (current.id, domain, type))]
  · rfl
  · intro r
    simp [subject, key, and_assoc]
  · intro d hd
    rw [filter_upsertAll]
    · exact h.subjects d
    · intro r hr q hk
      obtain ⟨record, -, hrow⟩ := List.mem_filterMap.mp hr
      rw [hk, subject_newRow hrow]
      exact decide_eq_false hd.symm
  · exact (hkeyed.sublist (delete_sublist _ _)).nodup

theorem capped_saveRecords (h : Capped rows) (records : List AnswerRecord) :
    Capped (saveRecords current domain type records rows) := by
  have hkeyed := keyed_upsertAll h.keyed (records.filterMap (newRow current domain type))
  have hinj := unambiguous_of_keyed hkeyed
  apply capped_of_limited
  · rw [saveRecords, saveRecord_foldl]
    exact hkeyed.sublist ((delete_sublist _ _).trans (delete_sublist _ _))
  · rw [toFinset_saveRecords h]
    exact limited_cut hinj
  · rw [toFinset_saveRecords h]
    exact card_cut_le hinj

/-- A call leaves the choice among the rows that were there and the new ones. -/
theorem toFinset_saveRecords_bounded (h : Capped rows) (records : List AnswerRecord)
    (hnew : Unambiguous (rows.toFinset ∪
      (records.filterMap (newRow current domain type)).toFinset)) :
    (saveRecords current domain type records rows).toFinset =
      bounded ranking maxTrustedSubjectAddresses maxTrustedAddresses (rows.toFinset ∪
        (records.filterMap (newRow current domain type)).toFinset) := by
  rw [toFinset_saveRecords h, toFinset_upsertAll h.keyed hnew, bounded]

theorem bounded_of_capped (h : Capped rows) :
    bounded ranking maxTrustedSubjectAddresses maxTrustedAddresses rows.toFinset =
      rows.toFinset := by
  apply bounded_eq_self
  · exact fun q hq r hr hk => h.keyed.eq (List.mem_toFinset.mp hq) (List.mem_toFinset.mp hr) hk
  · exact limited_of_subjects h.keyed.nodup h.subjects
  · rw [List.toFinset_card_of_nodup h.keyed.nodup]
    exact h.total

def lifetime (observedAt ttlSeconds : Int) : Int :=
  max observedAt (min (observedAt + ttlSeconds * 1000) (observedAt + retention))

theorem newRow_lifetime {record : AnswerRecord} (h : newRow current domain type record = some r)
    (hrecord : record.expiresAt = record.observedAt + record.ttlSeconds * 1000) :
    r.expiresAt = lifetime r.observedAt r.ttlSeconds := by
  have hof := newRow_eq_some h
  rw [hof.expiresAt, expires, hrecord, lifetime, hof.observedAt.1, hof.ttlSeconds.1]

theorem unambiguous_of (haddress : ∀ q ∈ rs, ∀ r ∈ rs, q.serverID = r.serverID →
      q.address = r.address)
    (hlifetime : ∀ r ∈ rs, r.expiresAt = lifetime r.observedAt r.ttlSeconds)
    (httl : ∀ q ∈ rs, ∀ r ∈ rs, key q = key r → q.observedAt = r.observedAt →
      q.ttlSeconds = r.ttlSeconds) : Unambiguous rs.toFinset := by
  intro q hq r hr he
  rw [List.coe_toFinset] at hq hr
  obtain ⟨hobserved, hkey⟩ := rankOf_injective he
  have hsame := httl q hq r hr hkey hobserved
  have hexpires : q.expiresAt = r.expiresAt := by
    rw [hlifetime q hq, hlifetime r hr, hobserved, hsame]
  simp only [key, Prod.mk.injEq] at hkey
  obtain ⟨hid, hdomain, htype, hvalue⟩ := hkey
  have hat := haddress q hq r hr hid
  cases q
  cases r
  simp_all

variable {F : Type} [CaseTables] {db : DB F}

/-- What the calls bring, in the one state of the servers. -/
def brought (db : DB F) (calls : List (Server × ProbeResult F)) : List ObservationRow :=
  calls.flatMap fun c => contributed db c.1 c.2

def saveAll (calls : List (Server × ProbeResult F)) (db : DB F) : DB F :=
  calls.foldl (fun db c => saveTrustedObservation db c.1 c.2) db

theorem saveTrustedObservation_servers (db : DB F) (server : Server) (result : ProbeResult F) :
    (saveTrustedObservation db server result).servers = db.servers := by
  obtain ⟨rows, he⟩ := Run.saveTrustedObservation_eq db server result
  rw [he]

theorem contributed_saveTrustedObservation (db : DB F) (server : Server) (result : ProbeResult F) :
    contributed (saveTrustedObservation db server result) = contributed db := by
  funext server' result'
  unfold contributed findServer
  rw [saveTrustedObservation_servers]

theorem capped_saveTrustedObservation (h : Capped db.trustedObservations) (server : Server)
    (result : ProbeResult F) :
    Capped (saveTrustedObservation db server result).trustedObservations := by
  obtain ⟨_, he⟩ | ⟨hr, current, ha⟩ := accepted_cases db server result
  · rwa [he]
  · rw [saveTrustedObservation_eq ha hr]
    exact capped_saveRecords h _

theorem capped_saveAll (h : Capped db.trustedObservations)
    (calls : List (Server × ProbeResult F)) : Capped (saveAll calls db).trustedObservations := by
  induction calls generalizing db with
  | nil => exact h
  | cons c calls ih => exact ih (capped_saveTrustedObservation h c.1 c.2)

theorem toFinset_saveTrustedObservation (h : Capped db.trustedObservations) (server : Server)
    (result : ProbeResult F) (hnew : Unambiguous (db.trustedObservations.toFinset ∪
      (contributed db server result).toFinset)) :
    (saveTrustedObservation db server result).trustedObservations.toFinset =
      bounded ranking maxTrustedSubjectAddresses maxTrustedAddresses
        (db.trustedObservations.toFinset ∪ (contributed db server result).toFinset) := by
  obtain ⟨hnone, he⟩ | ⟨hr, current, ha⟩ := accepted_cases db server result
  · rw [he, hnone, List.toFinset_nil, Finset.union_empty, bounded_of_capped h]
  · rw [contributed_eq ha] at hnew ⊢
    rw [saveTrustedObservation_eq ha hr, toFinset_saveRecords_bounded h _ hnew]

theorem toFinset_saveAll {s : Finset ObservationRow} (h : Capped db.trustedObservations)
    (hs : db.trustedObservations.toFinset =
      bounded ranking maxTrustedSubjectAddresses maxTrustedAddresses s)
    (calls : List (Server × ProbeResult F))
    (hall : Unambiguous (s ∪ (brought db calls).toFinset)) :
    (saveAll calls db).trustedObservations.toFinset =
      bounded ranking maxTrustedSubjectAddresses maxTrustedAddresses
        (s ∪ (brought db calls).toFinset) := by
  induction calls generalizing db s with
  | nil => simpa [saveAll, brought] using hs
  | cons c calls ih =>
    have hcons : s ∪ (brought db (c :: calls)).toFinset =
        (s ∪ (contributed db c.1 c.2).toFinset) ∪ (brought db calls).toFinset := by
      rw [brought, List.flatMap_cons, List.toFinset_append, ← Finset.union_assoc, brought]
    have hsame : brought (saveTrustedObservation db c.1 c.2) calls = brought db calls := by
      rw [brought, contributed_saveTrustedObservation, brought]
    rw [hcons] at hall ⊢
    have hfirst : Unambiguous (s ∪ (contributed db c.1 c.2).toFinset) :=
      hall.mono (Finset.coe_subset.mpr Finset.subset_union_left)
    have hkept : db.trustedObservations.toFinset ⊆ s := by
      rw [hs]
      exact bounded_subset.trans latest_subset
    have hstep := toFinset_saveTrustedObservation h c.1 c.2
      (hfirst.mono (Finset.coe_subset.mpr (Finset.union_subset_union_left hkept)))
    rw [hs, bounded_absorb (R := ranking) hfirst] at hstep
    have hrest := ih (capped_saveTrustedObservation h c.1 c.2) hstep (hsame ▸ hall)
    rwa [hsame] at hrest

omit [CaseTables] in
theorem address_of_pool (h : Sourced db) (hr : r ∈ db.trustedObservations) :
    (findServer db r.serverID).map (·.address) = some r.address := by
  have hsource := h r hr
  rw [sourceOf, Option.map_eq_some_iff] at hsource
  obtain ⟨s, hs, he⟩ := hsource
  rw [hs, Option.map_some, (Prod.mk.inj (Prod.mk.inj he).2).2]

theorem mem_contributed {server : Server} {result : ProbeResult F}
    (h : r ∈ contributed db server result) : ∃ current,
      Accepted db server result current ∧ ∃ record ∈ result.records,
        newRow current (normalizeSubject result.domain result.type).1
          (normalizeSubject result.domain result.type).2 record = some r := by
  obtain ⟨hnone, -⟩ | ⟨-, current, ha⟩ := accepted_cases db server result
  · rw [hnone] at h
    cases h
  · rw [contributed_eq ha] at h
    exact ⟨current, ha, List.mem_filterMap.mp h⟩

theorem address_of_brought {calls : List (Server × ProbeResult F)} (hr : r ∈ brought db calls) :
    (findServer db r.serverID).map (·.address) = some r.address := by
  obtain ⟨c, -, hr⟩ := List.mem_flatMap.mp hr
  obtain ⟨current, ha, record, -, hrow⟩ := mem_contributed hr
  have hof := newRow_eq_some hrow
  rw [hof.serverID, hof.address, (findServer_some ha.found).2, ha.found, Option.map_some]

section

variable [GoFloat F]

theorem capped_reachable (h : Reachable db) : Capped db.trustedObservations :=
  rows_reachable Capped.sublist capped_saveTrustedObservation
    ⟨List.nodup_nil, fun _ => Nat.zero_le _, Nat.zero_le _⟩ h

/-- The pool after several calls does not depend on their order: it is the choice of the last row of
each key, of the first 256 of each subject, and of the first 16384 of these. It never has more. -/
theorem pool_order_independent (hdb : Reachable db)
    (hrows : ∀ r ∈ db.trustedObservations, r.expiresAt = lifetime r.observedAt r.ttlSeconds)
    (calls : List (Server × ProbeResult F))
    (hcalls : ∀ c ∈ calls, ∀ record ∈ c.2.records,
      record.expiresAt = record.observedAt + record.ttlSeconds * 1000)
    (httl : ∀ q ∈ db.trustedObservations ++ brought db calls,
      ∀ r ∈ db.trustedObservations ++ brought db calls, key q = key r →
        q.observedAt = r.observedAt → q.ttlSeconds = r.ttlSeconds)
    {calls' : List (Server × ProbeResult F)} (horder : calls'.Perm calls) :
    (saveAll calls' db).trustedObservations.Perm (saveAll calls db).trustedObservations ∧
    (saveAll calls' db).trustedObservations.Perm
      (bounded ranking maxTrustedSubjectAddresses maxTrustedAddresses
        (db.trustedObservations ++ brought db calls).toFinset).toList ∧
    ∀ earlier, earlier <+: calls' →
      (∀ id domain type, ((saveAll earlier db).trustedObservations.filter fun r =>
        r.serverID = id ∧ r.domain = domain ∧ r.type = type).length ≤ 256) ∧
      (saveAll earlier db).trustedObservations.length ≤ 16384 := by
  have hcapped := capped_reachable hdb
  have hsourced := sourced_reachable hdb
  have haddress : ∀ r ∈ db.trustedObservations ++ brought db calls,
      (findServer db r.serverID).map (·.address) = some r.address := by
    intro r hr
    cases List.mem_append.mp hr with
    | inl hr => exact address_of_pool hsourced hr
    | inr hr => exact address_of_brought hr
  have hexpires : ∀ r ∈ db.trustedObservations ++ brought db calls,
      r.expiresAt = lifetime r.observedAt r.ttlSeconds := by
    intro r hr
    cases List.mem_append.mp hr with
    | inl hr => exact hrows r hr
    | inr hr =>
      obtain ⟨c, hc, hr⟩ := List.mem_flatMap.mp hr
      obtain ⟨_, -, record, hrecord, hrow⟩ := mem_contributed hr
      exact newRow_lifetime hrow (hcalls c hc record hrecord)
  have hall : Unambiguous (db.trustedObservations ++ brought db calls).toFinset := by
    refine unambiguous_of (fun q hq r hr hid => ?_) hexpires httl
    have hq' := haddress q hq
    rw [hid, haddress r hr] at hq'
    exact (Option.some.inj hq').symm
  -- the rows at hand are the same in every order
  have hfinal : ∀ cs : List (Server × ProbeResult F), cs.Perm calls →
      (saveAll cs db).trustedObservations.Perm
        (bounded ranking maxTrustedSubjectAddresses maxTrustedAddresses
          (db.trustedObservations ++ brought db calls).toFinset).toList := by
    intro cs hcs
    have hsame : (brought db cs).toFinset = (brought db calls).toFinset :=
      List.toFinset_eq_of_perm _ _ (hcs.flatMap_right _)
    rw [List.toFinset_append] at hall ⊢
    rw [← hsame] at hall ⊢
    rw [← toFinset_saveAll hcapped (bounded_of_capped hcapped).symm cs hall]
    exact (List.toFinset_toList (capped_saveAll hcapped cs).keyed.nodup).symm
  refine ⟨(hfinal calls' horder).trans (hfinal calls (List.Perm.refl _)).symm,
    hfinal calls' horder, ?_⟩
  intro earlier _
  have hlimits := capped_saveAll hcapped earlier
  refine ⟨fun id domain type => ?_, hlimits.total⟩
  have hle := hlimits.subjects (id, domain, type)
  simp only [subject, key, Prod.mk.injEq] at hle
  exact hle

end

end

section

local instance : CaseTables := asciiTables

theorem pool_order_independent_example :
    ((saveAll [(poolSource, poolResult 2010 60 [str "1.2.3.4"]),
        (poolSource, poolResult 2000 30 [str "1.2.3.4", str "5.6.7.8"])]
        poolDB).trustedObservations.map fun r => (r.value, r.observedAt)) =
      [(str "1.2.3.4", 2010), (str "5.6.7.8", 2000)] ∧
    (saveAll [(poolSource, poolResult 2000 30 [str "1.2.3.4", str "5.6.7.8"]),
        (poolSource, poolResult 2010 60 [str "1.2.3.4"])] poolDB).trustedObservations.Perm
      (saveAll [(poolSource, poolResult 2010 60 [str "1.2.3.4"]),
        (poolSource, poolResult 2000 30 [str "1.2.3.4", str "5.6.7.8"])]
        poolDB).trustedObservations := by
  refine ⟨by decide +kernel, ?_⟩
  have hdb : Reachable poolDB := ⟨emptyLegacy, _, rfl⟩
  exact (pool_order_independent hdb (by decide +kernel) _ (by decide +kernel) (by decide +kernel)
    (List.Perm.swap _ _ _)).1

end

end DnsMonitor.Store.Selection
