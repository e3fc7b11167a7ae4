import DnsMonitor.Store.Selection

namespace DnsMonitor.Store.Additions

open DnsMonitor.Model DnsMonitor.Lib.Leaders
open DnsMonitor.Store.Schema DnsMonitor.Store.References DnsMonitor.Store.Pool
open DnsMonitor.Store.Upserts DnsMonitor.Store.Selection
open DnsMonitor.Go.Strings DnsMonitor.Go.Unicode

local instance byteOrder : LinearOrder UInt8 := linearOrderUInt8

variable {q r : ObservationRow} {rs rows : List ObservationRow} {t : Int}

/-- Which of the rows that a call brings the pool takes: the last one of its key, if it is no
stored one and not older than the stored one of its key, and if there are fewer stored rows before
it than the limits of its subject and of the pool. -/
structure Enters (rows rs : List ObservationRow) (r : ObservationRow) : Prop where
  last : (rs.filter fun q => key q = key r).getLast? = some r
  new : r ∉ rows
  latest : ∀ p ∈ rows, key p = key r → p.observedAt ≤ r.observedAt
  subject : (rows.filter fun q => subject (key q) = subject (key r) ∧ precedes q r = true).length <
    maxTrustedSubjectAddresses
  all : (rows.filter fun q => precedes q r).length < maxTrustedAddresses

/-- A row that arrives replaces a stored one only by one of its key that is not older. -/
theorem exists_upsert (r : ObservationRow) (hq : q ∈ rows) : ∃ p ∈ upsertObservation r rows,
    key p = key q ∧ q.observedAt ≤ p.observedAt := by
  rw [upsert_eq]
  split_ifs
  · refine ⟨refreshed r q, List.mem_map_of_mem hq, key_refreshed r q, ?_⟩
    unfold refreshed
    split_ifs with h
    · exact h.2
    · exact le_rfl
  · exact ⟨q, List.mem_append_left _ hq, rfl, le_rfl⟩

theorem dominated_upsertAll (rs rows : List ObservationRow) :
    Dominated ranking rows.toFinset (upsertAll rs rows).toFinset := by
  have hall : ∀ q ∈ rows, ∃ p ∈ upsertAll rs rows, key p = key q ∧
      q.observedAt ≤ p.observedAt := by
    induction rs generalizing rows with
    | nil => exact fun q hq => ⟨q, hq, rfl, le_rfl⟩
    | cons r rs ih =>
      intro q hq
      obtain ⟨p, hp, hkey, hle⟩ := exists_upsert r hq
      obtain ⟨p', hp', hkey', hle'⟩ := ih (upsertObservation r rows) p hp
      exact ⟨p', hp', hkey'.trans hkey, hle.trans hle'⟩
  intro q hq
  obtain ⟨p, hp, hkey, hle⟩ := hall q (List.mem_toFinset.mp hq)
  exact ⟨p, List.mem_toFinset.mpr hp, hkey, (rank_le_iff hkey.symm).mpr hle⟩

theorem mem_upsertAll_iff (hrows : Keyed rows) (hrs : ∀ q ∈ rs, q.observedAt = t) :
    r ∈ upsertAll rs rows ↔
      r ∈ rows ∧ ((∀ q ∈ rs, key q ≠ key r) ∨ t < r.observedAt) ∨
        (rs.filter fun q => key q = key r).getLast? = some r ∧
          ∀ p ∈ rows, key p = key r → p.observedAt ≤ t := by
  induction rs using List.reverseRecOn generalizing r with
  | nil => simp [upsertAll]
  | append_singleton rs c ih =>
    have hc : c.observedAt = t := hrs c (by simp)
    have hrest : ∀ q ∈ rs, q.observedAt = t := fun q hq => hrs q (List.mem_append_left _ hq)
    have hsnoc : upsertAll (rs ++ [c]) rows = upsertObservation c (upsertAll rs rows) := by
      rw [upsertAll, List.foldl_append]
      rfl
    rw [hsnoc]
    by_cases hk : key r = key c
    · have hlast : ((rs ++ [c]).filter fun q => key q = key r).getLast? = some c := by
        simp [List.filter_append, hk]
      have hmany : ¬ ∀ q ∈ rs ++ [c], key q ≠ key r := fun h => h c (by simp) hk.symm
      rw [mem_upsert_key (keyed_upsertAll hrows rs) hk, hlast, hc]
      simp only [hmany, false_or, Option.some.injEq]
      constructor
      · rintro (⟨rfl, hle⟩ | ⟨hr, hlt⟩)
        · refine .inr ⟨rfl, fun p hp hpk => ?_⟩
          by_contra hlt
          have hlater : t < p.observedAt := not_le.mp hlt
          exact hlt (hle p ((ih hrest).mpr (.inl ⟨hp, .inr hlater⟩)) hpk)
        · obtain ⟨hin, -⟩ | ⟨hlater, -⟩ := (ih hrest).mp hr
          · exact .inl ⟨hin, hlt⟩
          · have hmem := (List.mem_filter.mp (List.mem_of_getLast? hlater)).1
            exact absurd (hrest r hmem) hlt.ne'
      · rintro (⟨hr, hlt⟩ | ⟨rfl, hle⟩)
        · exact .inr ⟨(ih hrest).mpr (.inl ⟨hr, .inr hlt⟩), hlt⟩
        · refine .inl ⟨rfl, fun p hp hpk => ?_⟩
          obtain hp | hp := mem_upsertAll hp
          · exact hle p hp hpk
          · exact (hrest p hp).le
    · have hfilter : (rs ++ [c]).filter (fun q => key q = key r) =
          rs.filter fun q => key q = key r := by
        rw [List.filter_append, List.filter_cons_of_neg (by simpa using fun h => hk h.symm)]
        simp
      have hnone : (∀ q ∈ rs ++ [c], key q ≠ key r) ↔ ∀ q ∈ rs, key q ≠ key r := by
        simp only [List.forall_mem_append, List.forall_mem_singleton]
        exact and_iff_left (Ne.symm hk)
      rw [mem_upsert_other hk, ih hrest, hfilter, hnone]

theorem not_surpassed_iff (h : rows.Nodup) :
    ¬ Surpassed ranking maxTrustedSubjectAddresses maxTrustedAddresses rows.toFinset r ↔
      (rows.filter fun q => subject (key q) = subject (key r) ∧ precedes q r = true).length <
          maxTrustedSubjectAddresses ∧
        (rows.filter fun q => precedes q r).length < maxTrustedAddresses := by
  have hsubject : (rows.filter fun q =>
      subject (key q) = subject (key r) ∧ precedes q r = true).length =
      (above rank ranking.groupOf rows.toFinset (ranking.groupOf r) (rank r)).card := by
    rw [length_filter_eq_card h, above]
    simp only [decide_eq_true_eq, precedes_iff]
    rfl
  have hall : (rows.filter fun q => precedes q r).length =
      (above rank (fun _ => ()) rows.toFinset () (rank r)).card := by
    rw [length_filter_eq_card h, above]
    simp only [precedes_iff, true_and]
  rw [hsubject, hall]
  constructor
  · intro hroom
    exact ⟨not_le.mp fun hle => hroom (.group hle), not_le.mp fun hle => hroom (.all hle)⟩
  · rintro ⟨hlt, hlt'⟩ (hle | hle)
    · exact absurd hlt (not_lt.mpr hle)
    · exact absurd hlt' (not_lt.mpr hle)

variable {current : Server} {domain type : GoString} {records : List AnswerRecord}

/-- A call whose rows have one time adds a row to the pool exactly if one of them enters it. -/
theorem added_iff (h : Capped rows)
    (hsame : ∀ q ∈ records.filterMap (newRow current domain type), q.observedAt = t) :
    (∃ r ∈ saveRecords current domain type records rows, r ∉ rows) ↔
      ∃ r, Enters rows (records.filterMap (newRow current domain type)) r := by
  have hkey : Set.InjOn ranking.key (rows.toFinset : Set ObservationRow) :=
    fun q hq r hr hk => h.keyed.eq (List.mem_toFinset.mp hq) (List.mem_toFinset.mp hr) hk
  have hlimited := limited_of_subjects h.keyed.nodup h.subjects
  have hnew : ∀ r, r ∈ upsertAll (records.filterMap (newRow current domain type)) rows ∧
      r ∉ rows ↔ ((records.filterMap (newRow current domain type)).filter fun q =>
        key q = key r).getLast? = some r ∧ r ∉ rows ∧
          ∀ p ∈ rows, key p = key r → p.observedAt ≤ r.observedAt := by
    intro r
    rw [mem_upsertAll_iff h.keyed hsame]
    constructor
    · rintro ⟨⟨hr, -⟩ | ⟨hlast, hle⟩, hno⟩
      · exact absurd hr hno
      · rw [← hsame r (List.mem_filter.mp (List.mem_of_getLast? hlast)).1] at hle
        exact ⟨hlast, hno, hle⟩
    · rintro ⟨hlast, hno, hle⟩
      rw [hsame r (List.mem_filter.mp (List.mem_of_getLast? hlast)).1] at hle
      exact ⟨.inr ⟨hlast, hle⟩, hno⟩
  have hgroup : ∀ x ∈ (upsertAll (records.filterMap (newRow current domain type)) rows).toFinset,
      x ∉ rows.toFinset → ranking.groupOf x = (current.id, domain, type) := by
    intro x hx hno
    rw [List.mem_toFinset] at hx hno
    obtain ⟨record, -, hrow⟩ := List.mem_filterMap.mp
      (List.mem_filter.mp (List.mem_of_getLast? ((hnew x).mp ⟨hx, hno⟩).1)).1
    exact subject_newRow hrow
  have hcut := exists_new_mem_cut (n := maxTrustedAddresses) hkey hlimited
    (dominated_upsertAll (records.filterMap (newRow current domain type)) rows)
    fun x hx hnx y hy hny => (hgroup x hx hnx).trans (hgroup y hy hny).symm
  rw [← toFinset_saveRecords h] at hcut
  simp only [List.mem_toFinset, not_surpassed_iff h.keyed.nodup, ← and_assoc, hnew] at hcut
  rw [hcut]
  constructor
  · rintro ⟨r, ⟨⟨⟨hlast, hno⟩, hle⟩, hsubject⟩, hall⟩
    exact ⟨r, hlast, hno, hle, hsubject, hall⟩
  · rintro ⟨r, hr⟩
    exact ⟨r, ⟨⟨⟨hr.last, hr.new⟩, hr.latest⟩, hr.subject⟩, hr.all⟩

theorem added_saveTrustedObservation_iff {F : Type} [CaseTables] {db : DB F}
    (h : Capped db.trustedObservations) (server : Server) {result : ProbeResult F}
    (hsame : ∀ record ∈ result.records, record.observedAt = t) :
    (∃ r ∈ (saveTrustedObservation db server result).trustedObservations,
      r ∉ db.trustedObservations) ↔
      ∃ r, Enters db.trustedObservations (contributed db server result) r := by
  obtain ⟨hnone, he⟩ | ⟨hr, current, ha⟩ := accepted_cases db server result
  · rw [hnone, he]
    constructor
    · rintro ⟨r, hr, hno⟩
      exact absurd hr hno
    · rintro ⟨r, hr⟩
      cases hr.last
  · rw [contributed_eq ha, saveTrustedObservation_eq ha hr]
    apply added_iff h
    intro q hq
    obtain ⟨record, hrecord, hrow⟩ := List.mem_filterMap.mp hq
    rw [(newRow_eq_some hrow).observedAt.1, hsame record hrecord]

end DnsMonitor.Store.Additions
