import DnsMonitor.Store.Pool
import DnsMonitor.Store.Trust

namespace DnsMonitor.Store.Upserts

open DnsMonitor.Model DnsMonitor.Lib DnsMonitor.Lib.Tables DnsMonitor.Store.Schema
open DnsMonitor.Store.Cleanup DnsMonitor.Store.Servers DnsMonitor.Store.References
open DnsMonitor.Store.Migration DnsMonitor.Store.Override DnsMonitor.Store.Run
open DnsMonitor.Store.WellFormed DnsMonitor.Store.Pool DnsMonitor.Store.Trust
open DnsMonitor.Go.Strings DnsMonitor.Go.Unicode DnsMonitor.Go.Errors DnsMonitor.Go.Float

section

variable {p q r : ObservationRow} {rs rows : List ObservationRow}

def key (r : ObservationRow) : Int × GoString × GoString × GoString :=
  (r.serverID, r.domain, r.type, r.value)

theorem sameKey_iff_key : sameKey q r = true ↔ key q = key r := by
  simp [sameKey_iff, key]

def Keyed (rows : List ObservationRow) : Prop := (rows.map key).Nodup

theorem Keyed.nodup (h : Keyed rows) : rows.Nodup := List.Nodup.of_map _ h

theorem Keyed.eq (h : Keyed rows) (hq : q ∈ rows) (hr : r ∈ rows) (hk : key q = key r) : q = r :=
  List.inj_on_of_nodup_map h hq hr hk

theorem Keyed.sublist (h : Keyed rows) (hs : rs.Sublist rows) : Keyed rs :=
  List.Nodup.sublist (hs.map key) h

/-- The row that a stored one becomes when another one arrives. -/
def refreshed (r q : ObservationRow) : ObservationRow :=
  if key q = key r ∧ q.observedAt ≤ r.observedAt then r else q

theorem key_refreshed (r q : ObservationRow) : key (refreshed r q) = key q := by
  unfold refreshed
  split_ifs with h
  · exact h.1.symm
  · rfl

theorem upsert_eq (r : ObservationRow) (rows : List ObservationRow) :
    upsertObservation r rows =
      if key r ∈ rows.map key then rows.map (refreshed r) else rows ++ [r] := by
  have hany : rows.any (sameKey r) = true ↔ key r ∈ rows.map key := by
    simp only [List.any_eq_true, List.mem_map, sameKey_iff_key]
    exact ⟨fun ⟨q, hq, hk⟩ => ⟨q, hq, hk.symm⟩, fun ⟨q, hq, hk⟩ => ⟨q, hq, hk.symm⟩⟩
  unfold upsertObservation
  simp only [hany]
  congr 1
  apply List.map_congr_left
  intro q _
  simp only [refreshed, Bool.and_eq_true, decide_eq_true_eq, sameKey_iff_key, eq_comm (a := key r)]
  split_ifs with h
  · have hk := h.1
    simp only [key, Prod.mk.injEq] at hk
    rw [hk.1, hk.2.1, hk.2.2.1, hk.2.2.2]
  · rfl

theorem keyed_upsert (h : Keyed rows) (r : ObservationRow) : Keyed (upsertObservation r rows) := by
  rw [upsert_eq]
  split_ifs with hk
  · have hkey : key ∘ refreshed r = key := funext fun q => key_refreshed r q
    rw [Keyed, List.map_map, hkey]
    exact h
  · rw [Keyed, List.map_append, List.map_singleton]
    exact List.nodup_append'.mpr ⟨h, List.nodup_singleton _, by simpa using hk⟩

theorem keyed_upsertAll (h : Keyed rows) (rs : List ObservationRow) :
    Keyed (upsertAll rs rows) := by
  induction rs generalizing rows with
  | nil => exact h
  | cons r rs ih => exact ih (keyed_upsert h r)

theorem mem_upsert_other (hk : key q ≠ key r) : q ∈ upsertObservation r rows ↔ q ∈ rows := by
  rw [upsert_eq]
  split_ifs
  · rw [List.mem_map]
    constructor
    · rintro ⟨p, hp, rfl⟩
      rw [key_refreshed] at hk
      rwa [refreshed, if_neg fun h => hk h.1]
    · exact fun hq => ⟨q, hq, if_neg fun h => hk h.1⟩
  · rw [List.mem_append, List.mem_singleton]
    exact or_iff_left fun h => hk (congrArg key h)

/-- A row is stored unless one of its key is that was observed later. -/
theorem mem_upsert_self (h : ∀ p ∈ rows, key p = key r → p.observedAt ≤ r.observedAt) :
    r ∈ upsertObservation r rows := by
  rw [upsert_eq]
  split_ifs with hk
  · obtain ⟨p, hp, he⟩ := List.mem_map.mp hk
    exact List.mem_map.mpr ⟨p, hp, if_pos ⟨he, h p hp he⟩⟩
  · simp

theorem filter_upsert {s : ObservationRow → Bool} (h : ∀ q, key q = key r → s q = false)
    (rows : List ObservationRow) : (upsertObservation r rows).filter s = rows.filter s := by
  rw [upsert_eq]
  split_ifs
  · have hkept : ∀ q, s q = true → refreshed r q = q := by
      intro q hq
      apply if_neg
      intro hk
      rw [h q hk.1] at hq
      cases hq
    have hsame : s ∘ refreshed r = s := by
      funext q
      by_cases hk : key q = key r
      · rw [Function.comp, h q hk, h _ ((key_refreshed r q).trans hk)]
      · rw [Function.comp, refreshed, if_neg fun hc => hk hc.1]
    rw [List.filter_map, hsame]
    exact (List.map_congr_left fun q hq => hkept q (List.mem_filter.mp hq).2).trans
      (List.map_id _)
  · rw [List.filter_append, List.filter_cons_of_neg (by simp [h r rfl]), List.filter_nil,
      List.append_nil]

theorem filter_upsertAll {s : ObservationRow → Bool}
    (h : ∀ r ∈ rs, ∀ q, key q = key r → s q = false) (rows : List ObservationRow) :
    (upsertAll rs rows).filter s = rows.filter s := by
  induction rs generalizing rows with
  | nil => rfl
  | cons r rs ih =>
    obtain ⟨hr, hrs⟩ := List.forall_mem_cons.mp h
    rw [upsertAll_cons, ih hrs, filter_upsert hr]

theorem mem_upsertAll_other (hk : ∀ r ∈ rs, key q ≠ key r) :
    q ∈ upsertAll rs rows ↔ q ∈ rows := by
  induction rs generalizing rows with
  | nil => rfl
  | cons r rs ih =>
    obtain ⟨hr, hrs⟩ := List.forall_mem_cons.mp hk
    rw [upsertAll_cons, ih hrs, mem_upsert_other hr]

/-- Of several rows with different keys each is stored, unless one of its key is that was observed
later. -/
theorem mem_upsertAll_self (hrs : Keyed rs)
    (h : ∀ r ∈ rs, ∀ p ∈ rows, key p = key r → p.observedAt ≤ r.observedAt) (hr : r ∈ rs) :
    r ∈ upsertAll rs rows := by
  induction rs generalizing rows with
  | nil => cases hr
  | cons q rs ih =>
    obtain ⟨hq, hrs⟩ := List.nodup_cons.mp hrs
    obtain ⟨hfirst, hrest⟩ := List.forall_mem_cons.mp h
    rw [upsertAll_cons]
    cases List.mem_cons.mp hr with
    | inl he =>
      have hother : ∀ p ∈ rs, key r ≠ key p :=
        fun p hp hk => hq (List.mem_map.mpr ⟨p, hp, hk.symm.trans (congrArg key he)⟩)
      rw [mem_upsertAll_other hother, he]
      exact mem_upsert_self hfirst
    | inr hr =>
      apply ih hrs _ hr
      intro r' hr' p hp hk
      have hne : key p ≠ key q := fun he => hq (List.mem_map.mpr ⟨r', hr', hk.symm.trans he⟩)
      exact hrest r' hr' p ((mem_upsert_other hne).mp hp) hk

end

section

variable {F : Type} {db db' : DB F}

variable [GoFloat F]

theorem observations_rebuildPartial {before : Int} {ids : List Int}
    (h : rebuildPartial before ids db = .ok db') :
    db'.trustedObservations = db.trustedObservations := by
  refine rebuildPartial_keeps (P := fun d => d.trustedObservations = db.trustedObservations) ?_
    rfl h
  intro id _ d d' hd hround
  cases rebuilt hround with
  | dropped _ => exact hd
  | recounted _ _ _ => exact hd

variable [CaseTables]

theorem rows_apply {e : Event F} (he : isObservation e = false) (h : apply db e = .ok db') :
    db'.trustedObservations.Sublist db.trustedObservations := by
  cases e with
  | saveConfig c =>
    obtain rfl := saveConfig_ok h
    exact List.Sublist.refl _
  | saveServer now v =>
    cases saveServer_ok h with
    | inl hi => exact hi.2 ▸ List.Sublist.refl _
    | inr hu => exact hu.2.2 ▸ delete_sublist _ _
  | deleteServer id => exact deleteServer_ok h ▸ delete_sublist _ _
  | importServers now snapshot items =>
    simp only [apply, map_eq_ok] at h
    obtain ⟨r, hr, rfl⟩ := h
    exact importServers_invariant (fun _ _ _ h => h)
      (fun _ _ h => (delete_sublist _ _).trans h) (List.Sublist.refl _) hr
  | saveRound v =>
    obtain ⟨_, _, _, snapshots, rfl⟩ := saveRound_ok h
    exact List.Sublist.refl _
  | saveOverride now v => exact (saveOverride_ok h).2 ▸ List.Sublist.refl _
  | saveTrustedObservation server result => cases he
  | pruneTrustedReferences now hours =>
    injection h with h
    exact h ▸ delete_sublist _ _
  | cleanup before t =>
    cases t with
    | pruneObservations =>
      injection h with h
      exact h ▸ delete_sublist _ _
    | pruneReferences ids =>
      obtain rfl := pruneReferences_ok h
      exact List.Sublist.refl _
    | pruneResults ids => rw [observations_rebuildPartial h]
    | _ =>
      injection h with h
      exact h ▸ List.Sublist.refl _

omit [GoFloat F] in
theorem keyed_saveTrustedObservation (h : Keyed db.trustedObservations) (server : Server)
    (result : ProbeResult F) :
    Keyed (saveTrustedObservation db server result).trustedObservations := by
  obtain ⟨_, he⟩ | ⟨hr, current, ha⟩ := accepted_cases db server result
  · rw [he]
    exact h
  · rw [saveTrustedObservation_eq ha hr, saveRecords, saveRecord_foldl]
    apply (keyed_upsertAll h _).sublist
    exact (delete_sublist _ _).trans (delete_sublist _ _)

/-- What the rows keep when some are deleted and when a call saves what it has observed, they keep
in every run. -/
theorem rows_reachable {P : List ObservationRow → Prop}
    (hsublist : ∀ {rows rows'}, P rows → rows'.Sublist rows → P rows')
    (hsave : ∀ {db : DB F}, P db.trustedObservations → ∀ server result,
      P (saveTrustedObservation db server result).trustedObservations)
    (hnil : P []) (h : Reachable db) : P db.trustedObservations := by
  obtain ⟨legacy, es, rfl⟩ := h
  apply Runs.run_invariant (P := fun db : DB F => P db.trustedObservations)
  · apply step_invariant
    intro db db' e hp he
    cases hobs : isObservation e with
    | false => exact hsublist hp (rows_apply hobs he)
    | true =>
      cases e with
      | saveTrustedObservation server result =>
        injection he with he
        exact he ▸ hsave hp server result
      | _ => cases hobs
  · exact hnil

theorem keyed_reachable (h : Reachable db) : Keyed db.trustedObservations :=
  rows_reachable Keyed.sublist keyed_saveTrustedObservation List.nodup_nil h

theorem sourced_reachable (h : Reachable db) : Sourced db := by
  obtain ⟨legacy, es, rfl⟩ := h
  refine (Runs.run_invariant (P := fun db : DB F => WellFormed db ∧ Sourced db) ?_
    ⟨wellFormed_migrate legacy.wellFormed, ?_⟩ es).2
  · apply step_invariant
    intro db db' e hp he
    refine ⟨wellFormed_apply hp.1 he, ?_⟩
    cases hobs : isObservation e with
    | false => exact sourced_evolves hp.1 hp.2 (evolves_apply hp.1 hobs he)
    | true =>
      cases e with
      | saveTrustedObservation server result =>
        injection he with he
        exact he ▸ sourced_saveTrustedObservation hp.2 server result
      | _ => cases hobs
  · intro o ho
    cases ho

end

end DnsMonitor.Store.Upserts
