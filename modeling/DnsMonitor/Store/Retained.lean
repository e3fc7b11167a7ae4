import DnsMonitor.Store.Trust

namespace DnsMonitor.Store.Retained

open DnsMonitor.Model DnsMonitor.Lib DnsMonitor.Lib.Tables DnsMonitor.Store.Schema
open DnsMonitor.Store.Rounds DnsMonitor.Store.Override DnsMonitor.Store.Cleanup
open DnsMonitor.Store.Servers DnsMonitor.Store.References DnsMonitor.Store.Migration
open DnsMonitor.Store.Run DnsMonitor.Store.WellFormed DnsMonitor.Store.Trust
open DnsMonitor.Go.Strings DnsMonitor.Go.Unicode DnsMonitor.Go.Errors DnsMonitor.Go.Float

/-- What holds of a reference to a trusted source: it is as old as its last answer, and lists the
values of its answers. -/
structure Built (ref : Reference) : Prop where
  timestamp : 0 < ref.timestamp
  records : ∀ record ∈ ref.records, 0 < record.observedAt ∧ record.observedAt ≤ ref.timestamp
  answers : ref.answers = ref.records.map (·.value)

def recentPart (before : Int) (ref : Reference) : Reference :=
  let records := ref.records.filter (before ≤ ·.observedAt)
  { ref with records, answers := records.map (·.value) }

/-- A reference stays when it is recent, and so is one of its answers if it has any. -/
def isRetained (before : Int) (ref : Reference) : Bool :=
  before ≤ ref.timestamp && (ref.records = [] || ref.records.any (before ≤ ·.observedAt))

def recentReferences (before : Int) (refs : List Reference) : List Reference :=
  (refs.filter (isRetained before)).map (recentPart before)

theorem keepReference_eq {before : Int} {ref : Reference} (h : Built ref) :
    keepReference before ref =
      if isRetained before ref then some (recentPart before ref) else none := by
  have hany : ref.records.any (before ≤ ·.observedAt) = true ↔
      ref.records.filter (before ≤ ·.observedAt) ≠ [] := by
    rw [ne_eq, List.filter_eq_nil_iff, List.any_eq_true]
    simp
  rw [keepReference]
  by_cases hrecords : ref.records = []
  · have hpart : recentPart before ref = ref := by
      have hanswers := h.answers
      rw [hrecords, List.map_nil] at hanswers
      rw [recentPart, hrecords, List.filter_nil, List.map_nil, ← hrecords, ← hanswers]
    by_cases htime : ref.timestamp < before
    · simp [isRetained, hrecords, htime, not_le.mpr htime]
    · simp [isRetained, hrecords, htime, not_lt.mp htime, hpart]
  · by_cases hleft : ref.records.filter (before ≤ ·.observedAt) = []
    · have hnone : ref.records.any (before ≤ ·.observedAt) = false := by
        rw [Bool.eq_false_iff, ne_eq, hany, not_not]
        exact hleft
      simp [isRetained, hrecords, hleft, hnone]
    · have hsome := hany.mpr hleft
      by_cases htime : ref.timestamp < before
      · simp [isRetained, hrecords, hleft, htime, not_le.mpr htime]
      · simp only [hrecords, hleft, ne_eq, not_false_eq_true, and_false, if_false, htime, if_true,
          isRetained, hsome, not_lt.mp htime, decide_true, Bool.or_true, Bool.and_true]
        rfl

theorem filterMap_keepReference {before : Int} {refs : List Reference} (h : ∀ ref ∈ refs, Built ref) :
    refs.filterMap (keepReference before) = recentReferences before refs := by
  induction refs with
  | nil => rfl
  | cons ref refs ih =>
    have htail := ih fun r hr => h r (by simp [hr])
    rw [recentReferences] at htail ⊢
    rw [List.filterMap_cons, keepReference_eq (h ref (by simp)), htail]
    by_cases hr : isRetained before ref = true
    · rw [if_pos hr, List.filter_cons_of_pos hr, List.map_cons]
    · rw [if_neg hr, List.filter_cons_of_neg hr]

theorem built_recentPart {before : Int} {ref : Reference} (h : Built ref) :
    Built (recentPart before ref) where
  timestamp := h.timestamp
  records record hr := h.records record (List.mem_filter.mp hr).1
  answers := rfl

theorem built_recentReferences {before : Int} {refs : List Reference}
    (h : ∀ ref ∈ refs, Built ref) : ∀ ref ∈ recentReferences before refs, Built ref := by
  intro ref href
  obtain ⟨r, hr, rfl⟩ := List.mem_map.mp href
  exact built_recentPart (h r (List.mem_filter.mp hr).1)

def older (oldest time : Int) : Int := if 0 < time ∧ (oldest = 0 ∨ time < oldest) then time else oldest

def referenceTimes (refs : List Reference) : List Int :=
  refs.flatMap fun ref => ref.timestamp :: ref.records.map (·.observedAt)

theorem oldestReference_eq (refs : List Reference) :
    oldestReference refs = (referenceTimes refs).foldl older 0 := by
  have hrecord : ∀ (t : Int) (records : List AnswerRecord),
      oldestRecord t records = (records.map (·.observedAt)).foldl older t := by
    intro t records
    rw [oldestRecord, List.foldl_map]
    rfl
  rw [oldestReference, referenceTimes, List.foldl_flatMap]
  congr 1
  funext t ref
  rw [hrecord, List.foldl_cons]
  rfl

theorem foldl_older {times : List Int} (h : ∀ t ∈ times, 0 < t) {oldest : Int} (ho : 0 ≤ oldest) :
    (times.foldl older oldest = oldest ∨ times.foldl older oldest ∈ times) ∧
      (∀ t ∈ times, times.foldl older oldest ≤ t ∧ times.foldl older oldest ≠ 0) ∧
      (oldest ≠ 0 → times.foldl older oldest ≤ oldest ∧ times.foldl older oldest ≠ 0) := by
  induction times generalizing oldest with
  | nil => simp
  | cons t times ih =>
    have ht := h t (by simp)
    have hnext : 0 < older oldest t ∧ older oldest t ≤ t ∧ (oldest ≠ 0 → older oldest t ≤ oldest) ∧
        (older oldest t = oldest ∨ older oldest t = t) := by
      rw [older]
      split_ifs <;> omega
    obtain ⟨hpos, hle, hold, hone⟩ := hnext
    obtain ⟨hmem, hall, hbound⟩ := ih (fun u hu => h u (by simp [hu])) hpos.le
    obtain ⟨hb, hne⟩ := hbound hpos.ne'
    rw [List.foldl_cons]
    refine ⟨?_, ?_, fun h0 => ⟨hb.trans (hold h0), hne⟩⟩
    · cases hmem with
      | inl he =>
        rw [he]
        cases hone with
        | inl he => exact .inl he
        | inr he => exact .inr (by rw [he]; simp)
      | inr hm => exact .inr (List.mem_cons_of_mem _ hm)
    · intro u hu
      cases List.mem_cons.mp hu with
      | inl he => exact ⟨he ▸ hb.trans hle, hne⟩
      | inr hu => exact hall u hu

theorem foldl_older_mem (times : List Int) (oldest : Int) :
    times.foldl older oldest = oldest ∨ times.foldl older oldest ∈ times := by
  induction times generalizing oldest with
  | nil => exact .inl rfl
  | cons t times ih =>
    rw [List.foldl_cons]
    cases ih (older oldest t) with
    | inr hm => exact .inr (List.mem_cons_of_mem _ hm)
    | inl he =>
      rw [he, older]
      split_ifs
      · exact .inr (by simp)
      · exact .inl rfl

theorem referenceTimes_pos {refs : List Reference} (h : ∀ ref ∈ refs, Built ref) :
    ∀ t ∈ referenceTimes refs, 0 < t := by
  intro t ht
  obtain ⟨ref, hr, ht⟩ := List.mem_flatMap.mp ht
  cases List.mem_cons.mp ht with
  | inl ht => exact ht ▸ (h ref hr).timestamp
  | inr ht =>
    obtain ⟨record, hrecord, rfl⟩ := List.mem_map.mp ht
    exact ((h ref hr).records record hrecord).1

theorem recent_of_column {before : Int} {refs : List Reference} (h : ∀ ref ∈ refs, Built ref)
    (hc : ¬ (0 < oldestReference refs ∧ oldestReference refs < before)) :
    ∀ t ∈ referenceTimes refs, before ≤ t := by
  intro t ht
  have hpos := referenceTimes_pos h
  obtain ⟨hmem, hall, -⟩ := foldl_older hpos le_rfl
  obtain ⟨hle, hne⟩ := hall t ht
  rw [← oldestReference_eq] at hmem hle hne
  cases hmem with
  | inl h0 => exact absurd h0 hne
  | inr hmem =>
    have := hpos _ hmem
    omega

theorem column_of_recent {before : Int} {refs : List Reference}
    (hr : ∀ t ∈ referenceTimes refs, before ≤ t) :
    ¬ (0 < oldestReference refs ∧ oldestReference refs < before) := by
  have hmem := foldl_older_mem (referenceTimes refs) 0
  rw [← oldestReference_eq] at hmem
  cases hmem with
  | inl h0 => omega
  | inr hmem =>
    have := hr _ hmem
    omega

/-- Whatever the references are, those that are kept are recent in all their times. -/
theorem keepReference_times (before : Int) (refs : List Reference) :
    ∀ t ∈ referenceTimes (refs.filterMap (keepReference before)), before ≤ t := by
  intro t ht
  obtain ⟨ref, href, ht⟩ := List.mem_flatMap.mp ht
  obtain ⟨r, _, hr⟩ := List.mem_filterMap.mp href
  have hkept : before ≤ ref.timestamp ∧ ∀ record ∈ ref.records, before ≤ record.observedAt := by
    simp only [keepReference] at hr
    split_ifs at hr with _ hlate hrecords
    · obtain rfl := Option.some.inj hr
      exact ⟨not_lt.mp hlate, fun record hm => of_decide_eq_true (List.mem_filter.mp hm).2⟩
    · obtain rfl := Option.some.inj hr
      rw [not_not.mp hrecords]
      exact ⟨not_lt.mp hlate, fun record hm => absurd hm List.not_mem_nil⟩
  cases List.mem_cons.mp ht with
  | inl ht => exact ht ▸ hkept.1
  | inr ht =>
    obtain ⟨record, hrecord, rfl⟩ := List.mem_map.mp ht
    exact hkept.2 record hrecord

theorem recentReferences_of_recent {before : Int} {refs : List Reference}
    (h : ∀ ref ∈ refs, Built ref) (hr : ∀ t ∈ referenceTimes refs, before ≤ t) :
    recentReferences before refs = refs := by
  have htime : ∀ ref ∈ refs, before ≤ ref.timestamp ∧
      ∀ record ∈ ref.records, before ≤ record.observedAt := by
    intro ref href
    constructor
    · exact hr _ (List.mem_flatMap.mpr ⟨ref, href, by simp⟩)
    · intro record hrecord
      refine hr _ (List.mem_flatMap.mpr ⟨ref, href, ?_⟩)
      exact List.mem_cons_of_mem _ (List.mem_map_of_mem hrecord)
  have hretained : refs.filter (isRetained before) = refs := by
    apply filter_every
    intro ref href
    obtain ⟨ht, hrecords⟩ := htime ref href
    cases hl : ref.records with
    | nil => simp [isRetained, ht, hl]
    | cons record records =>
      have hrecord := hrecords record (by simp [hl])
      simp [isRetained, ht, hl, hrecord]
  rw [recentReferences, hretained]
  apply (List.map_congr_left _).trans (List.map_id _)
  intro ref href
  have hall : ref.records.filter (before ≤ ·.observedAt) = ref.records :=
    filter_every fun record hrecord => decide_eq_true ((htime ref href).2 record hrecord)
  rw [recentPart, hall, ← (h ref href).answers]
  rfl

theorem built_extendReference {ref : Reference} {record : AnswerRecord}
    (hrecords : ∀ r ∈ ref.records, 0 < r.observedAt ∧ r.observedAt ≤ ref.timestamp)
    (hanswers : ref.answers = ref.records.map (·.value)) (h : 0 < record.observedAt) :
    Built (extendReference ref record) where
  timestamp := lt_max_of_lt_right h
  records r hr := by
    cases List.mem_append.mp hr with
    | inl hr => exact ⟨(hrecords r hr).1, (hrecords r hr).2.trans (le_max_left _ _)⟩
    | inr hr =>
      rw [List.mem_singleton.mp hr]
      exact ⟨h, le_max_right _ _⟩
  answers := by simp [extendReference, hanswers]

theorem built_addObservation {refs : List Reference} (h : ∀ ref ∈ refs, Built ref)
    {o : ObservationRow} (ho : 0 < o.observedAt) : ∀ ref ∈ addObservation refs o, Built ref := by
  have hfirst : ∀ ref ∈ refs ++ [extendReference
      { records := [], serverID := o.serverID, address := o.address, timestamp := 0,
        rcode := str "NOERROR", answers := [], success := true }
      { value := o.value, ttlSeconds := o.ttlSeconds, observedAt := o.observedAt,
        expiresAt := o.expiresAt }], Built ref := by
    intro ref hr
    cases List.mem_append.mp hr with
    | inl hr => exact h ref hr
    | inr hr =>
      rw [List.mem_singleton.mp hr]
      exact built_extendReference (by simp) rfl ho
  rw [addObservation]
  cases hl : refs.getLast? with
  | none => exact hfirst
  | some last =>
    dsimp only
    split_ifs
    · intro ref hr
      cases List.mem_append.mp hr with
      | inl hr => exact h ref (List.dropLast_subset _ hr)
      | inr hr =>
        have hlast := h last (List.mem_of_getLast? hl)
        rw [List.mem_singleton.mp hr]
        exact built_extendReference hlast.records hlast.answers ho
    · exact hfirst

section

variable {F : Type} [GoFloat F] [CaseTables] {db db' : DB F}

theorem observed_apply {e : Event F} (hw : WellFormed db)
    (hp : ∀ o ∈ db.trustedObservations, 0 < o.observedAt) (h : apply db e = .ok db') :
    ∀ o ∈ db'.trustedObservations, 0 < o.observedAt := by
  cases he : isObservation e with
  | false =>
    intro o ho
    exact hp o ((evolves_apply hw he h).rows o ho).1
  | true =>
    cases e with
    | saveTrustedObservation server result =>
      injection h with h
      rw [← h]
      cases saveTrustedObservation_cases db server result with
      | inl hsame =>
        rw [hsame]
        exact hp
      | inr hsaved =>
        obtain ⟨_, _, _, rows, hrows, hmem⟩ := hsaved
        rw [hrows]
        intro o ho
        cases hmem o ho with
        | inl ho => exact hp o ho
        | inr ho => exact ho.2.2
    | _ => cases he

theorem observed_reachable (h : Reachable db) : ∀ o ∈ db.trustedObservations, 0 < o.observedAt := by
  obtain ⟨legacy, es, rfl⟩ := h
  refine (Runs.run_invariant (P := fun db : DB F => WellFormed db ∧
    ∀ o ∈ db.trustedObservations, 0 < o.observedAt) ?_ ⟨wellFormed_migrate legacy.wellFormed, ?_⟩
    es).2
  · exact step_invariant fun _ _ _ h hs => ⟨wellFormed_apply h.1 hs, observed_apply h.1 h.2 hs⟩
  · intro o ho
    cases ho

theorem trustedReferences_built (h : Reachable db) (domain : Domain) (now : Int)
    (historyHours : F) : ∀ ref ∈ trustedReferences db domain now historyHours, Built ref := by
  have hfold : ∀ (rows : List ObservationRow), (∀ o ∈ rows, 0 < o.observedAt) →
      ∀ refs, (∀ ref ∈ refs, Built ref) → ∀ ref ∈ rows.foldl addObservation refs, Built ref := by
    intro rows
    induction rows with
    | nil => exact fun _ refs hrefs => hrefs
    | cons o rows ih =>
      intro hrows refs hrefs
      exact ih (fun q hq => hrows q (by simp [hq])) _
        (built_addObservation hrefs (hrows o (by simp)))
  apply hfold
  · intro o ho
    rw [List.mem_insertionSort] at ho
    exact observed_reachable h o (List.mem_filter.mp ho).1
  · intro ref hr
    cases hr

end

section

variable {F : Type} {db db' : DB F}

/-- A result decodes, its column is in step with its references, and these are built. -/
def InStep (r : ResultRow F) : Prop :=
  ∃ raw, r.rawJSON = some raw ∧ r.oldestReference = oldestReference raw.references ∧
    ∀ ref ∈ raw.references, Built ref

def AllInStep (db : DB F) : Prop := ∀ r ∈ db.results, InStep r

theorem InStep.congr {q r : ResultRow F} (h : InStep r) (hraw : q.rawJSON = r.rawJSON)
    (hold : q.oldestReference = r.oldestReference) : InStep q := by
  obtain ⟨raw, hr, ho, hb⟩ := h
  exact ⟨raw, hraw.trans hr, hold.trans ho, hb⟩

def Decodes (r : ResultRow F) : Prop := r.rawJSON.isSome = true

def AllDecode (db : DB F) : Prop := ∀ r ∈ db.results, Decodes r

theorem InStep.decodes {r : ResultRow F} (h : InStep r) : Decodes r := by
  obtain ⟨raw, hraw, _⟩ := h
  rw [Decodes, hraw]
  rfl

theorem AllInStep.decode (h : AllInStep db) : AllDecode db := fun r hr => (h r hr).decodes

theorem AllDecode.subset (h : AllDecode db) (hs : db'.results ⊆ db.results) : AllDecode db' :=
  fun r hr => h r (hs hr)

theorem prunedResult_eq {before : Int} {r : ResultRow F} {raw : ProbeResult F}
    (hraw : r.rawJSON = some raw) (hb : ∀ ref ∈ raw.references, Built ref) :
    prunedResult before r =
      { r with
        rawJSON := some { raw with references := recentReferences before raw.references }
        oldestReference := oldestReference (recentReferences before raw.references) } := by
  simp only [prunedResult, hraw, Option.map_some, keepReferences, filterMap_keepReference hb]

theorem inStep_prunedResult (before : Int) {r : ResultRow F} (h : InStep r) :
    InStep (prunedResult before r) := by
  obtain ⟨raw, hraw, _, hb⟩ := h
  rw [prunedResult_eq hraw hb]
  exact ⟨_, rfl, rfl, built_recentReferences hb⟩

def isOld (before : Int) (r : ResultRow F) : Bool :=
  0 < r.oldestReference && r.oldestReference < before

theorem prunedResult_of_not_old {before : Int} {r : ResultRow F} (h : InStep r)
    (ho : isOld before r = false) : prunedResult before r = r := by
  obtain ⟨raw, hraw, hcolumn, hb⟩ := h
  have hnot : ¬ (0 < oldestReference raw.references ∧ oldestReference raw.references < before) := by
    rw [← hcolumn]
    simpa [isOld] using ho
  have hsame := recentReferences_of_recent hb (recent_of_column hb hnot)
  rw [prunedResult_eq hraw hb, hsame, ← hcolumn, ← hraw]

theorem not_old_prunedResult (before : Int) {r : ResultRow F} (h : Decodes r) :
    isOld before (prunedResult before r) = false := by
  obtain ⟨raw, hraw⟩ := Option.isSome_iff_exists.mp h
  have hnot := column_of_recent (keepReference_times before raw.references)
  simp only [isOld, prunedResult, hraw, Option.map_some, keepReferences]
  simpa using hnot

theorem decodes_prunedResult (before : Int) {r : ResultRow F} (h : Decodes r) :
    Decodes (prunedResult before r) := by
  rw [Decodes, prunedResult, Option.isSome_map]
  exact h

end

section

variable {F : Type}

/-- A property of results that only their JSON and its column decide, and that pruning keeps. -/
structure RowRule (P : ResultRow F → Prop) : Prop where
  congr : ∀ {q r}, P r → q.rawJSON = r.rawJSON → q.oldestReference = r.oldestReference → P q
  pruned : ∀ before {r}, P r → P (prunedResult before r)

theorem inStep_rule : RowRule (F := F) InStep := ⟨InStep.congr, inStep_prunedResult⟩

theorem decodes_rule : RowRule (F := F) Decodes :=
  ⟨fun h hraw _ => by rwa [Decodes, hraw], decodes_prunedResult⟩

def AllRows (P : ResultRow F → Prop) (db : DB F) : Prop := ∀ r ∈ db.results, P r

/-- A round to save has references as the store gives them. -/
def BuiltReferences (e : Event F) : Prop :=
  ∀ v, e = .saveRound v → ∀ r ∈ v.results, ∀ ref ∈ r.references, Built ref

variable {P : ResultRow F → Prop} {db db' : DB F}

theorem AllRows.subset (h : AllRows P db) (hs : db'.results ⊆ db.results) : AllRows P db' :=
  fun r hr => h r (hs hr)

variable [GoFloat F]

theorem allRows_rebuildRound {id : Int} (h : AllRows P db) (hs : rebuildRound id db = .ok db') :
    AllRows P db' := by
  cases rebuilt hs with
  | dropped _ => exact h.subset (delete_sublist _ _).subset
  | recounted _ _ _ => exact h.subset (List.Subset.refl _)

theorem allRows_rebuildPartial {before : Int} {ids : List Int} (h : AllRows P db)
    (hs : rebuildPartial before ids db = .ok db') : AllRows P db' :=
  rebuildPartial_keeps (fun _ _ _ _ hd hround =>
    allRows_rebuildRound (hd.subset (delete_sublist _ _).subset) hround) h hs

theorem allRows_cleanup (hP : RowRule P) {before : Int} {t : CleanupStep} (h : AllRows P db)
    (hs : cleanup before t db = .ok db') : AllRows P db' := by
  cases t with
  | pruneObservations =>
    injection hs with hs
    exact hs ▸ h.subset (List.Subset.refl _)
  | pruneReferences ids =>
    obtain rfl := pruneReferences_ok hs
    intro r hr
    obtain ⟨q, hq, rfl⟩ := mem_update.mp hr
    split_ifs
    · exact hP.pruned before (h q hq)
    · exact h q hq
  | dropRounds ids =>
    injection hs with hs
    exact hs ▸ h.subset (delete_sublist _ _).subset
  | pruneResults ids => exact allRows_rebuildPartial h hs
  | dropAudit ids =>
    injection hs with hs
    exact hs ▸ h.subset (List.Subset.refl _)

variable [CaseTables]

theorem allRows_apply (hP : RowRule P) {e : Event F} (h : AllRows P db)
    (hnew : ∀ v, e = .saveRound v → ∀ r ∈ v.results, ∀ overrides roundID id,
      P (resultRow overrides roundID id v r))
    (hs : apply db e = .ok db') : AllRows P db' := by
  cases e with
  | saveConfig c =>
    obtain rfl := saveConfig_ok hs
    exact h.subset (List.Subset.refl _)
  | saveServer now v =>
    cases saveServer_ok hs with
    | inl hi => exact hi.2 ▸ h.subset (List.Subset.refl _)
    | inr hu => exact hu.2.2 ▸ h.subset (List.Subset.refl _)
  | deleteServer id =>
    exact deleteServer_ok hs ▸ h.subset (List.Subset.trans (delete_sublist _ _).subset
      (delete_sublist _ _).subset)
  | importServers now snapshot items =>
    simp only [apply, map_eq_ok] at hs
    obtain ⟨r, hr, rfl⟩ := hs
    exact importServers_invariant (P := AllRows P) (fun _ _ _ h => h.subset (List.Subset.refl _))
      (fun _ _ h => h.subset (List.Subset.refl _)) h hr
  | saveRound v =>
    obtain ⟨_, _, _, snapshots, rfl⟩ := saveRound_ok hs
    intro q hq
    cases List.mem_append.mp hq with
    | inl hq => exact h q hq
    | inr hq =>
      obtain ⟨r, hr, id, rfl⟩ := mem_resultRows hq
      exact hnew v rfl r hr _ _ _
  | saveOverride now v =>
    rw [(saveOverride_ok hs).2]
    intro r hr
    obtain ⟨q, hq, rfl⟩ := mem_update.mp hr
    apply hP.congr (h q hq)
    · split_ifs <;> rfl
    · split_ifs <;> rfl
  | saveTrustedObservation server result =>
    obtain ⟨rows, rfl⟩ := saveTrustedObservation_ok hs
    exact h.subset (List.Subset.refl _)
  | pruneTrustedReferences now hours =>
    obtain ⟨rows, rfl⟩ := pruneTrustedReferences_ok hs
    exact h.subset (List.Subset.refl _)
  | cleanup before t => exact allRows_cleanup hP h hs

omit [GoFloat F] [CaseTables] in
theorem allRows_migrate (hP : RowRule P) (h : AllRows P db) : AllRows P (migrate db) := by
  intro r hr
  simp only [migrate, List.map_map, List.mem_map] at hr
  obtain ⟨q, hq, rfl⟩ := hr
  exact hP.congr (h q hq) rfl rfl

theorem inStep_apply {e : Event F} (h : AllInStep db) (he : BuiltReferences e)
    (hs : apply db e = .ok db') : AllInStep db' :=
  allRows_apply inStep_rule h (fun v hv r hr _ _ _ => ⟨normalizeResult v r, rfl, rfl, he v hv r hr⟩)
    hs

theorem decode_apply {e : Event F} (h : AllDecode db) (hs : apply db e = .ok db') : AllDecode db' :=
  allRows_apply decodes_rule h (fun _ _ _ _ _ _ _ => rfl) hs

theorem inStep_run (h : AllInStep db) {es : List (Event F)} (he : ∀ e ∈ es, BuiltReferences e) :
    AllInStep (Runs.run step db es) := by
  apply Runs.run_invariant_of (C := BuiltReferences) _ h he
  intro db e he h
  cases ha : apply db e with
  | error err => simpa [step, ha] using h
  | ok db' => simpa [step, ha] using inStep_apply h he ha

end

end DnsMonitor.Store.Retained
