import DnsMonitor.Monitor.Eligibility
import DnsMonitor.Monitor.Negatives
import DnsMonitor.Store.Selection

namespace DnsMonitor.Monitor.Freshness

open DnsMonitor.Model DnsMonitor.Lib.Tables DnsMonitor.Store.Schema DnsMonitor.Store.References
open DnsMonitor.Store.Servers DnsMonitor.Store.Migration DnsMonitor.Store.Run
open DnsMonitor.Store.Trust DnsMonitor.Store.Pool DnsMonitor.Store.Cited DnsMonitor.Store.Pruning
open DnsMonitor.Store.Upserts DnsMonitor.Store.Selection
open DnsMonitor.Monitor.Probe DnsMonitor.Monitor.Lookup DnsMonitor.Monitor.Comparison
open DnsMonitor.Monitor.Levels DnsMonitor.Monitor.Negatives DnsMonitor.Monitor.Eligibility
open DnsMonitor.Go.Strings DnsMonitor.Go.Unicode DnsMonitor.Go.Net DnsMonitor.Go.Float

section

variable {r : ObservationRow} {rs rows : List ObservationRow} {ks : List Key}

theorem length_filter_lt (hrows : Keyed rows) (hr : r ∈ rows) (hk : key r ∈ ks)
    {p : ObservationRow → Bool} (hp : p r = false) :
    (rows.filter p).length <
      ks.length + (rows.filter fun q => decide (key q ∉ ks) && p q).length := by
  have hsplit := List.length_eq_length_filter_add (l := rows.filter p)
    fun q => decide (key q ∈ ks)
  have hnodup : (key r :: (rows.filter fun q => decide (key q ∈ ks) && p q).map key).Nodup := by
    refine List.nodup_cons.mpr ⟨?_, (List.filter_sublist.map key).nodup hrows⟩
    intro hmem
    obtain ⟨q, hq, he⟩ := List.mem_map.mp hmem
    obtain ⟨hq, hpq⟩ := List.mem_filter.mp hq
    rw [hrows.eq hq hr he, hp, Bool.and_false] at hpq
    cases hpq
  have hsub : key r :: (rows.filter fun q => decide (key q ∈ ks) && p q).map key ⊆ ks := by
    apply List.cons_subset.mpr
    refine ⟨hk, ?_⟩
    intro k hmem
    obtain ⟨q, hq, rfl⟩ := List.mem_map.mp hmem
    have hin := (List.mem_filter.mp hq).2
    simp only [Bool.and_eq_true, decide_eq_true_eq] at hin
    exact hin.1
  have hle := (hnodup.subperm hsub).length_le
  rw [List.length_cons, List.length_map] at hle
  rw [List.filter_filter, List.filter_filter] at hsplit
  simp only [decide_not]
  omega

variable {current : Server} {domain type : GoString} {records : List AnswerRecord} {t : Int}

theorem precedesInSubject_observedAt {q r : ObservationRow} (h : precedesInSubject q r = true) :
    r.observedAt ≤ q.observedAt := by
  simp only [precedesInSubject, Bool.or_eq_true, Bool.and_eq_true, decide_eq_true_eq] at h
  omega

theorem precedes_observedAt {q r : ObservationRow} (h : precedes q r = true) :
    r.observedAt ≤ q.observedAt := by
  simp only [precedes, Bool.or_eq_true, Bool.and_eq_true, decide_eq_true_eq] at h
  omega

/-- New rows stay when what precedes them of the rows that were there leaves room for all. -/
theorem mem_saveRecords_of_room (hrows : Keyed rows)
    (hrs : records.filterMap (newRow current domain type) = rs) (hkeyed : Keyed rs)
    (ht : ∀ r ∈ rs, r.observedAt = t)
    (hlater : ∀ p ∈ rows, key p ∈ rs.map key → p.observedAt ≤ t)
    (hsubject : rs.length + (rows.filter fun q => decide (key q ∉ rs.map key) &&
      (subject (key q) = (current.id, domain, type) && t ≤ q.observedAt)).length ≤
        maxTrustedSubjectAddresses)
    (hall : rs.length + (rows.filter fun q => decide (key q ∉ rs.map key) &&
      t ≤ q.observedAt).length ≤ maxTrustedAddresses) (hr : r ∈ rs) :
    r ∈ saveRecords current domain type records rows := by
  have hstored : r ∈ upsertAll rs rows := by
    apply mem_upsertAll_self hkeyed _ hr
    intro q hq p hp hk
    rw [ht q hq]
    exact hlater p hp (hk ▸ List.mem_map_of_mem hq)
  have hafter := keyed_upsertAll hrows rs
  have hk : key r ∈ rs.map key := List.mem_map_of_mem hr
  -- a selection of rows of other keys is as before
  have hothers : ∀ s s' : ObservationRow → Bool, (∀ q, s q = true → s' q = true) →
      ((upsertAll rs rows).filter fun q => decide (key q ∉ rs.map key) && s q).length ≤
        (rows.filter fun q => decide (key q ∉ rs.map key) && s' q).length := by
    intro s s' hs
    rw [filter_upsertAll]
    · apply List.Sublist.length_le
      apply List.monotone_filter_right
      intro q hq
      rw [Bool.and_eq_true] at hq ⊢
      exact ⟨hq.1, hs q hq.2⟩
    · intro q hq p hpk
      rw [hpk, decide_eq_false (not_not.mpr (List.mem_map_of_mem hq)), Bool.false_and]
  have hgroup : ∀ q : ObservationRow,
      (q.serverID = current.id && q.domain = domain && q.type = type : Bool) =
        decide (subject (key q) = (current.id, domain, type)) := by
    intro q
    rw [Bool.eq_iff_iff]
    simp [subject, key, and_assoc]
  rw [saveRecords, saveRecord_foldl, hrs, mem_evict, mem_evict]
  simp only [hgroup, List.filter_true, true_implies]
  refine ⟨⟨hstored, fun _ => ?_⟩, ?_⟩
  · rw [List.filter_filter]
    have hlt := length_filter_lt hafter hstored hk (p := fun q => precedesInSubject q r &&
      decide (subject (key q) = (current.id, domain, type))) (by simp [precedesInSubject])
    have hle := hothers
      (fun q => precedesInSubject q r && decide (subject (key q) = (current.id, domain, type)))
      (fun q => subject (key q) = (current.id, domain, type) && t ≤ q.observedAt) (by
        intro q hq
        simp only [Bool.and_eq_true, decide_eq_true_eq] at hq ⊢
        exact ⟨hq.2, ht r hr ▸ precedesInSubject_observedAt hq.1⟩)
    rw [List.length_map] at hlt
    omega
  · have hlt := length_filter_lt hafter hstored hk (p := fun q => precedes q r)
      (by simp [precedes])
    have hle := hothers (fun q => precedes q r) (fun q => t ≤ q.observedAt)
      fun q hq => decide_eq_true (ht r hr ▸ precedes_observedAt hq)
    rw [List.length_map] at hlt
    refine ((delete_sublist _ (upsertAll rs rows)).filter _).length_le.trans_lt ?_
    omega

end

section

variable {F : Type} [GoFloat F] [CaseTables]

structure Addresses (records : List AnswerRecord) : Prop where
  nodup : (records.map (·.value)).Nodup
  ipv4 : ∀ record ∈ records, ∃ ip : IPv4, record.value = ip.string

omit [GoFloat F] [CaseTables] in
theorem addresses_nil : Addresses [] := ⟨List.nodup_nil, fun _ h => absurd h List.not_mem_nil⟩

theorem addresses_ownRecords (owner : GoString) (pathTTL now : Int)
    (answers : List DoggoRecord) :
    Addresses (ownRecords F owner (str "A") pathTTL now answers) := by
  unfold ownRecords
  dsimp only
  constructor
  · rw [List.map_map]
    refine ((List.perm_insertionSort _ _).nodup_iff.mpr (List.nodup_dedup _)).map ?_
    exact fun _ _ h => h
  · intro record hrecord
    obtain ⟨value, hvalue, rfl⟩ := List.mem_map.mp hrecord
    rw [List.mem_insertionSort, List.mem_dedup] at hvalue
    obtain ⟨p, hp, rfl⟩ := List.mem_map.mp hvalue
    obtain ⟨r, -, hr⟩ := List.mem_filterMap.mp hp
    split_ifs at hr with hnil
    obtain rfl := Option.some.inj hr
    exact (normalizeAnswer_cases r.address).resolve_left hnil

theorem addresses_followAliases (answers : List DoggoRecord) (now : Int) (hops : Nat)
    (seen : List GoString) (owner : GoString) (pathTTL : Int) :
    Addresses (followAliases F answers (str "A") now hops seen owner pathTTL) := by
  induction hops generalizing seen owner pathTTL with
  | zero => exact addresses_nil
  | succ hops ih =>
    unfold followAliases
    split_ifs with hseen hcname
    · exact addresses_nil
    · exact absurd hcname (by decide)
    · split
      · exact addresses_nil
      · exact addresses_ownRecords _ _ _ _
      · exact ih _ _ _

theorem addresses_requestedRecords (answers : List DoggoRecord) {domain : Domain}
    (h : domain.type = str "A") (now : Int) :
    Addresses (requestedRecords F answers domain now) := by
  rw [requestedRecords, h]
  exact addresses_followAliases _ _ _ _ _ _

theorem answers_perm {resp : DoggoResponse} {domain : Domain} (h : domain.type = str "A")
    (error : GoString) (now : Int) (r : Decoded F) :
    (decodeResponse resp error domain now r).answers.Perm
      ((requestedRecords F resp.answers domain now).map (·.value)) := by
  have hperm := List.perm_insertionSort (fun v w : GoString => ¬ w < v)
    ((requestedRecords F resp.answers domain now).map (·.value))
  have hnodup := hperm.nodup_iff.mpr (addresses_requestedRecords resp.answers h now).nodup
  simp only [decodeResponse]
  rw [List.destutter_of_isChain _ _ (List.Pairwise.isChain hnodup)]
  exact hperm

theorem normalizeSubject_type {domain : Domain} (h : domain.type = str "A") :
    (normalizeSubject domain.name domain.type).2 = str "A" := by
  rw [h]
  show toUpper (trimSpace (str "A")) = str "A"
  rw [show trimSpace (str "A") = str "A" by decide, toUpper_ascii (by decide +kernel)]
  decide

def freshRow (current : Server) (domain type : GoString) (t : Int) (record : AnswerRecord) :
    ObservationRow where
  serverID := current.id
  address := current.address
  domain := domain
  type := type
  value := record.value
  ttlSeconds := max 0 (min record.ttlSeconds 86400)
  observedAt := t
  expiresAt := expires (stampRecord t record)

omit [CaseTables] in
theorem newRow_address (current : Server) (domain type : GoString) {t : Int} (ht : 0 < t)
    {record : AnswerRecord} {ip : IPv4} (hip : record.value = ip.string) :
    newRow current domain type (stampRecord t record) =
      some (freshRow current domain type t record) := by
  have hvalue : (stampRecord t record).value = ip.string := hip
  have hskip : ¬ ((stampRecord t record).observedAt ≤ 0 ∨
      (stampRecord t record).ttlSeconds < 0) := by
    simp only [stampRecord, not_or]
    omega
  unfold newRow
  rw [hvalue, trimSpace_string, parseIP_string]
  dsimp only
  rw [if_neg hskip, freshRow, hip]
  rfl

omit [GoFloat F] [CaseTables] in
theorem filterMap_newRow (current : Server) (domain type : GoString) {t : Int} (ht : 0 < t)
    {records : List AnswerRecord} (h : Addresses records) :
    (records.map (stampRecord t)).filterMap (newRow current domain type) =
      records.map (freshRow current domain type t) := by
  rw [List.filterMap_map, ← List.filterMap_eq_map]
  apply List.filterMap_congr
  intro record hrecord
  obtain ⟨ip, hip⟩ := h.ipv4 record hrecord
  exact newRow_address current domain type ht hip

def isOf (server : Server) (domain : Domain) (o : ObservationRow) : Bool :=
  o.serverID = server.id && o.domain = (normalizeSubject domain.name domain.type).1 &&
    o.type = (normalizeSubject domain.name domain.type).2

def isAnswered (server : Server) (domain : Domain) (answers : List GoString)
    (o : ObservationRow) : Bool := isOf server domain o && o.value ∈ answers

/-- The pool can take an answer: it has no later row of its addresses, and what it has of others
at the time of the answer or later leaves room for all of them. -/
structure Room (db : DB F) (server : Server) (domain : Domain) (answers : List GoString)
    (t : Int) : Prop where
  present : ∀ o ∈ db.trustedObservations, isAnswered server domain answers o = true →
    o.observedAt ≤ t
  subject : answers.length + (db.trustedObservations.filter fun o =>
    !isAnswered server domain answers o && (isOf server domain o && t ≤ o.observedAt)).length ≤ 256
  total : answers.length + (db.trustedObservations.filter fun o =>
    !isAnswered server domain answers o && t ≤ o.observedAt).length ≤ 16384

omit [GoFloat F] in
theorem isOf_eq {current server : Server} (h : current.id = server.id) (domain : Domain)
    (o : ObservationRow) : isOf server domain o = decide (subject (key o) =
      (current.id, (normalizeSubject domain.name domain.type).1,
        (normalizeSubject domain.name domain.type).2)) := by
  rw [Bool.eq_iff_iff]
  simp only [isOf, subject, key, Bool.and_eq_true, decide_eq_true_eq, Prod.mk.injEq, and_assoc, h]

omit [GoFloat F] in
theorem isAnswered_eq {current server : Server} (h : current.id = server.id) {domain : Domain}
    {answers : List GoString} {records : List AnswerRecord}
    (hanswers : answers.Perm (records.map (·.value))) (t : Int) (o : ObservationRow) :
    isAnswered server domain answers o = decide (key o ∈ (records.map
      (freshRow current (normalizeSubject domain.name domain.type).1
        (normalizeSubject domain.name domain.type).2 t)).map key) := by
  rw [Bool.eq_iff_iff]
  simp only [isAnswered, isOf, Bool.and_eq_true, decide_eq_true_eq, hanswers.mem_iff,
    List.mem_map, List.map_map, Function.comp, key, freshRow, Prod.mk.injEq, h]
  constructor
  · rintro ⟨⟨⟨hid, hdomain⟩, htype⟩, record, hrecord, hvalue⟩
    exact ⟨record, hrecord, hid.symm, hdomain.symm, htype.symm, hvalue⟩
  · rintro ⟨record, hrecord, hid, hdomain, htype, hvalue⟩
    exact ⟨⟨⟨hid.symm, hdomain.symm⟩, htype.symm⟩, record, hrecord, hvalue⟩

omit [GoFloat F] in
theorem mem_saveTrustedObservation_fresh {db : DB F} {server current : Server} {domain : Domain}
    {result : ProbeResult F} {records : List AnswerRecord} {t : Int}
    (hkeyed : Keyed db.trustedObservations) (ha : Accepted db server result current)
    (hsubject : normalizeSubject result.domain result.type =
      normalizeSubject domain.name domain.type) (ht : 0 < t) (haddresses : Addresses records)
    (hrecords : result.records = records.map (stampRecord t))
    (hanswers : result.answers.Perm (records.map (·.value)))
    (hroom : Room db server domain result.answers t) {record : AnswerRecord}
    (hrecord : record ∈ records) :
    freshRow current (normalizeSubject domain.name domain.type).1
      (normalizeSubject domain.name domain.type).2 t record ∈
        (saveTrustedObservation db server result).trustedObservations := by
  have hid : current.id = server.id := (findServer_some ha.found).2
  have hsome : result.records ≠ [] := by
    rw [hrecords]
    exact List.ne_nil_of_mem (List.mem_map_of_mem hrecord)
  have hrows := filterMap_newRow current (normalizeSubject domain.name domain.type).1
    (normalizeSubject domain.name domain.type).2 ht haddresses
  have hlength := hanswers.length_eq
  rw [List.length_map] at hlength
  rw [saveTrustedObservation_eq ha hsome, hsubject, hrecords]
  apply mem_saveRecords_of_room hkeyed hrows
  · rw [Keyed, List.map_map]
    have hvalue : (fun record => key (freshRow current
        (normalizeSubject domain.name domain.type).1
        (normalizeSubject domain.name domain.type).2 t record)) =
        (fun value => (current.id, (normalizeSubject domain.name domain.type).1,
          (normalizeSubject domain.name domain.type).2, value)) ∘ fun r : AnswerRecord => r.value :=
      rfl
    rw [show key ∘ freshRow current (normalizeSubject domain.name domain.type).1
      (normalizeSubject domain.name domain.type).2 t = _ from hvalue, ← List.map_map]
    apply haddresses.nodup.map
    intro v w he
    exact (Prod.mk.inj (Prod.mk.inj (Prod.mk.inj he).2).2).2
  · intro r hr
    obtain ⟨_, -, rfl⟩ := List.mem_map.mp hr
    rfl
  · intro p hp hk
    apply hroom.present p hp
    rw [isAnswered_eq hid hanswers t]
    exact decide_eq_true hk
  · have hle := hroom.subject
    simp only [isAnswered_eq hid hanswers t, isOf_eq hid] at hle
    rw [List.length_map, ← hlength]
    simp only [decide_not]
    exact hle
  · have hle := hroom.total
    simp only [isAnswered_eq hid hanswers t] at hle
    rw [List.length_map, ← hlength]
    simp only [decide_not]
    exact hle
  · exact List.mem_map_of_mem hrecord

theorem observation_addresses {server : Server} {domain : Domain} {run : DoggoRun F}
    (hs : (runDoggo server domain run).success = true) (htype : domain.type = str "A")
    (t : Int) : ∃ records : List AnswerRecord, Addresses records ∧
      (observation server domain t run).records = records.map (stampRecord t) ∧
      (observation server domain t run).answers.Perm (records.map (·.value)) := by
  obtain ⟨hcompletes, resp, hresp, hdecoded⟩ := runDoggo_success hs
  refine ⟨_, addresses_requestedRecords resp.answers htype run.decodedAt,
    observation_records hcompletes hresp hdecoded t, ?_⟩
  have hanswers := (runDoggo_completes hcompletes hresp hdecoded).2.2
  rw [show (observation server domain t run).answers = (runDoggo server domain run).answers
    from rfl, hanswers]
  exact answers_perm htype [] run.decodedAt undecoded

omit [CaseTables] in
theorem dated_freshRow (current : Server) (domain type : GoString) {t : Int} (ht : 0 < t)
    {record : AnswerRecord} {ip : IPv4} (hip : record.value = ip.string) :
    Dated (freshRow current domain type t record) :=
  dated_newRow (newRow_address current domain type ht hip) (stamped_stampRecord t record)

variable [OrderedFloat F] {hours : F}

omit [CaseTables] in
theorem inWindow_freshRow (current : Server) (domain type : GoString) {t : Int}
    {record : AnswerRecord} (hmax : hours ≤ ofInt 720)
    (hrecent : 0 < record.ttlSeconds ∨ ofInt 0 < hours ∧ 1 ≤ history hours) :
    inWindow t hours (freshRow current domain type t record) = true := by
  simp only [inWindow, Bool.and_eq_true, Bool.or_eq_true, decide_eq_true_eq]
  simp only [freshRow, expires, stampRecord]
  have hretention : 0 < retention := by decide
  refine ⟨by omega, ?_⟩
  cases hrecent with
  | inl httl =>
    left
    omega
  | inr hhistory =>
    right
    rw [referenceCutoff_eq hhistory.1 hmax]
    exact ⟨hhistory.1, by omega⟩

omit [GoFloat F] [OrderedFloat F] in
theorem belongs_freshRow {db : DB F} {server current : Server} {domain : Domain}
    (hfound : findServer db server.id = some current) (hcurrent : isCurrent current server = true)
    (t : Int) (record : AnswerRecord) :
    belongs db domain (freshRow current (normalizeSubject domain.name domain.type).1
      (normalizeSubject domain.name domain.type).2 t record) = true := by
  simp only [isCurrent, Bool.and_eq_true, decide_eq_true_eq] at hcurrent
  simp only [belongs, Bool.and_eq_true, decide_eq_true_eq, List.any_eq_true]
  refine ⟨⟨rfl, rfl⟩, ?_⟩
  exact ⟨current, List.mem_of_find?_eq_some hfound, ⟨⟨rfl, hcurrent.1.1.2⟩, hcurrent.1.1.1⟩, rfl⟩

omit [OrderedFloat F] in
theorem value_referenceEligibility (record : AnswerRecord) (t : Int) (hours : F) :
    (referenceEligibility record t hours).value = normalizeAnswer (str "A") record.value := by
  unfold referenceEligibility
  dsimp only
  split_ifs <;> rfl

omit [OrderedFloat F] in
theorem not_suspected_of_usable {answer : ProbeResult F} {refs : List Reference} {t : Int}
    (h : ∀ v ∈ answer.answers, (∃ ip : IPv4, v = ip.string) ∧
      ∃ e ∈ usableRecords refs t hours, e.value = v) :
    (compareAt answer refs t hours).pollution ≠ str "suspicious" ∧
      (compareAt answer refs t hours).pollution ≠ str "polluted" := by
  have hipv4 : ∀ v ∈ answer.answers, IsIPv4 v := by
    intro v hv
    obtain ⟨⟨ip, rfl⟩, -⟩ := h v hv
    exact isIPv4_string ip
  have hworst : worst (usableRecords refs t hours) answer.answers ≤ Level.clean := by
    apply Finset.sup_le
    intro v hv
    obtain ⟨⟨ip, rfl⟩, hseen⟩ := h v (List.mem_toFinset.mp hv)
    rw [normalizeAnswer_string, level]
    split_ifs
    · exact bot_le
    · exact le_rfl
  rw [pollution_eq hipv4]
  split_ifs
  · generalize worst (usableRecords refs t hours) answer.answers = l at hworst ⊢
    constructor
    · intro he
      rw [Level.name_injective (show l.name = Level.suspicious.name from he)] at hworst
      exact absurd hworst (by decide)
    · intro he
      rw [Level.name_injective (show l.name = Level.polluted.name from he)] at hworst
      exact absurd hworst (by decide)
  · exact ⟨by decide, by decide⟩

/-- What a current source has just answered is a usable reference at that time when the pool had
room for it, and whoever returns the same is not suspected. -/
theorem fresh_answer_usable {db : DB F} (hdb : Reachable db) {server : Server}
    (hsource : isSource db server = true) {domain : Domain} (htype : domain.type = str "A")
    (hname : (normalizeSubject domain.name domain.type).1 ≠ []) {t : Int} (ht : 0 < t)
    {run : DoggoRun F} (hs : (runDoggo server domain run).success = true)
    (hroom : Room db server domain (observation server domain t run).answers t)
    (hmin : ofInt 0 ≤ hours) (hmax : hours ≤ ofInt 720)
    (hrecent : ∀ record ∈ (observation server domain t run).records,
      0 < record.ttlSeconds ∨ ofInt 0 < hours ∧ 1 ≤ history hours) :
    (∀ v ∈ (observation server domain t run).answers,
      ∃ record, (server.id, record) ∈ cited (trustedReferences
          (saveTrustedObservation db server (observation server domain t run)) domain t hours) ∧
        record.value = v ∧ record.observedAt = t ∧
        (referenceEligibility record t hours).usable = true) ∧
    ∀ answer : ProbeResult F, answer.answers ⊆ (observation server domain t run).answers →
      (compareAt answer (trustedReferences (saveTrustedObservation db server
          (observation server domain t run)) domain t hours) t hours).pollution ≠
        str "suspicious" ∧
      (compareAt answer (trustedReferences (saveTrustedObservation db server
          (observation server domain t run)) domain t hours) t hours).pollution ≠
        str "polluted" := by
  obtain ⟨current, hfound, hcurrent⟩ := isSource_iff.mp hsource
  obtain ⟨records, haddresses, hrecords, hanswers⟩ := observation_addresses hs htype t
  have hsubject := observation_subject server domain t run
  have ha : Accepted db server (observation server domain t run) current :=
    ⟨hs, hsubject ▸ normalizeSubject_type htype, hsubject ▸ hname, hfound, hcurrent⟩
  have hid : current.id = server.id := (findServer_some hfound).2
  generalize hresult : observation server domain t run = result at *
  have hservers := saveTrustedObservation_servers db server result
  have hstored : ∀ v ∈ result.answers, ∃ ip : IPv4, v = ip.string ∧
      ∃ record, (server.id, record) ∈ cited (trustedReferences
          (saveTrustedObservation db server result) domain t hours) ∧
        record.value = v ∧ record.observedAt = t ∧
        (referenceEligibility record t hours).usable = true := by
    intro v hv
    obtain ⟨record, hrecord, rfl⟩ := List.mem_map.mp (hanswers.mem_iff.mp hv)
    obtain ⟨ip, hip⟩ := haddresses.ipv4 record hrecord
    have hrow := mem_saveTrustedObservation_fresh (keyed_reachable hdb) ha hsubject ht haddresses
      hrecords hanswers hroom hrecord
    have hlifetime : 0 < record.ttlSeconds ∨ ofInt 0 < hours ∧ 1 ≤ history hours := by
      apply (hrecent _ (hrecords ▸ List.mem_map_of_mem hrecord)).imp_left
      simp only [stampRecord]
      omega
    have hwindow := inWindow_freshRow current (normalizeSubject domain.name domain.type).1
      (normalizeSubject domain.name domain.type).2 (t := t) hmax hlifetime
    have hbelongs : belongs (saveTrustedObservation db server result) domain _ = true :=
      belongs_freshRow (by rw [findServer, hservers]; exact hfound) hcurrent t record
    refine ⟨ip, hip, recordOf (freshRow current (normalizeSubject domain.name domain.type).1
      (normalizeSubject domain.name domain.type).2 t record), ?_, rfl, rfl, ?_⟩
    · rw [(cited_trustedReferences _ domain t hours).mem_iff, ← hid]
      exact List.mem_map.mpr ⟨_, List.mem_filter.mpr ⟨hrow, by rw [hbelongs, hwindow]; rfl⟩, rfl⟩
    · rw [usable_eq (dated_freshRow current _ _ ht hip) hmin hmax, hwindow]
      simp [freshRow]
  refine ⟨fun v hv => ?_, fun answer hsame => ?_⟩
  · obtain ⟨-, -, hv⟩ := hstored v hv
    exact hv
  · apply not_suspected_of_usable
    intro v hv
    obtain ⟨ip, hip, record, hcited, hvalue, -, husable⟩ := hstored v (hsame hv)
    refine ⟨⟨ip, hip⟩, referenceEligibility record t hours, ?_, ?_⟩
    · rw [usableRecords_eq, List.mem_filter]
      refine ⟨List.mem_map_of_mem ?_, husable⟩
      rw [answered_of_positive (positive_trustedReferences _ domain t hours)]
      exact List.mem_map.mpr ⟨_, hcited, rfl⟩
    · rw [value_referenceEligibility, hvalue, hip, normalizeAnswer_string]

end

section

local instance : CaseTables := asciiTables

def addressesRun (ttl : GoString) (values : List GoString) : DoggoRun ℚ :=
  { Round.exampleRun none with
    stdout := some
      { responses := [
          { answers := values.map fun value =>
              ⟨str "example.com.", str "A", value, [], str "10ms", .string ttl⟩,
            authorities := [], additional := [],
            questions := [⟨str "example.com.", str "A"⟩] }],
        error := [], errors := [] } }

def answerAt (t : Int) (ttl : GoString) (values : List GoString) : ProbeResult ℚ :=
  observation poolSource poolDomain t (addressesRun ttl values)

def twoAddresses : List GoString := [str "1.2.3.4", str "5.6.7.8"]

/-- The pool after an answer of the time 3000, and one of the time 5000 with another address. -/
def filledDB : DB ℚ :=
  saveTrustedObservation
    (saveTrustedObservation poolDB poolSource
      (answerAt 3000 (str "60s") [str "1.2.3.4", str "9.9.9.9"]))
    poolSource (answerAt 5000 (str "60s") [str "7.7.7.7"])

theorem fresh_answer_usable_example :
    filledDB.trustedObservations.length = 3 ∧
    (answerAt 4000 (str "60s") twoAddresses).answers = twoAddresses ∧
    (compareAt (answerAt 4000 (str "60s") twoAddresses) (trustedReferences
        (saveTrustedObservation filledDB poolSource (answerAt 4000 (str "60s") twoAddresses))
        poolDomain 4000 (0 : ℚ)) 4000 (0 : ℚ)).pollution ≠ str "polluted" := by
  have hdb : Reachable filledDB := ⟨emptyLegacy, [.saveServer 900 { poolSource with id := 0 },
    .saveTrustedObservation poolSource
      (answerAt 3000 (str "60s") [str "1.2.3.4", str "9.9.9.9"]),
    .saveTrustedObservation poolSource (answerAt 5000 (str "60s") [str "7.7.7.7"])], rfl⟩
  have hsource : isSource filledDB poolSource = true := by decide +kernel
  have hname : (normalizeSubject poolDomain.name poolDomain.type).1 ≠ [] := by decide +kernel
  have hs : (runDoggo poolSource poolDomain (addressesRun (str "60s") twoAddresses)).success =
      true := by decide +kernel
  have hroom : Room filledDB poolSource poolDomain
      (answerAt 4000 (str "60s") twoAddresses).answers 4000 :=
    ⟨by decide +kernel, by decide +kernel, by decide +kernel⟩
  have hmin : (ofInt 0 : ℚ) ≤ 0 := by decide +kernel
  have hmax : (0 : ℚ) ≤ ofInt 720 := by decide +kernel
  have h := fresh_answer_usable hdb hsource rfl hname (by decide) hs hroom hmin hmax
    (by decide +kernel)
  exact ⟨by decide +kernel, by decide +kernel, (h.2 _ fun _ hv => hv).2⟩

def laterDB : DB ℚ :=
  saveTrustedObservation poolDB poolSource (answerAt 5000 (str "60s") [str "1.2.3.4"])

/-- After the clock has been set back a trusted source answers with two addresses. The pool keeps
the one it has for a later time, which no comparison uses yet, and whoever returns the same two is
convicted. Without a lifetime an address needs a history of a millisecond at least. -/
theorem set_back_clock_convicts :
    (Reachable laterDB ∧ isSource laterDB poolSource = true ∧
      (answerAt 4000 (str "60s") twoAddresses).success = true ∧
      (answerAt 4000 (str "60s") twoAddresses).rcode = str "NOERROR" ∧
      (answerAt 4000 (str "60s") twoAddresses).answers = twoAddresses ∧
      (∀ record ∈ (answerAt 4000 (str "60s") twoAddresses).records, 0 < record.ttlSeconds) ∧
      (¬ ∃ c ∈ cited (trustedReferences (saveTrustedObservation laterDB poolSource
          (answerAt 4000 (str "60s") twoAddresses)) poolDomain 4000 (1 : ℚ)),
        c.2.value = str "1.2.3.4" ∧
          (referenceEligibility c.2 4000 (1 : ℚ)).usable = true) ∧
      (compareAt (answerAt 4000 (str "60s") twoAddresses) (trustedReferences
          (saveTrustedObservation laterDB poolSource (answerAt 4000 (str "60s") twoAddresses))
          poolDomain 4000 (1 : ℚ)) 4000 (1 : ℚ)).pollution = str "polluted") ∧
    ((0 : ℚ) < 1 / 36000000 ∧ (answerAt 4000 (str "0s") twoAddresses).success = true ∧
      trustedReferences (saveTrustedObservation poolDB poolSource
        (answerAt 4000 (str "0s") twoAddresses)) poolDomain 4000 (1 / 36000000 : ℚ) = []) := by
  have hdb : Reachable laterDB := ⟨emptyLegacy, [.saveServer 900 { poolSource with id := 0 },
    .saveTrustedObservation poolSource (answerAt 5000 (str "60s") [str "1.2.3.4"])], rfl⟩
  refine ⟨⟨hdb, by decide +kernel, by decide +kernel, by decide +kernel, by decide +kernel,
    by decide +kernel, by decide +kernel, by decide +kernel⟩, ?_, ?_, ?_⟩
  · decide +kernel
  · decide +kernel
  · decide +kernel

end

end DnsMonitor.Monitor.Freshness
