import DnsMonitor.Monitor.Lookup
import DnsMonitor.Monitor.Round
import DnsMonitor.Store.Additions

namespace DnsMonitor.Monitor.Negatives

open DnsMonitor.Model DnsMonitor.Lib DnsMonitor.Store.Schema DnsMonitor.Store.References
open DnsMonitor.Store.Pool DnsMonitor.Store.Selection DnsMonitor.Store.Additions
open DnsMonitor.Store.Migration DnsMonitor.Store.Run
open DnsMonitor.Monitor.Probe DnsMonitor.Monitor.Lookup
open DnsMonitor.Monitor.Stamp (commandAddress)
open DnsMonitor.Go.Strings DnsMonitor.Go.Unicode DnsMonitor.Go.Net DnsMonitor.Go.Float

section

variable {F : Type} [GoFloat F] [CaseTables]

/-- The response code that the records of a response state, if they state one. -/
def lastStatus (resp : DoggoResponse) : Option GoString :=
  (((resp.answers ++ resp.authorities ++ resp.additional).filter (·.status ≠ [])).getLast?).map
    fun record => toUpper record.status

theorem scanRecords_rcode (records : List DoggoRecord) (r : Decoded F) :
    (records.foldl scanRecord r).rcode =
      (((records.filter (·.status ≠ [])).getLast?).map fun record =>
        toUpper record.status).getD r.rcode := by
  induction records using List.reverseRecOn with
  | nil => rfl
  | append_singleton records record ih =>
    rw [List.foldl_append, List.foldl_cons, List.foldl_nil, List.filter_append]
    by_cases hs : record.status = []
    · simp [scanRecord, hs, ih]
    · simp [scanRecord, hs]

theorem decodeResponse_rcode (resp : DoggoResponse) (error : GoString) (domain : Domain)
    (now : Int) (r : Decoded F) : (decodeResponse resp error domain now r).rcode =
      if (lastStatus resp).getD r.rcode = str "UNKNOWN" ∧
          (decodeResponse resp error domain now r).answers ≠ [] then str "NOERROR"
      else (lastStatus resp).getD r.rcode := by
  have hscan := scanRecords_rcode (resp.answers ++ resp.authorities ++ resp.additional)
    { r with received := true }
  rw [← lastStatus] at hscan
  simp only [decodeResponse, hscan]

theorem decodeResponse_success {resp : DoggoResponse} {error : GoString} {domain : Domain}
    {now : Int} {r d : Decoded F} (hd : decodeResponse resp error domain now r = d) :
    d.success = true ↔ (d.rcode = str "NOERROR" ∧ d.answers ≠ [] ∨ d.rcode = str "NXDOMAIN") ∧
      error = [] := by
  subst hd
  have hand : ∀ {a b : Prop} [Decidable a] [Decidable b],
      (decide a && decide b) = true ↔ a ∧ b := by simp
  exact hand

/-- The output is one response to the question, without an error of its own. -/
structure Responds (output : Option DoggoOutput) (domain : Domain) (resp : DoggoResponse) :
    Prop where
  single : ∃ out, output = some out ∧ out.responses = [resp] ∧ out.error = []
  question : ∃ q, resp.questions = [q] ∧ isQuestion domain q = true

def undecoded : Decoded F where
  received := false
  success := false
  latencyMS := ofInt (-1)
  rcode := str "UNKNOWN"
  answers := []
  records := []
  error := []

theorem decodeDoggo_responds {output : Option DoggoOutput} {domain : Domain}
    {resp : DoggoResponse} (h : Responds output domain resp) (now : Int) :
    decodeDoggo output domain now =
      some (decodeResponse resp [] domain now (undecoded : Decoded F)) := by
  obtain ⟨⟨out, rfl, hresp, herror⟩, q, hq, hquestion⟩ := h
  simp [decodeDoggo, hresp, hq, hquestion, herror, undecoded]

theorem responds_of_success {output : Option DoggoOutput} {domain : Domain} {now : Int}
    {d : Decoded F} (h : decodeDoggo output domain now = some d) (hs : d.success = true) :
    ∃ resp, Responds output domain resp := by
  unfold decodeDoggo at h
  dsimp only at h
  split at h
  · cases h
  · rename_i out
    split at h
    · rename_i resp hresp
      split at h
      · rename_i q hq
        split_ifs at h with hquestion
        cases h
        have herror := ((decodeResponse_success rfl).mp hs).2
        exact ⟨resp, ⟨out, rfl, hresp, herror⟩, q, hq, hquestion⟩
      · cases h
    · cases h
      cases hs

theorem rcode_of_success {resp : DoggoResponse} {domain : Domain} {now : Int}
    (hs : (decodeResponse resp [] domain now (undecoded : Decoded F)).success = true) :
    (decodeResponse resp [] domain now (undecoded : Decoded F)).rcode = str "NOERROR" ↔
      lastStatus resp ≠ some (str "NXDOMAIN") := by
  have hpositive : str "NOERROR" ≠ str "NXDOMAIN" := by decide
  have hcode := ((decodeResponse_success rfl).mp hs).1
  have hrcode := decodeResponse_rcode resp [] domain now (undecoded : Decoded F)
  generalize decodeResponse resp [] domain now (undecoded : Decoded F) = d at hcode hrcode ⊢
  rw [show (undecoded : Decoded F).rcode = str "UNKNOWN" from rfl] at hrcode
  constructor
  · intro hd hlast
    rw [hlast, Option.getD_some, if_neg (by simp [str]), hd] at hrcode
    exact hpositive hrcode
  · intro hlast
    by_contra hd
    have hnegative : d.rcode = str "NXDOMAIN" := by
      cases hcode with
      | inl h => exact absurd h.1 hd
      | inr h => exact h
    rw [hnegative] at hrcode
    split_ifs at hrcode
    · exact hpositive hrcode.symm
    · cases hl : lastStatus resp with
      | none =>
        rw [hl] at hrcode
        exact absurd hrcode (by decide)
      | some status =>
        rw [hl, Option.getD_some] at hrcode
        exact hlast (hl.trans (congrArg some hrcode.symm))

theorem error_of_success {resp : DoggoResponse} {domain : Domain} {now : Int}
    (hs : (decodeResponse resp [] domain now (undecoded : Decoded F)).success = true) :
    (decodeResponse resp [] domain now (undecoded : Decoded F)).error = [] := by
  simp only [decodeResponse] at hs ⊢
  rw [if_neg (not_not.mpr rfl), if_pos ((Bool.and_eq_true _ _).mp hs).1]

/-- A response that states `NXDOMAIN` is a success whatever it contains. -/
theorem success_of_negative {resp : DoggoResponse}
    (h : lastStatus resp = some (str "NXDOMAIN")) (domain : Domain) (now : Int) :
    (decodeResponse resp [] domain now (undecoded : Decoded F)).success = true := by
  have hrcode := decodeResponse_rcode resp [] domain now (undecoded : Decoded F)
  rw [h, Option.getD_some, if_neg (fun hc => absurd hc.1 (by decide))] at hrcode
  exact (decodeResponse_success
    (show decodeResponse resp [] domain now (undecoded : Decoded F) = _ from rfl)).mpr
      ⟨.inr hrcode, rfl⟩

/-- The probe ends with an output that is decoded, and the process with success. -/
structure Completes (server : Server) (run : DoggoRun F) : Prop where
  source : hasPrefix (commandAddress server.address) (str "https://") = true →
    run.hasSource = true
  truncated : run.truncated = false
  context : run.contextErr = none
  exit : run.exitErr = []

theorem runDoggo_success {server : Server} {domain : Domain} {run : DoggoRun F}
    (h : (runDoggo server domain run).success = true) :
    Completes server run ∧ ∃ resp, Responds run.stdout domain resp ∧
      (decodeResponse resp [] domain run.decodedAt (undecoded : Decoded F)).success = true := by
  unfold runDoggo at h
  dsimp only at h
  split_ifs at h with hsource htruncated hcontext
  · cases h
  · cases h
  · cases h
  · rw [not_and] at hsource
    split at h
    · cases h
    · rename_i d hd
      simp only [Bool.and_eq_true] at h
      obtain ⟨hs, hexit⟩ := h
      obtain ⟨resp, hresp⟩ := responds_of_success hd hs
      rw [decodeDoggo_responds hresp] at hd
      cases hd
      rw [error_of_success hs] at hexit
      refine ⟨⟨?_, by simpa using htruncated, by simpa using hcontext, by simpa using hexit⟩,
        resp, hresp, hs⟩
      intro hhttps
      simpa [hhttps] using hsource

theorem runDoggo_completes {server : Server} {domain : Domain} {run : DoggoRun F}
    {resp : DoggoResponse} (hc : Completes server run) (hr : Responds run.stdout domain resp)
    (hs : (decodeResponse resp [] domain run.decodedAt (undecoded : Decoded F)).success = true) :
    (runDoggo server domain run).success = true ∧
      (runDoggo server domain run).records =
        requestedRecords F resp.answers domain run.decodedAt ∧
      (runDoggo server domain run).answers =
        (decodeResponse resp [] domain run.decodedAt (undecoded : Decoded F)).answers := by
  have hsource : ¬ (hasPrefix (commandAddress server.address) (str "https://") = true ∧
      (!run.hasSource) = true) := by
    rintro ⟨hhttps, hno⟩
    simp [hc.source hhttps] at hno
  unfold runDoggo
  dsimp only
  rw [if_neg hsource, if_neg (by simp [hc.truncated]), if_neg (by simp [hc.context]),
    decodeDoggo_responds hr]
  exact ⟨by simp [hs, hc.exit], rfl, rfl⟩

theorem runDoggo_subject (server : Server) (domain : Domain) (run : DoggoRun F) :
    (runDoggo server domain run).domain = domain.name ∧
      (runDoggo server domain run).type = domain.type := by
  unfold runDoggo
  dsimp only
  split_ifs
  · exact ⟨rfl, rfl⟩
  · exact ⟨rfl, rfl⟩
  · exact ⟨rfl, rfl⟩
  · split <;> exact ⟨rfl, rfl⟩

def observation (server : Server) (domain : Domain) (now : Int) (run : DoggoRun F) :
    ProbeResult F := trustResult (stampResult domain now (runDoggo server domain run))

/-- A lookup of a current source gets a negative answer that has an address for the domain. -/
structure Negative (db : DB F) (server : Server) (domain : Domain) (now : Int)
    (run : DoggoRun F) : Prop where
  source : isSource db server = true
  type : (normalizeSubject domain.name domain.type).2 = str "A"
  name : (normalizeSubject domain.name domain.type).1 ≠ []
  time : 0 < now
  completes : Completes server run
  response : ∃ resp, Responds run.stdout domain resp ∧
    lastStatus resp = some (str "NXDOMAIN") ∧
    ∃ record ∈ requestedRecords F resp.answers domain run.decodedAt,
      ∃ ip, parseIP (trimSpace record.value) = some (.v4 ip)

theorem observation_subject (server : Server) (domain : Domain) (now : Int) (run : DoggoRun F) :
    normalizeSubject (observation server domain now run).domain
      (observation server domain now run).type = normalizeSubject domain.name domain.type := by
  obtain ⟨hname, htype⟩ := runDoggo_subject server domain run
  exact congrArg₂ normalizeSubject hname htype

theorem observation_records {server : Server} {domain : Domain} {run : DoggoRun F}
    {resp : DoggoResponse} (hc : Completes server run) (hr : Responds run.stdout domain resp)
    (hs : (decodeResponse resp [] domain run.decodedAt (undecoded : Decoded F)).success = true)
    (now : Int) : (observation server domain now run).records =
      (requestedRecords F resp.answers domain run.decodedAt).map (stampRecord now) := by
  obtain ⟨-, hrecords, hanswers⟩ := runDoggo_completes hc hr hs
  simp only [observation, trustResult, stampResult, hrecords]
  split_ifs with hnone
  · rw [hanswers, decodeResponse]
    simp [hnone]
  · rfl

omit [GoFloat F] [CaseTables] in
theorem isSource_iff {db : DB F} {server : Server} : isSource db server = true ↔
    ∃ current, findServer db server.id = some current ∧ isCurrent current server = true := by
  unfold isSource
  split
  · rename_i current hf
    simp [hf]
  · rename_i hf
    simp [hf]

omit [CaseTables] in
theorem newRow_stampRecord {now : Int} (hnow : 0 < now) {record : AnswerRecord} {ip : IPv4}
    (hip : parseIP (trimSpace record.value) = some (.v4 ip)) (current : Server)
    (domain type : GoString) :
    ∃ r, newRow current domain type (stampRecord now record) = some r := by
  have hskip : ¬ ((stampRecord now record).observedAt ≤ 0 ∨
      (stampRecord now record).ttlSeconds < 0) := by
    simp only [stampRecord, not_or]
    omega
  unfold newRow
  rw [show (stampRecord now record).value = record.value from rfl, hip]
  exact ⟨_, if_neg hskip⟩

/-- The rows of an answer come from a positive one, unless it is a negative one with an address. -/
theorem contributed_noerror_iff (db : DB F) (server : Server) (domain : Domain) (now : Int)
    (run : DoggoRun F) :
    (∀ r ∈ contributed db server (observation server domain now run),
      ∃ d : Decoded F, decodeDoggo run.stdout domain run.decodedAt = some d ∧
        d.success = true ∧ d.rcode = str "NOERROR") ↔ ¬ Negative db server domain now run := by
  constructor
  · rintro h ⟨hsource, htype, hname, htime, hcompletes, resp, hresp, hlast, record, hrecord, ip,
      hip⟩
    have hs : (decodeResponse resp [] domain run.decodedAt (undecoded : Decoded F)).success =
        true := success_of_negative hlast domain run.decodedAt
    obtain ⟨current, hfound, hcurrent⟩ := isSource_iff.mp hsource
    have hsubject := observation_subject server domain now run
    have ha : Accepted db server (observation server domain now run) current :=
      ⟨(runDoggo_completes hcompletes hresp hs).1, by rw [hsubject, htype],
        by rw [hsubject]; exact hname, hfound, hcurrent⟩
    obtain ⟨r, hrow⟩ := newRow_stampRecord htime hip current
      (normalizeSubject domain.name domain.type).1 (normalizeSubject domain.name domain.type).2
    have hr : r ∈ contributed db server (observation server domain now run) := by
      rw [contributed_eq ha, hsubject, observation_records hcompletes hresp hs, List.mem_filterMap]
      exact ⟨_, List.mem_map_of_mem hrecord, hrow⟩
    obtain ⟨d, hd, -, hrcode⟩ := h r hr
    rw [decodeDoggo_responds hresp] at hd
    cases hd
    exact (rcode_of_success hs).mp hrcode hlast
  · intro h r hr
    obtain ⟨hnone, -⟩ | ⟨-, current, ha⟩ := accepted_cases db server
      (observation server domain now run)
    · rw [hnone] at hr
      cases hr
    · rw [contributed_eq ha] at hr
      obtain ⟨hcompletes, resp, hresp, hs⟩ := runDoggo_success ha.success
      refine ⟨_, decodeDoggo_responds hresp _, hs, (rcode_of_success hs).mpr ?_⟩
      intro hlast
      have hsubject := observation_subject server domain now run
      rw [observation_records hcompletes hresp hs] at hr
      obtain ⟨_, hstamped, hrow⟩ := List.mem_filterMap.mp hr
      obtain ⟨record, hrecord, rfl⟩ := List.mem_map.mp hstamped
      have hof := newRow_eq_some hrow
      obtain ⟨ip, hip, -⟩ := hof.value
      have hpos := hof.observedAt.2
      rw [hof.observedAt.1] at hpos
      exact h ⟨isSource_iff.mpr ⟨current, ha.found, ha.current⟩, hsubject ▸ ha.type,
        hsubject ▸ ha.domain, hpos, hcompletes, resp, hresp, hlast, record, hrecord, ip, hip⟩

/-- The store after a lookup that no cache has answered: `db` is the one at the time of saving,
which happens only in the generation of the cache in which the lookup has begun. -/
def lookedUp (db : DB F) (server : Server) (domain : Domain) (turn : Turn F)
    (sameGeneration : Bool) : DB F :=
  let result := observation server domain turn.now turn.run
  if turn.probes server && server.trusted && isSource turn.after server && sameGeneration &&
      result.success && turn.saveErr = [] then
    saveTrustedObservation db server result
  else db

structure Saves (server : Server) (turn : Turn F) (sameGeneration : Bool) : Prop where
  probes : turn.probes server = true
  trusted : server.trusted = true
  source : isSource turn.after server = true
  generation : sameGeneration = true
  saved : turn.saveErr = []

theorem observation_observedAt (server : Server) (domain : Domain) (now : Int) (run : DoggoRun F) :
    ∀ record ∈ (observation server domain now run).records, record.observedAt = now := by
  intro record hrecord
  obtain ⟨old, -, rfl⟩ := List.mem_map.mp hrecord
  rfl

theorem Negative.success {db : DB F} {server : Server} {domain : Domain} {now : Int}
    {run : DoggoRun F} (h : Negative db server domain now run) :
    (observation server domain now run).success = true := by
  obtain ⟨resp, hresp, hlast, -⟩ := h.response
  exact (runDoggo_completes h.completes hresp (success_of_negative hlast domain run.decodedAt)).1

/-- A lookup adds rows to the pool only after a positive answer, unless the answer is a negative
one with an address for which the pool has room. -/
theorem pool_noerror_iff {db : DB F} (hdb : Reachable db) (server : Server) (domain : Domain)
    (turn : Turn F) (sameGeneration : Bool) :
    (∀ r ∈ (lookedUp db server domain turn sameGeneration).trustedObservations,
      r ∉ db.trustedObservations →
        ∃ d : Decoded F, decodeDoggo turn.run.stdout domain turn.run.decodedAt = some d ∧
          d.success = true ∧ d.rcode = str "NOERROR") ↔
      ¬ (Saves server turn sameGeneration ∧ Negative db server domain turn.now turn.run ∧
        ∃ r, Enters db.trustedObservations
          (contributed db server (observation server domain turn.now turn.run)) r) := by
  have hadded := added_saveTrustedObservation_iff (capped_reachable hdb) server
    (observation_observedAt server domain turn.now turn.run)
  have hpositive := contributed_noerror_iff db server domain turn.now turn.run
  rw [lookedUp]
  split_ifs with hguard
  · simp only [Bool.and_eq_true, decide_eq_true_eq] at hguard
    obtain ⟨⟨⟨⟨⟨hprobes, htrusted⟩, hsource⟩, hgeneration⟩, -⟩, hsaved⟩ := hguard
    constructor
    · rintro h ⟨-, hnegative, henters⟩
      obtain ⟨r, hr, hno⟩ := hadded.mpr henters
      exact hpositive.mp (fun _ _ => h r hr hno) hnegative
    · intro h r hr hno
      have hnot : ¬ Negative db server domain turn.now turn.run := fun hnegative =>
        h ⟨⟨hprobes, htrusted, hsource, hgeneration, hsaved⟩, hnegative,
          hadded.mp ⟨r, hr, hno⟩⟩
      exact hpositive.mpr hnot r ((mem_saveTrustedObservation hr).resolve_left hno)
  · constructor
    · rintro - ⟨hs, hnegative, -⟩
      apply hguard
      simp [hs.probes, hs.trusted, hs.source, hs.generation, hs.saved, hnegative.success]
    · intro _ r hr hno
      exact absurd hr hno

end

section

local instance : CaseTables := asciiTables

def statedRun (status : GoString) (values : List GoString) : DoggoRun ℚ :=
  { Round.exampleRun none with
    stdout := some
      { responses := [
          { answers := values.map fun value =>
              ⟨str "example.com.", str "A", value, status, str "10ms", .string (str "60s")⟩,
            authorities := [], additional := [],
            questions := [⟨str "example.com.", str "A"⟩] }],
        error := [], errors := [] } }

def statedTurn (db : DB ℚ) (status : GoString) (values : List GoString) : Turn ℚ :=
  { slot := .granted, cancelled := false, before := db, run := statedRun status values,
    now := 2010, after := db, saveErr := [] }

def negativeRow : ObservationRow where
  serverID := 1
  address := str "udp://1.1.1.1:53"
  domain := str "example.com"
  type := str "A"
  value := str "1.2.3.4"
  ttlSeconds := 60
  observedAt := 2010
  expiresAt := 62010

/-- The address of a negative answer gets into the pool, which returns it as one of a positive
answer. -/
theorem nxdomain_enters_pool :
    (trustedReferences (lookedUp poolDB poolSource poolDomain
        (statedTurn poolDB (str "NXDOMAIN") [str "1.2.3.4"]) true) poolDomain 2010 (1 : ℚ)).map
      (fun ref => (ref.rcode, ref.answers)) = [(str "NOERROR", [str "1.2.3.4"])] ∧
    ¬ ∀ r ∈ (lookedUp poolDB poolSource poolDomain
        (statedTurn poolDB (str "NXDOMAIN") [str "1.2.3.4"]) true).trustedObservations,
      r ∉ poolDB.trustedObservations →
        ∃ d : Decoded ℚ, decodeDoggo (statedRun (str "NXDOMAIN") [str "1.2.3.4"]).stdout
            poolDomain 2010 = some d ∧
          d.success = true ∧ d.rcode = str "NOERROR" := by
  have hcode : (decodeDoggo (statedRun (str "NXDOMAIN") [str "1.2.3.4"]).stdout poolDomain 2010 :
      Option (Decoded ℚ)).map (·.rcode) = some (str "NXDOMAIN") := by decide +kernel
  refine ⟨by decide +kernel, fun h => ?_⟩
  obtain ⟨d, hd, -, hrcode⟩ := h negativeRow (by decide +kernel) (by decide +kernel)
  rw [hd, Option.map_some, hrcode] at hcode
  exact absurd hcode (by decide)

def answeredEvents : List (Event ℚ) :=
  [.saveServer 900 { poolSource with id := 0 },
    .saveTrustedObservation poolSource (poolResult 1000 60 [str "1.2.3.4"])]

def answeredDB : DB ℚ := Runs.run step (openStore emptyLegacy) answeredEvents

/-- A positive answer renews one row and adds another. -/
theorem pool_noerror_iff_example :
    ((lookedUp answeredDB poolSource poolDomain
        (statedTurn answeredDB [] [str "1.2.3.4", str "5.6.7.8"]) true).trustedObservations.filter
      fun r => r ∉ answeredDB.trustedObservations).map (·.value) =
        [str "1.2.3.4", str "5.6.7.8"] ∧
    ∀ r ∈ (lookedUp answeredDB poolSource poolDomain
        (statedTurn answeredDB [] [str "1.2.3.4", str "5.6.7.8"]) true).trustedObservations,
      r ∉ answeredDB.trustedObservations →
        ∃ d : Decoded ℚ, decodeDoggo (statedRun [] [str "1.2.3.4", str "5.6.7.8"]).stdout
            poolDomain 2010 = some d ∧
          d.success = true ∧ d.rcode = str "NOERROR" := by
  refine ⟨by decide +kernel, ?_⟩
  apply (pool_noerror_iff ⟨emptyLegacy, answeredEvents, rfl⟩ poolSource poolDomain
    (statedTurn answeredDB [] [str "1.2.3.4", str "5.6.7.8"]) true).mpr
  rintro ⟨-, hnegative, -⟩
  obtain ⟨resp, hresp, hlast, -⟩ := hnegative.response
  obtain ⟨out, hout, hsingle, -⟩ := hresp.single
  obtain rfl := Option.some.inj hout
  obtain rfl := (List.cons.inj hsingle).1
  exact absurd hlast (by decide)

end

end DnsMonitor.Monitor.Negatives
