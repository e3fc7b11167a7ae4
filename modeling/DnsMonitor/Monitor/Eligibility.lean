import DnsMonitor.Monitor.Levels
import DnsMonitor.Monitor.Observation
import DnsMonitor.Store.Pruning

namespace DnsMonitor.Monitor.Eligibility

open DnsMonitor.Model DnsMonitor.Lib.Runs DnsMonitor.Store.Schema DnsMonitor.Store.References
open DnsMonitor.Store.Migration DnsMonitor.Store.Trust DnsMonitor.Store.Pool
open DnsMonitor.Store.Cited DnsMonitor.Store.Pruning
open DnsMonitor.Monitor.Probe DnsMonitor.Monitor.Lookup DnsMonitor.Monitor.Comparison
open DnsMonitor.Monitor.Refresh (BatchState)
open DnsMonitor.Monitor.Levels DnsMonitor.Monitor.Interleaving DnsMonitor.Monitor.Observation
open DnsMonitor.Go.Strings DnsMonitor.Go.Unicode DnsMonitor.Go.Net DnsMonitor.Go.Float

section

variable {F : Type}

structure Stamped (record : AnswerRecord) : Prop where
  ttl_nonneg : 0 ≤ record.ttlSeconds
  ttl_le : record.ttlSeconds ≤ 86400
  expiry : record.expiresAt = record.observedAt + record.ttlSeconds * 1000

structure Dated (o : ObservationRow) : Prop where
  value : ∃ ip : IPv4, o.value = ip.string
  observed : 0 < o.observedAt
  stamped : Stamped (recordOf o)

theorem stamped_stampRecord (now : Int) (record : AnswerRecord) :
    Stamped (stampRecord now record) := by
  unfold stampRecord
  exact ⟨by simp, by simp, rfl⟩

/-- The pool keeps the dates of a lookup: no lifetime reaches beyond the retention. -/
theorem dated_newRow {current : Server} {domain type : GoString} {record : AnswerRecord}
    {r : ObservationRow} (h : newRow current domain type record = some r)
    (hs : Stamped record) : Dated r := by
  obtain ⟨-, -, -, -, ⟨ip, -, hvalue⟩, ⟨httl, -⟩, ⟨hobserved, hpos⟩, hexpires⟩ := newRow_eq_some h
  obtain ⟨hnonneg, hle, hexpiry⟩ := hs
  refine ⟨⟨ip, hvalue⟩, hpos, ?_, ?_, ?_⟩
  · rw [recordOf, httl]
    exact hnonneg
  · rw [recordOf, httl]
    exact hle
  · simp only [recordOf, hexpires, hobserved, httl, expires, hexpiry, retention]
    omega

theorem dated_contributed [CaseTables] {db : DB F} {server : Server} {result : ProbeResult F}
    (h : ∀ record ∈ result.records, Stamped record) :
    ∀ r ∈ contributed db server result, Dated r := by
  obtain ⟨hnone, -⟩ | ⟨-, current, ha⟩ := accepted_cases db server result
  · rw [hnone]
    exact fun r hr => absurd hr List.not_mem_nil
  · rw [contributed_eq ha]
    intro r hr
    obtain ⟨record, hrecord, hrow⟩ := List.mem_filterMap.mp hr
    exact dated_newRow hrow (h record hrecord)

end

section

variable {F : Type} [GoFloat F] [CaseTables] {hours : F} {o : ObservationRow} {now : Int}

theorem referenceEligibility_row (h : Dated o) (now : Int) (hours : F) :
    (referenceEligibility (recordOf o) now hours).usable = (o.observedAt ≤ now &&
      (decide (0 < o.ttlSeconds ∧ now < o.expiresAt) ||
        decide (ofInt 0 < hours) && decide (now - history hours < o.observedAt))) := by
  obtain ⟨⟨ip, hvalue⟩, hobserved, -⟩ := h
  have hnormal : normalizeAnswer (str "A") (recordOf o).value = ip.string := by
    rw [recordOf, hvalue, normalizeAnswer_string]
  unfold referenceEligibility
  simp only [hnormal]
  by_cases hnow : o.observedAt ≤ now
  · rw [if_neg (by
      simp only [ipv4_string_ne_nil, recordOf, false_or, not_or]
      omega)]
    rw [decide_eq_true hnow, Bool.true_and]
    rfl
  · rw [if_pos (.inr (.inr (by simpa [recordOf] using hnow)))]
    simp [hnow]

/-- Of the rows that are not from the future the query returns those the comparison can use. -/
theorem inWindow_eq_usable [OrderedFloat F] (h : Dated o) (h0 : ofInt 0 ≤ hours)
    (hmax : hours ≤ ofInt 720) (hnow : o.observedAt ≤ now) :
    inWindow now hours o = (referenceEligibility (recordOf o) now hours).usable := by
  obtain ⟨-, hobserved, hnonneg, hle, hexpiry⟩ := id h
  have hretention : history hours ≤ retention := history_le h0 hmax
  simp only [recordOf] at hnonneg hle hexpiry
  rw [referenceEligibility_row h, Bool.eq_iff_iff]
  simp only [inWindow, hnow, decide_true, Bool.true_and, Bool.and_eq_true, Bool.or_eq_true,
    decide_eq_true_eq]
  constructor
  · rintro ⟨-, hfresh | ⟨hpos, hcutoff⟩⟩
    · exact .inl ⟨by omega, hfresh⟩
    · rw [referenceCutoff_eq hpos hmax] at hcutoff
      exact .inr ⟨hpos, hcutoff⟩
  · rintro (⟨hpos, hfresh⟩ | ⟨hpos, hcutoff⟩)
    · refine ⟨?_, .inl hfresh⟩
      rw [retention]
      omega
    · refine ⟨by omega, .inr ⟨hpos, ?_⟩⟩
      rw [referenceCutoff_eq hpos hmax]
      exact hcutoff

theorem usable_eq [OrderedFloat F] (h : Dated o) (h0 : ofInt 0 ≤ hours)
    (hmax : hours ≤ ofInt 720) (now : Int) :
    (referenceEligibility (recordOf o) now hours).usable =
      (decide (o.observedAt ≤ now) && inWindow now hours o) := by
  by_cases hnow : o.observedAt ≤ now
  · rw [inWindow_eq_usable h h0 hmax hnow, decide_eq_true hnow, Bool.true_and]
  · rw [referenceEligibility_row h, decide_eq_false hnow, Bool.false_and, Bool.false_and]

end

section

variable {F : Type}

def resultOf : Phase F → Option (ProbeResult F)
  | .answered _ result => some result
  | .confirmed _ result => some result
  | .saving _ result => some result
  | _ => none

/-- All results at hand are dated, and all rows that have come from such results. -/
structure AllDated (s : System F) : Prop where
  rows : ∀ o ∈ s.db.trustedObservations, Dated o
  results : ∀ i l result, s.lookups i = some l → resultOf l.phase = some result →
    ∀ record ∈ result.records, Stamped record

theorem results_moveTo {s : System F} (h : AllDated s) (i : Nat) (l : InFlight F)
    {phase : Phase F} {mutex : Option Nat}
    (hphase : ∀ result, resultOf phase = some result → ∀ record ∈ result.records, Stamped record) :
    AllDated { s.moveTo i l phase with mutex } where
  rows := h.rows
  results j k result hk hresult := by
    by_cases hj : j = i
    · subst hj
      have hk : { l with phase } = k := by simpa [System.moveTo] using hk
      rw [← hk] at hresult
      exact hphase result hresult
    · exact h.results j k result (by simpa [System.moveTo, hj] using hk) hresult

theorem allDated_finish {s : System F} (h : AllDated s) (i : Nat) : AllDated (s.finish i) where
  rows := h.rows
  results _ k result hk := h.results _ k result (lookups_finish hk)

theorem allDated_changeBatch {s : System F} (h : AllDated s) (f : BatchState → BatchState) :
    AllDated (s.changeBatch f) where
  rows := by
    rw [changeBatch_db]
    exact h.rows
  results := by
    rw [changeBatch_lookups]
    exact h.results

variable [GoFloat F] [CaseTables]

omit [GoFloat F] in
theorem stamped_stampResult (domain : Domain) (now : Int) (result : ProbeResult F) :
    ∀ record ∈ (stampResult domain now result).records, Stamped record := by
  intro record hrecord
  obtain ⟨_, _, rfl⟩ := List.mem_map.mp hrecord
  exact stamped_stampRecord now _

/-- A lookup has no result before it has dated the answer, and keeps the records then. -/
theorem allDated_advance {s : System F} (h : AllDated s) {i : Nat} {l : InFlight F}
    (hl : s.lookups i = some l) (m : Move F) : AllDated (advance s i l m) := by
  have hkept : ∀ {phase : Phase F} {result : ProbeResult F}, l.phase = phase →
      resultOf phase = some result → ∀ record ∈ result.records, Stamped record := by
    rintro _ result rfl hresult
    exact h.results i l result hl hresult
  have hnone : ∀ {phase : Phase F}, resultOf phase = none → ∀ result,
      resultOf phase = some result → ∀ record ∈ result.records, Stamped record := by
    intro phase hn result hs
    rw [hn] at hs
    cases hs
  have hfinish := allDated_finish h i
  unfold advance
  split
  · split_ifs
    · exact results_moveTo h i l (hnone rfl)
    · exact h
  · split_ifs
    · exact hfinish
    · exact results_moveTo h i l (hnone rfl)
  · exact results_moveTo h i l (hnone rfl)
  · apply results_moveTo h i l
    rintro _ ⟨⟩
    exact stamped_stampResult _ _ _
  · rename_i g result hphase
    have hrecords : ∀ record ∈ result.records, Stamped record := hkept hphase rfl
    split_ifs
    · apply results_moveTo h i l
      rintro _ ⟨⟩
      exact hrecords
    · exact hfinish
  · rename_i g result hphase
    split_ifs
    · apply results_moveTo h i l
      rintro _ ⟨⟩
      exact hkept hphase rfl
    · exact hfinish
    · exact h
  · rename_i g result hphase
    have hrows : ∀ r ∈ contributed s.db l.server result, Dated r :=
      dated_contributed (hkept hphase rfl)
    split_ifs
    · apply allDated_finish
      refine ⟨?_, h.results⟩
      intro o ho
      cases mem_saveTrustedObservation ho with
      | inl hold => exact h.rows o hold
      | inr hnew => exact hrows o hnew
    · exact hfinish
  · exact hfinish
  · exact h

theorem allDated_step {s : System F} (hinv : Inv s) (h : AllDated s) (a : Action F) :
    AllDated (step s a) := by
  cases a with
  | store e =>
    simp only [step]
    split_ifs with he
    · exact h
    · have hrows := (evolves_step hinv.wellFormed (Bool.eq_false_iff.mpr he)).rows
      exact ⟨fun o ho => h.rows o (hrows o ho).1, h.results⟩
  | begin server domain =>
    refine ⟨h.rows, ?_⟩
    intro i l result hl hresult
    by_cases hi : i = s.nextLookup
    · have hl : (⟨server, domain, .started⟩ : InFlight F) = l := by simpa [step, hi] using hl
      rw [← hl] at hresult
      cases hresult
    · exact h.results i l result (by simpa [step, hi] using hl) hresult
  | restart => exact ⟨h.rows, fun _ _ _ hl => by cases hl⟩
  | move i m =>
    cases hl : s.lookups i with
    | none =>
      rw [step_idle hl]
      exact h
    | some l =>
      rw [step_move hl]
      exact allDated_advance h hl m
  | _ =>
    simp only [step]
    exact allDated_changeBatch h _

theorem allDated_after (legacy : Legacy F) (es : List (Action F)) :
    AllDated (after legacy es) := by
  have hboth : Inv (after legacy es) ∧ AllDated (after legacy es) := by
    apply run_invariant (P := fun s => Inv s ∧ AllDated s)
    · exact fun s a hs => ⟨inv_step s a hs.1, allDated_step hs.1 hs.2 a⟩
    · exact ⟨inv_initial legacy, fun o ho => (by cases ho), fun _ _ _ hl => (by cases hl)⟩
  exact hboth.2

omit [GoFloat F] [CaseTables] in
theorem answered_of_positive {refs : List Reference} (h : refs.all isPositive = true) :
    answered refs = (cited refs).map (·.2) := by
  have hall : (refs.filter fun ref => ref.success && ref.rcode = str "NOERROR") = refs :=
    List.filter_eq_self.mpr fun ref href => List.all_eq_true.mp h ref href
  rw [answered, hall, cited, List.map_flatMap]
  simp

/-- The rows for a domain, of sources that are current, that a comparison can use. -/
def eligibleRows (db : DB F) (domain : Domain) (now : Int) (hours : F) : List ObservationRow :=
  db.trustedObservations.filter fun o =>
    belongs db domain o && (referenceEligibility (recordOf o) now hours).usable

/-- Of the records that `TrustedReferences` returns, those that are not from the future are the
stored ones that are eligible, and a comparison uses these and no others. -/
theorem references_eligible [OrderedFloat F] (legacy : Legacy F) (es : List (Action F))
    (domain : Domain) (now : Int) {hours : F} (h0 : ofInt 0 ≤ hours)
    (hmax : hours ≤ ofInt 720) :
    ((cited (trustedReferences (after legacy es).db domain now hours)).filter fun c =>
        c.2.observedAt ≤ now).Perm
      ((eligibleRows (after legacy es).db domain now hours).map citationOf) ∧
    (usableRecords (trustedReferences (after legacy es).db domain now hours) now hours).Perm
      ((eligibleRows (after legacy es).db domain now hours).map fun o =>
        referenceEligibility (recordOf o) now hours) := by
  have hdated := (allDated_after legacy es).rows
  generalize (after legacy es).db = db at hdated ⊢
  have hcited := cited_trustedReferences db domain now hours
  constructor
  · refine (hcited.filter _).trans ?_
    rw [List.filter_map, List.filter_filter, eligibleRows]
    apply List.Perm.of_eq
    congr 1
    apply List.filter_congr
    intro o ho
    rw [usable_eq (hdated o ho) h0 hmax, Bool.and_left_comm]
    rfl
  · have hanswered := answered_of_positive (positive_trustedReferences db domain now hours)
    rw [usableRecords_eq, hanswered, List.map_map]
    refine ((hcited.map _).filter _).trans ?_
    rw [List.map_map, List.filter_map, List.filter_filter, eligibleRows]
    apply List.Perm.of_eq
    congr 1
    apply List.filter_congr
    intro o ho
    have husable := usable_eq (hdated o ho) h0 hmax now
    simp only [Function.comp, citationOf, husable]
    cases inWindow now hours o with
    | false => simp
    | true => simp [Bool.and_comm]

end

section

local instance : CaseTables := asciiTables

theorem references_eligible_example :
    eligibleRows (after emptyLegacy pendingRun).db exampleDomain 3000 (1 : ℚ) = [exampleRow] ∧
      (usableRecords (trustedReferences (after emptyLegacy pendingRun).db exampleDomain 3000
          (1 : ℚ)) 3000 (1 : ℚ)).Perm
        ((eligibleRows (after emptyLegacy pendingRun).db exampleDomain 3000 (1 : ℚ)).map fun o =>
          referenceEligibility (recordOf o) 3000 (1 : ℚ)) := by
  have h0 : (ofInt 0 : ℚ) ≤ 1 := by decide +kernel
  have hmax : (1 : ℚ) ≤ ofInt 720 := by decide +kernel
  exact ⟨by decide +kernel,
    (references_eligible emptyLegacy pendingRun exampleDomain 3000 h0 hmax).2⟩

end

end DnsMonitor.Monitor.Eligibility
