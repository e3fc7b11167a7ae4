import DnsMonitor.Monitor.Comparison
import Mathlib.Data.Finset.Lattice.Fold

namespace DnsMonitor.Monitor.Levels

open DnsMonitor.Model DnsMonitor.Monitor.Probe DnsMonitor.Monitor.Comparison
open DnsMonitor.Go.Strings DnsMonitor.Go.Unicode DnsMonitor.Go.Net DnsMonitor.Go.Float

/-- How an address compares, the best level first. -/
inductive Level where
  | matched
  | clean
  | suspicious
  | polluted
deriving DecidableEq

def Level.severity : Level → Nat
  | .matched => 0
  | .clean => 1
  | .suspicious => 2
  | .polluted => 3

theorem Level.severity_injective : Function.Injective Level.severity := by
  intro l m h
  cases l <;> cases m <;> first | rfl | cases h

instance : LinearOrder Level := LinearOrder.lift' Level.severity Level.severity_injective

instance : OrderBot Level where
  bot := .matched
  bot_le _ := Nat.zero_le _

def Level.name : Level → GoString
  | .matched => str "matched"
  | .clean => str "clean"
  | .suspicious => str "suspicious"
  | .polluted => str "polluted"

theorem Level.le_polluted (l : Level) : l ≤ .polluted := by cases l <;> decide

theorem Level.name_injective : Function.Injective Level.name := by
  intro l m h
  cases l <;> cases m <;> first | rfl | exact absurd h (by decide)

theorem Level.name_ne_unknown (l : Level) : l.name ≠ str "unknown" := by cases l <;> decide

def answered (refs : List Reference) : List AnswerRecord :=
  (refs.filter fun ref => ref.success && ref.rcode = str "NOERROR").flatMap (·.records)

section

variable [CaseTables]

/-- An answer that is an IPv4 address, as `decodeDoggo` emits them. -/
def IsIPv4 (answer : GoString) : Prop := ∃ ip, (parseIP (trimSpace answer)).bind IP.to4 = some ip

theorem normalizeAnswer_ipv4 {answer : GoString} {ip : IPv4}
    (h : (parseIP (trimSpace answer)).bind IP.to4 = some ip) :
    normalizeAnswer (str "A") answer = ip.string := by
  simp [normalizeAnswer, h]

omit [CaseTables] in
theorem ipv4_string_ne_nil (ip : IPv4) : ip.string ≠ [] := by
  simp [IPv4.string_eq, itoa_ne_nil]

theorem isIPv4_normalized {answer : GoString} (h : IsIPv4 answer) :
    normalizeAnswer (str "A") answer ≠ [] := by
  obtain ⟨ip, hip⟩ := h
  rw [normalizeAnswer_ipv4 hip]
  exact ipv4_string_ne_nil ip

omit [CaseTables] in
theorem trimSpace_string (ip : IPv4) : trimSpace ip.string = ip.string := by
  apply trimSpace_of_not_containsSpace
  apply containsSpace_of_graph
  intro b hb
  have hdigit := ip.mem_string hb
  clear hb
  revert b
  apply forall_byte
  decide +kernel

theorem normalizeAnswer_string (ip : IPv4) : normalizeAnswer (str "A") ip.string = ip.string := by
  apply normalizeAnswer_ipv4
  rw [trimSpace_string, parseIP_string]
  rfl

omit [CaseTables] in
theorem isIPv4_string (ip : IPv4) : IsIPv4 ip.string :=
  ⟨ip, by rw [trimSpace_string, parseIP_string]; rfl⟩

theorem normalizeAnswer_cases (answer : GoString) : normalizeAnswer (str "A") answer = [] ∨
    ∃ ip : IPv4, normalizeAnswer (str "A") answer = ip.string := by
  unfold normalizeAnswer
  dsimp only
  rw [if_pos rfl]
  split
  · exact .inr ⟨_, rfl⟩
  · exact .inl rfl

/-- The level of an address against the records it may be compared with. -/
def level (usable : List Eligibility) (value : GoString) : Level :=
  if ∃ e ∈ usable, e.fresh = true ∧ e.value = value then .matched
  else if ∃ e ∈ usable, e.value = value then .clean
  else if ∃ e ∈ usable, ipv4Prefix e.value = ipv4Prefix value then .suspicious
  else .polluted

def worst (usable : List Eligibility) (answers : List GoString) : Level :=
  answers.toFinset.sup fun answer => level usable (normalizeAnswer (str "A") answer)

theorem worst_cons (usable : List Eligibility) (answer : GoString) (answers : List GoString) :
    worst usable (answer :: answers) =
      level usable (normalizeAnswer (str "A") answer) ⊔ worst usable answers := by
  rw [worst, List.toFinset_cons, Finset.sup_insert]
  rfl

omit [CaseTables] in
theorem level_anti {usable usable' : List Eligibility} (h : usable ⊆ usable') (value : GoString) :
    level usable' value ≤ level usable value := by
  have hmore : ∀ p : Eligibility → Prop, (∃ e ∈ usable, p e) → ∃ e ∈ usable', p e :=
    fun p ⟨e, he, hp⟩ => ⟨e, h he, hp⟩
  unfold level
  by_cases hfresh : ∃ e ∈ usable, e.fresh = true ∧ e.value = value
  · rw [if_pos hfresh, if_pos (hmore _ hfresh)]
  · rw [if_neg hfresh]
    by_cases hseen : ∃ e ∈ usable, e.value = value
    · rw [if_pos hseen, if_pos (hmore _ hseen)]
      split_ifs <;> decide
    · rw [if_neg hseen]
      by_cases hnear : ∃ e ∈ usable, ipv4Prefix e.value = ipv4Prefix value
      · rw [if_pos hnear, if_pos (hmore _ hnear)]
        split_ifs <;> decide
      · rw [if_neg hnear]
        exact Level.le_polluted _

theorem worst_anti {usable usable' : List Eligibility} (h : usable ⊆ usable')
    (answers : List GoString) : worst usable' answers ≤ worst usable answers :=
  Finset.sup_mono_fun fun _ _ => level_anti h _

/-- One turn of the loop: it ends at a polluted answer, else the verdict becomes the worse one. -/
theorem compareAnswers_cons {usable : List Eligibility} {answer : GoString} {l : Level}
    (hl : l ≠ .polluted) (hanswer : IsIPv4 answer) (answers : List GoString) :
    compareAnswers usable l.name (answer :: answers) =
      if level usable (normalizeAnswer (str "A") answer) = .polluted then
        some Level.polluted.name
      else
        compareAnswers usable (l ⊔ level usable (normalizeAnswer (str "A") answer)).name
          answers := by
  have hvalue := isIPv4_normalized hanswer
  simp only [compareAnswers, if_neg hvalue]
  generalize normalizeAnswer (str "A") answer = value
  have hfreshAny : (usable.any fun e => e.fresh && decide (e.value = value)) = true ↔
      ∃ e ∈ usable, e.fresh = true ∧ e.value = value := by simp
  have hseenAny : (usable.any fun e => decide (e.value = value)) = true ↔
      ∃ e ∈ usable, e.value = value := by simp
  have hnearAny : (!usable.any fun e => decide (ipv4Prefix e.value = ipv4Prefix value)) = true ↔
      ¬ ∃ e ∈ usable, ipv4Prefix e.value = ipv4Prefix value := by simp
  simp only [hfreshAny, hseenAny, hnearAny]
  unfold level
  by_cases hfresh : ∃ e ∈ usable, e.fresh = true ∧ e.value = value
  · simp only [if_pos hfresh, reduceCtorEq, if_false]
    rw [show l ⊔ Level.matched = l from sup_bot_eq l]
  · simp only [if_neg hfresh]
    by_cases hseen : ∃ e ∈ usable, e.value = value
    · simp only [if_pos hseen, reduceCtorEq, if_false]
      -- only a verdict that was matched so far changes
      cases l with
      | matched => rfl
      | clean => rfl
      | suspicious => rfl
      | polluted => exact absurd rfl hl
    · simp only [if_neg hseen]
      by_cases hnear : ∃ e ∈ usable, ipv4Prefix e.value = ipv4Prefix value
      · simp only [if_pos hnear, if_neg (not_not.mpr hnear), reduceCtorEq, if_false]
        have hle : l ≤ .suspicious := by
          cases l with
          | polluted => exact absurd rfl hl
          | _ => decide
        rw [sup_eq_right.mpr hle]
        rfl
      · simp only [if_neg hnear, if_pos hnear, if_true]
        rfl

/-- The loop over the answers carries the worst level so far. -/
theorem compareAnswers_worst {usable : List Eligibility} {answers : List GoString} {l : Level}
    (hl : l ≠ .polluted) (h : ∀ answer ∈ answers, IsIPv4 answer) :
    compareAnswers usable l.name answers = some (l ⊔ worst usable answers).name := by
  induction answers generalizing l with
  | nil => rw [compareAnswers, worst, List.toFinset_nil, Finset.sup_empty, sup_bot_eq]
  | cons answer answers ih =>
    obtain ⟨hanswer, hrest⟩ := List.forall_mem_cons.mp h
    rw [worst_cons, ← sup_assoc, compareAnswers_cons hl hanswer]
    by_cases hpolluted : level usable (normalizeAnswer (str "A") answer) = .polluted
    · rw [if_pos hpolluted, hpolluted, sup_eq_right.mpr l.le_polluted,
        sup_eq_left.mpr (Level.le_polluted _)]
    · rw [if_neg hpolluted]
      apply ih _ hrest
      intro hsup
      cases max_choice l (level usable (normalizeAnswer (str "A") answer)) with
      | inl hmax => exact hl (hmax ▸ hsup)
      | inr hmax => exact hpolluted (hmax ▸ hsup)

end

section

variable {F : Type} [GoFloat F] [CaseTables]

theorem usableRecords_eq (refs : List Reference) (now : Int) (historyHours : F) :
    usableRecords refs now historyHours =
      ((answered refs).map fun record => referenceEligibility record now historyHours).filter
        (·.usable) := by
  rw [usableRecords, answered, List.map_flatMap]

theorem usableRecords_subset {refs refs' : List Reference} (h : answered refs ⊆ answered refs')
    (now : Int) (historyHours : F) :
    usableRecords refs now historyHours ⊆ usableRecords refs' now historyHours := by
  intro e he
  rw [usableRecords_eq, List.mem_filter, List.mem_map] at he ⊢
  obtain ⟨⟨record, hrecord, rfl⟩, hu⟩ := he
  exact ⟨⟨record, h hrecord, rfl⟩, hu⟩

theorem usableRecords_eq_nil {refs : List Reference} {now : Int} {historyHours : F} :
    usableRecords refs now historyHours = [] ↔
      ∀ record ∈ answered refs, (referenceEligibility record now historyHours).usable = false := by
  rw [usableRecords_eq, List.filter_eq_nil_iff]
  simp

theorem judge_worst {result : ProbeResult F} {refs : List Reference} {now : Int}
    {historyHours : F} (h : ∀ answer ∈ result.answers, IsIPv4 answer)
    (hc : isComparable result = true) (hu : usableRecords refs now historyHours ≠ []) :
    (judge result refs now historyHours).1 =
      (worst (usableRecords refs now historyHours) result.answers).name := by
  have hloop : compareAnswers (usableRecords refs now historyHours) Level.matched.name
      result.answers = _ := compareAnswers_worst (by decide) h
  rw [show Level.matched ⊔ worst (usableRecords refs now historyHours) result.answers =
    worst (usableRecords refs now historyHours) result.answers from bot_sup_eq _] at hloop
  simp only [judge, hc, Bool.not_true, Bool.false_eq_true, if_false, if_neg hu]
  rw [show str "matched" = Level.matched.name from rfl, hloop]

theorem judge_unknown {result : ProbeResult F} {refs : List Reference} {now : Int}
    {historyHours : F}
    (h : isComparable result = false ∨ usableRecords refs now historyHours = []) :
    (judge result refs now historyHours).1 = str "unknown" := by
  unfold judge
  cases hc : isComparable result with
  | false => rfl
  | true =>
    simp [h.resolve_left (by simp [hc])]

theorem pollution_eq {result : ProbeResult F} (h : ∀ answer ∈ result.answers, IsIPv4 answer)
    (refs : List Reference) (now : Int) (historyHours : F) :
    (compareAt result refs now historyHours).pollution =
      if isComparable result = true ∧ usableRecords refs now historyHours ≠ [] then
        (worst (usableRecords refs now historyHours) result.answers).name
      else str "unknown" := by
  split_ifs with hc
  · exact judge_worst h hc.1 hc.2
  · apply judge_unknown
    rw [not_and_or, Bool.not_eq_true, not_not] at hc
    exact hc

omit [GoFloat F] [CaseTables] in
theorem isComparable_eq_true {result : ProbeResult F} : isComparable result = true ↔
    result.success = true ∧ result.type = str "A" ∧ result.rcode = str "NOERROR" ∧
      result.answers ≠ [] := by
  simp [isComparable, and_assoc]

/-- The verdict of a comparison is the worst level of an answer. It depends neither on the order
or the repetition of the answers nor on how the records are spread over the references, and
further records make it no worse. -/
theorem compareAt_worst {result : ProbeResult F} (h : ∀ answer ∈ result.answers, IsIPv4 answer)
    (refs : List Reference) (now : Int) (historyHours : F) :
    ((compareAt result refs now historyHours).pollution = str "unknown" ↔
      ¬ (result.success = true ∧ result.type = str "A" ∧ result.rcode = str "NOERROR" ∧
          result.answers ≠ []) ∨
        ∀ record ∈ answered refs,
          (referenceEligibility record now historyHours).usable = false) ∧
    ((compareAt result refs now historyHours).pollution ≠ str "unknown" →
      (compareAt result refs now historyHours).pollution =
        (worst (usableRecords refs now historyHours) result.answers).name) ∧
    (∀ answers, (∀ answer, answer ∈ answers ↔ answer ∈ result.answers) →
      (compareAt { result with answers } refs now historyHours).pollution =
        (compareAt result refs now historyHours).pollution) ∧
    (∀ refs', (∀ record, record ∈ answered refs' ↔ record ∈ answered refs) →
      (compareAt result refs' now historyHours).pollution =
        (compareAt result refs now historyHours).pollution) ∧
    ∀ refs', answered refs ⊆ answered refs' →
      (compareAt result refs now historyHours).pollution ≠ str "unknown" →
        ∃ l l' : Level, l' ≤ l ∧ (compareAt result refs now historyHours).pollution = l.name ∧
          (compareAt result refs' now historyHours).pollution = l'.name := by
  have hunknown : (compareAt result refs now historyHours).pollution = str "unknown" ↔
      ¬ (isComparable result = true ∧ usableRecords refs now historyHours ≠ []) := by
    rw [pollution_eq h]
    split_ifs with hc
    · simp [Level.name_ne_unknown, hc]
    · simp [hc]
  refine ⟨?_, ?_, ?_, ?_, ?_⟩
  · rw [hunknown, not_and_or, isComparable_eq_true, not_not, usableRecords_eq_nil]
  · intro hknown
    rw [pollution_eq h, if_pos (not_not.mp fun hc => hknown (hunknown.mpr hc))]
  · intro answers hsame
    have hnil : answers = [] ↔ result.answers = [] := by
      simp only [List.eq_nil_iff_forall_not_mem, hsame]
    have hcomparable : isComparable { result with answers } = isComparable result := by
      simp [isComparable, hnil]
    have hworst : worst (usableRecords refs now historyHours) answers =
        worst (usableRecords refs now historyHours) result.answers := by
      unfold worst
      congr 1
      ext answer
      rw [List.mem_toFinset, List.mem_toFinset, hsame]
    have hanswers : ∀ answer ∈ ({ result with answers } : ProbeResult F).answers, IsIPv4 answer :=
      fun answer ha => h answer ((hsame answer).mp ha)
    rw [pollution_eq h, pollution_eq hanswers, hcomparable, hworst]
  · intro refs' hsame
    have hmore := usableRecords_subset (fun r hr => (hsame r).mp hr) now historyHours
    have hless := usableRecords_subset (fun r hr => (hsame r).mpr hr) now historyHours
    have hnil : usableRecords refs' now historyHours = [] ↔
        usableRecords refs now historyHours = [] :=
      ⟨fun hn => List.subset_nil.mp (hn ▸ hless), fun hn => List.subset_nil.mp (hn ▸ hmore)⟩
    rw [pollution_eq h, pollution_eq h,
      le_antisymm (worst_anti hless result.answers) (worst_anti hmore result.answers)]
    simp only [ne_eq, hnil]
  · intro refs' hsub hknown
    obtain ⟨hc, hu⟩ := not_not.mp fun hc => hknown (hunknown.mpr hc)
    have hmore := usableRecords_subset hsub now historyHours
    have hu' : usableRecords refs' now historyHours ≠ [] :=
      fun hn => hu (List.subset_nil.mp (hn ▸ hmore))
    refine ⟨_, _, worst_anti hmore result.answers, ?_, ?_⟩
    · rw [pollution_eq h, if_pos ⟨hc, hu⟩]
    · rw [pollution_eq h, if_pos ⟨hc, hu'⟩]

end

section

local instance : CaseTables := asciiTables

def comparedResult : ProbeResult ℚ where
  comparedAt := 0
  records := []
  policyVersion := 2
  trusted := false
  serverID := 2
  timestamp := 2000
  domain := str "www.youtube.com"
  type := str "A"
  received := true
  success := true
  latencyMS := 10
  rcode := str "NOERROR"
  answers := [str "1.2.3.4", str "1.2.9.9"]
  pollution := []
  reason := []
  references := []

def comparedWith : List Reference :=
  [{ records := [⟨str "1.2.3.4", 60, 1500, 61500⟩]
     serverID := 1
     address := str "udp://1.1.1.1:53"
     timestamp := 1500
     rcode := str "NOERROR"
     answers := [str "1.2.3.4"]
     success := true }]

theorem compareAt_worst_example :
    (compareAt comparedResult comparedWith 2000 (1 : ℚ)).pollution =
      (worst (usableRecords comparedWith 2000 (1 : ℚ)) [str "1.2.3.4", str "1.2.9.9"]).name := by
  have hanswers : ∀ answer ∈ comparedResult.answers, IsIPv4 answer := by
    intro answer ha
    cases List.mem_cons.mp ha with
    | inl h => exact ⟨⟨1, 2, 3, 4⟩, by rw [h]; decide +kernel⟩
    | inr h => exact ⟨⟨1, 2, 9, 9⟩, by rw [List.mem_singleton.mp h]; decide +kernel⟩
  exact (compareAt_worst hanswers comparedWith 2000 1).2.1 (by decide +kernel)

end

end DnsMonitor.Monitor.Levels
