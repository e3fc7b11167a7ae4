import DnsMonitor.Go.Strings
import DnsMonitor.Lib.Comparators
import Mathlib.Algebra.Order.Ring.Cast

namespace DnsMonitor.Web.VisibleServers

open DnsMonitor.Lib.Comparators DnsMonitor.Go.Strings

structure Metrics where
  samples : Option ℚ
  coverage : Option ℚ
  successRate : Option ℚ
  averageMS : Option ℚ
  p95MS : Option ℚ
  availability : Option ℚ
deriving DecidableEq

structure Evaluation where
  grade : Option GoString
  pollution : Option GoString
deriving DecidableEq

structure Server where
  id : Int
  name : Option GoString
  provider : Option GoString
  address : Option GoString
  protocol : Option GoString
  trusted : Bool
  current : Option Evaluation
  metrics : Option Metrics
deriving DecidableEq

inductive SortKey where
  | grade
  | averageMS
  | availability
  | successRate
deriving DecidableEq

def orZero (x : Option ℚ) : ℚ := x.getD 0

def isPositive (x : Option ℚ) : Bool := x.any (0 < ·)

def hasSamples (metrics : Metrics) : Bool := 0 < orZero metrics.samples

def hasCoverage (metrics : Metrics) : Bool := 0 < orZero metrics.coverage

def hasLatency (metrics : Metrics) : Bool :=
  hasSamples metrics &&
    (isPositive metrics.successRate || isPositive metrics.averageMS || isPositive metrics.p95MS)

def Server.evaluation (server : Server) : Evaluation := server.current.getD ⟨none, none⟩

/-- `server.metrics || {}`. -/
def Server.measured (server : Server) : Metrics :=
  server.metrics.getD ⟨none, none, none, none, none, none⟩

def displayedGrade (evaluation : Evaluation) (trusted : Bool) : Option GoString :=
  if trusted ∧ evaluation.grade ∈ [some (str "E"), some (str "F")] then some (str "pending")
  else evaluation.grade

def Server.grade (server : Server) : Option GoString :=
  displayedGrade server.evaluation server.trusted

def Server.isUnavailable (server : Server) : Bool :=
  server.evaluation.grade = some (str "unavailable")

def grades : List GoString := [str "A", str "B", str "C", str "D", str "E", str "F"]

def rank (grade : Option GoString) : ℚ :=
  match grade.bind grades.idxOf? with
  | some i => i
  | none => -1

def metric (sort : SortKey) (metrics : Metrics) : Option ℚ :=
  match sort with
  | .grade => none
  | .averageMS => metrics.averageMS
  | .availability => metrics.availability
  | .successRate => metrics.successRate

def comparable (sort : SortKey) : Metrics → Bool :=
  if sort = .averageMS then hasLatency else if sort = .availability then hasCoverage else hasSamples

def compareServers (sort : SortKey) (descending : Bool) (left right : Server) : ℚ :=
  let leftUnavailable := left.isUnavailable
  let rightUnavailable := right.isUnavailable
  if leftUnavailable ≠ rightUnavailable then if leftUnavailable then 1 else -1
  else
    let lm := left.measured
    let rm := right.measured
    if sort = .grade then
      let leftRank := rank left.grade
      let rightRank := rank right.grade
      if leftRank < 0 ∨ rightRank < 0 then
        if leftRank < 0 ∧ rightRank < 0 then left.id - right.id
        else if leftRank < 0 then 1
        else -1
      else
        orElse (if descending then rightRank - leftRank else leftRank - rightRank)
          (left.id - right.id)
    else
      let comparable := comparable sort
      if !comparable lm ∨ !comparable rm then
        if comparable lm then -1 else if comparable rm then 1 else left.id - right.id
      else
        let difference := orZero (metric sort lm) - orZero (metric sort rm)
        orElse (if descending then -difference else difference) (left.id - right.id)

def pollutionKind (value : Option GoString) : GoString :=
  match value with
  | some v =>
    if v ∈ [str "matched", str "clean", str "suspicious", str "polluted"] then v else str "unknown"
  | none => str "unknown"

def serverPollution (server : Server) : Option GoString :=
  if server.trusted then some (str "clean") else server.evaluation.pollution

def gradeValue (server : Server) : GoString :=
  match server.grade with
  | some value => if value ∈ grades ++ [str "unavailable"] then value else str "pending"
  | none => str "pending"

/-- The text of the search is trimmed and in lower case. -/
structure Filters where
  search : GoString
  protocol : List GoString
  pollution : List GoString
  grade : List GoString

structure State where
  data : Option (List Server)
  filters : Filters
  sort : SortKey
  descending : Bool

def matchesFilters (toLowerCase : GoString → GoString) (filters : Filters) (server : Server) :
    Bool :=
  (filters.search = [] || [server.name, server.provider, server.address].any fun value =>
      contains (toLowerCase (value.getD [])) filters.search) &&
    (filters.protocol = [] || server.protocol.any (· ∈ filters.protocol)) &&
    (filters.pollution = [] || pollutionKind (serverPollution server) ∈ filters.pollution) &&
    (filters.grade = [] || gradeValue server ∈ filters.grade)

def visibleServers (toLowerCase : GoString → GoString) (state : State) : List Server :=
  match state.data with
  | none => []
  | some servers =>
    sortWith (compareServers state.sort state.descending)
      (servers.filter (matchesFilters toLowerCase state.filters))

def Server.isRated (server : Server) (sort : SortKey) : Bool :=
  if sort = .grade then 0 ≤ rank server.grade else comparable sort server.measured

def Server.value (server : Server) (sort : SortKey) : ℚ :=
  if sort = .grade then rank server.grade else orZero (metric sort server.measured)

/-- The value as it counts in a direction. Without evidence it does not. -/
def Server.weight (server : Server) (sort : SortKey) (descending : Bool) : ℚ :=
  if server.isRated sort then if descending then -server.value sort else server.value sort else 0

def compareIDs (left right : Server) : ℚ := left.id - right.id

/-- First the available servers, then those with evidence, by its value, then by the id. -/
def orderKey (sort : SortKey) (descending : Bool) (server : Server) : Bool ×ₗ Bool ×ₗ ℚ ×ₗ Int :=
  toLex (server.isUnavailable, toLex (!server.isRated sort,
    toLex (server.weight sort descending, server.id)))

section

variable {sort : SortKey} {descending : Bool}

theorem isRated_grade (server : Server) :
    server.isRated .grade = !decide (rank server.grade < 0) := by
  rw [Server.isRated, if_pos rfl, ← decide_not]
  simp only [not_lt]

theorem isRated_metric (h : sort ≠ .grade) (server : Server) :
    server.isRated sort = comparable sort server.measured := by
  rw [Server.isRated, if_neg h]

def compareRated (sort : SortKey) (descending : Bool) : Server → Server → ℚ :=
  flagLast (!·.isRated sort) (valueFirst (·.weight sort descending) compareIDs)

theorem compareRated_grade (left right : Server) : compareRated .grade descending left right =
    if rank left.grade < 0 ∨ rank right.grade < 0 then
      if rank left.grade < 0 ∧ rank right.grade < 0 then compareIDs left right
      else if rank left.grade < 0 then 1
      else -1
    else
      orElse (if descending then rank right.grade - rank left.grade
        else rank left.grade - rank right.grade) (compareIDs left right) := by
  simp only [compareRated, flagLast, valueFirst, Server.weight, Server.value, if_pos,
    isRated_grade]
  by_cases hl : rank left.grade < 0
  · by_cases hr : rank right.grade < 0
    · simp [hl, hr, orElse]
    · simp [hl, hr]
  · by_cases hr : rank right.grade < 0
    · simp [hl, hr]
    · cases descending
      · simp [hl, hr]
      · simp [hl, hr, neg_add_eq_sub]

theorem compareRated_metric (h : sort ≠ .grade) (left right : Server) :
    compareRated sort descending left right =
      if !comparable sort left.measured ∨ !comparable sort right.measured then
        if comparable sort left.measured then -1
        else if comparable sort right.measured then 1
        else compareIDs left right
      else
        orElse (if descending then
            -(orZero (metric sort left.measured) - orZero (metric sort right.measured))
          else orZero (metric sort left.measured) - orZero (metric sort right.measured))
          (compareIDs left right) := by
  simp only [compareRated, flagLast, valueFirst, Server.weight, Server.value, if_neg h,
    isRated_metric h]
  cases hl : comparable sort left.measured
  · cases hr : comparable sort right.measured
    · simp [orElse]
    · simp
  · cases hr : comparable sort right.measured
    · simp
    · cases descending
      · simp
      · simp [neg_add_eq_sub]

/-- Both kinds of comparison have the same layers. -/
theorem compareServers_eq : compareServers sort descending =
    flagLast (·.isUnavailable) (compareRated sort descending) := by
  funext left right
  rw [flagLast, compareServers]
  by_cases hs : sort = .grade
  · subst hs
    simp only [if_pos, compareRated_grade, compareIDs]
  · simp only [if_neg hs, compareRated_metric hs, compareIDs]

theorem compareIDs_compares : Compares Server.id compareIDs where
  neg_iff left right := by rw [compareIDs, sub_neg, Int.cast_lt]
  swap left right := by rw [compareIDs, compareIDs, neg_sub]

theorem compareServers_compares :
    Compares (orderKey sort descending) (compareServers sort descending) := by
  rw [compareServers_eq]
  exact ((compareIDs_compares.valueFirst _).flagLast _).flagLast _

theorem nodup_orderKey {servers : List Server} (h : (servers.map (·.id)).Nodup) :
    (servers.map (orderKey sort descending)).Nodup := by
  have hid : (·.id) = (fun k : Bool ×ₗ Bool ×ₗ ℚ ×ₗ Int => (ofLex (ofLex (ofLex k).2).2).2) ∘
      orderKey sort descending := rfl
  rw [hid, ← List.map_map] at h
  exact h.of_map _

theorem compareServers_isStrictTotal :
    IsStrictTotal Server.id (compareServers sort descending) := by
  apply compareServers_compares.isStrictTotal
  intro left right hne he
  exact hne (congrArg (fun k => (ofLex (ofLex (ofLex k).2).2).2) he)

/-- The order of the view depends only on which servers there are. -/
theorem visibleServers_perm {toLowerCase : GoString → GoString} {state : State}
    {servers servers' : List Server} (h : (servers.map (·.id)).Nodup)
    (hp : servers.Perm servers') :
    visibleServers toLowerCase { state with data := some servers } =
        visibleServers toLowerCase { state with data := some servers' } ∧
      (visibleServers toLowerCase { state with data := some servers }).Pairwise
        (compareServers state.sort state.descending · · < 0) := by
  have hfilter : ((servers.filter (matchesFilters toLowerCase state.filters)).map
      (orderKey state.sort state.descending)).Nodup :=
    nodup_orderKey (h.sublist (List.filter_sublist.map _))
  exact ⟨compareServers_compares.sortWith_perm hfilter (hp.filter _),
    compareServers_compares.sortWith_strict hfilter⟩

variable {left right : Server}

theorem available_first (hl : left.isUnavailable = false) (hr : right.isUnavailable = true) :
    compareServers sort descending left right < 0 := by
  rw [compareServers_eq, flagLast, hl, hr]
  simp

theorem compare_available (h : left.isUnavailable = right.isUnavailable) :
    compareServers sort descending left right = compareRated sort descending left right := by
  rw [compareServers_eq, flagLast, if_neg (not_not.mpr h)]

theorem rated_first (h : left.isUnavailable = right.isUnavailable) (hl : left.isRated sort = true)
    (hr : right.isRated sort = false) : compareServers sort descending left right < 0 := by
  rw [compare_available h, compareRated, flagLast, hl, hr]
  simp

/-- Does the order of a pair depend on the direction? -/
def flips (sort : SortKey) (left right : Server) : Prop :=
  ¬ (compareServers sort false left right < 0 ↔ compareServers sort true left right < 0)

theorem orElse_neg_iff {x y : ℚ} : orElse x y < 0 ↔ x < 0 ∨ x = 0 ∧ y < 0 := by
  rw [orElse]
  split_ifs with h
  · simp [h]
  · simp [h]

theorem compareRated_rated (hl : left.isRated sort = true) (hr : right.isRated sort = true) :
    compareRated sort descending left right =
      orElse (if descending then right.value sort - left.value sort
        else left.value sort - right.value sort) (compareIDs left right) := by
  cases descending
  · simp [compareRated, flagLast, valueFirst, Server.weight, hl, hr]
  · simp [compareRated, flagLast, valueFirst, Server.weight, hl, hr, neg_add_eq_sub]

theorem compareRated_unrated (h : ¬ (left.isRated sort = true ∧ right.isRated sort = true)) :
    compareRated sort true left right = compareRated sort false left right := by
  by_cases hl : left.isRated sort = true
  · have hr : right.isRated sort = false := by simpa [hl] using h
    simp [compareRated, flagLast, hl, hr]
  · by_cases hr : right.isRated sort = true
    · simp [compareRated, flagLast, hl, hr]
    · simp [compareRated, flagLast, valueFirst, Server.weight, hl, hr]

theorem flips_iff : flips sort left right ↔ left.isUnavailable = right.isUnavailable ∧
    left.isRated sort = true ∧ right.isRated sort = true ∧ left.value sort ≠ right.value sort := by
  by_cases hu : left.isUnavailable = right.isUnavailable
  · rw [flips, compare_available hu, compare_available hu, and_iff_right hu, ← and_assoc]
    by_cases hrated : left.isRated sort = true ∧ right.isRated sort = true
    · rw [compareRated_rated hrated.1 hrated.2, compareRated_rated hrated.1 hrated.2,
        and_iff_right hrated, orElse_neg_iff, orElse_neg_iff]
      simp only [Bool.false_eq_true, if_false, if_true, sub_neg, sub_eq_zero]
      obtain hlt | heq | hgt := lt_trichotomy (left.value sort) (right.value sort)
      · simp [hlt, hlt.ne, hlt.ne', hlt.not_gt]
      · simp [heq]
      · simp [hgt, hgt.ne, hgt.ne', hgt.not_gt]
    · rw [compareRated_unrated hrated]
      simp [hrated]
  · simp [flips, compareServers_eq, flagLast, hu]

def Server.hasLetter (server : Server) : Prop := ∃ g ∈ grades, server.grade = some g

theorem rank_facts : ∀ g ∈ grades, 0 ≤ rank (some g) ∧ g ≠ str "unavailable" ∧
    g ≠ str "pending" ∧ ∀ g' ∈ grades, rank (some g) = rank (some g') → g = g' := by
  decide +kernel

theorem isRated_iff_hasLetter (server : Server) :
    server.isRated .grade = true ↔ server.hasLetter := by
  rw [Server.isRated, if_pos rfl, decide_eq_true_eq]
  constructor
  · intro h
    cases hg : server.grade with
    | none =>
      rw [hg] at h
      exact absurd h (by decide +kernel)
    | some g =>
      by_cases hm : g ∈ grades
      · exact ⟨g, hm, hg⟩
      · have hnone : grades.idxOf? g = none := List.idxOf?_eq_none_iff.mpr hm
        rw [hg, rank, Option.bind_some, hnone] at h
        exact absurd h (by decide)
  · rintro ⟨g, hg, he⟩
    rw [he]
    exact (rank_facts g hg).1

theorem available_of_hasLetter {server : Server} (h : server.hasLetter) :
    server.isUnavailable = false := by
  obtain ⟨g, hg, he⟩ := h
  obtain ⟨-, hne, hpending, -⟩ := rank_facts g hg
  rw [Server.grade, displayedGrade] at he
  split_ifs at he with hc
  · exact absurd (Option.some.inj he).symm hpending
  · simp [Server.isUnavailable, he, hne]

theorem value_eq_iff (hl : left.hasLetter) (hr : right.hasLetter) :
    left.value .grade = right.value .grade ↔ left.grade = right.grade := by
  obtain ⟨g, hg, hleft⟩ := hl
  obtain ⟨g', hg', hright⟩ := hr
  rw [Server.value, if_pos rfl, Server.value, if_pos rfl, hleft, hright, Option.some.injEq]
  constructor
  · exact (rank_facts g hg).2.2.2 g' hg'
  · rintro rfl
    rfl

/-- The comparison of the view is a strict total order, so the view does not depend on the order
of the servers. Unavailable servers are last, then those without evidence, and the direction turns
round just the pairs that differ in their evidence. -/
theorem visibleServers_ordered :
    (∀ sort descending, IsStrictTotal Server.id (compareServers sort descending)) ∧
      (∀ (toLowerCase : GoString → GoString) (state : State) (servers servers' : List Server),
        (servers.map (·.id)).Nodup → servers.Perm servers' →
        visibleServers toLowerCase { state with data := some servers } =
            visibleServers toLowerCase { state with data := some servers' } ∧
          (visibleServers toLowerCase { state with data := some servers }).Pairwise
            (compareServers state.sort state.descending · · < 0)) ∧
      (∀ sort descending (left right : Server), left.isUnavailable = false →
        right.isUnavailable = true → compareServers sort descending left right < 0) ∧
      (∀ descending (left right : Server), left.hasLetter → ¬ right.hasLetter →
        compareServers .grade descending left right < 0) ∧
      (∀ sort descending (left right : Server), sort ≠ .grade →
        left.isUnavailable = right.isUnavailable → comparable sort left.measured = true →
        comparable sort right.measured = false →
        compareServers sort descending left right < 0) ∧
      (∀ left right : Server, flips .grade left right ↔
        left.isUnavailable = right.isUnavailable ∧ left.hasLetter ∧ right.hasLetter ∧
          left.grade ≠ right.grade) ∧
      ∀ sort (left right : Server), sort ≠ .grade → (flips sort left right ↔
        left.isUnavailable = right.isUnavailable ∧ comparable sort left.measured = true ∧
          comparable sort right.measured = true ∧
          orZero (metric sort left.measured) ≠ orZero (metric sort right.measured)) := by
  refine ⟨fun _ _ => compareServers_isStrictTotal, fun _ _ _ _ h hp => visibleServers_perm h hp,
    fun _ _ _ _ => available_first, ?_, ?_, ?_, ?_⟩
  · intro descending left right hl hr
    cases hu : right.isUnavailable with
    | true => exact available_first (available_of_hasLetter hl) hu
    | false =>
      apply rated_first ((available_of_hasLetter hl).trans hu.symm)
      · exact (isRated_iff_hasLetter left).mpr hl
      · exact Bool.eq_false_iff.mpr (mt (isRated_iff_hasLetter right).mp hr)
  · intro sort descending left right hs hu hl hr
    rw [← isRated_metric hs] at hl hr
    exact rated_first hu hl hr
  · intro left right
    rw [flips_iff, isRated_iff_hasLetter, isRated_iff_hasLetter]
    refine and_congr_right fun _ => and_congr_right fun hl => and_congr_right fun hr => ?_
    exact not_congr (value_eq_iff hl hr)
  · intro sort left right hs
    rw [flips_iff, isRated_metric hs, isRated_metric hs, Server.value, if_neg hs, Server.value,
      if_neg hs]

end

def exampleServer (id : Int) (trusted : Bool) (grade : GoString) (averageMS : ℚ) : Server :=
  { id, name := some (str "dns"), provider := none, address := some (str "1.1.1.1"),
    protocol := some (str "udp"), trusted, current := some ⟨some grade, none⟩,
    metrics := some ⟨some 10, some 100, some 100, some averageMS, none, some 100⟩ }

def exampleServers : List Server :=
  [exampleServer 3 false (str "B") 20, exampleServer 1 false (str "B") 30,
    exampleServer 2 true (str "F") 10, exampleServer 4 true (str "unavailable") 5]

def exampleState (servers : List Server) (sort : SortKey) : State :=
  ⟨some servers, ⟨[], [], [], []⟩, sort, false⟩

theorem visibleServers_ordered_example :
    visibleServers id (exampleState exampleServers.reverse .grade) =
        visibleServers id (exampleState exampleServers .grade) ∧
      (visibleServers id (exampleState exampleServers .grade)).map (·.id) = [1, 3, 2, 4] ∧
      compareServers .grade true (exampleServer 3 false (str "B") 20)
        (exampleServer 2 true (str "F") 10) < 0 ∧
      flips .averageMS (exampleServer 3 false (str "B") 20) (exampleServer 1 false (str "B") 30) := by
  obtain ⟨-, hview, -, hletter, -, -, hmetric⟩ := visibleServers_ordered
  have hids : (exampleServers.reverse.map (·.id)).Nodup := by decide
  refine ⟨?_, by decide +kernel, ?_, ?_⟩
  · exact (hview id (exampleState [] .grade) _ _ hids (List.reverse_perm _)).1
  · refine hletter _ _ _ ⟨str "B", by decide, rfl⟩ ?_
    rintro ⟨g, hg, he⟩
    have hall : ∀ g ∈ grades, (exampleServer 2 true (str "F") 10).grade ≠ some g := by decide
    exact hall g hg he
  · exact (hmetric .averageMS _ _ (by decide)).mpr (by decide +kernel)

end DnsMonitor.Web.VisibleServers
