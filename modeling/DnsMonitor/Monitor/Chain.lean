import DnsMonitor.Lib.Walks
import DnsMonitor.Monitor.Probe

namespace DnsMonitor.Monitor.Chain

open DnsMonitor.Model DnsMonitor.Monitor.Probe DnsMonitor.Lib.Walks
open DnsMonitor.Go.Strings DnsMonitor.Go.Unicode DnsMonitor.Go.Net DnsMonitor.Go.Time
open DnsMonitor.Go.Float

section

variable [CaseTables]

def ownedBy (owner type : GoString) (answers : List DoggoRecord) : List DoggoRecord :=
  answers.filter fun r => decide (normalizeName r.name = owner) && equalFold r.type type

def targets (answers : List DoggoRecord) (type owner : GoString) : List GoString :=
  (ownedBy owner (str "CNAME") answers).map fun r => normalizeAnswer type r.address

/-- The way on from a name: to the one target of its aliases, if it has any. A question for
aliases follows none. -/
def hopOf (answers : List DoggoRecord) (type owner : GoString) : Hop GoString :=
  if type = str "CNAME" then .stop
  else
    match targets answers (str "CNAME") owner with
    | [] => .stop
    | target :: rest => if target ≠ [] ∧ ∀ t ∈ rest, t = target then .next target else .broken

def Forked (answers : List DoggoRecord) (type owner : GoString) : Prop :=
  type ≠ str "CNAME" ∧
    ([] ∈ targets answers (str "CNAME") owner ∨
      ∃ s ∈ targets answers (str "CNAME") owner, ∃ t ∈ targets answers (str "CNAME") owner, s ≠ t)

def valuesOf (answers : List DoggoRecord) (type owner : GoString) : List GoString :=
  ((ownedBy owner type answers).map fun r => normalizeAnswer type r.address).filter (· ≠ [])

/-- The records that a value at the end of a chain rests on. -/
def evidence (answers : List DoggoRecord) (type : GoString) (owners : List GoString)
    (last value : GoString) : List DoggoRecord :=
  owners.flatMap (fun owner => ownedBy owner (str "CNAME") answers) ++
    (ownedBy last type answers).filter fun r => normalizeAnswer type r.address = value

end

/-- The whole seconds that a TTL gives, when it is valid. -/
def lifetime (F : Type) [GoFloat F] : RawTTL → Option Int
  | .absent => none
  | .string value =>
    match parseDuration F value with
    | some d => if 0 < d ∧ d % second = 0 then some (d / second) else none
    | none => (atoi value).filter (0 < ·)
  | .other raw => (atoi raw).filter (0 < ·)

section

variable (F : Type) [GoFloat F] [CaseTables]

/-- What the end of a chain answers: each of its values once, sorted, as long as all the records
it rests on live, and a day at most. -/
structure Resolved (answers : List DoggoRecord) (type : GoString) (owners : List GoString)
    (last : GoString) (now : Int) (records : List AnswerRecord) : Prop where
  sorted : records.Pairwise fun r s => r.value < s.value
  mem : ∀ record, record ∈ records ↔
    record.value ∈ valuesOf answers type last ∧
      (86400 :: (evidence answers type owners last record.value).map
        fun r => (lifetime F r.ttl).getD 0).min? = some record.ttlSeconds ∧
      record.observedAt = now ∧ record.expiresAt = now + record.ttlSeconds * 1000

end

theorem parseSeconds_eq (value : GoString) :
    parseSeconds value = min 86400 (((atoi value).filter (0 < ·)).getD 0) := by
  unfold parseSeconds boundedTTL
  cases atoi value with
  | none => rfl
  | some seconds =>
    simp only [Option.filter_some]
    split_ifs <;> simp_all <;> omega

theorem recordTTL_eq (F : Type) [GoFloat F] (ttl : RawTTL) :
    recordTTL F ttl = min 86400 ((lifetime F ttl).getD 0) := by
  cases ttl with
  | absent => rfl
  | other raw => exact parseSeconds_eq raw
  | string value =>
    rw [recordTTL, lifetime]
    cases parseDuration F value with
    | none => exact parseSeconds_eq value
    | some d =>
      dsimp only
      unfold boundedTTL
      split_ifs <;> simp <;> omega

section

variable [CaseTables]

structure Lowered (name : GoString) : Prop where
  ascii : ∀ b ∈ name, isAscii b = true
  lower : toLower name = name

theorem lowered_normalizeName {name : GoString} (h : ∀ b ∈ name, isAscii b = true) :
    Lowered (normalizeName name) := by
  have hsuf : ∀ b ∈ trimSuffix name (str "."), isAscii b = true :=
    fun b hb => h b ((trimSuffix_isPrefix name _).subset hb)
  have hlow : ∀ b ∈ normalizeName name, isAscii b = true := by
    intro b hb
    rw [normalizeName, toLower_ascii hsuf] at hb
    obtain ⟨c, hc, rfl⟩ := List.mem_map.mp hb
    exact isAscii_lowerByte (hsuf c hc)
  exact ⟨hlow, toLower_toLower hlow⟩

theorem lowered_target {value : GoString} (h : ∀ b ∈ value, isAscii b = true) :
    Lowered (normalizeAnswer (str "CNAME") value) :=
  lowered_normalizeName fun b hb => h b (trimSpace_subset hb)

theorem answersFor_iff {owner : GoString} (ho : Lowered owner) {r : DoggoRecord}
    (hr : ∀ b ∈ r.name, isAscii b = true) (type : GoString) :
    answersFor owner type r = (decide (normalizeName r.name = owner) && equalFold r.type type) := by
  have hsuf : ∀ b ∈ trimSuffix r.name (str "."), isAscii b = true :=
    fun b hb => hr b ((trimSuffix_isPrefix r.name _).subset hb)
  have hname : equalFold (trimSuffix r.name (str ".")) owner =
      decide (normalizeName r.name = owner) := by
    rw [Bool.eq_iff_iff, equalFold_ascii hsuf ho.ascii, ho.lower, decide_eq_true_iff,
      normalizeName]
  rw [answersFor, hname]

structure AsciiNames (answers : List DoggoRecord) : Prop where
  name : ∀ r ∈ answers, ∀ b ∈ r.name, isAscii b = true
  target : ∀ r ∈ answers, equalFold r.type (str "CNAME") = true →
    ∀ b ∈ r.address, isAscii b = true

variable {answers : List DoggoRecord} {type owner : GoString}

theorem filter_answersFor (h : AsciiNames answers) (ho : Lowered owner) (type : GoString) :
    answers.filter (answersFor owner type) = ownedBy owner type answers :=
  List.filter_congr fun r hr => answersFor_iff ho (h.name r hr) type

theorem lowered_next (h : AsciiNames answers) {target : GoString}
    (hhop : hopOf answers type owner = .next target) : Lowered target := by
  have hm : target ∈ targets answers (str "CNAME") owner := by
    unfold hopOf at hhop
    split_ifs at hhop
    split at hhop
    · cases hhop
    · next ht =>
      split_ifs at hhop
      cases hhop
      rw [ht]
      exact List.mem_cons_self
  obtain ⟨r, hr, rfl⟩ := List.mem_map.mp hm
  obtain ⟨hr, hown⟩ := List.mem_filter.mp hr
  exact lowered_target (h.target r hr (Bool.and_eq_true_iff.mp hown).2)

end

section

variable (F : Type) [GoFloat F] [CaseTables]

/-- The smallest TTL of the aliases of a name, a day at most. -/
def aliasTTL (answers : List DoggoRecord) (owner : GoString) : Int :=
  (ownedBy owner (str "CNAME") answers).foldl (fun ttl r => min (recordTTL F r.ttl) ttl) 86400

variable {F}

theorem aliases_foldlM (records : List DoggoRecord) {target : GoString} (ht : target ≠ [])
    (ttl : Int) :
    records.foldlM (fun (p : GoString × Int) r =>
      let next := normalizeAnswer (str "CNAME") r.address
      if next = [] ∨ p.1 ≠ [] ∧ p.1 ≠ next then none
      else some (next, min (recordTTL F r.ttl) p.2)) (target, ttl) =
    if ∀ t ∈ records.map (fun r : DoggoRecord => normalizeAnswer (str "CNAME") r.address), t = target then
      some (target, records.foldl (fun ttl r => min (recordTTL F r.ttl) ttl) ttl)
    else none := by
  induction records generalizing ttl with
  | nil => simp
  | cons r records ih =>
    rw [List.foldlM_cons, List.map_cons, List.foldl_cons]
    by_cases hr : normalizeAnswer (str "CNAME") r.address = target
    · simp only [hr, ht, ne_eq, not_true_eq_false, and_false, or_self, if_false,
        List.forall_mem_cons, true_and]
      exact ih _
    · have hr' : ¬ target = normalizeAnswer (str "CNAME") r.address := fun he => hr he.symm
      simp only [ht, hr, hr', ne_eq, not_false_eq_true, and_self, or_true, if_true,
        List.forall_mem_cons, false_and, if_false]
      rfl

theorem aliasOf_eq {answers : List DoggoRecord} (h : AsciiNames answers) {type owner : GoString}
    (htype : type ≠ str "CNAME") (ho : Lowered owner) :
    aliasOf F owner answers =
      match hopOf answers type owner with
      | .next target => some (target, aliasTTL F answers owner)
      | .stop => some ([], 86400)
      | .broken => none := by
  unfold aliasOf hopOf targets aliasTTL
  rw [filter_answersFor h ho, if_neg htype]
  cases ownedBy owner (str "CNAME") answers with
  | nil => rfl
  | cons r records =>
    rw [List.foldlM_cons, List.map_cons, List.foldl_cons]
    dsimp only
    by_cases hr : normalizeAnswer (str "CNAME") r.address = []
    · simp [hr]
    · simp only [hr, ne_eq, not_true_eq_false, false_and, or_self, if_false, not_false_eq_true,
        true_and]
      refine (aliases_foldlM records hr _).trans ?_
      split_ifs <;> rfl

end

section

variable {F : Type} [GoFloat F] [CaseTables] {answers : List DoggoRecord} {type owner : GoString}

def pathTTL (F : Type) [GoFloat F] (answers : List DoggoRecord) (owners : List GoString)
    (ttl : Int) : Int :=
  owners.foldl (fun ttl owner => min (aliasTTL F answers owner) ttl) ttl

theorem followAliases_eq (h : AsciiNames answers) (now : Int) (hops : Nat)
    (seen : List GoString) (ho : Lowered owner) (ttl : Int) :
    followAliases F answers type now hops seen owner ttl =
      match follow (hopOf answers type) hops seen owner with
      | none => []
      | some (owners, last) => ownRecords F last type (pathTTL F answers owners ttl) now answers := by
  induction hops generalizing seen owner ttl with
  | zero => rfl
  | succ hops ih =>
    rw [followAliases, follow]
    by_cases hseen : owner ∈ seen
    · rw [if_pos hseen, if_pos hseen]
    rw [if_neg hseen, if_neg hseen]
    by_cases htype : type = str "CNAME"
    · rw [if_pos htype, hopOf, if_pos htype]
      rfl
    rw [if_neg htype, aliasOf_eq h htype ho]
    cases hhop : hopOf answers type owner with
    | stop => rfl
    | broken => rfl
    | next target =>
      have hne : target ≠ [] := by
        unfold hopOf at hhop
        rw [if_neg htype] at hhop
        split at hhop
        · cases hhop
        · split_ifs at hhop with ht
          cases hhop
          exact ht.1
      obtain ⟨b, rest, rfl⟩ := List.exists_cons_of_ne_nil hne
      refine (ih (owner :: seen) (lowered_next h hhop) _).trans ?_
      dsimp only
      cases follow (hopOf answers type) hops (owner :: seen) (b :: rest) with
      | none => rfl
      | some result => rfl

theorem lowered_last (h : AsciiNames answers) {first last : GoString} {owners : List GoString}
    (hf : Lowered first) (hw : Way (hopOf answers type) first owners last) : Lowered last := by
  induction owners generalizing first with
  | nil => exact way_nil.mp hw ▸ hf
  | cons owner owners ih =>
    obtain ⟨-, target, ht, hw⟩ := way_cons.mp hw
    exact ih (lowered_next h ht) hw

omit [CaseTables] in
theorem le_recordTTL {x : Int} {ttl : RawTTL} :
    x ≤ recordTTL F ttl ↔ x ≤ 86400 ∧ x ≤ (lifetime F ttl).getD 0 := by
  rw [recordTTL_eq, le_min_iff]

omit [CaseTables] in
theorem le_foldl_min {x : Int} (records : List DoggoRecord) (ttl : Int) :
    x ≤ records.foldl (fun ttl r => min (recordTTL F r.ttl) ttl) ttl ↔
      x ≤ ttl ∧ ∀ r ∈ records, x ≤ recordTTL F r.ttl := by
  induction records generalizing ttl with
  | nil => simp
  | cons r records ih =>
    rw [List.foldl_cons, ih, le_min_iff, List.forall_mem_cons]
    tauto

theorem le_pathTTL {x : Int} (owners : List GoString) (ttl : Int) :
    x ≤ pathTTL F answers owners ttl ↔
      x ≤ ttl ∧ ∀ owner ∈ owners, x ≤ aliasTTL F answers owner := by
  unfold pathTTL
  induction owners generalizing ttl with
  | nil => simp
  | cons owner owners ih =>
    rw [List.foldl_cons, ih, le_min_iff, List.forall_mem_cons]
    tauto

omit [CaseTables] [GoFloat F] in
theorem min?_eq_some_of_le {a m : Int} {l : List Int}
    (h : ∀ x, x ≤ m ↔ x ≤ a ∧ ∀ b ∈ l, x ≤ b) : (a :: l).min? = some m := by
  rw [List.min?_cons']
  have hle : ∀ x, x ≤ l.foldl min a ↔ x ≤ a ∧ ∀ b ∈ l, x ≤ b := by
    intro x
    rw [List.le_min?_iff List.min?_cons', List.forall_mem_cons]
  exact congrArg some (le_antisymm ((h _).mpr ((hle _).mp le_rfl)) ((hle _).mpr ((h _).mp le_rfl)))

theorem le_pathTTL_iff {x : Int} (owners : List GoString) :
    x ≤ pathTTL F answers owners 86400 ↔ x ≤ 86400 ∧
      ∀ r ∈ owners.flatMap fun owner => ownedBy owner (str "CNAME") answers,
        x ≤ (lifetime F r.ttl).getD 0 := by
  simp only [le_pathTTL, aliasTTL, le_foldl_min, le_recordTTL, List.mem_flatMap]
  constructor
  · intro h
    refine ⟨h.1, fun r hr => ?_⟩
    obtain ⟨owner, ho, hr⟩ := hr
    exact ((h.2 owner ho).2 r hr).2
  · intro h
    exact ⟨h.1, fun owner ho => ⟨h.1, fun r hr => ⟨h.1, h.2 r ⟨owner, ho, hr⟩⟩⟩⟩

def timedValues (F : Type) [GoFloat F] (answers : List DoggoRecord) (type owner : GoString)
    (ttl : Int) : List (GoString × Int) :=
  (ownedBy owner type answers).filterMap fun r =>
    let value := normalizeAnswer type r.address
    if value = [] then none else some (value, min ttl (recordTTL F r.ttl))

theorem mem_timedValues {ttl : Int} {p : GoString × Int} :
    p ∈ timedValues F answers type owner ttl ↔
      p.1 ≠ [] ∧ ∃ r ∈ ownedBy owner type answers,
        normalizeAnswer type r.address = p.1 ∧ p.2 = min ttl (recordTTL F r.ttl) := by
  rw [timedValues, List.mem_filterMap]
  constructor
  · intro h
    obtain ⟨r, hr, he⟩ := h
    dsimp only at he
    split_ifs at he with hv
    cases he
    exact ⟨hv, r, hr, rfl, rfl⟩
  · intro h
    obtain ⟨hv, r, hr, hvalue, httl⟩ := h
    refine ⟨r, hr, ?_⟩
    dsimp only
    rw [hvalue, if_neg hv, ← httl]

theorem values_timedValues (ttl : Int) (value : GoString) :
    value ∈ (timedValues F answers type owner ttl).map (·.1) ↔
      value ∈ valuesOf answers type owner := by
  rw [valuesOf, List.mem_filter, decide_eq_true_iff]
  constructor
  · intro h
    obtain ⟨p, hp, rfl⟩ := List.mem_map.mp h
    obtain ⟨hv, r, hr, hvalue, -⟩ := mem_timedValues.mp hp
    exact ⟨List.mem_map.mpr ⟨r, hr, hvalue⟩, hv⟩
  · intro h
    obtain ⟨hm, hv⟩ := h
    obtain ⟨r, hr, hvalue⟩ := List.mem_map.mp hm
    exact List.mem_map.mpr ⟨(value, _), mem_timedValues.mpr ⟨hv, r, hr, hvalue, rfl⟩, rfl⟩

theorem ttl_of_value {owners : List GoString} {value : GoString}
    (h : value ∈ valuesOf answers type owner) :
    (86400 :: (evidence answers type owners owner value).map
        fun r => (lifetime F r.ttl).getD 0).min? =
      some (((((timedValues F answers type owner (pathTTL F answers owners 86400)).filter
        (·.1 = value)).map (·.2)).min?).getD 0) := by
  apply min?_eq_some_of_le
  intro x
  have hv : value ≠ [] := by simpa using (List.mem_filter.mp h).2
  cases hm : (((timedValues F answers type owner (pathTTL F answers owners 86400)).filter
      (·.1 = value)).map (·.2)).min? with
  | none =>
    rw [List.min?_eq_none_iff, List.map_eq_nil_iff, List.filter_eq_nil_iff] at hm
    obtain ⟨p, hp, rfl⟩ := List.mem_map.mp ((values_timedValues (F := F) _ value).mpr h)
    exact absurd (decide_eq_true rfl) (hm p hp)
  | some m =>
    obtain ⟨hcopy, -⟩ := List.mem_filter.mp h
    obtain ⟨r₀, hr₀, hvalue₀⟩ := List.mem_map.mp hcopy
    rw [Option.getD_some, List.le_min?_iff hm]
    constructor
    · intro hx
      have hcopies : ∀ r ∈ ownedBy owner type answers, normalizeAnswer type r.address = value →
          x ≤ min (pathTTL F answers owners 86400) (recordTTL F r.ttl) := by
        intro r hr hvalue
        apply hx
        refine List.mem_map.mpr ⟨(value, _), List.mem_filter.mpr ⟨?_, decide_eq_true rfl⟩, rfl⟩
        exact mem_timedValues.mpr ⟨hv, r, hr, hvalue, rfl⟩
      obtain ⟨hday, hpath⟩ := (le_pathTTL_iff owners).mp
        (le_min_iff.mp (hcopies r₀ hr₀ hvalue₀)).1
      refine ⟨hday, fun b hb => ?_⟩
      obtain ⟨r, hr, rfl⟩ := List.mem_map.mp hb
      cases List.mem_append.mp hr with
      | inl hr => exact hpath r hr
      | inr hr =>
        obtain ⟨hr, hvalue⟩ := List.mem_filter.mp hr
        have hle := hcopies r hr (of_decide_eq_true hvalue)
        exact (le_recordTTL.mp (le_min_iff.mp hle).2).2
    · intro hx b hb
      obtain ⟨hday, hall⟩ := hx
      obtain ⟨p, hp, rfl⟩ := List.mem_map.mp hb
      obtain ⟨hp, hpv⟩ := List.mem_filter.mp hp
      obtain ⟨-, r, hr, hvalue, httl⟩ := mem_timedValues.mp hp
      have hmem : r ∈ (ownedBy owner type answers).filter
          fun r => normalizeAnswer type r.address = value :=
        List.mem_filter.mpr ⟨hr, decide_eq_true (hvalue.trans (of_decide_eq_true hpv))⟩
      rw [httl, le_min_iff, le_pathTTL_iff, le_recordTTL]
      refine ⟨⟨hday, fun s hs => ?_⟩, hday, ?_⟩
      · exact hall _ (List.mem_map_of_mem (List.mem_append_left _ hs))
      · exact hall _ (List.mem_map_of_mem (List.mem_append_right _ hmem))

def recordOf (values : List (GoString × Int)) (now : Int) (value : GoString) : AnswerRecord :=
  let ttl := (((values.filter (·.1 = value)).map (·.2)).min?).getD 0
  { value, ttlSeconds := ttl, observedAt := now, expiresAt := now + ttl * 1000 }

theorem ownRecords_eq (h : AsciiNames answers) (ho : Lowered owner) (ttl now : Int) :
    ownRecords F owner type ttl now answers =
      ((((timedValues F answers type owner ttl).map (·.1)).dedup).insertionSort
        fun v w => ¬ w < v).map (recordOf (timedValues F answers type owner ttl) now) := by
  unfold ownRecords
  rw [filter_answersFor h ho]
  rfl

omit [CaseTables] in
theorem sorted_values {values : List GoString} (h : values.Nodup) :
    (values.insertionSort fun v w => ¬ w < v).Pairwise fun v w => v < w := by
  have hle := List.pairwise_insertionSort (fun v w : GoString => v ≤ w) values
  have hne := ((List.perm_insertionSort (fun v w : GoString => v ≤ w) values).nodup_iff).mpr h
  refine (hle.and hne).imp fun {v w} hvw => ?_
  by_contra hn
  exact hvw.2 (List.le_antisymm hvw.1 hn)

theorem resolved_ownRecords (h : AsciiNames answers) (ho : Lowered owner)
    (owners : List GoString) (now : Int) :
    Resolved F answers type owners owner now
      (ownRecords F owner type (pathTTL F answers owners 86400) now answers) := by
  rw [ownRecords_eq h ho]
  constructor
  · rw [List.pairwise_map]
    exact sorted_values (List.nodup_dedup _)
  · intro record
    rw [List.mem_map]
    simp only [List.mem_insertionSort, List.mem_dedup, values_timedValues]
    constructor
    · intro hr
      obtain ⟨value, hvalue, rfl⟩ := hr
      exact ⟨hvalue, ttl_of_value hvalue, rfl, rfl⟩
    · intro hr
      obtain ⟨hvalue, httl, hat, hexp⟩ := hr
      have he := Option.some.inj ((ttl_of_value hvalue).symm.trans httl)
      refine ⟨record.value, hvalue, ?_⟩
      unfold recordOf
      rw [he]
      dsimp only
      rw [← hexp, ← hat]

theorem Resolved.unique {owners : List GoString} {now : Int} {records records' : List AnswerRecord}
    (h : Resolved F answers type owners owner now records)
    (h' : Resolved F answers type owners owner now records') : records = records' := by
  have hnodup : ∀ {rs : List AnswerRecord}, rs.Pairwise (fun r s => r.value < s.value) →
      rs.Nodup := by
    intro rs hs
    refine hs.imp fun {r s} hlt he => ?_
    exact List.lt_irrefl _ (he ▸ hlt)
  have hperm : records.Perm records' := (List.perm_ext_iff_of_nodup (hnodup h.sorted)
    (hnodup h'.sorted)).mpr fun record => (h.mem record).trans (h'.mem record).symm
  refine hperm.eq_of_pairwise (fun a b _ _ hab hba => ?_) h.sorted h'.sorted
  exact absurd hba (List.lt_asymm hab)

variable {answers' : List DoggoRecord}

theorem ownedBy_perm (h : answers.Perm answers') (owner type : GoString) :
    (ownedBy owner type answers).Perm (ownedBy owner type answers') := h.filter _

omit [GoFloat F] in
theorem hopOf_eq_next {target : GoString} :
    hopOf answers type owner = .next target ↔
      type ≠ str "CNAME" ∧ target ≠ [] ∧ target ∈ targets answers (str "CNAME") owner ∧
        ∀ t ∈ targets answers (str "CNAME") owner, t = target := by
  unfold hopOf
  split_ifs with htype
  · simp [htype]
  · cases targets answers (str "CNAME") owner with
    | nil => simp
    | cons t rest =>
      dsimp only
      split_ifs with ht
      · constructor
        · intro h
          cases h
          exact ⟨htype, ht.1, List.mem_cons_self, List.forall_mem_cons.mpr ⟨rfl, ht.2⟩⟩
        · intro h
          rw [h.2.2.2 t List.mem_cons_self]
      · constructor
        · intro h
          cases h
        · intro h
          obtain ⟨-, hne, -, hall⟩ := h
          have he := hall t List.mem_cons_self
          exact absurd ⟨he ▸ hne, fun s hs => he ▸ hall s (List.mem_cons_of_mem _ hs)⟩ ht

omit [GoFloat F] in
theorem hopOf_eq_stop :
    hopOf answers type owner = .stop ↔
      type = str "CNAME" ∨ targets answers (str "CNAME") owner = [] := by
  unfold hopOf
  split_ifs with htype
  · simp [htype]
  · cases targets answers (str "CNAME") owner with
    | nil => simp
    | cons t rest =>
      dsimp only
      split_ifs <;> simp [htype]

omit [GoFloat F] in
theorem hopOf_eq_broken : hopOf answers type owner = .broken ↔ Forked answers type owner := by
  unfold hopOf Forked
  split_ifs with htype
  · simp [htype]
  · cases targets answers (str "CNAME") owner with
    | nil => simp
    | cons t rest =>
      dsimp only
      split_ifs with ht
      · simp only [htype, not_false_eq_true, true_and, false_iff, not_or,
          List.mem_cons, ne_eq]
        refine ⟨⟨fun h => ht.1 h.symm, fun h => ht.1 (ht.2 _ h).symm⟩, ?_⟩
        rintro ⟨s, hs, u, hu, hne⟩
        have hall : ∀ v, v = t ∨ v ∈ rest → v = t := fun v hv => hv.elim id (ht.2 v)
        exact hne ((hall s hs).trans (hall u hu).symm)
      · rw [not_and_or, not_not] at ht
        simp only [htype, not_false_eq_true, true_and, true_iff, ne_eq]
        cases ht with
        | inl ht => exact Or.inl (ht ▸ List.mem_cons_self)
        | inr ht =>
          push Not at ht
          obtain ⟨s, hs, hne⟩ := ht
          exact Or.inr ⟨s, List.mem_cons_of_mem _ hs, t, List.mem_cons_self, hne⟩

omit [GoFloat F] in
theorem hopOf_perm (h : answers.Perm answers') (type : GoString) :
    hopOf answers type = hopOf answers' type := by
  funext owner
  have hp : (targets answers (str "CNAME") owner).Perm (targets answers' (str "CNAME") owner) :=
    (ownedBy_perm h owner _).map _
  cases hhop : hopOf answers' type owner with
  | stop =>
    rw [hopOf_eq_stop] at hhop ⊢
    exact hhop.imp_right fun hnil => (hnil ▸ hp).eq_nil
  | next target =>
    rw [hopOf_eq_next] at hhop ⊢
    obtain ⟨htype, hne, hm, hall⟩ := hhop
    exact ⟨htype, hne, hp.mem_iff.mpr hm, fun t ht => hall t (hp.mem_iff.mp ht)⟩
  | broken =>
    cases hhop' : hopOf answers type owner with
    | broken => rfl
    | stop =>
      rw [hopOf_eq_stop] at hhop'
      have hs : hopOf answers' type owner = .stop :=
        hopOf_eq_stop.mpr (hhop'.imp_right fun hnil => (hnil ▸ hp.symm).eq_nil)
      rw [hs] at hhop
      cases hhop
    | next target =>
      obtain ⟨htype, hne, hm, hall⟩ := hopOf_eq_next.mp hhop'
      have hn : hopOf answers' type owner = .next target :=
        hopOf_eq_next.mpr ⟨htype, hne, hp.mem_iff.mp hm, fun t ht => hall t (hp.mem_iff.mpr ht)⟩
      rw [hn] at hhop
      cases hhop

theorem Resolved.perm (h : answers.Perm answers') {owners : List GoString} {now : Int}
    {records : List AnswerRecord} (hr : Resolved F answers type owners owner now records) :
    Resolved F answers' type owners owner now records := by
  have hvalues : (valuesOf answers type owner).Perm (valuesOf answers' type owner) :=
    ((ownedBy_perm h owner type).map _).filter _
  have hevidence : ∀ value, (evidence answers type owners owner value).Perm
      (evidence answers' type owners owner value) := fun value =>
    (List.Perm.flatMap_left _ fun o _ => ownedBy_perm h o _).append
      ((ownedBy_perm h owner type).filter _)
  refine ⟨hr.sorted, fun record => ?_⟩
  rw [hr.mem, hvalues.mem_iff]
  have hmin : ∀ m, (86400 :: (evidence answers type owners owner record.value).map
      fun r => (lifetime F r.ttl).getD 0).min? = some m ↔
      (86400 :: (evidence answers' type owners owner record.value).map
        fun r => (lifetime F r.ttl).getD 0).min? = some m := by
    intro m
    have hp := ((hevidence record.value).map fun r => (lifetime F r.ttl).getD 0).cons 86400
    rw [List.min?_eq_some_iff, List.min?_eq_some_iff, hp.mem_iff]
    simp only [hp.mem_iff]
  rw [hmin]

omit [GoFloat F] in
theorem AsciiNames.perm (h : AsciiNames answers) (hp : answers.Perm answers') :
    AsciiNames answers' :=
  ⟨fun r hr => h.name r (hp.mem_iff.mpr hr), fun r hr => h.target r (hp.mem_iff.mpr hr)⟩

theorem requestedRecords_eq (h : AsciiNames answers) {domain : Domain}
    (hd : ∀ b ∈ domain.name, isAscii b = true) (now : Int) :
    requestedRecords F answers domain now =
      match follow (hopOf answers domain.type) 32 [] (normalizeName domain.name) with
      | none => []
      | some (owners, last) =>
        ownRecords F last domain.type (pathTTL F answers owners 86400) now answers :=
  followAliases_eq h now 32 [] (lowered_normalizeName hd) 86400

theorem resolved_requestedRecords (h : AsciiNames answers) {domain : Domain}
    (hd : ∀ b ∈ domain.name, isAscii b = true) (now : Int) {owners : List GoString}
    {last : GoString} (hf : follow (hopOf answers domain.type) 32 []
      (normalizeName domain.name) = some (owners, last)) :
    Resolved F answers domain.type owners last now (requestedRecords F answers domain now) := by
  rw [requestedRecords_eq h hd, hf]
  exact resolved_ownRecords h (lowered_last h (lowered_normalizeName hd) (way_of_follow hf).1)
    owners now

/-- Resolving an answer depends on what its records say, not on their order. Along every chain
of aliases from the queried name: it gives nothing when the chain comes to an owner with an empty
or two different targets, revisits a name or has more than 32 names. At the end of any other
chain it gives the values of the last name, as long as all the records they rest on live. One of
the four is the case. -/
theorem requestedRecords_chain (F : Type) [GoFloat F] (answers : List DoggoRecord)
    (domain : Domain) (now : Int) (hanswers : AsciiNames answers)
    (hdomain : ∀ b ∈ domain.name, isAscii b = true) :
    (∀ answers', answers.Perm answers' →
      requestedRecords F answers' domain now = requestedRecords F answers domain now) ∧
    (∀ owners last, Way (hopOf answers domain.type) (normalizeName domain.name) owners last →
      (Forked answers domain.type last ∨ ¬ (owners ++ [last]).Nodup ∨
          32 < (owners ++ [last]).length →
        requestedRecords F answers domain now = []) ∧
      (hopOf answers domain.type last = .stop → (owners ++ [last]).Nodup →
          (owners ++ [last]).length ≤ 32 →
        Resolved F answers domain.type owners last now
          (requestedRecords F answers domain now))) ∧
    ∃ owners last, Way (hopOf answers domain.type) (normalizeName domain.name) owners last ∧
      (Forked answers domain.type last ∨ ¬ (owners ++ [last]).Nodup ∨
        32 < (owners ++ [last]).length ∨ hopOf answers domain.type last = .stop) := by
  refine ⟨fun answers' hp => ?_, fun owners last hw => ⟨fun hbad => ?_, fun hstop hn hl => ?_⟩, ?_⟩
  · have hanswers' := hanswers.perm hp
    cases hf : follow (hopOf answers domain.type) 32 [] (normalizeName domain.name) with
    | none =>
      rw [requestedRecords_eq hanswers hdomain, requestedRecords_eq hanswers' hdomain,
        ← hopOf_perm hp, hf]
    | some result =>
      have hr := resolved_requestedRecords (F := F) hanswers hdomain now hf
      have hr' := resolved_requestedRecords (F := F) hanswers' hdomain now (hopOf_perm hp _ ▸ hf)
      exact hr'.unique (hr.perm hp)
  · have hbad' : hopOf answers domain.type last = .broken ∨ ¬ (owners ++ [last]).Nodup ∨
        32 ≤ owners.length := by
      simpa [Nat.lt_succ_iff, hopOf_eq_broken] using hbad
    rw [requestedRecords_eq hanswers hdomain, follow_eq_none hw hbad']
  · have hl' : owners.length < 32 := by simpa using hl
    exact resolved_requestedRecords hanswers hdomain now
      (follow_of_way hw hstop hn (by simp) hl')
  · obtain ⟨owners, last, hw, hend⟩ := exists_way (hopOf answers domain.type)
      (normalizeName domain.name) 32
    refine ⟨owners, last, hw, ?_⟩
    obtain hstop | hbroken | hlong := hend
    · exact Or.inr (Or.inr (Or.inr hstop))
    · exact Or.inl (hopOf_eq_broken.mp hbroken)
    · exact Or.inr (Or.inr (Or.inl (by simpa using Nat.lt_succ_of_le hlong)))

end

section

local instance : CaseTables := asciiTables

def sampleRecord (name type address ttl : String) : DoggoRecord where
  name := str name
  type := str type
  address := str address
  status := []
  rtt := []
  ttl := .other (str ttl)

def sampleAnswers : List DoggoRecord :=
  [sampleRecord "edge.example." "A" "192.0.2.1" "60",
    sampleRecord "WWW.example." "CNAME" "edge.example." "4",
    sampleRecord "other.example." "A" "192.0.2.2" "60"]

def sampleDomain : Domain := { name := str "www.example", type := str "A" }

theorem requestedRecords_chain_sample :
    Resolved ℚ sampleAnswers (str "A") [str "www.example"] (str "edge.example") 7
      (requestedRecords ℚ sampleAnswers sampleDomain 7) := by
  have hascii : AsciiNames sampleAnswers := by
    constructor <;> decide +kernel
  have hw : Way (hopOf sampleAnswers (str "A")) (str "www.example") [str "www.example"]
      (str "edge.example") :=
    way_cons.mpr ⟨rfl, str "edge.example", by decide +kernel, way_nil.mpr rfl⟩
  exact ((requestedRecords_chain ℚ sampleAnswers sampleDomain 7 hascii (by decide +kernel)).2.1
    _ _ hw).2 (by decide +kernel) (by decide +kernel) (by decide)

example : requestedRecords ℚ sampleAnswers sampleDomain 7 =
    [{ value := str "192.0.2.1", ttlSeconds := 4, observedAt := 7, expiresAt := 4007 }] := by
  decide +kernel

end

end DnsMonitor.Monitor.Chain
