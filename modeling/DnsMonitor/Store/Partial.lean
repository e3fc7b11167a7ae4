import DnsMonitor.Store.Retained

namespace DnsMonitor.Store.Partial

open DnsMonitor.Model DnsMonitor.Lib DnsMonitor.Lib.Tables
open DnsMonitor.Store.Schema DnsMonitor.Store.Rounds DnsMonitor.Store.Cleanup
open DnsMonitor.Store.Migration DnsMonitor.Store.Run DnsMonitor.Store.WellFormed
open DnsMonitor.Store.Retained
open DnsMonitor.Go.Strings DnsMonitor.Go.Unicode DnsMonitor.Go.Errors DnsMonitor.Go.Float

section

variable {F : Type} (before : Int) (db : DB F)

def hasExpired (id : Int) : Bool := db.results.any fun r => r.roundID = id && r.timestamp < before

def left (id : Int) : List (ResultRow F) :=
  db.results.filter fun r => r.roundID = id && !decide (r.timestamp < before)

def leftRaw (id : Int) : List (ProbeResult F) := (left before db id).filterMap (·.rawJSON)

def isEmptied (id : Int) : Bool := hasExpired before db id && left before db id = []

variable [GoFloat F]

/-- What becomes of a round. -/
def settledRound (q : RoundRow F) : Option (RoundRow F) :=
  if hasExpired before db q.id then
    if left before db q.id = [] then none
    else some (recountedRound (left before db q.id) (leftRaw before db q.id) q)
  else some q

def settledBuckets (id : Int) : List BucketRow :=
  if hasExpired before db id then buckets id (timedRaw (leftRaw before db id))
  else db.latencyBuckets.filter (·.roundID = id)

end

section

variable {F : Type} {before : Int} {db db' : DB F}

def withoutExpired (before id : Int) (db : DB F) : DB F :=
  { db with results := delete (fun r => r.roundID = id && r.timestamp < before) db.results }

theorem hasExpired_withoutExpired (id i : Int) :
    hasExpired before (withoutExpired before id db) i = (hasExpired before db i && i ≠ id) := by
  rw [Bool.eq_iff_iff, Bool.and_eq_true, hasExpired, hasExpired, List.any_eq_true,
    List.any_eq_true]
  simp only [withoutExpired, mem_delete, Bool.and_eq_true, decide_eq_true_eq,
    Bool.and_eq_false_iff, decide_eq_false_iff_not]
  constructor
  · rintro ⟨r, ⟨hr, hother⟩, hi, ht⟩
    refine ⟨⟨r, hr, hi, ht⟩, ?_⟩
    rintro rfl
    tauto
  · rintro ⟨⟨r, hr, hi, ht⟩, hne⟩
    exact ⟨r, ⟨hr, .inl fun he => hne (hi.symm.trans he)⟩, hi, ht⟩

variable (before db) in
theorem left_withoutExpired (id i : Int) :
    left before (withoutExpired before id db) i = left before db i := by
  rw [left, left, withoutExpired]
  apply filter_delete
  intro r _ hr
  simp only [Bool.and_eq_true, Bool.not_eq_true'] at hr
  rw [hr.2, Bool.and_false]

variable (before) in
theorem rows_withoutExpired (id : Int) :
    (withoutExpired before id db).results.filter (·.roundID = id) = left before db id := by
  rw [left, withoutExpired, delete, List.filter_filter]
  apply List.filter_congr
  intro r _
  by_cases hid : r.roundID = id <;> simp [hid]

theorem mapM_rawJSON {rows : List (ResultRow F)} (h : ∀ r ∈ rows, Decodes r) :
    rows.mapM (·.rawJSON) = some (rows.filterMap (·.rawJSON)) := by
  induction rows with
  | nil => rfl
  | cons r rows ih =>
    obtain ⟨raw, hraw⟩ := Option.isSome_iff_exists.mp (h r (by simp))
    rw [List.mapM_cons, hraw, ih fun q hq => h q (by simp [hq]), List.filterMap_cons, hraw]
    rfl

theorem decodes_left (h : AllDecode db) (id : Int) :
    (left before db id).mapM (·.rawJSON) = some (leftRaw before db id) :=
  mapM_rawJSON fun r hr => h r (List.mem_filter.mp hr).1

/-- The expired results of other rounds, and what is left of every round, stay the same. -/
structure Cleared (before id : Int) (db db' : DB F) : Prop where
  results : db'.results = (withoutExpired before id db).results
  others : { db' with
    results := db.results, rounds := db.rounds, evaluationSnapshots := db.evaluationSnapshots,
    latencyBuckets := db.latencyBuckets } = db

theorem Cleared.hasExpired_eq {id : Int} (h : Cleared before id db db') (i : Int) :
    hasExpired before db' i = (hasExpired before db i && i ≠ id) := by
  rw [← hasExpired_withoutExpired id i, hasExpired, h.results, hasExpired]

theorem Cleared.left_eq {id : Int} (h : Cleared before id db db') (i : Int) :
    left before db' i = left before db i := by
  have hsame := left_withoutExpired before db id i
  rw [← hsame, left, h.results, left]

theorem Cleared.sameResults {id : Int} (h : Cleared before id db db') :
    delete (·.timestamp < before) db'.results = delete (·.timestamp < before) db.results := by
  rw [h.results, withoutExpired]
  apply delete_delete
  intro r _ hr
  exact (Bool.and_eq_true_iff.mp hr).2

end

section

variable {F : Type} [GoFloat F] {before : Int} {db db' db'' : DB F}

/-- Two databases of which the same is left when the expired results are gone. -/
structure SameRest (before : Int) (db db' : DB F) : Prop where
  results : delete (·.timestamp < before) db'.results = delete (·.timestamp < before) db.results
  rounds : db'.rounds.filterMap (settledRound before db') =
    db.rounds.filterMap (settledRound before db)
  snapshots : delete (fun s => isEmptied before db' s.roundID) db'.evaluationSnapshots =
    delete (fun s => isEmptied before db s.roundID) db.evaluationSnapshots
  buckets : ∀ id, settledBuckets before db' id = settledBuckets before db id
  others : { db' with
    results := db.results, rounds := db.rounds, evaluationSnapshots := db.evaluationSnapshots,
    latencyBuckets := db.latencyBuckets } = db

theorem SameRest.refl (before : Int) (db : DB F) : SameRest before db db :=
  ⟨rfl, rfl, rfl, fun _ => rfl, rfl⟩

theorem SameRest.trans (h : SameRest before db db') (h' : SameRest before db' db'') :
    SameRest before db db'' where
  results := h'.results.trans h.results
  rounds := h'.rounds.trans h.rounds
  snapshots := h'.snapshots.trans h.snapshots
  buckets id := (h'.buckets id).trans (h.buckets id)
  others := by
    have ho := h.others
    rw [← h'.others] at ho
    exact ho

structure Settled (before : Int) (db db' : DB F) : Prop where
  results : db'.results = delete (·.timestamp < before) db.results
  rounds : db'.rounds = db.rounds.filterMap (settledRound before db)
  snapshots : db'.evaluationSnapshots =
    delete (fun s => isEmptied before db s.roundID) db.evaluationSnapshots
  buckets : ∀ id, db'.latencyBuckets.filter (·.roundID = id) = settledBuckets before db id
  others : { db' with
    results := db.results, rounds := db.rounds, evaluationSnapshots := db.evaluationSnapshots,
    latencyBuckets := db.latencyBuckets } = db

theorem SameRest.settled (h : SameRest before db db')
    (hnone : ∀ r ∈ db'.results, ¬ r.timestamp < before) : Settled before db db' := by
  have hexpired : ∀ id, hasExpired before db' id = false := by
    intro id
    rw [hasExpired, List.any_eq_false]
    intro r hr
    simp [hnone r hr]
  have hround : settledRound before db' = some := by
    funext q
    rw [settledRound, hexpired]
    rfl
  refine ⟨?_, ?_, ?_, ?_, h.others⟩
  · rw [← h.results]
    exact (filter_every fun r hr => by simp [hnone r hr]).symm
  · rw [← h.rounds, hround, List.filterMap_some]
  · rw [← h.snapshots]
    apply (filter_every _).symm
    intro s _
    simp [isEmptied, hexpired]
  · intro id
    rw [← h.buckets, settledBuckets, hexpired]
    rfl

theorem Cleared.settledRound_eq {id : Int} (h : Cleared before id db db') {q : RoundRow F}
    (hq : q.id ≠ id) : settledRound before db' q = settledRound before db q := by
  simp only [settledRound, leftRaw, h.left_eq, h.hasExpired_eq, hq, ne_eq, not_false_eq_true,
    decide_true, Bool.and_true]

theorem Cleared.settledRound_self {id : Int} (h : Cleared before id db db') {q : RoundRow F}
    (hq : q.id = id) : settledRound before db' q = some q := by
  simp [settledRound, h.hasExpired_eq, hq]

theorem Cleared.settledBuckets_eq {id i : Int} (h : Cleared before id db db') (hi : i ≠ id)
    (hb : db'.latencyBuckets.filter (·.roundID = i) = db.latencyBuckets.filter (·.roundID = i)) :
    settledBuckets before db' i = settledBuckets before db i := by
  simp only [settledBuckets, leftRaw, h.left_eq, h.hasExpired_eq, hi, ne_eq,
    not_false_eq_true, decide_true, Bool.and_true, hb]

theorem Cleared.settledBuckets_self {id : Int} (h : Cleared before id db db') :
    settledBuckets before db' id = db'.latencyBuckets.filter (·.roundID = id) := by
  simp [settledBuckets, h.hasExpired_eq]

theorem filterMap_delete {α β : Type} {p : α → Bool} {g g' : α → Option β} {rows : List α}
    (hp : ∀ r ∈ rows, p r = true → g r = none) (hn : ∀ r ∈ rows, p r = false → g' r = g r) :
    (delete p rows).filterMap g' = rows.filterMap g := by
  induction rows with
  | nil => rfl
  | cons r rows ih =>
    have htail := ih (fun q hq => hp q (by simp [hq])) fun q hq => hn q (by simp [hq])
    rw [delete] at htail ⊢
    cases hr : p r with
    | true => rw [List.filter_cons_of_neg (by simp [hr]), htail,
        List.filterMap_cons_none (hp r (by simp) hr)]
    | false => rw [List.filter_cons_of_pos (by simp [hr]), List.filterMap_cons,
        List.filterMap_cons, hn r (by simp) hr, htail]

theorem sameRest_emptied {id : Int} (hw : WellFormed db) (he : hasExpired before db id = true)
    (hl : left before db id = []) :
    Cleared before id db (deleteRounds (·.id = id) (withoutExpired before id db)) ∧
      SameRest before db (deleteRounds (·.id = id) (withoutExpired before id db)) := by
  -- an expired result refers to a stored round
  have hstored : ∃ q ∈ db.rounds, q.id = id := by
    obtain ⟨r, hr, hexpired⟩ := List.any_eq_true.mp he
    obtain ⟨q, hq, hid, -⟩ := round_of_result hw hr
    simp only [Bool.and_eq_true, decide_eq_true_eq] at hexpired
    exact ⟨q, hq, hid.trans hexpired.1⟩
  have hgone : ∀ i, (db.rounds.any fun q => q.id = id && q.id = i) = decide (i = id) := by
    intro i
    rw [Bool.eq_iff_iff, List.any_eq_true]
    simp only [Bool.and_eq_true, decide_eq_true_eq]
    constructor
    · rintro ⟨q, _, hid, hi⟩
      exact hi.symm.trans hid
    · rintro rfl
      obtain ⟨q, hq, hid⟩ := hstored
      exact ⟨q, hq, hid, hid⟩
  have hresults : (deleteRounds (·.id = id) (withoutExpired before id db)).results =
      (withoutExpired before id db).results := by
    apply filter_every
    intro r hr
    have hnone := List.filter_eq_nil_iff.mp ((rows_withoutExpired before id).trans hl) r hr
    change (!db.rounds.any fun q => q.id = id && q.id = r.roundID) = true
    rw [hgone]
    simpa using hnone
  have hc : Cleared before id db (deleteRounds (·.id = id) (withoutExpired before id db)) :=
    ⟨hresults, rfl⟩
  refine ⟨hc, hc.sameResults, ?_, ?_, ?_, rfl⟩
  · apply filterMap_delete
    · intro q _ hq
      rw [settledRound, of_decide_eq_true hq, he, if_pos rfl, if_pos hl]
    · intro q _ hq
      exact hc.settledRound_eq (of_decide_eq_false hq)
  · change delete _ (delete (fun s => db.rounds.any fun q => q.id = id && q.id = s.roundID)
      db.evaluationSnapshots) = _
    rw [delete, delete, delete, List.filter_filter]
    apply List.filter_congr
    intro s _
    rw [hgone, isEmptied, isEmptied, hc.hasExpired_eq, hc.left_eq]
    by_cases hs : s.roundID = id <;> simp [hs, he, hl]
  · intro i
    have hb : (deleteRounds (·.id = id) (withoutExpired before id db)).latencyBuckets =
        delete (fun b : BucketRow => b.roundID = id) db.latencyBuckets := by
      change delete (fun b : BucketRow => db.rounds.any fun q => q.id = id && q.id = b.roundID) _ =
        _
      simp only [hgone]
      rfl
    by_cases hi : i = id
    · rw [hi, hc.settledBuckets_self, hb, settledBuckets, he, if_pos rfl, leftRaw, hl]
      apply filter_none
      intro b hmem
      exact (mem_delete.mp hmem).2
    · apply hc.settledBuckets_eq hi
      rw [hb]
      apply filter_delete
      intro b _ hbi
      rw [of_decide_eq_true hbi]
      exact decide_eq_false hi

theorem sameRest_recounted {id : Int} (he : hasExpired before db id = true)
    (hl : left before db id ≠ []) {db' : DB F}
    (hdb' : db' = { withoutExpired before id db with
      rounds := update (·.id = id) (recountedRound (left before db id) (leftRaw before db id))
        db.rounds
      latencyBuckets := delete (·.roundID = id) db.latencyBuckets ++
        buckets id (timedRaw (leftRaw before db id)) }) :
    Cleared before id db db' ∧ SameRest before db db' := by
  have hc : Cleared before id db db' := by
    rw [hdb']
    exact ⟨rfl, rfl⟩
  refine ⟨hc, hc.sameResults, ?_, ?_, ?_, hc.others⟩
  · have hrounds : db'.rounds = update (·.id = id) (recountedRound (left before db id)
        (leftRaw before db id)) db.rounds := by rw [hdb']
    rw [hrounds, update, List.filterMap_map]
    apply List.filterMap_congr
    intro q _
    simp only [Function.comp_apply, decide_eq_true_eq]
    split_ifs with hq
    · rw [hc.settledRound_self (by exact hq), settledRound, hq, he, if_pos rfl, if_neg hl]
    · exact hc.settledRound_eq hq
  · have hsnapshots : db'.evaluationSnapshots = db.evaluationSnapshots := by rw [hdb']; rfl
    rw [hsnapshots]
    apply List.filter_congr
    intro s _
    simp only [isEmptied, hc.hasExpired_eq, hc.left_eq]
    by_cases hs : s.roundID = id <;> simp [hs, hl]
  · intro i
    have hb : db'.latencyBuckets = delete (·.roundID = id) db.latencyBuckets ++
        buckets id (timedRaw (leftRaw before db id)) := by rw [hdb']
    by_cases hi : i = id
    · rw [hi, hc.settledBuckets_self, settledBuckets, he, if_pos rfl, hb, recounted_buckets_self]
    · apply hc.settledBuckets_eq hi
      rw [hb, recounted_buckets_other hi]

/-- Rebuilding a round takes its expired results away and leaves the rest of all rounds. -/
theorem rebuildRound_settles {id : Int} (hw : WellFormed db) (hs : AllDecode db)
    (he : hasExpired before db id = true) :
    ∃ db', rebuildRound id (withoutExpired before id db) = .ok db' ∧ Cleared before id db db' ∧
      SameRest before db db' := by
  unfold rebuildRound
  simp only [rows_withoutExpired, decodes_left hs]
  by_cases hl : left before db id = []
  · simp only [hl, if_true]
    exact ⟨_, rfl, sameRest_emptied hw he hl⟩
  · simp only [hl, if_false]
    exact ⟨_, rfl, sameRest_recounted he hl rfl⟩

theorem rebuildPartial_settles {ids : List Int} (hnd : ids.Nodup) (hw : WellFormed db)
    (hs : AllDecode db) (he : ∀ id ∈ ids, hasExpired before db id = true) :
    ∃ db', rebuildPartial before ids db = .ok db' ∧ SameRest before db db' ∧
      ∀ i, hasExpired before db' i = (hasExpired before db i && i ∉ ids) := by
  induction ids generalizing db with
  | nil => exact ⟨db, rfl, SameRest.refl before db, fun i => by simp⟩
  | cons id ids ih =>
    obtain ⟨hid, hnd⟩ := List.nodup_cons.mp hnd
    obtain ⟨db₁, h₁, hc, hsame⟩ := rebuildRound_settles hw hs (he id (by simp))
    have hw₁ := wellFormed_rebuildRound (wellFormed_deleteResults hw _) h₁
    have hs₁ := allRows_rebuildRound (hs.subset (delete_sublist _ _).subset) h₁
    have he₁ : ∀ i ∈ ids, hasExpired before db₁ i = true := by
      intro i hi
      have hne : i ≠ id := fun h => hid (h ▸ hi)
      rw [hc.hasExpired_eq, he i (by simp [hi])]
      simp [hne]
    obtain ⟨db', h', hsame', hexpired⟩ := ih hnd hw₁ hs₁ he₁
    refine ⟨db', ?_, hsame.trans hsame', ?_⟩
    · rw [rebuildPartial, bind_eq_ok]
      exact ⟨db₁, h₁, h'⟩
    · intro i
      rw [hexpired, hc.hasExpired_eq]
      by_cases hi : i = id <;> simp [hi]

end

end DnsMonitor.Store.Partial
