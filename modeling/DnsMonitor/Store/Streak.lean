import DnsMonitor.Store.Schedule

namespace DnsMonitor.Store.Streak

open DnsMonitor.Model DnsMonitor.Lib.Tables DnsMonitor.Store.Schema DnsMonitor.Store.Current
open DnsMonitor.Store.Rounds DnsMonitor.Store.Override DnsMonitor.Store.Migration
open DnsMonitor.Store.Run
open DnsMonitor.Store.WellFormed DnsMonitor.Store.Schedule
open DnsMonitor.Go.Unicode DnsMonitor.Go.Errors DnsMonitor.Go.Float

section

variable {F : Type}

/-- The last finish time of a round with an answer, zero when there is none. -/
def lastAnswered (rows : List (RoundRow F)) : Int :=
  (((rows.filter (0 < ·.received)).map (·.finishedAt)).max?).getD 0

def unanswered (since : Int) (rows : List (RoundRow F)) : Nat :=
  (rows.filter fun r => r.received = 0 && since < r.finishedAt).length

def lastProbe (rows : List (RoundRow F)) : Int :=
  match latest timeKey rows with
  | some r => r.finishedAt
  | none => 0

def summaryFailures (db : DB F) (serverID : Int) : Int :=
  let rows := formal serverID db.rounds
  if 0 < lastProbe rows then unanswered (lastAnswered rows) rows else 0

/-- What a round says about the server: a later round only changes how long it counts. -/
structure Outcome where
  id : Int
  finishedAt : Int
  samples : Nat
  received : Nat
  successes : Nat

def outcome (r : RoundRow F) : Outcome :=
  ⟨r.id, r.finishedAt, r.samples, r.received, r.successes⟩

def outcomes (serverID : Int) (db : DB F) : List Outcome := (formal serverID db.rounds).map outcome

def Outcome.key (o : Outcome) : Int ×ₗ Int := toLex (o.finishedAt, o.id)

def Outcome.isFailure (o : Outcome) : Bool := 0 < o.samples && o.successes = 0

def unreachableAt (now : Int) (os : List Outcome) : Bool :=
  (latest Outcome.key (os.filter (·.finishedAt ≤ now))).any (·.isFailure)

def answeredUntil (os : List Outcome) : Int :=
  (((os.filter (0 < ·.received)).map (·.finishedAt)).max?).getD 0

def streak (os : List Outcome) : Nat :=
  (os.filter fun o => o.received = 0 && answeredUntil os < o.finishedAt).length

theorem isUnreachable_eq (db : DB F) (serverID now : Int) :
    isUnreachable db serverID now = unreachableAt now (outcomes serverID db) := by
  have hf : (outcomes serverID db).filter (·.finishedAt ≤ now) =
      ((formal serverID db.rounds).filter (·.finishedAt ≤ now)).map outcome := by
    rw [outcomes, List.filter_map]
    rfl
  rw [isUnreachable, unreachableAt, hf, latest_map (k := timeKey) fun _ => by rfl]
  rw [latestRound]
  cases latest timeKey ((formal serverID db.rounds).filter (·.finishedAt ≤ now)) with
  | none => rfl
  | some r => rfl

theorem answeredUntil_eq (db : DB F) (serverID : Int) :
    answeredUntil (outcomes serverID db) = lastAnswered (formal serverID db.rounds) := by
  rw [answeredUntil, outcomes, List.filter_map, List.map_map]
  rfl

theorem summaryFailures_eq {db : DB F} (hw : WellFormed db) (serverID : Int) :
    summaryFailures db serverID = streak (outcomes serverID db) := by
  have hs : streak (outcomes serverID db) =
      unanswered (lastAnswered (formal serverID db.rounds)) (formal serverID db.rounds) := by
    rw [streak, answeredUntil_eq, outcomes, List.filter_map, List.length_map]
    rfl
  rw [summaryFailures, hs, lastProbe]
  cases h : latest timeKey (formal serverID db.rounds) with
  | none =>
    rw [latest_eq_none.mp h]
    rfl
  | some r =>
    have hr : 0 < r.finishedAt :=
      hw.round_time _ (List.mem_map_of_mem (mem_formal.mp (latest_eq_some h).1).1)
    simp [hr]

end

variable {os : List Outcome} {o : Outcome} {now : Int}

theorem key_lt {p q : Outcome} : p.key < q.key ↔
    p.finishedAt < q.finishedAt ∨ p.finishedAt = q.finishedAt ∧ p.id < q.id := by
  simp [Outcome.key, Prod.Lex.toLex_lt_toLex]

theorem latest_append (now : Int) (os : List Outcome) (o : Outcome) :
    latest Outcome.key ((os ++ [o]).filter (·.finishedAt ≤ now)) =
      if o.finishedAt ≤ now then
        match latest Outcome.key (os.filter (·.finishedAt ≤ now)) with
        | none => some o
        | some q => if q.key < o.key then some o else some q
      else latest Outcome.key (os.filter (·.finishedAt ≤ now)) := by
  rw [List.filter_append, List.filter_singleton]
  by_cases h : o.finishedAt ≤ now
  · simp only [h, decide_true, cond_true, if_true]
    rw [latest_concat]
    cases latest Outcome.key (os.filter (·.finishedAt ≤ now)) with
    | none => rfl
    | some q => rfl
  · simp [h]

theorem unreachableAt_congr {t : Int} (ht : t ≤ now)
    (h : ∀ q ∈ os, q.finishedAt ≤ now → q.finishedAt ≤ t) :
    unreachableAt now os = unreachableAt t os := by
  have hf : os.filter (·.finishedAt ≤ now) = os.filter (·.finishedAt ≤ t) := by
    apply List.filter_congr
    intro q hq
    exact decide_eq_decide.mpr ⟨h q hq, fun hle => hle.trans ht⟩
  rw [unreachableAt, hf, unreachableAt]

theorem unreachableAt_own (hid : ∀ q ∈ os, q.id < o.id) :
    unreachableAt o.finishedAt (os ++ [o]) = o.isFailure := by
  rw [unreachableAt, latest_append, if_pos le_rfl]
  cases hq : latest Outcome.key (os.filter (·.finishedAt ≤ o.finishedAt)) with
  | none => rfl
  | some q =>
    obtain ⟨hmem, hle⟩ := List.mem_filter.mp (latest_eq_some hq).1
    have hlt := hid q hmem
    have hle := of_decide_eq_true hle
    have hkey : q.key < o.key := key_lt.mpr (by omega)
    simp only [hkey, if_true]
    rfl

/-- A new round makes a server unreachable, at some time, only when it found it so and the
server was not unreachable already when it finished. -/
theorem unreachableAt_append (hid : ∀ q ∈ os, q.id < o.id) :
    (∀ now, unreachableAt now (os ++ [o]) = true → unreachableAt now os = true) ↔
      (o.isFailure = true → unreachableAt o.finishedAt os = true) := by
  constructor
  · intro h hf
    apply h
    rw [unreachableAt_own hid, hf]
  · intro h now hu
    rw [unreachableAt, latest_append] at hu
    by_cases ht : o.finishedAt ≤ now
    · rw [if_pos ht] at hu
      cases hq : latest Outcome.key (os.filter (·.finishedAt ≤ now)) with
      | none =>
        simp only [hq] at hu
        rw [unreachableAt_congr ht, h hu]
        intro q hmem hle
        have hnone := latest_eq_none.mp hq
        simp only [List.filter_eq_nil_iff, decide_eq_true_eq] at hnone
        exact absurd hle (hnone q hmem)
      | some m =>
        simp only [hq] at hu
        by_cases hkey : m.key < o.key
        · simp only [hkey, if_true] at hu
          rw [unreachableAt_congr ht, h hu]
          intro q hmem hle
          have hmax := (latest_eq_some hq).2 q (List.mem_filter.mpr ⟨hmem, decide_eq_true hle⟩)
          have hlt := key_lt.mp (hmax.trans_lt hkey)
          omega
        · simp only [hkey, if_false] at hu
          rw [unreachableAt, hq]
          exact hu
    · rw [if_neg ht] at hu
      exact hu

theorem answeredUntil_append (os : List Outcome) (ho : 0 < o.finishedAt) :
    answeredUntil (os ++ [o]) =
      if 0 < o.received then max (answeredUntil os) o.finishedAt else answeredUntil os := by
  rw [answeredUntil, List.filter_append, List.filter_singleton, answeredUntil]
  by_cases h : 0 < o.received
  · simp only [h, decide_true, cond_true, List.map_append, List.map_singleton, if_true]
    cases (os.filter (0 < ·.received)).map (·.finishedAt) with
    | nil => simp [ho.le]
    | cons t ts =>
      rw [List.cons_append, List.max?_cons', List.max?_cons', List.foldl_append]
      rfl
  · simp [h]

theorem answeredUntil_lt {t : Int} (ht : 0 < t) (h : ∀ q ∈ os, q.finishedAt < t) :
    answeredUntil os < t := by
  rw [answeredUntil]
  cases hm : ((os.filter (0 < ·.received)).map (·.finishedAt)).max? with
  | none => exact ht
  | some m =>
    obtain ⟨q, hq, rfl⟩ := List.mem_map.mp (List.max?_eq_some_iff.mp hm).1
    exact h q (List.mem_filter.mp hq).1

/-- A new round makes the streak longer only when it has no answer and finished after every
answer. -/
theorem streak_append_le (ho : 0 < o.finishedAt) :
    streak (os ++ [o]) ≤ streak os ↔ (o.received = 0 → o.finishedAt ≤ answeredUntil os) := by
  rw [streak, answeredUntil_append os ho, List.filter_append, List.length_append,
    List.filter_singleton]
  by_cases hr : o.received = 0
  · by_cases ht : answeredUntil os < o.finishedAt
    · simp [hr, ht, streak]
    · simp [hr, ht, streak, Int.not_lt.mp ht]
  · have hpos : 0 < o.received := Nat.pos_of_ne_zero hr
    simp only [hpos, if_true, hr, decide_false, Bool.false_and, cond_false, List.length_nil,
      Nat.add_zero, false_imp_iff, iff_true]
    apply List.Sublist.length_le
    apply List.monotone_filter_right
    intro q hq
    simp only [Bool.and_eq_true, decide_eq_true_eq] at hq ⊢
    exact ⟨hq.1, (le_max_left _ _).trans_lt hq.2⟩

theorem streak_append_last (ho : 0 < o.finishedAt) (hlast : ∀ q ∈ os, q.finishedAt < o.finishedAt) :
    streak (os ++ [o]) = if o.received = 0 then streak os + 1 else 0 := by
  have hlt := answeredUntil_lt ho hlast
  rw [streak, answeredUntil_append os ho]
  by_cases hr : o.received = 0
  · simp [hr, hlt, streak, List.filter_append]
  · have hpos : 0 < o.received := Nat.pos_of_ne_zero hr
    rw [if_pos hpos, if_neg hr, max_eq_right hlt.le, List.length_eq_zero_iff,
      List.filter_eq_nil_iff]
    intro q hq
    simp only [Bool.and_eq_true, decide_eq_true_eq, not_and]
    intro _
    cases List.mem_append.mp hq with
    | inl hq =>
      have := hlast q hq
      omega
    | inr hq => rw [List.mem_singleton.mp hq]; omega

section

variable {F : Type} [GoFloat F] [CaseTables] {db db' : DB F} {v : Round F} {serverID : Int}

theorem outcomes_saveRound (hv : isScheduled serverID v = true) (h : saveRound db v = .ok db') :
    outcomes serverID db' = outcomes serverID db ++ [outcome (newRound db v)] := by
  obtain ⟨_, _, _, snapshots, rfl⟩ := saveRound_ok h
  exact formal_map_insertRound (fun _ _ => rfl) hv db

theorem outcomes_saveRound_other (hw : WellFormed db) (hv : isScheduled serverID v = false)
    (h : saveRound db v = .ok db') : outcomes serverID db' = outcomes serverID db := by
  obtain ⟨_, _, _, snapshots, rfl⟩ := saveRound_ok h
  exact congrArg (List.map outcome) (formal_insertRound_other hw hv)

theorem outcome_fresh {o : Outcome} (h : o ∈ outcomes serverID db) :
    o.id < (outcome (newRound db v)).id := by
  obtain ⟨q, hq, rfl⟩ := List.mem_map.mp h
  exact newRoundID_fresh (mem_formal.mp hq).1

omit [GoFloat F] [CaseTables] in
theorem outcomes_putOverride (db : DB F) (v : Override) :
    outcomes serverID (putOverride db v) = outcomes serverID db := by
  rw [outcomes, formal, putOverride, filter_update fun _ => by rfl, map_update fun _ => by rfl]
  rfl

omit [GoFloat F] [CaseTables] in
theorem outcomes_deleteServer {id : Int} (h : id ≠ serverID) (db : DB F) :
    outcomes serverID (deleteServerRows id db) = outcomes serverID db := by
  have hf : formal serverID (deleteServerRows id db).rounds = formal serverID db.rounds := by
    apply filter_delete
    intro r _ hr
    simp only [Bool.and_eq_true, decide_eq_true_eq] at hr
    simp [hr.1, Ne.symm h]
  rw [outcomes, hf, outcomes]

def keepsSchedule (serverID : Int) : Event F → Bool
  | .deleteServer id => id ≠ serverID
  | .saveRound v => !isScheduled serverID v
  | .cleanup _ _ => false
  | _ => true

theorem outcomes_apply {e : Event F} (hw : WellFormed db) (he : keepsSchedule serverID e = true)
    (h : apply db e = .ok db') : outcomes serverID db' = outcomes serverID db := by
  cases e with
  | saveConfig c =>
    obtain rfl := saveConfig_ok h
    rfl
  | saveServer now v =>
    cases saveServer_ok h with
    | inl hi => exact hi.2 ▸ rfl
    | inr hu => exact hu.2.2 ▸ rfl
  | deleteServer id => exact deleteServer_ok h ▸ outcomes_deleteServer (of_decide_eq_true he) db
  | importServers now snapshot items =>
    simp only [apply, map_eq_ok] at h
    obtain ⟨r, hr, rfl⟩ := h
    exact importServers_invariant (P := fun db' => outcomes serverID db' = outcomes serverID db)
      (fun _ _ _ h => h) (fun _ _ h => h) rfl hr
  | saveRound v =>
    rw [keepsSchedule, Bool.not_eq_true'] at he
    exact outcomes_saveRound_other hw he h
  | saveOverride now v => exact (saveOverride_ok h).2 ▸ outcomes_putOverride db _
  | saveTrustedObservation server result =>
    obtain ⟨rows, rfl⟩ := saveTrustedObservation_ok h
    rfl
  | pruneTrustedReferences now hours =>
    obtain ⟨rows, rfl⟩ := pruneTrustedReferences_ok h
    exact rfl
  | cleanup before t => cases he

theorem outcomes_step {e : Event F} (hw : WellFormed db) (he : keepsSchedule serverID e = true) :
    outcomes serverID (Run.step db e) = outcomes serverID db := by
  cases h : apply db e with
  | error err => simp [Run.step, h]
  | ok db' =>
    rw [step_of_ok h]
    exact outcomes_apply hw he h

theorem outcomes_run (hw : WellFormed db) {es : List (Event F)}
    (he : ∀ e ∈ es, keepsSchedule serverID e = true) :
    outcomes serverID (Lib.Runs.run Run.step db es) = outcomes serverID db := by
  apply (Lib.Runs.run_invariant_of (C := fun e => keepsSchedule serverID e = true)
    (P := fun db' => WellFormed db' ∧ outcomes serverID db' = outcomes serverID db) ?_
    ⟨hw, rfl⟩ he).2
  intro db₁ e he h
  exact ⟨wellFormed_run h.1 [e], (outcomes_step h.1 he).trans h.2⟩

end

end DnsMonitor.Store.Streak
