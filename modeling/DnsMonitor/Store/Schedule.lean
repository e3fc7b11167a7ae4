import DnsMonitor.Store.WellFormed

namespace DnsMonitor.Store.Schedule

open DnsMonitor.Model DnsMonitor.Lib.Tables DnsMonitor.Store.Schema DnsMonitor.Store.Rounds
open DnsMonitor.Store.Migration DnsMonitor.Store.WellFormed
open DnsMonitor.Go.Unicode DnsMonitor.Go.Float

section

variable {F : Type} {db : DB F}

def isScheduled (serverID : Int) (v : Round F) : Bool := v.serverID = serverID && !v.auxiliary

def truncate (id finishedAt : Int) (rows : List (RoundRow F)) : List (RoundRow F) :=
  update (fun r => r.id = id) (fun r => { r with coveredUntil := min r.nextDue finishedAt }) rows

theorem formal_append (serverID : Int) (rows more : List (RoundRow F)) :
    formal serverID (rows ++ more) = formal serverID rows ++ formal serverID more :=
  List.filter_append rows more

theorem formal_truncate (serverID id finishedAt : Int) (rows : List (RoundRow F)) :
    formal serverID (truncate id finishedAt rows) =
      truncate id finishedAt (formal serverID rows) := by
  apply filter_update
  intro r
  rfl

theorem formal_ids (hw : WellFormed db) (serverID : Int) :
    ((formal serverID db.rounds).map (·.id)).Nodup :=
  hw.round_ids.sublist (List.filter_sublist.map _)

end

section

variable {F : Type} [GoFloat F] [CaseTables] {db : DB F} {v : Round F} {serverID : Int}

theorem formal_newRound (h : isScheduled serverID v = true) (db : DB F) :
    formal serverID [newRound db v] = [newRound db v] := by
  simp only [isScheduled, Bool.and_eq_true, decide_eq_true_eq, Bool.not_eq_true'] at h
  simp [formal, newRound, roundRow, h]

theorem predecessor_eq (h : isScheduled serverID v = true) (db : DB F) :
    predecessor (newRoundID db) v (db.rounds ++ [newRound db v]) =
      latest timeKey ((formal serverID db.rounds).filter (·.finishedAt ≤ v.finishedAt)) := by
  have hs : v.serverID = serverID := by
    simp only [isScheduled, Bool.and_eq_true, decide_eq_true_eq] at h
    exact h.1
  have hnew : (newRound db v).id = newRoundID db := rfl
  rw [predecessor, hs, formal_append, formal_newRound h, List.filter_append]
  congr 1
  rw [List.filter_singleton]
  simp only [hnew, ne_eq, not_true_eq_false, decide_false, Bool.false_and, cond_false,
    List.append_nil]
  apply List.filter_congr
  intro r hr
  have hlt := newRoundID_fresh (mem_formal.mp hr).1
  have hne : r.id ≠ newRoundID db := by omega
  simp [hne]

theorem formal_insertRound (h : isScheduled serverID v = true) (db : DB F) :
    formal serverID (insertRound db v).rounds =
      match latest timeKey ((formal serverID db.rounds).filter (·.finishedAt ≤ v.finishedAt)) with
      | some p => truncate p.id v.finishedAt (formal serverID db.rounds ++ [newRound db v])
      | none => formal serverID db.rounds ++ [newRound db v] := by
  have ha : v.auxiliary = false := by
    simp only [isScheduled, Bool.and_eq_true, Bool.not_eq_true'] at h
    exact h.2
  simp only [insertRound, ha, Bool.false_eq_true, if_false, truncatePredecessor,
    predecessor_eq h]
  cases latest timeKey ((formal serverID db.rounds).filter (·.finishedAt ≤ v.finishedAt)) with
  | none =>
    rw [formal_append, formal_newRound h]
  | some p =>
    change formal serverID (truncate p.id v.finishedAt (db.rounds ++ [newRound db v])) = _
    rw [formal_truncate, formal_append, formal_newRound h]

theorem formal_insertRound_other (hw : WellFormed db) (h : isScheduled serverID v = false) :
    formal serverID (insertRound db v).rounds = formal serverID db.rounds := by
  have hnew : formal serverID [newRound db v] = [] := by
    simp only [isScheduled, Bool.and_eq_false_iff, decide_eq_false_iff_not, Bool.not_eq_false'] at h
    simp only [formal, newRound, roundRow, List.filter_singleton]
    cases h with
    | inl h => simp [h]
    | inr h => simp [h]
  simp only [insertRound]
  by_cases ha : v.auxiliary = true
  · rw [if_pos ha, formal_append, hnew, List.append_nil]
  · rw [if_neg ha, truncatePredecessor]
    have hs : v.serverID ≠ serverID := by
      rintro rfl
      simp [isScheduled, ha] at h
    cases hp : predecessor (newRoundID db) v (db.rounds ++ [newRound db v]) with
    | none => rw [formal_append, hnew, List.append_nil]
    | some p =>
      change formal serverID (truncate p.id v.finishedAt (db.rounds ++ [newRound db v])) = _
      rw [formal_truncate, formal_append, hnew, List.append_nil]
      apply update_of_none
      intro r hr
      -- the round that is cut belongs to the schedule of another server
      obtain ⟨hr, hrs, _⟩ := mem_formal.mp hr
      obtain ⟨hpf, hpid⟩ := List.mem_filter.mp (latest_eq_some hp).1
      obtain ⟨hpm, hps, _⟩ := mem_formal.mp hpf
      have hpdb : p ∈ db.rounds := by
        cases List.mem_append.mp hpm with
        | inl hpm => exact hpm
        | inr hpm =>
          rw [List.mem_singleton.mp hpm] at hpid
          simp [newRound, roundRow] at hpid
      simp only [decide_eq_false_iff_not]
      intro he
      rw [List.inj_on_of_nodup_map hw.round_ids hr hpdb he] at hrs
      exact hs (hps.symm.trans hrs)

theorem formal_insert_ids (hw : WellFormed db) (serverID : Int) (v : Round F) :
    ((formal serverID db.rounds ++ [newRound db v]).map (·.id)).Nodup := by
  rw [List.map_append]
  apply (formal_ids hw serverID).append (by simp)
  intro id hid hnew
  obtain ⟨q, hq, rfl⟩ := List.mem_map.mp hid
  have hlt := newRoundID_fresh (mem_formal.mp hq).1
  have he : q.id = newRoundID db := List.mem_singleton.mp hnew
  omega

theorem formal_map_insertRound {β : Type} {g : RoundRow F → β}
    (hg : ∀ q n, g { q with coveredUntil := n } = g q) (h : isScheduled serverID v = true)
    (db : DB F) : (formal serverID (insertRound db v).rounds).map g =
      (formal serverID db.rounds).map g ++ [g (newRound db v)] := by
  rw [formal_insertRound h]
  split
  · rw [truncate, map_update fun q => hg q _, List.map_append, List.map_singleton]
  · rw [List.map_append, List.map_singleton]

end

end DnsMonitor.Store.Schedule
