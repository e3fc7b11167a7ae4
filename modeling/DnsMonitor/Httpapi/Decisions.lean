import DnsMonitor.Httpapi.Preview
import DnsMonitor.Store.WellFormed

namespace DnsMonitor.Httpapi.Decisions

open DnsMonitor.Model DnsMonitor.Monitor.Endpoint DnsMonitor.Monitor.Keys
open DnsMonitor.Httpapi.ServerCsv DnsMonitor.Httpapi.Preview
open DnsMonitor.Store.Schema DnsMonitor.Store.Servers DnsMonitor.Store.Migration
open DnsMonitor.Store.WellFormed DnsMonitor.Lib.Tables
open DnsMonitor.Go.Strings DnsMonitor.Go.Unicode DnsMonitor.Go.Errors

structure Listing where
  servers : List Server
  seq : Int
deriving DecidableEq

/-- Every duplicate row is decided once, and no other. -/
structure Decided (rows : List PreviewRow) (decisions : List ImportDecision) : Prop where
  action : ∀ d ∈ decisions, d.action = str "skip" ∨ d.action = str "overwrite"
  distinct : (decisions.map (·.row)).Nodup
  duplicate : ∀ d ∈ decisions, ∃ row ∈ rows, (row.row : Int) = d.row ∧ row.duplicate = true
  complete : ∀ row ∈ rows, row.duplicate = true → (row.row : Int) ∈ decisions.map (·.row)

def overwrites (decisions : List ImportDecision) (row : PreviewRow) : Bool :=
  row.duplicate && decisions.any fun d => d.row = row.row && d.action = str "overwrite"

/-- The server `old` with the values of `new`, but for its id, its creation and the columns that
the header has not. -/
def overwritten (columns : List (GoString × Nat)) (new old : Server) : Server :=
  updatedServer (mergeExisting columns old new) old

section

variable [CaseTables]

/-- One row: a new server, the server with its key overwritten, or nothing. -/
def importRow (columns : List (GoString × Nat)) (now : Int) (decisions : List ImportDecision)
    (l : Listing) (row : PreviewRow) : Listing :=
  if row.duplicate = false then
    { servers := l.servers ++
        [{ row.server with id := l.seq + 1, createdAt := now, trustEpoch := 0 }]
      seq := l.seq + 1 }
  else if overwrites decisions row then
    { l with servers := update (hasKey row.key) (overwritten columns row.server) l.servers }
  else l

end

def action (decisions : List ImportDecision) (row : PreviewRow) : GoString :=
  if row.duplicate then if overwrites decisions row then str "overwrite" else str "skip"
  else str "create"

def itemOf (decisions : List ImportDecision) (row : PreviewRow) : ServerImportItem :=
  { row := row.row, key := row.key, action := action decisions row, server := row.server }

variable {rows : List PreviewRow} {decisions : List ImportDecision}

theorem lookup_of_mem {κ α : Type} [DecidableEq κ] {m : List (κ × α)} {k : κ} {a : α}
    (hm : (m.map (·.1)).Nodup) (h : (k, a) ∈ m) : m.lookup k = some a := by
  induction m with
  | nil => simp at h
  | cons p m ih =>
    obtain ⟨hp, hm⟩ := List.nodup_cons.mp hm
    cases List.mem_cons.mp h with
    | inl h => simp [← h]
    | inr h =>
      have hne : k ≠ p.1 := fun he => hp (List.mem_map.mpr ⟨(k, a), h, he⟩)
      rw [List.lookup_cons, beq_eq_false_iff_ne.mpr hne]
      exact ih hm h

theorem lookup_eq_none_of {κ α : Type} [DecidableEq κ] {m : List (κ × α)} {k : κ}
    (h : k ∉ m.map (·.1)) : m.lookup k = none := by
  induction m with
  | nil => rfl
  | cons p m ih =>
    simp only [List.map_cons, List.mem_cons, not_or] at h
    rw [List.lookup_cons, beq_eq_false_iff_ne.mpr h.1]
    exact ih h.2

def decisionEntry (d : ImportDecision) : Int × GoString := (d.row, d.action)

theorem readDecisions_eq {acc : List (Int × GoString)}
    (haction : ∀ d ∈ decisions, d.action = str "skip" ∨ d.action = str "overwrite")
    (hrow : ∀ d ∈ decisions, 1 ≤ d.row ∧ d.row ≤ rows.length ∧
      (rows[(d.row - 1).toNat]?).any (·.duplicate) = true)
    (hdistinct : (decisions.map (·.row)).Nodup)
    (hacc : ∀ d ∈ decisions, d.row ∉ acc.map (·.1)) :
    readDecisions rows acc decisions = .ok ((decisions.map decisionEntry).reverse ++ acc) := by
  induction decisions generalizing acc with
  | nil => rfl
  | cons d rest ih =>
    rw [List.forall_mem_cons] at haction hrow hacc
    obtain ⟨hd, hrest⟩ := List.nodup_cons.mp hdistinct
    obtain ⟨h1, h2, h3⟩ := hrow.1
    rw [readDecisions, require, if_pos ⟨h1, h2, haction.1⟩, require,
      if_pos (lookup_eq_none_of hacc.1), require, if_pos h3]
    simp only [bind, Except.bind]
    rw [ih haction.2 hrow.2 hrest]
    · simp [decisionEntry]
    · intro e he hmem
      cases List.mem_cons.mp hmem with
      | inl h => exact hd (h ▸ List.mem_map_of_mem he)
      | inr h => exact hacc.2 e he h

def Numbered (rows : List PreviewRow) : Prop :=
  ∀ before row after, rows = before ++ row :: after → row.row = before.length + 1

theorem Numbered.getElem {row : PreviewRow} (h : Numbered rows) (hrow : row ∈ rows) :
    row.row ≤ rows.length ∧ 1 ≤ row.row ∧ rows[row.row - 1]? = some row := by
  obtain ⟨before, after, hsplit⟩ := List.append_of_mem hrow
  have hn := h before row after hsplit
  subst hsplit
  simp [hn]

theorem importItemOf_eq {m : List (Int × GoString)} {row : PreviewRow}
    (h : row.duplicate = true → m.lookup (row.row : Int) = some (action decisions row)) :
    importItemOf m row = .ok (itemOf decisions row) := by
  cases hd : row.duplicate with
  | false => simp [importItemOf, itemOf, action, hd]
  | true => simp [importItemOf, itemOf, hd, h hd]

theorem action_eq (h : Decided rows decisions) {d : ImportDecision} (hd : d ∈ decisions)
    {row : PreviewRow} (hrow : d.row = row.row) (hdup : row.duplicate = true) :
    action decisions row = d.action := by
  have hunique : ∀ e ∈ decisions, e.row = row.row → e = d := fun e he hr =>
    List.inj_on_of_nodup_map h.distinct he hd (hr.trans hrow.symm)
  cases h.action d hd with
  | inl hs =>
    have hno : overwrites decisions row = false := by
      rw [overwrites, hdup, Bool.true_and, List.any_eq_false]
      intro e he hcond
      simp only [Bool.and_eq_true, decide_eq_true_eq] at hcond
      rw [hunique e he hcond.1, hs] at hcond
      exact absurd hcond.2 (by decide)
    simp [action, hdup, hno, hs]
  | inr ho =>
    have hyes : overwrites decisions row = true := by
      rw [overwrites, hdup, Bool.true_and, List.any_eq_true]
      exact ⟨d, hd, by simp [hrow, ho]⟩
    simp [action, hdup, hyes, ho]

theorem readDecisions_items (hn : Numbered rows) (h : Decided rows decisions) :
    ∃ m, readDecisions rows [] decisions = .ok m ∧
      rows.mapM (importItemOf m) = .ok (rows.map (itemOf decisions)) := by
  refine ⟨_, readDecisions_eq h.action ?_ h.distinct (by simp), ?_⟩
  · intro d hd
    obtain ⟨row, hrow, hnum, hdup⟩ := h.duplicate d hd
    obtain ⟨hle, hpos, hget⟩ := hn.getElem hrow
    have hindex : (d.row - 1).toNat = row.row - 1 := by omega
    refine ⟨by omega, by omega, ?_⟩
    rw [hindex, hget, Option.any_some, hdup]
  · apply mapM_eq_ok
    intro row hrow
    apply importItemOf_eq
    intro hdup
    obtain ⟨d, hd, hnum⟩ := List.mem_map.mp (h.complete row hrow hdup)
    rw [List.append_nil, action_eq h hd hnum hdup]
    apply lookup_of_mem
    · have hfst : (·.1) ∘ decisionEntry = ImportDecision.row := rfl
      rw [List.map_reverse, List.map_map, List.nodup_reverse, hfst]
      exact h.distinct
    · rw [List.mem_reverse, ← hnum]
      exact List.mem_map_of_mem (f := decisionEntry) hd

end DnsMonitor.Httpapi.Decisions
