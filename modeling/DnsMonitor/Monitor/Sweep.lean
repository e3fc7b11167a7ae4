import DnsMonitor.Monitor.Collector
import Mathlib.Data.List.Nodup

namespace DnsMonitor.Monitor.Sweep

open DnsMonitor.Model DnsMonitor.Monitor.Collector
open DnsMonitor.Go.Strings DnsMonitor.Go.Unicode DnsMonitor.Go.Float

def stageRank : Stage → Nat
  | .turn => 14
  | .reading _ => 13
  | .checking => 12
  | .acquiring => 11
  | .granted => 10
  | .ready => 9
  | .checked => 8
  | .probing => 7
  | .looked _ => 6
  | .rereading _ _ => 5
  | .context => 4
  | .interruption => 3
  | .breaking => 2
  | .ending _ => 1

abbrev IsBefore (stage : Stage) : Prop := 8 ≤ stageRank stage

abbrev IsAfter (stage : Stage) : Prop := 4 ≤ stageRank stage ∧ stageRank stage ≤ 6

abbrev IsOver (stage : Stage) : Prop := stageRank stage ≤ 2

def rank (w : Work) (stage : Stage) : Nat := 12 * w.left.length + stageRank stage

/-- Whoever sees it stops: the pool is usable, the context is done, there is a pause or a new
generation. -/
def isStop : Note → Bool
  | .queried _ => false
  | .refused => false
  | _ => true

def asked (notes : List Note) : List Int :=
  notes.filterMap fun
    | .queried serverID => some serverID
    | _ => none

def todo (w : Work) (stage : Stage) : List Int :=
  (if IsBefore stage then w.left else w.left.tail).map (·.id)

structure Forward (cancelled : Bool) (a b : Stage) : Prop where
  rank : stageRank b < stageRank a
  attentive : cancelled = true → stageRank b ≠ 3

inductive Turned (cancelled : Bool) (w : Work) : Stage → Turn → Prop where
  | forward {a b : Stage} (h : Forward cancelled a b) (refs : List Reference) (err : GoString) :
      Turned cancelled w a ({ w with refs, err }.goto b)
  | skip {a : Stage} (h : a = .checking ∨ a = .interruption) : Turned cancelled w a w.skip
  | stops {a : Stage} (h : 2 < stageRank a) (note : Note) (hstop : isStop note = true)
      (refs : List Reference) (err : GoString) :
      Turned cancelled w a ⟨{ w with refs, err }, .breaking, some note⟩
  | refused (err : GoString) : Turned cancelled w .acquiring ⟨w, .looked err, some .refused⟩
  | cancelled {a : Stage} (h : 10 ≤ stageRank a) (hc : cancelled = true) (err : GoString) :
      Turned cancelled w a ⟨w, .looked err, some .cancelled⟩
  | queried (source : Server) (h : w.left.head? = some source) :
      Turned cancelled w .checked ⟨w, .probing, some (.queried source.id)⟩

theorem turned_goto {cancelled : Bool} {w : Work} {a b : Stage} (h : Forward cancelled a b) :
    Turned cancelled w a (w.goto b) := .forward h w.refs w.err

section

variable {F : Type} [GoFloat F] [CaseTables] {v : View F} {hours : F} {domain : Domain} {w : Work}
  {stage : Stage} {m : Move} {t : Turn}

attribute [local simp] stageRank

theorem turned (h : turn v hours domain w stage m = some t) : Turned v.cancelled w stage t := by
  unfold turn at h
  split at h
  · cases h
    exact turned_goto ⟨by simp, by simp⟩
  · dsimp only at h
    split_ifs at h
    · cases h
      exact .forward ⟨by simp, by simp⟩ _ _
    · cases h
      exact .stops (by simp) _ rfl _ _
    · cases h
      exact .forward ⟨by simp, by simp⟩ _ w.err
  · obtain ⟨source, -, rfl⟩ := Option.map_eq_some_iff.mp h
    split_ifs
    · exact turned_goto ⟨by simp, by simp⟩
    · exact .skip (.inl rfl)
  · cases h
    exact turned_goto ⟨by simp, by simp⟩
  · split_ifs at h
    · cases h
      exact .refused _
    · cases h
      exact turned_goto ⟨by simp, by simp⟩
  · split_ifs at h with hc
    cases h
    exact .cancelled (by simp) hc _
  · cases h
    exact turned_goto ⟨by simp, by simp⟩
  · split_ifs at h with hc
    · cases h
      exact .cancelled (by simp) hc _
    · cases h
      exact turned_goto ⟨by simp, by simp⟩
  · obtain ⟨source, -, rfl⟩ := Option.map_eq_some_iff.mp h
    split_ifs
    · exact turned_goto ⟨by simp, by simp⟩
    · exact turned_goto ⟨by simp, by simp⟩
  · obtain ⟨source, hs, rfl⟩ := Option.map_eq_some_iff.mp h
    exact .queried source hs
  · cases h
    exact turned_goto ⟨by simp, by simp⟩
  · cases h
    exact turned_goto ⟨by simp, by simp⟩
  · dsimp only at h
    split_ifs at h
    · cases h
      exact .forward ⟨by simp, by simp⟩ _ _
    · cases h
      exact .stops (by simp) _ rfl _ _
    · cases h
      exact .forward ⟨by simp, by simp⟩ _ _
    · cases h
      exact .forward ⟨by simp, by simp⟩ _ _
  · split_ifs at h with hc
    · cases h
      exact .stops (by simp) _ rfl w.refs w.err
    · cases h
      exact turned_goto ⟨by simp, by simp [hc]⟩
  · split_ifs at h
    · cases h
      exact .stops (by simp) _ rfl w.refs w.err
    · cases h
      exact .stops (by simp) _ rfl w.refs w.err
    · cases h
      exact .skip (.inr rfl)
  · cases h
    exact turned_goto ⟨by simp, by simp⟩
  · cases h

end

/-- What a collection has done so far, and what it may still do. -/
structure Kept (sources : List Int) (notes : List Note) (cancelled : Bool) (w : Work)
    (stage : Stage) : Prop where
  order : (asked notes ++ todo w stage).Sublist sources
  stopped : (∃ n ∈ notes, isStop n = true) → IsOver stage ∨ IsAfter stage ∧ cancelled = true
  left : ¬ IsOver stage → w.left ≠ []

section

variable {sources : List Int} {notes : List Note} {cancelled : Bool} {w : Work} {stage : Stage}
  {t : Turn} {trusted : List Server}

theorem todo_sublist (w : Work) (stage : Stage) : (todo w stage).Sublist (w.left.map (·.id)) := by
  unfold todo
  split_ifs
  · exact .refl _
  · exact (List.tail_sublist _).map _

theorem tail_sublist_todo (w : Work) (stage : Stage) :
    (w.left.tail.map (·.id)).Sublist (todo w stage) := by
  unfold todo
  split_ifs
  · exact (List.tail_sublist _).map _
  · exact .refl _

theorem todo_forward {a b : Stage} (hf : Forward cancelled a b) {w' : Work}
    (hleft : w'.left = w.left) : (todo w' b).Sublist (todo w a) := by
  have hrank := hf.rank
  by_cases hb : IsBefore b
  · have ha : IsBefore a := by omega
    rw [todo, todo, if_pos hb, if_pos ha, hleft]
  · rw [todo, if_neg hb, hleft]
    exact tail_sublist_todo w a

theorem nextStage_over {left : List Server} (h : ¬ IsOver (nextStage left)) : left ≠ [] := by
  rintro rfl
  exact h (by simp [nextStage, stageRank])

theorem kept_start (hleft : w.left = trusted) :
    Kept (trusted.map (·.id)) [] cancelled w (nextStage trusted) where
  order := hleft ▸ todo_sublist w (nextStage trusted)
  stopped := by simp
  left hover := hleft ▸ nextStage_over hover

theorem asked_append (notes l : List Note) : asked (notes ++ l) = asked notes ++ asked l :=
  List.filterMap_append

theorem Kept.quiet (h : Kept sources notes cancelled w stage) {l : List Note}
    (hl : asked l = []) {w' : Work} {stage' : Stage}
    (htodo : (todo w' stage').Sublist (todo w stage))
    (hstopped : (∃ n ∈ notes ++ l, isStop n = true) →
      IsOver stage' ∨ IsAfter stage' ∧ cancelled = true)
    (hleft : ¬ IsOver stage' → w'.left ≠ []) : Kept sources (notes ++ l) cancelled w' stage' where
  order := by
    rw [asked_append, hl, List.append_nil]
    exact (htodo.append_left _).trans h.order
  stopped := hstopped
  left := hleft

theorem Kept.goes_on (h : Kept sources notes cancelled w stage) (hstage : 6 < stageRank stage)
    {n : Note} (hn : n ∈ notes) : isStop n = false := by
  by_contra hstop
  have hnot := h.stopped ⟨n, hn, Bool.eq_true_of_not_eq_false hstop⟩
  omega

theorem kept_turned (h : Kept sources notes cancelled w stage) (ht : Turned cancelled w stage t) :
    Kept sources (notes ++ t.note.toList) cancelled t.work t.stage := by
  cases ht with
  | forward hf refs err =>
    have hrank := hf.rank
    refine h.quiet rfl (todo_forward hf rfl) ?_ ?_
    · intro hstop
      rw [Work.goto, Option.toList, List.append_nil] at hstop
      cases h.stopped hstop with
      | inl hover =>
        left
        exact hrank.le.trans hover
      | inr hafter =>
        obtain ⟨hafter, hc⟩ := hafter
        have hb := hf.attentive hc
        simp only [Work.goto, hc, and_true]
        omega
    · intro hover
      apply h.left
      simp only [Work.goto] at hover
      omega
  | skip ha =>
    refine h.quiet rfl ((todo_sublist _ _).trans (tail_sublist_todo w stage)) ?_ nextStage_over
    intro hstop
    rw [Work.skip, Option.toList, List.append_nil] at hstop
    have hnot := h.stopped hstop
    obtain rfl | rfl := ha <;> simp [IsAfter, IsOver, stageRank] at hnot
  | stops hr note hstop refs err =>
    refine h.quiet ?_ (tail_sublist_todo w stage) (fun _ => .inl le_rfl) fun hover => ?_
    · cases note <;> first | rfl | cases hstop
    · exact absurd le_rfl hover
  | refused err =>
    refine h.quiet rfl (tail_sublist_todo w _) ?_ fun _ => h.left (by simp [stageRank])
    rintro ⟨n, hn, hstop⟩
    cases List.mem_append.mp hn with
    | inl hn => simp [h.goes_on (by simp [stageRank]) hn] at hstop
    | inr hn =>
      rw [List.mem_singleton.mp hn] at hstop
      cases hstop
  | cancelled hr hc err =>
    have hafter : IsAfter (.looked err) := ⟨by simp [stageRank], by simp [stageRank]⟩
    refine h.quiet rfl (tail_sublist_todo w stage) (fun _ => .inr ⟨hafter, hc⟩) fun _ => h.left ?_
    omega
  | queried source hs =>
    obtain ⟨rest, hleft⟩ : ∃ rest, w.left = source :: rest := List.head?_eq_some_iff.mp hs
    have horder := h.order
    refine ⟨?_, ?_, fun _ => h.left (by simp [stageRank])⟩
    · simpa [asked, todo, stageRank, hleft] using horder
    · rintro ⟨n, hn, hstop⟩
      cases List.mem_append.mp hn with
      | inl hn => simp [h.goes_on (by simp [stageRank]) hn] at hstop
      | inr hn =>
        rw [List.mem_singleton.mp hn] at hstop
        cases hstop

theorem mem_asked {serverID : Int} : serverID ∈ asked notes ↔ .queried serverID ∈ notes := by
  simp only [asked, List.mem_filterMap]
  constructor
  · rintro ⟨n, hn, hid⟩
    cases n with
    | queried id =>
      obtain rfl := Option.some.inj hid
      exact hn
    | _ => cases hid
  · exact fun hn => ⟨_, hn, rfl⟩

/-- What is queried is a source of the snapshot that has not been queried, and nothing was seen
that stops the collection. -/
theorem query_of_turned (h : Kept sources notes cancelled w stage) (hnodup : sources.Nodup)
    (ht : Turned cancelled w stage t) {serverID : Int} (hq : t.note = some (.queried serverID)) :
    serverID ∈ sources ∧ .queried serverID ∉ notes ∧ ∀ n ∈ notes, isStop n = false := by
  cases ht with
  | queried source hs =>
    cases hq
    obtain ⟨rest, hleft⟩ : ∃ rest, w.left = source :: rest := List.head?_eq_some_iff.mp hs
    have horder := h.order
    have htodo : todo w .checked = source.id :: rest.map (·.id) := by
      simp [todo, stageRank, hleft]
    rw [htodo] at horder
    refine ⟨horder.subset (by simp), ?_, fun n hn => h.goes_on (by simp [stageRank]) hn⟩
    intro hmem
    have hdisjoint := List.disjoint_of_nodup_append (hnodup.sublist horder)
    exact hdisjoint (mem_asked.mpr hmem) (List.mem_cons_self)
  | stops hr note hstop refs err =>
    cases hq
    cases hstop
  | forward hf refs err => cases hq
  | skip ha => cases hq
  | refused err => cases hq
  | cancelled hr hc err => cases hq

theorem rank_turned (ht : Turned cancelled w stage t) : rank t.work t.stage < rank w stage := by
  cases ht with
  | forward hf refs err => exact Nat.add_lt_add_left hf.rank _
  | skip ha =>
    have hrank : 3 ≤ stageRank stage := by obtain rfl | rfl := ha <;> simp [stageRank]
    cases hleft : w.left with
    | nil =>
      have hnext : stageRank (nextStage []) = 2 := rfl
      simp only [rank, Work.skip, hleft, List.tail_nil, hnext]
      omega
    | cons source rest =>
      have hnext : stageRank (nextStage rest) ≤ 14 := by
        unfold nextStage
        split_ifs <;> simp [stageRank]
      simp only [rank, Work.skip, hleft, List.tail_cons, List.length_cons]
      omega
  | stops hr note hstop refs err => exact Nat.add_lt_add_left hr _
  | refused err => exact Nat.add_lt_add_left (by simp [stageRank]) _
  | cancelled hr hc err =>
    have hlooked : stageRank (.looked err) < 10 := by simp [stageRank]
    exact Nat.add_lt_add_left (hlooked.trans_le hr) _
  | queried source hs => exact Nat.add_lt_add_left (by simp [stageRank]) _

theorem rank_pos (w : Work) (stage : Stage) : 0 < rank w stage := by
  have hstage : 0 < stageRank stage := by cases stage <;> simp [stageRank]
  exact Nat.add_pos_right _ hstage

theorem turned_same (ht : Turned cancelled w stage t) : t.work.key = w.key ∧
    t.work.state = w.state ∧ t.work.done = w.done ∧ t.work.generation = w.generation := by
  cases ht <;> exact ⟨rfl, rfl, rfl, rfl⟩

end

theorem exists_move {F : Type} [GoFloat F] [CaseTables] (v : View F) (hours : F) (domain : Domain)
    {w : Work} {stage : Stage} (hleft : ¬ IsOver stage → w.left ≠ [])
    (hnot : ∀ finished, stage ≠ .ending finished) :
    ∃ m, (turn v hours domain w stage m).isSome = true := by
  have hsource : ¬ IsOver stage → ∃ source, w.left.head? = some source :=
    fun hover => ⟨_, List.head?_eq_some_head (hleft hover)⟩
  cases stage with
  | turn => exact ⟨.clock, rfl⟩
  | reading now => exact ⟨.readPool [], rfl⟩
  | checking =>
    obtain ⟨source, hs⟩ := hsource (by simp [stageRank])
    exact ⟨.getServer true, by simp [turn, hs]⟩
  | acquiring => exact ⟨.hit, rfl⟩
  | granted => exact ⟨.hit, rfl⟩
  | ready =>
    obtain ⟨source, hs⟩ := hsource (by simp [stageRank])
    exact ⟨.getServer true, by simp [turn, hs]⟩
  | checked =>
    obtain ⟨source, hs⟩ := hsource (by simp [stageRank])
    exact ⟨.probe, by simp [turn, hs]⟩
  | probing => exact ⟨.answer [], rfl⟩
  | looked lookupErr => exact ⟨.clock, rfl⟩
  | rereading lookupErr now => exact ⟨.readPool [], rfl⟩
  | context => exact ⟨.context, rfl⟩
  | interruption => exact ⟨.lock, rfl⟩
  | breaking => exact ⟨.clock, rfl⟩
  | ending finished => exact absurd rfl (hnot finished)

end DnsMonitor.Monitor.Sweep
