import DnsMonitor.Store.Paging

namespace DnsMonitor.Store.Walking

open DnsMonitor.Model DnsMonitor.Lib DnsMonitor.Lib.Tables DnsMonitor.Lib.Pages
open DnsMonitor.Store.Schema DnsMonitor.Store.Migration DnsMonitor.Store.Run
open DnsMonitor.Store.Paging
open DnsMonitor.Go.Strings DnsMonitor.Go.Unicode DnsMonitor.Go.Errors DnsMonitor.Go.Float

section

variable {F : Type} {db db' : DB F} {serverID since snapshotID before beforeID : Int}

def isAsked (serverID since snapshotID : Int) (r : ResultRow F) : Bool :=
  since ≤ r.timestamp && r.id ≤ snapshotID && (serverID ≤ 0 || r.serverID = serverID)

def asked (serverID since snapshotID : Int) (db : DB F) : List (ResultRow F) :=
  db.results.filter (isAsked serverID since snapshotID)

def firstKey : Int ×ₗ Int := toLex (maxInt64, maxInt64)

theorem filter_walkCondition (db : DB F) :
    db.results.filter (walkCondition serverID since snapshotID before beforeID) =
      (asked serverID since snapshotID db).filter
        fun r => resultKey r < toLex (before, beforeID) := by
  rw [asked, List.filter_filter]
  apply List.filter_congr
  intro r _
  have hb : decide (resultKey r < toLex (before, beforeID)) = isBelow before beforeID r := by
    rw [Bool.eq_iff_iff, decide_eq_true_iff, isBelow_iff]
  rw [hb, walkCondition, isAsked]
  cases isBelow before beforeID r <;> simp

/-- What a later database still has of the rows asked for, the earlier one had. -/
theorem asked_later (h : Later db db') (hs : snapshotID ≤ db.resultSeq) {q : ResultRow F}
    (hq : q ∈ asked serverID since snapshotID db') :
    ∃ r ∈ asked serverID since snapshotID db, resultKey r = resultKey q := by
  obtain ⟨hq, hasked⟩ := List.mem_filter.mp hq
  have hid : q.id ≤ snapshotID := by
    simp only [isAsked, Bool.and_eq_true, decide_eq_true_eq] at hasked
    exact hasked.1.2
  obtain ⟨r, hr, hrid, hrs, hrt⟩ := h.rows q hq (hid.trans hs)
  refine ⟨r, List.mem_filter.mpr ⟨hr, ?_⟩, by rw [resultKey, resultKey, hrid, hrt]⟩
  rw [isAsked, hrid, hrs, hrt]
  exact hasked

theorem maxResultID_le (h : Listed db) : maxResultID db ≤ db.resultSeq := by
  unfold maxResultID
  cases hm : (db.results.map (·.id)).max? with
  | none => exact h.counter
  | some m =>
    obtain ⟨r, hr, rfl⟩ := List.mem_map.mp (List.max?_mem hm)
    exact (h.seq r hr).2

theorem le_maxResultID {r : ResultRow F} (hr : r ∈ db.results) : r.id ≤ maxResultID db := by
  unfold maxResultID
  cases hm : (db.results.map (·.id)).max? with
  | none =>
    rw [List.max?_eq_none_iff, List.map_eq_nil_iff] at hm
    rw [hm] at hr
    cases hr
  | some m => exact (List.max?_le_iff hm).mp le_rfl _ (List.mem_map_of_mem hr)

/-- What has been delivered, and what is left to deliver, after the snapshot of a database. -/
structure Walked (db₀ : DB F) (serverID since : Int) (w : Walk F) : Prop where
  listed : Listed w.db
  later : Later db₀ w.db
  descending : (w.delivered.map storedKey).Pairwise fun k l => l < k
  source : ∀ k ∈ w.delivered.map storedKey,
    k < firstKey ∧ ∃ r ∈ asked serverID since (maxResultID db₀) db₀, resultKey r = k
  started : w.phase ≠ .start
  paging : ∀ snapshotID before beforeID, w.phase = .paging snapshotID before beforeID →
    snapshotID = maxResultID db₀ ∧ toLex (before, beforeID) ≤ firstKey ∧
      Progress resultKey (· < firstKey) (asked serverID since snapshotID w.db)
        (w.delivered.map storedKey) (toLex (before, beforeID))
  done : w.phase = .returned .done →
    ∀ r ∈ asked serverID since (maxResultID db₀) w.db, resultKey r < firstKey →
      resultKey r ∈ w.delivered.map storedKey
  failed : ∀ err, w.phase ≠ .returned (.failed err)

variable {db₀ : DB F} {w : Walk F}

def begun (db : DB F) : Walk F := ⟨db, .paging (maxResultID db) maxInt64 maxInt64, []⟩

theorem walked_begun (h : Listed db₀) : Walked db₀ serverID since (begun db₀) where
  listed := h
  later := Later.refl db₀
  descending := List.Pairwise.nil
  source := by simp [begun]
  started := by simp [begun]
  paging snapshotID before beforeID hp := by
    injection hp with hs hb hi
    subst hs hb hi
    exact ⟨rfl, le_rfl, progress_start fun _ hk => hk⟩
  done hp := by cases hp
  failed err hp := by cases hp

/-- What a call of another method changes. -/
theorem Walked.store (h : Walked db₀ serverID since w) (h₀ : Listed db₀) {db' : DB F}
    (hl : Listed db') (hd : Later w.db db') : Walked db₀ serverID since { w with db := db' } where
  listed := hl
  later := h.later.trans hd
  descending := h.descending
  source := h.source
  started := h.started
  paging snapshotID before beforeID hp := by
    obtain ⟨hs, hb, hprogress⟩ := h.paging snapshotID before beforeID hp
    refine ⟨hs, hb, hprogress.frame fun q hq _ => ?_⟩
    have hseq : snapshotID ≤ w.db.resultSeq := hs ▸ (maxResultID_le h₀).trans h.later.seq
    obtain ⟨r, hr, hk⟩ := asked_later hd hseq hq
    exact hk ▸ List.mem_map_of_mem hr
  done hp q hq hk := by
    obtain ⟨r, hr, hkey⟩ := asked_later hd ((maxResultID_le h₀).trans h.later.seq) hq
    rw [← hkey] at hk ⊢
    exact h.done hp r hr hk
  failed := h.failed

theorem Walked.source_append (h : Walked db₀ serverID since w) (h₀ : Listed db₀)
    {page : List (ResultRow F)} {limit : Nat} (hb : toLex (before, beforeID) ≤ firstKey)
    (hpage : page = top resultKey limit ((asked serverID since (maxResultID db₀) w.db).filter
      fun r => resultKey r < toLex (before, beforeID))) :
    ∀ k ∈ w.delivered.map storedKey ++ page.map resultKey,
      k < firstKey ∧ ∃ r ∈ asked serverID since (maxResultID db₀) db₀, resultKey r = k := by
  intro k hk
  cases List.mem_append.mp hk with
  | inl hk => exact h.source k hk
  | inr hk =>
    obtain ⟨q, hq, rfl⟩ := List.mem_map.mp hk
    obtain ⟨hq, hlt⟩ := mem_page (hpage ▸ hq)
    exact ⟨hlt.trans_le hb, asked_later h.later (maxResultID_le h₀) hq⟩

theorem nextPhase_cases (snapshotID : Int) (batch : List (StoredResult F)) :
    batch.length < 200 ∧ nextPhase snapshotID batch = .returned .done ∨
      ∃ last, batch.getLast? = some last ∧
        nextPhase snapshotID batch = .paging snapshotID last.result.timestamp last.id := by
  unfold nextPhase
  split_ifs with hlt
  · exact Or.inl ⟨hlt, rfl⟩
  · cases hl : batch.getLast? with
    | none =>
      rw [List.getLast?_eq_none_iff.mp hl] at hlt
      simp at hlt
    | some last => exact Or.inr ⟨last, rfl, rfl⟩

theorem Walked.page (h : Walked db₀ serverID since w) (h₀ : Listed db₀)
    (hp : w.phase = .paging snapshotID before beforeID) (failsAt : Option Nat) :
    Walked db₀ serverID since (walkPage serverID since snapshotID before beforeID failsAt w) := by
  obtain ⟨hs, hb, hprogress⟩ := h.paging snapshotID before beforeID hp
  subst hs
  obtain ⟨batch, hbatch, hkeys⟩ := selectResults_ok h.listed
    (walkCondition serverID since (maxResultID db₀) before beforeID) 200
  rw [filter_walkCondition] at hkeys
  generalize hpage : top resultKey 200 ((asked serverID since (maxResultID db₀) w.db).filter
    fun r => resultKey r < toLex (before, beforeID)) = page at hkeys
  have hlen : batch.length = page.length := by
    simpa using congrArg List.length hkeys
  have hn := nodup_keys h.listed (isAsked serverID since (maxResultID db₀))
  have hdesc := hprogress.append hn hpage.symm
  have hsource := h.source_append h₀ hb hpage.symm
  rw [← hkeys, ← List.map_append] at hdesc hsource
  rw [walkPage, hbatch]
  dsimp only
  cases failsAt.filter (· < batch.length) with
  | some k =>
    have hsub : ((w.delivered ++ batch.take (k + 1)).map storedKey).Sublist
        ((w.delivered ++ batch).map storedKey) :=
      ((List.take_sublist _ _).append_left _).map _
    exact
      { listed := h.listed
        later := h.later
        descending := hdesc.sublist hsub
        source := fun l hl => hsource l (hsub.subset hl)
        started := by simp
        paging := by simp
        done := by simp
        failed := by simp }
  | none =>
    cases nextPhase_cases (maxResultID db₀) batch with
    | inl hdone =>
      obtain ⟨hshort, hnext⟩ := hdone
      rw [hnext]
      refine
        { listed := h.listed
          later := h.later
          descending := hdesc
          source := hsource
          started := by simp
          paging := by simp
          done := fun _ r hr hk => ?_
          failed := by simp }
      rw [List.map_append, hkeys]
      exact hprogress.complete hpage.symm (hlen ▸ hshort) hr hk
    | inr hfull =>
      obtain ⟨last, hlast, hnext⟩ := hfull
      rw [hnext]
      obtain ⟨row, hrow, hrowkey⟩ := getLast?_of_map_eq hkeys hlast
      have hturn := hprogress.turn hn hpage.symm hrow
      rw [hrowkey, ← hkeys, ← List.map_append] at hturn
      refine
        { listed := h.listed
          later := h.later
          descending := hdesc
          source := hsource
          started := by simp
          paging := fun i t j hp => ?_
          done := by simp
          failed := by simp }
      injection hp with hi ht hj
      subst hi ht hj
      refine ⟨rfl, ?_, hturn⟩
      have hmem : last ∈ w.delivered ++ batch :=
        List.mem_append_right _ (List.mem_of_getLast? hlast)
      exact (hsource _ (List.mem_map_of_mem hmem)).1.le

end

section

variable {F : Type} [GoFloat F] [CaseTables] {db₀ : DB F} {serverID since : Int} {w : Walk F}

theorem walked_step (h₀ : Listed db₀) (h : Walked db₀ serverID since w) (a : WalkAction F) :
    Walked db₀ serverID since (walkStep serverID since w a) := by
  unfold walkStep
  cases a with
  | store e =>
    obtain ⟨hl, hd⟩ := listed_step h.listed e
    exact h.store h₀ hl hd
  | snapshot =>
    dsimp only
    split
    · next hp => exact absurd hp h.started
    · exact h
  | page failsAt =>
    dsimp only
    split
    · next hp => exact h.page h₀ hp failsAt
    · exact h

theorem walked_run (h₀ : Listed db₀) (h : Walked db₀ serverID since w)
    (actions : List (WalkAction F)) :
    Walked db₀ serverID since (Runs.run (walkStep serverID since) w actions) :=
  Runs.run_invariant (P := Walked db₀ serverID since) (fun _ a h => walked_step h₀ h a) h actions

end

def isPage {F : Type} : WalkAction F → Bool
  | .page _ => true
  | _ => false

section

variable {F : Type} [GoFloat F] [CaseTables] {db₀ : DB F} {serverID since : Int} {w : Walk F}

/-- A walk that goes on has delivered a full batch with each of its pages. -/
def Full (pages : Nat) (w : Walk F) : Prop :=
  w.phase ≠ .start ∧ ∀ snapshotID before beforeID, w.phase = .paging snapshotID before beforeID →
    200 * pages ≤ w.delivered.length

omit [GoFloat F] [CaseTables] in
theorem full_page {pages : Nat} {snapshotID before beforeID : Int} (failsAt : Option Nat)
    (h : 200 * pages ≤ w.delivered.length) :
    Full (pages + 1) (walkPage serverID since snapshotID before beforeID failsAt w) := by
  unfold walkPage
  split
  · exact ⟨nofun, nofun⟩
  · next batch _ =>
    split
    · exact ⟨nofun, nofun⟩
    · by_cases hshort : batch.length < 200
      · rw [nextPhase, if_pos hshort]
        exact ⟨nofun, nofun⟩
      · refine ⟨?_, fun _ _ _ _ => ?_⟩
        · obtain ⟨_, hnext⟩ | ⟨_, _, hnext⟩ := nextPhase_cases snapshotID batch
          · simp [hnext]
          · simp [hnext]
        · rw [List.length_append]
          omega

theorem full_step {pages : Nat} (h : Full pages w) (a : WalkAction F) :
    Full (pages + if isPage a then 1 else 0) (walkStep serverID since w a) := by
  unfold walkStep
  cases a with
  | store e => exact h
  | snapshot =>
    change Full pages _
    dsimp only
    split
    · next hp => exact absurd hp h.1
    · exact h
  | page failsAt =>
    change Full (pages + 1) _
    dsimp only
    split
    · next hp => exact full_page failsAt (h.2 _ _ _ hp)
    · next hother => exact ⟨h.1, fun i t j hp => absurd hp (hother i t j)⟩

theorem full_run {pages : Nat} (h : Full pages w) (actions : List (WalkAction F)) :
    Full (pages + actions.countP isPage) (Runs.run (walkStep serverID since) w actions) := by
  induction actions generalizing pages w with
  | nil => exact h
  | cons a actions ih =>
    rw [Runs.run_cons, List.countP_cons, Nat.add_comm (actions.countP isPage), ← Nat.add_assoc]
    exact ih (full_step h a)

theorem stopped_step {a : WalkAction F} (h : w.phase ≠ .returned .stopped)
    (hs : (walkStep serverID since w a).phase = .returned .stopped) : ∃ k, a = .page (some k) := by
  unfold walkStep at hs
  cases a with
  | store e => exact absurd hs h
  | snapshot =>
    dsimp only at hs
    split at hs
    · cases hs
    · exact absurd hs h
  | page failsAt =>
    cases failsAt with
    | some k => exact ⟨k, rfl⟩
    | none =>
      dsimp only at hs
      split at hs
      · unfold walkPage at hs
        split at hs
        · cases hs
        · next batch _ =>
          dsimp only [Option.filter_none] at hs
          obtain ⟨-, hnext⟩ | ⟨_, -, hnext⟩ := nextPhase_cases (F := F) _ batch
          · rw [hnext] at hs
            cases hs
          · rw [hnext] at hs
            cases hs
      · exact absurd hs h

theorem stopped_run {actions : List (WalkAction F)} (h : w.phase ≠ .returned .stopped)
    (hs : (Runs.run (walkStep serverID since) w actions).phase = .returned .stopped) :
    ∃ k, .page (some k) ∈ actions := by
  induction actions generalizing w with
  | nil => exact absurd hs h
  | cons a actions ih =>
    by_cases hnow : (walkStep serverID since w a).phase = .returned .stopped
    · obtain ⟨k, rfl⟩ := stopped_step h hnow
      exact ⟨k, List.mem_cons_self⟩
    · obtain ⟨k, hk⟩ := ih hnow hs
      exact ⟨k, List.mem_cons_of_mem _ hk⟩

def isMatch (serverID since : Int) (r : ResultRow F) : Bool :=
  since ≤ r.timestamp && (serverID ≤ 0 || r.serverID = serverID)

omit [GoFloat F] [CaseTables] in
theorem isAsked_iff {r : ResultRow F} (hr : r ∈ db₀.results) :
    isAsked serverID since (maxResultID db₀) r = isMatch serverID since r := by
  simp [isAsked, isMatch, le_maxResultID hr]

omit [GoFloat F] [CaseTables] in
theorem asked_eq : asked serverID since (maxResultID db₀) db₀ =
    db₀.results.filter (isMatch serverID since) :=
  List.filter_congr fun _ hr => isAsked_iff hr

/-- What a call of `WalkResults` does that reads its snapshot from a database, after some of
what comes next. -/
structure Delivers (db : DB F) (serverID since : Int) (actions : List (WalkAction F))
    (w : Walk F) : Prop where
  descending : (w.delivered.map storedKey).Pairwise fun k l => l < k
  once : (w.delivered.map (·.id)).Nodup
  snapshot : ∀ v ∈ w.delivered, ∃ r ∈ db.results,
    isMatch serverID since r = true ∧ r.id = v.id ∧ r.timestamp = v.result.timestamp
  terminates : db.results.countP (isMatch serverID since) / 200 < actions.countP isPage →
    w.phase = .returned .done ∨
      w.phase = .returned .stopped ∧ ∃ k, .page (some k) ∈ actions
  complete : w.phase = .returned .done → ∀ r ∈ db.results, isMatch serverID since r = true →
    Survives r w.db → ∃ v ∈ w.delivered, v.id = r.id

def Fits (db : DB F) : Prop := ∀ r ∈ db.results, r.timestamp ≤ maxInt64 ∧ r.id ≤ maxInt64

omit [GoFloat F] [CaseTables] in
theorem Walked.once (h₀ : Listed db₀) (h : Walked db₀ serverID since w) :
    (w.delivered.map (·.id)).Nodup := by
  have hkeys : (w.delivered.map storedKey).Nodup := h.descending.imp fun {k l} hlt => hlt.ne'
  rw [List.Nodup, List.pairwise_map] at hkeys ⊢
  refine hkeys.imp_of_mem fun {u v} hu hv hne hid => hne ?_
  obtain ⟨-, q, hq, hqk⟩ := h.source _ (List.mem_map_of_mem hu)
  obtain ⟨-, r, hr, hrk⟩ := h.source _ (List.mem_map_of_mem hv)
  have hqr : q.id = r.id := ((congrArg (fun k => (ofLex k).2) hqk).trans hid).trans
    (congrArg (fun k => (ofLex k).2) hrk).symm
  have he : q = r := List.inj_on_of_nodup_map h₀.ids (List.mem_of_mem_filter hq)
    (List.mem_of_mem_filter hr) hqr
  rw [← hqk, ← hrk, he]

omit [GoFloat F] [CaseTables] in
theorem Walked.length_le (h : Walked db₀ serverID since w) :
    w.delivered.length ≤ db₀.results.countP (isMatch serverID since) := by
  have hkeys : (w.delivered.map storedKey).Nodup := h.descending.imp fun {k l} hlt => hlt.ne'
  have hsub : w.delivered.map storedKey ⊆
      (db₀.results.filter (isMatch serverID since)).map resultKey := by
    intro k hk
    obtain ⟨-, r, hr, hrk⟩ := h.source k hk
    rw [asked_eq] at hr
    exact List.mem_map.mpr ⟨r, hr, hrk⟩
  have hle := (hkeys.subperm hsub).length_le
  rwa [List.length_map, List.length_map, ← List.countP_eq_length_filter] at hle

omit [GoFloat F] [CaseTables] in
theorem Walked.below (h₀ : Listed db₀) (h : Walked db₀ serverID since w) {r : ResultRow F}
    (hr : r ∈ db₀.results) (hv : ∃ v ∈ w.delivered, v.id = r.id) : resultKey r < firstKey := by
  obtain ⟨v, hv, hid⟩ := hv
  obtain ⟨hlt, q, hq, hk⟩ := h.source _ (List.mem_map_of_mem hv)
  have hqid : q.id = r.id := (congrArg (fun k => (ofLex k).2) hk).trans hid
  have he : q = r := List.inj_on_of_nodup_map h₀.ids (List.mem_of_mem_filter hq) hr hqid
  rwa [← hk, he] at hlt

omit [GoFloat F] [CaseTables] in
theorem Walked.delivers (h₀ : Listed db₀) (hbelow : ∀ r ∈ db₀.results, resultKey r < firstKey)
    (h : Walked db₀ serverID since w) {actions : List (WalkAction F)}
    (hfull : Full (actions.countP isPage) w)
    (hstop : w.phase = .returned .stopped → ∃ k, .page (some k) ∈ actions) :
    Delivers db₀ serverID since actions w where
  descending := h.descending
  once := h.once h₀
  snapshot v hv := by
    obtain ⟨-, r, hr, hk⟩ := h.source _ (List.mem_map_of_mem hv)
    obtain ⟨hr, hasked⟩ := List.mem_filter.mp hr
    obtain ⟨ht, hid⟩ := storedKey_eq hk.symm
    exact ⟨r, hr, isAsked_iff hr ▸ hasked, hid.symm, ht.symm⟩
  terminates hpages := by
    cases hp : w.phase with
    | start => exact absurd hp h.started
    | paging snapshotID before beforeID =>
      have hmany := hfull.2 _ _ _ hp
      have hfew := h.length_le
      omega
    | returned how =>
      cases how with
      | done => exact Or.inl rfl
      | failed err => exact absurd hp (h.failed err)
      | stopped => exact Or.inr ⟨rfl, hstop hp⟩
  complete hdone r hr hm hsurvives := by
    obtain ⟨q, hq, hqid⟩ := hsurvives
    obtain ⟨r', hr', hid', hserver, htime⟩ := h.later.rows q hq (hqid ▸ (h₀.seq r hr).2)
    have he : r' = r := List.inj_on_of_nodup_map h₀.ids hr' hr (hid'.trans hqid)
    subst he
    have hqasked : q ∈ asked serverID since (maxResultID db₀) w.db := by
      refine List.mem_filter.mpr ⟨hq, ?_⟩
      rw [← isAsked_iff hr'] at hm
      rw [isAsked, ← hid', ← hserver, ← htime]
      exact hm
    have hkey : resultKey q = resultKey r' := by
      rw [resultKey, resultKey, ← hid', ← htime]
    have hin := h.done hdone q hqasked (hkey ▸ hbelow r' hr')
    obtain ⟨v, hv, hvk⟩ := List.mem_map.mp hin
    exact ⟨v, hv, (storedKey_eq hvk).2.trans hqid⟩

theorem walked_after (h₀ : Listed db₀) (actions : List (WalkAction F)) :
    Walked db₀ serverID since
      (Runs.run (walkStep serverID since) ⟨db₀, .start, []⟩ (.snapshot :: actions)) :=
  walked_run h₀ (walked_begun h₀) actions

theorem walk_delivers (h₀ : Listed db₀) (hbelow : ∀ r ∈ db₀.results, resultKey r < firstKey)
    (actions : List (WalkAction F)) :
    Delivers db₀ serverID since actions
      (Runs.run (walkStep serverID since) ⟨db₀, .start, []⟩ (.snapshot :: actions)) := by
  have hfull : Full 0 (begun db₀) := ⟨by simp [begun], by simp⟩
  have hrunning : (begun db₀).phase ≠ .returned .stopped := by simp [begun]
  apply (walked_after h₀ actions).delivers h₀ hbelow
  · rw [← Nat.zero_add (actions.countP isPage)]
    exact full_run hfull actions
  · exact stopped_run hrunning

theorem walkPages_db (n : ℕ) (w : Walk F) :
    (Runs.run (walkStep serverID since) w (List.replicate n (.page none))).db = w.db := by
  apply Runs.run_invariant_of (P := fun v : Walk F => v.db = w.db)
    (C := fun a : WalkAction F => a = .page none) _ rfl fun a ha => List.eq_of_mem_replicate ha
  rintro v a rfl hv
  rw [← hv]
  unfold walkStep
  dsimp only
  split
  · unfold walkPage
    split <;> rfl
  · rfl

/-- The walk is right on a database exactly if no row of it lies on the first cursor. -/
theorem walk_iff (h₀ : Listed db₀) (hfits : Fits db₀) :
    (∀ serverID since actions, Delivers db₀ serverID since actions
      (Runs.run (walkStep serverID since) ⟨db₀, .start, []⟩ (.snapshot :: actions))) ↔
    ∀ r ∈ db₀.results, ¬ (r.timestamp = maxInt64 ∧ r.id = maxInt64) := by
  constructor
  · intro h r hr hmax
    -- a walk of enough pages over all servers, with nothing beside it
    let n := db₀.results.countP (isMatch 0 r.timestamp) / 200 + 1
    have hd := h 0 r.timestamp (List.replicate n (.page none))
    have hcount : (List.replicate n (.page none)).countP (isPage (F := F)) = n := by
      simp [List.countP_replicate, isPage]
    have hdone : (Runs.run (walkStep 0 r.timestamp) ⟨db₀, .start, []⟩
        (.snapshot :: List.replicate n (.page none))).phase = .returned .done := by
      have hmany : db₀.results.countP (isMatch 0 r.timestamp) / 200 <
          (List.replicate n (.page none)).countP (isPage (F := F)) := by
        rw [hcount]
        exact Nat.lt_succ_self _
      cases hd.terminates hmany with
      | inl hdone => exact hdone
      | inr hstop =>
        obtain ⟨-, k, hk⟩ := hstop
        cases List.eq_of_mem_replicate hk
    have hsurvives : Survives r (Runs.run (walkStep 0 r.timestamp) ⟨db₀, .start, []⟩
        (.snapshot :: List.replicate n (.page none))).db := by
      rw [Runs.run_cons, walkPages_db]
      exact ⟨r, hr, rfl⟩
    have hv := hd.complete hdone r hr (by simp [isMatch]) hsurvives
    have hlt := (walked_after h₀ _).below h₀ hr hv
    rw [resultKey, hmax.1, hmax.2] at hlt
    exact absurd hlt (lt_irrefl _)
  · intro h serverID since actions
    refine walk_delivers h₀ (fun r hr => ?_) actions
    have hle := hfits r hr
    have hne := h r hr
    rw [resultKey, firstKey, Prod.Lex.toLex_lt_toLex]
    dsimp only
    omega

end

end DnsMonitor.Store.Walking
