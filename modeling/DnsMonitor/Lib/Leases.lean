import DnsMonitor.Lib.Evictions
import Mathlib.Data.Set.Card

namespace DnsMonitor.Lib.Leases

open DnsMonitor.Lib.Evictions

section

variable {κ τ : Type} [DecidableEq κ] [LinearOrder τ]

/-- An operation with the times it reads from the clock. A grant meets every lease first. -/
inductive Op (κ τ : Type) where
  | check (now : τ) (k : κ)
  | grant (reads : κ → τ) (k : κ) (expires : τ)
  | revoke (k : κ)

def Op.reads : Op κ τ → Set τ
  | .check now _ => {now}
  | .grant reads _ _ => Set.range reads
  | .revoke _ => ∅

def find (k : κ) (l : List (κ × τ)) : Option τ := (l.find? (·.1 = k)).map (·.2)

def sweep (reads : κ → τ) (l : List (κ × τ)) : List (κ × τ) :=
  l.filter fun e => !decide (e.2 < reads e.1)

def answer (room : Nat) (l : List (κ × τ)) : Op κ τ → Bool
  | .check now k => (find k l).any fun expires => !decide (expires < now)
  | .grant reads _ _ => (sweep reads l).length < room
  | .revoke _ => true

def step (room : Nat) (l : List (κ × τ)) : Op κ τ → List (κ × τ)
  | .check now k => if answer room l (.check now k) then l else erase k l
  | .grant reads k expires =>
    if (sweep reads l).length < room then put k expires (sweep reads l) else sweep reads l
  | .revoke k => erase k l

def replay (room : Nat) (trace : List (Op κ τ × Bool)) : List (κ × τ) :=
  trace.foldl (fun l x => step room l x.1) []

def Answered (room : Nat) (trace : List (Op κ τ × Bool)) : Prop :=
  ∀ before x after, trace = before ++ x :: after → x.2 = answer room (replay room before) x.1

/-- No operation reads a time before one that an earlier operation has read. -/
def Ordered (trace : List (Op κ τ × Bool)) : Prop :=
  trace.Pairwise fun x y => ∀ r ∈ x.1.reads, ∀ s ∈ y.1.reads, r ≤ s

def change (k : κ) (held : Option τ) : Op κ τ × Bool → Option τ
  | (.grant _ j expires, true) => if j = k then some expires else held
  | (.revoke j, _) => if j = k then none else held
  | _ => held

/-- When the lease ends that the last grant for a key has given, unless it was revoked since. -/
def held (trace : List (Op κ τ × Bool)) (k : κ) : Option τ := trace.foldl (change k) none

variable {room : Nat} {l : List (κ × τ)} {trace before after : List (Op κ τ × Bool)}
  {x : Op κ τ × Bool} {k : κ} {expires now : τ}

@[simp] theorem replay_append_singleton :
    replay room (trace ++ [x]) = step room (replay room trace) x.1 := by
  simp [replay]

omit [LinearOrder τ] in
@[simp] theorem held_append_singleton : held (trace ++ [x]) k = change k (held trace k) x := by
  simp [held]

theorem Answered.of_append (h : Answered room (before ++ after)) : Answered room before := by
  intro b y a hsplit
  exact h b y (a ++ after) (by simp [hsplit])

omit [DecidableEq κ] in
theorem mem_sweep {reads : κ → τ} {e : κ × τ} : e ∈ sweep reads l ↔ e ∈ l ∧ reads e.1 ≤ e.2 := by
  simp [sweep]

omit [LinearOrder τ] in
theorem find_eq_some (hl : Keyed l) : find k l = some expires ↔ (k, expires) ∈ l := by
  simp only [find, Option.map_eq_some_iff]
  constructor
  · rintro ⟨e, he, rfl⟩
    have hk : e.1 = k := by simpa using List.find?_some he
    exact hk ▸ List.mem_of_find?_eq_some he
  · intro hmem
    cases hf : l.find? fun e => e.1 = k with
    | none => simpa using List.find?_eq_none.mp hf _ hmem
    | some e =>
      have hk : e.1 = k := by simpa using List.find?_some hf
      exact ⟨e, rfl, congrArg Prod.snd (hl.eq (List.mem_of_find?_eq_some hf) hmem hk)⟩

theorem answer_check (hl : Keyed l) : answer room l (.check now k) = true ↔
    ∃ expires, (k, expires) ∈ l ∧ now ≤ expires := by
  simp only [answer, Option.any_eq_true, find_eq_some hl, Bool.not_eq_true', decide_eq_false_iff_not,
    not_lt]

theorem keyed_step (hl : Keyed l) (op : Op κ τ) : Keyed (step room l op) := by
  cases op with
  | check now k =>
    rw [step]
    split_ifs
    · exact hl
    · exact hl.sublist (erase_sublist k l)
  | grant reads k expires =>
    have hs : Keyed (sweep reads l) := hl.sublist List.filter_sublist
    rw [step]
    split_ifs
    · exact keyed_put hs k expires
    · exact hs
  | revoke k => exact hl.sublist (erase_sublist k l)

theorem length_step (hl : l.length ≤ room) (op : Op κ τ) : (step room l op).length ≤ room := by
  cases op with
  | check now k =>
    rw [step]
    split_ifs
    · exact hl
    · exact (erase_sublist k l).length_le.trans hl
  | grant reads k expires =>
    rw [step]
    split_ifs with hroom
    · exact (Nat.succ_le_succ (erase_sublist k _).length_le).trans hroom
    · exact List.filter_sublist.length_le.trans hl
  | revoke k => exact (erase_sublist k l).length_le.trans hl

theorem length_replay (trace : List (Op κ τ × Bool)) : (replay room trace).length ≤ room := by
  induction trace using List.reverseRecOn with
  | nil => exact Nat.zero_le _
  | append_singleton trace x ih =>
    rw [replay_append_singleton]
    exact length_step ih x.1

/-- The table holds the leases, less some that have run out. -/
structure Kept (room : Nat) (trace : List (Op κ τ × Bool)) : Prop where
  keyed : Keyed (replay room trace)
  held_of_mem : ∀ k expires, (k, expires) ∈ replay room trace → held trace k = some expires
  mem_or_read : ∀ k expires, held trace k = some expires → (k, expires) ∈ replay room trace ∨
    ∃ x ∈ trace, ∃ r ∈ x.1.reads, expires < r

theorem kept_check (h : Kept room trace) (now : τ) (k : κ) (b : Bool) :
    Kept room (trace ++ [(.check now k, b)]) := by
  have hheld : ∀ j, held (trace ++ [(.check now k, b)]) j = held trace j := fun j => by
    simp [change]
  refine ⟨?_, ?_, ?_⟩
  · rw [replay_append_singleton]
    exact keyed_step h.keyed _
  · intro j expires hmem
    rw [hheld]
    apply h.held_of_mem
    rw [replay_append_singleton, step] at hmem
    split_ifs at hmem
    · exact hmem
    · exact (mem_erase.mp hmem).1
  · intro j expires hj
    rw [hheld] at hj
    rw [replay_append_singleton, step]
    obtain hmem | ⟨x, hx, r, hr, hlt⟩ := h.mem_or_read j expires hj
    · split_ifs with hok
      · exact .inl hmem
      by_cases hk : j = k
      · -- the lease that is dropped has run out
        subst hk
        rw [answer_check h.keyed] at hok
        refine .inr ⟨_, List.mem_append_right _ (List.mem_singleton_self _), now, rfl, ?_⟩
        exact not_le.mp fun hle => hok ⟨expires, hmem, hle⟩
      · exact .inl (mem_erase.mpr ⟨hmem, hk⟩)
    · exact .inr ⟨x, List.mem_append_left _ hx, r, hr, hlt⟩

theorem kept_grant (h : Kept room trace) (reads : κ → τ) (k : κ) (expires : τ) {b : Bool}
    (hb : b = answer room (replay room trace) (.grant reads k expires)) :
    Kept room (trace ++ [(.grant reads k expires, b)]) := by
  have hswept : ∀ j e, held trace j = some e → (j, e) ∈ sweep reads (replay room trace) ∨
      ∃ x ∈ trace ++ [(.grant reads k expires, b)], ∃ r ∈ x.1.reads, e < r := by
    intro j e hj
    obtain hmem | ⟨x, hx, r, hr, hlt⟩ := h.mem_or_read j e hj
    · cases le_or_gt (reads j) e with
      | inl hle => exact .inl (mem_sweep.mpr ⟨hmem, hle⟩)
      | inr hlt =>
        exact .inr ⟨_, List.mem_append_right _ (List.mem_singleton_self _), reads j, ⟨j, rfl⟩, hlt⟩
    · exact .inr ⟨x, List.mem_append_left _ hx, r, hr, hlt⟩
  subst hb
  by_cases hroom : (sweep reads (replay room trace)).length < room
  · have hans : answer room (replay room trace) (.grant reads k expires) = true := by
      simpa [answer] using hroom
    rw [hans] at hswept ⊢
    refine ⟨?_, ?_, ?_⟩ <;> rw [replay_append_singleton]
    · exact keyed_step h.keyed _
    · intro j e hmem
      rw [step, if_pos hroom] at hmem
      rw [held_append_singleton, change]
      obtain heq | ⟨hmem, hk⟩ := mem_put.mp hmem
      · obtain ⟨rfl, rfl⟩ := Prod.mk.inj heq
        rw [if_pos rfl]
      · rw [if_neg (Ne.symm hk)]
        exact h.held_of_mem j e (mem_sweep.mp hmem).1
    · intro j e hj
      rw [step, if_pos hroom]
      rw [held_append_singleton, change] at hj
      split_ifs at hj with hk
      · obtain rfl := Option.some.inj hj
        exact .inl (mem_put.mpr (.inl (hk ▸ rfl)))
      · exact (hswept j e hj).imp_left fun hmem => mem_put.mpr (.inr ⟨hmem, Ne.symm hk⟩)
  · have hans : answer room (replay room trace) (.grant reads k expires) = false := by
      simpa [answer] using hroom
    rw [hans] at hswept ⊢
    have hheld : ∀ j, held (trace ++ [(.grant reads k expires, false)]) j = held trace j :=
      fun j => by simp [change]
    refine ⟨?_, ?_, ?_⟩ <;> rw [replay_append_singleton]
    · exact keyed_step h.keyed _
    · intro j e hmem
      rw [step, if_neg hroom] at hmem
      rw [hheld]
      exact h.held_of_mem j e (mem_sweep.mp hmem).1
    · intro j e hj
      rw [step, if_neg hroom]
      rw [hheld] at hj
      exact hswept j e hj

theorem kept_revoke (h : Kept room trace) (k : κ) (b : Bool) :
    Kept room (trace ++ [(.revoke k, b)]) := by
  have hheld : ∀ j, held (trace ++ [(.revoke k, b)]) j = if k = j then none else held trace j := by
    intro j
    rw [held_append_singleton, change]
  refine ⟨?_, ?_, ?_⟩
  · rw [replay_append_singleton]
    exact keyed_step h.keyed _
  · intro j e hmem
    rw [replay_append_singleton] at hmem
    obtain ⟨hmem, hk⟩ := mem_erase.mp hmem
    rw [hheld, if_neg (Ne.symm hk)]
    exact h.held_of_mem j e hmem
  · intro j e hj
    rw [hheld] at hj
    split_ifs at hj with hk
    rw [replay_append_singleton]
    obtain hmem | ⟨x, hx, r, hr, hlt⟩ := h.mem_or_read j e hj
    · exact .inl (mem_erase.mpr ⟨hmem, Ne.symm hk⟩)
    · exact .inr ⟨x, List.mem_append_left _ hx, r, hr, hlt⟩

theorem kept (h : Answered room trace) : Kept room trace := by
  induction trace using List.reverseRecOn with
  | nil => exact ⟨List.nodup_nil, by simp [replay], by simp [held]⟩
  | append_singleton trace x ih =>
    have hkept := ih h.of_append
    obtain ⟨op, b⟩ := x
    have hb : b = answer room (replay room trace) op := h trace (op, b) [] rfl
    cases op with
    | check now k => exact kept_check hkept now k b
    | grant reads k expires => exact kept_grant hkept reads k expires hb
    | revoke k => exact kept_revoke hkept k b

theorem mem_replay_iff (h : Answered room trace) (hordered : Ordered (trace ++ [x])) {r : τ}
    (hr : r ∈ x.1.reads) : (k, expires) ∈ replay room trace ∧ r ≤ expires ↔
      held trace k = some expires ∧ r ≤ expires := by
  constructor
  · rintro ⟨hmem, hle⟩
    exact ⟨(kept h).held_of_mem k expires hmem, hle⟩
  · rintro ⟨hheld, hle⟩
    refine ⟨((kept h).mem_or_read k expires hheld).resolve_right ?_, hle⟩
    rintro ⟨y, hy, s, hs, hlt⟩
    have hsr := (List.pairwise_append.mp hordered).2.2 y hy x (List.mem_singleton_self x) s hs r hr
    exact absurd (hlt.trans_le hsr) (not_lt.mpr hle)

/-- A key is good for as long as its last lease runs and is not revoked. -/
theorem check_iff {b : Bool} (h : Answered room (trace ++ [(.check now k, b)]))
    (hordered : Ordered (trace ++ [(.check now k, b)])) :
    b = true ↔ ∃ expires, held trace k = some expires ∧ now ≤ expires := by
  have hb : b = answer room (replay room trace) (.check now k) :=
    h trace (.check now k, b) [] rfl
  rw [hb, answer_check (kept h.of_append).keyed]
  apply exists_congr
  intro expires
  exact mem_replay_iff h.of_append hordered (Set.mem_singleton now)

/-- A lease is granted while fewer keys than there is room for have one that runs. -/
theorem grant_iff {b : Bool} {reads : κ → τ}
    (h : Answered room (trace ++ [(.grant reads k expires, b)]))
    (hordered : Ordered (trace ++ [(.grant reads k expires, b)])) :
    b = true ↔ {j | ∃ e, held trace j = some e ∧ reads j ≤ e}.ncard < room := by
  have hb : b = answer room (replay room trace) (.grant reads k expires) :=
    h trace (.grant reads k expires, b) [] rfl
  have hset : {j | ∃ e, held trace j = some e ∧ reads j ≤ e} =
      ((sweep reads (replay room trace)).map (·.1)).toFinset := by
    ext j
    simp only [Set.mem_ofPred_eq, List.coe_toFinset, List.mem_map, Prod.exists,
      exists_eq_right, exists_and_right]
    apply exists_congr
    intro e
    rw [mem_sweep]
    exact (mem_replay_iff h.of_append hordered ⟨j, rfl⟩).symm
  have hkeyed : Keyed (sweep reads (replay room trace)) :=
    (kept h.of_append).keyed.sublist List.filter_sublist
  rw [hb, hset, Set.ncard_coe_finset, List.toFinset_card_of_nodup hkeyed, List.length_map, answer,
    decide_eq_true_iff]

omit [LinearOrder τ] in
theorem granted_of_held (h : held trace k = some expires) : ∃ before reads after,
    trace = before ++ (.grant reads k expires, true) :: after ∧ ∀ b, (.revoke k, b) ∉ after := by
  induction trace using List.reverseRecOn with
  | nil => simp [held] at h
  | append_singleton trace x ih =>
    have hskip : held trace k = some expires → (∀ b, x ≠ (.revoke k, b)) →
        ∃ before reads after, trace ++ [x] = before ++ (.grant reads k expires, true) :: after ∧
          ∀ b, (.revoke k, b) ∉ after := by
      intro hheld hx
      obtain ⟨before, reads, after, rfl, hafter⟩ := ih hheld
      refine ⟨before, reads, after ++ [x], by simp, ?_⟩
      intro b hmem
      obtain hmem | hmem := List.mem_append.mp hmem
      · exact hafter b hmem
      · exact hx b (List.mem_singleton.mp hmem).symm
    rw [held_append_singleton] at h
    obtain ⟨op, b⟩ := x
    cases op with
    | check now j => exact hskip h (by simp)
    | grant reads j e =>
      cases b with
      | false => exact hskip h (by simp)
      | true =>
        rw [change] at h
        split_ifs at h with hj
        · obtain rfl := Option.some.inj h
          exact ⟨trace, reads, [], by rw [hj], by simp⟩
        · exact hskip h (by simp)
    | revoke j =>
      rw [change] at h
      split_ifs at h with hj
      exact hskip h (by simp [hj])

omit [LinearOrder τ] in
/-- A key that was granted a lease and not revoked since holds that one or a later one. -/
theorem held_of_granted (before : List (Op κ τ × Bool)) (reads : κ → τ) (expires : τ)
    (hafter : ∀ b, (.revoke k, b) ∉ after) : ∃ e,
    held (before ++ (.grant reads k expires, true) :: after) k = some e ∧
      (e = expires ∨ ∃ r, (.grant r k e, true) ∈ after) := by
  induction after using List.reverseRecOn with
  | nil => exact ⟨expires, by simp [change], .inl rfl⟩
  | append_singleton after x ih =>
    obtain ⟨e, he, hor⟩ := ih fun b hb => hafter b (List.mem_append_left _ hb)
    have hskip : change k (some e) x = some e → ∃ e,
        held (before ++ (.grant reads k expires, true) :: (after ++ [x])) k = some e ∧
          (e = expires ∨ ∃ r, (.grant r k e, true) ∈ after ++ [x]) := by
      intro hx
      refine ⟨e, ?_, hor.imp_right fun ⟨r, hr⟩ => ⟨r, List.mem_append_left _ hr⟩⟩
      rw [← List.cons_append, ← List.append_assoc, held_append_singleton, he, hx]
    obtain ⟨op, b⟩ := x
    cases op with
    | check now j => exact hskip rfl
    | grant r j f =>
      cases b with
      | false => exact hskip rfl
      | true =>
        by_cases hj : j = k
        · subst hj
          refine ⟨f, ?_, .inr ⟨r, by simp⟩⟩
          rw [← List.cons_append, ← List.append_assoc, held_append_singleton, change, if_pos rfl]
        · exact hskip (by simp [change, hj])
    | revoke j =>
      apply hskip
      rw [change, if_neg]
      rintro rfl
      exact hafter b (by simp)

end

end DnsMonitor.Lib.Leases
