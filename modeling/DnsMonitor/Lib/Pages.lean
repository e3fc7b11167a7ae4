import Mathlib.Data.List.Sort
import Mathlib.Order.Basic

namespace DnsMonitor.Lib.Pages

variable {α κ : Type} [LinearOrder κ] {key : α → κ} {rows : List α}

def top (key : α → κ) (limit : Nat) (rows : List α) : List α :=
  (rows.insertionSort fun q r => key r ≤ key q).take limit

theorem mem_of_top {limit : Nat} {r : α} (h : r ∈ top key limit rows) : r ∈ rows :=
  (List.mem_insertionSort _).mp (List.mem_of_mem_take h)

theorem top_map {β : Type} (f : β → α) (limit : Nat) (rows : List β) :
    (top (fun b => key (f b)) limit rows).map f = top key limit (rows.map f) := by
  rw [top, top, List.map_take,
    List.map_insertionSort (r := fun b c : β => key (f c) ≤ key (f b))
      (s := fun q r : α => key r ≤ key q) f rows fun _ _ _ _ => Iff.rfl]

theorem pairwise_sorted (key : α → κ) (rows : List α) :
    (rows.insertionSort fun q r => key r ≤ key q).Pairwise fun q r => key r ≤ key q := by
  have : Std.Total fun q r : α => key r ≤ key q := ⟨fun q r => le_total _ _⟩
  have : IsTrans α fun q r : α => key r ≤ key q := ⟨fun _ _ _ hab hbc => hbc.trans hab⟩
  exact List.pairwise_insertionSort _ rows

theorem nodup_map_top {β : Type} (g : α → β) (limit : Nat) (h : (rows.map g).Nodup) :
    ((top key limit rows).map g).Nodup := by
  have hsorted : ((rows.insertionSort fun q r => key r ≤ key q).map g).Nodup :=
    (((List.perm_insertionSort _ rows).map g).nodup_iff).mpr h
  exact hsorted.sublist ((List.take_sublist _ _).map g)

theorem pairwise_top (limit : Nat) (h : (rows.map key).Nodup) :
    ((top key limit rows).map key).Pairwise fun k l => l < k := by
  have hnodup : ((rows.insertionSort fun q r => key r ≤ key q).map key).Nodup :=
    (((List.perm_insertionSort _ rows).map key).nodup_iff).mpr h
  have hle := pairwise_sorted key rows
  rw [List.Nodup, List.pairwise_map] at hnodup
  rw [List.pairwise_map]
  refine ((hle.and hnodup).sublist (List.take_sublist limit _)).imp fun {q r} hqr => ?_
  exact lt_of_le_of_ne hqr.1 fun he => hqr.2 he.symm

theorem le_head_top {limit : Nat} {k : κ} (h : ((top key limit rows).map key).head? = some k)
    {r : α} (hr : r ∈ rows) : key r ≤ k := by
  have hsorted := pairwise_sorted key rows
  have hm : r ∈ rows.insertionSort fun q r => key r ≤ key q := (List.mem_insertionSort _).mpr hr
  unfold top at h
  cases hrows : rows.insertionSort fun q r => key r ≤ key q with
  | nil =>
    rw [hrows] at hm
    cases hm
  | cons q rest =>
    rw [hrows] at h hm hsorted
    cases limit with
    | zero => simp at h
    | succ limit =>
      obtain rfl : key q = k := by simpa using h
      cases List.mem_cons.mp hm with
      | inl he => rw [he]
      | inr hin => exact (List.pairwise_cons.mp hsorted).1 r hin

/-- A row that is not on the page comes after a full one. -/
theorem mem_top_or (key : α → κ) (limit : Nat) {r : α} (h : r ∈ rows) :
    r ∈ top key limit rows ∨
      (top key limit rows).length = limit ∧ ∀ q ∈ top key limit rows, key r ≤ key q := by
  have hsorted := pairwise_sorted key rows
  have hm : r ∈ rows.insertionSort fun q r => key r ≤ key q := (List.mem_insertionSort _).mpr h
  rw [← List.take_append_drop limit (rows.insertionSort fun q r => key r ≤ key q)] at hm hsorted
  cases List.mem_append.mp hm with
  | inl hm => exact Or.inl hm
  | inr hm =>
    refine Or.inr ⟨?_, fun q hq => (List.pairwise_append.mp hsorted).2.2 q hq r hm⟩
    have hpos := List.length_pos_of_mem hm
    rw [List.length_drop] at hpos
    rw [top, List.length_take]
    omega

/-- What a reader has received, and the key it goes on below: the wanted rows are among the
ones received or still come. -/
structure Progress (key : α → κ) (wanted : κ → Prop) (rows : List α) (received : List κ)
    (below : κ) : Prop where
  descending : received.Pairwise fun k l => l < k
  above : ∀ k ∈ received, below ≤ k
  rest : ∀ r ∈ rows, wanted (key r) → key r ∈ received ∨ key r < below

variable {wanted : κ → Prop} {received : List κ} {below : κ}

theorem progress_start (h : ∀ k, wanted k → k < below) : Progress key wanted rows [] below :=
  ⟨List.Pairwise.nil, by simp, fun r _ hw => Or.inr (h _ hw)⟩

/-- Wanted rows may go, and others may come and go. -/
theorem Progress.frame (h : Progress key wanted rows received below) {rows' : List α}
    (hrows : ∀ r ∈ rows', wanted (key r) → key r ∈ rows.map key) :
    Progress key wanted rows' received below := by
  refine ⟨h.descending, h.above, fun r hr hw => ?_⟩
  obtain ⟨q, hq, hk⟩ := List.mem_map.mp (hrows r hr hw)
  rw [← hk] at hw ⊢
  exact h.rest q hq hw

theorem mem_page {limit : Nat} {r : α}
    (h : r ∈ top key limit (rows.filter fun r => key r < below)) : r ∈ rows ∧ key r < below := by
  obtain ⟨hr, hk⟩ := List.mem_filter.mp (mem_of_top h)
  exact ⟨hr, of_decide_eq_true hk⟩

theorem pairwise_page (limit : Nat) (below : κ) (hn : (rows.map key).Nodup) :
    ((top key limit (rows.filter fun r => key r < below)).map key).Pairwise fun k l => l < k :=
  pairwise_top limit (hn.sublist (List.filter_sublist.map key))

theorem Progress.append (h : Progress key wanted rows received below) {limit : Nat}
    {page : List α} (hn : (rows.map key).Nodup)
    (hpage : page = top key limit (rows.filter fun r => key r < below)) :
    (received ++ page.map key).Pairwise fun k l => l < k := by
  subst hpage
  refine List.pairwise_append.mpr ⟨h.descending, pairwise_page limit _ hn, ?_⟩
  intro k hk l hl
  obtain ⟨r, hr, rfl⟩ := List.mem_map.mp hl
  exact (mem_page hr).2.trans_le (h.above k hk)

theorem Progress.received_or (h : Progress key wanted rows received below) {limit : Nat}
    {page : List α} (hpage : page = top key limit (rows.filter fun r => key r < below)) {r : α}
    (hr : r ∈ rows) (hw : wanted (key r)) : key r ∈ received ++ page.map key ∨
      page.length = limit ∧ ∀ q ∈ page, key r ≤ key q := by
  cases h.rest r hr hw with
  | inl hin => exact Or.inl (List.mem_append_left _ hin)
  | inr hlt =>
    have hf : r ∈ rows.filter fun r => key r < below :=
      List.mem_filter.mpr ⟨hr, decide_eq_true hlt⟩
    subst hpage
    cases mem_top_or key limit hf with
    | inl hp => exact Or.inl (List.mem_append_right _ (List.mem_map_of_mem hp))
    | inr hafter => exact Or.inr hafter

theorem Progress.turn (h : Progress key wanted rows received below) {limit : Nat} {page : List α}
    (hn : (rows.map key).Nodup)
    (hpage : page = top key limit (rows.filter fun r => key r < below)) {last : α}
    (hlast : page.getLast? = some last) :
    Progress key wanted rows (received ++ page.map key) (key last) := by
  have hmem : last ∈ page := List.mem_of_getLast? hlast
  have hbelow : key last < below := (mem_page (hpage ▸ hmem)).2
  have hle : ∀ r ∈ page, key last ≤ key r := by
    intro r hr
    obtain ⟨init, rfl⟩ := List.getLast?_eq_some_iff.mp hlast
    have hdesc := pairwise_page limit below hn
    rw [← hpage, List.map_append, List.pairwise_append] at hdesc
    cases List.mem_append.mp hr with
    | inl hr => exact (hdesc.2.2 _ (List.mem_map_of_mem hr) _ (by simp)).le
    | inr hr => rw [List.mem_singleton.mp hr]
  refine ⟨h.append hn hpage, ?_, ?_⟩
  · intro k hk
    cases List.mem_append.mp hk with
    | inl hk => exact hbelow.le.trans (h.above k hk)
    | inr hk =>
      obtain ⟨r, hr, rfl⟩ := List.mem_map.mp hk
      exact hle r hr
  · intro r hr hw
    cases h.received_or hpage hr hw with
    | inl hin => exact Or.inl hin
    | inr hafter =>
      have hkl : key r ≤ key last := hafter.2 last hmem
      cases hkl.eq_or_lt with
      | inl he =>
        rw [he]
        exact Or.inl (List.mem_append_right _ (List.mem_map_of_mem hmem))
      | inr hlt => exact Or.inr hlt

/-- After a page that is not full every wanted row has been received. -/
theorem Progress.complete (h : Progress key wanted rows received below) {limit : Nat}
    {page : List α} (hpage : page = top key limit (rows.filter fun r => key r < below))
    (hshort : page.length < limit) {r : α} (hr : r ∈ rows) (hw : wanted (key r)) :
    key r ∈ received ++ page.map key := by
  cases h.received_or hpage hr hw with
  | inl hin => exact hin
  | inr hafter => exact absurd hafter.1 hshort.ne

omit [LinearOrder κ] in
theorem getLast?_of_map_eq {β γ : Type} {f : β → κ} {g : γ → κ} {xs : List β} {ys : List γ}
    (h : xs.map f = ys.map g) {x : β} (hx : xs.getLast? = some x) :
    ∃ y, ys.getLast? = some y ∧ g y = f x := by
  have hlast := congrArg List.getLast? h
  rw [List.getLast?_map, List.getLast?_map, hx] at hlast
  exact Option.map_eq_some_iff.mp hlast.symm

end DnsMonitor.Lib.Pages
