import Mathlib.Data.List.MinMax
import Mathlib.Data.List.Nodup

namespace DnsMonitor.Lib.Evictions

variable {κ β ρ : Type} [DecidableEq κ] [LinearOrder ρ]

/-- The table under a new entry, which takes the place of one of the same key. -/
def put (k : κ) (v : β) (l : List (κ × β)) : List (κ × β) :=
  (k, v) :: l.filter (·.1 ≠ k)

def erase (k : κ) (l : List (κ × β)) : List (κ × β) := l.filter (·.1 ≠ k)

/-- The orders in which the loop walks the table, a new one in each pass. -/
structure Walk (α : Type) where
  order : Nat → List α → List α
  perm : ∀ n l, (order n l).Perm l

def Walk.straight (α : Type) : Walk α where
  order _ l := l
  perm _ l := List.Perm.refl l

/-- In each pass drop the first of the oldest entries of the walk, unless all fits. -/
def evict (fits : List (κ × β) → Bool) (age : β → ρ) (walk : Walk (κ × β)) :
    Nat → List (κ × β) → List (κ × β)
  | 0, l => l
  | n + 1, l =>
    if fits l then l
    else
      match (walk.order n l).argmin (fun e => age e.2) with
      | none => l
      | some e => evict fits age walk n (erase e.1 l)

def Keyed (l : List (κ × β)) : Prop := (l.map (·.1)).Nodup

omit [LinearOrder ρ] [DecidableEq κ] in
theorem Keyed.sublist {l m : List (κ × β)} (h : Keyed l) (hm : m.Sublist l) : Keyed m :=
  (hm.map _).nodup h

omit [DecidableEq κ] in
theorem Keyed.eq {l : List (κ × β)} (h : Keyed l) {e f : κ × β} (he : e ∈ l) (hf : f ∈ l)
    (hk : e.1 = f.1) : e = f :=
  List.inj_on_of_nodup_map h he hf hk

theorem mem_erase {k : κ} {l : List (κ × β)} {e : κ × β} : e ∈ erase k l ↔ e ∈ l ∧ e.1 ≠ k := by
  simp [erase]

theorem mem_put {k : κ} {v : β} {l : List (κ × β)} {e : κ × β} :
    e ∈ put k v l ↔ e = (k, v) ∨ e ∈ l ∧ e.1 ≠ k := by
  simp [put]

theorem erase_sublist (k : κ) (l : List (κ × β)) : (erase k l).Sublist l := List.filter_sublist

theorem keyed_put {l : List (κ × β)} (h : Keyed l) (k : κ) (v : β) : Keyed (put k v l) := by
  refine List.nodup_cons.mpr ⟨?_, h.sublist (erase_sublist k l)⟩
  intro hk
  obtain ⟨e, he, hek⟩ := List.mem_map.mp hk
  exact (mem_erase.mp he).2 hek

theorem length_erase_lt {l : List (κ × β)} {e : κ × β} (h : e ∈ l) :
    (erase e.1 l).length < l.length := by
  apply List.length_filter_lt_length_iff_exists.mpr
  exact ⟨e, h, by simp⟩

/-- What a table keeps that was cut down to fit: it has lost none but the oldest entries, and the
newest of these does not fit in with what is left. -/
structure Trimmed (fits : List (κ × β) → Bool) (age : β → ρ) (l kept : List (κ × β)) : Prop where
  fitting : fits kept = true
  sublist : kept.Sublist l
  older : ∀ e ∈ l, e ∉ kept → ∀ f ∈ kept, age e.2 ≤ age f.2
  needed : kept ≠ l → ∃ e ∈ l, e ∉ kept ∧ (∀ f ∈ l, f ∉ kept → age f.2 ≤ age e.2) ∧
    fits (l.filter fun f => f.1 = e.1 || f.1 ∈ kept.map (·.1)) = false

omit [DecidableEq κ] in
theorem argmin_walk {age : β → ρ} {walk : Walk (κ × β)} {n : Nat} {l : List (κ × β)} {e : κ × β}
    (h : (walk.order n l).argmin (fun f => age f.2) = some e) :
    e ∈ l ∧ ∀ f ∈ l, age e.2 ≤ age f.2 := by
  have hmem := List.argmin_mem (Option.mem_def.mpr h)
  refine ⟨(walk.perm n l).mem_iff.mp hmem, ?_⟩
  intro f hf
  exact List.le_of_mem_argmin (f := fun f : κ × β => age f.2) ((walk.perm n l).mem_iff.mpr hf)
    (Option.mem_def.mpr h)

theorem Trimmed.refl {fits : List (κ × β) → Bool} {l : List (κ × β)} (h : fits l = true)
    (age : β → ρ) : Trimmed fits age l l :=
  ⟨h, List.Sublist.refl l, fun _ he hn => absurd he hn, fun hn => absurd rfl hn⟩

theorem Trimmed.pass {fits : List (κ × β) → Bool} {age : β → ρ} {l kept : List (κ × β)} {e : κ × β}
    (hl : Keyed l) (hfits : fits l = false) (he : e ∈ l) (hle : ∀ f ∈ l, age e.2 ≤ age f.2)
    (h : Trimmed fits age (erase e.1 l) kept) : Trimmed fits age l kept := by
  have hlost : ∀ f ∈ kept, f.1 ≠ e.1 := fun f hf => (mem_erase.mp (h.sublist.subset hf)).2
  -- an entry that is lost is the one dropped now, or is lost later
  have hcases : ∀ f ∈ l, f = e ∨ f ∈ erase e.1 l := by
    intro f hf
    by_cases hk : f.1 = e.1
    · exact .inl (hl.eq hf he hk)
    · exact .inr (mem_erase.mpr ⟨hf, hk⟩)
  refine ⟨h.fitting, h.sublist.trans (erase_sublist e.1 l), ?_, ?_⟩
  · intro f hf hfk g hg
    cases hcases f hf with
    | inl hfe => exact hfe ▸ hle g ((erase_sublist _ _).subset (h.sublist.subset hg))
    | inr hf' => exact h.older f hf' hfk g hg
  · intro _
    by_cases hsame : kept = erase e.1 l
    · refine ⟨e, he, fun hk => hlost e hk rfl, ?_, ?_⟩
      · intro f hf hfk
        cases hcases f hf with
        | inl hfe => exact hfe ▸ le_rfl
        | inr hf' => exact absurd (hsame ▸ hf') hfk
      · rwa [List.filter_eq_self.mpr]
        intro f hf
        simp only [Bool.or_eq_true, decide_eq_true_eq]
        exact (hcases f hf).imp (congrArg _) fun hf' => List.mem_map_of_mem (hsame ▸ hf')
    · obtain ⟨g, hg, hgk, hnewest, hnofit⟩ := h.needed hsame
      obtain ⟨hgl, hge⟩ := mem_erase.mp hg
      refine ⟨g, hgl, hgk, ?_, ?_⟩
      · intro f hf hfk
        cases hcases f hf with
        | inl hfe => exact hfe ▸ hle g hgl
        | inr hf' => exact hnewest f hf' hfk
      · rw [← hnofit, erase, List.filter_filter]
        congr 1
        apply List.filter_congr
        intro f _
        by_cases hk : f.1 = e.1
        · have hfk : e.1 ∉ kept.map (·.1) := by
            intro hin
            obtain ⟨x, hx, hxe⟩ := List.mem_map.mp hin
            exact hlost x hx hxe
          rw [hk]
          simp [hfk, Ne.symm hge]
        · simp [hk]

theorem trimmed_evict {fits : List (κ × β) → Bool} (hnil : fits [] = true) (age : β → ρ)
    (walk : Walk (κ × β)) {n : Nat} {l : List (κ × β)} (hl : Keyed l) (hn : l.length ≤ n) :
    Trimmed fits age l (evict fits age walk n l) := by
  induction n generalizing l with
  | zero =>
    obtain rfl := List.length_eq_zero_iff.mp (Nat.le_zero.mp hn)
    exact Trimmed.refl hnil age
  | succ n ih =>
    unfold evict
    split_ifs with hfits
    · exact Trimmed.refl hfits age
    · split
      · rename_i hnone
        rw [List.argmin_eq_none] at hnone
        have hl0 : l = [] := (hnone ▸ walk.perm n l).symm.eq_nil
        exact absurd (hl0 ▸ hnil) hfits
      · rename_i e he
        obtain ⟨hmem, hle⟩ := argmin_walk he
        have hlt := length_erase_lt hmem
        exact (ih (hl.sublist (erase_sublist e.1 l)) (by omega)).pass hl
          (Bool.eq_false_iff.mpr hfits) hmem hle

theorem evict_of_fits {fits : List (κ × β) → Bool} {l : List (κ × β)} (h : fits l = true)
    (age : β → ρ) (walk : Walk (κ × β)) (n : Nat) : evict fits age walk n l = l := by
  cases n with
  | zero => rfl
  | succ n => rw [evict, if_pos h]

end DnsMonitor.Lib.Evictions
