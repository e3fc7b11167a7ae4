import Mathlib.Algebra.Order.BigOperators.Group.Finset
import Mathlib.Data.Finset.Card
import Mathlib.Data.Finset.Max
import Mathlib.Order.Lattice

namespace DnsMonitor.Lib.Leaders

variable {α κ γ ρ : Type} [LinearOrder ρ]

/-- How entries compare, to which key they belong, and the key to which group. -/
structure Ranking (α κ γ ρ : Type) where
  rank : α → ρ
  key : α → κ
  group : κ → γ

def Ranking.groupOf (R : Ranking α κ γ ρ) (a : α) : γ := R.group (R.key a)

section

variable (rank : α → ρ) {δ : Type} [DecidableEq δ] (g : α → δ)

def above (s : Finset α) (d : δ) (t : ρ) : Finset α := s.filter fun b => g b = d ∧ t < rank b

/-- The entries that fewer than a number of others of their group surpass. -/
def topOf (limit : Nat) (s : Finset α) : Finset α :=
  s.filter fun a => (above rank g s (g a) (rank a)).card < limit

variable {rank g} {s s' : Finset α} {limit : Nat} {a b : α} {d : δ} {t u : ρ}

theorem mem_above : b ∈ above rank g s d t ↔ b ∈ s ∧ g b = d ∧ t < rank b := Finset.mem_filter

theorem above_subset (hs : s ⊆ s') (ht : u ≤ t) : above rank g s d t ⊆ above rank g s' d u := by
  intro b hb
  obtain ⟨hb, hd, hlt⟩ := mem_above.mp hb
  exact mem_above.mpr ⟨hs hb, hd, ht.trans_lt hlt⟩

theorem card_above_lt (ha : a ∈ s) :
    (above rank g s (g a) (rank a)).card < (s.filter fun b => g b = g a).card := by
  apply Finset.card_lt_card
  refine ⟨fun b hb => ?_, fun hsub => ?_⟩
  · obtain ⟨hb, hg, -⟩ := mem_above.mp hb
    exact Finset.mem_filter.mpr ⟨hb, hg⟩
  · have hself := hsub (Finset.mem_filter.mpr ⟨ha, rfl⟩)
    exact absurd (mem_above.mp hself).2.2 (lt_irrefl _)

theorem topOf_subset : topOf rank g limit s ⊆ s := Finset.filter_subset _ _

theorem mem_topOf : a ∈ topOf rank g limit s ↔
    a ∈ s ∧ (above rank g s (g a) (rank a)).card < limit := Finset.mem_filter

theorem topOf_eq_self (h : ∀ d, (s.filter fun b => g b = d).card ≤ limit) :
    topOf rank g limit s = s :=
  Finset.filter_true_of_mem fun _ ha => (card_above_lt ha).trans_le (h _)

variable [DecidableEq α]

/-- The entries that are left above a rank are all there were, or as many as the limit allows. -/
theorem le_card_above_topOf (h : limit ≤ (above rank g s d t).card) :
    limit ≤ (above rank g (topOf rank g limit s) d t).card := by
  by_cases hall : above rank g s d t ⊆ topOf rank g limit s
  · apply h.trans
    apply Finset.card_le_card
    intro b hb
    obtain ⟨_, hd, hlt⟩ := mem_above.mp hb
    exact mem_above.mpr ⟨hall hb, hd, hlt⟩
  · -- above the best of those that were dropped nothing was dropped
    obtain ⟨y, hy, hno⟩ := Finset.not_subset.mp hall
    obtain ⟨x, hx, hmax⟩ := Finset.exists_max_image
      ((above rank g s d t).filter fun b => b ∉ topOf rank g limit s) rank
      ⟨y, Finset.mem_filter.mpr ⟨hy, hno⟩⟩
    obtain ⟨hx, hdropped⟩ := Finset.mem_filter.mp hx
    obtain ⟨hxs, hxd, hxt⟩ := mem_above.mp hx
    have hmany : limit ≤ (above rank g s (g x) (rank x)).card := by
      by_contra hlt
      exact hdropped (mem_topOf.mpr ⟨hxs, not_le.mp hlt⟩)
    apply hmany.trans
    apply Finset.card_le_card
    intro b hb
    obtain ⟨hb, hbd, hlt⟩ := mem_above.mp hb
    have hin : b ∈ above rank g s d t := mem_above.mpr ⟨hb, hbd.trans hxd, hxt.trans hlt⟩
    refine mem_above.mpr ⟨?_, hbd.trans hxd, hxt.trans hlt⟩
    by_contra hno
    exact absurd (hmax b (Finset.mem_filter.mpr ⟨hin, hno⟩)) (not_le.mpr hlt)

theorem min_card_le_topOf : min limit (above rank g s d t).card ≤
    (above rank g (topOf rank g limit s) d t).card := by
  by_cases h : limit ≤ (above rank g s d t).card
  · exact (min_le_left _ _).trans (le_card_above_topOf h)
  · rw [min_eq_right (not_le.mp h).le]
    apply Finset.card_le_card
    intro b hb
    obtain ⟨hb, hd, hlt⟩ := mem_above.mp hb
    refine mem_above.mpr ⟨mem_topOf.mpr ⟨hb, ?_⟩, hd, hlt⟩
    have hsub : above rank g s (g b) (rank b) ⊆ above rank g s d t :=
      hd ▸ above_subset (Finset.Subset.refl _) hlt.le
    exact (Finset.card_le_card hsub).trans_lt (not_le.mp h)

theorem card_topOf_le (hs : Set.InjOn rank s) :
    ((topOf rank g limit s).filter fun b => g b = d).card ≤ limit := by
  by_cases hne : ((topOf rank g limit s).filter fun b => g b = d).Nonempty
  · obtain ⟨x, hx, hmin⟩ := Finset.exists_min_image _ rank hne
    obtain ⟨hxtop, hxd⟩ := Finset.mem_filter.mp hx
    obtain ⟨hxs, hfew⟩ := mem_topOf.mp hxtop
    have hsub : ((topOf rank g limit s).filter fun b => g b = d) ⊆
        insert x (above rank g s (g x) (rank x)) := by
      intro b hb
      obtain ⟨hbtop, hbd⟩ := Finset.mem_filter.mp hb
      rw [Finset.mem_insert]
      by_cases he : b = x
      · exact .inl he
      · refine .inr (mem_above.mpr ⟨topOf_subset hbtop, hbd.trans hxd.symm, ?_⟩)
        apply lt_of_le_of_ne (hmin b hb)
        intro hr
        exact he (hs (topOf_subset hbtop) hxs hr.symm)
    have hcard := (Finset.card_le_card hsub).trans (Finset.card_insert_le _ _)
    omega
  · rw [Finset.not_nonempty_iff_eq_empty.mp hne]
    exact Nat.zero_le _

end

section

variable [DecidableEq κ] (R : Ranking α κ γ ρ)

def latest (s : Finset α) : Finset α :=
  s.filter fun a => ∀ b ∈ s, R.key b = R.key a → R.rank b ≤ R.rank a

variable {R} {p s : Finset α} {a b : α}

theorem mem_latest : a ∈ latest R s ↔
    a ∈ s ∧ ∀ b ∈ s, R.key b = R.key a → R.rank b ≤ R.rank a := Finset.mem_filter

theorem latest_subset : latest R s ⊆ s := Finset.filter_subset _ _

theorem exists_latest (ha : a ∈ s) :
    ∃ m ∈ latest R s, R.key m = R.key a ∧ R.rank a ≤ R.rank m := by
  obtain ⟨m, hm, hmax⟩ := Finset.exists_max_image (s.filter fun b => R.key b = R.key a) R.rank
    ⟨a, Finset.mem_filter.mpr ⟨ha, rfl⟩⟩
  obtain ⟨hms, hkey⟩ := Finset.mem_filter.mp hm
  refine ⟨m, mem_latest.mpr ⟨hms, ?_⟩, hkey, hmax a (Finset.mem_filter.mpr ⟨ha, rfl⟩)⟩
  intro b hb hbm
  exact hmax b (Finset.mem_filter.mpr ⟨hb, hbm.trans hkey⟩)

theorem latest_key_injOn (hs : Set.InjOn R.rank s) : Set.InjOn R.key (latest R s) := by
  intro a ha b hb hk
  obtain ⟨has, hamax⟩ := mem_latest.mp ha
  obtain ⟨hbs, hbmax⟩ := mem_latest.mp hb
  exact hs has hbs (le_antisymm (hbmax a has hk) (hamax b hbs hk.symm))

/-- Each entry of one set has one of its key in the other that is not below it. -/
def Dominated (R : Ranking α κ γ ρ) (p s : Finset α) : Prop :=
  ∀ a ∈ p, ∃ b ∈ s, R.key b = R.key a ∧ R.rank a ≤ R.rank b

theorem dominated_latest (h : p ⊆ s) : Dominated R p (latest R s) := by
  intro a ha
  exact exists_latest (h ha)

theorem latest_absorb [DecidableEq α] (s t : Finset α) :
    latest R (latest R s ∪ t) = latest R (s ∪ t) := by
  have hsub : latest R s ∪ t ⊆ s ∪ t := Finset.union_subset_union_left latest_subset
  ext a
  rw [mem_latest, mem_latest]
  constructor
  · rintro ⟨hin, hmax⟩
    refine ⟨hsub hin, ?_⟩
    intro b hb hk
    cases Finset.mem_union.mp hb with
    | inr hb => exact hmax b (Finset.mem_union_right _ hb) hk
    | inl hb =>
      obtain ⟨m, hm, hmk, hle⟩ := exists_latest (R := R) hb
      exact hle.trans (hmax m (Finset.mem_union_left _ hm) (hmk.trans hk))
  · rintro ⟨hin, hmax⟩
    refine ⟨?_, fun b hb => hmax b (hsub hb)⟩
    cases Finset.mem_union.mp hin with
    | inr ha => exact Finset.mem_union_right _ ha
    | inl ha => exact Finset.mem_union_left _ (mem_latest.mpr
        ⟨ha, fun b hb => hmax b (Finset.mem_union_left _ hb)⟩)

end

section

variable [DecidableEq γ] (R : Ranking α κ γ ρ)

/-- The entries that are left of those at hand when each group and all of them are cut. -/
def cut (k n : Nat) (s : Finset α) : Finset α :=
  topOf R.rank (fun _ => ()) n (topOf R.rank R.groupOf k s)

variable {R} {k n : Nat} {p s t : Finset α} {e x : α}

theorem cut_subset : cut R k n s ⊆ s := topOf_subset.trans topOf_subset

/-- The pool has reached its limit above an entry, in its group or as a whole. -/
inductive Surpassed (R : Ranking α κ γ ρ) (k n : Nat) (p : Finset α) (e : α) : Prop where
  | group (h : k ≤ (above R.rank R.groupOf p (R.groupOf e) (R.rank e)).card)
  | all (h : n ≤ (above R.rank (fun _ => ()) p () (R.rank e)).card)

theorem Surpassed.lower (h : Surpassed R k n p e) (hg : R.groupOf x = R.groupOf e)
    (hr : R.rank x ≤ R.rank e) : Surpassed R k n p x := by
  cases h with
  | group h =>
    rw [← hg] at h
    exact .group (h.trans (Finset.card_le_card (above_subset (Finset.Subset.refl _) hr)))
  | all h => exact .all (h.trans (Finset.card_le_card (above_subset (Finset.Subset.refl _) hr)))

theorem Surpassed.of_above {p' : Finset α} (h : Surpassed R k n p e)
    (hsub : ∀ b ∈ p, R.rank e < R.rank b → b ∈ p') : Surpassed R k n p' e := by
  have habove : ∀ {δ : Type} [DecidableEq δ] (g : α → δ) (d : δ),
      above R.rank g p d (R.rank e) ⊆ above R.rank g p' d (R.rank e) := by
    intro δ _ g d b hb
    obtain ⟨hb, hd, hlt⟩ := mem_above.mp hb
    exact mem_above.mpr ⟨hsub b hb hlt, hd, hlt⟩
  cases h with
  | group h => exact .group (h.trans (Finset.card_le_card (habove _ _)))
  | all h => exact .all (h.trans (Finset.card_le_card (habove _ _)))

theorem card_above_le_of_dominated (hp : Set.InjOn R.key p) (h : Dominated R p s)
    (d : γ) (t : ρ) : (above R.rank R.groupOf p d t).card ≤
      (above R.rank R.groupOf s d t).card := by
  choose! f hf using h
  apply Finset.card_le_card_of_injOn f
  · intro a ha
    obtain ⟨hap, hd, hlt⟩ := mem_above.mp ha
    obtain ⟨hfs, hkey, hle⟩ := hf a hap
    refine mem_above.mpr ⟨hfs, ?_, hlt.trans_le hle⟩
    rw [← hd, Ranking.groupOf, Ranking.groupOf, hkey]
  · intro a ha b hb hab
    have hap := (mem_above.mp ha).1
    have hbp := (mem_above.mp hb).1
    have hka := (hf a hap).2.1
    rw [hab, (hf b hbp).2.1] at hka
    exact hp hap hbp hka.symm

def Limited (R : Ranking α κ γ ρ) (k : Nat) (p : Finset α) : Prop :=
  ∀ d, (p.filter fun b => R.groupOf b = d).card ≤ k

theorem card_all_eq_sum (s : Finset α) (t : ρ) {ds : Finset γ}
    (h : ∀ b ∈ s, R.groupOf b ∈ ds) : (above R.rank (fun _ => ()) s () t).card =
      ∑ d ∈ ds, (above R.rank R.groupOf s d t).card := by
  rw [Finset.card_eq_sum_card_fiberwise (f := R.groupOf) (t := ds) fun b hb =>
    h b (mem_above.mp hb).1]
  apply Finset.sum_congr rfl
  intro d _
  congr 1
  ext b
  simp only [above, Finset.mem_filter]
  tauto

variable [DecidableEq α]

theorem surpassed_of_dropped (he : e ∈ s) (hno : e ∉ cut R k n s) :
    Surpassed R k n (cut R k n s) e := by
  by_cases htop : e ∈ topOf R.rank R.groupOf k s
  · right
    apply le_card_above_topOf
    by_contra hlt
    exact hno (mem_topOf.mpr ⟨htop, not_le.mp hlt⟩)
  · have hgroup : k ≤ (above R.rank R.groupOf (topOf R.rank R.groupOf k s) (R.groupOf e)
        (R.rank e)).card := by
      apply le_card_above_topOf
      by_contra hlt
      exact htop (mem_topOf.mpr ⟨he, not_le.mp hlt⟩)
    by_cases hall : above R.rank R.groupOf (topOf R.rank R.groupOf k s) (R.groupOf e)
        (R.rank e) ⊆ cut R k n s
    · left
      apply hgroup.trans
      apply Finset.card_le_card
      intro b hb
      obtain ⟨_, hbg, hlt⟩ := mem_above.mp hb
      exact mem_above.mpr ⟨hall hb, hbg, hlt⟩
    · -- one of the group was dropped in the second cut, since the pool was full above it
      obtain ⟨x, hx, hdropped⟩ := Finset.not_subset.mp hall
      obtain ⟨hxtop, _, hxe⟩ := mem_above.mp hx
      right
      have hfull : n ≤ (above R.rank (fun _ => ()) (topOf R.rank R.groupOf k s) ()
          (R.rank x)).card := by
        by_contra hlt
        exact hdropped (mem_topOf.mpr ⟨hxtop, not_le.mp hlt⟩)
      exact (le_card_above_topOf hfull).trans
        (Finset.card_le_card (above_subset (Finset.Subset.refl _) hxe.le))

/-- What dominates a limited pool keeps, of each group, as many above a rank as the pool has. -/
theorem card_all_le (hp : Set.InjOn R.key p) (hlimited : Limited R k p) (h : Dominated R p s)
    (t : ρ) : (above R.rank (fun _ => ()) p () t).card ≤
      (above R.rank (fun _ => ()) (topOf R.rank R.groupOf k s) () t).card := by
  have hps : ∀ b ∈ p, R.groupOf b ∈ (p ∪ s).image R.groupOf :=
    fun b hb => Finset.mem_image_of_mem _ (Finset.mem_union_left _ hb)
  have htop : ∀ b ∈ topOf R.rank R.groupOf k s, R.groupOf b ∈ (p ∪ s).image R.groupOf :=
    fun b hb => Finset.mem_image_of_mem _ (Finset.mem_union_right _ (topOf_subset hb))
  rw [card_all_eq_sum p t hps, card_all_eq_sum _ t htop]
  apply Finset.sum_le_sum
  intro d _
  have hlimit : (above R.rank R.groupOf p d t).card ≤ k := by
    apply (Finset.card_le_card _).trans (hlimited d)
    intro b hb
    obtain ⟨hb, hd, -⟩ := mem_above.mp hb
    exact Finset.mem_filter.mpr ⟨hb, hd⟩
  exact (le_min hlimit (card_above_le_of_dominated hp h d t)).trans min_card_le_topOf

/-- What a pool surpasses is not kept by a set that dominates the pool. -/
theorem notMem_cut_of_surpassed (hp : Set.InjOn R.key p) (hlimited : Limited R k p)
    (h : Dominated R p s) (he : Surpassed R k n p e) : e ∉ cut R k n s := by
  intro hcut
  obtain ⟨htop, hfew⟩ := mem_topOf.mp hcut
  cases he with
  | group hk =>
    have hle := card_above_le_of_dominated hp h (R.groupOf e) (R.rank e)
    have hlt := (mem_topOf.mp htop).2
    omega
  | all hn =>
    have hle := card_all_le hp hlimited h (R.rank e)
    omega

/-- Entries of one group that are new to a pool get into it exactly if it does not surpass all of
them. -/
theorem exists_new_mem_cut (hp : Set.InjOn R.key p) (hlimited : Limited R k p)
    (h : Dominated R p s) (hgroup : ∀ x ∈ s, x ∉ p → ∀ y ∈ s, y ∉ p → R.groupOf x = R.groupOf y) :
    (∃ x ∈ cut R k n s, x ∉ p) ↔ ∃ x ∈ s, x ∉ p ∧ ¬ Surpassed R k n p x := by
  constructor
  · rintro ⟨x, hx, hnew⟩
    exact ⟨x, cut_subset hx, hnew, fun he => notMem_cut_of_surpassed hp hlimited h he hx⟩
  · rintro ⟨x, hx, hnew, hroom⟩
    -- the best of the new entries has only entries of the pool above it
    obtain ⟨y, hy, hmax⟩ := Finset.exists_max_image (s.filter fun y => y ∉ p) R.rank
      ⟨x, Finset.mem_filter.mpr ⟨hx, hnew⟩⟩
    obtain ⟨hys, hyp⟩ := Finset.mem_filter.mp hy
    refine ⟨y, ?_, hyp⟩
    by_contra hdropped
    have hy' : Surpassed R k n p y := by
      apply (surpassed_of_dropped hys hdropped).of_above
      intro b hb hlt
      by_contra hbp
      exact absurd (hmax b (Finset.mem_filter.mpr ⟨cut_subset hb, hbp⟩)) (not_le.mpr hlt)
    exact hroom (hy'.lower (hgroup x hx hnew y hys hyp)
      (hmax x (Finset.mem_filter.mpr ⟨hx, hnew⟩)))

theorem cut_subset_of_agree (hp : Set.InjOn R.key p) (hlimited : Limited R k p)
    (hs : Dominated R p s) (ht : Dominated R p t)
    (hagree : ∀ e, ¬ Surpassed R k n p e → (e ∈ s ↔ e ∈ t)) : cut R k n s ⊆ cut R k n t := by
  -- of one group, what is above a kept entry is in both sets
  have hgroup : ∀ e, ¬ Surpassed R k n p e →
      above R.rank R.groupOf s (R.groupOf e) (R.rank e) =
        above R.rank R.groupOf t (R.groupOf e) (R.rank e) := by
    intro e he
    ext b
    rw [mem_above, mem_above]
    apply and_congr_left
    rintro ⟨hg, hlt⟩
    exact hagree b fun hb => he (hb.lower hg.symm hlt.le)
  have htop : ∀ e, ¬ Surpassed R k n p e →
      (e ∈ topOf R.rank R.groupOf k s ↔ e ∈ topOf R.rank R.groupOf k t) := by
    intro e he
    rw [mem_topOf, mem_topOf, hgroup e he, hagree e he]
  intro e he
  have hnot : ¬ Surpassed R k n p e := fun h => notMem_cut_of_surpassed hp hlimited hs h he
  obtain ⟨hetop, hfew⟩ := mem_topOf.mp he
  refine mem_topOf.mpr ⟨(htop e hnot).mp hetop, lt_of_le_of_lt (Finset.card_le_card ?_) hfew⟩
  intro b hb
  obtain ⟨hbt, -, hlt⟩ := mem_above.mp hb
  refine mem_above.mpr ⟨(htop b ?_).mpr hbt, rfl, hlt⟩
  intro hsurpassed
  cases hsurpassed with
  | group hk =>
    have hle := card_above_le_of_dominated hp ht (R.groupOf b) (R.rank b)
    have hlt := (mem_topOf.mp hbt).2
    omega
  | all hn => exact hnot (.all (hn.trans (Finset.card_le_card
      (above_subset (Finset.Subset.refl _) hlt.le))))

theorem limited_cut (hs : Set.InjOn R.rank s) : Limited R k (cut R k n s) := by
  intro d
  have hle : ((topOf R.rank R.groupOf k s).filter fun b => R.groupOf b = d).card ≤ k :=
    card_topOf_le hs
  apply (Finset.card_le_card _).trans hle
  intro b hb
  obtain ⟨hb, hd⟩ := Finset.mem_filter.mp hb
  exact Finset.mem_filter.mpr ⟨topOf_subset hb, hd⟩

theorem card_cut_le (hs : Set.InjOn R.rank s) : (cut R k n s).card ≤ n := by
  have hsub : topOf R.rank R.groupOf k s ⊆ s := topOf_subset
  have hle : ((cut R k n s).filter fun _ => () = ()).card ≤ n := card_topOf_le (hs.mono hsub)
  simpa using hle

end

section

variable [DecidableEq α] [DecidableEq κ] [DecidableEq γ] (R : Ranking α κ γ ρ)

def bounded (k n : Nat) (s : Finset α) : Finset α := cut R k n (latest R s)

variable {R} {k n : Nat} {s t : Finset α}

omit [DecidableEq α] in
theorem bounded_subset : bounded R k n s ⊆ latest R s := cut_subset

omit [DecidableEq α] in
theorem bounded_eq_self (hkey : Set.InjOn R.key s) (hlimited : Limited R k s) (hn : s.card ≤ n) :
    bounded R k n s = s := by
  have hlatest : latest R s = s := by
    apply Finset.filter_true_of_mem
    intro a ha b hb hk
    rw [hkey hb ha hk]
  rw [bounded, hlatest, cut, topOf_eq_self hlimited, topOf_eq_self]
  intro d
  exact (Finset.card_filter_le _ _).trans hn

/-- What was dropped before need not be there when more arrives. -/
theorem bounded_absorb (h : Set.InjOn R.rank (s ∪ t : Finset α)) :
    bounded R k n (bounded R k n s ∪ t) = bounded R k n (s ∪ t) := by
  have hs : Set.InjOn R.rank s := h.mono (Finset.coe_subset.mpr Finset.subset_union_left)
  have hlatest : Set.InjOn R.rank (latest R s) := hs.mono latest_subset
  have hkey : Set.InjOn R.key (bounded R k n s) :=
    (latest_key_injOn hs).mono (Finset.coe_subset.mpr bounded_subset)
  have hlimited : Limited R k (bounded R k n s) := limited_cut hlatest
  have hkept : bounded R k n s ⊆ s := bounded_subset.trans latest_subset
  have hpart : Dominated R (bounded R k n s) (latest R (bounded R k n s ∪ t)) :=
    dominated_latest Finset.subset_union_left
  have hwhole : Dominated R (bounded R k n s) (latest R (s ∪ t)) :=
    dominated_latest (hkept.trans Finset.subset_union_left)
  have hunion : bounded R k n s ∪ t ⊆ s ∪ t := Finset.union_subset_union_left hkept
  have hdropped : ∀ e ∈ latest R s, e ∉ bounded R k n s →
      Surpassed R k n (bounded R k n s) e := fun e he hno => surpassed_of_dropped he hno
  have hagree : ∀ e, ¬ Surpassed R k n (bounded R k n s) e →
      (e ∈ latest R (bounded R k n s ∪ t) ↔ e ∈ latest R (s ∪ t)) := by
    intro e he
    rw [mem_latest, mem_latest]
    constructor
    · rintro ⟨hin, hmax⟩
      refine ⟨hunion hin, ?_⟩
      intro b hb hbkey
      cases Finset.mem_union.mp hb with
      | inr hbt => exact hmax b (Finset.mem_union_right _ hbt) hbkey
      | inl hbs =>
        obtain ⟨m, hm, hmkey, hle⟩ := exists_latest (R := R) hbs
        by_cases hmkept : m ∈ bounded R k n s
        · exact hle.trans (hmax m (Finset.mem_union_left _ hmkept) (hmkey.trans hbkey))
        · by_contra hlt
          have hbelow : R.rank e ≤ R.rank m := (not_le.mp hlt).le.trans hle
          apply he
          apply (hdropped m hm hmkept).lower _ hbelow
          rw [Ranking.groupOf, Ranking.groupOf, hmkey, hbkey]
    · rintro ⟨hin, hmax⟩
      refine ⟨?_, fun b hb => hmax b (hunion hb)⟩
      cases Finset.mem_union.mp hin with
      | inr het => exact Finset.mem_union_right _ het
      | inl hes =>
        by_contra hno
        have hlast : e ∈ latest R s :=
          mem_latest.mpr ⟨hes, fun b hb => hmax b (Finset.mem_union_left _ hb)⟩
        exact he (hdropped e hlast fun hk => hno (Finset.mem_union_left _ hk))
  apply Finset.Subset.antisymm
  · exact cut_subset_of_agree hkey hlimited hpart hwhole hagree
  · exact cut_subset_of_agree hkey hlimited hwhole hpart fun e he => (hagree e he).symm

end

end DnsMonitor.Lib.Leaders
