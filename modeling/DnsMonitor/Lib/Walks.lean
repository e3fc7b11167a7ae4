import Mathlib.Data.List.Chain
import Mathlib.Data.List.Nodup

namespace DnsMonitor.Lib.Walks

/-- What a place says about the way from it. -/
inductive Hop (α : Type) where
  | next (place : α)
  | stop
  | broken
deriving DecidableEq

variable {α : Type}

/-- The places of a way, from a first one on. -/
structure Way (hop : α → Hop α) (first : α) (passed : List α) (last : α) : Prop where
  head : (passed ++ [last]).head? = some first
  hops : (passed ++ [last]).IsChain fun a b => hop a = .next b

variable {hop : α → Hop α} {first last : α} {passed : List α}

theorem way_nil : Way hop first [] last ↔ last = first := by
  constructor
  · intro h
    simpa using h.head
  · intro h
    exact ⟨by simp [h], by simp⟩

theorem way_cons {a : α} :
    Way hop first (a :: passed) last ↔
      a = first ∧ ∃ b, hop a = .next b ∧ Way hop b passed last := by
  constructor
  · intro h
    have ha : a = first := by simpa using h.head
    have hc := List.isChain_cons.mp h.hops
    cases hh : (passed ++ [last]).head? with
    | none => simp at hh
    | some b => exact ⟨ha, b, hc.1 b hh, hh, hc.2⟩
  · intro h
    obtain ⟨ha, b, hb, hw⟩ := h
    refine ⟨by simp [ha], List.isChain_cons.mpr ⟨fun y hy => ?_, hw.hops⟩⟩
    have hby : b = y := Option.mem_some_iff.mp (hw.head ▸ hy)
    rw [hb, hby]

/-- A way that goes on after its places is the beginning of every way that ends. -/
theorem Way.prefix (h : Way hop first passed last) {passed' : List α} {last' : α}
    (h' : Way hop first passed' last') (hstop : hop last' = .stop) :
    passed ++ [last] <+: passed' ++ [last'] := by
  induction passed generalizing first passed' with
  | nil =>
    have hl := way_nil.mp h
    cases passed' with
    | nil =>
      have hl' := way_nil.mp h'
      simp [hl, hl']
    | cons a passed' =>
      rw [hl, (way_cons.mp h').1]
      simp
  | cons a passed ih =>
    obtain ⟨ha, b, hb, hw⟩ := way_cons.mp h
    cases passed' with
    | nil =>
      rw [ha, ← way_nil.mp h', hstop] at hb
      cases hb
    | cons a' passed' =>
      obtain ⟨ha', b', hb', hw'⟩ := way_cons.mp h'
      rw [ha', ← ha, hb] at hb'
      cases hb'
      rw [ha, ha', List.cons_append, List.cons_append, List.cons_prefix_cons]
      exact ⟨rfl, ih hw hw'⟩

theorem Way.not_broken (h : Way hop first passed last) (hstop : hop last = .stop) :
    ∀ a ∈ passed ++ [last], hop a ≠ .broken := by
  induction passed generalizing first with
  | nil =>
    intro a ha
    rw [List.nil_append, List.mem_singleton] at ha
    rw [ha, hstop]
    nofun
  | cons b passed ih =>
    obtain ⟨-, c, hc, hw⟩ := way_cons.mp h
    intro a ha
    cases List.mem_cons.mp ha with
    | inl ha =>
      rw [ha, hc]
      nofun
    | inr ha => exact ih hw a ha

variable [DecidableEq α]

/-- Follow the hops from a place for a bounded number of places, none of them twice: the places
passed and the last one. -/
def follow (hop : α → Hop α) : Nat → List α → α → Option (List α × α)
  | 0, _, _ => none
  | n + 1, seen, a =>
    if a ∈ seen then none
    else
      match hop a with
      | .broken => none
      | .stop => some ([], a)
      | .next b => (follow hop n (a :: seen) b).map fun (passed, last) => (a :: passed, last)

theorem way_of_follow {n : Nat} {seen : List α}
    (h : follow hop n seen first = some (passed, last)) :
    Way hop first passed last ∧ hop last = .stop ∧ (passed ++ [last]).Nodup ∧
      (∀ a ∈ passed ++ [last], a ∉ seen) ∧ passed.length < n := by
  induction n generalizing first passed seen with
  | zero => cases h
  | succ n ih =>
    rw [follow] at h
    split_ifs at h with hseen
    split at h
    · cases h
    · next hh =>
      cases h
      exact ⟨way_nil.mpr rfl, hh, by simp, by simpa using hseen, by simp⟩
    · next b hh =>
      obtain ⟨⟨p, c⟩, hf, he⟩ := Option.map_eq_some_iff.mp h
      cases he
      obtain ⟨hw, hstop, hn, hs, hl⟩ := ih hf
      refine ⟨way_cons.mpr ⟨rfl, b, hh, hw⟩, hstop, ?_, ?_, by simpa using hl⟩
      · rw [List.cons_append, List.nodup_cons]
        exact ⟨fun hm => hs _ hm (by simp), hn⟩
      · intro d hd
        cases List.mem_cons.mp hd with
        | inl hd =>
          rw [hd]
          exact hseen
        | inr hd => exact fun hm => hs d hd (by simp [hm])

theorem follow_of_way {n : Nat} {seen : List α} (hw : Way hop first passed last)
    (hstop : hop last = .stop) (hn : (passed ++ [last]).Nodup)
    (hs : ∀ a ∈ passed ++ [last], a ∉ seen) (hl : passed.length < n) :
    follow hop n seen first = some (passed, last) := by
  have hfirst : first ∉ seen := hs _ (List.mem_of_head? hw.head)
  induction passed generalizing first seen n with
  | nil =>
    obtain ⟨n, rfl⟩ := Nat.exists_eq_add_of_lt hl
    rw [way_nil] at hw
    subst hw
    rw [follow, if_neg hfirst, hstop]
  | cons a passed ih =>
    obtain ⟨n, rfl⟩ := Nat.exists_eq_add_of_lt hl
    obtain ⟨ha, b, hb, hrest⟩ := way_cons.mp hw
    subst ha
    rw [List.cons_append, List.nodup_cons] at hn
    have hsb : ∀ d ∈ passed ++ [last], d ∉ a :: seen := by
      intro d hd hm
      cases List.mem_cons.mp hm with
      | inl hda => exact hn.1 (hda ▸ hd)
      | inr hds => exact hs d (by simp [hd]) hds
    have hlen : passed.length < (a :: passed).length + n := by
      rw [List.length_cons]
      omega
    rw [follow, if_neg hfirst, hb]
    dsimp only
    rw [ih hrest hn.2 hsb hlen (hsb b (List.mem_of_head? hrest.head))]
    rfl

/-- Following fails along a way that breaks, repeats a place or is too long. -/
theorem follow_eq_none {n : Nat} (h : Way hop first passed last)
    (hbad : hop last = .broken ∨ ¬ (passed ++ [last]).Nodup ∨ n ≤ passed.length) :
    follow hop n [] first = none := by
  cases hf : follow hop n [] first with
  | none => rfl
  | some result =>
    obtain ⟨hw, hstop, hn, -, hl⟩ := way_of_follow hf
    have hp := h.prefix hw hstop
    obtain hbroken | hdup | hlong := hbad
    · have hm : last ∈ result.1 ++ [result.2] := hp.subset (by simp)
      exact absurd hbroken (hw.not_broken hstop last hm)
    · exact absurd (hn.sublist hp.sublist) hdup
    · have hle := hp.length_le
      simp only [List.length_append, List.length_singleton] at hle
      omega

omit [DecidableEq α] in
/-- Every place begins a way that ends, breaks or is as long as one likes. -/
theorem exists_way (hop : α → Hop α) (first : α) (n : Nat) :
    ∃ passed last, Way hop first passed last ∧
      (hop last = .stop ∨ hop last = .broken ∨ n ≤ passed.length) := by
  induction n generalizing first with
  | zero => exact ⟨[], first, way_nil.mpr rfl, by simp⟩
  | succ n ih =>
    cases hh : hop first with
    | broken => exact ⟨[], first, way_nil.mpr rfl, by simp [hh]⟩
    | stop => exact ⟨[], first, way_nil.mpr rfl, by simp [hh]⟩
    | next b =>
      obtain ⟨passed, last, hw, hend⟩ := ih b
      refine ⟨first :: passed, last, way_cons.mpr ⟨rfl, b, hh, hw⟩, ?_⟩
      simpa using hend

end DnsMonitor.Lib.Walks
