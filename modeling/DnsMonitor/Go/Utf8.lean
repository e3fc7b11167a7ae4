import DnsMonitor.Go.Unicode

namespace DnsMonitor.Go.Utf8

open DnsMonitor.Go.Strings DnsMonitor.Go.Unicode

def completes (b : UInt8) (s : GoString) : Bool :=
  match sequenceLength b, s with
  | 2, c :: _ => isSecond b c
  | 3, c :: d :: _ => isSecond b c && isContinuation d
  | 4, c :: d :: e :: _ => isSecond b c && isContinuation d && isContinuation e
  | _, _ => false

/-- The counter holds the bytes of the current sequence left to skip. -/
def validFrom : Nat → GoString → Bool
  | _, [] => true
  | k + 1, _ :: s => validFrom k s
  | 0, b :: s =>
    if isAscii b then validFrom 0 s else completes b s && validFrom (sequenceLength b - 1) s

def validString (s : GoString) : Bool := validFrom 0 s

def isRest (b : UInt8) (w : GoString) : Prop :=
  isAscii b = false ∧ w.length + 1 = sequenceLength b ∧ completes b w = true

inductive IsText : GoString → Prop where
  | nil : IsText []
  | ascii {b : UInt8} {s : GoString} (hb : isAscii b = true) (hs : IsText s) : IsText (b :: s)
  | high {b : UInt8} {w s : GoString} (hw : isRest b w) (hs : IsText s) : IsText (b :: (w ++ s))

theorem validFrom_skip (w s : GoString) : validFrom w.length (w ++ s) = validFrom 0 s := by
  induction w with
  | nil => rfl
  | cons b w ih => rw [List.cons_append, List.length_cons, validFrom, ih]

theorem completes_iff {b : UInt8} {s : GoString} (hb : isAscii b = false) :
    completes b s = true ↔ ∃ w t, s = w ++ t ∧ isRest b w := by
  constructor
  · intro h
    unfold completes at h
    split at h
    · next c t hlen => exact ⟨[c], t, rfl, hb, by rw [hlen]; rfl, by simp [completes, hlen, h]⟩
    · next c d t hlen =>
      exact ⟨[c, d], t, rfl, hb, by rw [hlen]; rfl, by simpa [completes, hlen] using h⟩
    · next c d e t hlen =>
      exact ⟨[c, d, e], t, rfl, hb, by rw [hlen]; rfl, by simpa [completes, hlen] using h⟩
    · cases h
  · rintro ⟨w, t, rfl, _, hlen, h⟩
    unfold completes at h ⊢
    split at h
    · next c u h2 =>
      rw [h2, List.length_cons] at hlen
      obtain rfl : u = [] := List.length_eq_zero_iff.mp (by omega)
      simpa [h2] using h
    · next c d u h3 =>
      rw [h3, List.length_cons, List.length_cons] at hlen
      obtain rfl : u = [] := List.length_eq_zero_iff.mp (by omega)
      simpa [h3] using h
    · next c d e u h4 =>
      rw [h4, List.length_cons, List.length_cons, List.length_cons] at hlen
      obtain rfl : u = [] := List.length_eq_zero_iff.mp (by omega)
      simpa [h4] using h
    · cases h

theorem validString_iff {s : GoString} : validString s = true ↔ IsText s := by
  constructor
  · -- by the length, because a character is dropped as a whole
    induction hn : s.length using Nat.strong_induction_on generalizing s with
    | _ n ih =>
      intro h
      cases s with
      | nil => exact .nil
      | cons b s =>
        rw [validString, validFrom] at h
        cases hb : isAscii b with
        | true =>
          rw [hb, if_pos rfl] at h
          exact .ascii hb (ih s.length (by simp [← hn]) rfl h)
        | false =>
          rw [hb, if_neg (by simp), Bool.and_eq_true] at h
          obtain ⟨w, t, rfl, hw⟩ := (completes_iff hb).mp h.1
          have ht : validString t = true := by
            have hskip := h.2
            rwa [← hw.2.1, Nat.add_sub_cancel, validFrom_skip] at hskip
          have hlt : t.length < n := by
            simp only [← hn, List.length_cons, List.length_append]
            omega
          exact .high hw (ih t.length hlt rfl ht)
  · intro h
    induction h with
    | nil => rfl
    | ascii hb _ ih => rw [validString, validFrom, if_pos hb]; exact ih
    | @high b w s hw _ ih =>
      have hb : ¬ isAscii b = true := by simp [hw.1]
      have hcompletes := (completes_iff hw.1).mpr ⟨w, s, rfl, hw⟩
      rw [validString, validFrom, if_neg hb, hcompletes, Bool.true_and, ← hw.2.1,
        Nat.add_sub_cancel, validFrom_skip]
      exact ih

theorem isText_ascii {s : GoString} (h : ∀ b ∈ s, isAscii b = true) : IsText s := by
  induction s with
  | nil => exact .nil
  | cons b s ih => exact .ascii (h b (by simp)) (ih fun c hc => h c (by simp [hc]))

theorem IsText.append {s t : GoString} (hs : IsText s) (ht : IsText t) : IsText (s ++ t) := by
  induction hs with
  | nil => exact ht
  | ascii hb _ ih => exact .ascii hb ih
  | high hw _ ih =>
    rw [List.cons_append, List.append_assoc]
    exact .high hw ih

theorem isText_cons {b : UInt8} {t : GoString} (h : IsText (b :: t)) :
    isAscii b = true ∧ IsText t ∨ ∃ w s, t = w ++ s ∧ isRest b w ∧ IsText s := by
  generalize hx : b :: t = x at h
  cases h with
  | nil => cases hx
  | ascii hb hs =>
    obtain ⟨rfl, rfl⟩ := List.cons.inj hx
    exact .inl ⟨hb, hs⟩
  | high hw hs =>
    obtain ⟨rfl, rfl⟩ := List.cons.inj hx
    exact .inr ⟨_, _, rfl, hw, hs⟩

theorem continuation_facts {b : UInt8} (h : isContinuation b = true) :
    isAscii b = false ∧ sequenceLength b = 0 := by
  revert h b
  apply forall_byte
  decide +kernel

theorem continuation_of_isRest {b c : UInt8} {w : GoString} (h : isRest b w) (hc : c ∈ w) :
    isContinuation c = true := by
  obtain ⟨_, hlen, hw⟩ := h
  unfold completes at hw
  split at hw
  · next c' t h2 =>
    rw [h2, List.length_cons] at hlen
    obtain rfl : t = [] := List.length_eq_zero_iff.mp (by omega)
    simp only [isSecond, Bool.and_eq_true] at hw
    rw [List.mem_singleton.mp hc]
    exact hw.1.1.1.1
  · next c' d t h3 =>
    rw [h3, List.length_cons, List.length_cons] at hlen
    obtain rfl : t = [] := List.length_eq_zero_iff.mp (by omega)
    simp only [isSecond, Bool.and_eq_true] at hw
    simp only [List.mem_cons, List.not_mem_nil, or_false] at hc
    obtain rfl | rfl := hc
    · exact hw.1.1.1.1.1
    · exact hw.2
  · next c' d e t h4 =>
    rw [h4, List.length_cons, List.length_cons, List.length_cons] at hlen
    obtain rfl : t = [] := List.length_eq_zero_iff.mp (by omega)
    simp only [isSecond, Bool.and_eq_true] at hw
    simp only [List.mem_cons, List.not_mem_nil, or_false] at hc
    obtain rfl | rfl | rfl := hc
    · exact hw.1.1.1.1.1.1
    · exact hw.1.2
    · exact hw.2
  · cases hw

theorem IsText.flatMap {f : UInt8 → GoString}
    (hascii : ∀ b, isAscii b = true → ∀ c ∈ f b, isAscii c = true)
    (hhigh : ∀ b, isAscii b = false → f b = [b]) {s : GoString} (h : IsText s) :
    IsText (s.flatMap f) := by
  induction h with
  | nil => exact .nil
  | ascii hb _ ih => exact (isText_ascii (hascii _ hb)).append ih
  | @high b w s hw _ ih =>
    have hkeep : w.flatMap f = w := by
      have heach : ∀ c ∈ w, f c = [c] := fun c hc =>
        hhigh c (continuation_facts (continuation_of_isRest hw hc)).1
      rw [List.flatMap_congr heach, ← List.map_eq_flatMap, List.map_id']
    rw [List.flatMap_cons, List.flatMap_append, hhigh b hw.1, hkeep, List.singleton_append]
    exact .high hw ih

theorem IsText.of_append_left {w s : GoString} (hw : IsText w) (h : IsText (w ++ s)) :
    IsText s := by
  induction hw with
  | nil => exact h
  | ascii hb _ ih =>
    obtain ⟨_, h⟩ | ⟨_, _, _, hr, _⟩ := isText_cons h
    · exact ih h
    · simp [hr.1] at hb
  | @high b v t hv _ ih =>
    rw [List.cons_append, List.append_assoc] at h
    obtain ⟨hb, _⟩ | ⟨v', u, heq, hv', hu⟩ := isText_cons h
    · simp [hv.1] at hb
    · -- the first byte gives the length of the character
      have hlen : v.length = v'.length := by
        have h₁ := hv.2.1
        have h₂ := hv'.2.1
        omega
      obtain ⟨_, rfl⟩ := List.append_inj heq hlen
      exact ih hu

theorem IsText.of_append_right {s w : GoString} (hw : IsText w) (h : IsText (s ++ w)) :
    IsText s := by
  induction hn : s.length using Nat.strong_induction_on generalizing s with
  | _ n ih =>
    cases s with
    | nil => exact .nil
    | cons b s =>
      rw [List.cons_append] at h
      obtain ⟨hb, h⟩ | ⟨v, t, heq, hv, ht⟩ := isText_cons h
      · exact .ascii hb (ih s.length (by simp [← hn]) h rfl)
      · obtain ⟨x, rfl, hx⟩ | ⟨x, rfl, hx⟩ := List.append_eq_append_iff.mp heq
        · -- the character would end inside what is cut off
          cases x with
          | nil =>
            rw [List.append_nil] at hv
            simpa using IsText.high hv .nil
          | cons c x =>
            have hc := continuation_of_isRest hv (c := c) (by simp)
            rw [hx] at hw
            obtain ⟨hnot, hzero⟩ := continuation_facts hc
            obtain ⟨hascii, _⟩ | ⟨_, _, _, hrest, _⟩ := isText_cons hw
            · simp [hnot] at hascii
            · have := hrest.2.1
              omega
        · rw [hx] at ht
          have hlt : x.length < n := by
            simp only [← hn, List.length_cons, List.length_append]
            omega
          exact .high hv (ih x.length hlt ht rfl)

end DnsMonitor.Go.Utf8
