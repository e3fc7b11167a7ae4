import DnsMonitor.Go.Csv
import DnsMonitor.Go.Utf8

namespace DnsMonitor.Go.Chars

open DnsMonitor.Go.Strings DnsMonitor.Go.Unicode DnsMonitor.Go.Utf8 DnsMonitor.Go.Csv

def isChar : GoString → Prop
  | [] => False
  | b :: w => isAscii b = true ∧ w = [] ∨ isRest b w

instance (b : UInt8) (w : GoString) : Decidable (isRest b w) := inferInstanceAs (Decidable (_ ∧ _))

instance : DecidablePred isChar
  | [] => inferInstanceAs (Decidable False)
  | _ :: _ => inferInstanceAs (Decidable (_ ∨ _))

theorem isChar_spaces : ∀ w ∈ spaces, isChar w := by decide +kernel

theorem exists_chars {s : GoString} (h : IsText s) :
    ∃ cs : List GoString, s = cs.flatten ∧ ∀ c ∈ cs, isChar c := by
  induction h with
  | nil => exact ⟨[], rfl, by simp⟩
  | @ascii b s hb _ ih =>
    obtain ⟨cs, rfl, hcs⟩ := ih
    exact ⟨[b] :: cs, rfl, List.forall_mem_cons.mpr ⟨.inl ⟨hb, rfl⟩, hcs⟩⟩
  | @high b w s hw _ ih =>
    obtain ⟨cs, rfl, hcs⟩ := ih
    exact ⟨(b :: w) :: cs, rfl, List.forall_mem_cons.mpr ⟨.inr hw, hcs⟩⟩

theorem isText_flatten {cs : List GoString} (h : ∀ c ∈ cs, isChar c) : IsText cs.flatten := by
  induction cs with
  | nil => exact .nil
  | cons c cs ih =>
    rw [List.forall_mem_cons] at h
    cases c with
    | nil => exact h.1.elim
    | cons b w =>
      obtain ⟨hb, rfl⟩ | hw := h.1
      · exact .ascii hb (ih h.2)
      · exact .high hw (ih h.2)

theorem char_of_start {c w : GoString} (hc : isChar c) (hw : isChar w) (h : c <+: w) : c = w := by
  cases c with
  | nil => exact hc.elim
  | cons b u =>
    cases w with
    | nil => exact hw.elim
    | cons x v =>
      obtain ⟨rfl, hfront⟩ := List.cons_prefix_cons.mp h
      have hlength : u.length = v.length := by
        obtain ⟨hb, rfl⟩ | hu := hc
        · obtain ⟨_, rfl⟩ | hv := hw
          · rfl
          · simp [hv.1] at hb
        · obtain ⟨hb, _⟩ | hv := hw
          · simp [hu.1] at hb
          · have h₁ := hu.2.1
            have h₂ := hv.2.1
            omega
      rw [hfront.eq_of_length hlength]

/-- No character ends another one, because its first byte continues none. -/
theorem char_of_end {c w : GoString} (hc : isChar c) (hw : isChar w) (h : c <:+ w) : c = w := by
  cases c with
  | nil => exact hc.elim
  | cons b u =>
    cases w with
    | nil => exact hw.elim
    | cons x v =>
      cases List.suffix_cons_iff.mp h with
      | inl heq => exact heq
      | inr hsuffix =>
        have hmem : b ∈ v := hsuffix.subset (by simp)
        obtain ⟨_, rfl⟩ | hv := hw
        · simp at hmem
        · obtain ⟨hnot, hzero⟩ := continuation_facts (continuation_of_isRest hv hmem)
          obtain ⟨hb, _⟩ | hu := hc
          · simp [hnot] at hb
          · have := hu.2.1
            omega

theorem char_prefix_append {c w : GoString} (hc : isChar c) (hw : isChar w) (s : GoString) :
    w <+: c ++ s ↔ w = c := by
  constructor
  · intro h
    cases List.prefix_or_prefix_of_prefix h (List.prefix_append c s) with
    | inl h => exact char_of_start hw hc h
    | inr h => exact (char_of_start hc hw h).symm
  · rintro rfl
    exact List.prefix_append _ _

theorem char_suffix_append {c w : GoString} (hc : isChar c) (hw : isChar w) (s : GoString) :
    w <:+ s ++ c ↔ w = c := by
  constructor
  · intro h
    cases List.suffix_or_suffix_of_suffix h (List.suffix_append s c) with
    | inl h => exact char_of_end hw hc h
    | inr h => exact (char_of_end hc hw h).symm
  · rintro rfl
    exact List.suffix_append _ _

theorem isTrimmed_flatten {cs : List GoString} (h : ∀ c ∈ cs, isChar c) :
    isTrimmed cs.flatten ↔ (∀ c ∈ cs.head?, c ∉ spaces) ∧ ∀ c ∈ cs.getLast?, c ∉ spaces := by
  have hne : ∀ w ∈ spaces, w ≠ [] := by decide
  have hstart : leading spaces cs.flatten = none ↔ ∀ c ∈ cs.head?, c ∉ spaces := by
    rw [leading_eq_none]
    cases cs with
    | nil => simpa using fun w hw hnil => hne w hw (List.prefix_nil.mp hnil)
    | cons c cs =>
      have hc := h c (by simp)
      constructor
      · intro hno d hd hspace
        obtain rfl : c = d := by simpa using hd
        exact hno c hspace (List.prefix_append _ _)
      · intro hno w hw hfront
        have := (char_prefix_append hc (isChar_spaces w hw) cs.flatten).mp hfront
        exact hno c rfl (this ▸ hw)
  have hend : leading (spaces.map List.reverse) cs.flatten.reverse = none ↔
      ∀ c ∈ cs.getLast?, c ∉ spaces := by
    rw [leading_eq_none]
    simp only [List.forall_mem_map, List.reverse_prefix]
    cases cs using List.reverseRecOn with
    | nil => simpa using fun w hw hnil => hne w hw (List.suffix_nil.mp hnil)
    | append_singleton cs c =>
      have hc := h c (by simp)
      rw [List.flatten_append, List.flatten_singleton]
      constructor
      · intro hno d hd hspace
        obtain rfl : c = d := by simpa using hd
        exact hno c hspace (List.suffix_append _ _)
      · intro hno w hw hsuffix
        have := (char_suffix_append hc (isChar_spaces w hw) cs.flatten).mp hsuffix
        exact hno c (by simp) (this ▸ hw)
  rw [isTrimmed, hstart, hend]

theorem not_mem_isRest {b c : UInt8} {w : GoString} (hw : isRest b w) (hc : isAscii c = true) :
    c ∉ w := by
  intro hmem
  have := (continuation_facts (continuation_of_isRest hw hmem)).1
  simp [this] at hc

theorem isText_split {s t : GoString} {b : UInt8} (hb : isAscii b = true)
    (h : IsText (s ++ b :: t)) : IsText s ∧ IsText t := by
  generalize hx : s ++ b :: t = x at h
  induction h generalizing s with
  | nil => simp at hx
  | @ascii c u hc hu ih =>
    cases s with
    | nil =>
      obtain ⟨rfl, rfl⟩ := List.cons.inj hx
      exact ⟨.nil, hu⟩
    | cons c' s =>
      obtain ⟨rfl, htail⟩ := List.cons.inj hx
      obtain ⟨hs, ht⟩ := ih htail
      exact ⟨.ascii hc hs, ht⟩
  | @high c w u hw hu ih =>
    cases s with
    | nil =>
      obtain ⟨rfl, -⟩ := List.cons.inj hx
      simp [hw.1] at hb
    | cons c' s =>
      obtain ⟨rfl, htail⟩ := List.cons.inj hx
      obtain ⟨r, rfl, hr⟩ | ⟨r, rfl, hr⟩ := List.append_eq_append_iff.mp htail
      · cases r with
        | nil =>
          rw [List.nil_append] at hr
          obtain ⟨-, ht⟩ := ih (s := []) (by simpa using hr)
          rw [List.append_nil] at hw
          exact ⟨by simpa using IsText.high hw .nil, ht⟩
        | cons d r =>
          obtain ⟨rfl, -⟩ := List.cons.inj hr
          exact absurd (by simp) (not_mem_isRest hw hb)
      · obtain ⟨hs, ht⟩ := ih hr.symm
        exact ⟨.high hw hs, ht⟩

theorem dropWords_skip (ws : List GoString) (x s : GoString) :
    dropWords ws x.length (x ++ s) = dropWords ws 0 s := by
  induction x with
  | nil => rfl
  | cons b x ih => exact ih

theorem dropWords_words {ws : List GoString} (hne : [] ∉ ws) (s : GoString) :
    ∃ l : List GoString, (∀ w ∈ l, w ∈ ws) ∧ s = l.flatten ++ dropWords ws 0 s := by
  induction hn : s.length using Nat.strong_induction_on generalizing s with
  | _ n ih =>
    cases hl : leading ws s with
    | none => exact ⟨[], by simp, by simp [dropWords_of_leading hl]⟩
    | some w =>
      have hw : w ∈ ws := List.mem_of_find?_eq_some hl
      obtain ⟨r, rfl⟩ : w <+: s := by simpa using List.find?_some hl
      cases w with
      | nil => exact absurd hw hne
      | cons b w =>
        have hdrop : dropWords ws 0 (b :: w ++ r) = dropWords ws 0 r := by
          rw [List.cons_append] at hl ⊢
          rw [dropWords, hl]
          exact dropWords_skip ws w r
        have hlt : r.length < n := by
          simp only [← hn, List.length_cons, List.length_append]
          omega
        obtain ⟨l, hws, hr⟩ := ih r.length hlt r rfl
        refine ⟨(b :: w) :: l, List.forall_mem_cons.mpr ⟨hw, hws⟩, ?_⟩
        rw [hdrop, List.flatten_cons, List.append_assoc, ← hr]

theorem isText_trimSpace {s : GoString} (h : IsText s) : IsText (trimSpace s) := by
  obtain ⟨l, hl, hs⟩ := dropWords_words (show [] ∉ spaces by decide) s
  have hstart : IsText (dropWords spaces 0 s) := by
    apply IsText.of_append_left (isText_flatten fun w hw => isChar_spaces w (hl w hw))
    rw [← hs]
    exact h
  rw [trimSpace]
  generalize dropWords spaces 0 s = u at hstart
  obtain ⟨m, hm, hu⟩ := dropWords_words (show [] ∉ spaces.map List.reverse by decide) u.reverse
  have hback : (dropWords (spaces.map List.reverse) 0 u.reverse).reverse ++
      (m.map List.reverse).reverse.flatten = u := by
    rw [← List.reverse_flatten, ← List.reverse_append, ← hu, List.reverse_reverse]
  have hchars : ∀ c ∈ (m.map List.reverse).reverse, isChar c := by
    intro c hc
    rw [List.mem_reverse] at hc
    obtain ⟨w, hw, rfl⟩ := List.mem_map.mp hc
    obtain ⟨v, hv, rfl⟩ := List.mem_map.mp (hm w hw)
    rw [List.reverse_reverse]
    exact isChar_spaces v hv
  apply IsText.of_append_right (isText_flatten hchars)
  rw [hback]
  exact hstart

theorem withoutCR_char {c : GoString} (h : isChar c) :
    withoutCR c = if c = [cr] then [] else c := by
  have hkeep : cr ∉ c → withoutCR c = c := by
    intro hno
    apply List.filter_eq_self.mpr
    intro b hb
    exact decide_eq_true fun he => hno (he ▸ hb)
  by_cases hc : c = [cr]
  · rw [if_pos hc, hc]
    rfl
  · rw [if_neg hc]
    apply hkeep
    cases c with
    | nil => exact h.elim
    | cons b w =>
      obtain ⟨_, rfl⟩ | hw := h
      · simpa [eq_comm] using hc
      · have hne : cr ≠ b := by
          rintro rfl
          exact absurd hw.1 (by decide)
        rw [List.mem_cons, not_or]
        exact ⟨hne, not_mem_isRest hw (by decide)⟩

theorem withoutCR_flatten {cs : List GoString} (h : ∀ c ∈ cs, isChar c) :
    withoutCR cs.flatten = (cs.filter fun c => c ≠ [cr]).flatten := by
  induction cs with
  | nil => rfl
  | cons c cs ih =>
    rw [List.forall_mem_cons] at h
    have happend : withoutCR (c ++ cs.flatten) = withoutCR c ++ withoutCR cs.flatten :=
      List.filter_append ..
    rw [List.flatten_cons, happend, withoutCR_char h.1, ih h.2]
    by_cases hc : c = [cr]
    · rw [if_pos hc, List.filter_cons_of_neg (by simp [hc]), List.nil_append]
    · rw [if_neg hc, List.filter_cons_of_pos (by simp [hc]), List.flatten_cons]

theorem isText_withoutCR {s : GoString} (h : IsText s) : IsText (withoutCR s) := by
  obtain ⟨cs, rfl, hcs⟩ := exists_chars h
  rw [withoutCR_flatten hcs]
  exact isText_flatten fun c hc => hcs c (List.mem_of_mem_filter hc)

theorem isTrimmed_withoutCR {s : GoString} (h : IsText s) (ht : isTrimmed s) :
    isTrimmed (withoutCR s) := by
  obtain ⟨cs, rfl, hcs⟩ := exists_chars h
  obtain ⟨hhead, hlast⟩ := (isTrimmed_flatten hcs).mp ht
  rw [withoutCR_flatten hcs, isTrimmed_flatten fun c hc => hcs c (List.mem_of_mem_filter hc)]
  have hcr : ∀ c, c ∉ spaces → c ≠ [cr] := by
    rintro _ hno rfl
    exact hno (by decide)
  constructor
  · cases cs with
    | nil => simp
    | cons c cs =>
      have hc := hhead c rfl
      rw [List.filter_cons_of_pos (by simpa using hcr c hc)]
      simpa using hc
  · cases cs using List.reverseRecOn with
    | nil => simp
    | append_singleton cs c =>
      have hc := hlast c (by simp)
      rw [List.filter_append, List.filter_cons_of_pos (by simpa using hcr c hc)]
      simpa using hc

theorem quotedByte_facts : (∀ b, isAscii b = true → ∀ c ∈ quotedByte b, isAscii c = true) ∧
    ∀ b, isAscii b = false → quotedByte b = [b] := by
  constructor
  · intro b hb
    have h : ∀ b, isAscii b = true → (quotedByte b).all isAscii = true := by
      apply forall_byte
      decide +kernel
    exact List.all_eq_true.mp (h b hb)
  · apply forall_byte
    decide +kernel

theorem isText_writeField {v : GoString} (h : IsText v) : IsText (writeField v) := by
  have hquote : IsText [quote] := isText_ascii (by decide +kernel)
  unfold writeField
  split_ifs
  · exact hquote.append ((h.flatMap quotedByte_facts.1 quotedByte_facts.2).append hquote)
  · exact h

theorem isText_write {r : List GoString} (h : ∀ v ∈ r, IsText v) : IsText (write r) := by
  refine IsText.append ?_ (isText_ascii (by decide +kernel))
  induction r with
  | nil => exact .nil
  | cons v r ih =>
    rw [List.forall_mem_cons] at h
    cases r with
    | nil => simpa [List.intercalate] using isText_writeField h.1
    | cons u r =>
      rw [List.map_cons, List.map_cons, List.intercalate_cons_cons, List.append_assoc]
      exact (isText_writeField h.1).append (.ascii (by decide) (ih h.2))

theorem isText_writeAll {records : List (List GoString)} (h : ∀ r ∈ records, ∀ v ∈ r, IsText v) :
    IsText (writeAll records) := by
  induction records with
  | nil => exact .nil
  | cons r records ih =>
    rw [List.forall_mem_cons] at h
    exact (isText_write h.1).append (ih h.2)

end DnsMonitor.Go.Chars
