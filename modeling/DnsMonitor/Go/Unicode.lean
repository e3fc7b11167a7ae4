import DnsMonitor.Go.Strings

namespace DnsMonitor.Go.Unicode

open DnsMonitor.Go.Strings

/-- The tables of the package `unicode` for characters outside ASCII. The one fact the
program relies on is that a character which lowers into ASCII lowers to a small letter
(the Kelvin sign and the dotted capital I do). Characters that `unicode.SimpleFold` connects
have one value of `fold`. -/
class CaseTables where
  lower : Nat → Nat
  upper : Nat → Nat
  fold : Nat → Nat
  lower_ascii : ∀ r, 0x80 ≤ r → lower r < 0x80 → 0x61 ≤ lower r ∧ lower r ≤ 0x7A

/-- Tables that know no letters outside ASCII, for running the program on ASCII text. -/
@[reducible] def asciiTables : CaseTables where
  lower r := r
  upper r := r
  fold r := r
  lower_ascii _ h hl := absurd hl (Nat.not_lt.mpr h)

def runeError : Nat := 0xFFFD

def isContinuation (b : UInt8) : Bool := 0x80 ≤ b && b ≤ 0xBF

/-- The first byte of a sequence restricts the second one, against overlong forms,
surrogates and values above the last character. -/
def isSecond (b c : UInt8) : Bool :=
  isContinuation c && (b != 0xE0 || 0xA0 ≤ c) && (b != 0xED || c ≤ 0x9F) &&
    (b != 0xF0 || 0x90 ≤ c) && (b != 0xF4 || c ≤ 0x8F)

def sequenceLength (b : UInt8) : Nat :=
  if b < 0x80 then 1
  else if 0xC2 ≤ b && b ≤ 0xDF then 2
  else if 0xE0 ≤ b && b ≤ 0xEF then 3
  else if 0xF0 ≤ b && b ≤ 0xF4 then 4
  else 0

/-- `utf8.DecodeRune` at a nonempty text: the character and its width. A byte that starts no
valid sequence is read as the error character of width one. -/
def decodeRune (b : UInt8) (s : GoString) : Nat × Nat :=
  match sequenceLength b, s with
  | 1, _ => (b.toNat, 1)
  | 2, c :: _ =>
    if isSecond b c then (b.toNat % 0x20 * 0x40 + c.toNat % 0x40, 2) else (runeError, 1)
  | 3, c :: d :: _ =>
    if isSecond b c && isContinuation d then
      (b.toNat % 0x10 * 0x1000 + c.toNat % 0x40 * 0x40 + d.toNat % 0x40, 3)
    else (runeError, 1)
  | 4, c :: d :: e :: _ =>
    if isSecond b c && isContinuation d && isContinuation e then
      (b.toNat % 8 * 0x40000 + c.toNat % 0x40 * 0x1000 + d.toNat % 0x40 * 0x40 + e.toNat % 0x40, 4)
    else (runeError, 1)
  | _, _ => (runeError, 1)

def encodeRune (r : Nat) : GoString :=
  if r < 0x80 then [UInt8.ofNat r]
  else if r < 0x800 then [UInt8.ofNat (0xC0 + r / 0x40), UInt8.ofNat (0x80 + r % 0x40)]
  else if (0xD800 ≤ r && r ≤ 0xDFFF) || 0x10FFFF < r then [0xEF, 0xBF, 0xBD]
  else if r < 0x10000 then
    [UInt8.ofNat (0xE0 + r / 0x1000), UInt8.ofNat (0x80 + r / 0x40 % 0x40),
      UInt8.ofNat (0x80 + r % 0x40)]
  else
    [UInt8.ofNat (0xF0 + r / 0x40000), UInt8.ofNat (0x80 + r / 0x1000 % 0x40),
      UInt8.ofNat (0x80 + r / 0x40 % 0x40), UInt8.ofNat (0x80 + r % 0x40)]

/-- `strings.Map`. The counter holds the bytes of the current character left to skip. -/
def mapRunes (f : Nat → Nat) : Nat → GoString → GoString
  | _, [] => []
  | k + 1, _ :: s => mapRunes f k s
  | 0, b :: s => encodeRune (f (decodeRune b s).1) ++ mapRunes f ((decodeRune b s).2 - 1) s

/-- The characters of a text, as `range` over a string yields them. -/
def runes : Nat → GoString → List Nat
  | _, [] => []
  | k + 1, _ :: s => runes k s
  | 0, b :: s => (decodeRune b s).1 :: runes ((decodeRune b s).2 - 1) s

section Case

variable [CaseTables]

def lowerRune (r : Nat) : Nat :=
  if r < 0x80 then (if 0x41 ≤ r ∧ r ≤ 0x5A then r + 0x20 else r) else CaseTables.lower r

def upperRune (r : Nat) : Nat :=
  if r < 0x80 then (if 0x61 ≤ r ∧ r ≤ 0x7A then r - 0x20 else r) else CaseTables.upper r

def toLower (s : GoString) : GoString := mapRunes lowerRune 0 s

def toUpper (s : GoString) : GoString := mapRunes upperRune 0 s

def foldRune (r : Nat) : Nat := if r < 0x80 then upperRune r else CaseTables.fold r

def equalFold (s t : GoString) : Bool := (runes 0 s).map foldRune = (runes 0 t).map foldRune

end Case

def lowerByte (b : UInt8) : UInt8 := if 0x41 ≤ b && b ≤ 0x5A then b + 0x20 else b

def upperByte (b : UInt8) : UInt8 := if 0x61 ≤ b && b ≤ 0x7A then b - 0x20 else b

def isAscii (b : UInt8) : Bool := b < 0x80

theorem decodeRune_ascii {b : UInt8} (h : isAscii b = true) (s : GoString) :
    decodeRune b s = (b.toNat, 1) := by
  have hl : sequenceLength b = 1 := by
    simp only [isAscii, decide_eq_true_eq] at h
    simp [sequenceLength, h]
  simp [decodeRune, hl]

theorem encodeRune_byte {b : UInt8} (h : isAscii b = true) : encodeRune b.toNat = [b] := by
  have hb : b.toNat < 0x80 := by simpa [isAscii, UInt8.lt_iff_toNat_lt] using h
  simp [encodeRune, hb]

theorem case_facts : ∀ b, isAscii b = true →
    ((if 0x41 ≤ b.toNat ∧ b.toNat ≤ 0x5A then b.toNat + 0x20 else b.toNat) = (lowerByte b).toNat ∧
      isAscii (lowerByte b) = true ∧ lowerByte (upperByte b) = lowerByte b) ∧
    (if 0x61 ≤ b.toNat ∧ b.toNat ≤ 0x7A then b.toNat - 0x20 else b.toNat) = (upperByte b).toNat ∧
      isAscii (upperByte b) = true ∧ upperByte (lowerByte b) = upperByte b := by
  apply forall_byte
  decide +kernel

theorem isAscii_lowerByte {b : UInt8} (h : isAscii b = true) : isAscii (lowerByte b) = true :=
  (case_facts b h).1.2.1

theorem isAscii_upperByte {b : UInt8} (h : isAscii b = true) : isAscii (upperByte b) = true :=
  (case_facts b h).2.2.1

theorem mapRunes_ascii (f : Nat → Nat) (g : UInt8 → UInt8)
    (hf : ∀ b, isAscii b = true → f b.toNat = (g b).toNat ∧ isAscii (g b) = true)
    {s : GoString} (h : ∀ b ∈ s, isAscii b = true) : mapRunes f 0 s = s.map g := by
  induction s with
  | nil => rfl
  | cons b s ih =>
    obtain ⟨hfb, hgb⟩ := hf b (h b (by simp))
    have hs := ih (fun c hc => h c (by simp [hc]))
    simp [mapRunes, decodeRune_ascii (h b (by simp)), hfb, encodeRune_byte hgb, hs]

section Case

variable [CaseTables]

theorem lowerRune_byte {b : UInt8} (h : isAscii b = true) :
    lowerRune b.toNat = (lowerByte b).toNat := by
  have hb : b.toNat < 0x80 := by simpa [isAscii, UInt8.lt_iff_toNat_lt] using h
  rw [lowerRune, if_pos hb]
  exact (case_facts b h).1.1

theorem upperRune_byte {b : UInt8} (h : isAscii b = true) :
    upperRune b.toNat = (upperByte b).toNat := by
  have hb : b.toNat < 0x80 := by simpa [isAscii, UInt8.lt_iff_toNat_lt] using h
  rw [upperRune, if_pos hb]
  exact (case_facts b h).2.1

theorem toLower_ascii {s : GoString} (h : ∀ b ∈ s, isAscii b = true) :
    toLower s = s.map lowerByte :=
  mapRunes_ascii _ _ (fun _ hb => ⟨lowerRune_byte hb, isAscii_lowerByte hb⟩) h

theorem toUpper_ascii {s : GoString} (h : ∀ b ∈ s, isAscii b = true) :
    toUpper s = s.map upperByte :=
  mapRunes_ascii _ _ (fun _ hb => ⟨upperRune_byte hb, isAscii_upperByte hb⟩) h

end Case

theorem runes_ascii {s : GoString} (h : ∀ b ∈ s, isAscii b = true) :
    runes 0 s = s.map UInt8.toNat := by
  induction s with
  | nil => rfl
  | cons b s ih =>
    have hs := ih (fun c hc => h c (by simp [hc]))
    simp [runes, decodeRune_ascii (h b (by simp)), hs]

theorem upperByte_inj {b c : UInt8} (hb : isAscii b = true) (hc : isAscii c = true) :
    upperByte b = upperByte c ↔ lowerByte b = lowerByte c := by
  have hl : ∀ b, isAscii b = true → lowerByte (upperByte b) = lowerByte b :=
    fun b h => (case_facts b h).1.2.2
  have hu : ∀ b, isAscii b = true → upperByte (lowerByte b) = upperByte b :=
    fun b h => (case_facts b h).2.2.2
  constructor
  · intro h
    rw [← hl b hb, h, hl c hc]
  · intro h
    rw [← hu b hb, h, hu c hc]

section Case

variable [CaseTables]

theorem foldRune_byte {b : UInt8} (h : isAscii b = true) :
    foldRune b.toNat = (upperByte b).toNat := by
  have hb : b.toNat < 0x80 := by simpa [isAscii, UInt8.lt_iff_toNat_lt] using h
  rw [foldRune, if_pos hb, upperRune_byte h]

theorem equalFold_ascii {s t : GoString} (hs : ∀ b ∈ s, isAscii b = true)
    (ht : ∀ b ∈ t, isAscii b = true) : equalFold s t = true ↔ toLower s = toLower t := by
  rw [equalFold, decide_eq_true_iff, runes_ascii hs, runes_ascii ht, toLower_ascii hs,
    toLower_ascii ht]
  induction s generalizing t with
  | nil => cases t <;> simp
  | cons b s ih =>
    cases t with
    | nil => simp
    | cons c t =>
      have hb := hs b (by simp)
      have hc := ht c (by simp)
      have hst := ih (t := t) (fun d hd => hs d (by simp [hd])) (fun d hd => ht d (by simp [hd]))
      simp only [List.map_cons, List.cons.injEq, foldRune_byte hb, foldRune_byte hc,
        UInt8.toNat_inj, upperByte_inj hb hc, hst]

end Case

theorem encodeRune_ne_nil (r : Nat) : encodeRune r ≠ [] := by
  simp only [encodeRune]
  split_ifs <;> simp

theorem encodeRune_high {r : Nat} (h : 0x80 ≤ r) {b : UInt8} (hb : b ∈ encodeRune r) :
    0x80 ≤ b := by
  have h0 : ¬ r < 0x80 := by omega
  rw [encodeRune, if_neg h0] at hb
  split_ifs at hb with h1 h2 h3 <;>
    simp only [List.mem_cons, List.not_mem_nil, or_false] at hb
  · obtain rfl | rfl := hb <;> simp only [UInt8.le_iff_toNat_le, UInt8.toNat_ofNat'] <;>
      simp <;> omega
  · obtain rfl | rfl | rfl := hb <;> decide
  · obtain rfl | rfl | rfl := hb <;> simp only [UInt8.le_iff_toNat_le, UInt8.toNat_ofNat'] <;>
      simp <;> omega
  · have hr : r ≤ 0x10FFFF := by
      simp only [Bool.or_eq_true, decide_eq_true_eq, not_or, not_lt] at h2
      exact h2.2
    obtain rfl | rfl | rfl | rfl := hb <;>
      simp only [UInt8.le_iff_toNat_le, UInt8.toNat_ofNat'] <;> simp <;> omega

theorem leading_payload (b : UInt8) :
    (sequenceLength b = 1 → isAscii b = true) ∧ (sequenceLength b = 2 → 2 ≤ b.toNat % 0x20) ∧
      (sequenceLength b = 3 → 1 ≤ b.toNat % 0x10 ∨ b = 0xE0) ∧
      (sequenceLength b = 4 → 1 ≤ b.toNat % 8 ∨ b = 0xF0) := by
  revert b
  apply forall_byte
  decide +kernel

theorem second_payload {b : UInt8} (hb : b = 0xE0 ∨ b = 0xF0) {c : UInt8}
    (h : isSecond b c = true) : 0x10 ≤ c.toNat % 0x40 := by
  revert h c
  obtain rfl | rfl := hb <;> apply forall_byte <;> decide +kernel

theorem decodeRune_high {b : UInt8} (h : isAscii b = false) (s : GoString) :
    0x80 ≤ (decodeRune b s).1 := by
  have herr : 0x80 ≤ runeError := by decide
  obtain ⟨h1, h2, h3, h4⟩ := leading_payload b
  unfold decodeRune
  split
  · next hl => simp [h1 hl] at h
  · next c _ hl =>
    have hb := h2 hl
    split_ifs
    · change 0x80 ≤ b.toNat % 0x20 * 0x40 + c.toNat % 0x40
      omega
    · exact herr
  · next c d _ hl =>
    split_ifs with hc
    · change 0x80 ≤ b.toNat % 0x10 * 0x1000 + c.toNat % 0x40 * 0x40 + d.toNat % 0x40
      cases h3 hl with
      | inl hb => omega
      | inr hb =>
        have hp := second_payload (Or.inl hb) (Bool.and_eq_true_iff.mp hc).1
        omega
    · exact herr
  · next c d e _ hl =>
    split_ifs with hc
    · change 0x80 ≤ b.toNat % 8 * 0x40000 + c.toNat % 0x40 * 0x1000 + d.toNat % 0x40 * 0x40 +
        e.toNat % 0x40
      cases h4 hl with
      | inl hb => omega
      | inr hb =>
        simp only [Bool.and_eq_true] at hc
        have hp := second_payload (Or.inr hb) hc.1.1
        omega
    · exact herr
  · exact herr

theorem decodeRune_width (b : UInt8) (s : GoString) :
    1 ≤ (decodeRune b s).2 ∧ (decodeRune b s).2 ≤ s.length + 1 := by
  unfold decodeRune
  split <;> (try split_ifs) <;> simp

theorem decodeRune_append {c : UInt8} (hc : isAscii c = true) (b : UInt8) (s t : GoString) :
    decodeRune b (s ++ c :: t) = decodeRune b s := by
  have hn : isContinuation c = false := by
    simp only [isAscii, decide_eq_true_eq] at hc
    simp [isContinuation, UInt8.not_le.mpr hc]
  have h2 : isSecond b c = false := by simp [isSecond, hn]
  unfold decodeRune
  generalize sequenceLength b = n
  match n, s with
  | 0, _ | 1, _ | (n + 5), _ => simp
  | 2, [] => simp [h2]
  | 2, d :: s => simp
  | 3, [] => cases t <;> simp [h2]
  | 3, [d] => simp [hn]
  | 3, d :: e :: s => simp
  | 4, [] => obtain _ | ⟨x, _ | ⟨y, t⟩⟩ := t <;> simp [h2]
  | 4, [d] => cases t <;> simp [hn]
  | 4, [d, e] => simp [hn]
  | 4, d :: e :: f :: s => simp

theorem mapRunes_append {c : UInt8} (hc : isAscii c = true) (f : Nat → Nat) (t : GoString) :
    ∀ (k : Nat) (s : GoString), k ≤ s.length →
      mapRunes f k (s ++ c :: t) = mapRunes f k s ++ mapRunes f 0 (c :: t)
  | 0, [], _ => by simp [mapRunes]
  | k + 1, _ :: s, h => by
    have hk := mapRunes_append hc f t k s (by simpa using h)
    simpa [mapRunes] using hk
  | 0, b :: s, _ => by
    obtain ⟨hpos, hle⟩ := decodeRune_width b s
    have hs := mapRunes_append hc f t ((decodeRune b s).2 - 1) s (by omega)
    simp only [List.cons_append, mapRunes, decodeRune_append hc, List.append_assoc] at hs ⊢
    rw [hs]

theorem mem_mapRunes {f : Nat → Nat} {b : UInt8} :
    ∀ {k : Nat} {s : GoString}, b ∈ mapRunes f k s → ∃ r, b ∈ encodeRune (f r)
  | _ + 1, _ :: _, h => mem_mapRunes (by simpa only [mapRunes] using h)
  | 0, c :: s, h => by
    cases List.mem_append.mp (by simpa only [mapRunes] using h) with
    | inl h => exact ⟨_, h⟩
    | inr h => exact mem_mapRunes h

section Case

variable [CaseTables]

theorem lowerRune_high {r : Nat} (h : 0x80 ≤ r) :
    0x80 ≤ lowerRune r ∨ 0x61 ≤ lowerRune r ∧ lowerRune r ≤ 0x7A := by
  rw [lowerRune, if_neg (by omega)]
  have hl := CaseTables.lower_ascii r h
  omega

theorem not_capital_of_mem_toLower {s : GoString} {b : UInt8} (h : b ∈ toLower s) :
    lowerByte b = b := by
  obtain ⟨r, hr⟩ := mem_mapRunes h
  have hb : 0x80 ≤ b ∨ b.toNat < 0x41 ∨ 0x5A < b.toNat := by
    by_cases hl : lowerRune r < 0x80
    · rw [encodeRune, if_pos hl, List.mem_singleton] at hr
      subst b
      have hn : (UInt8.ofNat (lowerRune r)).toNat = lowerRune r := by
        rw [UInt8.toNat_ofNat']
        omega
      rw [hn]
      cases Nat.lt_or_ge r 0x80 with
      | inl hs =>
        right
        simp only [lowerRune, if_pos hs] at hl ⊢
        split_ifs <;> omega
      | inr hs =>
        have := lowerRune_high hs
        omega
    · exact Or.inl (encodeRune_high (by omega) hr)
  clear hr h
  revert hb b
  apply forall_byte
  decide +kernel

theorem toLower_toLower {s : GoString} (h : ∀ b ∈ toLower s, isAscii b = true) :
    toLower (toLower s) = toLower s := by
  rw [toLower_ascii h]
  exact (List.map_congr_left fun b hb => not_capital_of_mem_toLower hb).trans (List.map_id' _)

theorem toLower_append {c : UInt8} (hc : isAscii c = true) (s : GoString) :
    toLower (s ++ [c]) = toLower s ++ [lowerByte c] := by
  have h := mapRunes_append hc lowerRune [] 0 s (Nat.zero_le _)
  simpa [toLower, mapRunes, decodeRune_ascii hc, lowerRune_byte hc,
    encodeRune_byte (isAscii_lowerByte hc)] using h

theorem encodeRune_lowerRune_dot {r : Nat} (h : (encodeRune (lowerRune r)).getLast? = some 0x2E) :
    r = 0x2E := by
  have hm : (0x2E : UInt8) ∈ encodeRune (lowerRune r) := List.mem_of_getLast? h
  have hl : lowerRune r < 0x80 := by
    by_contra hn
    have := encodeRune_high (Nat.le_of_not_lt hn) hm
    contradiction
  rw [encodeRune, if_pos hl, List.mem_singleton] at hm
  have hd : lowerRune r = 0x2E := by
    have := congrArg UInt8.toNat hm
    rw [UInt8.toNat_ofNat'] at this
    simp only [UInt8.reduceToNat] at this
    omega
  cases Nat.lt_or_ge r 0x80 with
  | inl hr =>
    rw [lowerRune, if_pos hr] at hd
    split_ifs at hd <;> omega
  | inr hr =>
    have := lowerRune_high hr
    omega

theorem getLast?_mapRunes_lower :
    ∀ (k : Nat) (s : GoString), (mapRunes lowerRune k s).getLast? = some 0x2E →
      s.getLast? = some 0x2E
  | _, [], h => by simp [mapRunes] at h
  | k + 1, b :: s, h => by
    have hs := getLast?_mapRunes_lower k s (by simpa only [mapRunes] using h)
    rw [List.getLast?_cons, hs]
    rfl
  | 0, b :: s, h => by
    simp only [mapRunes, List.getLast?_append] at h
    cases hm : (mapRunes lowerRune ((decodeRune b s).2 - 1) s).getLast? with
    | some c =>
      rw [hm, Option.some_or] at h
      have hs := getLast?_mapRunes_lower _ s (hm.trans h)
      rw [List.getLast?_cons, hs]
      rfl
    | none =>
      rw [hm, Option.none_or] at h
      have hr := encodeRune_lowerRune_dot h
      have hb : isAscii b = true := by
        by_contra hn
        have := decodeRune_high (Bool.eq_false_iff.mpr hn) s
        omega
      rw [decodeRune_ascii hb] at hr hm
      have hs : s = [] := by
        cases s with
        | nil => rfl
        | cons c s =>
          simp [mapRunes, encodeRune_ne_nil] at hm
      subst hs
      have hbn : b = 0x2E := UInt8.toNat_inj.mp hr
      simp [hbn]

end Case

end DnsMonitor.Go.Unicode
