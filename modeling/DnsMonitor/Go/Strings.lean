import Mathlib.Data.List.Basic
import Mathlib.Data.List.DropRight
import Mathlib.Data.List.Infix

namespace DnsMonitor.Go.Strings

/-- A Go string is a sequence of bytes and need not be valid UTF-8. -/
abbrev GoString := List UInt8

instance lawfulGoString : LawfulBEq GoString := inferInstance

def byte (c : Char) : UInt8 := c.toUInt8

def str (s : String) : GoString := s.toList.map byte

def utf8 (s : String) : GoString := s.toUTF8.toList

theorem forall_byte (p : UInt8 → Prop) (h : ∀ n : Fin 256, p (UInt8.ofFin n)) (b : UInt8) :
    p b := by
  simpa using h b.toFin

def hasPrefix (s pre : GoString) : Bool := pre.isPrefixOf s

def hasSuffix (s suf : GoString) : Bool := suf.isSuffixOf s

def trimPrefix (s pre : GoString) : GoString :=
  if hasPrefix s pre then s.drop pre.length else s

def trimSuffix (s suf : GoString) : GoString :=
  if hasSuffix s suf then s.take (s.length - suf.length) else s

def contains (s sub : GoString) : Bool := s.tails.any sub.isPrefixOf

/-- `strings.TrimRight` with a cutset of one byte. -/
def trimRight (b : UInt8) (s : GoString) : GoString := s.rdropWhile (· == b)

def cut (b : UInt8) : GoString → Option (GoString × GoString)
  | [] => none
  | c :: s => if c = b then some ([], s) else (cut b s).map (fun p => (c :: p.1, p.2))

def cutLast (b : UInt8) : GoString → Option (GoString × GoString)
  | [] => none
  | c :: s =>
    match cutLast b s with
    | some p => some (c :: p.1, p.2)
    | none => if c = b then some ([], s) else none

theorem hasPrefix_iff {s pre : GoString} : hasPrefix s pre = true ↔ pre <+: s := by
  simp [hasPrefix]

theorem hasSuffix_iff {s suf : GoString} : hasSuffix s suf = true ↔ suf <:+ s := by
  simp [hasSuffix]

theorem contains_iff {s sub : GoString} : contains s sub = true ↔ sub <:+: s := by
  simp only [contains, List.any_eq_true, List.mem_tails, List.isPrefixOf_iff_prefix]
  rw [List.infix_iff_prefix_suffix]
  exact exists_congr fun t => and_comm

theorem trimSuffix_append (s suf : GoString) : trimSuffix (s ++ suf) suf = s := by
  simp [trimSuffix, hasSuffix]

theorem trimSuffix_of_not {s suf : GoString} (h : ¬ suf <:+ s) : trimSuffix s suf = s := by
  simp [trimSuffix, hasSuffix, h]

theorem trimSuffix_isPrefix (s suf : GoString) : trimSuffix s suf <+: s := by
  unfold trimSuffix
  split_ifs
  · exact List.take_prefix _ _
  · exact List.prefix_rfl

theorem trimPrefix_append (pre s : GoString) : trimPrefix (pre ++ s) pre = s := by
  simp [trimPrefix, hasPrefix]

theorem cut_eq_none {b : UInt8} {s : GoString} : cut b s = none ↔ b ∉ s := by
  induction s with
  | nil => simp [cut]
  | cons c s ih =>
    by_cases h : c = b
    · simp [cut, h]
    · simp [cut, h, ih, Ne.symm h]

theorem cut_append {b : UInt8} {p : GoString} (hp : b ∉ p) (q : GoString) :
    cut b (p ++ b :: q) = some (p, q) := by
  induction p with
  | nil => simp [cut]
  | cons c p ih =>
    obtain ⟨hc, hp⟩ := not_or.mp (List.mem_cons.not.mp hp)
    simp [cut, Ne.symm hc, ih hp]

theorem cut_eq_some {b : UInt8} {s p q : GoString} :
    cut b s = some (p, q) ↔ s = p ++ b :: q ∧ b ∉ p := by
  constructor
  · intro h
    induction s generalizing p with
    | nil => simp [cut] at h
    | cons c s ih =>
      by_cases hc : c = b
      · simp only [cut, hc, if_true, Option.some.injEq, Prod.mk.injEq] at h
        obtain ⟨rfl, rfl⟩ := h
        simp [hc]
      · simp only [cut, hc, if_false, Option.map_eq_some_iff, Prod.exists, Prod.mk.injEq] at h
        obtain ⟨p', q', h', rfl, rfl⟩ := h
        obtain ⟨rfl, hp⟩ := ih h'
        simp [hp, Ne.symm hc]
  · rintro ⟨rfl, hp⟩
    exact cut_append hp q

theorem cutLast_eq_none {b : UInt8} {s : GoString} : cutLast b s = none ↔ b ∉ s := by
  induction s with
  | nil => simp [cutLast]
  | cons c s ih =>
    cases h : cutLast b s with
    | none =>
      have hs := ih.mp h
      by_cases hc : c = b
      · simp [cutLast, h, hc]
      · simp [cutLast, h, hc, hs, Ne.symm hc]
    | some p =>
      have hs : b ∈ s := by_contra fun hn => by simp [ih.mpr hn] at h
      simp [cutLast, h, hs]

theorem cutLast_append (p : GoString) {b : UInt8} {q : GoString} (hq : b ∉ q) :
    cutLast b (p ++ b :: q) = some (p, q) := by
  induction p with
  | nil => simp [cutLast, cutLast_eq_none.mpr hq]
  | cons c p ih => simp [cutLast, ih]

theorem cutLast_eq_some {b : UInt8} {s p q : GoString} :
    cutLast b s = some (p, q) ↔ s = p ++ b :: q ∧ b ∉ q := by
  constructor
  · intro h
    induction s generalizing p with
    | nil => simp [cutLast] at h
    | cons c s ih =>
      cases hs : cutLast b s with
      | none =>
        have hb := cutLast_eq_none.mp hs
        by_cases hc : c = b
        · simp only [cutLast, hs, hc, if_true, Option.some.injEq, Prod.mk.injEq] at h
          obtain ⟨rfl, rfl⟩ := h
          exact ⟨by simp [hc], hb⟩
        · simp [cutLast, hs, hc] at h
      | some r =>
        simp only [cutLast, hs, Option.some.injEq, Prod.mk.injEq] at h
        obtain ⟨rfl, rfl⟩ := h
        obtain ⟨hrs, hb⟩ := ih hs
        exact ⟨congrArg (c :: ·) hrs, hb⟩
  · rintro ⟨rfl, hq⟩
    exact cutLast_append p hq

/-- The UTF-8 encodings of the characters with the property White_Space. -/
def spaces : List GoString :=
  [[0x09], [0x0A], [0x0B], [0x0C], [0x0D], [0x20], [0xC2, 0x85], [0xC2, 0xA0],
    [0xE1, 0x9A, 0x80], [0xE2, 0x80, 0x80], [0xE2, 0x80, 0x81], [0xE2, 0x80, 0x82],
    [0xE2, 0x80, 0x83], [0xE2, 0x80, 0x84], [0xE2, 0x80, 0x85], [0xE2, 0x80, 0x86],
    [0xE2, 0x80, 0x87], [0xE2, 0x80, 0x88], [0xE2, 0x80, 0x89], [0xE2, 0x80, 0x8A],
    [0xE2, 0x80, 0xA8], [0xE2, 0x80, 0xA9], [0xE2, 0x80, 0xAF], [0xE2, 0x81, 0x9F],
    [0xE3, 0x80, 0x80]]

def leading (ws : List GoString) (s : GoString) : Option GoString := ws.find? (·.isPrefixOf s)

/-- Drop leading words of `ws`. The counter holds the bytes of the current word left to skip. -/
def dropWords (ws : List GoString) : Nat → GoString → GoString
  | _, [] => []
  | k + 1, _ :: s => dropWords ws k s
  | 0, b :: s =>
    match leading ws (b :: s) with
    | none => b :: s
    | some w => dropWords ws (w.length - 1) s

/-- `strings.TrimSpace`. Decoding the last rune finds the same spaces as decoding from
the left, because no byte of an encoding starts another one. -/
def trimSpace (s : GoString) : GoString :=
  (dropWords (spaces.map List.reverse) 0 (dropWords spaces 0 s).reverse).reverse

def wordsFrom : Nat → GoString → GoString → List GoString
  | _, word, [] => if word = [] then [] else [word.reverse]
  | k + 1, word, _ :: s => wordsFrom k word s
  | 0, word, b :: s =>
    match leading spaces (b :: s) with
    | none => wordsFrom 0 (b :: word) s
    | some w => (if word = [] then [] else [word.reverse]) ++ wordsFrom (w.length - 1) [] s

def fields (s : GoString) : List GoString := wordsFrom 0 [] s

/-- `strings.IndexFunc(s, unicode.IsSpace) >= 0`. -/
def containsSpace (s : GoString) : Bool := s.tails.any (fun t => (leading spaces t).isSome)

theorem dropWords_of_leading {ws : List GoString} {s : GoString} (h : leading ws s = none) :
    dropWords ws 0 s = s := by
  cases s with
  | nil => rfl
  | cons b s => simp [dropWords, h]

theorem containsSpace_eq_false {s : GoString} :
    containsSpace s = false ↔ ∀ t, t <:+ s → leading spaces t = none := by
  simp [containsSpace, List.any_eq_false, List.mem_tails]

theorem trimSpace_of_not_containsSpace {s : GoString} (h : containsSpace s = false) :
    trimSpace s = s := by
  rw [containsSpace_eq_false] at h
  have hr : leading (spaces.map List.reverse) s.reverse = none := by
    simp only [leading, List.find?_eq_none, List.mem_map, List.isPrefixOf_iff_prefix]
    rintro _ ⟨w, hw, rfl⟩ hp
    have hs := h w (List.reverse_prefix.mp hp)
    simp only [leading, List.find?_eq_none] at hs
    exact hs w hw (by simp)
  rw [trimSpace, dropWords_of_leading (h s List.suffix_rfl), dropWords_of_leading hr,
    List.reverse_reverse]

def isGraph (b : UInt8) : Bool := 0x21 ≤ b && b ≤ 0x7E

theorem not_isGraph_of_space {w : GoString} (hw : w ∈ spaces) {b : UInt8} (hb : b ∈ w) :
    isGraph b = false := by
  have h : (spaces.all fun w => w.all fun b => !isGraph b) = true := by decide
  have hbyte := List.all_eq_true.mp (List.all_eq_true.mp h w hw) b hb
  simpa only [Bool.not_eq_true'] using hbyte

theorem leading_spaces_cons {b : UInt8} (h : isGraph b = true) (s : GoString) :
    leading spaces (b :: s) = none := by
  simp only [leading, List.find?_eq_none]
  intro w hw hp
  cases w with
  | nil => simp [spaces] at hw
  | cons c w =>
    obtain ⟨rfl, -⟩ := by simpa using hp
    have hspace := not_isGraph_of_space hw List.mem_cons_self
    simp [h] at hspace

theorem containsSpace_cons {b : UInt8} (h : isGraph b = true) (s : GoString) :
    containsSpace (b :: s) = containsSpace s := by
  simp [containsSpace, leading_spaces_cons h]

theorem containsSpace_append {p : GoString} (h : ∀ b ∈ p, isGraph b = true) (s : GoString) :
    containsSpace (p ++ s) = containsSpace s := by
  induction p with
  | nil => rfl
  | cons b p ih =>
    rw [List.cons_append, containsSpace_cons (h b (by simp)), ih (fun c hc => h c (by simp [hc]))]

theorem containsSpace_of_graph {s : GoString} (h : ∀ b ∈ s, isGraph b = true) :
    containsSpace s = false := by
  rw [← List.append_nil s, containsSpace_append h]
  rfl

theorem containsSpace_suffix {s t : GoString} (hs : containsSpace s = false) (ht : t <:+ s) :
    containsSpace t = false := by
  rw [containsSpace_eq_false] at hs ⊢
  exact fun u hu => hs u (hu.trans ht)

theorem containsSpace_prefix {s t : GoString} (hs : containsSpace (s ++ t) = false) :
    containsSpace s = false := by
  rw [containsSpace_eq_false] at hs ⊢
  rintro u ⟨v, rfl⟩
  have hu := hs (u ++ t) ⟨v, by rw [List.append_assoc]⟩
  simp only [leading, List.find?_eq_none, List.isPrefixOf_iff_prefix] at hu ⊢
  exact fun w hw hp => hu w hw (hp.trans (List.prefix_append u t))

theorem trimRight_prefix (b : UInt8) (s : GoString) : trimRight b s <+: s :=
  List.rdropWhile_prefix (· == b) s

theorem trimRight_trimRight (b : UInt8) (s : GoString) :
    trimRight b (trimRight b s) = trimRight b s :=
  List.rdropWhile_idempotent (· == b) s

def isTrimmed (s : GoString) : Prop :=
  leading spaces s = none ∧ leading (spaces.map List.reverse) s.reverse = none

theorem trimSpace_of_isTrimmed {s : GoString} (h : isTrimmed s) : trimSpace s = s := by
  rw [trimSpace, dropWords_of_leading h.1, dropWords_of_leading h.2, List.reverse_reverse]

theorem leading_eq_none {ws : List GoString} {s : GoString} :
    leading ws s = none ↔ ∀ w ∈ ws, ¬ w <+: s := by
  simp [leading, List.find?_eq_none]

theorem leading_dropWords {ws : List GoString} (k : Nat) (s : GoString)
    (hnil : [] ∉ ws) : leading ws (dropWords ws k s) = none := by
  induction s generalizing k with
  | nil =>
    rw [dropWords, leading_eq_none]
    intro w hw hp
    exact hnil (List.prefix_nil.mp hp ▸ hw)
  | cons b s ih =>
    cases k with
    | succ k => exact ih k
    | zero =>
      rw [dropWords]
      cases hl : leading ws (b :: s) with
      | none => exact hl
      | some w => exact ih _

theorem dropWords_suffix (ws : List GoString) (k : Nat) (s : GoString) :
    dropWords ws k s <:+ s := by
  induction s generalizing k with
  | nil => rw [dropWords]
  | cons b s ih =>
    cases k with
    | succ k => exact (ih k).trans (List.suffix_cons b s)
    | zero =>
      rw [dropWords]
      cases hl : leading ws (b :: s) with
      | none => exact List.suffix_rfl
      | some w => exact (ih _).trans (List.suffix_cons b s)

theorem trimSpace_subset {s : GoString} {b : UInt8} (h : b ∈ trimSpace s) : b ∈ s := by
  have hr := (dropWords_suffix _ _ _).subset (List.mem_reverse.mp h)
  exact (dropWords_suffix _ _ _).subset (List.mem_reverse.mp hr)

theorem isTrimmed_trimSpace (s : GoString) : isTrimmed (trimSpace s) := by
  have hnil : [] ∉ spaces := by decide
  have hnil' : [] ∉ spaces.map List.reverse := by decide
  refine ⟨?_, ?_⟩
  · have hstart := leading_dropWords 0 s hnil
    rw [leading_eq_none] at hstart ⊢
    intro w hw hp
    have hpre : trimSpace s <+: dropWords spaces 0 s := by
      have hsuf := dropWords_suffix (spaces.map List.reverse) 0 (dropWords spaces 0 s).reverse
      rw [← List.reverse_prefix, List.reverse_reverse] at hsuf
      exact hsuf
    exact hstart w hw (hp.trans hpre)
  · rw [trimSpace, List.reverse_reverse]
    exact leading_dropWords 0 _ hnil'

theorem isTrimmed_cons {s : GoString} (h : isTrimmed s) {b : UInt8} (hb : isGraph b = true) :
    isTrimmed (b :: s) := by
  refine ⟨leading_spaces_cons hb s, ?_⟩
  rw [leading_eq_none]
  intro w hw hp
  rw [List.reverse_cons, List.prefix_concat_iff] at hp
  obtain rfl | hp := hp
  · obtain ⟨v, hv, heq⟩ := List.mem_map.mp hw
    have hmem : b ∈ v := by
      rw [← List.mem_reverse, heq]
      simp
    have := not_isGraph_of_space hv hmem
    simp [hb] at this
  · exact leading_eq_none.mp h.2 w hw hp

theorem length_le_of_prefix {w x y : GoString} (hw : ∀ b ∈ w, isGraph b = false)
    (hy : ∀ b ∈ y, isGraph b = true) (hp : w <+: x ++ y) : w.length ≤ x.length := by
  by_contra hlt
  obtain ⟨t, ht⟩ := hp
  obtain ⟨v, rfl, hv⟩ | ⟨v, rfl, hv⟩ := List.append_eq_append_iff.mp ht
  · simp at hlt
  · cases v with
    | nil => simp at hlt
    | cons b v =>
      have hgraph := hy b (by simp [hv])
      have hnot := hw b (by simp)
      simp [hgraph] at hnot

theorem dropWords_append {ws : List GoString} (hne : [] ∉ ws)
    (hws : ∀ w ∈ ws, ∀ b ∈ w, isGraph b = false)
    {y : GoString} (hy : ∀ b ∈ y, isGraph b = true) (k : Nat) (x : GoString) (hk : k ≤ x.length) :
    ∃ x', dropWords ws k (x ++ y) = x' ++ y := by
  induction x generalizing k with
  | nil =>
    rw [Nat.le_zero.mp hk, List.nil_append]
    refine ⟨[], dropWords_of_leading (leading_eq_none.mpr ?_)⟩
    intro w hw hp
    have hlen := length_le_of_prefix (x := []) (hws w hw) hy hp
    have hnil : w = [] := List.length_eq_zero_iff.mp (Nat.le_zero.mp hlen)
    exact hne (hnil ▸ hw)
  | cons c x ih =>
    cases k with
    | succ k => exact ih k (Nat.le_of_succ_le_succ hk)
    | zero =>
      rw [List.cons_append, dropWords]
      cases hl : leading ws (c :: (x ++ y)) with
      | none => exact ⟨c :: x, rfl⟩
      | some w =>
        apply ih
        have hmem := List.mem_of_find?_eq_some hl
        have hpre := List.find?_some hl
        have hlen := length_le_of_prefix (x := c :: x) (hws w hmem) hy
          (List.isPrefixOf_iff_prefix.mp hpre)
        simp only [List.length_cons] at hlen
        omega

theorem trimSpace_graph {p : GoString} (hp : ∀ b ∈ p, isGraph b = true) (hne : p ≠ [])
    (s : GoString) : ∃ t, trimSpace (p ++ s) = p ++ t := by
  have hstart : leading spaces (p ++ s) = none := by
    obtain ⟨b, p, rfl⟩ := List.exists_cons_of_ne_nil hne
    exact leading_spaces_cons (hp b (by simp)) _
  have hws : ∀ w ∈ spaces.map List.reverse, ∀ b ∈ w, isGraph b = false := by
    intro w hw b hb
    obtain ⟨v, hv, rfl⟩ := List.mem_map.mp hw
    exact not_isGraph_of_space hv (List.mem_reverse.mp hb)
  obtain ⟨t, ht⟩ := dropWords_append (by decide) hws (y := p.reverse) (by simpa using hp) 0 s.reverse
    (Nat.zero_le _)
  refine ⟨t.reverse, ?_⟩
  rw [trimSpace, dropWords_of_leading hstart, List.reverse_append, ht, List.reverse_append,
    List.reverse_reverse]

end DnsMonitor.Go.Strings
