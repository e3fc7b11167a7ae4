import Mathlib.Data.Nat.Digits.Lemmas
import DnsMonitor.Go.Strings

namespace DnsMonitor.Go.Net

open DnsMonitor.Go.Strings

def isDigit (b : UInt8) : Bool := byte '0' ≤ b && b ≤ byte '9'

def digitValue (b : UInt8) : Nat := b.toNat - 0x30

def digitsValue (ds : GoString) : Nat := ds.foldl (fun n d => 10 * n + digitValue d) 0

def parseDigits (s : GoString) : Option Nat :=
  if s ≠ [] ∧ s.all isDigit then some (digitsValue s) else none

/-- `strconv.Atoi`: one optional sign, then digits, within 64 bits. -/
def atoi (s : GoString) : Option Int :=
  if s.head? = some (byte '-') then
    (parseDigits s.tail).bind fun n => if n ≤ 2 ^ 63 then some (-n) else none
  else
    (parseDigits (if s.head? = some (byte '+') then s.tail else s)).bind fun n =>
      if n < 2 ^ 63 then some n else none

def digitByte (d : Nat) : UInt8 := UInt8.ofNat (0x30 + d)

def itoa (n : Nat) : GoString :=
  if n = 0 then [byte '0'] else (Nat.digits 10 n).reverse.map digitByte

theorem isDigit_digitByte {d : Nat} (h : d < 10) : isDigit (digitByte d) = true := by
  have : ∀ d : Fin 10, isDigit (digitByte d) = true := by decide
  exact this ⟨d, h⟩

theorem digitValue_digitByte {d : Nat} (h : d < 10) : digitValue (digitByte d) = d := by
  have : ∀ d : Fin 10, digitValue (digitByte d) = d := by decide
  exact this ⟨d, h⟩

theorem isDigit_of_mem_itoa {n : Nat} {b : UInt8} (h : b ∈ itoa n) : isDigit b = true := by
  simp only [itoa] at h
  split_ifs at h with h0
  · rw [List.mem_singleton] at h
    subst h
    decide
  · obtain ⟨d, hd, rfl⟩ := List.mem_map.mp h
    exact isDigit_digitByte (Nat.digits_lt_base (by decide) (List.mem_reverse.mp hd))

theorem itoa_ne_nil (n : Nat) : itoa n ≠ [] := by
  simp only [itoa]
  split_ifs with h0
  · simp
  · simpa using Nat.digits_ne_nil_iff_ne_zero.mpr h0

theorem digitsValue_digits {ds : List Nat} (h : ∀ d ∈ ds, d < 10) :
    digitsValue (ds.reverse.map digitByte) = Nat.ofDigits 10 ds := by
  induction ds with
  | nil => rfl
  | cons d ds ih =>
    have hds := ih (fun x hx => h x (by simp [hx]))
    simp only [digitsValue, List.foldl_map, List.foldl_reverse] at hds
    simp only [digitsValue, List.foldl_map, List.foldl_reverse, List.foldr_cons, Nat.ofDigits_cons,
      hds, digitValue_digitByte (h d (by simp))]
    omega

theorem digitsValue_itoa (n : Nat) : digitsValue (itoa n) = n := by
  simp only [itoa]
  split_ifs with h0
  · subst h0
    decide
  · rw [digitsValue_digits fun d hd => Nat.digits_lt_base (by decide) hd, Nat.ofDigits_digits]

theorem parseDigits_itoa (n : Nat) : parseDigits (itoa n) = some n := by
  have h : itoa n ≠ [] ∧ (itoa n).all isDigit = true :=
    ⟨itoa_ne_nil n, List.all_eq_true.mpr fun _ hb => isDigit_of_mem_itoa hb⟩
  rw [parseDigits, if_pos h, digitsValue_itoa]

theorem itoa_injective : Function.Injective itoa := by
  intro m n h
  have := congrArg parseDigits h
  simpa only [parseDigits_itoa, Option.some.injEq] using this

theorem itoa_no_leading_zero {n : Nat} {ds : GoString} (h : itoa n = byte '0' :: ds) :
    ds = [] := by
  simp only [itoa] at h
  split_ifs at h with h0
  · exact (List.cons.inj h).2.symm
  · cases hd : (Nat.digits 10 n).reverse with
    | nil => simp [hd] at h
    | cons d rest =>
      rw [hd, List.map_cons] at h
      have hdig : Nat.digits 10 n = rest.reverse ++ [d] := by
        rw [← List.reverse_reverse (Nat.digits 10 n), hd, List.reverse_cons]
      have hlt : d < 10 := Nat.digits_lt_base (m := n) (by decide) (by simp [hdig])
      have hz : d = 0 := by
        have hb := congrArg digitValue (List.cons.inj h).1
        rwa [digitValue_digitByte hlt] at hb
      have hne : Nat.digits 10 n ≠ [] := by simp [hdig]
      have hlast := Nat.getLast_digit_ne_zero 10 h0
      simp [hdig, hz] at hlast

theorem parseDigits_bytes {s : GoString} {n : Nat} (h : parseDigits s = some n) :
    ∀ b ∈ s, isDigit b = true := by
  simp only [parseDigits] at h
  split_ifs at h with hs
  exact List.all_eq_true.mp hs.2

def isAtoiByte (b : UInt8) : Bool := isDigit b || b = byte '+' || b = byte '-'

theorem bytes_of_atoi {s : GoString} {n : Int} (h : atoi s = some n) :
    ∀ b ∈ s, isAtoiByte b = true := by
  have hsplit : ∀ c, s.head? = some c → s = c :: s.tail := by
    intro c hc
    cases s with
    | nil => simp at hc
    | cons d s => simpa using hc
  intro b hb
  simp only [atoi] at h
  split_ifs at h with hminus hplus
  · obtain ⟨k, hk, -⟩ := Option.bind_eq_some_iff.mp h
    rw [hsplit _ hminus] at hb
    obtain rfl | hb := List.mem_cons.mp hb
    · decide
    · simp [isAtoiByte, parseDigits_bytes hk b hb]
  · obtain ⟨k, hk, -⟩ := Option.bind_eq_some_iff.mp h
    rw [hsplit _ hplus] at hb
    obtain rfl | hb := List.mem_cons.mp hb
    · decide
    · simp [isAtoiByte, parseDigits_bytes hk b hb]
  · obtain ⟨k, hk, -⟩ := Option.bind_eq_some_iff.mp h
    simp [isAtoiByte, parseDigits_bytes hk b hb]

structure IPv4 where
  a : UInt8
  b : UInt8
  c : UInt8
  d : UInt8
deriving DecidableEq, Repr

inductive IP where
  | v4 (ip : IPv4)
  | v6 (bytes : List UInt8)
deriving DecidableEq, Repr

/-- `IP.To4`, which also accepts an IPv4 address mapped into IPv6. -/
def IP.to4 : IP → Option IPv4
  | .v4 ip => some ip
  | .v6 [0, 0, 0, 0, 0, 0, 0, 0, 0, 0, 0xFF, 0xFF, a, b, c, d] => some ⟨a, b, c, d⟩
  | .v6 _ => none

def IPv4.string (ip : IPv4) : GoString :=
  itoa ip.a.toNat ++ byte '.' :: itoa ip.b.toNat ++ byte '.' :: itoa ip.c.toNat ++
    byte '.' :: itoa ip.d.toNat

/-- A field of a dotted address: digits without a leading zero, at most 255. -/
def parseOctet (s : GoString) : Option UInt8 :=
  if s.head? = some (byte '0') ∧ s.length ≠ 1 then none
  else (parseDigits s).bind fun n => if n ≤ 255 then some (UInt8.ofNat n) else none

def parseIPv4 (s : GoString) : Option IPv4 :=
  match s.splitOn (byte '.') with
  | [a, b, c, d] => do
    let a ← parseOctet a
    let b ← parseOctet b
    let c ← parseOctet c
    let d ← parseOctet d
    some ⟨a, b, c, d⟩
  | _ => none

def hexValue (b : UInt8) : Option Nat :=
  if isDigit b then some (b.toNat - 0x30)
  else if byte 'a' ≤ b && b ≤ byte 'f' then some (b.toNat - 0x57)
  else if byte 'A' ≤ b && b ≤ byte 'F' then some (b.toNat - 0x37)
  else none

/-- The groups of an IPv6 address read so far and the position of the ellipsis in them. -/
def parseGroups : Nat → GoString → List UInt8 → Option Nat → Option (List UInt8 × Option Nat)
  | 0, s, out, ellipsis => if s = [] then some (out, ellipsis) else none
  | fuel + 1, s, out, ellipsis =>
    let hex := s.takeWhile (fun b => (hexValue b).isSome)
    let value := hex.foldl (fun n b => 16 * n + (hexValue b).getD 0) 0
    let out' := out ++ [UInt8.ofNat (value / 256), UInt8.ofNat (value % 256)]
    if hex = [] ∨ 4 < hex.length then none
    else
      match s.drop hex.length with
      | [] => some (out', ellipsis)
      | c :: rest =>
        if c = byte '.' then
          if (ellipsis = none ∧ out.length ≠ 12) ∨ 12 < out.length then none
          else (parseIPv4 s).map fun ip => (out ++ [ip.a, ip.b, ip.c, ip.d], ellipsis)
        else if c ≠ byte ':' ∨ rest = [] then none
        else if rest.head? = some (byte ':') then
          if ellipsis.isSome then none
          else if rest.tail = [] then some (out', some out'.length)
          else parseGroups fuel rest.tail out' (some out'.length)
        else parseGroups fuel rest out' ellipsis

/-- The IPv6 branch of `netip.ParseAddr`. Every caller here rejects a zone. -/
def parseIPv6 (s : GoString) : Option (List UInt8) := do
  if byte '%' ∈ s then none
  let (out, ellipsis) ←
    if hasPrefix s (str "::") then
      if s.length = 2 then some ([], some 0) else parseGroups 8 (s.drop 2) [] (some 0)
    else parseGroups 8 s [] none
  match ellipsis with
  | none => if out.length = 16 then some out else none
  | some i =>
    if out.length < 16 then
      some (out.take i ++ List.replicate (16 - out.length) 0 ++ out.drop i)
    else none

def isSeparator (b : UInt8) : Bool := b = byte '.' || b = byte ':' || b = byte '%'

/-- `net.ParseIP`: the first separator decides the address family. -/
def parseIP (s : GoString) : Option IP :=
  match s.find? isSeparator with
  | some b =>
    if b = byte '.' then (parseIPv4 s).map .v4
    else if b = byte ':' then (parseIPv6 s).map .v6
    else none
  | none => none

def splitHostPort (hostport : GoString) : Option (GoString × GoString) :=
  match cutLast (byte ':') hostport with
  | none => none
  | some (before, port) =>
    if hostport.head? = some (byte '[') then
      match cut (byte ']') hostport.tail with
      | none => none
      | some (host, after) =>
        if after ≠ byte ':' :: port then none
        else if byte '[' ∈ hostport.tail ∨ byte ']' ∈ after then none
        else some (host, port)
    else if byte ':' ∈ before then none
    else if byte '[' ∈ hostport ∨ byte ']' ∈ hostport then none
    else some (before, port)

def joinHostPort (host port : GoString) : GoString :=
  if byte ':' ∈ host then byte '[' :: host ++ byte ']' :: byte ':' :: port
  else host ++ byte ':' :: port

theorem parseOctet_itoa (n : UInt8) : parseOctet (itoa n.toNat) = some n := by
  have hz : ¬ ((itoa n.toNat).head? = some (byte '0') ∧ (itoa n.toNat).length ≠ 1) := by
    rintro ⟨hh, hl⟩
    cases h : itoa n.toNat with
    | nil => exact itoa_ne_nil _ h
    | cons b ds =>
      rw [h, List.head?_cons, Option.some.injEq] at hh
      subst hh
      rw [h, itoa_no_leading_zero h] at hl
      exact hl rfl
  have hn : n.toNat ≤ 255 := Nat.le_of_lt_succ n.toNat_lt
  rw [parseOctet, if_neg hz, parseDigits_itoa]
  simp [hn]

theorem digit_facts : ∀ b, isDigit b = true →
    digitByte (digitValue b) = b ∧ digitValue b < 10 := by
  apply forall_byte
  decide +kernel

theorem digitByte_digitValue {b : UInt8} (h : isDigit b = true) : digitByte (digitValue b) = b :=
  (digit_facts b h).1

theorem digitValue_lt {b : UInt8} (h : isDigit b = true) : digitValue b < 10 :=
  (digit_facts b h).2

theorem parseDigits_eq_some {s : GoString} {n : Nat} (h : parseDigits s = some n) :
    s ≠ [] ∧ (∀ b ∈ s, isDigit b = true) ∧ digitsValue s = n := by
  simp only [parseDigits] at h
  split_ifs at h with hs
  exact ⟨hs.1, List.all_eq_true.mp hs.2, Option.some.inj h⟩

theorem eq_itoa_of_parseDigits {s : GoString} {n : Nat} (h : parseDigits s = some n)
    (hz : ¬ (s.head? = some (byte '0') ∧ s.length ≠ 1)) : s = itoa n := by
  obtain ⟨hne, hd, hv⟩ := parseDigits_eq_some h
  let ds := (s.map digitValue).reverse
  have hs : ds.reverse.map digitByte = s := by
    simp only [ds, List.reverse_reverse, List.map_map]
    exact (List.map_congr_left fun b hb => digitByte_digitValue (hd b hb)).trans (List.map_id' _)
  have hlt : ∀ d ∈ ds, d < 10 := by
    intro d hd'
    obtain ⟨b, hb, rfl⟩ := List.mem_map.mp (List.mem_reverse.mp hd')
    exact digitValue_lt (hd b hb)
  have hn : Nat.ofDigits 10 ds = n := by rw [← digitsValue_digits hlt, hs, hv]
  obtain ⟨b, t, rfl⟩ := List.exists_cons_of_ne_nil hne
  have hb : isDigit b = true := hd b (by simp)
  by_cases h0 : digitValue b = 0
  · have hb0 : b = byte '0' := by
      rw [← digitByte_digitValue hb, h0]
      decide
    have ht : t = [] := by
      by_contra htn
      exact hz ⟨by simp [hb0], by simpa using htn⟩
    subst hb0 ht
    subst hn
    rfl
  · have hdig : Nat.digits 10 n = ds := by
      rw [← hn]
      refine Nat.digits_ofDigits 10 (by decide) ds hlt fun hne' => ?_
      simpa [ds] using h0
    have hn0 : n ≠ 0 := by
      rintro rfl
      simp [ds] at hdig
    rw [itoa, if_neg hn0, hdig, hs]

theorem parseOctet_eq_some {s : GoString} {n : UInt8} (h : parseOctet s = some n) :
    s = itoa n.toNat := by
  simp only [parseOctet] at h
  split_ifs at h with hz
  obtain ⟨m, hm, h⟩ := Option.bind_eq_some_iff.mp h
  split_ifs at h with hle
  rw [eq_itoa_of_parseDigits hm hz, ← Option.some.inj h, UInt8.toNat_ofNat',
    Nat.mod_eq_of_lt (by omega)]

theorem dot_not_mem_itoa (n : Nat) : byte '.' ∉ itoa n := by
  intro h
  have := isDigit_of_mem_itoa h
  revert this
  decide

theorem IPv4.string_eq (ip : IPv4) : ip.string = [byte '.'].intercalate
    [itoa ip.a.toNat, itoa ip.b.toNat, itoa ip.c.toNat, itoa ip.d.toNat] := by
  simp [IPv4.string, List.intercalate, List.intersperse]

theorem IPv4.splitOn_string (ip : IPv4) : ip.string.splitOn (byte '.') =
    [itoa ip.a.toNat, itoa ip.b.toNat, itoa ip.c.toNat, itoa ip.d.toNat] := by
  rw [ip.string_eq, List.splitOn_intercalate _ _ (by simp)]
  simp [dot_not_mem_itoa]

theorem parseIPv4_string (ip : IPv4) : parseIPv4 ip.string = some ip := by
  simp [parseIPv4, ip.splitOn_string, parseOctet_itoa]

theorem parseIPv4_eq_some {s : GoString} {ip : IPv4} (h : parseIPv4 s = some ip) :
    s = ip.string := by
  simp only [parseIPv4] at h
  split at h
  · next a b c d hs =>
    simp only [Option.bind_eq_bind, Option.bind_eq_some_iff, Option.some.injEq] at h
    obtain ⟨a', ha, b', hb, c', hc, d', hd, rfl⟩ := h
    rw [IPv4.string_eq, ← parseOctet_eq_some ha, ← parseOctet_eq_some hb, ← parseOctet_eq_some hc,
      ← parseOctet_eq_some hd, ← hs, List.intercalate_splitOn]
  · simp at h

theorem IPv4.mem_string {ip : IPv4} {b : UInt8} (h : b ∈ ip.string) :
    isDigit b = true ∨ b = byte '.' := by
  simp only [IPv4.string, List.mem_append, List.mem_cons, or_assoc] at h
  obtain h | h | h | h | h | h | h := h
  all_goals first | exact Or.inr h | exact Or.inl (isDigit_of_mem_itoa h)

theorem IPv4.not_mem_string {ip : IPv4} {b : UInt8} (h : isDigit b = false) (hb : b ≠ byte '.') :
    b ∉ ip.string := by
  intro hm
  cases ip.mem_string hm with
  | inl hd => simp [hd] at h
  | inr hd => exact hb hd

theorem parseIP_string (ip : IPv4) : parseIP ip.string = some (.v4 ip) := by
  have hdot : byte '.' ∈ ip.string := by simp [IPv4.string]
  cases hf : ip.string.find? isSeparator with
  | none =>
    have := List.find?_eq_none.mp hf _ hdot
    simp [isSeparator] at this
  | some b =>
    have hs : isSeparator b = true := List.find?_some hf
    have hb : b = byte '.' := by
      cases ip.mem_string (List.mem_of_find?_eq_some hf) with
      | inl hd =>
        simp only [isSeparator, Bool.or_eq_true, decide_eq_true_eq] at hs
        obtain (rfl | rfl) | rfl := hs <;> exact absurd hd (by decide)
      | inr hd => exact hd
    subst hb
    simp [parseIP, hf, parseIPv4_string]

theorem parseIP_of_no_colon {s : GoString} (h : byte ':' ∉ s) :
    parseIP s = (parseIPv4 s).map .v4 := by
  cases h4 : parseIPv4 s with
  | some ip => rw [parseIPv4_eq_some h4, parseIP_string, Option.map_some]
  | none =>
    simp only [parseIP]
    split
    · next b hf =>
      have hb : b ≠ byte ':' := fun hb => h (hb ▸ List.mem_of_find?_eq_some hf)
      simp [h4, hb]
    · rfl

theorem splitHostPort_eq_some {s host port : GoString} (h : splitHostPort s = some (host, port)) :
    byte ':' ∉ port ∧ byte '[' ∉ host ∧ byte ']' ∉ host ∧ byte '[' ∉ port ∧ byte ']' ∉ port ∧
      ((s = host ++ byte ':' :: port ∧ byte ':' ∉ host) ∨
        s = byte '[' :: host ++ byte ']' :: byte ':' :: port) := by
  simp only [splitHostPort] at h
  split at h
  · simp at h
  · next before port' hc =>
    obtain ⟨hs, hp⟩ := cutLast_eq_some.mp hc
    split_ifs at h with hhead hcolon hbr
    · split at h
      · simp at h
      · next host' after hcut =>
        obtain ⟨ht, hh⟩ := cut_eq_some.mp hcut
        split_ifs at h with ha hb
        simp only [Option.some.injEq, Prod.mk.injEq] at h
        obtain ⟨rfl, rfl⟩ := h
        rw [not_not] at ha
        subst ha
        rw [ht] at hb
        simp only [List.mem_append, List.mem_cons, not_or] at hb
        have hs' : s = byte '[' :: s.tail := by
          cases s with
          | nil => simp at hhead
          | cons c s => simpa using hhead
        refine ⟨hp, hb.1.1, hh, hb.1.2.2.2, hb.2.2, Or.inr ?_⟩
        rw [hs', ht]
        rfl
    · simp only [Option.some.injEq, Prod.mk.injEq] at h
      obtain ⟨rfl, rfl⟩ := h
      rw [hs] at hbr
      simp only [List.mem_append, List.mem_cons, not_or] at hbr
      exact ⟨hp, hbr.1.1, hbr.2.1, hbr.1.2.2, hbr.2.2.2, Or.inl ⟨hs, hcolon⟩⟩

theorem splitHostPort_join {host port : GoString} (hh : byte ':' ∉ host) (hp : byte ':' ∉ port)
    (hb : ∀ b ∈ host ++ port, b ≠ byte '[' ∧ b ≠ byte ']') :
    splitHostPort (host ++ byte ':' :: port) = some (host, port) := by
  have hno : ∀ b ∈ host ++ byte ':' :: port, b ≠ byte '[' ∧ b ≠ byte ']' := by
    intro b hm
    cases List.mem_append.mp hm with
    | inl h => exact hb b (by simp [h])
    | inr h =>
      obtain rfl | h := List.mem_cons.mp h
      · decide
      · exact hb b (by simp [h])
  have hhead : (host ++ byte ':' :: port).head? ≠ some (byte '[') := fun h =>
    (hno _ (List.mem_of_mem_head? h)).1 rfl
  have hopen : byte '[' ∉ host ++ byte ':' :: port := fun h => (hno _ h).1 rfl
  have hclose : byte ']' ∉ host ++ byte ':' :: port := fun h => (hno _ h).2 rfl
  simp only [splitHostPort, cutLast_append host hp]
  rw [if_neg hhead, if_neg hh, if_neg (by simp only [not_or]; exact ⟨hopen, hclose⟩)]

end DnsMonitor.Go.Net
