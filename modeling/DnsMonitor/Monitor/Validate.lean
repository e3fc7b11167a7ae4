import DnsMonitor.Go.Errors
import DnsMonitor.Go.Net
import DnsMonitor.Go.Unicode
import DnsMonitor.Go.UrlText
import DnsMonitor.Model

namespace DnsMonitor.Monitor.Validate

open DnsMonitor.Model
open DnsMonitor.Go.Strings DnsMonitor.Go.Unicode DnsMonitor.Go.Net DnsMonitor.Go.Errors
open DnsMonitor.Go.Url DnsMonitor.Go.UrlText DnsMonitor.Go.Float

def validatePort (port : GoString) : Except String Unit :=
  if port = [] then .ok ()
  else
    match atoi port with
    | none => .error "端口范围必须为 1–65535"
    | some n => require (1 ≤ n ∧ n ≤ 65535) "端口范围必须为 1–65535"

def isLabelByte (b : UInt8) : Bool :=
  isLetter b || isDigit b || b = byte '-' || b = byte '_'

def validateLabel (label : GoString) : Except String Unit := do
  require (label ≠ [] ∧ label.length ≤ 63 ∧ label.head? ≠ some (byte '-') ∧
    label.getLast? ≠ some (byte '-')) "域名标签格式无效"
  require (label.all isLabelByte) "域名须使用 ASCII/Punycode，不得包含空白或 URL"

def validateDomainName (name : GoString) : Except String Unit := do
  let name := trimSuffix name (str ".")
  require (name ≠ [] ∧ name.length ≤ 253) "域名长度应为 1–253 字节"
  (name.splitOn (byte '.')).forM validateLabel

def validateHost (host : GoString) : Except String Unit :=
  match parseIP host with
  | some ip => require (ip.to4 ≠ none ∧ byte ':' ∉ host) "仅支持 IPv4"
  | none => do
    require (byte ':' ∉ host ∧ byte '%' ∉ host) "仅支持 IPv4"
    validateDomainName host

theorem validatePort_eq_ok {port : GoString} : validatePort port = .ok () ↔
    port = [] ∨ ∃ n, atoi port = some n ∧ 1 ≤ n ∧ n ≤ 65535 := by
  by_cases h : port = []
  · simp [validatePort, h]
  · cases ha : atoi port with
    | none => simp [validatePort, h, ha]
    | some n => simp [validatePort, h, ha]

theorem bytes_of_validatePort {port : GoString} (h : validatePort port = .ok ()) :
    ∀ b ∈ port, isAtoiByte b = true := by
  obtain rfl | ⟨n, hn, -⟩ := validatePort_eq_ok.mp h
  · simp
  · exact bytes_of_atoi hn

theorem validateLabel_eq_ok {label : GoString} : validateLabel label = .ok () ↔
    (label ≠ [] ∧ label.length ≤ 63 ∧ label.head? ≠ some (byte '-') ∧
      label.getLast? ≠ some (byte '-')) ∧ ∀ b ∈ label, isLabelByte b = true := by
  simp [validateLabel]

def isDomainName (name : GoString) : Prop :=
  (name ≠ [] ∧ name.length ≤ 253) ∧
    ∀ label ∈ name.splitOn (byte '.'), validateLabel label = .ok ()

theorem validateDomainName_eq_ok {name : GoString} :
    validateDomainName name = .ok () ↔ isDomainName (trimSuffix name (str ".")) := by
  simp [validateDomainName, isDomainName, forM_eq_ok]

theorem mem_of_splitOn {c b : UInt8} {s : GoString} (h : b ∈ s) :
    b = c ∨ ∃ label ∈ s.splitOn c, b ∈ label := by
  have hs : [c].intercalate (s.splitOn c) = s := List.intercalate_splitOn c
  rw [← hs] at h
  clear hs
  generalize s.splitOn c = ls at h ⊢
  induction ls with
  | nil => simp at h
  | cons l ls ih =>
    cases ls with
    | nil => exact Or.inr ⟨l, by simp, by simpa using h⟩
    | cons m ls =>
      rw [List.intercalate_cons_cons, List.mem_append, List.mem_append] at h
      obtain (h | h) | h := h
      · exact Or.inr ⟨l, by simp, h⟩
      · exact Or.inl (by simpa using h)
      · obtain h | ⟨k, hk, hb⟩ := ih h
        · exact Or.inl h
        · exact Or.inr ⟨k, List.mem_cons_of_mem _ hk, hb⟩

theorem isDomainName.bytes {name : GoString} (h : isDomainName name) :
    ∀ b ∈ name, isNameByte b = true := by
  intro b hb
  obtain rfl | ⟨label, hl, hb⟩ := mem_of_splitOn (c := byte '.') hb
  · decide
  · have hb := (validateLabel_eq_ok.mp (h.2 label hl)).2 b hb
    simp only [isLabelByte, Bool.or_eq_true, decide_eq_true_eq] at hb
    simp only [isNameByte, Bool.or_eq_true, decide_eq_true_eq]
    exact Or.inl hb

theorem trimSuffix_dot (s : GoString) : s = trimSuffix s (str ".") ∨
    s = trimSuffix s (str ".") ++ [byte '.'] := by
  by_cases h : str "." <:+ s
  · obtain ⟨t, rfl⟩ := h
    exact Or.inr (by rw [trimSuffix_append]; rfl)
  · exact Or.inl (trimSuffix_of_not h).symm

theorem bytes_of_validateDomainName {name : GoString} (h : validateDomainName name = .ok ()) :
    ∀ b ∈ name, isNameByte b = true := by
  have hb := (validateDomainName_eq_ok.mp h).bytes
  intro b hm
  obtain hs | hs := trimSuffix_dot name <;> rw [hs] at hm
  · exact hb b hm
  · cases List.mem_append.mp hm with
    | inl hm => exact hb b hm
    | inr hm =>
      obtain rfl : b = byte '.' := by simpa using hm
      decide

theorem ne_nil_of_validateDomainName {name : GoString} (h : validateDomainName name = .ok ()) :
    name ≠ [] := by
  rintro rfl
  exact (validateDomainName_eq_ok.mp h).1.1 rfl

theorem length_itoa (n : UInt8) : (itoa n.toNat).length ≤ 3 := by
  by_cases h : n.toNat = 0
  · simp [itoa, h]
  · have hlt : n.toNat < 10 ^ 3 := by
      have := n.toNat_lt
      omega
    simpa [itoa, h] using (Nat.digits_length_le_iff (by norm_num) _).mpr hlt

theorem validateLabel_itoa (n : UInt8) : validateLabel (itoa n.toNat) = .ok () := by
  have hd : ∀ b ∈ itoa n.toNat, isDigit b = true := fun b => isDigit_of_mem_itoa
  have hno : byte '-' ∉ itoa n.toNat := fun hm => absurd (hd _ hm) (by decide)
  refine validateLabel_eq_ok.mpr ⟨⟨itoa_ne_nil _, ?_, ?_, ?_⟩, ?_⟩
  · exact (length_itoa n).trans (by norm_num)
  · exact fun h => hno (List.mem_of_mem_head? h)
  · exact fun h => hno (List.mem_of_getLast? h)
  · intro b hb
    simp [isLabelByte, hd b hb]

theorem validateDomainName_string (ip : IPv4) : validateDomainName ip.string = .ok () := by
  have hdot : ¬ str "." <:+ ip.string := by
    rintro ⟨t, ht⟩
    have hl : ip.string.getLast? = some (byte '.') := by rw [← ht]; simp [str]
    rw [IPv4.string, ← List.singleton_append (l := itoa ip.d.toNat), ← List.append_assoc,
      List.getLast?_append_of_ne_nil _ (itoa_ne_nil _)] at hl
    exact absurd (isDigit_of_mem_itoa (List.mem_of_getLast? hl)) (by decide)
  have h1 := length_itoa ip.a
  have h2 := length_itoa ip.b
  have h3 := length_itoa ip.c
  have h4 := length_itoa ip.d
  rw [validateDomainName_eq_ok, trimSuffix_of_not hdot]
  refine ⟨⟨by simp [IPv4.string], ?_⟩, ?_⟩
  · simp only [IPv4.string, List.length_append, List.length_cons]
    omega
  · simp [IPv4.splitOn_string, validateLabel_itoa]

/-- A dotted address passes for a name, so one check decides what a host may be. -/
theorem validateHost_eq_ok {host : GoString} :
    validateHost host = .ok () ↔ validateDomainName host = .ok () := by
  constructor
  · intro h
    simp only [validateHost] at h
    split at h
    · next ip hip =>
      have hc := (require_eq_ok.mp h).2
      rw [parseIP_of_no_colon hc] at hip
      obtain ⟨v4, h4, -⟩ := Option.map_eq_some_iff.mp hip
      rw [parseIPv4_eq_some h4]
      exact validateDomainName_string v4
    · obtain ⟨-, -, hd⟩ := bind_eq_ok.mp h
      exact hd
  · intro h
    have hb := bytes_of_validateDomainName h
    have hcolon : byte ':' ∉ host := fun hm => (name_facts (hb _ hm)).2.2.2.1 rfl
    have hpercent : byte '%' ∉ host := fun hm => (name_facts (hb _ hm)).2.2.2.2.1 rfl
    rw [validateHost, parseIP_of_no_colon hcolon]
    cases h4 : parseIPv4 host with
    | some ip => simp [IP.to4, hcolon]
    | none => simp [hcolon, hpercent, h]

theorem splitOn_map {f : UInt8 → UInt8} {c : UInt8} (hf : ∀ b, f b = c ↔ b = c) (s : GoString) :
    (s.map f).splitOn c = (s.splitOn c).map (·.map f) := by
  have hp : ∀ b, (f b == c) = (b == c) := fun b => by
    rw [Bool.eq_iff_iff, beq_iff_eq, beq_iff_eq, hf]
  simp only [List.splitOn]
  induction s with
  | nil => simp
  | cons b s ih =>
    rw [List.map_cons, List.splitOnP_cons_eq_if_modifyHead, List.splitOnP_cons_eq_if_modifyHead,
      hp, ih]
    split_ifs
    · simp
    · cases List.splitOnP (· == c) s <;> simp

theorem lowerByte_eq_iff {c : UInt8} (hc : isLetter c = false) (b : UInt8) :
    lowerByte b = c ↔ b = c := by
  have hall : ∀ b, lowerByte b = b ∨ isLetter (lowerByte b) = true ∧ isLetter b = true := by
    apply forall_byte
    decide +kernel
  obtain h | ⟨h1, h2⟩ := hall b
  · rw [h]
  · constructor
    · rintro rfl
      simp [h1] at hc
    · rintro rfl
      simp [h2] at hc

theorem isLabelByte_lowerByte {b : UInt8} (h : isLabelByte b = true) :
    isLabelByte (lowerByte b) = true := by
  revert h b
  apply forall_byte
  decide +kernel

theorem validateLabel_lower {label : GoString} (h : validateLabel label = .ok ()) :
    validateLabel (label.map lowerByte) = .ok () := by
  have hdash := lowerByte_eq_iff (c := byte '-') (by decide)
  obtain ⟨⟨hne, hlen, hhead, hlast⟩, hb⟩ := validateLabel_eq_ok.mp h
  refine validateLabel_eq_ok.mpr ⟨⟨by simpa using hne, by simpa using hlen, ?_, ?_⟩, ?_⟩
  · simpa [hdash] using hhead
  · simpa [List.getLast?_map, hdash] using hlast
  · intro b hm
    obtain ⟨a, ha, rfl⟩ := List.mem_map.mp hm
    exact isLabelByte_lowerByte (hb a ha)

theorem trimSuffix_dot_lower (s : GoString) :
    trimSuffix (s.map lowerByte) (str ".") = (trimSuffix s (str ".")).map lowerByte := by
  by_cases h : str "." <:+ s
  · obtain ⟨t, rfl⟩ := h
    have hm : (t ++ str ".").map lowerByte = t.map lowerByte ++ str "." := by
      rw [List.map_append]
      rfl
    rw [hm, trimSuffix_append, trimSuffix_append]
  · have hno : ¬ str "." <:+ s.map lowerByte := by
      rintro ⟨t, ht⟩
      obtain ⟨l, r, rfl, -, hr⟩ := List.map_eq_append_iff.mp ht.symm
      obtain ⟨b, rfl⟩ : ∃ b, r = [b] := by
        cases r with
        | nil => simp [str] at hr
        | cons b r => exact ⟨b, by simpa [str] using (List.cons.inj hr).2⟩
      have hb : lowerByte b = byte '.' := by simpa [str] using hr
      obtain rfl := (lowerByte_eq_iff (by decide) b).mp hb
      exact h (List.suffix_append _ _)
    rw [trimSuffix_of_not hno, trimSuffix_of_not h]

theorem validateDomainName_lower {name : GoString} (h : validateDomainName name = .ok ()) :
    validateDomainName (name.map lowerByte) = .ok () := by
  obtain ⟨⟨hne, hlen⟩, hl⟩ := validateDomainName_eq_ok.mp h
  rw [validateDomainName_eq_ok, trimSuffix_dot_lower]
  refine ⟨⟨by simpa using hne, by simpa using hlen⟩, ?_⟩
  rw [splitOn_map (lowerByte_eq_iff (by decide))]
  intro label hm
  obtain ⟨l, hl', rfl⟩ := List.mem_map.mp hm
  exact validateLabel_lower (hl l hl')

end DnsMonitor.Monitor.Validate
