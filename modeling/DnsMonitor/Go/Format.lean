import DnsMonitor.Go.Net

namespace DnsMonitor.Go.Format

open DnsMonitor.Go.Strings DnsMonitor.Go.Net

/-- `%d`, and `strconv.FormatInt` to the base ten. -/
def formatInt (n : Int) : GoString :=
  if n < 0 then byte '-' :: itoa n.natAbs else itoa n.natAbs

theorem isDigit_minus : isDigit (byte '-') = false := by decide

theorem mem_formatInt {n : Int} {b : UInt8} (h : b ∈ formatInt n) :
    b = byte '-' ∨ isDigit b = true := by
  unfold formatInt at h
  split_ifs at h
  · exact (List.mem_cons.mp h).imp_right isDigit_of_mem_itoa
  · exact .inr (isDigit_of_mem_itoa h)

theorem itoa_ne_minus (n : Nat) (s : GoString) : itoa n ≠ byte '-' :: s := by
  intro h
  have hmem : byte '-' ∈ itoa n := by rw [h]; exact List.mem_cons_self
  have hdigit := isDigit_of_mem_itoa hmem
  rw [isDigit_minus] at hdigit
  cases hdigit

theorem formatInt_injective : Function.Injective formatInt := by
  intro m n h
  unfold formatInt at h
  split_ifs at h with hm hn
  · have := itoa_injective (List.cons.inj h).2
    omega
  · exact absurd h.symm (itoa_ne_minus _ _)
  · exact absurd h (itoa_ne_minus _ _)
  · have := itoa_injective h
    omega

def nul : UInt8 := 0

def joinNul (parts : List GoString) : GoString := [nul].intercalate parts

theorem nul_not_mem_formatInt (n : Int) : nul ∉ formatInt n := by
  intro h
  cases mem_formatInt h with
  | inl hb => exact absurd hb (by decide)
  | inr hb => exact absurd hb (by decide)

theorem joinNul_cons (a b : GoString) (parts : List GoString) :
    joinNul (a :: b :: parts) = a ++ nul :: joinNul (b :: parts) := by
  simp [joinNul, List.intercalate, List.intersperse]

@[simp] theorem joinNul_singleton (a : GoString) : joinNul [a] = a := by
  simp [joinNul, List.intercalate]

theorem append_nul_inj {p p' q q' : GoString} (hp : nul ∉ p) (hp' : nul ∉ p')
    (h : p ++ nul :: q = p' ++ nul :: q') : p = p' ∧ q = q' := by
  have hcut := congrArg (cut nul) h
  rw [cut_append hp, cut_append hp'] at hcut
  exact Prod.mk.inj (Option.some.inj hcut)

theorem append_nul_inj_last {p p' q q' : GoString} (hq : nul ∉ q) (hq' : nul ∉ q')
    (h : p ++ nul :: q = p' ++ nul :: q') : p = p' ∧ q = q' := by
  have hcut := congrArg (cutLast nul) h
  rw [cutLast_append _ hq, cutLast_append _ hq'] at hcut
  exact Prod.mk.inj (Option.some.inj hcut)

theorem splitOn_joinNul {parts : List GoString} (h : ∀ p ∈ parts, nul ∉ p) (hne : parts ≠ []) :
    (joinNul parts).splitOn nul = parts := List.splitOn_intercalate _ h hne

end DnsMonitor.Go.Format
