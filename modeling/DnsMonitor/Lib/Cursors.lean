import Mathlib.Data.List.Basic
import Mathlib.Tactic.SplitIfs

namespace DnsMonitor.Lib.Cursors

variable {α ε δ : Type}

structure Span (α : Type) where
  start : Nat
  text : List α
deriving DecidableEq

def Span.stop (f : Span α) : Nat := f.start + f.text.length

/-- Read the length at a position and the field behind it. The result is the field and the
position where it ends. -/
def readSpan (length : α → Nat) (missing truncated : ε) (xs : List α) (pos : Nat) :
    Except ε (Span α × Nat) :=
  match xs[pos]? with
  | none => .error missing
  | some n =>
    if xs.length < pos + 1 + length n then .error truncated
    else .ok (⟨pos + 1, (xs.drop (pos + 1)).take (length n)⟩, pos + 1 + length n)

structure SpanAt (length : α → Nat) (xs : List α) (pos : Nat) (f : Span α) : Prop where
  start : f.start = pos + 1
  prefixed : ∃ n, xs[pos]? = some n ∧ f.text.length = length n
  text : f.text = (xs.drop f.start).take f.text.length
  stop_le : f.stop ≤ xs.length

variable {length : α → Nat} {missing truncated : ε} {xs : List α} {pos : Nat} {f : Span α}

theorem spanAt_of_prefix {n : α} (h : xs[pos]? = some n) (hl : pos + 1 + length n ≤ xs.length) :
    SpanAt length xs pos ⟨pos + 1, (xs.drop (pos + 1)).take (length n)⟩ ∧
      (Span.stop ⟨pos + 1, (xs.drop (pos + 1)).take (length n)⟩) = pos + 1 + length n := by
  have hlen : ((xs.drop (pos + 1)).take (length n)).length = length n := by
    rw [List.length_take, List.length_drop]
    omega
  refine ⟨⟨rfl, ⟨n, h, hlen⟩, ?_, ?_⟩, ?_⟩
  · rw [hlen]
  · rw [Span.stop, hlen]
    exact hl
  · rw [Span.stop, hlen]

/-- A reader succeeds on a field that is there and ends where the field ends. -/
theorem readSpan_eq_ok {q : Nat} : readSpan length missing truncated xs pos = .ok (f, q) ↔
    SpanAt length xs pos f ∧ q = f.stop := by
  constructor
  · intro h
    simp only [readSpan] at h
    split at h
    · cases h
    · next n hn =>
      split_ifs at h with hl
      cases h
      have hle : pos + 1 + length n ≤ xs.length := by omega
      obtain ⟨hf, hs⟩ := spanAt_of_prefix hn hle
      exact ⟨hf, hs.symm⟩
  · rintro ⟨⟨hs, ⟨n, hn, hlen⟩, ht, hle⟩, rfl⟩
    have hle' : ¬ xs.length < pos + 1 + length n := by
      rw [Span.stop] at hle
      omega
    have hf : f = ⟨pos + 1, (xs.drop (pos + 1)).take (length n)⟩ := by
      rw [← hs, ← hlen, ← ht]
    rw [readSpan, hn]
    simp only [if_neg hle', ← hf]
    rw [Span.stop, hs, hlen]

theorem readSpan_of_spanAt (h : SpanAt length xs pos f) :
    readSpan length missing truncated xs pos = .ok (f, f.stop) :=
  readSpan_eq_ok.mpr ⟨h, rfl⟩

theorem readSpan_mapError (g : ε → δ) : (readSpan length missing truncated xs pos).mapError g =
    readSpan length (g missing) (g truncated) xs pos := by
  simp only [readSpan]
  split
  · rfl
  · split_ifs
    · rfl
    · rfl

theorem drop_of_getElem? {n : α} (h : xs[pos]? = some n) : xs.drop pos = n :: xs.drop (pos + 1) := by
  obtain ⟨hlt, rfl⟩ := List.getElem?_eq_some_iff.mp h
  exact List.drop_eq_getElem_cons hlt

theorem length_drop_lt {n : α} (h : xs[pos]? = some n) (k : Nat) :
    (xs.drop (pos + 1)).length < k ↔ xs.length < pos + 1 + k := by
  have := (List.getElem?_eq_some_iff.mp h).1
  rw [List.length_drop]
  omega

theorem drop_of_getElem?_none (h : xs[pos]? = none) : xs.drop pos = [] :=
  List.drop_eq_nil_of_le (List.getElem?_eq_none_iff.mp h)

end DnsMonitor.Lib.Cursors
