import Mathlib.Data.List.Induction

namespace DnsMonitor.Lib.Logs

variable {ε : Type} {p : ε → Bool} {log : List ε} {e : ε}

def Each (Q : List ε → ε → Prop) (log : List ε) : Prop :=
  ∀ before e after, log = before ++ e :: after → Q before e

/-- What holds of the last entry of a kind and of what came after it. -/
def SinceLast (p : ε → Bool) (R : ε → List ε → Prop) (log : List ε) : Prop :=
  ∀ before e after, log = before ++ e :: after → p e = true → (∀ d ∈ after, p d = false) →
    R e after

theorem split_concat {before after : List ε} {d : ε} (h : log ++ [e] = before ++ d :: after) :
    (after = [] ∧ before = log ∧ d = e) ∨ ∃ rest, after = rest ++ [e] ∧ log = before ++ d :: rest := by
  induction after using List.reverseRecOn with
  | nil =>
    obtain ⟨hbefore, hd⟩ := List.append_inj' h rfl
    exact .inl ⟨rfl, hbefore.symm, (List.cons.inj hd).1.symm⟩
  | append_singleton rest x _ =>
    rw [← List.cons_append, ← List.append_assoc] at h
    obtain ⟨hlog, hx⟩ := List.append_inj' h rfl
    rw [(List.cons.inj hx).1]
    exact .inr ⟨rest, rfl, hlog⟩

theorem each_nil {Q : List ε → ε → Prop} : Each Q [] := by
  intro before e after h
  simp at h

theorem Each.concat {Q : List ε → ε → Prop} (h : Each Q log) (he : Q log e) :
    Each Q (log ++ [e]) := by
  intro before d after hsplit
  obtain ⟨-, rfl, rfl⟩ | ⟨rest, rfl, hlog⟩ := split_concat hsplit
  · exact he
  · exact h before d rest hlog

variable {R R' : ε → List ε → Prop}

theorem sinceLast_nil : SinceLast p R [] := by
  intro before e after h
  simp at h

theorem SinceLast.mono (h : SinceLast p R log)
    (hR : ∀ d after, p d = true → R d after → R' d after) : SinceLast p R' log := by
  intro before d after hsplit hd hafter
  exact hR d after hd (h before d after hsplit hd hafter)

theorem SinceLast.concat (h : SinceLast p R log) (he : p e = false)
    (hR : ∀ d after, p d = true → R d after → R' d (after ++ [e])) :
    SinceLast p R' (log ++ [e]) := by
  intro before d after hsplit hd hafter
  obtain ⟨-, -, rfl⟩ | ⟨rest, rfl, hlog⟩ := split_concat hsplit
  · rw [hd] at he
    cases he
  · apply hR d rest hd
    exact h before d rest hlog hd fun o ho => hafter o (List.mem_append_left _ ho)

theorem sinceLast_concat (he : p e = true) (hR : R e []) : SinceLast p R (log ++ [e]) := by
  intro before d after hsplit hd hafter
  obtain ⟨rfl, -, rfl⟩ | ⟨rest, rfl, -⟩ := split_concat hsplit
  · exact hR
  · have hnot := hafter e (List.mem_append_right _ (List.mem_singleton_self e))
    rw [he] at hnot
    cases hnot

end DnsMonitor.Lib.Logs
