import DnsMonitor.Lib.Runs

namespace DnsMonitor.Lib.Programs

open DnsMonitor.Lib.Runs

section

variable {α : Type} {β : α → Type} {ρ : Type}

/-- A program asks a question and goes on with the answer, until it has a result. -/
inductive Program (α : Type) (β : α → Type) (ρ : Type) where
  | done (result : ρ)
  | ask (a : α) (next : β a → Program α β ρ)

abbrev Exchange (β : α → Type) := (a : α) × β a

/-- The exchanges after which this is left of a program. -/
inductive Talk : Program α β ρ → List (Exchange β) → Program α β ρ → Prop where
  | nil (p : Program α β ρ) : Talk p [] p
  | cons {a : α} {next : β a → Program α β ρ} {r : β a} {l : List (Exchange β)}
      {q : Program α β ρ} : Talk (next r) l q → Talk (.ask a next) (⟨a, r⟩ :: l) q

variable {p q : Program α β ρ} {a : α} {next : β a → Program α β ρ} {l : List (Exchange β)}

theorem Talk.snoc (h : Talk p l (.ask a next)) (r : β a) : Talk p (l ++ [⟨a, r⟩]) (next r) := by
  generalize hq : Program.ask a next = q at h
  induction h with
  | nil p => exact hq ▸ .cons (.nil _)
  | cons _ ih => exact .cons (ih hq)

def Program.Asks (A : Exchange β → Prop) (P : α → Prop) : Program α β ρ → Prop
  | .done _ => True
  | .ask a next => P a ∧ ∀ r, A ⟨a, r⟩ → (next r).Asks A P

theorem Program.Asks.mono {A : Exchange β → Prop} {P Q : α → Prop} (h : p.Asks A P)
    (hPQ : ∀ a, P a → Q a) : p.Asks A Q := by
  induction p with
  | done result => trivial
  | ask a next ih => exact ⟨hPQ a h.1, fun r hr => ih r (h.2 r hr)⟩

theorem Program.Asks.of_talk {A : Exchange β → Prop} {P : α → Prop} (h : p.Asks A P)
    (ht : Talk p l q) (hl : ∀ x ∈ l, A x) : ∀ x ∈ l, P x.1 := by
  induction ht with
  | nil => simp
  | cons _ ih =>
    obtain ⟨hx, hl⟩ := List.forall_mem_cons.mp hl
    exact List.forall_mem_cons.mpr ⟨h.1, ih (h.2 _ hx) hl⟩

/-- A program asks a question of the one kind only after an exchange of the other. -/
def Program.Guards (opens : Exchange β → Prop) (guarded : α → Prop) : Program α β ρ → Prop
  | .done _ => True
  | .ask a next => ¬ guarded a ∧ ∀ r, opens ⟨a, r⟩ ∨ (next r).Guards opens guarded

theorem Program.Guards.of_talk {opens : Exchange β → Prop} {guarded : α → Prop}
    (h : p.Guards opens guarded) (ht : Talk p l q) {before after : List (Exchange β)}
    {x : Exchange β} (hl : l = before ++ x :: after) (hx : guarded x.1) :
    ∃ y ∈ before, opens y := by
  induction ht generalizing before with
  | nil => simp at hl
  | cons _ ih =>
    cases before with
    | nil =>
      obtain ⟨rfl, -⟩ := List.cons.inj hl
      exact absurd hx h.1
    | cons y before =>
      obtain ⟨rfl, htail⟩ := List.cons.inj hl
      obtain hopen | hguards := h.2 _
      · exact ⟨_, List.mem_cons_self, hopen⟩
      · obtain ⟨z, hz, hopen⟩ := ih hguards htail
        exact ⟨z, List.mem_cons_of_mem _ hz, hopen⟩

/-- What holds of all exchanges and the result of a program once it is done. -/
def Program.Ends (P : List (Exchange β) → ρ → Prop) : Program α β ρ → Prop
  | .done result => P [] result
  | .ask a next => ∀ r, (next r).Ends fun l => P (⟨a, r⟩ :: l)

theorem Program.Ends.of_talk {P : List (Exchange β) → ρ → Prop} {result : ρ} (h : p.Ends P)
    (ht : Talk p l (.done result)) : P l result := by
  generalize hq : Program.done result = q at ht
  induction ht generalizing P with
  | nil p =>
    subst hq
    exact h
  | cons _ ih => exact ih (h _) hq

theorem Program.Ends.mono {P Q : List (Exchange β) → ρ → Prop} (h : p.Ends P)
    (hPQ : ∀ l result, P l result → Q l result) : p.Ends Q := by
  induction p generalizing P Q with
  | done result => exact hPQ [] result h
  | ask a next ih => exact fun r => ih r (h r) fun l result => hPQ (⟨a, r⟩ :: l) result

end

section

variable {α : Type} {β : α → Type} {ρ σ ε δ κ : Type}

/-- The program that serves each request, how the shared state answers a question under some
circumstances, and what else happens to it. -/
structure Machine (α : Type) (β : α → Type) (ρ σ ε δ κ : Type) where
  serve : κ → Program α β ρ
  perform : ε → σ → (a : α) → β a × σ
  outside : σ → δ → σ

inductive Event (ε δ κ : Type) where
  | arrive (request : κ)
  | advance (i : Nat) (circumstances : ε)
  | outside (d : δ)

inductive Entry (β : α → Type) (ε δ : Type) where
  | asked (i : Nat) (circumstances : ε) (exchange : Exchange β)
  | outside (d : δ)

/-- The requests with what is left of their programs, and all that has happened. -/
structure Pool (β : α → Type) (ρ σ ε δ κ : Type) where
  shared : σ
  threads : List (κ × Program α β ρ)
  log : List (Entry β ε δ)

def start (s : σ) : Pool β ρ σ ε δ κ := ⟨s, [], []⟩

variable (m : Machine α β ρ σ ε δ κ)

def step (s : Pool β ρ σ ε δ κ) : Event ε δ κ → Pool β ρ σ ε δ κ
  | .arrive request => { s with threads := s.threads ++ [(request, m.serve request)] }
  | .advance i e =>
    match s.threads[i]? with
    | some (request, .ask a next) =>
      let (r, shared) := m.perform e s.shared a
      { shared
        threads := s.threads.set i (request, next r)
        log := s.log ++ [.asked i e ⟨a, r⟩] }
    | _ => s
  | .outside d => { s with shared := m.outside s.shared d, log := s.log ++ [.outside d] }

def apply (s : σ) : Entry β ε δ → σ
  | .asked _ e x => (m.perform e s x.1).2
  | .outside d => m.outside s d

def replay (s : σ) (log : List (Entry β ε δ)) : σ := run (apply m) s log

def exchanges (i : Nat) (log : List (Entry β ε δ)) : List (Exchange β) :=
  log.filterMap fun
    | .asked j _ x => if j = i then some x else none
    | .outside _ => none

variable {m} {s₀ : σ} {s : Pool β ρ σ ε δ κ} {log before after : List (Entry β ε δ)} {i : Nat}
  {e : ε} {x : Exchange β}

theorem append_singleton_split {τ : Type} {l before after : List τ} {a b : τ}
    (h : l ++ [a] = before ++ b :: after) :
    (∃ rest, after = rest ++ [a] ∧ l = before ++ b :: rest) ∨ l = before ∧ a = b := by
  induction after using List.reverseRecOn with
  | nil =>
    obtain ⟨hl, ha⟩ := List.append_inj' h rfl
    exact .inr ⟨hl, (List.cons.inj ha).1⟩
  | append_singleton rest c _ =>
    rw [← List.cons_append, ← List.append_assoc] at h
    obtain ⟨hl, ha⟩ := List.append_inj' h rfl
    exact .inl ⟨rest, (List.cons.inj ha).1 ▸ rfl, hl⟩

@[simp] theorem exchanges_append : exchanges i (before ++ after) =
    exchanges i before ++ exchanges i after := List.filterMap_append

theorem exchanges_asked (i j : Nat) (e : ε) (x : Exchange β) :
    exchanges i [(.asked j e x : Entry β ε δ)] = if j = i then [x] else [] := by
  by_cases h : j = i <;> simp [exchanges, h]

theorem exchanges_outside (i : Nat) (d : δ) : exchanges i [(.outside d : Entry β ε δ)] = [] := rfl

theorem mem_exchanges : x ∈ exchanges i log ↔ ∃ e, Entry.asked i e x ∈ log := by
  simp only [exchanges, List.mem_filterMap]
  constructor
  · rintro ⟨entry, hmem, hx⟩
    cases entry with
    | asked j e y =>
      by_cases hj : j = i
      · simp only [hj, if_true, Option.some.injEq] at hx
        exact ⟨e, hj ▸ hx ▸ hmem⟩
      · simp [hj] at hx
    | outside d => simp at hx
  · rintro ⟨e, hmem⟩
    exact ⟨_, hmem, by simp⟩

theorem exists_split {init rest : List (Exchange β)} (h : exchanges i log = init ++ x :: rest) :
    ∃ before e after, log = before ++ .asked i e x :: after ∧ exchanges i before = init ∧
      exchanges i after = rest := by
  obtain ⟨first, later, rfl, hinit, hlater⟩ := List.filterMap_eq_append_iff.mp h
  obtain ⟨skipped, entry, after, rfl, hskipped, hentry, hafter⟩ :=
    List.filterMap_eq_cons_iff.mp hlater
  have hbefore : exchanges i (first ++ skipped) = init := by
    rw [exchanges, List.filterMap_append, hinit, List.filterMap_eq_nil_iff.mpr hskipped,
      List.append_nil]
  cases entry with
  | asked j e y =>
    by_cases hj : j = i
    · simp only [hj, if_true, Option.some.injEq] at hentry
      exact ⟨first ++ skipped, e, after, by simp [hj, hentry], hbefore, hafter⟩
    · simp [hj] at hentry
  | outside d => simp at hentry

/-- The log tells how the shared state and each thread have come about. -/
structure Logged (m : Machine α β ρ σ ε δ κ) (s₀ : σ) (s : Pool β ρ σ ε δ κ) : Prop where
  shared : s.shared = replay m s₀ s.log
  talk : ∀ i request q, s.threads[i]? = some (request, q) →
    Talk (m.serve request) (exchanges i s.log) q
  silent : ∀ i, s.threads.length ≤ i → exchanges i s.log = []
  answered : ∀ before i e x after, s.log = before ++ .asked i e x :: after →
    x.2 = (m.perform e (replay m s₀ before) x.1).1

theorem logged_arrive (h : Logged m s₀ s) (request : κ) :
    Logged m s₀ (step m s (.arrive request)) where
  shared := h.shared
  talk i other q hi := by
    rw [step, List.getElem?_append] at hi
    split_ifs at hi with hlt
    · exact h.talk i other q hi
    · simp only [List.getElem?_singleton] at hi
      split_ifs at hi
      obtain ⟨rfl, rfl⟩ := Prod.mk.inj (Option.some.inj hi)
      have hsilent : exchanges i (step m s (.arrive request)).log = [] :=
        h.silent i (not_lt.mp hlt)
      exact hsilent ▸ .nil _
  silent i hi := by
    rw [step, List.length_append] at hi
    exact h.silent i (Nat.le_of_add_right_le hi)
  answered := h.answered

theorem logged_advance (h : Logged m s₀ s) (i : Nat) (e : ε) :
    Logged m s₀ (step m s (.advance i e)) := by
  rw [step]
  split
  · rename_i request a next hi
    have hlt : i < s.threads.length := (List.getElem?_eq_some_iff.mp hi).1
    refine ⟨?_, ?_, ?_, ?_⟩
    · simp only [replay, run_append, run_cons, run_nil, apply]
      rw [← replay, ← h.shared]
    · intro j other q hj
      rw [List.getElem?_set] at hj
      rw [exchanges_append, exchanges_asked]
      split_ifs at hj ⊢ with hij
      · obtain ⟨rfl, rfl⟩ := Prod.mk.inj (Option.some.inj hj)
        exact (hij ▸ h.talk i request _ hi).snoc _
      · rw [List.append_nil]
        exact h.talk j other q hj
    · intro j hj
      rw [List.length_set] at hj
      rw [exchanges_append, exchanges_asked, h.silent j hj, if_neg (Nat.ne_of_lt (hlt.trans_le hj))]
      rfl
    · intro before j d x after hlog
      obtain ⟨_, -, hin⟩ | ⟨hbefore, hlast⟩ := append_singleton_split hlog
      · exact h.answered before j d x _ hin
      · obtain ⟨rfl, rfl, rfl⟩ := Entry.asked.inj hlast
        rw [← hbefore, ← h.shared]
  · exact h

theorem logged_outside (h : Logged m s₀ s) (d : δ) : Logged m s₀ (step m s (.outside d)) := by
  rw [step]
  refine ⟨?_, ?_, ?_, ?_⟩
  · simp only [replay, run_append, run_cons, run_nil, apply]
    rw [← replay, ← h.shared]
  · intro i request q hi
    rw [exchanges_append, exchanges_outside, List.append_nil]
    exact h.talk i request q hi
  · intro i hi
    rw [exchanges_append, exchanges_outside, List.append_nil]
    exact h.silent i hi
  · intro before i e x after hlog
    obtain ⟨_, -, hin⟩ | ⟨-, hlast⟩ := append_singleton_split hlog
    · exact h.answered before i e x _ hin
    · cases hlast

theorem logged (m : Machine α β ρ σ ε δ κ) (s₀ : σ) (es : List (Event ε δ κ)) : Logged m s₀ (run (step m) (start s₀) es) := by
  apply run_invariant
  · intro s event h
    cases event with
    | arrive request => exact logged_arrive h request
    | advance i e => exact logged_advance h i e
    | outside d => exact logged_outside h d
  · refine ⟨rfl, ?_, fun _ _ => rfl, ?_⟩
    · intro i request q hi
      simp [start] at hi
    · intro before i e x after hlog
      simp [start] at hlog

/-- The shared state is as the programs rely on, and so are the programs that are left. -/
structure Sound (A : Exchange β → Prop) (P : α → Prop) (I : σ → Prop) (s : Pool β ρ σ ε δ κ) :
    Prop where
  shared : I s.shared
  threads : ∀ thread ∈ s.threads, thread.2.Asks A P

/-- Programs rely on answers that an invariant gives, and ask only what keeps it. -/
theorem sound_run {A : Exchange β → Prop} {P : α → Prop} {I : σ → Prop}
    (hserve : ∀ request, (m.serve request).Asks A P)
    (hperform : ∀ e t a, P a → I t → A ⟨a, (m.perform e t a).1⟩ ∧ I (m.perform e t a).2)
    (houtside : ∀ t d, I t → I (m.outside t d)) (hs : I s₀) (es : List (Event ε δ κ)) :
    Sound A P I (run (step m) (start s₀) es) := by
  refine run_invariant ?_ ⟨hs, by simp [start]⟩ es
  intro s event h
  cases event with
  | arrive request =>
    refine ⟨h.shared, ?_⟩
    intro thread hmem
    obtain hmem | hmem := List.mem_append.mp hmem
    · exact h.threads thread hmem
    · exact List.mem_singleton.mp hmem ▸ hserve request
  | advance i e =>
    rw [step]
    split
    · rename_i request a next hi
      have hasks := h.threads (request, .ask a next) (List.mem_of_getElem? hi)
      obtain ⟨hanswer, hshared⟩ := hperform e s.shared a hasks.1 h.shared
      refine ⟨hshared, ?_⟩
      intro thread hmem
      obtain hmem | rfl := List.mem_or_eq_of_mem_set hmem
      · exact h.threads thread hmem
      · exact hasks.2 _ hanswer
    · exact h
  | outside d => exact ⟨houtside s.shared d h.shared, h.threads⟩

theorem advance_of_mem {es : List (Event ε δ κ)}
    (hx : .asked i e x ∈ (run (step m) (start s₀) es).log) : .advance i e ∈ es := by
  induction es using List.reverseRecOn with
  | nil => simp [start] at hx
  | append_singleton es event ih =>
    rw [run_append, run_cons, run_nil] at hx
    cases event with
    | arrive request => exact List.mem_append_left _ (ih hx)
    | advance j d =>
      rw [step] at hx
      split at hx
      · obtain hx | hx := List.mem_append.mp hx
        · exact List.mem_append_left _ (ih hx)
        · obtain ⟨rfl, rfl, -⟩ := Entry.asked.inj (List.mem_singleton.mp hx)
          exact List.mem_append_right _ (List.mem_singleton_self _)
      · exact List.mem_append_left _ (ih hx)
    | outside d =>
      obtain hx | hx := List.mem_append.mp hx
      · exact List.mem_append_left _ (ih hx)
      · cases List.mem_singleton.mp hx

theorem Logged.thread (h : Logged m s₀ s) (hx : .asked i e x ∈ s.log) :
    ∃ request q, s.threads[i]? = some (request, q) ∧
      Talk (m.serve request) (exchanges i s.log) q := by
  by_cases hi : i < s.threads.length
  · have hthread := List.getElem?_eq_getElem hi
    exact ⟨_, _, hthread, h.talk i _ _ hthread⟩
  · have hsilent := h.silent i (not_lt.mp hi)
    exact absurd (mem_exchanges.mpr ⟨e, hx⟩) (by simp [hsilent])

/-- A guarded question comes after an exchange of the same program that opens the guard. -/
theorem Logged.opened (h : Logged m s₀ s) {opens : κ → Exchange β → Prop} {guarded : α → Prop}
    (hserve : ∀ request, (m.serve request).Guards (opens request) guarded)
    (hlog : s.log = before ++ .asked i e x :: after) (hx : guarded x.1) :
    ∃ request q d y, s.threads[i]? = some (request, q) ∧ .asked i d y ∈ before ∧
      opens request y := by
  obtain ⟨request, q, hi, htalk⟩ := h.thread (i := i) (e := e) (x := x) (by simp [hlog])
  have hsplit : exchanges i s.log = exchanges i before ++ x :: exchanges i after := by
    rw [hlog, List.append_cons, exchanges_append, exchanges_append, exchanges_asked, if_pos rfl,
      List.append_assoc]
    rfl
  obtain ⟨y, hy, hopen⟩ := (hserve request).of_talk htalk hsplit hx
  obtain ⟨d, hmem⟩ := mem_exchanges.mp hy
  exact ⟨request, q, d, y, hi, hmem, hopen⟩

/-- What holds of every way to the end of a program holds of every thread that is done. -/
theorem Logged.ends (h : Logged m s₀ s) {P : κ → List (Exchange β) → ρ → Prop}
    (hserve : ∀ request, (m.serve request).Ends (P request)) {request : κ} {result : ρ}
    (hi : s.threads[i]? = some (request, .done result)) : P request (exchanges i s.log) result :=
  (hserve request).of_talk (h.talk i request _ hi)

end

end DnsMonitor.Lib.Programs
