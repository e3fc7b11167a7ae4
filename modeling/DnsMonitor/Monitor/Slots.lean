import DnsMonitor.Go.Strings

namespace DnsMonitor.Monitor.Slots

open DnsMonitor.Go.Strings

/-- What `acquire`, `release` and `references` use of the monitor. -/
structure Gate where
  concurrency : Int
  active : Int
  busy : List Int
  /-- The open channel `changed`. -/
  changed : Nat
  /-- The collections that run, each with its channel `done`. -/
  collections : List (GoString × Nat)
  /-- How many collections have started. -/
  collected : Nat
deriving DecidableEq

/-- As `New` makes it, with the concurrency of the default configuration. -/
def new : Gate where
  concurrency := 2
  active := 0
  busy := []
  changed := 0
  collections := []
  collected := 0

def signal (g : Gate) : Gate := { g with changed := g.changed + 1 }

/-- How one turn of the loop in `acquire` ends. -/
inductive Attempt where
  | paused
  | granted
  | blocked (changed : Nat)

def attempt (serverID : Int) (g : Gate) : Attempt × Gate :=
  if g.concurrency = 0 then (.paused, g)
  else if g.active < g.concurrency ∧ serverID ∉ g.busy then
    (.granted, { g with active := g.active + 1, busy := serverID :: g.busy })
  else (.blocked g.changed, g)

def release (serverID : Int) (g : Gate) : Gate :=
  signal { g with active := g.active - 1, busy := g.busy.filter (· ≠ serverID) }

def configure (concurrency : Int) (g : Gate) : Gate := signal { g with concurrency }

/-- Who looks up: the round itself, or the collection it runs for a domain. -/
inductive Purpose where
  | target
  | source (domain : GoString) (done : Nat)
deriving DecidableEq

inductive Place where
  /-- In `runRound`, before the next domain. -/
  | round
  /-- In `acquire`, before the lock. -/
  | acquire (p : Purpose) (serverID : Int)
  /-- In `acquire`, in the select. -/
  | blocked (p : Purpose) (serverID : Int) (changed : Nat)
  /-- In `lookup`, after `acquire`. -/
  | lookup (p : Purpose) (serverID : Int)
  /-- In `references`, at the head of the loop. -/
  | references (domain : GoString)
  /-- In `references`, in the select. -/
  | awaiting (domain : GoString) (done changed : Nat)
  /-- In `references`, before the next source. -/
  | collecting (domain : GoString) (done : Nat)
  | ended
deriving DecidableEq

/-- A goroutine and the servers it has deferred the release of. -/
structure Caller where
  place : Place
  held : List Int
deriving DecidableEq

inductive Outcome where
  | failed
  /-- The target is trusted, or there is nothing to compare. -/
  | settled
  | compare (domain : GoString)
deriving DecidableEq

/-- What a goroutine does next, where what it reads or its context decides. -/
inductive Move where
  | begin (serverID : Int)
  | attempt
  | wake
  | cancel
  | finish (outcome : Outcome)
  /-- `references` returns what it has, with an error or without. -/
  | answer (ok : Bool)
  | collect
  | leave
deriving DecidableEq

def Purpose.after (p : Purpose) (outcome : Outcome) : Place :=
  match p with
  | .source domain done => .collecting domain done
  | .target =>
    match outcome with
    | .failed => .ended
    | .settled => .round
    | .compare domain => .references domain

def answered (ok : Bool) : Place := if ok then .round else .ended

/-- One step of a goroutine. It cannot make a move that does not belong to its place. -/
def advance (g : Gate) (c : Caller) (m : Move) : Gate × Caller :=
  match c.place, m with
  | .round, .begin serverID => (g, { c with place := .acquire .target serverID })
  | .round, .leave => (g, { c with place := .ended })
  | .acquire p serverID, .attempt =>
    match attempt serverID g with
    | (.paused, g) => (g, { c with place := p.after .failed })
    | (.granted, g) => (g, { place := .lookup p serverID, held := serverID :: c.held })
    | (.blocked changed, g) => (g, { c with place := .blocked p serverID changed })
  | .blocked p serverID changed, .wake =>
    if changed < g.changed then (g, { c with place := .acquire p serverID }) else (g, c)
  | .blocked p _ _, .cancel => (g, { c with place := p.after .failed })
  | .lookup p serverID, .finish outcome =>
    (release serverID g, { place := p.after outcome, held := c.held.erase serverID })
  | .references _, .answer ok => (g, { c with place := answered ok })
  | .references domain, .collect =>
    if g.concurrency = 0 then (g, { c with place := .ended })
    else
      match g.collections.lookup domain with
      | some done => (g, { c with place := .awaiting domain done g.changed })
      | none =>
        ({ g with
            collections := (domain, g.collected) :: g.collections
            collected := g.collected + 1 },
          { c with place := .collecting domain g.collected })
  | .awaiting domain done changed, .wake =>
    if changed < g.changed ∨ (domain, done) ∉ g.collections then
      (g, { c with place := .references domain })
    else (g, c)
  | .awaiting _ _ _, .cancel => (g, { c with place := .ended })
  | .collecting domain done, .begin serverID =>
    (g, { c with place := .acquire (.source domain done) serverID })
  | .collecting domain done, .answer ok =>
    ({ g with collections := g.collections.filter (· ≠ (domain, done)) },
      { c with place := answered ok })
  | _, _ => (g, c)

structure System where
  gate : Gate
  callers : List Caller
deriving DecidableEq

def start : System := ⟨new, []⟩

inductive Action where
  /-- `dispatch` starts a round. -/
  | spawn
  | configure (concurrency : Int)
  | advance (caller : Nat) (m : Move)
deriving DecidableEq

def step (s : System) : Action → System
  | .spawn => { s with callers := s.callers ++ [⟨.round, []⟩] }
  | .configure concurrency => { s with gate := configure concurrency s.gate }
  | .advance i m =>
    match s.callers[i]? with
    | none => s
    | some c =>
      let (gate, c) := advance s.gate c m
      ⟨gate, s.callers.set i c⟩

end DnsMonitor.Monitor.Slots
