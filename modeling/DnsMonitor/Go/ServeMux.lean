import DnsMonitor.Go.Url

namespace DnsMonitor.Go.ServeMux

open DnsMonitor.Go.Strings DnsMonitor.Go.Net DnsMonitor.Go.Url

inductive Segment where
  | literal (name : GoString)
  | wildcard
deriving DecidableEq

structure Pattern (η : Type) where
  method : GoString
  segments : List Segment
  /-- The pattern ends in a slash and takes all paths below it. -/
  subtree : Bool := false
  handler : η

inductive Outcome (η : Type) where
  | handle (handler : η) (values : List GoString)
  | redirect
  | methodNotAllowed
deriving DecidableEq

/-- A segment that is no escaped text stands for itself. -/
def pathUnescape (s : GoString) : GoString :=
  match unescape .path s with
  | .ok t => t
  | .error _ => s

def segmentsOf (path : GoString) : List GoString := path.tail.splitOn (byte '/')

def isClean (path : GoString) : Bool :=
  path.head? = some (byte '/') && (segmentsOf path).dropLast.all (· ≠ []) &&
    (segmentsOf path).all fun s => s ≠ str "." && s ≠ str ".."

/-- The texts of the wildcards. A wildcard takes no empty segment. -/
def matchPath (subtree : Bool) : List Segment → List GoString → Option (List GoString)
  | [], rest => if subtree || rest = [] then some [] else none
  | _ :: _, [] => none
  | .literal name :: ps, s :: rest =>
    if pathUnescape s = name then matchPath subtree ps rest else none
  | .wildcard :: ps, s :: rest =>
    if s = [] then none else (matchPath subtree ps rest).map (pathUnescape s :: ·)

def Pattern.matchRequest {η : Type} (p : Pattern η) (method path : GoString) :
    Option (η × List GoString) :=
  if p.method = method ∨ p.method = str "GET" ∧ method = str "HEAD" then
    (matchPath p.subtree p.segments (segmentsOf path)).map fun values => (p.handler, values)
  else none

/-- `ServeMux.findHandler`, for patterns with the most specific ones in front. -/
def findHandler {η : Type} (patterns : List (Pattern η)) (method : GoString) (u : URL) :
    Outcome η :=
  if method ≠ str "CONNECT" ∧ isClean u.escapedPath = false then .redirect
  else
    match patterns.findSome? fun p => p.matchRequest method u.escapedPath with
    | some (handler, values) => .handle handler values
    | none => .methodNotAllowed

theorem unescape_escapedPath (u : URL) : unescape .path u.escapedPath = .ok u.path := by
  rw [URL.escapedPath]
  split_ifs with hraw hstar
  · exact hraw.2.2
  · rw [hstar]
    decide
  · exact unescape_path_escape u.path

theorem unescape_path_percent (h l : UInt8) (rest : GoString) {t : GoString} :
    unescape .path (byte '%' :: h :: l :: rest) = .ok t ↔ ∃ x y s, hexValue h = some x ∧
      hexValue l = some y ∧ unescape .path rest = .ok s ∧ t = UInt8.ofNat (16 * x + y) :: s := by
  rw [unescape, if_pos rfl]
  cases hexValue h with
  | none => simp
  | some x =>
    cases hexValue l with
    | none => simp
    | some y =>
      have hmode : ¬ (Encoding.path = .host) ∧ ¬ (Encoding.path = .zone) := by decide
      simp only [hmode, false_and, if_false, map_cons_eq_ok, Option.some.injEq]
      constructor
      · rintro ⟨s, hs, rfl⟩
        exact ⟨x, y, s, rfl, rfl, hs, rfl⟩
      · rintro ⟨_, _, s, rfl, rfl, hs, rfl⟩
        exact ⟨s, hs, rfl⟩

theorem hexValue_slash : hexValue (byte '/') = none := by decide

theorem unescape_path_short {s t : GoString} (h : s.length < 2) :
    unescape .path (byte '%' :: s) ≠ .ok t := by
  match s, h with
  | [], _ => simp [unescape]
  | [_], _ => simp [unescape]

theorem unescape_slash {s rest t : GoString} :
    unescape .path (s ++ byte '/' :: rest) = .ok t ↔ ∃ a b, unescape .path s = .ok a ∧
      unescape .path rest = .ok b ∧ t = a ++ byte '/' :: b := by
  have hplain : ∀ (c : UInt8) (r : GoString), c ≠ byte '%' →
      unescape .path (c :: r) = (unescape .path r).map (c :: ·) :=
    fun c r hc => unescape_cons hc (by simp) r
  -- an escape takes three bytes, so the induction is on the length
  induction hn : s.length using Nat.strong_induction_on generalizing s t with
  | _ n ih =>
    subst hn
    cases s with
    | nil =>
      rw [List.nil_append, hplain _ _ (by decide), map_cons_eq_ok]
      simp [unescape, eq_comm]
    | cons c s =>
      by_cases hc : c = byte '%'
      · subst hc
        obtain _ | ⟨h, _ | ⟨l, s⟩⟩ := s
        · constructor
          · intro hok
            cases rest with
            | nil => exact absurd hok (unescape_path_short (by simp))
            | cons l rest =>
              obtain ⟨x, _, _, hx, -⟩ := (unescape_path_percent _ l rest).mp hok
              simp [hexValue_slash] at hx
          · rintro ⟨a, -, ha, -⟩
            exact absurd ha (unescape_path_short (by simp))
        · constructor
          · intro hok
            obtain ⟨_, y, _, -, hy, -⟩ := (unescape_path_percent h _ rest).mp hok
            simp [hexValue_slash] at hy
          · rintro ⟨a, -, ha, -⟩
            exact absurd ha (unescape_path_short (by simp))
        · have hs := fun {t} => ih s.length (by simp; omega) (s := s) (t := t) rfl
          rw [List.cons_append, List.cons_append, List.cons_append, unescape_path_percent]
          simp only [hs, unescape_path_percent]
          constructor
          · rintro ⟨x, y, _, hx, hy, ⟨a, b, ha, hb, rfl⟩, rfl⟩
            exact ⟨_, b, ⟨x, y, a, hx, hy, ha, rfl⟩, hb, rfl⟩
          · rintro ⟨_, b, ⟨x, y, a, hx, hy, ha, rfl⟩, hb, rfl⟩
            exact ⟨x, y, _, hx, hy, ⟨a, b, ha, hb, rfl⟩, rfl⟩
      · have hs := fun {t} => ih s.length (by simp) (s := s) (t := t) rfl
        rw [List.cons_append, hplain _ _ hc, hplain _ _ hc]
        simp only [map_cons_eq_ok, hs]
        constructor
        · rintro ⟨_, ⟨a, b, ha, hb, rfl⟩, rfl⟩
          exact ⟨_, b, ⟨a, ha, rfl⟩, hb, rfl⟩
        · rintro ⟨_, b, ⟨a, ha, rfl⟩, hb, rfl⟩
          exact ⟨_, ⟨a, b, ha, hb, rfl⟩, rfl⟩

theorem pathUnescape_eq {s t : GoString} (h : unescape .path s = .ok t) : pathUnescape s = t := by
  rw [pathUnescape, h]

theorem unescape_segments {segments : List GoString} {t : GoString} (hne : segments ≠ [])
    (h : unescape .path ([byte '/'].intercalate segments) = .ok t) :
    t = [byte '/'].intercalate (segments.map pathUnescape) := by
  induction segments generalizing t with
  | nil => exact absurd rfl hne
  | cons s rest ih =>
    cases rest with
    | nil => simpa using (pathUnescape_eq h).symm
    | cons s' rest =>
      rw [List.intercalate_cons_cons, List.append_assoc, List.singleton_append] at h
      obtain ⟨a, b, ha, hb, rfl⟩ := unescape_slash.mp h
      rw [List.map_cons, List.map_cons, List.intercalate_cons_cons, pathUnescape_eq ha,
        ih (by simp) hb, List.map_cons, List.append_assoc, List.singleton_append]

theorem path_eq {path t : GoString} (hslash : path.head? = some (byte '/'))
    (h : unescape .path path = .ok t) :
    t = byte '/' :: [byte '/'].intercalate ((segmentsOf path).map pathUnescape) := by
  obtain ⟨rest, rfl⟩ : ∃ rest, path = byte '/' :: rest := by
    cases path with
    | nil => simp at hslash
    | cons c rest => exact ⟨rest, by simpa using hslash⟩
  rw [← List.nil_append (byte '/' :: rest)] at h
  obtain ⟨a, b, ha, hb, rfl⟩ := unescape_slash.mp h
  rw [unescape, Except.ok.injEq] at ha
  rw [segmentsOf, List.tail_cons, ← ha, List.nil_append]
  congr 1
  apply unescape_segments (List.splitOn_ne_nil _ _)
  rw [List.intercalate_splitOn]
  exact hb

theorem matchPath_literal {subtree : Bool} {name : GoString} {ps : List Segment}
    {segments values : List GoString}
    (h : matchPath subtree (.literal name :: ps) segments = some values) :
    ∃ s rest, segments = s :: rest ∧ pathUnescape s = name ∧
      matchPath subtree ps rest = some values := by
  cases segments with
  | nil => simp [matchPath] at h
  | cons s rest =>
    rw [matchPath] at h
    split_ifs at h with hname
    exact ⟨s, rest, rfl, hname, h⟩

/-- The request that a handler serves has the method of a pattern and a path that matches it. -/
theorem findHandler_handle {η : Type} {patterns : List (Pattern η)} {method : GoString} {u : URL}
    {handler : η} {values : List GoString}
    (h : findHandler patterns method u = .handle handler values) : ∃ p ∈ patterns,
      p.handler = handler ∧ (p.method = method ∨ p.method = str "GET" ∧ method = str "HEAD") ∧
      matchPath p.subtree p.segments (segmentsOf u.escapedPath) = some values ∧
      (method = str "CONNECT" ∨ isClean u.escapedPath = true) := by
  rw [findHandler] at h
  split_ifs at h with hclean
  split at h
  · rename_i handler' values' hfind
    obtain ⟨rfl, rfl⟩ := Outcome.handle.inj h
    obtain ⟨p, hp, hmatch⟩ := List.exists_of_findSome?_eq_some hfind
    rw [Pattern.matchRequest] at hmatch
    split_ifs at hmatch with hmethod
    obtain ⟨_, hvalues, heq⟩ := Option.map_eq_some_iff.mp hmatch
    obtain ⟨rfl, rfl⟩ := Prod.mk.inj heq
    refine ⟨p, hp, rfl, hmethod, hvalues, ?_⟩
    rw [not_and_or, not_not, Bool.not_eq_false] at hclean
    exact hclean
  · cases h

end DnsMonitor.Go.ServeMux
