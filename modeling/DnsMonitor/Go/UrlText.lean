import DnsMonitor.Go.Url

namespace DnsMonitor.Go.UrlText

open DnsMonitor.Go.Strings DnsMonitor.Go.Unicode DnsMonitor.Go.Net DnsMonitor.Go.Errors
open DnsMonitor.Go.Url

def render (scheme host path : GoString) (forceQuery : Bool) (rawQuery : GoString) : GoString :=
  scheme ++ byte ':' :: byte '/' :: byte '/' :: host ++ path ++ queryText forceQuery rawQuery

def hostURL (scheme host : GoString) (forceQuery : Bool) (rawQuery : GoString) : URL :=
  { scheme, host, forceQuery, rawQuery }

def isScheme (scheme : GoString) : Prop :=
  (∃ b ∈ scheme.head?, isLetter b = true) ∧ ∀ b ∈ scheme, isSchemeByte b = true

def isQueryByte (b : UInt8) : Bool := !isControl b && b ≠ byte '#'

def isBodyByte (b : UInt8) : Bool := isQueryByte b && b ≠ byte '?'

def isAuthorityByte (b : UInt8) : Bool := isBodyByte b && b ≠ byte '/' && b ≠ byte '@'

/-- The parts of a text that `parse` reads back one by one. -/
structure IsRendered (scheme host path : GoString) (forceQuery : Bool) (rawQuery : GoString) :
    Prop where
  isScheme : isScheme scheme
  hostBytes : ∀ b ∈ host, isAuthorityByte b = true
  isPathText : isPathText path
  pathBytes : ∀ b ∈ path, isBodyByte b = true
  queryBytes : ∀ b ∈ rawQuery, isQueryByte b = true
  force : forceQuery = true → rawQuery = []

theorem getScheme_append {scheme : GoString} (h : isScheme scheme) (rest : GoString) :
    getScheme (scheme ++ byte ':' :: rest) = .ok (scheme, rest) := by
  obtain ⟨⟨b, hb, hl⟩, hs⟩ := h
  have htake : (scheme ++ byte ':' :: rest).takeWhile isSchemeByte = scheme := by
    rw [List.takeWhile_append_of_pos hs, List.takeWhile_cons_of_neg (by decide), List.append_nil]
  have hdrop : (scheme ++ byte ':' :: rest).dropWhile isSchemeByte = byte ':' :: rest := by
    rw [List.dropWhile_append_of_pos hs, List.dropWhile_cons_of_neg (by decide)]
  cases scheme with
  | nil => simp at hb
  | cons c scheme =>
    obtain rfl : c = b := by simpa using hb
    simp only [getScheme, htake, hdrop]
    simp [hl]

theorem getScheme_eq_ok {s name rest : GoString} (h : getScheme s = .ok (name, rest))
    (hne : name ≠ []) : isScheme name ∧ s = name ++ byte ':' :: rest := by
  have hs := List.takeWhile_append_dropWhile (p := isSchemeByte) (l := s)
  have hall : ∀ b ∈ s.takeWhile isSchemeByte, isSchemeByte b = true := fun b hb =>
    List.mem_takeWhile_imp hb
  simp only [getScheme] at h
  split at h
  · simp_all
  · next c tail hd =>
    split_ifs at h with hc
    · simp_all
    · split at h
      · simp at h
      · next b name' ht =>
        split_ifs at h with hl
        · simp only [Except.ok.injEq, Prod.mk.injEq] at h
          obtain ⟨rfl, rfl⟩ := h
          rw [not_not] at hc
          subst hc
          rw [ht] at hs hall
          rw [hd] at hs
          exact ⟨⟨⟨b, rfl, hl⟩, hall⟩, hs.symm⟩
        · simp_all

theorem splitQuery_append {body query : GoString} {force : Bool} (hb : byte '?' ∉ body)
    (hf : force = true → query = []) :
    splitQuery (body ++ queryText force query) = (body, force, query) := by
  cases force with
  | true =>
    obtain rfl := hf rfl
    have hc : (body ++ [byte '?']).count (byte '?') = 1 := by
      simp [List.count_eq_zero_of_not_mem hb]
    have hsuf : hasSuffix (body ++ [byte '?']) (str "?") = true :=
      hasSuffix_iff.mpr (List.suffix_append _ _)
    simp [splitQuery, queryText, hc, hsuf]
  | false =>
    obtain rfl | ⟨q, c, rfl⟩ := List.eq_nil_or_concat' query
    · have hc : body.count (byte '?') = 0 := List.count_eq_zero_of_not_mem hb
      simp [splitQuery, queryText, hc, cut_eq_none.mpr hb]
    · have hno : ¬ (hasSuffix (body ++ byte '?' :: (q ++ [c])) (str "?") = true ∧
          (body ++ byte '?' :: (q ++ [c])).count (byte '?') = 1) := by
        rintro ⟨hsuf, hc⟩
        obtain ⟨init, hi⟩ := hasSuffix_iff.mp hsuf
        have hi' : init ++ [byte '?'] = (body ++ byte '?' :: q) ++ [c] := by simpa [str] using hi
        obtain rfl : byte '?' = c := by simpa using (List.append_inj' hi' rfl).2
        simp only [List.count_append, List.count_cons_self, List.count_nil] at hc
        omega
      have ht : queryText false (q ++ [c]) = byte '?' :: (q ++ [c]) := by simp [queryText]
      rw [ht, splitQuery, if_neg hno, cut_append hb]

theorem splitQuery_eq {rest body query : GoString} {force : Bool}
    (h : splitQuery rest = (body, force, query)) :
    rest = body ++ queryText force query ∧ byte '?' ∉ body ∧ (force = true → query = []) := by
  simp only [splitQuery] at h
  split_ifs at h with hs
  · simp only [Prod.mk.injEq] at h
    obtain ⟨rfl, rfl, rfl⟩ := h
    obtain ⟨init, hi⟩ := hasSuffix_iff.mp hs.1
    subst hi
    have hn : byte '?' ∉ init := by
      have hc : (init ++ [byte '?']).count (byte '?') = 1 := hs.2
      rw [List.count_append, List.count_singleton_self] at hc
      exact List.count_eq_zero.mp (by omega)
    exact ⟨by simp [str, queryText], by simpa [str] using hn, fun _ => rfl⟩
  · split at h
    · next before q hc =>
      simp only [Prod.mk.injEq] at h
      obtain ⟨rfl, rfl, rfl⟩ := h
      obtain ⟨rfl, hb⟩ := cut_eq_some.mp hc
      refine ⟨?_, hb, by simp⟩
      by_cases hq : q = []
      · subst hq
        exfalso
        refine hs ⟨hasSuffix_iff.mpr (List.suffix_append _ _), ?_⟩
        simp [List.count_eq_zero_of_not_mem hb]
      · simp [queryText, hq]
    · next hc =>
      simp only [Prod.mk.injEq] at h
      obtain ⟨rfl, rfl, rfl⟩ := h
      exact ⟨by simp [queryText], cut_eq_none.mp hc, by simp⟩

theorem splitAuthority_append {host path : GoString} (hh : byte '/' ∉ host)
    (hp : isPathText path) :
    splitAuthority (byte '/' :: byte '/' :: host ++ path) = (host, path) := by
  obtain rfl | hp := hp
  · simp [splitAuthority, cut_eq_none.mpr hh]
  · cases path with
    | nil => simp at hp
    | cons c path =>
      obtain rfl : c = byte '/' := by simpa using hp
      simp [splitAuthority, cut_append hh]

theorem splitAuthority_spec (rest : GoString) :
    rest.drop 2 = (splitAuthority rest).1 ++ (splitAuthority rest).2 ∧
      byte '/' ∉ (splitAuthority rest).1 ∧ isPathText (splitAuthority rest).2 := by
  simp only [splitAuthority]
  split
  · next a p hc =>
    obtain ⟨hr, ha⟩ := cut_eq_some.mp hc
    exact ⟨hr, ha, Or.inr rfl⟩
  · next hc => exact ⟨by simp, cut_eq_none.mp hc, Or.inl rfl⟩

theorem body_of_authority {b : UInt8} (h : isAuthorityByte b = true) :
    isBodyByte b = true ∧ b ≠ byte '/' ∧ b ≠ byte '@' := by
  simpa [isAuthorityByte, and_assoc] using h

theorem query_of_body {b : UInt8} (h : isBodyByte b = true) :
    isQueryByte b = true ∧ b ≠ byte '?' := by
  simpa [isBodyByte] using h

theorem query_of_scheme {b : UInt8} (h : isSchemeByte b = true) :
    isBodyByte b = true ∧ b ≠ byte '/' := by
  revert h b
  apply forall_byte
  decide +kernel

theorem graph_facts {b : UInt8} (h : isGraph b = true) :
    isControl b = false ∧ isAscii b = true := by
  simp only [isGraph, Bool.and_eq_true, decide_eq_true_eq] at h
  obtain ⟨hl, hu⟩ := h
  have hne : b ≠ 0x7F := by
    rintro rfl
    exact absurd hu (by decide)
  rw [UInt8.le_iff_toNat_le] at hl hu
  have hcontrol : ¬ b < 0x20 := by
    rw [UInt8.lt_iff_toNat_lt]
    exact fun hlt => absurd (hlt.trans_le' hl) (by decide)
  have hascii : b < 0x80 := by
    rw [UInt8.lt_iff_toNat_lt]
    exact hu.trans_lt (by decide)
  exact ⟨by simp [isControl, hcontrol, hne], by simpa [isAscii] using hascii⟩

theorem body_of_path {b : UInt8} (h : isPathByte b = true) : isBodyByte b = true := by
  simp only [isPathByte, Bool.and_eq_true, decide_eq_true_eq] at h
  simp [isBodyByte, isQueryByte, h, (graph_facts h.1.1).1]

section Render

variable {scheme host path query : GoString} {force : Bool}

theorem IsRendered.bytes (h : IsRendered scheme host path force query) :
    ∀ b ∈ render scheme host path force query, isQueryByte b = true := by
  intro b hb
  simp only [render, List.append_assoc, List.mem_append, List.mem_cons, queryText] at hb
  obtain hb | (rfl | rfl | rfl | hb) | hb | hb := hb
  · exact (query_of_body (query_of_scheme (h.isScheme.2 b hb)).1).1
  · decide
  · decide
  · decide
  · exact (query_of_body (body_of_authority (h.hostBytes b hb)).1).1
  · exact (query_of_body (h.pathBytes b hb)).1
  · split_ifs at hb
    · obtain rfl | hb := List.mem_cons.mp hb
      · decide
      · exact h.queryBytes b hb
    · simp at hb

theorem IsRendered.no_question (h : IsRendered scheme host path force query) :
    byte '?' ∉ byte '/' :: byte '/' :: host ++ path := by
  intro hb
  simp only [List.cons_append, List.mem_cons, List.mem_append] at hb
  obtain hb | hb | hb | hb := hb
  · revert hb
    decide
  · revert hb
    decide
  · exact (query_of_body (body_of_authority (h.hostBytes _ hb)).1).2 rfl
  · exact (query_of_body (h.pathBytes _ hb)).2 rfl

/-- Reading a rendered text gives its parts back. -/
theorem parse_render (h : IsRendered scheme host path force query) :
    parse (render scheme host path force query) = (parseHost host).bind fun host' =>
      setPath (hostURL (scheme.map lowerByte) host' force query) path := by
  have hbytes := h.bytes
  have hcut : cut (byte '#') (render scheme host path force query) = none := by
    refine cut_eq_none.mpr fun hm => ?_
    have := hbytes _ hm
    revert this
    decide
  have hctl : (render scheme host path force query).any isControl = false := by
    refine List.any_eq_false.mpr fun b hb => ?_
    have := hbytes b hb
    simp only [isQueryByte, Bool.and_eq_true, Bool.not_eq_true'] at this
    simp [this.1]
  have hstar : render scheme host path force query ≠ str "*" := by
    intro hs
    have hm : byte ':' ∈ render scheme host path force query := by simp [render]
    rw [hs] at hm
    revert hm
    decide
  have hscheme : getScheme (render scheme host path force query) =
      .ok (scheme, byte '/' :: byte '/' :: host ++ path ++ queryText force query) := by
    rw [← getScheme_append h.isScheme]
    simp [render]
  have hne : scheme.map lowerByte ≠ [] := by
    obtain ⟨⟨b, hb, -⟩, -⟩ := h.isScheme
    rintro hs
    simp [List.map_eq_nil_iff.mp hs] at hb
  have hauth : byte '/' ∉ host := fun hm => (body_of_authority (h.hostBytes _ hm)).2.1 rfl
  have hat : cutLast (byte '@') host = none :=
    cutLast_eq_none.mpr fun hm => (body_of_authority (h.hostBytes _ hm)).2.2 rfl
  have hrest : parseHierarchy (hostURL (scheme.map lowerByte) [] force query)
      (byte '/' :: byte '/' :: host ++ path) = (parseHost host).bind fun host' =>
        setPath (hostURL (scheme.map lowerByte) host' force query) path := by
    have hp1 : hasPrefix (byte '/' :: byte '/' :: host ++ path) (str "/") = true := rfl
    have hp2 : hasPrefix (byte '/' :: byte '/' :: host ++ path) (str "//") = true := rfl
    rw [parseHierarchy, hp1, hp2, if_neg (by simp), if_neg (by simp),
      if_pos ⟨Or.inl hne, rfl⟩, splitAuthority_append hauth h.isPathText, parseAuthority, hat]
    cases parseHost host <;> rfl
  simp only [parse, hcut, parseMain, hctl, Bool.false_eq_true, if_false, hstar, hscheme, bind,
    Except.bind, splitQuery_append h.no_question h.force]
  exact hrest

end Render

theorem setPath_eq_ok {u v : URL} {p : GoString} (h : setPath u p = .ok v) :
    unescape .path p = .ok v.path ∧
      v = { u with path := v.path, rawPath := if p = escape .path v.path then [] else p } := by
  simp only [setPath] at h
  cases hx : unescape .path p with
  | error e => simp [hx, Except.map] at h
  | ok x =>
    simp only [hx, Except.map, Except.ok.injEq] at h
    subst h
    exact ⟨rfl, rfl⟩

structure IsParsed (u : URL) (scheme host path : GoString) (forceQuery : Bool)
    (rawQuery : GoString) : Prop where
  scheme : u.scheme = scheme
  host : u.host = host
  user : u.user = none
  fragment : u.fragment = []
  opaquePart : u.opaquePart = []
  forceQuery : u.forceQuery = forceQuery
  rawQuery : u.rawQuery = rawQuery
  escapedPath : u.escapedPath = printedPath path
  path_eq_nil : u.path = [] ↔ path = []
  rawPath : path = [] → u.rawPath = []

theorem isParsed_setPath {scheme host path rawQuery : GoString} {forceQuery : Bool} {u : URL}
    (hp : isPathText path) (h : setPath (hostURL scheme host forceQuery rawQuery) path = .ok u) :
    IsParsed u scheme host path forceQuery rawQuery := by
  have hesc := escapedPath_setPath hp h
  obtain ⟨hx, hu⟩ := setPath_eq_ok h
  have hnil : u.path = [] ↔ path = [] := by
    constructor
    · intro hpath
      cases path with
      | nil => rfl
      | cons c path => exact absurd hpath (unescape_ne_nil hx)
    · rintro rfl
      exact (Except.ok.inj hx).symm
  refine ⟨by rw [hu]; rfl, by rw [hu]; rfl, by rw [hu]; rfl, by rw [hu]; rfl, by rw [hu]; rfl,
    by rw [hu]; rfl, by rw [hu]; rfl, hesc, hnil, ?_⟩
  rintro rfl
  rw [hu, hnil.mpr rfl]
  rfl

theorem parse_render_ok {scheme host host' path rawQuery : GoString} {forceQuery : Bool}
    (h : IsRendered scheme host path forceQuery rawQuery) (hh : parseHost host = .ok host')
    (hx : ∃ x, unescape .path path = .ok x) :
    ∃ u, parse (render scheme host path forceQuery rawQuery) = .ok u ∧
      IsParsed u (scheme.map lowerByte) host' path forceQuery rawQuery := by
  obtain ⟨x, hx⟩ := hx
  obtain ⟨u, hu⟩ : ∃ u, setPath (hostURL (scheme.map lowerByte) host' forceQuery rawQuery) path =
      .ok u := by simp [setPath, hx, Except.map]
  refine ⟨u, ?_, isParsed_setPath h.isPathText hu⟩
  rw [parse_render h, hh]
  exact hu

theorem parseAuthority_eq_ok {a host : GoString} {user : Option GoString}
    (h : parseAuthority a = .ok (user, host)) (hu : user = none) :
    byte '@' ∉ a ∧ parseHost a = .ok host := by
  subst hu
  simp only [parseAuthority] at h
  split at h
  · next hc =>
    refine ⟨cutLast_eq_none.mp hc, ?_⟩
    cases hp : parseHost a with
    | error e => simp [hp, Except.map] at h
    | ok x => simpa [hp, Except.map] using h
  · next userinfo rest hc =>
    cases hp : parseHost rest <;> simp [hp, Except.map] at h

theorem parseHierarchy_eq_ok {u v : URL} {rest : GoString} (h : parseHierarchy u rest = .ok v)
    (hu : u.host = []) (hv : v.host ≠ []) (huser : v.user = none) :
    ∃ host path, rest = byte '/' :: byte '/' :: host ++ path ∧ byte '/' ∉ host ∧
      byte '@' ∉ host ∧ isPathText path ∧ parseHost host = .ok v.host ∧
      setPath { u with user := none, host := v.host } path = .ok v := by
  simp only [parseHierarchy] at h
  split_ifs at h with h1 h2 h3
  · simp only [Except.ok.injEq] at h
    subst h
    exact absurd hu hv
  · obtain ⟨⟨user, host⟩, ha, hp⟩ := bind_eq_ok.mp h
    obtain ⟨-, hv'⟩ := setPath_eq_ok hp
    have hhost : v.host = host := by rw [hv']
    have huser' : v.user = user := by rw [hv']
    obtain ⟨hat, hph⟩ := parseAuthority_eq_ok ha (huser'.symm.trans huser)
    obtain ⟨hdrop, hslash, hpath⟩ := splitAuthority_spec rest
    refine ⟨_, _, ?_, hslash, hat, hpath, by rw [hph, hhost], ?_⟩
    · obtain ⟨t, rfl⟩ := hasPrefix_iff.mp h3.2
      exact congrArg (fun s => byte '/' :: byte '/' :: s) hdrop
    · rw [← huser', huser] at hp
      rw [hhost]
      exact hp
  · obtain ⟨-, hv'⟩ := setPath_eq_ok h
    exact absurd (by rw [hv', hu]) hv

theorem parseMain_eq_ok {s : GoString} {u : URL} (h : parseMain s = .ok u)
    (hhash : byte '#' ∉ s) (hs : u.scheme ≠ []) (hu : u.user = none) (hh : u.host ≠ []) :
    ∃ scheme host path, IsRendered scheme host path u.forceQuery u.rawQuery ∧
      s = render scheme host path u.forceQuery u.rawQuery ∧
      u.scheme = scheme.map lowerByte ∧ parseHost host = .ok u.host ∧
      setPath (hostURL u.scheme u.host u.forceQuery u.rawQuery) path = .ok u := by
  simp only [parseMain] at h
  split_ifs at h with hctl hstar
  · simp only [Except.ok.injEq] at h
    subst h
    exact absurd rfl hs
  · obtain ⟨⟨name, rest⟩, hg, hr⟩ := bind_eq_ok.mp h
    generalize hq : splitQuery rest = q at hr
    obtain ⟨body, force, query⟩ := q
    obtain ⟨hrest, hbody, hforce⟩ := splitQuery_eq hq
    obtain ⟨host, path, hb, hslash, hat, hpath, hph, hset⟩ :=
      parseHierarchy_eq_ok hr rfl hh hu
    dsimp only at hb hset
    obtain ⟨-, hu'⟩ := setPath_eq_ok hset
    have hf1 : u.forceQuery = force := by rw [hu']
    have hf2 : u.rawQuery = query := by rw [hu']
    have hf3 : u.scheme = name.map lowerByte := by rw [hu']
    have hne : name ≠ [] := by
      rintro rfl
      exact hs hf3
    obtain ⟨hsch, hsrest⟩ := getScheme_eq_ok hg hne
    have htext : s = render name host path force query := by
      rw [hsrest, hrest, hb]
      simp [render]
    have hbytes : ∀ b ∈ render name host path force query, isQueryByte b = true := by
      intro b hm
      rw [← htext] at hm
      have hc := List.any_eq_false.mp (Bool.eq_false_iff.mpr hctl) b hm
      have hne' : b ≠ byte '#' := fun he => hhash (he ▸ hm)
      simp [isQueryByte, hc, hne']
    have hbody' : ∀ b ∈ byte '/' :: byte '/' :: host ++ path, isBodyByte b = true := by
      intro b hm
      have hm' : b ∈ render name host path force query := by
        simp only [render, List.mem_append, List.mem_cons] at hm ⊢
        tauto
      have hne' : b ≠ byte '?' := fun he => hbody (hb ▸ he ▸ hm)
      simp [isBodyByte, hbytes b hm', hne']
    refine ⟨name, host, path, ⟨hsch, ?_, hpath, ?_, ?_, ?_⟩, ?_, hf3, hph, ?_⟩
    · intro b hm
      have hne1 : b ≠ byte '/' := fun he => hslash (he ▸ hm)
      have hne2 : b ≠ byte '@' := fun he => hat (he ▸ hm)
      simp [isAuthorityByte, hbody' b (by simp [hm]), hne1, hne2]
    · intro b hm
      exact hbody' b (by simp [hm])
    · intro b hm
      rw [hf2] at hm
      refine hbytes b ?_
      have hq' : query ≠ [] := List.ne_nil_of_mem hm
      simp [render, queryText, hq', hm]
    · rw [hf1, hf2]
      exact hforce
    · rw [hf1, hf2]
      exact htext
    · rw [hf1, hf2, hf3]
      exact hset

/-- The text of an accepted URL splits into the parts that `parse` reports. -/
theorem parse_eq_ok {a : GoString} {u : URL} (h : parse a = .ok u) (hs : u.scheme ≠ [])
    (hu : u.user = none) (hf : u.fragment = []) (hh : u.host ≠ []) :
    ∃ scheme host path, IsRendered scheme host path u.forceQuery u.rawQuery ∧
      (a = render scheme host path u.forceQuery u.rawQuery ∨
        a = render scheme host path u.forceQuery u.rawQuery ++ [byte '#']) ∧
      u.scheme = scheme.map lowerByte ∧ parseHost host = .ok u.host ∧
      setPath (hostURL u.scheme u.host u.forceQuery u.rawQuery) path = .ok u := by
  simp only [parse] at h
  split at h
  · next hc =>
    obtain ⟨scheme, host, path, hr, ha, hrest⟩ :=
      parseMain_eq_ok h (cut_eq_none.mp hc) hs hu hh
    exact ⟨scheme, host, path, hr, Or.inl ha, hrest⟩
  · next before frag hc =>
    obtain ⟨ha, hhash⟩ := cut_eq_some.mp hc
    obtain ⟨url, hm, hfrag⟩ := bind_eq_ok.mp h
    split_ifs at hfrag with hnil
    · rw [pure_eq_ok] at hfrag
      subst hfrag
      obtain ⟨scheme, host, path, hr, hb, hrest⟩ := parseMain_eq_ok hm hhash hs hu hh
      refine ⟨scheme, host, path, hr, Or.inr ?_, hrest⟩
      rw [ha, hnil, hb]
    · obtain ⟨fragment, hx, hp⟩ := bind_eq_ok.mp hfrag
      rw [pure_eq_ok] at hp
      subst hp
      obtain ⟨c, frag', rfl⟩ := List.exists_cons_of_ne_nil hnil
      exact absurd hf (unescape_ne_nil hx)

theorem string_eq_render {u : URL} (hs : u.scheme ≠ []) (ho : u.opaquePart = [])
    (hh : u.host ≠ []) (hesc : ∀ b ∈ u.host, shouldEscape .host b = false) (hf : u.fragment = [])
    (hp : isPathText u.escapedPath) :
    u.string = render u.scheme u.host u.escapedPath u.forceQuery u.rawQuery := by
  have hslash : ¬ u.escapedPath = [] → u.escapedPath.head? = some (byte '/') := hp.resolve_left
  simpa [URL.string, render, hs, ho, hh, hf, escape_host_eq hesc, str] using hslash

theorem render_injective {s h p q s' h' p' q' : GoString} {f f' : Bool}
    (hs : byte ':' ∉ s) (hs' : byte ':' ∉ s') (hh : byte '/' ∉ h ∧ byte '?' ∉ h)
    (hh' : byte '/' ∉ h' ∧ byte '?' ∉ h') (hp : isPathText p ∧ byte '?' ∉ p)
    (hp' : isPathText p' ∧ byte '?' ∉ p') (hf : f = true → q = []) (hf' : f' = true → q' = [])
    (he : render s h p f q = render s' h' p' f' q') :
    s = s' ∧ h = h' ∧ p = p' ∧ f = f' ∧ q = q' := by
  have hcut := congrArg (cut (byte ':')) he
  simp only [render, List.append_assoc, List.cons_append] at hcut
  rw [cut_append hs, cut_append hs', Option.some.injEq, Prod.mk.injEq] at hcut
  obtain ⟨rfl, hrest⟩ := hcut
  obtain ⟨-, hrest⟩ := List.cons.inj hrest
  obtain ⟨-, hrest⟩ := List.cons.inj hrest
  rw [← List.append_assoc, ← List.append_assoc] at hrest
  have hno : byte '?' ∉ h ++ p := by simp [hh.2, hp.2]
  have hno' : byte '?' ∉ h' ++ p' := by simp [hh'.2, hp'.2]
  have hsplit := congrArg splitQuery hrest
  rw [splitQuery_append hno hf, splitQuery_append hno' hf', Prod.mk.injEq, Prod.mk.injEq] at hsplit
  obtain ⟨hbody, rfl, rfl⟩ := hsplit
  have hauth := splitAuthority_append hh.1 hp.1
  have hauth' := splitAuthority_append hh'.1 hp'.1
  simp only [List.cons_append] at hauth hauth'
  rw [hbody, hauth', Prod.mk.injEq] at hauth
  exact ⟨rfl, hauth.1.symm, hauth.2.symm, rfl, rfl⟩

def isNameByte (b : UInt8) : Bool :=
  isLetter b || isDigit b || b = byte '-' || b = byte '_' || b = byte '.'

theorem name_facts {b : UInt8} (h : isNameByte b = true) :
    shouldEscape .host b = false ∧ isAuthorityByte b = true ∧ isGraph b = true ∧
      b ≠ byte ':' ∧ b ≠ byte '%' ∧ b ≠ byte '[' ∧ b ≠ byte ']' := by
  revert h b
  apply forall_byte
  decide +kernel

theorem name_of_digit {b : UInt8} (h : isDigit b = true) : isNameByte b = true := by
  simp [isNameByte, h]

def isHostByte (b : UInt8) : Bool := isNameByte b || b = byte ':' || b = byte '[' || b = byte ']'

theorem host_facts {b : UInt8} (h : isHostByte b = true) :
    shouldEscape .host b = false ∧ isAuthorityByte b = true ∧ isGraph b = true ∧
      b ≠ byte '%' ∧ isAscii b = true := by
  simp only [isHostByte, Bool.or_eq_true, decide_eq_true_eq] at h
  obtain ((hn | rfl) | rfl) | rfl := h
  · obtain ⟨hesc, hauth, hgraph, -, hpercent, -⟩ := name_facts hn
    exact ⟨hesc, hauth, hgraph, hpercent, (graph_facts hgraph).2⟩
  all_goals decide

theorem unescape_host_eq {s : GoString} (h : ∀ b ∈ s, isHostByte b = true) :
    unescape .host s = .ok s := by
  induction s with
  | nil => rfl
  | cons c s ih =>
    have hc := host_facts (h c (by simp))
    rw [unescape_cons hc.2.2.2.1 (by simp [hc.1]), ih (fun b hb => h b (by simp [hb]))]
    rfl

section Hosts

variable {name colonPort : GoString} (hn : ∀ b ∈ name, isNameByte b = true)
  (hp : validOptionalPort colonPort = true)

include hp

theorem colonPort_cases : colonPort = [] ∨
    ∃ port, colonPort = byte ':' :: port ∧ ∀ b ∈ port, isDigit b = true := by
  cases colonPort with
  | nil => exact Or.inl rfl
  | cons c port =>
    simp only [validOptionalPort, Bool.and_eq_true, decide_eq_true_eq, List.all_eq_true] at hp
    exact Or.inr ⟨port, by rw [hp.1], hp.2⟩

theorem mem_colonPort {b : UInt8} (hb : b ∈ colonPort) : b = byte ':' ∨ isDigit b = true := by
  obtain rfl | ⟨port, rfl, hd⟩ := colonPort_cases hp
  · simp at hb
  · exact (List.mem_cons.mp hb).imp_right (hd b)

theorem not_mem_colonPort {b : UInt8} (hb : isDigit b = false) (hc : b ≠ byte ':') :
    b ∉ colonPort := by
  intro hm
  cases mem_colonPort hp hm with
  | inl h => exact hc h
  | inr h => simp [h] at hb

include hn

theorem host_bytes : ∀ b ∈ name ++ colonPort, isHostByte b = true := by
  intro b hb
  cases List.mem_append.mp hb with
  | inl hb => simp [isHostByte, hn b hb]
  | inr hb =>
    obtain rfl | hb := mem_colonPort hp hb
    · decide
    · simp [isHostByte, name_of_digit hb]

theorem head_name_ne_bracket : (name ++ colonPort).head? ≠ some (byte '[') := by
  intro hm
  cases List.mem_append.mp (List.mem_of_mem_head? hm) with
  | inl h => exact (name_facts (hn _ h)).2.2.2.2.2.1 rfl
  | inr h => exact not_mem_colonPort hp (by decide) (by decide) h

theorem parseHost_name : parseHost (name ++ colonPort) = .ok (name ++ colonPort) := by
  have hun := unescape_host_eq (host_bytes hn hp)
  rw [parseHost, if_neg (head_name_ne_bracket hn hp)]
  obtain rfl | ⟨port, rfl, hd⟩ := colonPort_cases hp
  · have hcut : cutLast (byte ':') (name ++ []) = none := by
      rw [List.append_nil]
      exact cutLast_eq_none.mpr fun hm => (name_facts (hn _ hm)).2.2.2.1 rfl
    rw [hcut]
    exact hun
  · have hcut : cutLast (byte ':') (name ++ byte ':' :: port) = some (name, port) :=
      cutLast_append name fun hm => (name_facts (name_of_digit (hd _ hm))).2.2.2.1 rfl
    simp only [hcut, hp, not_true_eq_false, if_false]
    exact hun

theorem splitHost_name : splitHost (name ++ colonPort) = (name, colonPort.tail) := by
  have hhead : ∀ q, ¬ (name.head? = some (byte '[') ∧ q) := fun q h =>
    (name_facts (hn _ (List.mem_of_mem_head? h.1))).2.2.2.2.2.1 rfl
  obtain rfl | ⟨port, rfl, hd⟩ := colonPort_cases hp
  · have hcut : cutLast (byte ':') name = none :=
      cutLast_eq_none.mpr fun hm => (name_facts (hn _ hm)).2.2.2.1 rfl
    simp [splitHost, hcut, hhead]
  · have hcut : cutLast (byte ':') (name ++ byte ':' :: port) = some (name, port) :=
      cutLast_append name fun hm => (name_facts (name_of_digit (hd _ hm))).2.2.2.1 rfl
    simp [splitHost, hcut, hp, hhead]

omit hp in
theorem no_zone (i : Nat) : hasPrefix ((byte '[' :: name).drop i) (str "%25") = false := by
  refine Bool.eq_false_iff.mpr fun h => ?_
  obtain ⟨t, ht⟩ := hasPrefix_iff.mp h
  have hm : byte '%' ∈ (byte '[' :: name).drop i := ht ▸ List.mem_append_left t (by decide)
  cases List.mem_cons.mp (List.mem_of_mem_drop hm) with
  | inl h => exact absurd h (by decide)
  | inr h => exact (name_facts (hn _ h)).2.2.2.2.1 rfl

theorem bracketed_bytes :
    ∀ b ∈ byte '[' :: name ++ byte ']' :: colonPort, isHostByte b = true := by
  intro b hb
  cases List.mem_append.mp hb with
  | inl hb =>
    obtain rfl | hb := List.mem_cons.mp hb
    · decide
    · simp [isHostByte, hn b hb]
  | inr hb =>
    obtain rfl | hb := List.mem_cons.mp hb
    · decide
    · exact host_bytes hn hp b (List.mem_append_right _ hb)

/-- A name in brackets is also read as it stands, although only an IPv6 address may be
written so. -/
theorem parseHost_bracketed : parseHost (byte '[' :: name ++ byte ']' :: colonPort) =
    .ok (byte '[' :: name ++ byte ']' :: colonPort) := by
  have hcut : cutLast (byte ']') (byte '[' :: name ++ byte ']' :: colonPort) =
      some (byte '[' :: name, colonPort) :=
    cutLast_append _ (not_mem_colonPort hp (by decide) (by decide))
  have hzone : (List.range (byte '[' :: name).length).find?
      (fun i => hasPrefix ((byte '[' :: name).drop i) (str "%25")) = none := by
    simp [List.find?_eq_none, no_zone hn]
  have hhead : (byte '[' :: name ++ byte ']' :: colonPort).head? = some (byte '[') := rfl
  rw [parseHost, if_pos hhead, hcut]
  simp only [hp, not_true_eq_false, if_false, hzone]
  exact unescape_host_eq (bracketed_bytes hn hp)

theorem splitHost_bracketed :
    splitHost (byte '[' :: name ++ byte ']' :: colonPort) = (name, colonPort.tail) := by
  have hname : byte ':' ∉ byte '[' :: name ++ [byte ']'] := by
    intro hm
    simp only [List.cons_append, List.mem_cons, List.mem_append, List.not_mem_nil, or_false] at hm
    obtain h | h | h := hm
    · exact absurd h (by decide)
    · exact (name_facts (hn _ h)).2.2.2.1 rfl
    · exact absurd h (by decide)
  have hsuf : hasSuffix (byte '[' :: name ++ [byte ']']) (str "]") = true :=
    hasSuffix_iff.mpr (List.suffix_append _ _)
  have hinner : (name ++ [byte ']']).take ((byte '[' :: name ++ [byte ']']).length - 2) = name := by
    simp
  obtain rfl | ⟨port, rfl, hd⟩ := colonPort_cases hp
  · rw [splitHost, cutLast_eq_none.mpr hname]
    dsimp only
    rw [if_pos ⟨rfl, hsuf⟩]
    exact congrArg (·, []) hinner
  · have hcut : cutLast (byte ':') (byte '[' :: name ++ byte ']' :: byte ':' :: port) =
        some (byte '[' :: name ++ [byte ']'], port) := by
      have hdigits : byte ':' ∉ port := fun hm => absurd (hd _ hm) (by decide)
      simpa using cutLast_append (byte '[' :: name ++ [byte ']']) hdigits
    rw [splitHost, hcut]
    simp only [hp, if_true]
    rw [if_pos ⟨rfl, hsuf⟩]
    exact congrArg (·, port) hinner

end Hosts

theorem hexValue_lt {b : UInt8} {x : Nat} (h : hexValue b = some x) : x < 16 := by
  have hall : ∀ b, (hexValue b).all (· < 16) = true := by
    apply forall_byte
    decide +kernel
  simpa [h] using hall b

theorem not_isHostByte_escaped {h l : UInt8} {x y : Nat} (hx : hexValue h = some x)
    (hy : hexValue l = some y) (hok : ¬ (x < 8 ∧ ¬ [h, l] = str "25")) :
    isHostByte (UInt8.ofNat (16 * x + y)) = false := by
  refine Bool.eq_false_iff.mpr fun hb => ?_
  have hlx := hexValue_lt hx
  have hly := hexValue_lt hy
  by_cases hp : [h, l] = str "25"
  · obtain ⟨rfl, rfl⟩ : h = byte '2' ∧ l = byte '5' := by simpa [str] using hp
    obtain rfl : 2 = x := Option.some.inj hx
    obtain rfl : 5 = y := Option.some.inj hy
    exact absurd hb (by decide)
  · have ha := (host_facts hb).2.2.2.2
    have hn : (UInt8.ofNat (16 * x + y)).toNat < 0x80 := by
      simpa [isAscii, UInt8.lt_iff_toNat_lt] using ha
    rw [UInt8.toNat_ofNat'] at hn
    have h8 : ¬ x < 8 := fun h => hok ⟨h, hp⟩
    omega

theorem unescape_host_inv {t : GoString} (ht : ∀ b ∈ t, isHostByte b = true) {s : GoString}
    (h : unescape .host s = .ok t) : s = t := by
  fun_induction unescape .host s generalizing t with
  | case1 => simpa using h
  | case4 d l rest x y hy hx v percent hok =>
    obtain ⟨r, -, rfl⟩ := map_cons_eq_ok.mp h
    have hv := ht v (by simp)
    rw [not_isHostByte_escaped hx hy (by simpa using hok)] at hv
    contradiction
  | case8 c s _ _ ih =>
    obtain ⟨r, hr, rfl⟩ := map_cons_eq_ok.mp h
    rw [ih (fun b hb => ht b (by simp [hb])) hr]
  | case2 => simp at h
  | case3 => simp at h
  | case5 => simp at h
  | case6 => simp at h
  | case7 => simp at h

theorem bracket_mem_unescape {s t : GoString} (h : unescape .host (byte '[' :: s) = .ok t) :
    byte '[' ∈ t := by
  rw [unescape_cons (by decide) (by decide)] at h
  obtain ⟨r, -, rfl⟩ := map_cons_eq_ok.mp h
  simp

theorem parseHost_inv {s t : GoString} (h : parseHost s = .ok t)
    (ht : ∀ b ∈ t, isHostByte b = true) (hb : byte '[' ∉ t) : s = t := by
  simp only [parseHost] at h
  split_ifs at h with hhead
  · obtain ⟨r, rfl⟩ : ∃ r, s = byte '[' :: r := by
      cases s with
      | nil => simp at hhead
      | cons c r => exact ⟨r, by simpa using hhead⟩
    split at h
    · simp at h
    · next inner colonPort hcut =>
      obtain ⟨hs, -⟩ := cutLast_eq_some.mp hcut
      obtain ⟨i, rfl⟩ : ∃ i, inner = byte '[' :: i := by
        cases inner with
        | nil => exact absurd (List.cons.inj hs).1 (by decide)
        | cons c i => exact ⟨i, by rw [(List.cons.inj hs).1]⟩
      split_ifs at h
      split at h
      · next zone hz =>
        obtain ⟨t1, h1, h⟩ := bind_eq_ok.mp h
        obtain ⟨t2, -, h⟩ := bind_eq_ok.mp h
        obtain ⟨t3, -, h⟩ := bind_eq_ok.mp h
        obtain rfl := pure_eq_ok.mp h
        cases zone with
        | zero =>
          have hp := List.find?_some hz
          obtain ⟨u, hu⟩ := hasPrefix_iff.mp hp
          have hc : byte '%' = byte '[' := congrArg (·.headD 0) hu
          exact absurd hc (by decide)
        | succ k =>
          rw [List.take_succ_cons] at h1
          exact absurd (bracket_mem_unescape h1) (by simp_all)
      · exact absurd (bracket_mem_unescape h) hb
  · split at h
    · split_ifs at h
      exact unescape_host_inv ht h
    · exact unescape_host_inv ht h

end DnsMonitor.Go.UrlText
