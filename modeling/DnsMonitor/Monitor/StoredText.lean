import DnsMonitor.Go.Chars
import DnsMonitor.Monitor.Identity

namespace DnsMonitor.Monitor.StoredText

open DnsMonitor.Model DnsMonitor.Monitor.Address DnsMonitor.Monitor.Canonical
open DnsMonitor.Monitor.Endpoint DnsMonitor.Monitor.Identity
open DnsMonitor.Go.Strings DnsMonitor.Go.Unicode DnsMonitor.Go.Errors DnsMonitor.Go.Url
open DnsMonitor.Go.UrlText DnsMonitor.Go.Utf8 DnsMonitor.Go.Chars

theorem isText_trimRight {b : UInt8} (hb : isAscii b = true) {s : GoString} (h : IsText s) :
    IsText (trimRight b s) := by
  have hsplit : trimRight b s ++ s.rtakeWhile (· == b) = s := List.rdropWhile_append_rtakeWhile
  rw [← hsplit] at h
  apply IsText.of_append_right (isText_ascii _) h
  intro c hc
  have hcb := List.mem_rtakeWhile_imp (p := fun x => x == b) hc
  rw [eq_of_beq hcb]
  exact hb

theorem isText_withScheme {s : GoString} (h : IsText s) : IsText (withScheme s) := by
  unfold withScheme
  split_ifs
  · exact h
  · exact (isText_ascii (List.all_eq_true.mp (by decide))).append h

theorem isText_rawQuery {up : Upstream} (h : IsText up.text) : IsText up.rawQuery := by
  by_cases hq : up.rawQuery = []
  · rw [hq]
    exact .nil
  · have htext : up.text = up.scheme ++ byte ':' :: byte '/' :: byte '/' ::
        (up.name ++ portText up.port) ++ up.path ++ byte '?' :: up.rawQuery := by
      simp [Upstream.text, render, queryText, hq]
    rw [htext] at h
    exact (isText_split (by decide) h).2

theorem isText_canonical {up : Upstream} (h : IsText up.text) : IsText up.canonical.text := by
  obtain ⟨pre, htext, hpre⟩ := canonical_graph up
  rw [htext]
  apply IsText.append (isText_ascii fun b hb => (graph_facts (hpre b hb)).2)
  unfold queryText
  split_ifs
  · exact .ascii (by decide) (isText_rawQuery h)
  · exact .nil

theorem canonical_head (up : Upstream) : ∃ b t, up.canonical.text = b :: t ∧ isLetter b = true := by
  obtain ⟨b, hb, hletter⟩ := up.canonical.isRendered.isScheme.1
  obtain ⟨t, ht⟩ := List.head?_eq_some_iff.mp hb
  exact ⟨b, _, by rw [Upstream.text, render, ht]; rfl, hletter⟩

section

variable [CaseTables] {a c : GoString} {p : Protocol}

theorem stored_text (h : validateAddress a = .ok (c, p)) (ha : IsText a) :
    IsText c ∧ containsSpace c = false ∧ ∃ b t, c = b :: t ∧ isLetter b = true := by
  have htrim : IsText (trimSpace a) := isText_trimSpace ha
  by_cases hs : isStamp a
  · obtain ⟨e, he⟩ := isStamp_iff.mp hs
    obtain ⟨⟨⟨-, -, hspace⟩, -⟩, hcase⟩ := validateAddress_eq_ok.mp h
    obtain ⟨-, -, hc⟩ | ⟨hn, -⟩ := hcase
    · rw [he, trimPrefix_append] at hc
      have hpre : IsText (str "sdns://") := isText_ascii (List.all_eq_true.mp (by decide))
      have hrest : IsText e := IsText.of_append_left hpre (he ▸ htrim)
      obtain ⟨r, hr⟩ := trimRight_prefix (byte '=') e
      have hsplit : trimSpace a = c ++ r := by rw [he, hc, List.append_assoc, hr]
      refine ⟨hc ▸ hpre.append (isText_trimRight (by decide) hrest),
        containsSpace_prefix (hsplit ▸ hspace), byte 's', _, hc, by decide⟩
    · exact absurd hs hn
  · obtain ⟨up, ht, hq, rfl, rfl⟩ := upstream_of_validateAddress h hs
    have htext : IsText up.text := by
      have hscheme := isText_withScheme htrim
      cases ht with
      | inl ht => exact ht ▸ hscheme
      | inr ht =>
        rw [ht] at hscheme
        exact (isText_split (t := []) (by decide) hscheme).1
    exact ⟨isText_canonical htext, (containsSpace_render up).trans hq, canonical_head up⟩

theorem validateAddress_stored (h : validateAddress a = .ok (c, p)) {k : GoString}
    (hk : addressKey c = .ok k) : validateAddress c = .ok (c, p) := by
  obtain ⟨r, hr, _⟩ := bind_eq_ok.mp hk
  exact (validateAddress_again h).mpr (validateAddress_canonical_ok h hr)

end

end DnsMonitor.Monitor.StoredText
