import DnsMonitor.Store.References

namespace DnsMonitor.Store.Cited

open DnsMonitor.Model DnsMonitor.Lib.Tables DnsMonitor.Store.Schema DnsMonitor.Store.References
open DnsMonitor.Go.Strings DnsMonitor.Go.Unicode DnsMonitor.Go.Float

def recordOf (o : ObservationRow) : AnswerRecord where
  value := o.value
  ttlSeconds := o.ttlSeconds
  observedAt := o.observedAt
  expiresAt := o.expiresAt

def citationOf (o : ObservationRow) : Int × AnswerRecord := (o.serverID, recordOf o)

def cited (refs : List Reference) : List (Int × AnswerRecord) :=
  refs.flatMap fun ref => ref.records.map fun record => (ref.serverID, record)

def isPositive (ref : Reference) : Bool := ref.success && ref.rcode = str "NOERROR"

theorem cited_append (refs refs' : List Reference) :
    cited (refs ++ refs') = cited refs ++ cited refs' := List.flatMap_append

theorem cited_addObservation (refs : List Reference) (o : ObservationRow) :
    cited (addObservation refs o) = cited refs ++ [citationOf o] := by
  induction refs using List.reverseRecOn with
  | nil => rfl
  | append_singleton refs last =>
    unfold addObservation
    simp only [List.getLast?_append, List.getLast?_singleton, Option.some_or]
    split_ifs with hid
    · rw [List.dropLast_concat, cited_append, cited_append, List.append_assoc]
      simp [cited, extendReference, citationOf, recordOf, hid]
    · rw [cited_append]
      rfl

theorem cited_foldl (rows : List ObservationRow) (refs : List Reference) :
    cited (rows.foldl addObservation refs) = cited refs ++ rows.map citationOf := by
  induction rows generalizing refs with
  | nil => simp
  | cons o rows ih => rw [List.foldl_cons, ih, cited_addObservation, List.append_assoc]; rfl

theorem positive_addObservation {refs : List Reference} (h : refs.all isPositive = true)
    (o : ObservationRow) : (addObservation refs o).all isPositive = true := by
  induction refs using List.reverseRecOn with
  | nil => rfl
  | append_singleton refs last =>
    rw [List.all_append, Bool.and_eq_true] at h
    unfold addObservation
    simp only [List.getLast?_append, List.getLast?_singleton, Option.some_or]
    split_ifs
    · rw [List.dropLast_concat, List.all_append, h.1]
      simpa [isPositive, extendReference] using h.2
    · simp only [List.all_append, h.1, h.2]
      rfl

theorem positive_foldl {refs : List Reference} (h : refs.all isPositive = true)
    (rows : List ObservationRow) : (rows.foldl addObservation refs).all isPositive = true := by
  induction rows generalizing refs with
  | nil => exact h
  | cons o rows ih => exact ih (positive_addObservation h o)

section

variable {F : Type} [GoFloat F]

def inWindow (now : Int) (historyHours : F) (o : ObservationRow) : Bool :=
  now - retention ≤ o.observedAt && (now < o.expiresAt ||
    ofInt 0 < historyHours && referenceCutoff now historyHours < o.observedAt)

variable [CaseTables]

omit [GoFloat F] in
/-- The row is for the domain, and its source is still trusted, enabled and at the address. -/
def belongs (db : DB F) (domain : Domain) (o : ObservationRow) : Bool :=
  o.domain = (normalizeSubject domain.name domain.type).1 &&
    o.type = (normalizeSubject domain.name domain.type).2 &&
    db.servers.any fun s => s.id = o.serverID && s.trusted && s.enabled && o.address = s.address

theorem trustedReferences_eq (db : DB F) (domain : Domain) (now : Int) (historyHours : F) :
    trustedReferences db domain now historyHours =
      ((db.trustedObservations.filter fun o =>
        belongs db domain o && inWindow now historyHours o).insertionSort fun q r =>
          q.serverID < r.serverID ∨ q.serverID = r.serverID ∧ ¬ r.value < q.value).foldl
        addObservation [] := by
  unfold trustedReferences belongs inWindow
  simp only [Bool.and_assoc]

/-- Every row that belongs to the domain and is in the window is cited once. -/
theorem cited_trustedReferences (db : DB F) (domain : Domain) (now : Int) (historyHours : F) :
    (cited (trustedReferences db domain now historyHours)).Perm
      ((db.trustedObservations.filter fun o =>
        belongs db domain o && inWindow now historyHours o).map citationOf) := by
  rw [trustedReferences_eq, cited_foldl]
  exact (List.perm_insertionSort _ _).map _

theorem positive_trustedReferences (db : DB F) (domain : Domain) (now : Int) (historyHours : F) :
    (trustedReferences db domain now historyHours).all isPositive = true := by
  rw [trustedReferences_eq]
  exact positive_foldl rfl _

end

end DnsMonitor.Store.Cited
