import DnsMonitor.Store.Cited
import DnsMonitor.Store.Cleanup
import DnsMonitor.Store.Pool

namespace DnsMonitor.Store.Pruning

open DnsMonitor.Model DnsMonitor.Lib.Tables DnsMonitor.Store.Schema DnsMonitor.Store.References
open DnsMonitor.Store.Cited DnsMonitor.Store.Cleanup DnsMonitor.Store.Pool
open DnsMonitor.Go.Strings DnsMonitor.Go.Unicode DnsMonitor.Go.Float

section

variable {F : Type} [GoFloat F]

def history (historyHours : F) : Int := GoFloat.trunc (historyHours * ofInt 3600000)

variable [OrderedFloat F] {hours hours' : F}

theorem hours_product_le (h : hours ≤ ofInt 720) : hours * ofInt 3600000 ≤ ofInt 2592000000 := by
  have hmul := OrderedFloat.mul_le_mul hours (ofInt 720) 3600000 (by decide) (by decide) h
  rwa [mul_ofInt (by decide) (by decide) (by decide) (by decide)] at hmul

theorem hours_product_nonneg (h : ofInt 0 ≤ hours) : ofInt 0 ≤ hours * ofInt 3600000 := by
  have hmul := OrderedFloat.mul_le_mul (ofInt 0) hours 3600000 (by decide) (by decide) h
  rwa [mul_ofInt (by decide) (by decide) (by decide) (by decide)] at hmul

theorem history_mono (hpos : ofInt 0 ≤ hours') (h : hours' ≤ hours) (hmax : hours ≤ ofInt 720) :
    history hours' ≤ history hours :=
  OrderedFloat.trunc_le _ _ 2592000000 (by decide) (hours_product_nonneg hpos)
    (OrderedFloat.mul_le_mul _ _ _ (by decide) (by decide) h) (hours_product_le hmax)

theorem history_le (hpos : ofInt 0 ≤ hours) (hmax : hours ≤ ofInt 720) :
    history hours ≤ retention := by
  have hlast : GoFloat.trunc (ofInt 2592000000 : F) = 2592000000 :=
    OrderedFloat.trunc_ofInt _ (by decide)
  have hle : history hours ≤ GoFloat.trunc (ofInt 2592000000 : F) :=
    OrderedFloat.trunc_le _ _ 2592000000 (by decide) (hours_product_nonneg hpos)
      (hours_product_le hmax) (OrderedFloat.ofInt_le _ _ (by decide) le_rfl)
  exact hle.trans (hlast.trans (by decide)).le

theorem referenceCutoff_eq (hpos : ofInt 0 < hours) (hmax : hours ≤ ofInt 720) (now : Int) :
    referenceCutoff now hours = now - history hours := by
  have hnan : GoFloat.isNaN hours = false := OrderedFloat.isNaN_of_lt _ _ hpos
  have hle : ¬ hours ≤ ofInt 0 := OrderedFloat.not_le_of_lt _ _ hpos
  have hinf : GoFloat.isInf hours = false :=
    OrderedFloat.isInf_of_le _ 0 720 (by decide) (by decide)
      (OrderedFloat.le_of_lt _ _ hpos) hmax
  have hlt : ¬ ofInt 720 < hours := fun h => OrderedFloat.not_le_of_lt _ _ h hmax
  simp [referenceCutoff, hnan, hle, hinf, hlt, history]

theorem referenceCutoff_mono (hpos : ofInt 0 < hours') (h : hours' ≤ hours)
    (hmax : hours ≤ ofInt 720) {now later : Int} (ht : now ≤ later) :
    referenceCutoff now hours ≤ referenceCutoff later hours' := by
  have hpos' := OrderedFloat.lt_of_lt_of_le _ _ _ hpos h
  have hmax' := OrderedFloat.le_trans _ _ _ h hmax
  have hmono := history_mono (OrderedFloat.le_of_lt _ _ hpos) h hmax
  rw [referenceCutoff_eq hpos' hmax, referenceCutoff_eq hpos hmax']
  omega

theorem not_inWindow_of_pruned {o : ObservationRow} {now later : Int} (hmax : hours ≤ ofInt 720)
    (h : hours' ≤ hours) (ht : now ≤ later)
    (hdelete : (decide (o.observedAt < now - retention) || decide (o.expiresAt ≤ now) &&
      (decide (hours ≤ ofInt 0) || decide (o.observedAt ≤ referenceCutoff now hours))) = true) :
    inWindow later hours' o = false := by
  rw [← Bool.not_eq_true]
  intro hin
  simp only [inWindow, Bool.and_eq_true, Bool.or_eq_true, decide_eq_true_eq] at hin hdelete
  obtain ⟨hrecent, hwanted⟩ := hin
  cases hdelete with
  | inl hold => omega
  | inr hstale =>
    obtain ⟨hexpired, hhistory⟩ := hstale
    cases hwanted with
    | inl hfresh => omega
    | inr hhistoric =>
      obtain ⟨hpos, hcutoff⟩ := hhistoric
      have hmono := referenceCutoff_mono hpos h hmax ht
      have hnone := OrderedFloat.not_le_of_lt _ _ (OrderedFloat.lt_of_lt_of_le _ _ _ hpos h)
      have hbefore := hhistory.resolve_left hnone
      omega

end

section

variable {F : Type} [GoFloat F] [CaseTables]

theorem trustedReferences_delete {db : DB F} {now : Int} {historyHours : F}
    {p : ObservationRow → Bool} (h : ∀ o, p o = true → inWindow now historyHours o = false)
    (domain : Domain) :
    trustedReferences { db with trustedObservations := delete p db.trustedObservations } domain now
      historyHours = trustedReferences db domain now historyHours := by
  rw [trustedReferences_eq, trustedReferences_eq, filter_delete]
  · rfl
  · intro o _ ho
    rw [Bool.and_eq_true] at ho
    by_contra hp
    rw [h o (Bool.not_eq_false _ ▸ hp)] at ho
    cases ho.2

/-- Neither the pruning of the pool nor that of the retention shows in what a query of a later
time and with no longer a history returns. -/
theorem pruning_invisible [OrderedFloat F] (db : DB F) {now later : Int} {hours hours' : F}
    (hmax : hours ≤ ofInt 720) (h : hours' ≤ hours) (ht : now ≤ later) (domain : Domain) :
    trustedReferences (pruneTrustedReferences now hours db) domain later hours' =
        trustedReferences db domain later hours' ∧
      trustedReferences (pruneObservations (now - retention) db) domain later hours' =
        trustedReferences db domain later hours' := by
  constructor
  · exact trustedReferences_delete (fun o => not_inWindow_of_pruned hmax h ht) domain
  · apply trustedReferences_delete
    intro o ho
    exact not_inWindow_of_pruned hmax h ht (by rw [ho, Bool.true_or])

end

section

local instance : CaseTables := asciiTables

def prunedDB : DB ℚ :=
  saveTrustedObservation
    (saveTrustedObservation poolDB poolSource (poolResult 1000 10 [str "1.2.3.4"])) poolSource
    (poolResult 5000 60 [str "1.2.9.9"])

theorem pruning_invisible_example :
    (pruneTrustedReferences 20000 0 prunedDB).trustedObservations.length = 1 ∧
      trustedReferences (pruneTrustedReferences 20000 0 prunedDB) poolDomain 30000 0 =
        trustedReferences prunedDB poolDomain 30000 0 :=
  ⟨by decide +kernel,
    (pruning_invisible prunedDB (by decide +kernel) le_rfl (by decide) poolDomain).1⟩

end

end DnsMonitor.Store.Pruning
