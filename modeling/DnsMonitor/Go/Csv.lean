import DnsMonitor.Go.Strings

namespace DnsMonitor.Go.Csv

open DnsMonitor.Go.Strings

def comma : UInt8 := 0x2C

def quote : UInt8 := 0x22

def cr : UInt8 := 0x0D

def lf : UInt8 := 0x0A

/-- What the reader makes of the line ends: a carriage return before a line feed is dropped,
and so is one at the end of the text. -/
def normalizeLines : GoString → GoString
  | [] => []
  | b :: s =>
    if b = cr ∧ (s = [] ∨ s.head? = some lf) then normalizeLines s else b :: normalizeLines s

inductive Mode where
  /-- Before a record; empty lines are skipped here. -/
  | line
  | field
  | plain
  | quoted
  /-- After a quote inside a quoted field. -/
  | closing
deriving DecidableEq

inductive Next where
  | go (m : Mode) (field : GoString) (record : List GoString)
  | done (record : List GoString)
  /-- A bare quote, or a quoted field that goes on after its quote. -/
  | bad
deriving DecidableEq

/-- The effect of one byte, with what was read of the field and of the record before. -/
def next (m : Mode) (field : GoString) (record : List GoString) (b : UInt8) : Next :=
  match m with
  | .line =>
    if b = lf then .go .line [] []
    else if b = quote then .go .quoted [] []
    else if b = comma then .go .field [] [[]]
    else .go .plain [b] []
  | .field =>
    if b = quote then .go .quoted [] record
    else if b = comma then .go .field [] (record ++ [[]])
    else if b = lf then .done (record ++ [[]])
    else .go .plain [b] record
  | .plain =>
    if b = quote then .bad
    else if b = comma then .go .field [] (record ++ [field])
    else if b = lf then .done (record ++ [field])
    else .go .plain (field ++ [b]) record
  | .quoted =>
    if b = quote then .go .closing field record else .go .quoted (field ++ [b]) record
  | .closing =>
    if b = quote then .go .quoted (field ++ [quote]) record
    else if b = comma then .go .field [] (record ++ [field])
    else if b = lf then .done (record ++ [field])
    else .bad

def last (m : Mode) (field : GoString) (record : List GoString) : List (List GoString) × Bool :=
  match m with
  | .line => ([], true)
  | .quoted => ([], false)
  | .field | .plain | .closing => ([record ++ [field]], true)

/-- The records up to the first malformed one, and whether there is none. -/
def scan : Mode → GoString → List GoString → GoString → List (List GoString) × Bool
  | m, field, record, [] => last m field record
  | m, field, record, b :: s =>
    match next m field record b with
    | .go m field record => scan m field record s
    | .done record => ((record :: (scan .line [] [] s).1), (scan .line [] [] s).2)
    | .bad => ([], false)

def readAll (s : GoString) : List (List GoString) × Bool := scan .line [] [] (normalizeLines s)

def isSpecial (b : UInt8) : Bool := b = lf || b = cr || b = quote || b = comma

def fieldNeedsQuotes (field : GoString) : Bool :=
  field ≠ [] && (field = [0x5C, 0x2E] || field.any isSpecial || (leading spaces field).isSome)

def quotedByte (b : UInt8) : GoString :=
  if b = quote then [quote, quote] else if b = cr then [] else if b = lf then [cr, lf] else [b]

def writeField (field : GoString) : GoString :=
  if fieldNeedsQuotes field then quote :: field.flatMap quotedByte ++ [quote] else field

def write (record : List GoString) : GoString :=
  [comma].intercalate (record.map writeField) ++ [cr, lf]

def writeAll (records : List (List GoString)) : GoString := records.flatMap write

def withoutCR (field : GoString) : GoString := field.filter (· ≠ cr)

def normalByte (b : UInt8) : GoString :=
  if b = quote then [quote, quote] else if b = cr then [] else [b]

def normalField (field : GoString) : GoString :=
  if fieldNeedsQuotes field then quote :: field.flatMap normalByte ++ [quote] else field

theorem special_facts {field : GoString} (h : fieldNeedsQuotes field = false) :
    ∀ b ∈ field, b ≠ lf ∧ b ≠ cr ∧ b ≠ quote ∧ b ≠ comma := by
  intro b hb
  have hne : field ≠ [] := List.ne_nil_of_mem hb
  have hany : field.any isSpecial = false := by
    by_contra hs
    simp [fieldNeedsQuotes, hne, hs] at h
  have hspecial := List.any_eq_false.mp hany b hb
  simpa [isSpecial, and_assoc] using hspecial

theorem normalizeLines_append {p : GoString} (h : cr ∉ p) (s : GoString) :
    normalizeLines (p ++ s) = p ++ normalizeLines s := by
  induction p with
  | nil => rfl
  | cons b p ih =>
    rw [List.mem_cons, not_or] at h
    rw [List.cons_append, normalizeLines, if_neg fun hb => h.1 hb.1.symm, ih h.2, List.cons_append]

theorem normalizeLines_crlf (s : GoString) :
    normalizeLines (cr :: lf :: s) = lf :: normalizeLines s := by
  have hne : lf ≠ cr := by decide
  rw [normalizeLines, if_pos ⟨rfl, .inr rfl⟩, normalizeLines, if_neg fun h => hne h.1]

theorem normalizeLines_quoted (field s : GoString) :
    normalizeLines (field.flatMap quotedByte ++ s) =
      field.flatMap normalByte ++ normalizeLines s := by
  induction field with
  | nil => rfl
  | cons b field ih =>
    have hq : cr ∉ [quote, quote] := by decide
    rw [List.flatMap_cons, List.flatMap_cons, List.append_assoc, List.append_assoc, ← ih]
    by_cases hquote : b = quote
    · simp only [quotedByte, normalByte, if_pos hquote]
      exact normalizeLines_append hq _
    · by_cases hcr : b = cr
      · simp only [quotedByte, normalByte, if_neg hquote, if_pos hcr, List.nil_append]
      · by_cases hb : b = lf
        · have hwritten : quotedByte lf = [cr, lf] := by decide
          have hnormal : normalByte lf = [lf] := by decide
          rw [hb, hwritten, hnormal]
          exact normalizeLines_crlf _
        · simp only [quotedByte, normalByte, if_neg hquote, if_neg hcr, if_neg hb]
          exact normalizeLines_append (by simpa using Ne.symm hcr) _

theorem normalizeLines_field (field s : GoString) :
    normalizeLines (writeField field ++ s) = normalField field ++ normalizeLines s := by
  have hq : cr ∉ [quote] := by decide
  unfold writeField normalField
  by_cases h : fieldNeedsQuotes field = true
  · rw [if_pos h, if_pos h, List.append_assoc, List.append_assoc]
    have hopen := normalizeLines_append hq (field.flatMap quotedByte ++ ([quote] ++ s))
    rw [normalizeLines_quoted, normalizeLines_append hq] at hopen
    exact hopen
  · rw [if_neg h, if_neg h]
    apply normalizeLines_append
    intro hmem
    exact (special_facts (Bool.eq_false_iff.mpr h) cr hmem).2.1 rfl

theorem normalizeLines_record (record : List GoString) (s : GoString) :
    normalizeLines (write record ++ s) =
      [comma].intercalate (record.map normalField) ++ lf :: normalizeLines s := by
  have hc : cr ∉ [comma] := by decide
  have hloop : ∀ t, normalizeLines ([comma].intercalate (record.map writeField) ++ t) =
      [comma].intercalate (record.map normalField) ++ normalizeLines t := by
    intro t
    induction record with
    | nil => rfl
    | cons field record ih =>
      cases record with
      | nil => simpa [List.intercalate] using normalizeLines_field field t
      | cons other record =>
        simp only [List.map_cons, List.intercalate_cons_cons, List.append_assoc] at ih ⊢
        rw [normalizeLines_field, normalizeLines_append hc, ih]
  rw [write, List.append_assoc, hloop]
  exact congrArg _ (normalizeLines_crlf s)

theorem scan_go {m m' : Mode} {field field' : GoString} {record record' : List GoString}
    {b : UInt8} (h : next m field record b = .go m' field' record') (s : GoString) :
    scan m field record (b :: s) = scan m' field' record' s := by
  rw [scan, h]

theorem scan_done {m : Mode} {field : GoString} {record record' : List GoString} {b : UInt8}
    (h : next m field record b = .done record') (s : GoString) :
    scan m field record (b :: s) =
      ((record' :: (scan .line [] [] s).1), (scan .line [] [] s).2) := by
  rw [scan, h]

theorem scan_quoted (field value : GoString) (record : List GoString) (s : GoString) :
    scan .quoted field record (value.flatMap normalByte ++ s) =
      scan .quoted (field ++ withoutCR value) record s := by
  induction value generalizing field with
  | nil => rw [withoutCR, List.filter_nil, List.append_nil, List.flatMap_nil, List.nil_append]
  | cons b value ih =>
    rw [List.flatMap_cons, List.append_assoc]
    by_cases hquote : b = quote
    · have hbyte : normalByte quote = [quote, quote] := by decide
      have hkeep : withoutCR (quote :: value) = quote :: withoutCR value := by
        simp [withoutCR, quote, cr]
      rw [hquote, hbyte, hkeep]
      have hfirst : next .quoted field record quote = .go .closing field record := rfl
      have hsecond : next .closing field record quote = .go .quoted (field ++ [quote]) record :=
        rfl
      rw [List.cons_append, List.cons_append, scan_go hfirst, scan_go hsecond, List.nil_append, ih,
        List.append_assoc]
      rfl
    · by_cases hcr : b = cr
      · have hbyte : normalByte cr = [] := by decide
        rw [hcr, hbyte, List.nil_append, ih]
        simp [withoutCR]
      · have hbyte : normalByte b = [b] := by simp [normalByte, hquote, hcr]
        have hkeep : withoutCR (b :: value) = b :: withoutCR value := by simp [withoutCR, hcr]
        rw [hbyte, hkeep]
        have hnext : next .quoted field record b = .go .quoted (field ++ [b]) record := by
          simp [next, hquote]
        rw [List.cons_append, scan_go hnext, List.nil_append, ih, List.append_assoc]
        rfl

theorem scan_plain {value : GoString}
    (h : ∀ b ∈ value, b ≠ lf ∧ b ≠ cr ∧ b ≠ quote ∧ b ≠ comma) (field : GoString)
    (record : List GoString) (s : GoString) :
    scan .plain field record (value ++ s) = scan .plain (field ++ value) record s := by
  induction value generalizing field with
  | nil => rw [List.append_nil, List.nil_append]
  | cons b value ih =>
    obtain ⟨hlf, _, hquote, hcomma⟩ := h b (by simp)
    have hnext : next .plain field record b = .go .plain (field ++ [b]) record := by
      simp [next, hlf, hquote, hcomma]
    rw [List.cons_append, scan_go hnext, ih fun c hc => h c (by simp [hc]), List.append_assoc]
    rfl

theorem withoutCR_of_unquoted {field : GoString} (h : fieldNeedsQuotes field = false) :
    withoutCR field = field :=
  List.filter_eq_self.mpr fun b hb => by simp [(special_facts h b hb).2.1]

theorem scan_end {m : Mode} (hm : m = .plain ∨ m = .closing) (field : GoString)
    (record : List GoString) {b : UInt8} (hb : b = comma ∨ b = lf) (s : GoString) :
    scan m field record (b :: s) = scan .closing field record (b :: s) := by
  have hnext : next m field record b = next .closing field record b := by
    obtain rfl | rfl := hm <;> obtain rfl | rfl := hb <;> rfl
  rw [scan, hnext, scan]

/-- A field up to the byte after it, at a place where a field starts. The first field of a line
is followed by a comma. -/
theorem scan_field {m : Mode} {record : List GoString} (hm : m = .field ∨ m = .line ∧ record = [])
    (value : GoString) {b : UInt8} (hb : b = comma ∨ b = lf ∧ m = .field) (s : GoString) :
    scan m [] record (normalField value ++ b :: s) =
      scan .closing (withoutCR value) record (b :: s) := by
  have hend : b = comma ∨ b = lf := hb.imp id And.left
  unfold normalField
  cases hq : fieldNeedsQuotes value with
  | true =>
    have hopen : next m [] record quote = .go .quoted [] record := by
      obtain rfl | ⟨rfl, rfl⟩ := hm <;> rfl
    have hclose : next .quoted (withoutCR value) record quote =
        .go .closing (withoutCR value) record := rfl
    rw [if_pos rfl, List.append_assoc, List.cons_append, scan_go hopen, scan_quoted,
      List.nil_append, List.singleton_append, scan_go hclose]
  | false =>
    have hspecial := special_facts hq
    rw [if_neg (by simp), withoutCR_of_unquoted hq]
    cases value with
    | nil =>
      have hnext : next m [] record b = next .closing [] record b := by
        obtain rfl | ⟨rfl, rfl⟩ := hb
        · obtain rfl | ⟨rfl, rfl⟩ := hm <;> rfl
        · rfl
      rw [List.nil_append, scan, hnext, scan]
    | cons c value =>
      obtain ⟨hlf, _, hquote, hcomma⟩ := hspecial c (by simp)
      have hnext : next m [] record c = .go .plain [c] record := by
        obtain rfl | ⟨rfl, rfl⟩ := hm <;> simp [next, hlf, hquote, hcomma]
      rw [List.cons_append, scan_go hnext, scan_plain fun d hd => hspecial d (by simp [hd])]
      exact scan_end (.inl rfl) _ _ hend _

theorem scan_record {m : Mode} {before : List GoString}
    (hm : m = .field ∨ m = .line ∧ before = []) {record : List GoString} (hne : record ≠ [])
    (hline : m = .line → 2 ≤ record.length) (s : GoString) :
    scan m [] before ([comma].intercalate (record.map normalField) ++ lf :: s) =
      ((before ++ record.map withoutCR) :: (scan .line [] [] s).1, (scan .line [] [] s).2) := by
  induction record generalizing m before with
  | nil => exact absurd rfl hne
  | cons field record ih =>
    cases record with
    | nil =>
      have hfield : m = .field := by
        obtain h | ⟨h, _⟩ := hm
        · exact h
        · simpa using hline h
      have hlast : [comma].intercalate ([field].map normalField) = normalField field := by
        simp [List.intercalate]
      rw [hlast, scan_field hm field (.inr ⟨rfl, hfield⟩)]
      exact scan_done rfl s
    | cons other record =>
      have hnext : next .closing (withoutCR field) before comma =
          .go .field [] (before ++ [withoutCR field]) := rfl
      have hrest : scan .field [] (before ++ [withoutCR field])
          ([comma].intercalate ((other :: record).map normalField) ++ lf :: s) = _ :=
        ih (.inl rfl) (by simp) (fun h => by cases h)
      rw [List.map_cons, List.map_cons, List.intercalate_cons_cons, List.append_assoc,
        List.append_assoc, List.singleton_append, scan_field hm field (.inl rfl), scan_go hnext]
      rw [List.map_cons] at hrest
      rw [hrest, List.append_assoc]
      rfl

/-- Records of at least two fields are read as they were written, but for carriage returns. -/
theorem readAll_writeAll {records : List (List GoString)} (h : ∀ r ∈ records, 2 ≤ r.length) :
    readAll (writeAll records) = (records.map fun r => r.map withoutCR, true) := by
  unfold readAll
  induction records with
  | nil => rfl
  | cons r records ih =>
    have hr := h r (by simp)
    have hne : r ≠ [] := List.ne_nil_of_length_pos (by omega)
    have hrest := ih fun q hq => h q (by simp [hq])
    rw [writeAll, List.flatMap_cons, normalizeLines_record,
      scan_record (.inr ⟨rfl, rfl⟩) hne (fun _ => hr)]
    rw [writeAll] at hrest
    rw [hrest]
    rfl

end DnsMonitor.Go.Csv
