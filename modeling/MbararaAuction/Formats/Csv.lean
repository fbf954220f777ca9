import Mathlib.Data.List.Basic

namespace Formats

/-- The fields of a record, each a text. -/
abbrev Record := List (List Char)

/-- What separates and encloses the fields of a record. The two differ, and neither ends a
line. -/
structure Dialect where
  delimiter : Char
  quote : Char
  distinct : delimiter ≠ quote
  delimiterInside : delimiter ≠ '\r' ∧ delimiter ≠ '\n'
  quoteInside : quote ≠ '\r' ∧ quote ≠ '\n'

def endsLine (c : Char) : Bool := c == '\r' || c == '\n'

namespace Dialect
variable (d : Dialect)

section Writer

/-- The characters for which a field is quoted. -/
def special (c : Char) : Bool := c == d.delimiter || c == d.quote || endsLine c

/-- Every quote twice. -/
def doubled (field : List Char) : List Char :=
  field.flatMap fun c => if c = d.quote then [c, c] else [c]

/-- A field is quoted only where it has to be. -/
def writeField (field : List Char) : List Char :=
  if field.any d.special then d.quote :: (d.doubled field ++ [d.quote]) else field

def joinFields : Record → List Char
  | [] => []
  | [field] => d.writeField field
  | field :: rest => d.writeField field ++ d.delimiter :: joinFields rest

/-- A record of one empty field is quoted, to tell it from one of none. -/
def writeRecord (record : Record) : List Char :=
  (if record = [[]] then [d.quote, d.quote] else d.joinFields record) ++ ['\r', '\n']

def write (table : List Record) : List Char := table.flatMap d.writeRecord

end Writer

section Reader

/-- Where a reader stands: before a record, before a field, in a field, in quotes, after a
quote inside quotes, or after the first character of a line end. -/
inductive Mode where
  | startRecord | startField | plain | quoted | quoteSeen | lineSeen
deriving DecidableEq, Repr

/-- A reader, the characters of the field that it is in, and the fields before it. -/
structure Cursor where
  mode : Mode
  field : List Char
  record : Record
deriving DecidableEq, Repr

/-- The reader before a record. -/
def start : Cursor := ⟨.startRecord, [], []⟩

namespace Cursor
variable (x : Cursor) (c : Char)

/-- The field is complete. -/
def save : Record := x.record ++ [x.field]

def push : List Char := x.field ++ [c]

/-- After a character that ends the line. -/
def newline : Cursor := ⟨if c = '\r' then .lineSeen else .startRecord, [], []⟩

/-- The reader at the end of a field: what ends it, or `otherwise`. -/
def close (d : Dialect) (otherwise : Cursor) : Cursor × List Record :=
  if endsLine c then (newline c, [x.save])
  else if c = d.delimiter then (⟨.startField, [], x.save⟩, [])
  else (otherwise, [])

/-- The reader before a field, which begins with a quote or without one. -/
def openField (d : Dialect) : Cursor × List Record :=
  x.close c d (if c = d.quote then { x with mode := .quoted } else ⟨.plain, [c], x.record⟩)

/-- One character, and the records that it completes. -/
def step (d : Dialect) : Cursor × List Record :=
  match x.mode with
  | .startRecord => if endsLine c then (newline c, [[]]) else x.openField c d
  | .startField => x.openField c d
  | .plain => x.close c d { x with field := x.push c }
  | .quoted =>
    (if c = d.quote then { x with mode := .quoteSeen } else { x with field := x.push c }, [])
  | .quoteSeen =>
    x.close c d ⟨if c = d.quote then .quoted else .plain, x.push c, x.record⟩
  | .lineSeen =>
    if c = '\n' then (start, [])
    else if c = '\r' then (newline c, [[]])
    else start.openField c d

/-- What is left at the end of the text. -/
def finish : List Record :=
  match x.mode with
  | .startRecord | .lineSeen => []
  | _ => [x.save]

end Cursor

def readFrom : Cursor → List Char → List Record
  | x, [] => x.finish
  | x, c :: text => (x.step c d).2 ++ readFrom (x.step c d).1 text

/-- The records of a text. -/
def read (text : List Char) : List Record := d.readFrom start text

end Reader

section RoundTrip
variable {d : Dialect} {c : Char} {field front text : List Char} {record before : Record} {x : Cursor}

theorem special_iff : d.special c = false ↔ (c ≠ d.delimiter ∧ c ≠ d.quote) ∧ endsLine c = false := by
  simp [special]

theorem quote_inside : endsLine d.quote = false := by
  simp [endsLine, d.quoteInside]

theorem delimiter_inside : endsLine d.delimiter = false := by
  simp [endsLine, d.delimiterInside]

theorem close_other {otherwise : Cursor} (h : endsLine c = false) (hd : c ≠ d.delimiter) :
    x.close c d otherwise = (otherwise, []) := by
  rw [Cursor.close, if_neg (by simp [h]), if_neg hd]

section Steps
variable (d) (front) (before)

theorem step_startField_quote :
    (⟨.startField, [], before⟩ : Cursor).step d.quote d = (⟨.quoted, [], before⟩, []) := by
  rw [Cursor.step, Cursor.openField, close_other quote_inside d.distinct.symm, if_pos rfl]

theorem step_quoted_quote :
    (⟨.quoted, front, before⟩ : Cursor).step d.quote d = (⟨.quoteSeen, front, before⟩, []) := by
  rw [Cursor.step, if_pos rfl]

theorem step_quoteSeen_quote : (⟨.quoteSeen, front, before⟩ : Cursor).step d.quote d =
    (⟨.quoted, front ++ [d.quote], before⟩, []) := by
  change Cursor.close _ d.quote d ⟨if d.quote = d.quote then _ else _, _, _⟩ = _
  rw [close_other quote_inside d.distinct.symm, if_pos rfl]
  rfl

theorem step_quoted (hc : c ≠ d.quote) : (⟨.quoted, front, before⟩ : Cursor).step c d =
    (⟨.quoted, front ++ [c], before⟩, []) := by
  rw [Cursor.step, if_neg hc]
  rfl

theorem step_startField (hc : d.special c = false) :
    (⟨.startField, [], before⟩ : Cursor).step c d = (⟨.plain, [c], before⟩, []) := by
  obtain ⟨⟨hd, hq⟩, hline⟩ := special_iff.mp hc
  rw [Cursor.step, Cursor.openField, close_other hline hd, if_neg hq]

theorem step_plain (hc : d.special c = false) : (⟨.plain, front, before⟩ : Cursor).step c d =
    (⟨.plain, front ++ [c], before⟩, []) := by
  obtain ⟨⟨hd, _⟩, hline⟩ := special_iff.mp hc
  rw [Cursor.step, close_other hline hd]
  rfl

end Steps

theorem readFrom_step {out : List Record} {x' : Cursor} (h : x.step c d = (x', out)) :
    d.readFrom x (c :: text) = out ++ d.readFrom x' text := by
  rw [readFrom, h]

/-- Where a record does not begin with the end of a line, it begins with a field. -/
theorem readFrom_start (hc : endsLine c = false) :
    d.readFrom start (c :: text) = d.readFrom ⟨.startField, [], []⟩ (c :: text) := by
  have hstep : start.step c d = (⟨.startField, [], []⟩ : Cursor).step c d := by
    change (if endsLine c = true then _ else _) = _
    rw [if_neg (by simp [hc])]
    rfl
  rw [readFrom, readFrom, hstep]

/-- Doubled quotes are read as single ones. -/
theorem readFrom_doubled : d.readFrom ⟨.quoted, front, before⟩ (d.doubled field ++ text) =
    d.readFrom ⟨.quoted, front ++ field, before⟩ text := by
  induction field generalizing front with
  | nil => rw [List.append_nil]; rfl
  | cons c field ih =>
    have hnext : _ = d.readFrom ⟨.quoted, front ++ [c] ++ field, before⟩ text := ih
    rw [List.append_assoc, List.singleton_append] at hnext
    rw [← hnext, doubled, List.flatMap_cons]
    by_cases hc : c = d.quote
    · rw [if_pos hc, hc, List.append_assoc, List.cons_append, List.singleton_append,
        readFrom_step (step_quoted_quote ..), readFrom_step (step_quoteSeen_quote ..)]
      rfl
    · rw [if_neg hc, List.append_assoc, List.singleton_append, readFrom_step (step_quoted _ _ _ hc)]
      rfl

theorem readFrom_plain (h : ∀ c ∈ field, d.special c = false) :
    d.readFrom ⟨.plain, front, before⟩ (field ++ text) =
      d.readFrom ⟨.plain, front ++ field, before⟩ text := by
  induction field generalizing front with
  | nil => rw [List.append_nil]; rfl
  | cons c field ih =>
    obtain ⟨hc, hfield⟩ := List.forall_mem_cons.mp h
    have hnext : _ = d.readFrom ⟨.plain, front ++ [c] ++ field, before⟩ text := ih hfield
    rw [List.append_assoc, List.singleton_append] at hnext
    rw [← hnext, List.cons_append, readFrom_step (step_plain _ _ _ hc)]
    rfl

/-- The reader has come to the end of a field: the delimiter and the end of the line
complete it. -/
def AtEnd (d : Dialect) (x : Cursor) : Prop :=
  x.step d.delimiter d = (⟨.startField, [], x.save⟩, []) ∧
    x.step '\r' d = (⟨.lineSeen, [], []⟩, [x.save])

theorem close_delimiter {otherwise : Cursor} :
    x.close d.delimiter d otherwise = (⟨.startField, [], x.save⟩, []) := by
  rw [Cursor.close, if_neg (by simp [delimiter_inside]), if_pos rfl]

theorem atEnd_startField : AtEnd d ⟨.startField, [], before⟩ := ⟨close_delimiter, rfl⟩

theorem atEnd_plain : AtEnd d ⟨.plain, field, before⟩ := ⟨close_delimiter, rfl⟩

theorem atEnd_quoteSeen : AtEnd d ⟨.quoteSeen, field, before⟩ := ⟨close_delimiter, rfl⟩

/-- A field is read to its end. -/
theorem readFrom_field (d : Dialect) (field : List Char) (before : Record) (text : List Char) :
    ∃ mode, AtEnd d ⟨mode, field, before⟩ ∧
      d.readFrom ⟨.startField, [], before⟩ (d.writeField field ++ text) =
        d.readFrom ⟨mode, field, before⟩ text := by
  unfold writeField
  by_cases hspecial : field.any d.special = true
  · refine ⟨.quoteSeen, atEnd_quoteSeen, ?_⟩
    rw [if_pos hspecial, List.cons_append, readFrom_step (step_startField_quote ..), List.append_assoc,
      readFrom_doubled, List.singleton_append, readFrom_step (step_quoted_quote ..)]
    rfl
  · have hplain : ∀ c ∈ field, d.special c = false := by
      simpa using hspecial
    rw [if_neg hspecial]
    cases field with
    | nil => exact ⟨.startField, atEnd_startField, rfl⟩
    | cons c field =>
      obtain ⟨hc, hfield⟩ := List.forall_mem_cons.mp hplain
      refine ⟨.plain, atEnd_plain, ?_⟩
      rw [List.cons_append, readFrom_step (step_startField _ _ hc), readFrom_plain hfield]
      rfl

/-- The fields of a record are read one after another, up to the end of the line. -/
theorem readFrom_join (hne : record ≠ []) :
    d.readFrom ⟨.startField, [], before⟩ (d.joinFields record ++ '\r' :: text) =
      (before ++ record) :: d.readFrom ⟨.lineSeen, [], []⟩ text := by
  induction record generalizing before with
  | nil => exact absurd rfl hne
  | cons field rest ih =>
    cases rest with
    | nil =>
      obtain ⟨mode, hend, hread⟩ := readFrom_field d field before ('\r' :: text)
      change d.readFrom _ (d.writeField field ++ '\r' :: text) = _
      rw [hread, readFrom_step hend.2]
      rfl
    | cons next rest =>
      obtain ⟨mode, hend, hread⟩ := readFrom_field d field before
        (d.delimiter :: (d.joinFields (next :: rest) ++ '\r' :: text))
      have hrest : _ = (before ++ [field] ++ next :: rest) :: d.readFrom ⟨.lineSeen, [], []⟩ text :=
        ih (List.cons_ne_nil next rest)
      rw [List.append_assoc, List.singleton_append] at hrest
      rw [joinFields, List.append_assoc, List.cons_append, hread, readFrom_step hend.1,
        ← hrest]
      · rfl
      · exact List.cons_ne_nil next rest

theorem writeField_head (hne : field ≠ []) :
    ∃ c rest, d.writeField field = c :: rest ∧ endsLine c = false := by
  unfold writeField
  by_cases hspecial : field.any d.special = true
  · exact ⟨d.quote, _, if_pos hspecial, quote_inside⟩
  · cases field with
    | nil => exact absurd rfl hne
    | cons c rest =>
      refine ⟨c, rest, if_neg hspecial, ?_⟩
      simp only [List.any_cons, Bool.or_eq_true, not_or, Bool.not_eq_true] at hspecial
      exact (special_iff.mp hspecial.1).2

theorem joinFields_head (hne : record ≠ []) (hne' : record ≠ [[]]) :
    ∃ c rest, d.joinFields record = c :: rest ∧ endsLine c = false := by
  cases record with
  | nil => exact absurd rfl hne
  | cons field rest =>
    cases rest with
    | nil => exact writeField_head (fun h => hne' (by rw [h]))
    | cons next rest =>
      by_cases hfield : field = []
      · rw [hfield]
        exact ⟨d.delimiter, _, rfl, delimiter_inside⟩
      · obtain ⟨c, front, hfront, hc⟩ := writeField_head (d := d) hfield
        refine ⟨c, front ++ d.delimiter :: d.joinFields (next :: rest), ?_, hc⟩
        rw [joinFields, hfront]
        · rfl
        · exact List.cons_ne_nil next rest

theorem readFrom_newline : d.readFrom ⟨.lineSeen, [], []⟩ ('\n' :: text) = d.readFrom start text := rfl

/-- A record is read back, and the reader stands before the next one. -/
theorem readFrom_record :
    d.readFrom start (d.writeRecord record ++ text) = record :: d.readFrom start text := by
  unfold writeRecord
  rw [List.append_assoc]
  change d.readFrom start (_ ++ '\r' :: '\n' :: text) = _
  by_cases hnone : record = []
  · rw [hnone]
    rfl
  by_cases hempty : record = [[]]
  · have hquotes : AtEnd d ⟨.quoteSeen, [], []⟩ := atEnd_quoteSeen
    rw [if_pos hempty, hempty, List.cons_append, List.cons_append, List.nil_append,
      readFrom_start quote_inside, readFrom_step (step_startField_quote ..),
      readFrom_step (step_quoted_quote ..), readFrom_step hquotes.2, readFrom_newline]
    rfl
  · obtain ⟨c, rest, hjoin, hc⟩ := joinFields_head (d := d) hnone hempty
    have hread : _ = ([] ++ record) :: d.readFrom ⟨.lineSeen, [], []⟩ ('\n' :: text) :=
      readFrom_join hnone
    rw [if_neg hempty]
    rw [hjoin, List.cons_append] at hread ⊢
    rw [readFrom_start hc, hread, List.nil_append, readFrom_newline]

/-- What is written is read back, whatever the fields hold. -/
theorem read_write (table : List Record) : d.read (d.write table) = table := by
  unfold read write
  induction table with
  | nil => rfl
  | cons record table ih => rw [List.flatMap_cons, readFrom_record, ih]

end RoundTrip

end Dialect

end Formats
