import EquityEval.Fundamentals.Metrics
import EquityEval.Text.Decimals
import EquityEval.Text.Trees

/-!
# Source documents

A source document is JSON whose numbers keep their tokens. A row of it names its period, its unit and
its value; what cannot be read of a row is refused or is no value. How JSON is read and written, how
dates are read and which identifier a name has are parameters.
-/

namespace EquityEval.Normalization

open Workflow DecimalArithmetic Gregorian PointInTime
open Fundamentals (PeriodSpec UnitSpec currencyCode)
open Text (Tree)

/-! ### Values -/

/-- A number of a document, with its token. -/
structure JsonNumber where
  text : String
  value : Number
  read : Number.ofText text.toList = some value
deriving DecidableEq

/-- A scalar of a document. -/
inductive SourceScalar where
  | null
  | bool (value : Bool)
  | text (value : String)
  | number (value : JsonNumber)
deriving DecidableEq

/-- A value of a document. -/
abbrev SourceValue : Type := Tree SourceScalar String

/-- A scalar before its token is read. -/
inductive RawScalar where
  | null
  | bool (value : Bool)
  | text (value : String)
  | token (text : String)

/-- `_number`. -/
def number (token : String) : Option JsonNumber :=
  match h : Number.ofText token.toList with
  | some value => some ⟨token, value, h⟩
  | none => none

/-- A scalar with its token read. -/
def readScalar : RawScalar → Option SourceScalar
  | .null => some .null
  | .bool value => some (.bool value)
  | .text value => some (.text value)
  | .token text => (number text).map .number

/-- `_object`: a key that comes twice is refused. -/
def uniqueKeys {α : Type} (members : List (String × α)) : Option (List (String × α)) :=
  if (members.map (·.1)).Nodup then some members else none

/-- The members of an object. -/
def members? : SourceValue → Option (List (String × SourceValue))
  | .object members => some members
  | _ => none

/-- The items of an array. -/
def items? : SourceValue → Option (List SourceValue)
  | .array items => some items
  | _ => none

/-- The value is a text. -/
def text? : SourceValue → Option String
  | .scalar (.text value) => some value
  | _ => none

/-- The member of an object, or what stands for one that is missing. -/
def memberOr (value missing : SourceValue) (key : String) : SourceValue :=
  ((members? value).bind (·.lookup key)).getD missing

/-! ### Identifiers -/

/-- What an identifier is made of. -/
inductive EvidenceName where
  | period (kind : String) (startDate : Option Date) (endDate : Date)
  | unit (key : String)
  | resolution (request : Uuid) (concept : Concept) (unit : Uuid)
  | flag (request : Uuid) (resolution : Option Uuid) (rule message : String)
  | observation (capture : Uuid) (locator : String)
deriving DecidableEq

/-- What is kept of the row of an observation. -/
structure RawMetadata where
  sourceRowJson : String
  sourceLabel : Option SourceValue
  sourceDescription : Option SourceValue
  sourceCikJson : String
  sourceCikType : String
  apiUnit : String

/-- How documents are read and written: the parsed JSON of a body, SHA-256 of bytes and of a text, the text of a string in JSON
(escaped or not), the date of an ISO text and of a timestamp, the canonical JSON of metadata, and the identifier of a name. -/
structure Readers where
  loads : List UInt8 → Option (Tree RawScalar String)
  sha256 : List UInt8 → String
  sha256Text : String → String
  quoteKey : String → String
  quote : String → String
  fromIsoFormat : String → Option Date
  utcDate : Instant → Date
  canonicalMetadata : RawMetadata → String
  evidenceId : EvidenceName → Uuid

variable (env : Readers)

/-- `parse_companyfacts_json`: the members of the document; nothing where it raises. -/
def parseCompanyfacts (body : List UInt8) : Option (List (String × SourceValue)) := do
  let raw ← env.loads body
  let parsed ← raw.traverse readScalar some uniqueKeys
  members? parsed

/-- `source_json`. -/
def sourceJson : SourceValue → String :=
  Tree.fold
    (fun
      | .null => "null"
      | .bool value => if value then "true" else "false"
      | .text value => env.quote value
      | .number n => n.text)
    (fun items => "[" ++ ",".intercalate items ++ "]")
    fun members => "\x7b" ++ ",".intercalate (members.map fun m => env.quoteKey m.1 ++ ":" ++ m.2) ++ "\x7d"

/-! ### Issuers -/

/-- The number of decimal digits. -/
def digitsNumber (digits : List Char) : ℕ := Nat.ofDigitChars 10 digits 0

/-- A number as text of a width, with zeros before it. -/
def padded (width n : ℕ) : String :=
  let digits := Nat.toDigits 10 n
  String.ofList (List.replicate (width - digits.length) '0' ++ digits)

/-- `canonical_cik`; nothing where it raises. -/
def canonicalCik : SourceValue → Option String
  | .scalar (.number n) =>
    let cik := digitsNumber n.text.toList
    if n.text.toList ≠ [] ∧ n.text.toList.all Char.isDigit = true ∧ 0 < cik ∧ cik < 10000000000 then some (padded 10 cik)
    else none
  | .scalar (.text text) =>
    let digits := text.toList
    if 1 ≤ digits.length ∧ digits.length ≤ 10 ∧ digits.all Char.isDigit = true ∧ 0 < digitsNumber digits then
      some (String.ofList (List.replicate (10 - digits.length) '0' ++ digits))
    else none
  | _ => none

/-! ### Periods and units -/

/-- `period_spec`; nothing where it raises. -/
def periodSpec (startDate : Option Date) (endDate : Date) : Option PeriodSpec :=
  match startDate with
  | none => some ⟨env.evidenceId (.period "instant" none endDate), .instant, none, endDate⟩
  | some start =>
    if start ≤ endDate then some ⟨env.evidenceId (.period "duration" (some start) endDate), .duration, some start, endDate⟩
    else none

/-- `unit_spec`; nothing where it raises. -/
def unitSpec (key : String) : Option UnitSpec :=
  let currency := String.ofList (key.toList.take 3)
  let id := env.evidenceId (.unit key)
  if key = "shares" then some ⟨id, key, ["xbrli:shares"], []⟩
  else if currencyCode key then some ⟨id, key, ["iso4217:" ++ key], []⟩
  else if currencyCode currency = true ∧ key.toList.drop 3 = "/shares".toList then
    some ⟨id, key, ["iso4217:" ++ currency], ["xbrli:shares"]⟩
  else none

/-- `concept_unit`. -/
def conceptUnit (concept : Concept) (currency : String) : String :=
  if concept = .epsBasic ∨ concept = .epsDiluted then currency ++ "/shares"
  else if concept = .weightedAverageSharesBasic ∨ concept = .weightedAverageSharesDiluted ∨ concept = .commonSharesOutstanding then
    "shares"
  else currency

/-- `_row_period`; nothing where it raises. -/
def rowPeriod (row : List (String × SourceValue)) : Option PeriodSpec := do
  let last ← (row.lookup "end").bind text?
  let endDate ← env.fromIsoFormat last
  match row.lookup "start" with
  | none => periodSpec env none endDate
  | some first => do
    let startText ← text? first
    let startDate ← env.fromIsoFormat startText
    periodSpec env (some startDate) endDate

/-- `str(value)` of a date. -/
def dateText (d : Date) : String := padded 4 d.year ++ "-" ++ padded 2 d.month ++ "-" ++ padded 2 d.day

/-- The value of a row: a finite number and its token, or why there is none, with what stands in its place. -/
inductive RowValue where
  | finite (value : Decimal) (token : String)
  | unavailable (lexical : Option String) (reason : String)
deriving DecidableEq

namespace RowValue

/-- Why a row has no value. -/
def error? : RowValue → Option String
  | finite _ _ => none
  | unavailable _ reason => some reason

/-- The value of a row. -/
def value? : RowValue → Option Decimal
  | finite value _ => some value
  | unavailable _ _ => none

/-- The text of a row's value. -/
def lexical? : RowValue → Option String
  | finite _ token => some token
  | unavailable lexical _ => lexical

end RowValue

/-- `_numeric`. -/
def numericOf (row : List (String × SourceValue)) : RowValue :=
  match row.lookup "val" with
  | none => .unavailable none "missing_value_field"
  | some (.scalar .null) => .unavailable (some "null") "json_null_without_reviewed_nil_semantics"
  | some (.scalar (.number n)) =>
    match n.value with
    | .finite d => .finite d n.text
    | _ => .unavailable (some (sourceJson env (.scalar (.number n)))) "unparseable_source_value"
  | some value => .unavailable (some (sourceJson env value)) "unparseable_source_value"

/-- The value of a row with a value is that of its token. -/
theorem numericOf_finite {row : List (String × SourceValue)} {d : Decimal} {token : String} :
    numericOf env row = .finite d token ↔
      ∃ n, row.lookup "val" = some (.scalar (.number n)) ∧ n.value = .finite d ∧ n.text = token := by
  unfold numericOf
  constructor
  · intro h
    split at h
    · cases h
    · cases h
    · next n hn =>
      split at h
      · next d' hd =>
        cases h
        exact ⟨n, hn, hd, rfl⟩
      · cases h
    · cases h
  · rintro ⟨n, hn, hvalue, rfl⟩
    rw [hn]
    simp only [hvalue]

end EquityEval.Normalization
