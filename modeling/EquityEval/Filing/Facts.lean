import EquityEval.Markup.Content
import EquityEval.Relational.Table
import EquityEval.Text.Decimals
import EquityEval.Text.Patterns
import EquityEval.Vintage.Manifest
import Mathlib.Data.List.DropRight

/-!
# Facts of inline filings

A filing is an XHTML document with facts among its elements. A fact is read with its context, its unit and
its own attributes; what cannot be read is kept as an unsupported fact. The text of a fact goes on in
continuation elements that attributes refer to. Contexts and units are read by functions of their own.
-/

namespace EquityEval.Filing

open DecimalArithmetic (Decimal readInt)
open Markup (Content Path)
open Relational (orRaise raiseIf)
open Text
open Text.Pattern (concat lit many one oneOf plus)
open Vintage (isSpace)

/-! ### Names -/

/-- An expanded name. -/
structure QName where
  uri : Option String
  localName : String
deriving DecidableEq, Repr

/-- The name with its namespace in braces. -/
def QName.clark (name : QName) : String :=
  match name.uri with
  | some uri => "\x7b" ++ uri ++ "\x7d" ++ name.localName
  | none => name.localName

/-- `IX`. -/
def ix (name : String) : QName := ⟨some "http://www.xbrl.org/2013/inlineXBRL", name⟩

/-- `XSI`. -/
def xsi (name : String) : QName := ⟨some "http://www.w3.org/2001/XMLSchema-instance", name⟩

/-- `XHTML`. -/
def xhtml (name : String) : QName := ⟨some "http://www.w3.org/1999/xhtml", name⟩

/-- `TRANSFORMS`. -/
def transforms : List (Option String) :=
  [some "http://www.xbrl.org/inlineXBRL/transformation/2020-02-12", some "http://www.xbrl.org/inlineXBRL/transformation/2022-02-16"]

/-- What an element says of itself, with the namespaces in scope. -/
structure Label where
  tag : QName
  attributes : List (QName × String)
  nsmap : List (Option String × String)
deriving DecidableEq, Repr

/-- An element of a filing. -/
abbrev Node : Type := Markup.Element Label

/-- The value of an attribute. -/
def getNamed (node : Node) (name : QName) : Option String := node.label.attributes.lookup name

/-- The value of an attribute whose name is in no namespace. -/
def get (node : Node) (name : String) : Option String := getNamed node ⟨none, name⟩

/-- `text.strip(characters)`. -/
def strip (p : Char → Bool) (text : List Char) : List Char := (text.dropWhile p).rdropWhile p

/-- `[A-Za-z_][A-Za-z0-9_.-]*`. -/
def ncName : Pattern :=
  concat [one fun c => c.isAlpha || c = '_', many fun c => c.isAlphanum || c = '_' || c = '.' || c = '-']

/-- A text that begins with `[A-Za-z][A-Za-z0-9+.-]*:`. -/
def absolute : Pattern :=
  concat [one Char.isAlpha, many fun c => c.isAlphanum || c = '+' || c = '.' || c = '-', lit [':'], many fun _ => true]

/-- `_qname`. -/
def qname (node : Node) (lexical : Option String) : Except String QName := do
  let lexical ← orRaise lexical "missing_qname"
  let parts := pieces ':' (strip isSpace lexical.toList)
  raiseIf (2 < parts.length ∨ ∃ p ∈ parts, ¬ ncName.Matches p) "invalid_qname"
  let (space, name) := match parts with
    | [space, name] => (some (String.ofList space), name)
    | _ => (none, parts.headD [])
  let uri ← orRaise (node.label.nsmap.lookup space) "unresolved_qname"
  raiseIf (¬ absolute.Matches uri.toList) "unresolved_qname"
  return ⟨some uri, String.ofList name⟩

/-! ### Numbers -/

/-- `[ \t\r\n]`. -/
def numericSpace (c : Char) : Bool := c = ' ' || c = '\t' || c = '\r' || c = '\n'

/-- A no-break space. -/
def noBreakSpace : Char := '\u00a0'

/-- `[, \u00a00-9]*(?:\.[ \u00a00-9]+)?`. -/
def groupedPattern : Pattern :=
  concat [many fun c => c = ',' || c = ' ' || c = noBreakSpace || c.isDigit,
    .alt .empty (concat [lit ['.'], plus fun c => c = ' ' || c = noBreakSpace || c.isDigit])]

/-- `\+?(?:[0-9]+(?:\.[0-9]*)?|\.[0-9]+)`. -/
def amountPattern : Pattern :=
  concat [.alt .empty (lit ['+']),
    .alt (concat [plus Char.isDigit, .alt .empty (concat [lit ['.'], many Char.isDigit])]) (concat [lit ['.'], plus Char.isDigit])]

/-- `MAX_NUMERIC_CHARS`. -/
def maxNumericChars : ℕ := 4096

-- what the decisions of this module find of given texts, found once
local instance lawfulBEq_text : LawfulBEq (Option String) := inferInstance

/-- The text of a number after its transform. -/
def transformed (text : List Char) : Option QName → Except String (List Char)
  | none => return text
  | some format => do
    raiseIf (format.uri ∉ transforms ∨ format.localName ∉ ["num-dot-decimal", "fixed-zero"]) "unsupported_transform"
    if format.localName = "fixed-zero" then return ['0']
    else do
      let spaced := text.map fun c => if c = '\t' ∨ c = '\r' ∨ c = '\n' then ' ' else c
      raiseIf (¬ groupedPattern.Matches spaced) "invalid_numeric"
      return spaced.filter (· ∉ [',', ' ', noBreakSpace])

/-- `_number`. The digits are shifted by building a decimal from its parts, so that no decimal context is read. -/
def number (lexical : List Char) (format : Option QName) (scale : ℤ) (sign : Option String) : Except String Decimal := do
  raiseIf (maxNumericChars < lexical.length) "numeric_limit"
  let text ← transformed (strip numericSpace lexical) format
  raiseIf (¬ amountPattern.Matches text) "invalid_numeric"
  -- every text of the pattern is that of a decimal
  let value ← orRaise (Decimal.ofText text) "invalid_numeric"
  return ⟨decide (sign = some "-"), value.coefficient, value.exponent + scale⟩

/-! ### Continuations -/

/-- One element is inside of another. -/
def Contains (outer inner : Node) : Prop := outer.path <+: inner.path ∧ outer.path ≠ inner.path

instance (outer inner : Node) : Decidable (Contains outer inner) := inferInstanceAs (Decidable (_ ∧ _))

/-- The element of a reference: the last one with that identifier, where none is as good as the empty one. -/
def designated (ids : List Node) (reference : String) : Option Node :=
  ids.reverse.find? fun n => decide ((get n "id").getD "" = reference)

/-- The walk of `_continued_text` along the references of elements. -/
def walk (ids : List Node) (invalid : List String) : ℕ → List String → List Node → Node → Option (Except String (List Node))
  | 0, _, _, _ => none
  | fuel + 1, visited, visitedNodes, current =>
    match get current "continuedAt" with
    | none => some (.ok [current])
    | some reference =>
      if reference ∈ visited ∨ reference ∈ invalid then some (.error "invalid_continuation")
      else match designated ids reference with
        | none => some (.error "invalid_continuation")
        | some following =>
          if following.label.tag ≠ ix "continuation" ∨ ∃ prior ∈ visitedNodes, Contains following prior ∨ Contains prior following then
            some (.error "invalid_continuation")
          else (walk ids invalid fuel (reference :: visited) (following :: visitedNodes) following).map (·.map (current :: ·))

/-- The elements whose text a fact has; a reference is followed at most once. -/
def chain (ids : List Node) (invalid : List String) (node : Node) : Option (Except String (List Node)) :=
  walk ids invalid (ids.length + 1) [] [node] node

/-- The text of an element is excluded. -/
def isExcluded (l : Label) : Bool := l.tag = ix "exclude"

/-- `_text_without_excluded`. -/
def textWithoutExcluded (node : Node) : List Char := node.inner.included isExcluded

/-- `_continued_text`: the text and where it is from. -/
def continuedText (ids : List Node) (invalid : List String) (node : Node) : Except String (List Char × List Path) :=
  match chain ids invalid node with
  | some (.ok nodes) => .ok (nodes.flatMap textWithoutExcluded, nodes.map (·.path))
  | some (.error code) => .error code
  -- the walk ends before
  | none => .error "invalid_continuation"

/-! ### Facts -/

/-- The kind of a fact. -/
inductive FactKind where
  | nonFraction
  | nonNumeric
  | fraction
deriving DecidableEq, Repr

/-- The name of the elements of a kind. -/
def FactKind.localName : FactKind → String
  | nonFraction => "nonFraction"
  | nonNumeric => "nonNumeric"
  | fraction => "fraction"

/-- `FactStatus`. -/
inductive FactStatus where
  | observed
  | sourceNil
  | text
  | unsupported
deriving DecidableEq, Repr

/-- `FilingDimension`. -/
structure FilingDimension where
  axis : String
  member : String
  location : String
deriving DecidableEq, Repr

/-- `FilingContext`. -/
structure FilingContext where
  id : String
  dimensions : List FilingDimension
  valid : Bool
deriving DecidableEq, Repr

/-- `FilingUnit`. -/
structure FilingUnit where
  id : String
  valid : Bool
deriving DecidableEq, Repr

/-- `FilingFact`. A locator is a path; a tag that could not be read is empty. -/
structure FilingFact where
  id : Option String
  kind : FactKind
  qualifiedTag : String := ""
  rawName : Option String
  contextId : Option String
  unitId : Option String
  lexicalText : List Char
  scale : Option ℤ := none
  sign : Option String
  decimals : Option String
  precision : Option String
  formatQname : Option QName := none
  value : Option Decimal := none
  status : FactStatus := .unsupported
  locator : Path
  evidenceLocators : List Path
  issueCodes : List String := []
deriving DecidableEq

/-- A fact is kept without an amount. -/
def FilingFact.refused (f : FilingFact) (code : String) : FilingFact := { f with issueCodes := [code] }

/-- What is known of a fact before it is read. -/
def FilingFact.start (node : Node) (kind : FactKind) : FilingFact where
  id := get node "id"
  kind
  rawName := get node "name"
  contextId := get node "contextRef"
  unitId := get node "unitRef"
  lexicalText := (node.inner.leaves node.path [] 0).flatMap (·.characters)
  sign := get node "sign"
  decimals := get node "decimals"
  precision := get node "precision"
  locator := node.path
  evidenceLocators := [node.path]

/-- What the elements of a document are read with: its contexts, units, identifiers and the references that are not followed. -/
structure Index where
  contexts : List FilingContext
  units : List FilingUnit
  ids : List Node
  duplicateIds : List String
  invalidContinuations : List String

/-- The context with an identifier: the last one. -/
def Index.context? (index : Index) (id : String) : Option FilingContext := index.contexts.reverse.find? fun c => decide (c.id = id)

/-- The unit with an identifier: the last one. -/
def Index.unit? (index : Index) (id : String) : Option FilingUnit := index.units.reverse.find? fun u => decide (u.id = id)

/-- The attribute is there and not empty. -/
def isGiven (node : Node) (name : String) : Prop := ∃ value ∈ get node name, value ≠ ""

instance (node : Node) (name : String) : Decidable (isGiven node name) := inferInstanceAs (Decidable (∃ _ ∈ get node name, _))

/-- The checks of where a fact is. -/
def checkPlace (index : Index) (node : Node) : Except String Unit := do
  raiseIf (∃ id ∈ get node "id", id ∈ index.duplicateIds) "duplicate_id"
  raiseIf (isGiven node "target" ∨ isGiven node "tupleRef" ∨ ∃ l ∈ node.around, l.tag = ix "tuple") "unsupported_target_or_tuple"

/-- The transform of a fact. -/
def formatOf (node : Node) : Except String (Option QName) :=
  match get node "format" with
  | none => return none
  | some format => do
    let name ← qname node (some format)
    return some name

/-- The context of a fact is valid, and it tells whether it is nil. -/
def nilOf (index : Index) (node : Node) : Except String Bool := do
  raiseIf (¬ ∃ id ∈ get node "contextRef", ∃ c ∈ index.context? id, c.valid = true) "invalid_context"
  let nil := getNamed node (xsi "nil")
  raiseIf (nil ∉ [none, some "true", some "false", some "1", some "0"]) "invalid_nil"
  return decide (nil ∈ [some "true", some "1"])

/-- The checks of a fact with text. -/
def checkText (node : Node) (isNil : Bool) (format : Option QName) (lexical : List Char) : Except String Unit := do
  raiseIf (isNil = true ∧ (strip isSpace lexical ≠ [] ∨ node.inner.children ≠ [] ∨ isGiven node "continuedAt")) "invalid_nil"
  raiseIf (format ≠ none ∨ get node "escape" ∉ [none, some "false", some "0"]) "unsupported_text_transform"

/-- A fact with text. -/
def textFact (index : Index) (node : Node) (f : FilingFact) (isNil : Bool) : FilingFact :=
  match continuedText index.ids (index.duplicateIds ++ index.invalidContinuations) node with
  | .error code => f.refused code
  | .ok (lexical, locators) =>
    let read := { f with lexicalText := lexical, evidenceLocators := locators }
    match checkText node isNil f.formatQname lexical with
    | .error code => read.refused code
    | .ok _ => { read with status := if isNil then .sourceNil else .text }

/-- `[+-]?[0-9]{1,6}`, with the number that it is. -/
def scaleOf (node : Node) : Except String ℤ := do
  let text := ((get node "scale").getD "0").toList
  let digits := match text with
    | '+' :: rest => rest
    | '-' :: rest => rest
    | _ => text
  raiseIf (¬ ((plus Char.isDigit).Matches digits ∧ digits.length ≤ 6)) "invalid_scale"
  let scale ← orRaise (readInt text) "invalid_scale"
  raiseIf (10000 < scale.natAbs) "invalid_scale"
  return scale

/-- The checks of a fact with an amount before its scale is read. -/
def checkNumeric (index : Index) (node : Node) : Except String Unit := do
  raiseIf (¬ ∃ id ∈ get node "unitRef", ∃ u ∈ index.unit? id, u.valid = true) "invalid_unit"
  raiseIf (get node "continuedAt" ≠ none ∨ node.inner.children ≠ [] ∨ ∃ l ∈ node.around, l.tag = ix "nonFraction")
    "unsupported_numeric_structure"
  raiseIf (get node "sign" ∉ [none, some "-"]) "invalid_sign"

/-- `INF|[+-]?[0-9]+`. -/
def decimalsPattern : Pattern :=
  .alt (lit "INF".toList) (concat [.alt .empty (.alt (lit ['+']) (lit ['-'])), plus Char.isDigit])

/-- `INF|[1-9][0-9]*`. -/
def precisionPattern : Pattern :=
  .alt (lit "INF".toList) (concat [one fun c => c.isDigit && c ≠ '0', many Char.isDigit])

/-- The amount of a fact that is not nil, with exactly one kind of accuracy. -/
def amountOf (node : Node) (f : FilingFact) (scale : ℤ) : Except String Decimal := do
  raiseIf (f.decimals.isNone = f.precision.isNone) "invalid_accuracy"
  raiseIf (∃ text ∈ f.decimals, ¬ decimalsPattern.Matches text.toList) "invalid_accuracy"
  raiseIf (∃ text ∈ f.precision, ¬ precisionPattern.Matches text.toList) "invalid_accuracy"
  number f.lexicalText f.formatQname scale (get node "sign")

/-- A fact with an amount. -/
def numericFact (index : Index) (node : Node) (f : FilingFact) (isNil : Bool) : FilingFact :=
  match checkNumeric index node with
  | .error code => f.refused code
  | .ok _ =>
    match scaleOf node with
    | .error code => f.refused code
    | .ok scale =>
      let scaled := { f with scale := some scale }
      if isNil then
        if strip isSpace f.lexicalText ≠ [] ∨ f.decimals ≠ none ∨ f.precision ≠ none then scaled.refused "invalid_nil"
        else { scaled with status := .sourceNil }
      else
        match amountOf node f scale with
        | .error code => scaled.refused code
        | .ok value => { scaled with value := some value, status := .observed }

/-- `_fact`. -/
def fact (index : Index) (node : Node) (kind : FactKind) : FilingFact :=
  let start := FilingFact.start node kind
  match qname node (get node "name") with
  | .error code => start.refused code
  | .ok tag =>
    let named := { start with qualifiedTag := tag.clark }
    match checkPlace index node with
    | .error code => named.refused code
    | .ok _ =>
      match formatOf node with
      | .error code => named.refused code
      | .ok format =>
        let formatted := { named with formatQname := format }
        match nilOf index node with
        | .error code => formatted.refused code
        | .ok isNil =>
          match kind with
          | .nonNumeric => textFact index node formatted isNil
          | .nonFraction => numericFact index node formatted isNil
          | .fraction => formatted.refused "unsupported_fraction"

/-! ### Documents -/

/-- A parsed document: its root, and whether it has a document type or entities. -/
structure Document where
  label : Label
  inner : Content Label
  hasDoctype : Bool
deriving DecidableEq

/-- The elements of a document in the order in which they begin. -/
def Document.nodes (document : Document) : List Node := Content.elements [] [] 0 (.element document.label document.inner .nil)

/-- How contexts and units are read; the identifiers that more than one element has are given. -/
structure Readers where
  context : List String → Node → FilingContext
  unit : List String → Node → FilingUnit

/-- `FilingExtraction`. -/
structure FilingExtraction where
  contexts : List FilingContext
  units : List FilingUnit
  facts : List FilingFact
deriving DecidableEq

/-- The values of an attribute that more than one element has; the empty one does not count. -/
def repeated (nodes : List Node) (name : String) : List String :=
  let values := nodes.filterMap (get · name)
  values.filter fun value => decide (1 < values.count value ∧ value ≠ "")

/-- The kind of the fact that an element is. -/
def kindOf (node : Node) : Option FactKind :=
  [.nonFraction, .nonNumeric, .fraction].find? fun kind => decide (node.label.tag = ix kind.localName)

/-- What the elements of a document are read with. -/
def Document.index (readers : Readers) (document : Document) : Index :=
  let duplicates := repeated document.nodes "id"
  let xbrli (name : String) : QName := ⟨some "http://www.xbrl.org/2003/instance", name⟩
  { contexts := (document.nodes.filter fun n => decide (n.label.tag = xbrli "context")).map (readers.context duplicates)
    units := (document.nodes.filter fun n => decide (n.label.tag = xbrli "unit")).map (readers.unit duplicates)
    ids := document.nodes.filter fun n => decide (∀ id ∈ get n "id", id ∉ duplicates)
    duplicateIds := duplicates
    invalidContinuations := repeated document.nodes "continuedAt" }

/-- `extract_inline_filing` after the bytes were verified and parsed. -/
def extractInlineFiling (readers : Readers) (document : Document) : FilingExtraction :=
  if document.hasDoctype ∨ document.label.tag ≠ xhtml "html" then ⟨[], [], []⟩
  else
    let index := document.index readers
    let facts := document.nodes.filterMap fun node => (kindOf node).map (fact index node)
    if facts = [] then ⟨[], [], []⟩ else ⟨index.contexts, index.units, facts⟩

end EquityEval.Filing
