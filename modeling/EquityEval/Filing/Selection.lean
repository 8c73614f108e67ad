import EquityEval.Filing.Numbers
import EquityEval.Sorting.Keys
import Mathlib.Data.Prod.Lex

/-!
# Selected facts

A reviewed tag, context and unit select an amount only if every fact that matches them bears it out. What is
selected depends on the facts that match, and neither on their order nor on that of the dimensions.
-/

namespace EquityEval.Filing

open DecimalArithmetic (Decimal)
open Markup (Path)
open Relational (bind_eq_ok raiseIf raiseIf_eq_ok)
open Sorting (byKey byKey_perm byKey_congr Keyed)

/-- `SelectionStatus`. -/
inductive SelectionStatus where
  | observed
  | sourceNil
  | missing
  | ambiguous
  | unsupported
deriving DecidableEq, Repr

/-- `FilingSelection`. -/
structure FilingSelection where
  status : SelectionStatus
  value : Option Decimal
  fact : Option FilingFact
  candidateLocators : List Path
  reason : String
deriving DecidableEq

/-- Values that compare equal: both are missing, or they are the same number. -/
def SameValue : Option Decimal → Option Decimal → Prop
  | none, none => True
  | some a, some b => a.value = b.value
  | _, _ => False

instance : (a b : Option Decimal) → Decidable (SameValue a b)
  | none, none => inferInstanceAs (Decidable True)
  | some a, some b => inferInstanceAs (Decidable (a.value = b.value))
  | none, some _ => inferInstanceAs (Decidable False)
  | some _, none => inferInstanceAs (Decidable False)

/-- Facts with one signature. -/
structure SameSignature (f g : FilingFact) : Prop where
  status : f.status = g.status
  value : SameValue f.value g.value
  decimals : f.decimals = g.decimals
  precision : f.precision = g.precision
  scale : f.scale = g.scale
  sign : f.sign = g.sign
  format : f.formatQname = g.formatQname

instance (f g : FilingFact) : Decidable (SameSignature f g) :=
  decidable_of_iff (f.status = g.status ∧ SameValue f.value g.value ∧ f.decimals = g.decimals ∧ f.precision = g.precision ∧
      f.scale = g.scale ∧ f.sign = g.sign ∧ f.formatQname = g.formatQname)
    ⟨fun ⟨h₁, h₂, h₃, h₄, h₅, h₆, h₇⟩ => ⟨h₁, h₂, h₃, h₄, h₅, h₆, h₇⟩, fun ⟨h₁, h₂, h₃, h₄, h₅, h₆, h₇⟩ => ⟨h₁, h₂, h₃, h₄, h₅, h₆, h₇⟩⟩

/-- What dimensions are sorted by. -/
def FilingDimension.key (d : FilingDimension) : String ×ₗ String ×ₗ String := toLex (d.axis, toLex (d.member, d.location))

/-- A fact that a selection considers. -/
def Matching (qualifiedTag contextId unitId : String) (f : FilingFact) : Prop :=
  f.qualifiedTag = qualifiedTag ∧ f.contextId = some contextId ∧ f.unitId = some unitId ∧ f.kind ∈ [.nonFraction, .fraction]

instance (qualifiedTag contextId unitId : String) (f : FilingFact) : Decidable (Matching qualifiedTag contextId unitId f) :=
  inferInstanceAs (Decidable (_ ∧ _))

/-- The context is the only one with its identifier, valid, and has the dimensions. -/
def Reviewed (contexts : List FilingContext) (dimensions : List FilingDimension) : Prop :=
  ∃ c ∈ contexts, contexts = [c] ∧ c.valid = true ∧ c.dimensions = dimensions

instance (contexts : List FilingContext) (dimensions : List FilingDimension) : Decidable (Reviewed contexts dimensions) :=
  inferInstanceAs (Decidable (∃ _ ∈ _, _))

/-- The selection among the facts that match. -/
def selectAmong (contexts : List FilingContext) (expected : List FilingDimension) : List FilingFact → FilingSelection
  | [] => ⟨.missing, none, none, [], "No exact source fact"⟩
  | first :: rest =>
    let candidates := first :: rest
    let locators := candidates.map (·.locator)
    if ¬ Reviewed contexts expected then ⟨.unsupported, none, none, locators, "Context or scope not reviewed"⟩
    else if ∃ f ∈ candidates, f.status ∉ [.observed, .sourceNil] then
      ⟨.unsupported, none, none, locators, "Matching evidence is unsupported"⟩
    -- the set of signatures has one element when all of them are that of the first
    else if ∃ f ∈ candidates, ¬ SameSignature f first then
      ⟨.ambiguous, none, none, locators, "Conflicting repeated source facts"⟩
    else
      ⟨if first.status = .sourceNil then .sourceNil else .observed, first.value, some first, locators,
        "Exact reviewed evidence; all matching repetitions retained"⟩

/-- `select_filing_fact`. -/
def selectFilingFact (extraction : FilingExtraction) (qualifiedTag contextId unitId : String)
    (expectedDimensions : List FilingDimension) : Except String FilingSelection := do
  raiseIf (qualifiedTag.toList.head? ≠ some '{' ∨ '}' ∉ qualifiedTag.toList) "Selection requires an expanded namespace-qualified tag"
  return selectAmong (extraction.contexts.filter (·.id = contextId)) (byKey FilingDimension.key expectedDimensions)
    (extraction.facts.filter fun f => Matching qualifiedTag contextId unitId f)

section

variable {f g k : FilingFact} {contexts : List FilingContext} {expected : List FilingDimension} {candidates candidates' : List FilingFact}

/-! ### Signatures -/

/-- Values compare equal to themselves, in both directions and in sequence. -/
theorem SameValue.equivalence : Equivalence SameValue where
  refl a := by cases a <;> simp [SameValue]
  symm {a b} h := by
    cases a <;> cases b <;> simp only [SameValue] at h ⊢
    exact h.symm
  trans {a b c} h h' := by
    cases a <;> cases b <;> cases c <;> simp only [SameValue] at h h' ⊢
    exact h.trans h'

/-- Signatures are compared by an equivalence. -/
theorem SameSignature.equivalence : Equivalence SameSignature where
  refl _ := ⟨rfl, SameValue.equivalence.refl _, rfl, rfl, rfl, rfl, rfl⟩
  symm h := ⟨h.status.symm, SameValue.equivalence.symm h.value, h.decimals.symm, h.precision.symm, h.scale.symm, h.sign.symm, h.format.symm⟩
  trans h h' := ⟨h.status.trans h'.status, SameValue.equivalence.trans h.value h'.value, h.decimals.trans h'.decimals,
    h.precision.trans h'.precision, h.scale.trans h'.scale, h.sign.trans h'.sign, h.format.trans h'.format⟩

/-! ### Selections -/

/-- Selections with one status whose values compare equal. -/
def SameSelection (s s' : FilingSelection) : Prop := s.status = s'.status ∧ SameValue s.value s'.value

/-- An observed selection is borne out by the context and by every fact that matches. -/
theorem selectAmong_observed (h : (selectAmong contexts expected candidates).status = .observed) :
    candidates ≠ [] ∧ Reviewed contexts expected ∧ (∀ f ∈ candidates, f.status = .observed) ∧ (∀ f ∈ candidates, ∀ g ∈ candidates, SameSignature f g) ∧
      ∀ f ∈ candidates, SameValue (selectAmong contexts expected candidates).value f.value := by
  cases candidates with
  | nil => cases h
  | cons first rest =>
    unfold selectAmong at h ⊢
    dsimp only at h ⊢
    split at h
    next => cases h
    next hreviewed =>
      split at h
      next => cases h
      next hstatus =>
        split at h
        next => cases h
        next hsame =>
          rw [if_neg hreviewed, if_neg hstatus, if_neg hsame]
          push Not at hstatus hsame
          have hobserved : first.status = .observed := by
            rcases List.mem_cons.mp (hstatus first List.mem_cons_self) with hfirst | hfirst
            · exact hfirst
            · rw [List.mem_singleton.mp hfirst, if_pos rfl] at h
              cases h
          refine ⟨List.cons_ne_nil _ _, not_not.mp hreviewed, fun f hf => (hsame f hf).status.trans hobserved, fun f hf g hg => ?_, fun f hf => ?_⟩
          · exact SameSignature.equivalence.trans (hsame f hf) (SameSignature.equivalence.symm (hsame g hg))
          · exact SameValue.equivalence.symm (hsame f hf).value

/-- The order of the facts that match does not count. -/
theorem selectAmong_perm (h : candidates.Perm candidates') :
    SameSelection (selectAmong contexts expected candidates) (selectAmong contexts expected candidates') := by
  have hrefl : ∀ s : FilingSelection, SameSelection s s := fun s => ⟨rfl, SameValue.equivalence.refl _⟩
  cases candidates with
  | nil =>
    rw [List.nil_perm.mp h]
    exact hrefl _
  | cons first rest =>
    cases candidates' with
    | nil => exact absurd (List.perm_nil.mp h) (List.cons_ne_nil _ _)
    | cons first' rest' =>
      have hstatus : (∃ f ∈ first :: rest, f.status ∉ [.observed, .sourceNil]) ↔ ∃ f ∈ first' :: rest', f.status ∉ [.observed, .sourceNil] := by
        simp only [h.mem_iff]
      have hfirst' : first' ∈ first :: rest := h.mem_iff.mpr List.mem_cons_self
      have hfirst : first ∈ first' :: rest' := h.mem_iff.mp List.mem_cons_self
      have hsame : (∃ f ∈ first :: rest, ¬ SameSignature f first) ↔ ∃ f ∈ first' :: rest', ¬ SameSignature f first' := by
        rw [← not_iff_not]
        push Not
        constructor
        · intro hall f hf
          exact SameSignature.equivalence.trans (hall f (h.mem_iff.mpr hf)) (SameSignature.equivalence.symm (hall first' hfirst'))
        · intro hall f hf
          exact SameSignature.equivalence.trans (hall f (h.mem_iff.mp hf)) (SameSignature.equivalence.symm (hall first hfirst))
      unfold selectAmong
      dsimp only
      split
      next => exact ⟨rfl, SameValue.equivalence.refl _⟩
      next =>
        by_cases hunsupported : ∃ f ∈ first :: rest, f.status ∉ [.observed, .sourceNil]
        · rw [if_pos hunsupported, if_pos (hstatus.mp hunsupported)]
          exact ⟨rfl, trivial⟩
        · rw [if_neg hunsupported, if_neg (hstatus.not.mp hunsupported)]
          by_cases hconflict : ∃ f ∈ first :: rest, ¬ SameSignature f first
          · rw [if_pos hconflict, if_pos (hsame.mp hconflict)]
            exact ⟨rfl, trivial⟩
          · rw [if_neg hconflict, if_neg (hsame.not.mp hconflict)]
            push Not at hconflict
            have hboth := hconflict first' hfirst'
            refine ⟨?_, SameValue.equivalence.symm hboth.value⟩
            simp only [hboth.status]

/-- Dimensions in another order are sorted alike. -/
theorem byKey_dimensions {dimensions dimensions' : List FilingDimension} (h : dimensions.Perm dimensions') :
    byKey FilingDimension.key dimensions = byKey FilingDimension.key dimensions' := by
  refine byKey_congr (fun a _ b _ hkey => ?_) h
  obtain ⟨axis, member, location⟩ := a
  obtain ⟨axis', member', location'⟩ := b
  have hparts := Prod.mk.inj (toLex.injective hkey)
  have hmore := Prod.mk.inj (toLex.injective hparts.2)
  have haxis : axis = axis' := hparts.1
  have hmember : member = member' := hmore.1
  have hlocation : location = location' := hmore.2
  rw [haxis, hmember, hlocation]

end

/-- An amount is the number that is written or is refused; a selection is observed only if the context is reviewed and every fact that
matches bears it out, and it depends neither on the order of the facts and of the dimensions nor on facts that do not match. -/
theorem inline_amounts :
    (∀ lexical format scale sign, (∃ code, number lexical format scale sign = .error code) ∨ ∃ d, number lexical format scale sign = .ok d ∧
      d.value = (if sign = some "-" then -1 else 1) * (writtenNumber (sourceText lexical format) * 10 ^ scale)) ∧
    (∀ extraction tag context unit dimensions s, selectFilingFact extraction tag context unit dimensions = .ok s → s.status = .observed →
      (∃ f ∈ extraction.facts, Matching tag context unit f) ∧
      (∃ c, extraction.contexts.filter (·.id = context) = [c] ∧ c.valid = true ∧ c.dimensions.Perm dimensions) ∧
      ∀ f ∈ extraction.facts, Matching tag context unit f → f.status = .observed ∧ SameValue s.value f.value ∧
        ∀ g ∈ extraction.facts, Matching tag context unit g → SameSignature f g) ∧
    ∀ (extraction extraction' : FilingExtraction) tag context unit (dimensions dimensions' : List FilingDimension),
      extraction.contexts = extraction'.contexts → dimensions.Perm dimensions' →
      (extraction.facts.filter fun f => Matching tag context unit f).Perm (extraction'.facts.filter fun f => Matching tag context unit f) →
      ∀ s, selectFilingFact extraction tag context unit dimensions = .ok s →
        ∃ s', selectFilingFact extraction' tag context unit dimensions' = .ok s' ∧ SameSelection s s' := by
  refine ⟨fun lexical format scale sign => ?_, ?_, ?_⟩
  · cases h : number lexical format scale sign with
    | error code => exact Or.inl ⟨code, rfl⟩
    | ok d => exact Or.inr ⟨d, rfl, number_eq_ok h⟩
  · intro extraction tag context unit dimensions s hselect hobserved
    simp only [selectFilingFact, bind_eq_ok] at hselect
    obtain ⟨_, -, hreturn⟩ := hselect
    cases hreturn
    obtain ⟨hne, ⟨c, -, honly, hvalid, hdimensions⟩, hstatus, hsame, hvalue⟩ := selectAmong_observed hobserved
    have hcandidate : ∀ f ∈ extraction.facts, Matching tag context unit f →
        f ∈ extraction.facts.filter fun f => Matching tag context unit f := fun f hf hmatching => List.mem_filter.mpr ⟨hf, decide_eq_true hmatching⟩
    refine ⟨?_, ⟨c, honly, hvalid, ?_⟩, fun f hf hmatching => ?_⟩
    · obtain ⟨f, hf⟩ := List.exists_mem_of_ne_nil _ hne
      obtain ⟨hf, hmatching⟩ := List.mem_filter.mp hf
      exact ⟨f, hf, of_decide_eq_true hmatching⟩
    · rw [hdimensions]
      exact byKey_perm dimensions
    · have hmem := hcandidate f hf hmatching
      exact ⟨hstatus f hmem, hvalue f hmem, fun g hg hother => hsame f hmem g (hcandidate g hg hother)⟩
  · intro extraction extraction' tag context unit dimensions dimensions' hcontexts hdimensions hfacts s hselect
    simp only [selectFilingFact, bind_eq_ok] at hselect ⊢
    obtain ⟨u, htag, hreturn⟩ := hselect
    cases hreturn
    refine ⟨_, ⟨u, htag, rfl⟩, ?_⟩
    rw [hcontexts, byKey_dimensions hdimensions]
    exact selectAmong_perm hfacts

/-- A fact with an amount of thousands. -/
def sampleFact (locator : Path) (text : String) (value : Decimal) : FilingFact where
  id := none
  kind := .nonFraction
  qualifiedTag := "\x7burn:tags\x7dRevenue"
  rawName := some "t:Revenue"
  contextId := some "year"
  unitId := some "usd"
  lexicalText := text.toList
  scale := some 3
  sign := none
  decimals := some "-3"
  precision := none
  value := some value
  status := .observed
  locator
  evidenceLocators := [locator]

/-- A filing with a fact that is repeated with another text, in a context with two dimensions. -/
def sampleExtraction (facts : List FilingFact) : FilingExtraction where
  contexts := [⟨"year", [⟨"t:Region", "t:North", "segment"⟩, ⟨"t:Segment", "t:Retail", "scenario"⟩], true⟩]
  units := [⟨"usd", true⟩]
  facts

theorem inline_amounts_sample :
    let first := sampleFact [0, 3] "1234" ⟨false, 1234, 3⟩
    let second := sampleFact [0, 7] "1234.0" ⟨false, 12340, 2⟩
    let dimensions : List FilingDimension := [⟨"t:Segment", "t:Retail", "scenario"⟩, ⟨"t:Region", "t:North", "segment"⟩]
    ∃ s s', selectFilingFact (sampleExtraction [first, second]) first.qualifiedTag "year" "usd" dimensions = .ok s ∧ s.status = .observed ∧
      SameValue s.value second.value ∧
      selectFilingFact (sampleExtraction [second, first]) first.qualifiedTag "year" "usd" dimensions.reverse = .ok s' ∧ SameSelection s s' := by
  intro first second dimensions
  have hselect : selectFilingFact (sampleExtraction [first, second]) first.qualifiedTag "year" "usd" dimensions =
      .ok ⟨.observed, first.value, some first, [[0, 3], [0, 7]], "Exact reviewed evidence; all matching repetitions retained"⟩ := by
    decide +kernel
  obtain ⟨s', hselect', hsame⟩ := inline_amounts.2.2 (sampleExtraction [first, second]) (sampleExtraction [second, first])
    first.qualifiedTag "year" "usd" dimensions dimensions.reverse rfl (List.reverse_perm _).symm (by decide +kernel) _ hselect
  exact ⟨_, s', hselect, rfl, ((inline_amounts.2.1 _ _ _ _ _ _ hselect rfl).2.2 second (by decide +kernel) (by decide +kernel)).2.1,
    hselect', hsame⟩

end EquityEval.Filing
