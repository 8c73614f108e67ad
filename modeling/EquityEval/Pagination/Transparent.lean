import EquityEval.Pagination.Fred

/-!
# Pagination is transparent

The pages of an accepted series tile its observations. What is made of the observations depends on
their list alone: on neither the order of the pages nor the places where they part. A list with two
overlapping intervals of one date is not accepted wherever it is parted.
-/

namespace EquityEval.Pagination

open Workflow DecimalArithmetic Gregorian
open Normalization (EvidenceCapture)
open Relational (orRaise orRaise_eq_ok bind_eq_ok pure_eq_ok)

/-! ### What pages say -/

/-- The observations of a page. -/
def observationsOf (lib : Library) (page : FredPage) : List Json :=
  ((responseOf lib page).toOption.bind fun data => (data.lookup "observations").bind list?).getD []

/-- The number of observations of the series that a page states. -/
def countOf (lib : Library) (page : FredPage) : Option ℕ :=
  (responseOf lib page).toOption.bind fun data => (integerOf (data.lookup "count")).toOption

/-- The pages in the order of their places. -/
def inOrder (pages : List FredPage) : List FredPage := Sorting.byKey (·.offset) pages

/-- The observations of a series. -/
def observationList (lib : Library) (pages : List FredPage) : List Json := (inOrder pages).flatMap (observationsOf lib)

/-- The places of the observations of a page. -/
def placesOf (lib : Library) (page : FredPage) : List ℤ :=
  (List.range (observationsOf lib page).length).map fun (i : ℕ) => page.offset + i

/-- The date of an observation and the interval in which the source states it. -/
def intervalOf (raw : Json) : Option (Date × (Date × Date)) := do
  let row ← object? raw
  let day ← (dateOf (row.lookup "date")).toOption
  let realtimeStart ← (dateOf (row.lookup "realtime_start")).toOption
  let realtimeEnd ← (dateOf (row.lookup "realtime_end")).toOption
  return (day, (realtimeStart, realtimeEnd))

/-- What a row says, besides where it comes from. -/
structure Content where
  referenceDate : Date
  sourceDateText : String
  value : Option Decimal
  valueState : MacroState
  originalValueText : Option String
  sourceRealtimeStart : Date
  sourceRealtimeEnd : Date
  requestedSourceAsOf : Option Date

/-- What a row says. -/
def MacroObservation.content (o : MacroObservation) : Content :=
  ⟨o.referenceDate, o.sourceDateText, o.value, o.valueState, o.originalValueText, o.sourceRealtimeStart, o.sourceRealtimeEnd,
    o.requestedSourceAsOf⟩

/-- What the row of a reading says. -/
def Reading.content (r : Reading) (asOf : Option Date) : Content :=
  ⟨r.day, r.dayText, r.value, r.state, r.text, r.realtimeStart, r.realtimeEnd, asOf⟩

/-! ### Observations one after the other -/

section

variable {lib : Library} {inputs : MarketNormalizationInput} {definition : MacroSeriesDefinition}

/-- An observation with its page, the capture of the page and its index. -/
abbrev Entry : Type := FredPage × EvidenceCapture × (Json × ℕ)

/-- Observe an entry. -/
def observeEntry (lib : Library) (inputs : MarketNormalizationInput) (definition : MacroSeriesDefinition) (s : Scan) (e : Entry) :
    Except Refusal Scan := observe lib inputs definition e.1 e.2.1 s e.2.2

/-- The intervals of one date do not overlap. -/
def Apart (intervals : List (Date × (Date × Date))) : Prop := intervals.Pairwise fun a b => a.1 = b.1 → ¬ Overlap a.2 b.2

/-- Overlap is symmetric. -/
theorem Overlap.symm {a b : Date × Date} (h : Overlap a b) : Overlap b a := ⟨h.2, h.1⟩

/-- What is seen of an entry. -/
structure Sees (asOf : Option Date) (s s' : Scan) (page : FredPage) (r : Reading) : Prop where
  intervals : s'.intervals = s.intervals ++ [(r.day, r.interval)]
  content : s'.rows.map (·.content) = s.rows.map (·.content) ++ if r.Admitted asOf then [r.content asOf] else []
  basis : ∀ row ∈ s'.rows, row ∈ s.rows ∨ row.sourceVintageBasis = basisOf page asOf
  apart : Apart s.intervals → Apart s'.intervals

/-- What an observation changes. -/
theorem observe_sees {page : FredPage} {capture : EvidenceCapture} {s s' : Scan} {entry : Json × ℕ}
    (h : observe lib inputs definition page capture s entry = .ok s') :
    ∃ r, readObservation lib definition entry.1 = .ok r ∧ Sees inputs.sourceAsOfDate s s' page r := by
  simp only [observe, bind_eq_ok, require_eq_ok] at h
  obtain ⟨r, hread, -, -, -, hapart, h⟩ := h
  refine ⟨r, hread, ?_⟩
  have hkeeps : Apart s.intervals → Apart (s.intervals ++ [(r.day, r.interval)]) := by
    intro hs
    refine List.pairwise_append.mpr ⟨hs, List.pairwise_singleton _ _, fun seen hseen new hnew hday hoverlap => ?_⟩
    rw [List.mem_singleton] at hnew
    subst hnew
    exact hapart ⟨seen, hseen, hday, hoverlap.symm⟩
  split at h
  · rename_i hadmitted
    cases h
    refine ⟨rfl, ?_, ?_, hkeeps⟩
    · rw [if_pos hadmitted, List.map_append]
      rfl
    · intro row hrow
      rcases List.mem_append.mp hrow with hold | hnew
      · exact Or.inl hold
      · rw [List.mem_singleton.mp hnew]
        exact Or.inr rfl
  · rename_i hadmitted
    cases h
    refine ⟨rfl, by rw [if_neg hadmitted, List.append_nil], fun row hrow => Or.inl hrow, hkeeps⟩

/-- What entries change one after the other. -/
theorem observe_run {entries : List Entry} {s s' : Scan} (h : entries.foldlM (observeEntry lib inputs definition) s = .ok s') :
    ∃ rs, List.Forall₂ (fun e r => readObservation lib definition e.2.2.1 = .ok r) entries rs ∧
      s'.intervals = s.intervals ++ rs.map (fun r => (r.day, r.interval)) ∧
      s'.rows.map (·.content) =
        s.rows.map (·.content) ++ (rs.filter fun r => r.Admitted inputs.sourceAsOfDate).map (·.content inputs.sourceAsOfDate) ∧
      (∀ row ∈ s'.rows, row ∈ s.rows ∨ ∃ e ∈ entries, row.sourceVintageBasis = basisOf e.1 inputs.sourceAsOfDate) ∧
      (Apart s.intervals → Apart s'.intervals) := by
  induction entries generalizing s with
  | nil =>
    cases h
    exact ⟨[], .nil, by simp, by simp, fun row hrow => Or.inl hrow, id⟩
  | cons e entries ih =>
    rw [List.foldlM_cons, bind_eq_ok] at h
    obtain ⟨next, hnext, h⟩ := h
    obtain ⟨r, hread, hsees⟩ := observe_sees hnext
    obtain ⟨rs, hrs, hintervals, hcontent, hbasis, hapart⟩ := ih h
    refine ⟨r :: rs, .cons hread hrs, ?_, ?_, ?_, fun hs => hapart (hsees.apart hs)⟩
    · rw [hintervals, hsees.intervals, List.append_assoc, List.map_cons, List.singleton_append]
    · rw [hcontent, hsees.content, List.append_assoc]
      congr 1
      by_cases hadmitted : r.Admitted inputs.sourceAsOfDate
      · rw [if_pos hadmitted, List.filter_cons_of_pos (by simpa using hadmitted), List.map_cons, List.singleton_append]
      · rw [if_neg hadmitted, List.filter_cons_of_neg (by simpa using hadmitted), List.nil_append]
    · intro row hrow
      rcases hbasis row hrow with hold | ⟨e', he', hb⟩
      · rcases hsees.basis row hold with hold | hb
        · exact Or.inl hold
        · exact Or.inr ⟨e, List.mem_cons_self, hb⟩
      · exact Or.inr ⟨e', List.mem_cons_of_mem _ he', hb⟩

/-- The date and the interval of what is read. -/
theorem intervalOf_of_read {raw : Json} {r : Reading} (h : readObservation lib definition raw = .ok r) :
    intervalOf raw = some (r.day, r.interval) := by
  simp only [readObservation, bind_eq_ok, orRaise_eq_ok] at h
  obtain ⟨row, hrow, day, hday, -, -, first, hfirst, last, hlast, h⟩ := h
  cases h
  simp only [intervalOf, hrow, Option.bind_eq_bind, Option.bind_some, Relational.toOption_eq_some.mpr hday, Relational.toOption_eq_some.mpr hfirst,
    Relational.toOption_eq_some.mpr hlast]
  rfl

/-! ### Pages one after the other -/

/-- The page fits on its own: it is one of a series with so many observations. -/
structure Fits (lib : Library) (inputs : MarketNormalizationInput) (definition : MacroSeriesDefinition) (first page : FredPage) (count : ℕ)
    (capture : EvidenceCapture) (observations : List Json) : Prop where
  captured : captureOf lib inputs page.captureId page.body ("fred_observations/" ++ definition.sourceSeriesKey) = .ok capture
  requested : RequestFits inputs definition first page
  response : ∃ data, responseOf lib page = .ok data ∧ (data.lookup "observations").bind list? = some observations ∧
    checkEnvelope page data = .ok () ∧ integerOf (data.lookup "count") = .ok count
  sized : observations.length = min page.limit (count - page.offset) ∧ page.offset ≤ count

variable {first page : FredPage} {count : ℕ} {capture : EvidenceCapture} {observations : List Json} {p p' p'' : Position}

/-- A page is opened when it fits, at the place that is expected. -/
theorem openPage_eq_ok : openPage lib inputs definition first p page = .ok (p', capture, observations) ↔
    ∃ count, Fits lib inputs definition first page count capture observations ∧ page.offset = p.expectedOffset ∧
      (∀ total ∈ p.total, count = total) ∧ p' = ⟨p.expectedOffset + observations.length, some count⟩ := by
  simp only [openPage, bind_eq_ok, orRaise_eq_ok, require_eq_ok, pure_eq_ok, Prod.mk.injEq]
  constructor
  · rintro ⟨capture', hcapture, -, ⟨hrequest, hoffset⟩, data, hdata, observations', hobservations, _, henvelope, count, hcount, -, htotal,
      -, hsized, rfl, rfl, rfl⟩
    exact ⟨count, ⟨hcapture, hrequest, ⟨data, hdata, hobservations, henvelope, hcount⟩, hsized⟩, hoffset, htotal, rfl⟩
  · rintro ⟨count, ⟨hcapture, hrequest, ⟨data, hdata, hobservations, henvelope, hcount⟩, hsized⟩, hoffset, htotal, rfl⟩
    exact ⟨capture, hcapture, (), ⟨hrequest, hoffset⟩, data, hdata, observations, hobservations, (), henvelope, count, hcount, (), htotal,
      (), hsized, rfl, rfl, rfl⟩

/-- A page that fits has the observations and the count that it states. -/
theorem Fits.states (h : Fits lib inputs definition first page count capture observations) :
    observationsOf lib page = observations ∧ countOf lib page = some count := by
  obtain ⟨data, hdata, hobservations, -, hcount⟩ := h.response
  have hresponse := Relational.toOption_eq_some.mpr hdata
  constructor
  · rw [observationsOf, hresponse, Option.bind_some, hobservations, Option.getD_some]
  · rw [countOf, hresponse, Option.bind_some, Relational.toOption_eq_some.mpr hcount]

/-- A page has no observations exactly when it starts behind the last one. -/
theorem Fits.eq_nil_iff (h : Fits lib inputs definition first page count capture observations) :
    observations = [] ↔ page.offset = count := by
  obtain ⟨hlength, hle⟩ := h.sized
  have hlimit : 0 < page.limit := h.requested.2.2.2.2.2.2.2.2.2.2.2.1
  rw [← List.length_eq_zero_iff]
  omega

/-- The entries of a page. -/
def entriesOf (page : FredPage) (capture : EvidenceCapture) (observations : List Json) : List Entry :=
  observations.zipIdx.map fun entry => (page, capture, entry)

/-- Pages are opened one after the other, with their entries. -/
inductive Opens (lib : Library) (inputs : MarketNormalizationInput) (definition : MacroSeriesDefinition) (first : FredPage) :
    Position → List FredPage → Position → List Entry → Prop
  | nil (p : Position) : Opens lib inputs definition first p [] p []
  | cons {p p' p'' : Position} {page : FredPage} {pages : List FredPage} {capture : EvidenceCapture} {observations : List Json}
      {entries : List Entry} (hpage : openPage lib inputs definition first p page = .ok (p', capture, observations))
      (hrest : Opens lib inputs definition first p' pages p'' entries) :
      Opens lib inputs definition first p (page :: pages) p'' (entriesOf page capture observations ++ entries)

/-- The outer loop opens the pages and observes their entries. -/
theorem foldlM_visitPage {pages : List FredPage} {s s' : Scan} :
    pages.foldlM (visitPage lib inputs definition first) (p, s) = .ok (p', s') ↔
      ∃ entries, Opens lib inputs definition first p pages p' entries ∧ entries.foldlM (observeEntry lib inputs definition) s = .ok s' := by
  induction pages generalizing p s with
  | nil =>
    constructor
    · intro h
      cases h
      exact ⟨[], .nil _, rfl⟩
    · rintro ⟨entries, hopens, h⟩
      cases hopens
      cases h
      rfl
  | cons page pages ih =>
    rw [List.foldlM_cons, bind_eq_ok]
    constructor
    · rintro ⟨⟨next, s₁⟩, hvisit, h⟩
      simp only [visitPage, bind_eq_ok, pure_eq_ok, Prod.mk.injEq] at hvisit
      obtain ⟨⟨_, capture, observations⟩, hopen, scan, hscan, rfl, rfl⟩ := hvisit
      obtain ⟨entries, hopens, hrest⟩ := ih.mp h
      refine ⟨_, .cons hopen hopens, ?_⟩
      rw [List.foldlM_append, entriesOf, List.foldlM_map, bind_eq_ok]
      exact ⟨_, hscan, hrest⟩
    · rintro ⟨entries, hopens, h⟩
      cases hopens with
      | cons hopen hopens =>
        rename_i next capture observations rest
        rw [List.foldlM_append, entriesOf, List.foldlM_map, bind_eq_ok] at h
        obtain ⟨scan, hscan, h⟩ := h
        refine ⟨(next, scan), ?_, ih.mpr ⟨rest, hopens, h⟩⟩
        simp only [visitPage, bind_eq_ok, pure_eq_ok, Prod.mk.injEq]
        exact ⟨_, hopen, scan, hscan, rfl, rfl⟩

/-- Pages are opened up to some place, and the others from there on. -/
theorem opens_append {l l' : List FredPage} {entries : List Entry} : Opens lib inputs definition first p (l ++ l') p'' entries ↔
    ∃ p' es es', Opens lib inputs definition first p l p' es ∧ Opens lib inputs definition first p' l' p'' es' ∧ entries = es ++ es' := by
  induction l generalizing p entries with
  | nil =>
    constructor
    · exact fun h => ⟨p, [], entries, .nil p, h, rfl⟩
    · rintro ⟨_, _, _, hnil, h, rfl⟩
      cases hnil
      exact h
  | cons page l ih =>
    constructor
    · intro h
      cases h with
      | cons hpage hrest =>
        obtain ⟨p', es, es', hl, hl', rfl⟩ := ih.mp hrest
        exact ⟨p', _, es', .cons hpage hl, hl', (List.append_assoc _ _ _).symm⟩
    · rintro ⟨p', _, es', hl, hl', rfl⟩
      cases hl with
      | cons hpage hrest =>
        rw [List.append_assoc]
        exact .cons hpage (ih.mpr ⟨p', _, es', hrest, hl', rfl⟩)

/-- Opened pages state the final count, and they fit on their own. -/
theorem Opens.fits {l : List FredPage} {entries : List Entry} (h : Opens lib inputs definition first p l p' entries) :
    (∀ total ∈ p.total, p'.total = some total) ∧
      ∀ page ∈ l, ∃ count capture observations, p'.total = some count ∧
        Fits lib inputs definition first page count capture observations := by
  induction h with
  | nil p => exact ⟨fun total htotal => htotal, by simp⟩
  | cons hpage _ ih =>
    obtain ⟨count, hfits, -, htotal, rfl⟩ := openPage_eq_ok.mp hpage
    have hcount := ih.1 count rfl
    refine ⟨fun total hmem => by rw [hcount, htotal total hmem], fun page hpage => ?_⟩
    rcases List.mem_cons.mp hpage with rfl | hrest
    · exact ⟨count, _, _, hcount, hfits⟩
    · exact ih.2 page hrest

/-- The places of opened pages are those between the expected ones. -/
theorem Opens.places {l : List FredPage} {entries : List Entry} (h : Opens lib inputs definition first p l p' entries) :
    p.expectedOffset ≤ p'.expectedOffset ∧ l.flatMap (placesOf lib) =
      (List.range (p'.expectedOffset - p.expectedOffset)).map fun (i : ℕ) => (p.expectedOffset : ℤ) + i := by
  induction h with
  | nil p => simp
  | cons hpage _ ih =>
    obtain ⟨count, hfits, hoffset, -, rfl⟩ := openPage_eq_ok.mp hpage
    obtain ⟨hle, hplaces⟩ := ih
    simp only at hle hplaces
    refine ⟨by omega, ?_⟩
    rw [List.flatMap_cons, hplaces, placesOf, hfits.states.1, hoffset]
    obtain ⟨n, hn⟩ := Nat.exists_eq_add_of_le hle
    rw [hn, Nat.add_sub_cancel_left, Nat.add_assoc, Nat.add_sub_cancel_left, List.range_add, List.map_append, List.map_map]
    congr 1
    refine List.map_congr_left fun i _ => ?_
    simp only [Function.comp_apply]
    push_cast
    ring

/-- The entries of opened pages have their observations, in order. -/
theorem Opens.raws {l : List FredPage} {entries : List Entry} (h : Opens lib inputs definition first p l p' entries) :
    entries.map (fun e => e.2.2.1) = l.flatMap (observationsOf lib) ∧ ∀ e ∈ entries, e.1 ∈ l := by
  induction h with
  | nil p => simp
  | cons hpage _ ih =>
    obtain ⟨count, hfits, -, -, rfl⟩ := openPage_eq_ok.mp hpage
    constructor
    · rw [List.map_append, ih.1, List.flatMap_cons, hfits.states.1, entriesOf, List.map_map]
      congr 1
      exact List.zipIdx_map_fst 0 _
    · intro e he
      rcases List.mem_append.mp he with hnew | hold
      · obtain ⟨_, -, rfl⟩ := List.mem_map.mp hnew
        exact List.mem_cons_self
      · exact List.mem_cons_of_mem _ (ih.2 e hold)

/-- Pages behind the last observation are opened without entries. -/
theorem opens_behind {l : List FredPage} (hne : l ≠ [] ∨ p.total = some p.expectedOffset)
    (htotal : ∀ total ∈ p.total, total = p.expectedOffset)
    (hl : ∀ page ∈ l, page.offset = p.expectedOffset ∧ ∃ capture observations,
      Fits lib inputs definition first page p.expectedOffset capture observations) :
    Opens lib inputs definition first p l ⟨p.expectedOffset, some p.expectedOffset⟩ [] := by
  induction l generalizing p with
  | nil =>
    have hp : p = ⟨p.expectedOffset, some p.expectedOffset⟩ := by
      cases p
      simpa using hne
    rw [← hp]
    exact .nil p
  | cons page l ih =>
    obtain ⟨hoffset, capture, observations, hfits⟩ := hl page List.mem_cons_self
    obtain rfl := hfits.eq_nil_iff.mpr hoffset
    have hpage : openPage lib inputs definition first p page =
        .ok (⟨p.expectedOffset, some p.expectedOffset⟩, capture, []) :=
      openPage_eq_ok.mpr ⟨_, hfits, hoffset, fun total hmem => (htotal total hmem).symm, rfl⟩
    have hrest := ih (p := ⟨p.expectedOffset, some p.expectedOffset⟩) (Or.inr rfl) (fun total hmem => (Option.some.inj hmem).symm)
      fun q hq => hl q (List.mem_cons_of_mem _ hq)
    simpa [entriesOf] using Opens.cons hpage hrest

/-! ### The order of the pages -/

/-- A list in the order of a key parts at each value of it. -/
theorem eq_filter_append {α : Type} {key : α → ℤ} {l : List α} (h : l.Pairwise fun a b => key a ≤ key b) (n : ℤ) :
    l = (l.filter fun a => key a < n) ++ l.filter fun a => ¬ key a < n := by
  induction l with
  | nil => rfl
  | cons a l ih =>
    obtain ⟨hfirst, hrest⟩ := List.pairwise_cons.mp h
    by_cases ha : key a < n
    · rw [List.filter_cons_of_pos (by simpa using ha), List.filter_cons_of_neg (by simpa using ha), List.cons_append, ← ih hrest]
    · have hbehind : l.filter (fun b => key b < n) = [] := by
        refine List.filter_eq_nil_iff.mpr fun b hb => ?_
        have := hfirst b hb
        simp only [decide_eq_true_eq]
        omega
      have hall : l.filter (fun b => ¬ key b < n) = l := by
        refine List.filter_eq_self.mpr fun b hb => ?_
        have := hfirst b hb
        simp only [decide_eq_true_eq]
        omega
      rw [List.filter_cons_of_neg (by simpa using ha), List.filter_cons_of_pos (by simpa using ha), hbehind, hall, List.nil_append]

/-- Opened pages start where one is expected or behind. -/
theorem Opens.le_offset {l : List FredPage} {entries : List Entry} (h : Opens lib inputs definition first p l p' entries) :
    ∀ page ∈ l, (p.expectedOffset : ℤ) ≤ page.offset := by
  induction h with
  | nil p => simp
  | cons hpage _ ih =>
    obtain ⟨count, -, hoffset, -, rfl⟩ := openPage_eq_ok.mp hpage
    intro page hmem
    rcases List.mem_cons.mp hmem with rfl | hrest
    · exact hoffset.ge
    · have := ih page hrest
      push_cast at this
      omega

/-- Opened pages with observations start at different places. -/
theorem Opens.increasing {l : List FredPage} {entries : List Entry} (h : Opens lib inputs definition first p l p' entries)
    (hfilled : ∀ page ∈ l, observationsOf lib page ≠ []) : l.Pairwise fun a b => a.offset < b.offset := by
  induction h with
  | nil p => exact .nil
  | cons hpage hrest ih =>
    obtain ⟨count, hfits, hoffset, -, rfl⟩ := openPage_eq_ok.mp hpage
    rw [List.forall_mem_cons] at hfilled
    have hpos := List.length_pos_of_ne_nil (hfits.states.1 ▸ hfilled.1)
    refine List.pairwise_cons.mpr ⟨fun page hmem => ?_, ih hfilled.2⟩
    have := hrest.le_offset page hmem
    push_cast at this
    omega

/-- Pages that are in the order of their places, too, are opened with the same entries. -/
theorem Opens.perm {l l' : List FredPage} {entries : List Entry} (h : Opens lib inputs definition first p l p' entries)
    (hsorted : l.Pairwise fun a b => a.offset ≤ b.offset) (hsorted' : l'.Pairwise fun a b => a.offset ≤ b.offset)
    (hperm : l.Perm l') (hfinal : p'.total = some p'.expectedOffset) : Opens lib inputs definition first p l' p' entries := by
  have hfits : ∀ page ∈ l, ∃ capture observations, Fits lib inputs definition first page p'.expectedOffset capture observations := by
    intro page hpage
    obtain ⟨count, capture, observations, hcount, hfits⟩ := h.fits.2 page hpage
    obtain rfl := Option.some.inj (hcount.symm.trans hfinal)
    exact ⟨capture, observations, hfits⟩
  -- the pages with observations, and those behind the last one
  rw [eq_filter_append hsorted p'.expectedOffset] at h
  rw [eq_filter_append hsorted' p'.expectedOffset]
  obtain ⟨q, es, es', hfilled, hbehind, rfl⟩ := opens_append.mp h
  have hsame : (l.filter fun page : FredPage => page.offset < (p'.expectedOffset : ℤ)) = l'.filter fun page : FredPage => page.offset < (p'.expectedOffset : ℤ) := by
    have hincreasing := hfilled.increasing fun page hpage => by
      obtain ⟨hmem, hlt⟩ := List.mem_filter.mp hpage
      obtain ⟨capture, observations, hpage⟩ := hfits page hmem
      rw [hpage.states.1, ne_eq, hpage.eq_nil_iff]
      exact (of_decide_eq_true hlt).ne
    have hnodup : ((l.filter fun page : FredPage => page.offset < (p'.expectedOffset : ℤ)).map (·.offset)).Nodup :=
      List.pairwise_map.mpr (hincreasing.imp ne_of_lt)
    refine List.Perm.eq_of_pairwise (fun a b ha hb hab hba => ?_) (hincreasing.imp le_of_lt) (hsorted'.filter _) (hperm.filter _)
    exact List.inj_on_of_nodup_map hnodup ha ((hperm.filter _).mem_iff.mpr hb) (le_antisymm hab hba)
  refine opens_append.mpr ⟨q, es, es', hsame ▸ hfilled, ?_, rfl⟩
  have hothers := hperm.filter fun page : FredPage => decide (¬ page.offset < (p'.expectedOffset : ℤ))
  have hlast : ∀ page ∈ l, ¬ page.offset < p'.expectedOffset → page.offset = p'.expectedOffset := by
    intro page hmem hge
    obtain ⟨capture, observations, hpage⟩ := hfits page hmem
    have := hpage.sized.2
    omega
  cases hb : l.filter fun page : FredPage => ¬ page.offset < (p'.expectedOffset : ℤ) with
  | nil =>
    rw [hb] at hbehind hothers
    rw [← hothers.nil_eq]
    exact hbehind
  | cons page rest =>
    have hmem : ∀ q ∈ l.filter fun page : FredPage => ¬ page.offset < (p'.expectedOffset : ℤ), q ∈ l ∧ q.offset = p'.expectedOffset := by
      intro q hq
      obtain ⟨hq, hge⟩ := List.mem_filter.mp hq
      exact ⟨hq, hlast q hq (of_decide_eq_true hge)⟩
    have hempty : es' = [] := by
      rw [← List.map_eq_nil_iff (f := fun e : Entry => e.2.2.1), hbehind.raws.1, List.flatMap_eq_nil_iff]
      intro q hq
      obtain ⟨capture, observations, hpage⟩ := hfits q (hmem q hq).1
      rw [hpage.states.1, hpage.eq_nil_iff]
      exact (hmem q hq).2
    have hplace : q.expectedOffset = p'.expectedOffset := by
      have hpage := (hmem page (hb ▸ List.mem_cons_self)).2
      have hopen := hbehind
      rw [hb] at hopen
      cases hopen with
      | cons hopen _ =>
        obtain ⟨_, -, hoffset, -⟩ := openPage_eq_ok.mp hopen
        omega
    have hp' : p' = ⟨q.expectedOffset, some q.expectedOffset⟩ := by
      cases p'
      simp_all
    have htotal : ∀ total ∈ q.total, total = q.expectedOffset := fun total htotal =>
      Option.some.inj ((hbehind.fits.1 total htotal).symm.trans (hfinal.trans (congrArg some hplace.symm)))
    have hne : (l'.filter fun page : FredPage => ¬ page.offset < (p'.expectedOffset : ℤ)) ≠ [] := fun hnil => by
      rw [hnil, hb] at hothers
      cases hothers.eq_nil
    subst hempty
    rw [hp'] at hne ⊢
    refine opens_behind (Or.inl hne) htotal fun r hr => ?_
    have hr' : r ∈ l.filter fun page : FredPage => ¬ page.offset < (p'.expectedOffset : ℤ) := hothers.mem_iff.mpr (by rw [hp']; exact hr)
    rw [hplace]
    exact ⟨(hmem r hr').2, hfits r (hmem r hr').1⟩

/-- The first page matters for its real-time interval only. -/
theorem Opens.of_first {first' : FredPage} {l : List FredPage} {entries : List Entry}
    (h : Opens lib inputs definition first p l p' entries)
    (hrealtime : first'.realtimeStart = first.realtimeStart ∧ first'.realtimeEnd = first.realtimeEnd) :
    Opens lib inputs definition first' p l p' entries := by
  induction h with
  | nil p => exact .nil p
  | cons hpage _ ih =>
    obtain ⟨count, hfits, hplace⟩ := openPage_eq_ok.mp hpage
    refine .cons (openPage_eq_ok.mpr ⟨count, { hfits with requested := ?_ }, hplace⟩) ih
    have hrequested := hfits.requested
    rw [RequestFits] at hrequested ⊢
    rw [hrealtime.1, hrealtime.2]
    exact hrequested

/-! ### Readings -/

/-- What is read of observations. -/
abbrev Reads (lib : Library) (definition : MacroSeriesDefinition) : List Json → List Reading → Prop :=
  List.Forall₂ fun raw r => readObservation lib definition raw = .ok r

/-- What is read of an observation does not depend on the definition that it is checked against. -/
theorem readObservation_unique {definition' : MacroSeriesDefinition} {raw : Json} {r r' : Reading}
    (h : readObservation lib definition raw = .ok r) (h' : readObservation lib definition' raw = .ok r') : r = r' := by
  simp only [readObservation, bind_eq_ok, orRaise_eq_ok, pure_eq_ok] at h h'
  obtain ⟨row, hrow, day, hday, -, -, begins, hbegins, ends, hends, rfl⟩ := h
  obtain ⟨row', hrow', day', hday', -, -, begins', hbegins', ends', hends', rfl⟩ := h'
  obtain rfl := Option.some.inj (hrow.symm.trans hrow')
  obtain rfl := Except.ok.inj (hday.symm.trans hday')
  obtain rfl := Except.ok.inj (hbegins.symm.trans hbegins')
  obtain rfl := Except.ok.inj (hends.symm.trans hends')
  rfl

/-- What is read of observations does not depend on the definition that they are checked against. -/
theorem Reads.unique {definition' : MacroSeriesDefinition} {raws : List Json} {rs rs' : List Reading}
    (h : Reads lib definition raws rs) (h' : Reads lib definition' raws rs') : rs = rs' := by
  induction h generalizing rs' with
  | nil =>
    cases h'
    rfl
  | cons hr _ ih => cases h' with
    | cons hr' hrest => rw [readObservation_unique hr hr', ih hrest]

/-- The dates and intervals of what is read. -/
theorem Reads.intervals {raws : List Json} {rs : List Reading} (h : Reads lib definition raws rs) :
    raws.filterMap intervalOf = rs.map fun r => (r.day, r.interval) := by
  induction h with
  | nil => rfl
  | cons hr _ ih => rw [List.filterMap_cons_some (intervalOf_of_read hr), ih, List.map_cons]

end

/-! ### Accepted series -/

/-- Two observations of one date whose intervals overlap. -/
def Conflict (a b : Json) : Prop :=
  ∃ x y, intervalOf a = some x ∧ intervalOf b = some y ∧ x.1 = y.1 ∧ Overlap x.2 y.2

section

variable {lib : Library} {inputs : MarketNormalizationInput} {pages : List FredPage} {bundle : MarketNormalizationBundle}

/-- How a series was accepted. -/
structure Accepted (lib : Library) (inputs : MarketNormalizationInput) (pages : List FredPage) (definition : MacroSeriesDefinition)
    (first : FredPage) (position : Position) (entries : List Entry) (scan : Scan) : Prop where
  valid : validate inputs = .ok ()
  defined : definitionOf inputs = .ok definition
  distinct : pages ≠ [] ∧ (pages.map (·.captureId)).Nodup
  pinned : CapturesMatch pages inputs
  head : (inOrder pages).head? = some first
  realtime : first.realtimeStart ≤ first.realtimeEnd
  covered : ∀ day ∈ inputs.sourceAsOfDate, first.realtimeStart ≤ day ∧ day ≤ first.realtimeEnd
  opened : Opens lib inputs definition first {} (inOrder pages) position entries
  scanned : entries.foldlM (observeEntry lib inputs definition) {} = .ok scan
  total : position.total = some position.expectedOffset

/-- A series is normalized exactly when it is accepted. -/
theorem normalizeFred_eq_ok : normalizeFred lib pages inputs = .ok bundle ↔
    ∃ definition first position entries scan, Accepted lib inputs pages definition first position entries scan ∧
      bundle = bundleOf lib inputs scan := by
  simp only [normalizeFred, bind_eq_ok, orRaise_eq_ok, require_eq_ok, pure_eq_ok]
  constructor
  · rintro ⟨_, hvalid, definition, hdefinition, -, hdistinct, -, hpinned, first, hfirst, -, hrealtime, -, hcovered, ⟨position, scan⟩, hfold, -,
      htotal, rfl⟩
    obtain ⟨entries, hopened, hscanned⟩ := foldlM_visitPage.mp hfold
    exact ⟨definition, first, position, entries, scan,
      ⟨hvalid, hdefinition, hdistinct, hpinned, hfirst, hrealtime, hcovered, hopened, hscanned, htotal⟩, rfl⟩
  · rintro ⟨definition, first, position, entries, scan, h, rfl⟩
    exact ⟨(), h.valid, definition, h.defined, (), h.distinct, (), h.pinned, first, h.head, (), h.realtime, (), h.covered, (position, scan),
      foldlM_visitPage.mpr ⟨entries, h.opened, h.scanned⟩, (), h.total, rfl⟩

variable {definition : MacroSeriesDefinition} {first : FredPage} {position : Position} {entries : List Entry} {scan : Scan}

/-- The pages of an accepted series fit with the count that they all state. -/
theorem Accepted.fits (h : Accepted lib inputs pages definition first position entries scan) {page : FredPage} (hpage : page ∈ pages) :
    ∃ capture observations, Fits lib inputs definition first page position.expectedOffset capture observations := by
  obtain ⟨count, capture, observations, hcount, hfits⟩ := h.opened.fits.2 page (Sorting.mem_byKey.mpr hpage)
  obtain rfl := Option.some.inj (hcount.symm.trans h.total)
  exact ⟨capture, observations, hfits⟩

/-- Accepted pages are accepted in another order. -/
theorem Accepted.perm (h : Accepted lib inputs pages definition first position entries scan) {pages' : List FredPage}
    (hperm : pages.Perm pages') : ∃ first', Accepted lib inputs pages' definition first' position entries scan := by
  have hordered : (inOrder pages).Perm (inOrder pages') :=
    (Sorting.byKey_perm pages).trans (hperm.trans (Sorting.byKey_perm pages').symm)
  obtain ⟨first', hfirst'⟩ : ∃ first', (inOrder pages').head? = some first' := by
    cases hpages' : inOrder pages' with
    | nil =>
      rw [hpages'] at hordered
      have hhead := h.head
      rw [hordered.eq_nil] at hhead
      cases hhead
    | cons first' rest => exact ⟨first', rfl⟩
  have hmem : first' ∈ pages :=
    hperm.mem_iff.mpr (Sorting.mem_byKey.mp (List.mem_of_mem_head? (Option.mem_def.mpr hfirst')))
  obtain ⟨capture, observations, hfits⟩ := h.fits hmem
  have hrealtime : first'.realtimeStart = first.realtimeStart ∧ first'.realtimeEnd = first.realtimeEnd :=
    ⟨hfits.requested.2.2.2.2.2.2.2.2.2.1, hfits.requested.2.2.2.2.2.2.2.2.2.2.1⟩
  refine ⟨first', ⟨h.valid, h.defined, ⟨fun hnil => h.distinct.1 (hnil ▸ hperm).eq_nil, (hperm.map _).nodup_iff.mp h.distinct.2⟩, ?_,
    hfirst', ?_, ?_, ?_, h.scanned, h.total⟩⟩
  · refine ⟨fun c hc hrole => ((hperm.map _).mem_iff).mp (h.pinned.1 c hc hrole), fun page hpage => ?_⟩
    exact h.pinned.2 page (hperm.mem_iff.mpr hpage)
  · rw [hrealtime.1, hrealtime.2]
    exact h.realtime
  · rw [hrealtime.1, hrealtime.2]
    exact h.covered
  · exact (h.opened.perm (Sorting.byKey_pairwise pages) (Sorting.byKey_pairwise pages') hordered h.total).of_first hrealtime

/-- What is read of an accepted series, and what is made of it. -/
theorem Accepted.readings (h : Accepted lib inputs pages definition first position entries scan) :
    ∃ rs, Reads lib definition (observationList lib pages) rs ∧ Apart (rs.map fun r => (r.day, r.interval)) ∧
      scan.rows.map (·.content) =
        (rs.filter fun r => r.Admitted inputs.sourceAsOfDate).map (·.content inputs.sourceAsOfDate) ∧
      ∀ row ∈ scan.rows, ∃ page ∈ pages, row.sourceVintageBasis = basisOf page inputs.sourceAsOfDate := by
  obtain ⟨rs, hreads, hintervals, hcontent, hbasis, hapart⟩ := observe_run h.scanned
  obtain ⟨hraws, hpages⟩ := h.opened.raws
  refine ⟨rs, ?_, ?_, hcontent, fun row hrow => ?_⟩
  · rw [observationList, ← hraws, Reads, List.forall₂_map_left_iff]
    exact hreads
  · have := hapart .nil
    rwa [hintervals] at this
  · rcases hbasis row hrow with hnone | ⟨e, he, hb⟩
    · cases hnone
    · exact ⟨e.1, Sorting.mem_byKey.mp (hpages e he), hb⟩

/-- The pages of an accepted series tile its observations. What is made of them depends on neither the order of the pages nor the
places where they part. There is at most one row for each date in a vintage, and no two intervals of one date overlap. -/
theorem fred_transparent (h : normalizeFred lib pages inputs = .ok bundle) :
    (∃ count : ℕ, (∀ page ∈ pages, countOf lib page = some count) ∧
      (inOrder pages).flatMap (placesOf lib) = (List.range count).map fun (i : ℕ) => (i : ℤ)) ∧
    (∀ pages', pages.Perm pages' → normalizeFred lib pages' inputs = .ok bundle) ∧
    (∀ pages' inputs' bundle', normalizeFred lib pages' inputs' = .ok bundle' → inputs'.sourceAsOfDate = inputs.sourceAsOfDate →
      observationList lib pages' = observationList lib pages →
      bundle'.macros.map (·.content) = bundle.macros.map (·.content) ∧
        ((∀ page ∈ pages, ∀ page' ∈ pages', page'.realtimeStart = page.realtimeStart ∧ page'.realtimeEnd = page.realtimeEnd) →
          bundle'.macros.map (·.sourceVintageBasis) = bundle.macros.map (·.sourceVintageBasis))) ∧
    (∀ day, inputs.sourceAsOfDate = some day → (bundle.macros.map (·.referenceDate)).Nodup ∧
      bundle.macros.map (fun o => (o.referenceDate, (o.sourceRealtimeStart, o.sourceRealtimeEnd))) =
        ((observationList lib pages).filterMap intervalOf).filter fun e => e.2.1 ≤ day ∧ day ≤ e.2.2) ∧
    (observationList lib pages).Pairwise fun a b => ¬ Conflict a b := by
  obtain ⟨definition, first, position, entries, scan, haccepted, rfl⟩ := normalizeFred_eq_ok.mp h
  obtain ⟨rs, hreads, hapart, hcontent, hbasis⟩ := haccepted.readings
  refine ⟨⟨position.expectedOffset, fun page hpage => ?_, ?_⟩, fun pages' hperm => ?_, ?_, ?_, ?_⟩
  · obtain ⟨capture, observations, hfits⟩ := haccepted.fits hpage
    exact hfits.states.2
  · rw [haccepted.opened.places.2]
    simp
  · obtain ⟨first', haccepted'⟩ := haccepted.perm hperm
    exact normalizeFred_eq_ok.mpr ⟨definition, first', position, entries, scan, haccepted', rfl⟩
  · intro pages' inputs' bundle' h' hasOf hlist
    obtain ⟨definition', first', position', entries', scan', haccepted', rfl⟩ := normalizeFred_eq_ok.mp h'
    obtain ⟨rs', hreads', -, hcontent', hbasis'⟩ := haccepted'.readings
    rw [hlist] at hreads'
    rw [hasOf, hreads'.unique hreads, ← hcontent] at hcontent'
    refine ⟨hcontent', fun hrealtime => ?_⟩
    have hlength : scan'.rows.length = scan.rows.length := by simpa using congrArg List.length hcontent'
    have hsame : ∀ page ∈ pages, ∀ page' ∈ pages', basisOf page' inputs'.sourceAsOfDate = basisOf page inputs.sourceAsOfDate := by
      intro page hpage page' hpage'
      unfold basisOf
      rw [(hrealtime page hpage page' hpage').1, (hrealtime page hpage page' hpage').2, hasOf]
    refine List.ext_getElem (by simpa [bundleOf] using hlength) fun i hi hi' => ?_
    rw [List.getElem_map, List.getElem_map]
    obtain ⟨page, hpage, hrow⟩ := hbasis _ (List.getElem_mem (by simpa [bundleOf] using hi'))
    obtain ⟨page', hpage', hrow'⟩ := hbasis' _ (List.getElem_mem (by simpa [bundleOf] using hi))
    exact hrow'.trans ((hsame page hpage page' hpage').trans hrow.symm)
  · intro day hday
    have hrows : scan.rows.map (fun o => (o.referenceDate, (o.sourceRealtimeStart, o.sourceRealtimeEnd))) =
        (rs.map fun r => (r.day, r.interval)).filter fun e => e.2.1 ≤ day ∧ day ≤ e.2.2 := by
      have hmap := congrArg (List.map fun c : Content => (c.referenceDate, (c.sourceRealtimeStart, c.sourceRealtimeEnd))) hcontent
      rw [List.map_map, List.map_map] at hmap
      rw [List.filter_map]
      refine hmap.trans (congrArg _ (List.filter_congr fun r _ => ?_))
      simp [Reading.Admitted, hday, Reading.interval]
    refine ⟨?_, by rw [hreads.intervals]; exact hrows⟩
    have hpairs := (hapart.filter fun e => decide (e.2.1 ≤ day ∧ day ≤ e.2.2)).imp_of_mem (S := fun a b => a.1 ≠ b.1)
      fun {a b} ha hb hab heq => by
        have ha := of_decide_eq_true (List.mem_filter.mp ha).2
        have hb := of_decide_eq_true (List.mem_filter.mp hb).2
        exact hab heq ⟨ha.1.trans hb.2, hb.1.trans ha.2⟩
    rw [← hrows, List.pairwise_map] at hpairs
    exact List.pairwise_map.mpr hpairs
  · have hpairs : ((observationList lib pages).filterMap intervalOf).Pairwise fun a b => a.1 = b.1 → ¬ Overlap a.2 b.2 := by
      rw [hreads.intervals]
      exact hapart
    refine (List.pairwise_filterMap.mp hpairs).imp fun {a b} hab hconflict => ?_
    obtain ⟨x, y, hx, hy, hday, hoverlap⟩ := hconflict
    exact hab x hx y hy hday hoverlap

end

/-! ### Three observations on two pages -/

/-- A monthly index. -/
def sampleDefinition : MacroSeriesDefinition where
  id := 1
  sourceId := 1
  sourceSeriesKey := "INDEX"
  metadataCaptureId := 1
  sourceLocator := "series"
  contentSha256 := String.ofList (List.replicate 64 'a')
  definitionRevision := "r"
  title := "index"
  unitsText := "index"
  unitCode := "index"
  unitMultiplier := .finite (.ofInt 1)
  frequency := "monthly"
  seasonalAdjustment := "adjusted"
  geography := "here"
  referenceDateConvention := "period_start"
  upstreamSourceName := "source"
  upstreamRightsReference := "rights"
  sourceReleaseKey := none
  definitionAsOfDate := none
  definitionAsOfBasis := "capture_only"

/-- A capture of a body of one byte. -/
def sampleCapture (id : Uuid) (key role : String) : EvidenceCapture :=
  ⟨id, 1, key, "", String.ofList (List.replicate 64 'a'), 1, 0, 0, role⟩

/-- The series is asked for from January to March. -/
def sampleInputs : MarketNormalizationInput where
  sourceId := 1
  policyRevisionId := 1
  requestedStart := ⟨2024, 1, 1, Date.inYears_2024, Date.inMonths_1, Date.inDays_2024_1_1⟩
  requestedEnd := ⟨2024, 3, 1, Date.inYears_2024, Date.inMonths_3, by decide⟩
  captures := [sampleCapture 1 "series" "series_definition", sampleCapture 2 "fred_observations/INDEX" "observations",
    sampleCapture 3 "fred_observations/INDEX" "observations"]
  parserRevision := "p"
  normalizerRevision := "n"
  selectionPolicyRevision := "s"
  seriesDefinition := some sampleDefinition
  hasQuoteBinding := false
  hasQuoteContext := false
  retrievalCutoff := none
  sourceAsOfDate := none
  treasuryMonth := none
  allowLegacyTreasuryNull := false
  attemptIds := []

/-- An observation that the source states in May. -/
def sampleObservation (day value : String) : Json :=
  .object [("date", .scalar (.text day)), ("realtime_start", .scalar (.text "2024-05-01")),
    ("realtime_end", .scalar (.text "2024-05-31")), ("value", .scalar (.text value))]

/-- A response of at most two of three observations. -/
def sampleResponse (offset : String) (observations : List Json) : Json :=
  .object [("units", .scalar (.text "lin")), ("output_type", .scalar (.token "1")), ("order_by", .scalar (.text "observation_date")),
    ("sort_order", .scalar (.text "asc")), ("file_type", .scalar (.text "json")), ("observation_start", .scalar (.text "2024-01-01")),
    ("observation_end", .scalar (.text "2024-03-01")), ("realtime_start", .scalar (.text "2024-05-01")),
    ("realtime_end", .scalar (.text "2024-05-31")), ("offset", .scalar (.token offset)), ("limit", .scalar (.token "2")),
    ("count", .scalar (.token "3")), ("observations", .array observations)]

/-- The first byte of a body tells the pages apart. -/
def sampleLibrary : Library where
  loads body :=
    if body = [0] then some (sampleResponse "0" [sampleObservation "2024-01-01" "1.5", sampleObservation "2024-02-01" "."])
    else some (sampleResponse "2" [sampleObservation "2024-03-01" "2"])
  sha256 _ := String.ofList (List.replicate 64 'a')
  dumps _ := ""
  inputHash _ := "input"
  outputHash _ _ _ _ := "output"
  evidenceId _ := 1

/-- A page of at most two observations. -/
def samplePage (captureId : Uuid) (body : List UInt8) (offset : ℤ) : FredPage where
  captureId := captureId
  body := body
  seriesId := "INDEX"
  observationStart := ⟨2024, 1, 1, Date.inYears_2024, Date.inMonths_1, Date.inDays_2024_1_1⟩
  observationEnd := ⟨2024, 3, 1, Date.inYears_2024, Date.inMonths_3, by decide⟩
  realtimeStart := ⟨2024, 5, 1, Date.inYears_2024, by decide, by decide⟩
  realtimeEnd := ⟨2024, 5, 31, Date.inYears_2024, by decide, by decide⟩
  offset := offset
  limit := 2

/-- The second page comes first. -/
theorem fred_transparent_sample : ∃ bundle,
    normalizeFred sampleLibrary [samplePage 3 [1] 2, samplePage 2 [0] 0] sampleInputs = .ok bundle ∧
      normalizeFred sampleLibrary [samplePage 2 [0] 0, samplePage 3 [1] 2] sampleInputs = .ok bundle := by
  have hok : (normalizeFred sampleLibrary [samplePage 3 [1] 2, samplePage 2 [0] 0] sampleInputs).isOk = true := by decide +kernel
  cases h : normalizeFred sampleLibrary [samplePage 3 [1] 2, samplePage 2 [0] 0] sampleInputs with
  | error e =>
    rw [h] at hok
    cases hok
  | ok bundle => exact ⟨bundle, rfl, (fred_transparent h).2.1 _ (List.Perm.swap _ _ _)⟩

end EquityEval.Pagination
