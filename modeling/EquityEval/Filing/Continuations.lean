import EquityEval.Filing.Facts
import Mathlib.Data.List.Perm.Subperm

/-!
# Continuations

The walk along the references of an element ends, and what it leads through are elements that are apart from
one another. Two facts whose walks meet have met before, at a reference that is empty: any other reference
that two elements have is not followed.
-/

namespace EquityEval.Filing

open Markup (Content Leaf Path)
open Relational (bind_eq_ok raiseIf_eq_ok)

/-- What an element is found by. -/
def identifier (node : Node) : String := (get node "id").getD ""

/-- Elements that are different, and neither is inside of the other. -/
def Apart (a b : Node) : Prop := ¬ a.path <+: b.path ∧ ¬ b.path <+: a.path

/-- One element goes on with another, by a reference that may be followed. -/
def Continues (ids : List Node) (invalid : List String) (a b : Node) : Prop :=
  ∃ reference, get a "continuedAt" = some reference ∧ reference ∉ invalid ∧ designated ids reference = some b ∧
    b.label.tag = ix "continuation"

/-- An element goes on with others, one after the other to the end of the references, and they are all apart. -/
structure Continued (ids : List Node) (invalid : List String) (node : Node) (rest : List Node) : Prop where
  linked : (node :: rest).IsChain (Continues ids invalid)
  ends : ∀ last ∈ (node :: rest).getLast?, get last "continuedAt" = none
  apart : (node :: rest).Pairwise Apart

/-- An element has an empty reference. -/
def FollowsEmpty (node : Node) : Prop := get node "continuedAt" = some ""

/-- The text of a fact is read: its own checks pass, it is not nil, and it goes on with others. -/
structure Readable (index : Index) (node : Node) (rest : List Node) : Prop where
  named : (qname node (get node "name")).isOk = true
  placed : checkPlace index node = .ok ()
  unformatted : formatOf node = .ok none
  present : nilOf index node = .ok false
  unescaped : get node "escape" ∈ [none, some "false", some "0"]
  continued : Continued index.ids (index.duplicateIds ++ index.invalidContinuations) node rest

/-- The texts of an element that are not excluded inside of it. -/
def keptTexts (node : Node) : List (Leaf Label) := (node.inner.leaves node.path [] 0).filter (·.kept isExcluded)

/-- Facts are read from the document. -/
def Document.IsRead (document : Document) : Prop := document.hasDoctype = false ∧ document.label.tag = xhtml "html"

/-- An element of the document is a fact whose text is read. -/
structure HasText (readers : Readers) (document : Document) (node : Node) (rest : List Node) : Prop where
  mem : node ∈ document.nodes
  tag : node.label.tag = ix "nonNumeric"
  readable : Readable (document.index readers) node rest

/-- Every walk ends, the text of a fact is made of texts that are all different, and facts share none. -/
structure UsedOnce (readers : Readers) (document : Document) : Prop where
  ends : ∀ node, (chain (document.index readers).ids ((document.index readers).duplicateIds ++
    (document.index readers).invalidContinuations) node).isSome
  fragments : ∀ f ∈ (extractInlineFiling readers document).facts, f.status = .text → ∃ node rest, node :: rest ⊆ document.nodes ∧
    f.locator = node.path ∧ f.evidenceLocators = (node :: rest).map (·.path) ∧
    (node :: rest).IsChain (Continues (document.index readers).ids ((document.index readers).duplicateIds ++
      (document.index readers).invalidContinuations)) ∧
    (node :: rest).Pairwise Apart ∧ f.lexicalText = ((node :: rest).flatMap keptTexts).flatMap (·.characters) ∧
    (((node :: rest).flatMap keptTexts).map (·.path)).Nodup
  unshared : ∀ f ∈ (extractInlineFiling readers document).facts, ∀ g ∈ (extractInlineFiling readers document).facts,
    f.status = .text → g.status = .text → f.locator ≠ g.locator → f.evidenceLocators.Disjoint g.evidenceLocators

/-- At most one of the facts whose text is read goes on from an empty reference. -/
def OneEmpty (readers : Readers) (document : Document) : Prop :=
  document.IsRead → ∀ node rest node' rest', HasText readers document node rest → HasText readers document node' rest' →
    (∃ c ∈ node :: rest, FollowsEmpty c) → (∃ c ∈ node' :: rest', FollowsEmpty c) → node = node'

/-- A walk along references, whatever its length. -/
inductive Walk (ids : List Node) (invalid : List String) : List String → List Node → Node → List Node → Prop
  | last {visited : List String} {visitedNodes : List Node} {current : Node} (hlast : get current "continuedAt" = none) :
      Walk ids invalid visited visitedNodes current []
  | next {visited : List String} {visitedNodes rest : List Node} {reference : String} {current following : Node}
      (hreference : get current "continuedAt" = some reference) (hfresh : reference ∉ visited) (hvalid : reference ∉ invalid)
      (hdesignated : designated ids reference = some following) (htag : following.label.tag = ix "continuation")
      (hplace : ∀ prior ∈ visitedNodes, ¬ Contains following prior ∧ ¬ Contains prior following)
      (hrest : Walk ids invalid (reference :: visited) (following :: visitedNodes) following rest) :
      Walk ids invalid visited visitedNodes current (following :: rest)

section

variable {ids nodes visitedNodes rest rest' : List Node} {invalid visited : List String} {reference : String} {node node' current following a b : Node}
  {fuel : ℕ}

/-! ### References -/

/-- An element that a reference designates has it as its identifier. -/
theorem designated_eq_some (h : designated ids reference = some node) : node ∈ ids ∧ identifier node = reference :=
  ⟨List.mem_reverse.mp (List.mem_of_find?_eq_some h), by simpa [identifier] using List.find?_some h⟩

/-- Elements that are apart are so in both directions. -/
theorem Apart.symm (h : Apart a b) : Apart b a := ⟨h.2, h.1⟩

/-- Elements are apart if they are different and neither is inside of the other. -/
theorem apart_iff : Apart a b ↔ a.path ≠ b.path ∧ ¬ Contains a b ∧ ¬ Contains b a := by
  unfold Apart Contains
  constructor
  · rintro ⟨hab, hba⟩
    exact ⟨fun heq => hab (heq ▸ List.prefix_refl _), fun h => hab h.1, fun h => hba h.1⟩
  · rintro ⟨hne, hab, hba⟩
    exact ⟨fun h => hab ⟨h, hne⟩, fun h => hba ⟨h, hne.symm⟩⟩

/-! ### The walk -/

/-- The walk ends: its references are different and designate elements, of which there are not enough to go on. -/
theorem walk_isSome (hnodup : visited.Nodup) (hvisited : visited ⊆ ids.map identifier) (hfuel : ids.length < fuel + visited.length) :
    (walk ids invalid fuel visited visitedNodes current).isSome := by
  induction fuel generalizing visited visitedNodes current with
  | zero =>
    have hlength := (hnodup.subperm hvisited).length_le
    rw [List.length_map] at hlength
    omega
  | succ fuel ih =>
    unfold walk
    split
    next => rfl
    next reference _ =>
      split
      next => rfl
      next hfresh =>
        split
        next => rfl
        next following hdesignated =>
          split
          next => rfl
          next =>
            have hreference := designated_eq_some hdesignated
            rw [Option.isSome_map]
            apply ih
            · exact List.nodup_cons.mpr ⟨fun h => hfresh (Or.inl h), hnodup⟩
            · intro r hr
              rcases List.mem_cons.mp hr with rfl | hr
              · exact List.mem_map.mpr ⟨following, hreference⟩
              · exact hvisited hr
            · rw [List.length_cons]
              omega

/-- The walk of a fact ends. -/
theorem chain_isSome : (chain ids invalid node).isSome := by
  apply walk_isSome List.nodup_nil (List.nil_subset _)
  rw [List.length_nil]
  omega

/-- What a walk with fuel leads through is a walk. -/
theorem walk_sound (h : walk ids invalid fuel visited visitedNodes current = some (.ok nodes)) :
    ∃ rest, nodes = current :: rest ∧ Walk ids invalid visited visitedNodes current rest := by
  induction fuel generalizing visited visitedNodes current nodes with
  | zero => cases h
  | succ fuel ih =>
    unfold walk at h
    split at h
    next hlast =>
      cases h
      exact ⟨[], rfl, .last hlast⟩
    next reference hreference =>
      split at h
      next => cases h
      next hfresh =>
        split at h
        next => cases h
        next following hdesignated =>
          split at h
          next => cases h
          next hplace =>
            push Not at hfresh hplace
            obtain ⟨result, hwalk, hresult⟩ := Option.map_eq_some_iff.mp h
            cases result with
            | error => cases hresult
            | ok more =>
              obtain ⟨rest, rfl, hrest⟩ := ih hwalk
              cases hresult
              exact ⟨_, rfl, .next hreference hfresh.1 hfresh.2 hdesignated hplace.1 hplace.2 hrest⟩

/-- A walk with fuel that ends leads through what a walk does. -/
theorem walk_complete (hwalk : Walk ids invalid visited visitedNodes current rest) (hends : (walk ids invalid fuel visited visitedNodes current).isSome) :
    walk ids invalid fuel visited visitedNodes current = some (.ok (current :: rest)) := by
  induction hwalk generalizing fuel with
  | last hlast =>
    cases fuel with
    | zero => cases hends
    | succ fuel => simp only [walk, hlast]
  | @next visited visitedNodes rest reference current following hreference hfresh hvalid hdesignated htag hplace _ ih =>
    cases fuel with
    | zero => cases hends
    | succ fuel =>
      have hgo : ¬ (reference ∈ visited ∨ reference ∈ invalid) := not_or.mpr ⟨hfresh, hvalid⟩
      have hfollow : ¬ (following.label.tag ≠ ix "continuation" ∨
          ∃ prior ∈ visitedNodes, Contains following prior ∨ Contains prior following) := by
        push Not
        exact ⟨htag, hplace⟩
      simp only [walk, hreference, if_neg hgo, hdesignated, if_neg hfollow] at hends ⊢
      rw [Option.isSome_map] at hends
      rw [ih hends]
      rfl

/-- The elements that a walk leads through are where none was before, each with an identifier of its own. -/
theorem Walk.fresh (h : Walk ids invalid visited visitedNodes current rest) :
    (∀ n ∈ rest, identifier n ∉ visited ∧ n ∈ ids ∧ n.label.tag = ix "continuation" ∧
      ∀ prior ∈ visitedNodes, ¬ Contains n prior ∧ ¬ Contains prior n) ∧ (rest.map identifier).Nodup := by
  induction h with
  | last => exact ⟨nofun, List.nodup_nil⟩
  | @next visited visitedNodes rest reference current following hreference hfresh hvalid hdesignated htag hplace _ ih =>
    obtain ⟨hmem, hidentifier⟩ := designated_eq_some hdesignated
    refine ⟨fun n hn => ?_, List.nodup_cons.mpr ⟨fun hin => ?_, ih.2⟩⟩
    · rcases List.mem_cons.mp hn with rfl | hn
      · exact ⟨hidentifier ▸ hfresh, hmem, htag, hplace⟩
      · obtain ⟨hnew, hids, hcontinuation, happart⟩ := ih.1 n hn
        exact ⟨fun hold => hnew (List.mem_cons_of_mem _ hold), hids, hcontinuation, fun prior hprior => happart prior (List.mem_cons_of_mem _ hprior)⟩
    · obtain ⟨n, hn, heq⟩ := List.mem_map.mp hin
      apply (ih.1 n hn).1
      rw [heq, hidentifier]
      exact List.mem_cons_self

/-- A walk that begins among the elements that it was at leads through elements neither of which is inside of another. -/
theorem Walk.outside (h : Walk ids invalid visited visitedNodes current rest) (hcurrent : current ∈ visitedNodes) :
    (current :: rest).Pairwise fun a b => ¬ Contains a b ∧ ¬ Contains b a := by
  induction h with
  | last => exact List.pairwise_singleton _ _
  | @next visited visitedNodes rest reference current following hreference hfresh hvalid hdesignated htag hplace hrest ih =>
    refine List.pairwise_cons.mpr ⟨fun n hn => ?_, ih List.mem_cons_self⟩
    rcases List.mem_cons.mp hn with rfl | hn
    · exact (hplace _ hcurrent).symm
    · exact ((hrest.fresh.1 n hn).2.2.2 _ (List.mem_cons_of_mem _ hcurrent)).symm

/-- A walk goes on from one element to the next and stops where there is no reference. -/
theorem Walk.linked (h : Walk ids invalid visited visitedNodes current rest) :
    (current :: rest).IsChain (Continues ids invalid) ∧ ∀ last ∈ (current :: rest).getLast?, get last "continuedAt" = none := by
  induction h with
  | last hlast =>
    refine ⟨List.isChain_singleton _, ?_⟩
    rintro _ ⟨⟩
    exact hlast
  | @next visited visitedNodes rest reference current following hreference hfresh hvalid hdesignated htag hplace _ ih =>
    refine ⟨List.isChain_cons_cons.mpr ⟨⟨reference, hreference, hvalid, hdesignated, htag⟩, ih.1⟩, ?_⟩
    rw [List.getLast?_cons_cons]
    exact ih.2

/-- Elements that are linked and apart are walked through. -/
theorem walk_of_linked (hlinked : (current :: rest).IsChain (Continues ids invalid))
    (hends : ∀ last ∈ (current :: rest).getLast?, get last "continuedAt" = none)
    (hapart : rest.Pairwise Apart) (hoff : ∀ prior ∈ visitedNodes, ∀ n ∈ rest, Apart prior n)
    (hvisited : ∀ reference ∈ visited, ∃ prior ∈ visitedNodes, designated ids reference = some prior) :
    Walk ids invalid visited visitedNodes current rest := by
  induction rest generalizing visited visitedNodes current with
  | nil => exact .last (hends current rfl)
  | cons following rest ih =>
    obtain ⟨⟨reference, hreference, hvalid, hdesignated, htag⟩, hlinked⟩ := List.isChain_cons_cons.mp hlinked
    rw [List.getLast?_cons_cons] at hends
    obtain ⟨hfirst, hrest⟩ := List.pairwise_cons.mp hapart
    refine .next hreference (fun hold => ?_) hvalid hdesignated htag (fun prior hprior => ?_) (ih hlinked hends hrest ?_ ?_)
    -- a reference that was followed led to an element that the next one is apart from
    · obtain ⟨prior, hprior, hsame⟩ := hvisited reference hold
      cases hdesignated.symm.trans hsame
      exact (hoff following hprior following List.mem_cons_self).1 (List.prefix_refl _)
    · exact (apart_iff.mp (hoff prior hprior following List.mem_cons_self)).2.symm
    · intro prior hprior n hn
      rcases List.mem_cons.mp hprior with rfl | hprior
      · exact hfirst n hn
      · exact hoff prior hprior n (List.mem_cons_of_mem _ hn)
    · intro r hr
      rcases List.mem_cons.mp hr with rfl | hr
      · exact ⟨following, List.mem_cons_self, hdesignated⟩
      · obtain ⟨prior, hprior, hsame⟩ := hvisited r hr
        exact ⟨prior, List.mem_cons_of_mem _ hprior, hsame⟩

/-- The walk of an element of a document leads through what it goes on with. -/
theorem chain_eq_ok (hpaths : (nodes.map (·.path)).Nodup) (hids : ids ⊆ nodes) (hnode : node ∈ nodes)
    (htag : node.label.tag ≠ ix "continuation") {l : List Node} :
    chain ids invalid node = some (.ok l) ↔ ∃ rest, l = node :: rest ∧ Continued ids invalid node rest := by
  constructor
  · intro h
    obtain ⟨rest, rfl, hwalk⟩ := walk_sound h
    obtain ⟨hfresh, hidentifiers⟩ := hwalk.fresh
    have hdifferent : (node :: rest).Pairwise fun a b => a.path ≠ b.path := by
      refine List.pairwise_cons.mpr ⟨fun n hn hpath => ?_, ?_⟩
      · have heq := List.inj_on_of_nodup_map hpaths hnode (hids (hfresh n hn).2.1) hpath
        exact htag (heq ▸ (hfresh n hn).2.2.1)
      · refine (List.pairwise_map.mp hidentifiers).imp_of_mem fun ha hb hne hpath => ?_
        exact hne (congrArg identifier (List.inj_on_of_nodup_map hpaths (hids (hfresh _ ha).2.1) (hids (hfresh _ hb).2.1) hpath))
    have hapart := hdifferent.and (hwalk.outside List.mem_cons_self)
    exact ⟨rest, rfl, hwalk.linked.1, hwalk.linked.2, hapart.imp fun h => apart_iff.mpr h⟩
  · rintro ⟨rest, rfl, h⟩
    obtain ⟨hfirst, hrest⟩ := List.pairwise_cons.mp h.apart
    have hwalk : Walk ids invalid [] [node] node rest := by
      apply walk_of_linked h.linked h.ends hrest _ fun r hr => absurd hr List.not_mem_nil
      intro prior hprior n hn
      rw [List.mem_singleton.mp hprior]
      exact hfirst n hn
    exact walk_complete hwalk chain_isSome

/-! ### Where walks meet -/

/-- All elements of a chain but the first have one before them. -/
theorem exists_before {R : Node → Node → Prop} (h : (node :: rest).IsChain R) (hb : b ∈ rest) : ∃ a ∈ node :: rest, R a b := by
  induction rest generalizing node with
  | nil => cases hb
  | cons following rest ih =>
    obtain ⟨hstep, hlinked⟩ := List.isChain_cons_cons.mp h
    rcases List.mem_cons.mp hb with rfl | hb
    · exact ⟨node, List.mem_cons_self, hstep⟩
    · obtain ⟨a, ha, hab⟩ := ih hlinked hb
      exact ⟨a, List.mem_cons_of_mem _ ha, hab⟩

/-- An element with a reference has one after it. -/
theorem Continued.exists_after (h : Continued ids invalid node rest) (ha : a ∈ node :: rest) (hreference : get a "continuedAt" = some reference) :
    ∃ b ∈ rest, designated ids reference = some b := by
  obtain ⟨hlinked, hends, -⟩ := h
  induction rest generalizing node with
  | nil =>
    rw [List.mem_singleton.mp ha, hends node rfl] at hreference
    cases hreference
  | cons following rest ih =>
    obtain ⟨⟨r, hr, -, hdesignated, -⟩, hlinked⟩ := List.isChain_cons_cons.mp hlinked
    rw [List.getLast?_cons_cons] at hends
    rcases List.mem_cons.mp ha with rfl | ha
    · cases hr.symm.trans hreference
      exact ⟨following, List.mem_cons_self, hdesignated⟩
    · obtain ⟨b, hb, hdesignated⟩ := ih ha hlinked hends
      exact ⟨b, List.mem_cons_of_mem _ hb, hdesignated⟩

/-- What more than one element has is repeated unless it is empty. -/
theorem mem_repeated {name value : String} (ha : a ∈ nodes) (hb : b ∈ nodes) (hne : a ≠ b) (hvalue : get a name = some value)
    (hvalue' : get b name = some value) (hnonempty : value ≠ "") : value ∈ repeated nodes name := by
  have hmem : value ∈ nodes.filterMap (get · name) := List.mem_filterMap.mpr ⟨a, ha, hvalue⟩
  refine List.mem_filter.mpr ⟨hmem, decide_eq_true ⟨?_, hnonempty⟩⟩
  obtain ⟨before, after, rfl⟩ := List.append_of_mem ha
  have hhere : (a :: after).filterMap (get · name) = value :: after.filterMap (get · name) := List.filterMap_cons_some hvalue
  rw [List.filterMap_append, hhere, List.count_append, List.count_cons_self]
  rcases List.mem_append.mp hb with hb | hb
  · have hpos : 0 < (before.filterMap (get · name)).count value := List.count_pos_iff.mpr (List.mem_filterMap.mpr ⟨b, hb, hvalue'⟩)
    omega
  · have hafter : b ∈ after := (List.mem_cons.mp hb).resolve_left hne.symm
    have hpos : 0 < (after.filterMap (get · name)).count value := List.count_pos_iff.mpr (List.mem_filterMap.mpr ⟨b, hafter, hvalue'⟩)
    omega

/-- Two chains that begin apart and meet have met at an empty reference: where they meet first, two elements have one reference. -/
theorem empty_of_meet (hinvalid : repeated nodes "continuedAt" ⊆ invalid) (hlinked : (node :: rest).IsChain (Continues ids invalid))
    (hlinked' : (node' :: rest').IsChain (Continues ids invalid)) (hnodes : node :: rest ⊆ nodes) (hnodes' : node' :: rest' ⊆ nodes)
    (htag' : node'.label.tag ≠ ix "continuation") (hnode : node ∉ node' :: rest') (hb : b ∈ rest) (hb' : b ∈ node' :: rest') :
    (∃ c ∈ node :: rest, FollowsEmpty c) ∧ ∃ c ∈ node' :: rest', FollowsEmpty c := by
  induction rest generalizing node with
  | nil => cases hb
  | cons following rest ih =>
    obtain ⟨⟨reference, hreference, hvalid, hdesignated, htag⟩, hmore⟩ := List.isChain_cons_cons.mp hlinked
    by_cases hfollowing : following ∈ node' :: rest'
    · have hrest' : following ∈ rest' := (List.mem_cons.mp hfollowing).resolve_left fun heq => htag' (heq ▸ htag)
      obtain ⟨c, hc, reference', hreference', -, hdesignated', -⟩ := exists_before hlinked' hrest'
      have hsame : reference' = reference := (designated_eq_some hdesignated').2.symm.trans (designated_eq_some hdesignated).2
      rw [hsame] at hreference'
      have hempty : reference = "" := by
        by_contra hnonempty
        exact hvalid (hinvalid (mem_repeated (hnodes List.mem_cons_self) (hnodes' hc) (fun heq => hnode (heq ▸ hc)) hreference hreference' hnonempty))
      subst hempty
      exact ⟨⟨node, List.mem_cons_self, hreference⟩, c, hc, hreference'⟩
    · have hlater : b ∈ rest := (List.mem_cons.mp hb).resolve_left fun heq => hfollowing (heq ▸ hb')
      obtain ⟨⟨c, hc, hempty⟩, hother⟩ := ih hmore (fun n hn => hnodes (List.mem_cons_of_mem _ hn)) hfollowing hlater
      exact ⟨⟨c, List.mem_cons_of_mem _ hc, hempty⟩, hother⟩

/-! ### Texts -/

/-- The text of an element is that of what is kept. -/
theorem textWithoutExcluded_eq : textWithoutExcluded node = (keptTexts node).flatMap (·.characters) := Content.included_eq nofun

/-- Elements that are apart have no text in common. -/
theorem keptTexts_nodup (hapart : nodes.Pairwise Apart) : ((nodes.flatMap keptTexts).map (·.path)).Nodup := by
  rw [List.map_flatMap, List.nodup_flatMap]
  refine ⟨fun n _ => ?_, hapart.imp fun {a b} h => ?_⟩
  · exact Content.leaves_nodup.sublist (List.filter_sublist.map _)
  · intro path ha hb
    obtain ⟨l, hl, rfl⟩ := List.mem_map.mp ha
    obtain ⟨l', hl', hpath⟩ := List.mem_map.mp hb
    obtain ⟨i, more, -, hl⟩ := Content.path_of_mem_leaves (List.mem_filter.mp hl).1
    obtain ⟨j, more', -, hl'⟩ := Content.path_of_mem_leaves (List.mem_filter.mp hl').1
    have hprefix : a.path <+: l.path := hl ▸ List.prefix_append _ _
    have hprefix' : b.path <+: l.path := hpath ▸ hl' ▸ List.prefix_append _ _
    rcases List.prefix_or_prefix_of_prefix hprefix hprefix' with hab | hba
    · exact h.1 hab
    · exact h.2 hba

/-! ### Accepted facts -/

/-- The text of a readable fact is that of the elements that it goes on with. -/
theorem fact_of_readable {index : Index} (hpaths : (nodes.map (·.path)).Nodup) (hids : index.ids ⊆ nodes) (hnode : node ∈ nodes)
    (htag : node.label.tag ≠ ix "continuation") (h : Readable index node rest) :
    (fact index node .nonNumeric).status = .text ∧ (fact index node .nonNumeric).locator = node.path ∧
      (fact index node .nonNumeric).evidenceLocators = (node :: rest).map (·.path) ∧
      (fact index node .nonNumeric).lexicalText = ((node :: rest).flatMap keptTexts).flatMap (·.characters) := by
  have hchain := (chain_eq_ok hpaths hids hnode htag).mpr ⟨rest, rfl, h.continued⟩
  have htext : ((node :: rest).flatMap textWithoutExcluded) = ((node :: rest).flatMap keptTexts).flatMap (·.characters) := by
    rw [List.flatMap_assoc]
    exact List.flatMap_congr fun n _ => textWithoutExcluded_eq
  cases hname : qname node (get node "name") with
  | error code =>
    have hnamed := h.named
    rw [hname] at hnamed
    cases hnamed
  | ok tag =>
    have hcheck : ∀ lexical, checkText node false none lexical = .ok () := by
      intro lexical
      simp [checkText, Relational.raiseIf, h.unescaped, bind, Except.bind]
    simp only [fact, hname, h.placed, h.unformatted, h.present, textFact, continuedText, hchain, hcheck, htext]
    exact ⟨rfl, rfl, trivial, trivial⟩

/-- A fact with an amount is not one with text. -/
theorem numericFact_status {index : Index} {f : FilingFact} {isNil : Bool} (h : f.status = .unsupported) :
    (numericFact index node f isNil).status ≠ .text := by
  have hrefused : f.status ≠ .text := by
    rw [h]
    nofun
  unfold numericFact
  split
  next => exact hrefused
  next =>
    split
    next => exact hrefused
    next =>
      split
      next =>
        split
        next => exact hrefused
        next => nofun
      next =>
        split
        next => exact hrefused
        next => nofun

/-- A fact with text passes the checks of its text, and its walk goes well. -/
theorem textFact_text {index : Index} {f : FilingFact} {isNil : Bool} (hstatus : f.status = .unsupported)
    (h : (textFact index node f isNil).status = .text) :
    isNil = false ∧ f.formatQname = none ∧ get node "escape" ∈ [none, some "false", some "0"] ∧
      ∃ l, chain index.ids (index.duplicateIds ++ index.invalidContinuations) node = some (.ok l) := by
  have hrefused : f.status ≠ .text := by
    rw [hstatus]
    nofun
  unfold textFact at h
  split at h
  next => exact absurd h hrefused
  next lexical locators hcontinued =>
    dsimp only at h
    split at h
    next => exact absurd h hrefused
    next hcheck =>
      cases isNil with
      | true => cases h
      | false =>
        simp only [checkText, bind_eq_ok, raiseIf_eq_ok] at hcheck
        obtain ⟨_, -, hformatted⟩ := hcheck
        push Not at hformatted
        refine ⟨rfl, hformatted.1, hformatted.2, ?_⟩
        unfold continuedText at hcontinued
        split at hcontinued
        next l hchain => exact ⟨l, hchain⟩
        next => cases hcontinued
        next => cases hcontinued

/-- Facts that are accepted as text are readable. -/
theorem readable_of_fact {index : Index} {kind : FactKind} (hpaths : (nodes.map (·.path)).Nodup) (hids : index.ids ⊆ nodes) (hnode : node ∈ nodes)
    (htag : node.label.tag ≠ ix "continuation") (h : (fact index node kind).status = .text) :
    kind = .nonNumeric ∧ ∃ rest, Readable index node rest := by
  unfold fact at h
  dsimp only at h
  split at h
  next => cases h
  next tag hname =>
    split at h
    next => cases h
    next hplace =>
      split at h
      next => cases h
      next format hformat =>
        split at h
        next => cases h
        next isNil hnil =>
          cases kind with
          | fraction => cases h
          | nonFraction => exact absurd h (numericFact_status rfl)
          | nonNumeric =>
            obtain ⟨hpresent, hunformatted, hunescaped, l, hchain⟩ := textFact_text rfl h
            obtain ⟨rest, -, hcontinued⟩ := (chain_eq_ok hpaths hids hnode htag).mp hchain
            have hnone : format = none := hunformatted
            exact ⟨rfl, rest, by rw [hname]; rfl, hplace, hnone ▸ hformat, hpresent ▸ hnil, hunescaped, hcontinued⟩

/-- The facts of a document are those of its elements. -/
theorem mem_facts {readers : Readers} {document : Document} {f : FilingFact} :
    f ∈ (extractInlineFiling readers document).facts ↔
      document.IsRead ∧ ∃ n ∈ document.nodes, ∃ kind, kindOf n = some kind ∧ fact (document.index readers) n kind = f := by
  have hmem : f ∈ document.nodes.filterMap (fun n => (kindOf n).map (fact (document.index readers) n)) ↔
      ∃ n ∈ document.nodes, ∃ kind, kindOf n = some kind ∧ fact (document.index readers) n kind = f := by
    simp only [List.mem_filterMap, Option.map_eq_some_iff]
  unfold extractInlineFiling Document.IsRead
  split
  next h =>
    refine ⟨nofun, fun hread => ?_⟩
    rcases h with h | h
    · rw [hread.1.1] at h
      cases h
    · exact absurd hread.1.2 h
  next h =>
    obtain ⟨hdoctype, htag⟩ := not_or.mp h
    rw [← hmem]
    dsimp only
    split
    next hnone => simp [hnone]
    next => exact ⟨fun h => ⟨⟨Bool.eq_false_iff.mpr hdoctype, not_not.mp htag⟩, h⟩, fun h => h.2⟩

/-- The elements of a kind have its name. -/
theorem kindOf_eq_some {kind : FactKind} : kindOf node = some kind ↔ node.label.tag = ix kind.localName := by
  constructor
  · intro h
    simpa only [decide_eq_true_eq] using List.find?_some h
  · intro h
    unfold kindOf
    rw [h]
    cases kind <;> decide

end

section

variable {readers : Readers} {document : Document} {node : Node} {rest : List Node}

/-- Elements of a document with one path are the same. -/
theorem Document.paths_nodup : (document.nodes.map (·.path)).Nodup := Content.elements_nodup

/-- References designate elements of the document. -/
theorem Document.ids_subset : (document.index readers).ids ⊆ document.nodes := List.filter_subset_self _

/-- A fact with text is no continuation. -/
theorem HasText.ne_continuation (h : HasText readers document node rest) : node.label.tag ≠ ix "continuation" := by
  rw [h.tag]
  decide

/-- A fact goes on with elements of the document. -/
theorem HasText.subset (h : HasText readers document node rest) : node :: rest ⊆ document.nodes := by
  intro n hn
  rcases List.mem_cons.mp hn with rfl | hn
  · exact h.mem
  · obtain ⟨_, -, _, -, -, hdesignated, -⟩ := exists_before h.readable.continued.linked hn
    exact Document.ids_subset (designated_eq_some hdesignated).1

/-- What is accepted as text is a fact whose text is read. -/
theorem hasText_of_mem_facts {f : FilingFact} (h : f ∈ (extractInlineFiling readers document).facts) (hstatus : f.status = .text) :
    document.IsRead ∧ ∃ node rest, HasText readers document node rest ∧ f = fact (document.index readers) node .nonNumeric := by
  obtain ⟨hread, node, hnode, kind, hkind, rfl⟩ := mem_facts.mp h
  have htag := kindOf_eq_some.mp hkind
  have hcontinuation : node.label.tag ≠ ix "continuation" := by
    rw [htag]
    cases kind <;> decide
  obtain ⟨rfl, rest, hreadable⟩ := readable_of_fact Document.paths_nodup Document.ids_subset hnode hcontinuation hstatus
  exact ⟨hread, node, rest, ⟨hnode, htag, hreadable⟩, rfl⟩

/-- A fact whose text is read is accepted as text. -/
theorem HasText.accepted (h : HasText readers document node rest) (hread : document.IsRead) :
    fact (document.index readers) node .nonNumeric ∈ (extractInlineFiling readers document).facts :=
  mem_facts.mpr ⟨hread, node, h.mem, .nonNumeric, kindOf_eq_some.mpr h.tag, rfl⟩

end

/-- The texts of a document are used at most once exactly when no two facts go on from an empty reference. -/
theorem continuations_used_once (readers : Readers) (document : Document) : UsedOnce readers document ↔ OneEmpty readers document := by
  have hspec : ∀ {node rest}, HasText readers document node rest → _ := fun {node rest} h =>
    fact_of_readable Document.paths_nodup Document.ids_subset h.mem h.ne_continuation h.readable
  constructor
  · intro h hread node rest node' rest' htext htext' ⟨c, hc, hempty⟩ ⟨c', hc', hempty'⟩
    by_contra hne
    obtain ⟨hstatus, hlocator, hevidence, -⟩ := hspec htext
    obtain ⟨hstatus', hlocator', hevidence', -⟩ := hspec htext'
    have hdisjoint := h.unshared _ (htext.accepted hread) _ (htext'.accepted hread) hstatus hstatus' <| by
      rw [hlocator, hlocator']
      exact fun hpath => hne (List.inj_on_of_nodup_map Document.paths_nodup htext.mem htext'.mem hpath)
    obtain ⟨b, hb, hdesignated⟩ := htext.readable.continued.exists_after hc hempty
    obtain ⟨b', hb', hdesignated'⟩ := htext'.readable.continued.exists_after hc' hempty'
    cases hdesignated.symm.trans hdesignated'
    rw [hevidence, hevidence'] at hdisjoint
    exact hdisjoint (List.mem_map_of_mem (List.mem_cons_of_mem _ hb)) (List.mem_map_of_mem (List.mem_cons_of_mem _ hb'))
  · intro hone
    refine ⟨fun node => chain_isSome, fun f hf hstatus => ?_, fun f hf g hg hstatus hstatus' hlocators => ?_⟩
    · obtain ⟨-, node, rest, htext, rfl⟩ := hasText_of_mem_facts hf hstatus
      obtain ⟨-, hlocator, hevidence, hlexical⟩ := hspec htext
      have hcontinued := htext.readable.continued
      exact ⟨node, rest, htext.subset, hlocator, hevidence, hcontinued.linked, hcontinued.apart, hlexical, keptTexts_nodup hcontinued.apart⟩
    · obtain ⟨hread, node, rest, htext, rfl⟩ := hasText_of_mem_facts hf hstatus
      obtain ⟨-, node', rest', htext', rfl⟩ := hasText_of_mem_facts hg hstatus'
      obtain ⟨-, hlocator, hevidence, -⟩ := hspec htext
      obtain ⟨-, hlocator', hevidence', -⟩ := hspec htext'
      rw [hlocator, hlocator'] at hlocators
      rw [hevidence, hevidence']
      intro path hpath hpath'
      obtain ⟨b, hb, rfl⟩ := List.mem_map.mp hpath
      obtain ⟨b', hb', hsame⟩ := List.mem_map.mp hpath'
      cases List.inj_on_of_nodup_map Document.paths_nodup (htext'.subset hb') (htext.subset hb) hsame
      have hother : node ∉ node' :: rest' := by
        intro hmem
        rcases List.mem_cons.mp hmem with rfl | hmem
        · exact hlocators rfl
        · obtain ⟨_, -, _, -, -, -, hcontinuation⟩ := exists_before htext'.readable.continued.linked hmem
          exact htext.ne_continuation hcontinuation
      have hrest : b ∈ rest := (List.mem_cons.mp hb).resolve_left fun heq => hother (heq ▸ hb')
      have hmeet := empty_of_meet (List.subset_append_right _ _) htext.readable.continued.linked htext'.readable.continued.linked
        htext.subset htext'.subset htext'.ne_continuation hother hrest hb'
      exact hlocators (congrArg _ (hone hread _ _ _ _ htext htext' hmeet.1 hmeet.2))

/-- A fact with text that goes on from an empty reference. -/
def sampleText (text : String) (rest : Content Label) : Content Label :=
  .element ⟨ix "nonNumeric", [(⟨none, "name"⟩, "t:Policy"), (⟨none, "contextRef"⟩, "year"), (⟨none, "continuedAt"⟩, "")], [(some "t", "urn:tags")]⟩
    (.text text.toList .nil) rest

/-- A filing with two such facts and a continuation without an identifier. -/
def sampleFiling : Document where
  label := ⟨xhtml "html", [], []⟩
  inner := .element ⟨⟨some "http://www.xbrl.org/2003/instance", "context"⟩, [(⟨none, "id"⟩, "year")], []⟩ .nil <|
    sampleText "first" <| sampleText "second" <| .element ⟨ix "continuation", [], []⟩ (.text "shared".toList .nil) .nil
  hasDoctype := false

theorem empty_references_shared : ¬ ∀ readers document, UsedOnce readers document := by
  intro h
  let readers : Readers := ⟨fun _ node => ⟨identifier node, [], true⟩, fun _ node => ⟨identifier node, true⟩⟩
  have hfacts : (extractInlineFiling readers sampleFiling).facts.map (fun f => (f.status, f.locator, f.evidenceLocators)) =
      [(.text, [0, 1], [[0, 1], [0, 3]]), (.text, [0, 2], [[0, 2], [0, 3]])] := by
    decide +kernel
  have hmem : ∀ x ∈ [(FactStatus.text, [0, 1], [[0, 1], [0, 3]]), (.text, [0, 2], [[0, 2], [0, 3]])],
      ∃ f ∈ (extractInlineFiling readers sampleFiling).facts, (f.status, f.locator, f.evidenceLocators) = x :=
    fun x hx => List.mem_map.mp (hfacts ▸ hx)
  obtain ⟨f, hf, hfirst⟩ := hmem _ List.mem_cons_self
  obtain ⟨g, hg, hsecond⟩ := hmem _ (List.mem_cons_of_mem _ List.mem_cons_self)
  simp only [Prod.mk.injEq] at hfirst hsecond
  have hdisjoint := (h readers sampleFiling).unshared f hf g hg hfirst.1 hsecond.1 (by rw [hfirst.2.1, hsecond.2.1]; decide)
  rw [hfirst.2.2, hsecond.2.2] at hdisjoint
  exact @hdisjoint [0, 3] (by decide) (by decide)

end EquityEval.Filing
