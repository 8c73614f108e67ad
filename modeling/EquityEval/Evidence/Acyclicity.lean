import EquityEval.Evidence.Revisions

/-!
# The history of revisions is acyclic

Links never leave the key of their resolutions, so a path of links has one issuer. A transaction that
has written a link holds the lock of that issuer until it ends. The search for a path back therefore
sees every link that a path could use, and no other transaction adds one before it ends.
-/

namespace EquityEval.Evidence

open Workflow PointInTime Relational

/-- A link that is there leads from one resolution to another. -/
def State.Revises (s : State) (a b : Uuid) : Prop :=
  ∃ row ∈ s.links, row.Live s.outcome ∧ row.value.earlierResolutionId = a ∧ row.value.laterResolutionId = b

/-- A transaction sees the ends of a link, which share their key. -/
structure Grounded (s : State) (x : ℕ) (link : RevisionLink) (e : Resolution) : Prop where
  earlier : e ∈ visible s.outcome x s.resolutions ∧ e.id = link.earlierResolutionId
  later : ∃ r ∈ visible s.outcome x s.resolutions, r.id = link.laterResolutionId ∧ e.key = r.key

/-- A transaction sees the event that evidences an error, and that its scope covers the earlier resolution. -/
def Cited (s : State) (x : ℕ) (link : RevisionLink) (e : Resolution) : Prop :=
  link.relationKind = .errorRestatement →
    ∃ event ∈ visible s.outcome x s.events, link.filingEventId = some event.id ∧ event.eventKind = .formalCorrection ∧
      ∃ scope ∈ visible s.outcome x s.scopes, scope.eventId = event.id ∧ scope.Covers e

/-- What holds of a transaction within the trigger. -/
def PhaseHolds (hash : Uuid → ℤ) (s : State) (x : ℕ) : Phase → Prop
  | .idle => True
  | .compared link earlier => ∃ e, earlier = some e ∧ Grounded s x link e
  | .locked link earlier => ∃ e, earlier = some e ∧ Grounded s x link e ∧ (hash e.issuerId, x) ∈ s.locks
  | .searched link earlier => ∃ e, earlier = some e ∧ Grounded s x link e ∧ (hash e.issuerId, x) ∈ s.locks ∧
      ¬ Relation.ReflTransGen s.Revises link.laterResolutionId link.earlierResolutionId

/-- Links are grounded, cited and locked, locks are exclusive, and no path of links leads back. -/
structure Sound (hash : Uuid → ℤ) (s : State) : Prop where
  unique : ∀ a ∈ s.resolutions, ∀ b ∈ s.resolutions, a.Live s.outcome → b.Live s.outcome → a.value.id = b.value.id →
    a.value = b.value
  links : ∀ row ∈ s.links, row.Live s.outcome → ∃ e, Grounded s row.writer row.value e ∧ Cited s row.writer row.value e ∧
    (s.outcome row.writer = .active → (hash e.issuerId, row.writer) ∈ s.locks)
  exclusive : ∀ a ∈ s.locks, ∀ b ∈ s.locks, a.1 = b.1 → a.2 = b.2
  acyclic : ∀ a, ¬ Relation.TransGen s.Revises a a
  phases : ∀ x, s.outcome x = .active → PhaseHolds hash s x (s.phase x)

variable {hash : Uuid → ℤ} {s s' : State} {x : ℕ} {link : RevisionLink} {e : Resolution}

/-! ### What stays -/

/-- What a transaction sees in one state it sees in another one. -/
structure Shows (s s' : State) (x : ℕ) : Prop where
  resolutions : ∀ r ∈ visible s.outcome x s.resolutions, r ∈ visible s'.outcome x s'.resolutions
  events : ∀ event ∈ visible s.outcome x s.events, event ∈ visible s'.outcome x s'.events
  scopes : ∀ scope ∈ visible s.outcome x s.scopes, scope ∈ visible s'.outcome x s'.scopes

/-- A grounded link stays grounded. -/
theorem Grounded.mono (h : Grounded s x link e) (hs : Shows s s' x) : Grounded s' x link e := by
  obtain ⟨⟨he, hid⟩, r, hr, hrid, hkey⟩ := h
  exact ⟨⟨hs.resolutions e he, hid⟩, r, hs.resolutions r hr, hrid, hkey⟩

/-- A cited link stays cited. -/
theorem Cited.mono (h : Cited s x link e) (hs : Shows s s' x) : Cited s' x link e := by
  intro hkind
  obtain ⟨event, hevent, hid, hformal, scope, hscope, hof, hcovers⟩ := h hkind
  exact ⟨event, hs.events event hevent, hid, hformal, scope, hs.scopes scope hscope, hof, hcovers⟩

/-- A transaction within the trigger stays there, if no link is added. -/
theorem PhaseHolds.mono {phase : Phase} (h : PhaseHolds hash s x phase) (hs : Shows s s' x)
    (hlocks : ∀ key, (key, x) ∈ s.locks → (key, x) ∈ s'.locks) (hlinks : ∀ a b, s'.Revises a b → s.Revises a b) :
    PhaseHolds hash s' x phase := by
  cases phase with
  | idle => trivial
  | compared link earlier =>
    obtain ⟨e, rfl, hground⟩ := h
    exact ⟨e, rfl, hground.mono hs⟩
  | locked link earlier =>
    obtain ⟨e, rfl, hground, hlock⟩ := h
    exact ⟨e, rfl, hground.mono hs, hlocks _ hlock⟩
  | searched link earlier =>
    obtain ⟨e, rfl, hground, hlock, hpath⟩ := h
    exact ⟨e, rfl, hground.mono hs, hlocks _ hlock, fun hback => hpath (Relation.ReflTransGen.mono hlinks _ _ hback)⟩

/-- A step that adds no link keeps the tables sound, if it keeps what transactions see and hold. -/
theorem Sound.keep (h : Sound hash s) (hlinks : s'.links = s.links)
    (hactive : ∀ y, s'.outcome y = .active → s.outcome y = .active)
    (hlive : ∀ row ∈ s.links, row.Live s'.outcome → row.Live s.outcome)
    (hshows : ∀ y, s'.outcome y ≠ .aborted → Shows s s' y)
    (hlocks : ∀ y, s'.outcome y = .active → ∀ key, (key, y) ∈ s.locks → (key, y) ∈ s'.locks)
    (hexclusive : ∀ a ∈ s'.locks, ∀ b ∈ s'.locks, a.1 = b.1 → a.2 = b.2)
    (hunique : ∀ a ∈ s'.resolutions, ∀ b ∈ s'.resolutions, a.Live s'.outcome → b.Live s'.outcome →
      a.value.id = b.value.id → a.value = b.value)
    (hphases : ∀ y, s'.outcome y = .active → s'.phase y = s.phase y ∨ PhaseHolds hash s' y (s'.phase y)) :
    Sound hash s' := by
  have hrevises : ∀ a b, s'.Revises a b → s.Revises a b := by
    rintro a b ⟨row, hrow, hrowLive, hends⟩
    rw [hlinks] at hrow
    exact ⟨row, hrow, hlive row hrow hrowLive, hends⟩
  refine ⟨hunique, ?_, hexclusive, fun a hcycle => h.acyclic a (Relation.TransGen.mono hrevises _ _ hcycle), ?_⟩
  · intro row hrow hrowLive
    rw [hlinks] at hrow
    obtain ⟨e, hground, hcited, hlock⟩ := h.links row hrow (hlive row hrow hrowLive)
    have hshow := hshows row.writer hrowLive
    exact ⟨e, hground.mono hshow, hcited.mono hshow, fun hrowActive =>
      hlocks _ hrowActive _ (hlock (hactive _ hrowActive))⟩
  · intro y hy
    rcases hphases y hy with hsame | hholds
    · rw [hsame]
      refine (h.phases y (hactive y hy)).mono (hshows y ?_) (hlocks y hy) hrevises
      rw [hy]
      decide
    · exact hholds

/-! ### Paths -/

/-- Resolutions that are there with one identifier are one resolution. -/
theorem Sound.eq_of_id (h : Sound hash s) {r r' : Resolution} (hr : r ∈ live s.outcome s.resolutions)
    (hr' : r' ∈ live s.outcome s.resolutions) (hid : r.id = r'.id) : r = r' := by
  obtain ⟨row, hrow, hlive, rfl⟩ := mem_live.mp hr
  obtain ⟨row', hrow', hlive', rfl⟩ := mem_live.mp hr'
  exact h.unique row hrow row' hrow' hlive hlive' hid

/-- A link leads from a resolution to one with its key. -/
theorem Sound.key_of_revises (h : Sound hash s) {b : Uuid} {r : Resolution} (hr : r ∈ live s.outcome s.resolutions)
    (hlink : s.Revises r.id b) : ∃ r' ∈ live s.outcome s.resolutions, r'.id = b ∧ r.key = r'.key := by
  obtain ⟨row, hrow, hlive, hearlier, rfl⟩ := hlink
  obtain ⟨e, ⟨⟨he, hid⟩, r', hr', hrid, hkey⟩, -⟩ := h.links row hrow hlive
  refine ⟨r', mem_live_of_visible hlive hr', hrid, ?_⟩
  rw [h.eq_of_id hr (mem_live_of_visible hlive he) (hearlier.symm.trans hid.symm), hkey]

/-- A link comes from a resolution with the key of the one it leads to. -/
theorem Sound.key_of_revised (h : Sound hash s) {a : Uuid} {r : Resolution} (hr : r ∈ live s.outcome s.resolutions)
    (hlink : s.Revises a r.id) : ∃ r' ∈ live s.outcome s.resolutions, r'.id = a ∧ r.key = r'.key := by
  obtain ⟨row, hrow, hlive, rfl, hlater⟩ := hlink
  obtain ⟨e, ⟨⟨he, hid⟩, r', hr', hrid, hkey⟩, -⟩ := h.links row hrow hlive
  refine ⟨e, mem_live_of_visible hlive he, hid, ?_⟩
  rw [h.eq_of_id hr (mem_live_of_visible hlive hr') (hlater.symm.trans hrid.symm), hkey]

/-- A path leads from a resolution to one with its key. -/
theorem Sound.key_of_path (h : Sound hash s) {b : Uuid} {r : Resolution} (hr : r ∈ live s.outcome s.resolutions)
    (hpath : Relation.ReflTransGen s.Revises r.id b) : ∃ r' ∈ live s.outcome s.resolutions, r'.id = b ∧ r.key = r'.key := by
  induction hpath with
  | refl => exact ⟨r, hr, rfl, rfl⟩
  | tail _ hlink ih =>
    obtain ⟨r', hr', rfl, hkey⟩ := ih
    obtain ⟨r'', hr'', hid, hkey'⟩ := h.key_of_revises hr' hlink
    exact ⟨r'', hr'', hid, hkey.trans hkey'⟩

/-- A transaction that holds the lock of an issuer sees every link of a path of that issuer. -/
theorem Sound.visible_path (h : Sound hash s) {b : Uuid} {r : Resolution} (hr : r ∈ live s.outcome s.resolutions)
    (hlock : (hash r.issuerId, x) ∈ s.locks) (hpath : Relation.ReflTransGen s.Revises r.id b) :
    Relation.ReflTransGen (Edge ((visible s.outcome x s.links).map (·.edge))) r.id b := by
  induction hpath with
  | refl => exact .refl
  | @tail a b hbefore hlink ih =>
    refine ih.tail ?_
    obtain ⟨r', hr', hid, hkey⟩ := h.key_of_path hr hbefore
    obtain ⟨row, hrow, hlive, rfl, rfl⟩ := hlink
    obtain ⟨e, hground, -, hheld⟩ := h.links row hrow hlive
    have hissuer : e.issuerId = r.issuerId := by
      rw [h.eq_of_id (mem_live_of_visible hlive hground.earlier.1) hr' (hground.earlier.2.trans hid.symm)]
      exact (congrArg LinkKey.issuerId hkey).symm
    have hvisible : row.VisibleTo s.outcome x := by
      cases hrowOutcome : s.outcome row.writer with
      | active => exact Or.inl (h.exclusive _ (hheld hrowOutcome) _ hlock (congrArg hash hissuer))
      | committed => exact Or.inr hrowOutcome
      | aborted => exact absurd hrowOutcome hlive
    exact List.mem_map_of_mem (mem_visible.mpr ⟨row, hrow, hvisible, rfl⟩)

/-! ### Steps -/

/-- A transaction that ends keeps the tables sound. -/
theorem Sound.finish (h : Sound hash s) (hx : s.outcome x = .active) (outcome : TransactionOutcome) (hended : outcome ≠ .active) :
    Sound hash (s.finish x outcome) := by
  have hactive : ∀ y, (s.finish x outcome).outcome y = .active → y ≠ x ∧ s.outcome y = .active := by
    intro y hy
    change Function.update s.outcome x outcome y = .active at hy
    by_cases hyx : y = x
    · rw [hyx, Function.update_self] at hy
      exact absurd hy hended
    · rw [Function.update_of_ne hyx] at hy
      exact ⟨hyx, hy⟩
  have hsee : ∀ {α : Type} (rows : List (Row α)) (y : ℕ) (a : α), a ∈ visible s.outcome y rows →
      a ∈ visible (s.finish x outcome).outcome y rows := by
    intro α rows y a ha
    obtain ⟨row, hrow, hvisible, rfl⟩ := mem_visible.mp ha
    exact mem_visible.mpr ⟨row, hrow, hvisible.update hx, rfl⟩
  refine h.keep rfl (fun y hy => (hactive y hy).2) (fun row _ hlive => hlive.of_update hx) (fun y _ => ?_) (fun y hy key hlock => ?_)
    (fun a ha b hb => ?_) (fun a ha b hb hlive hlive' => ?_) (fun y hy => ?_)
  · exact ⟨fun r hr => hsee _ y r hr, fun r hr => hsee _ y r hr, fun r hr => hsee _ y r hr⟩
  · exact Locks.mem_release.mpr ⟨hlock, (hactive y hy).1⟩
  · exact h.exclusive a (Locks.mem_release.mp ha).1 b (Locks.mem_release.mp hb).1
  · exact h.unique a ha b hb (hlive.of_update hx) (hlive'.of_update hx)
  · exact Or.inl (Function.update_of_ne (hactive y hy).1 _ _)

/-- A transaction that enters a phase keeps the tables sound, if the phase holds. -/
theorem Sound.enter (h : Sound hash s) {phase : Phase} (hphase : PhaseHolds hash s x phase) : Sound hash (s.enter x phase) := by
  refine h.keep rfl (fun _ hy => hy) (fun _ _ hlive => hlive) (fun _ _ => ⟨fun _ hr => hr, fun _ hr => hr, fun _ hr => hr⟩)
    (fun _ _ _ hlock => hlock) h.exclusive h.unique (fun y _ => ?_)
  by_cases hyx : y = x
  · subst hyx
    refine Or.inr ?_
    have hentered : (s.enter y phase).phase y = phase := Function.update_self _ _ _
    rw [hentered]
    exact hphase.mono ⟨fun _ hr => hr, fun _ hr => hr, fun _ hr => hr⟩ (fun _ hlock => hlock) fun _ _ hlink => hlink
  · exact Or.inl (Function.update_of_ne hyx _ _)

/-- The resolutions that are compared are found if one is, and then share their key. -/
theorem grounded_of_compare {id id' : Uuid}
    (hfound : (s.resolution? x id).isSome = true ∨ (s.resolution? x id').isSome = true)
    (hkey : (s.resolution? x id).map (·.key) = (s.resolution? x id').map (·.key)) :
    ∃ e r, s.resolution? x id = some e ∧ e ∈ visible s.outcome x s.resolutions ∧ e.id = id ∧
      r ∈ visible s.outcome x s.resolutions ∧ r.id = id' ∧ e.key = r.key := by
  have hboth : (s.resolution? x id).isSome = (s.resolution? x id').isSome := by
    rw [← Option.isSome_map (f := fun r => r.key), hkey, Option.isSome_map]
  have hearlier : (s.resolution? x id).isSome = true := hfound.elim (fun h => h) fun h => hboth.trans h
  obtain ⟨e, he⟩ := Option.isSome_iff_exists.mp hearlier
  obtain ⟨r, hr⟩ := Option.isSome_iff_exists.mp (hboth ▸ hearlier)
  rw [he, hr] at hkey
  exact ⟨e, r, he, (State.resolution?_eq_some he).1, (State.resolution?_eq_some he).2, (State.resolution?_eq_some hr).1,
    (State.resolution?_eq_some hr).2, Option.some.inj hkey⟩

/-- The comparison keeps the tables sound, if it finds both resolutions. -/
theorem Sound.compare (h : Sound hash s) (hx : s.outcome x = .active) (hguard : Guarded s (.compare x link)) :
    Sound hash (s.compare x link) := by
  unfold State.compare
  simp only
  split
  next hcompared =>
    obtain ⟨e, r, hfound, he, hid, hr, hrid, hkey⟩ := grounded_of_compare hguard hcompared.2
    exact h.enter ⟨e, hfound, ⟨he, hid⟩, r, hr, hrid, hkey⟩
  next => exact h.finish hx _ (by decide)

/-- A lock that no other transaction holds keeps the tables sound. -/
theorem Sound.lock {earlier : Option Resolution} (h : Sound hash s)
    (hphase : PhaseHolds hash s x (.compared link earlier)) (hlock : s.lock hash x link earlier = some s') : Sound hash s' := by
  obtain ⟨e, rfl, hground⟩ := hphase
  simp only [State.lock] at hlock
  split at hlock
  case isFalse => cases hlock
  case isTrue hfree =>
    cases hlock
    refine h.keep rfl (fun _ hy => hy) (fun _ _ hlive => hlive) (fun _ _ => ⟨fun _ hr => hr, fun _ hr => hr, fun _ hr => hr⟩)
      (fun _ _ _ hheld => List.mem_cons_of_mem _ hheld) ?_ h.unique (fun y _ => ?_)
    · rintro a ha b hb hab
      rcases List.mem_cons.mp ha with rfl | ha <;> rcases List.mem_cons.mp hb with rfl | hb
      · rfl
      · exact (hfree b hb hab.symm).symm
      · exact hfree a ha hab
      · exact h.exclusive a ha b hb hab
    · by_cases hyx : y = x
      · subst hyx
        refine Or.inr ?_
        have hentered : (s.enter y (.locked link (some e))).phase y = .locked link (some e) := Function.update_self _ _ _
        change PhaseHolds hash _ y ((s.enter y (.locked link (some e))).phase y)
        rw [hentered]
        exact ⟨e, rfl, hground.mono ⟨fun _ hr => hr, fun _ hr => hr, fun _ hr => hr⟩, List.mem_cons_self⟩
      · exact Or.inl (Function.update_of_ne hyx _ _)

/-- A search that finds no path keeps the tables sound: it sees every link that a path could use. -/
theorem Sound.search {earlier : Option Resolution} (h : Sound hash s) (hx : s.outcome x = .active)
    (hphase : PhaseHolds hash s x (.locked link earlier)) : Sound hash (s.search x link earlier) := by
  obtain ⟨e, rfl, hground, hlock⟩ := hphase
  unfold State.search
  simp only
  split
  next => exact h.finish hx _ (by decide)
  next hnone =>
    refine h.enter ⟨e, rfl, hground, hlock, fun hpath => hnone ?_⟩
    obtain ⟨r, hr, hrid, hkey⟩ := hground.later
    have hlive : r ∈ live s.outcome s.resolutions := mem_live_of_visible (by rw [hx]; decide) hr
    have hissuer : r.issuerId = e.issuerId := (congrArg LinkKey.issuerId hkey).symm
    rw [← hrid] at hpath ⊢
    exact mem_reachableFrom.mpr (h.visible_path hlive (by rwa [hissuer]) hpath)

/-- Rows that one transaction adds keep the tables sound. -/
theorem Sound.append (h : Sound hash s) (hlinks : s'.links = s.links) (houtcome : s'.outcome = s.outcome)
    (hresolutions : ∃ more, s'.resolutions = s.resolutions ++ more) (hevents : ∃ more, s'.events = s.events ++ more)
    (hscopes : ∃ more, s'.scopes = s.scopes ++ more) (hlocks : s'.locks = s.locks) (hphase : s'.phase = s.phase)
    (hunique : ∀ a ∈ s'.resolutions, ∀ b ∈ s'.resolutions, a.Live s.outcome → b.Live s.outcome →
      a.value.id = b.value.id → a.value = b.value) : Sound hash s' := by
  obtain ⟨more, hresolutions⟩ := hresolutions
  obtain ⟨more', hevents⟩ := hevents
  obtain ⟨more'', hscopes⟩ := hscopes
  refine h.keep hlinks (fun y hy => by rwa [houtcome] at hy) (fun row _ hrow => by rwa [houtcome] at hrow) (fun y _ => ?_)
    (fun y _ key hkey => by rwa [hlocks]) (by rw [hlocks]; exact h.exclusive) (by rw [houtcome]; exact hunique)
    (fun y _ => Or.inl (by rw [hphase]))
  refine ⟨fun r hr => ?_, fun r hr => ?_, fun r hr => ?_⟩
  · rw [houtcome, hresolutions]
    exact visible_append hr
  · rw [houtcome, hevents]
    exact visible_append hr
  · rw [houtcome, hscopes]
    exact visible_append hr

/-- A link of an error that passes the trigger and the checks cites a correction that covers the earlier resolution. -/
theorem cited_of_evidenced (hevidence : s.Evidenced x link (some e)) (hadmissible : link.Admissible) : Cited s x link e := by
  intro hkind
  obtain ⟨id, hid⟩ := Option.ne_none_iff_exists'.mp (hadmissible.2.1 hkind)
  obtain ⟨-, hformal, event, hevent, scope, hscope, hof, hfiling, hperiod, hconcept⟩ := hevidence id hid
  obtain ⟨hvisible, heventId⟩ := State.event?_eq_some hevent
  refine ⟨event, hvisible, ?_, hformal event hevent hkind, scope, hscope, hof, ?_, ?_, ?_⟩
  · rw [hid, heventId]
  · exact fun filing hf => (Option.some.inj (hfiling filing hf)).symm
  · exact fun period hp => (Option.some.inj (hperiod period hp)).symm
  · exact fun concept hc => (Option.some.inj (hconcept concept hc)).symm

/-- The state when a transaction has added a link. -/
def State.withLink (s : State) (x : ℕ) (link : RevisionLink) : State :=
  { s.enter x .idle with
    links := s.links ++ [⟨x, link⟩]
    unchecked := Function.update s.unchecked x (s.unchecked x ++ [link]) }

/-- The links that are there when one has been added. -/
theorem revises_withLink (hx : s.outcome x = .active) {a b : Uuid} :
    (s.withLink x link).Revises a b ↔ s.Revises a b ∨ a = link.earlierResolutionId ∧ b = link.laterResolutionId := by
  constructor
  · rintro ⟨row, hrow, hlive, rfl, rfl⟩
    rcases List.mem_append.mp hrow with hrow | hrow
    · exact Or.inl ⟨row, hrow, hlive, rfl, rfl⟩
    · rw [List.mem_singleton.mp hrow]
      exact Or.inr ⟨rfl, rfl⟩
  · rintro (⟨row, hrow, hlive, rfl, rfl⟩ | ⟨rfl, rfl⟩)
    · exact ⟨row, List.mem_append_left _ hrow, hlive, rfl, rfl⟩
    · refine ⟨⟨x, link⟩, List.mem_append_right _ (List.mem_singleton_self _), ?_, rfl, rfl⟩
      change s.outcome x ≠ .aborted
      rw [hx]
      decide

/-- A path of another issuer does not use a link that is added: its transaction would need the lock of that issuer. -/
theorem Sound.no_path_back (h : Sound hash s) (hx : s.outcome x = .active) {y : ℕ} (hyx : y ≠ x) (hy : s.outcome y = .active)
    (hground : Grounded s x link e) (hlock : (hash e.issuerId, x) ∈ s.locks) {link' : RevisionLink} {e' : Resolution}
    (hground' : Grounded s y link' e') (hlock' : (hash e'.issuerId, y) ∈ s.locks)
    (hpath : ¬ Relation.ReflTransGen s.Revises link'.laterResolutionId link'.earlierResolutionId) :
    ¬ Relation.ReflTransGen (s.withLink x link).Revises link'.laterResolutionId link'.earlierResolutionId := by
  intro hback
  rcases Relation.reflTransGen_iff_eq_or_transGen.mp hback with heq | hback
  · rw [heq] at hpath
    exact hpath .refl
  · have hadded := Relation.TransGen.mono (fun a b => (revises_withLink hx).mp) _ _ hback
    rcases transGen_of_added hadded with hback | ⟨hbefore, -⟩
    · exact hpath hback.to_reflTransGen
    · obtain ⟨r, hr, hrid, hkey⟩ := hground'.later
      rw [← hrid] at hbefore
      obtain ⟨r', hr', hrid', hkey'⟩ := h.key_of_path (mem_live_of_visible (by rw [hy]; decide) hr) hbefore
      have heq : r' = e := h.eq_of_id hr' (mem_live_of_visible (by rw [hx]; decide) hground.earlier.1) (hrid'.trans hground.earlier.2.symm)
      have hissuer : e'.issuerId = e.issuerId := by
        rw [← heq]
        exact congrArg LinkKey.issuerId (hkey.trans hkey')
      exact hyx (h.exclusive _ hlock' _ hlock (congrArg hash hissuer))

/-- A link that passes the trigger and the checks keeps the tables sound. -/
theorem Sound.withLink (h : Sound hash s) (hx : s.outcome x = .active) (hground : Grounded s x link e)
    (hlock : (hash e.issuerId, x) ∈ s.locks) (hcited : Cited s x link e)
    (hpath : ¬ Relation.ReflTransGen s.Revises link.laterResolutionId link.earlierResolutionId) :
    Sound hash (s.withLink x link) := by
  have hshows : ∀ y, Shows s (s.withLink x link) y := fun y => ⟨fun _ hr => hr, fun _ hr => hr, fun _ hr => hr⟩
  refine ⟨h.unique, ?_, h.exclusive, ?_, ?_⟩
  · intro row hrow hlive
    rcases List.mem_append.mp hrow with hrow | hrow
    · obtain ⟨e', hground', hcited', hlock'⟩ := h.links row hrow hlive
      exact ⟨e', hground'.mono (hshows _), hcited'.mono (hshows _), hlock'⟩
    · rw [List.mem_singleton.mp hrow]
      exact ⟨e, hground.mono (hshows x), hcited.mono (hshows x), fun _ => hlock⟩
  · intro a hcycle
    exact acyclic_of_added h.acyclic hpath a (Relation.TransGen.mono (fun a b => (revises_withLink hx).mp) _ _ hcycle)
  · intro y hy
    by_cases hyx : y = x
    · have hidle : (s.withLink x link).phase y = .idle := by
        rw [hyx]
        exact Function.update_self _ _ _
      rw [hidle]
      trivial
    · have hsame : (s.withLink x link).phase y = s.phase y := Function.update_of_ne hyx _ _
      rw [hsame]
      have hphase := h.phases y hy
      cases hcase : s.phase y with
      | idle => trivial
      | compared link' earlier =>
        rw [hcase] at hphase
        obtain ⟨e', rfl, hground'⟩ := hphase
        exact ⟨e', rfl, hground'.mono (hshows y)⟩
      | locked link' earlier =>
        rw [hcase] at hphase
        obtain ⟨e', rfl, hground', hlock'⟩ := hphase
        exact ⟨e', rfl, hground'.mono (hshows y), hlock'⟩
      | searched link' earlier =>
        rw [hcase] at hphase
        obtain ⟨e', rfl, hground', hlock', hpath'⟩ := hphase
        exact ⟨e', rfl, hground'.mono (hshows y), hlock', h.no_path_back hx hyx hy hground hlock hground' hlock' hpath'⟩

/-- The insertion of a link after its search keeps the tables sound. -/
theorem Sound.insertLink {earlier : Option Resolution} (h : Sound hash s) (hx : s.outcome x = .active)
    (hphase : PhaseHolds hash s x (.searched link earlier)) (hinsert : s.insertLink x link earlier = some s') : Sound hash s' := by
  obtain ⟨e, rfl, hground, hlock, hpath⟩ := hphase
  unfold State.insertLink at hinsert
  split at hinsert
  case isTrue => cases hinsert
  case isFalse =>
    split at hinsert
    case isTrue hpassed =>
      cases hinsert
      exact h.withLink hx hground hlock (cited_of_evidenced hpassed.1 hpassed.2.1) hpath
    case isFalse =>
      cases hinsert
      exact h.finish hx _ (by decide)

/-- What an active transaction does keeps the tables sound. -/
theorem Sound.performActive (h : Sound hash s) {a : Action} (hx : s.outcome a.transaction = .active) (hguard : Guarded s a)
    (hstep : s.performActive hash a = some s') : Sound hash s' := by
  cases a with
  | insertResolution x r =>
    simp only [State.performActive, Option.ite_none_right_eq_some, Option.some.injEq] at hstep
    obtain ⟨hnew, rfl⟩ := hstep
    refine h.append rfl rfl ⟨_, rfl⟩ ⟨[], (List.append_nil _).symm⟩ ⟨[], (List.append_nil _).symm⟩ rfl rfl ?_
    intro a ha b hb hlive hlive' hid
    rcases List.mem_append.mp ha with ha | ha <;> rcases List.mem_append.mp hb with hb | hb
    · exact h.unique a ha b hb hlive hlive' hid
    · rw [List.mem_singleton.mp hb] at hid
      exact absurd hid (hnew a ha hlive)
    · rw [List.mem_singleton.mp ha] at hid
      exact absurd hid.symm (hnew b hb hlive')
    · rw [List.mem_singleton.mp ha, List.mem_singleton.mp hb]
  | insertEvent x e =>
    simp only [State.performActive, Option.ite_none_right_eq_some, Option.some.injEq] at hstep
    obtain ⟨-, rfl⟩ := hstep
    exact h.append rfl rfl ⟨[], (List.append_nil _).symm⟩ ⟨_, rfl⟩ ⟨[], (List.append_nil _).symm⟩ rfl rfl h.unique
  | insertScope x scope =>
    simp only [State.performActive, Option.ite_none_right_eq_some, Option.some.injEq] at hstep
    obtain ⟨-, rfl⟩ := hstep
    exact h.append rfl rfl ⟨[], (List.append_nil _).symm⟩ ⟨[], (List.append_nil _).symm⟩ ⟨_, rfl⟩ rfl rfl h.unique
  | compare x link =>
    simp only [State.performActive, Option.ite_none_right_eq_some, Option.some.injEq] at hstep
    obtain ⟨-, rfl⟩ := hstep
    exact h.compare hx hguard
  | lock x =>
    have hphase := h.phases x hx
    simp only [State.performActive] at hstep
    split at hstep
    case h_1 link earlier hcase =>
      rw [hcase] at hphase
      exact h.lock hphase hstep
    case h_2 => cases hstep
  | search x =>
    have hphase := h.phases x hx
    simp only [State.performActive] at hstep
    split at hstep
    case h_1 link earlier hcase =>
      rw [hcase] at hphase
      cases hstep
      exact h.search hx hphase
    case h_2 => cases hstep
  | insert x =>
    have hphase := h.phases x hx
    simp only [State.performActive] at hstep
    split at hstep
    case h_1 link earlier hcase =>
      rw [hcase] at hphase
      exact h.insertLink hx hphase hstep
    case h_2 => cases hstep
  | endStatement x =>
    simp only [State.performActive, Option.ite_none_right_eq_some] at hstep
    obtain ⟨-, hstep⟩ := hstep
    split at hstep
    case isTrue =>
      cases hstep
      exact h.append rfl rfl ⟨[], (List.append_nil _).symm⟩ ⟨[], (List.append_nil _).symm⟩ ⟨[], (List.append_nil _).symm⟩
        rfl rfl h.unique
    case isFalse =>
      cases hstep
      exact h.finish hx _ (by decide)
  | commit x =>
    simp only [State.performActive, Option.ite_none_right_eq_some, Option.some.injEq] at hstep
    obtain ⟨-, rfl⟩ := hstep
    exact h.finish hx _ (by decide)
  | abort x =>
    cases hstep
    exact h.finish hx _ (by decide)

/-- Empty tables are sound. -/
theorem Sound.initial (h : s.Initial) : Sound hash s := by
  obtain ⟨-, hresolutions, -, -, hlinks, hlocks, hphase, -⟩ := h
  refine ⟨by simp [hresolutions], by simp [hlinks], by simp [hlocks], ?_, ?_⟩
  · intro a hcycle
    obtain ⟨b, ⟨row, hrow, -⟩, -⟩ := Relation.TransGen.head'_iff.mp hcycle
    rw [hlinks] at hrow
    cases hrow
  · intro x _
    rw [hphase x]
    trivial

/-- The tables stay sound while the trigger finds the resolutions of links. -/
theorem invariant_sound : (guardedSystem hash).Invariant (Sound hash) where
  initial _ h := Sound.initial h
  step s a s' h hstep := by
    obtain ⟨hperform, hguard⟩ := hstep
    simp only [perform, Option.ite_none_right_eq_some] at hperform
    exact h.performActive hperform.1 hguard hperform.2

/-! ### The history of revisions -/

/-- Every resolution with an identifier shares its key with one that has another identifier. -/
def KeyShared (s : State) (a b : Uuid) : Prop :=
  ∀ r ∈ live s.outcome s.resolutions, r.id = a → ∃ r' ∈ live s.outcome s.resolutions, r'.id = b ∧ r.key = r'.key

/-- Shared keys are shared along a chain. -/
theorem KeyShared.trans {a b c : Uuid} (h : KeyShared s a b) (h' : KeyShared s b c) : KeyShared s a c := by
  intro r hr hid
  obtain ⟨r', hr', hid', hkey⟩ := h r hr hid
  obtain ⟨r'', hr'', hid'', hkey'⟩ := h' r' hr' hid'
  exact ⟨r'', hr'', hid'', hkey.trans hkey'⟩

/-- Links connect resolutions that share their key, whichever way they lead. -/
theorem Sound.keyShared (h : Sound hash s) {a b : Uuid} (hconnected : Relation.EqvGen s.Revises a b) :
    KeyShared s a b ∧ KeyShared s b a := by
  induction hconnected with
  | rel a b hlink =>
    constructor
    · rintro r hr rfl
      exact h.key_of_revises hr hlink
    · rintro r hr rfl
      exact h.key_of_revised hr hlink
  | refl a => exact ⟨fun r hr hid => ⟨r, hr, hid, rfl⟩, fun r hr hid => ⟨r, hr, hid, rfl⟩⟩
  | symm a b _ ih => exact ⟨ih.2, ih.1⟩
  | trans a b c _ _ ih ih' => exact ⟨ih.1.trans ih'.1, ih'.2.trans ih.2⟩

/-- Resolutions that links connect share their key. -/
theorem Sound.key_of_connected (h : Sound hash s) {r r' : Resolution} (hr : r ∈ live s.outcome s.resolutions)
    (hr' : r' ∈ live s.outcome s.resolutions) (hconnected : Relation.EqvGen s.Revises r.id r'.id) : r.key = r'.key := by
  obtain ⟨r'', hr'', hid, hkey⟩ := (h.keyShared hconnected).1 r hr rfl
  rw [hkey, h.eq_of_id hr'' hr' hid]

/-- A link joins two resolutions with one key, and a link of an error cites a correction that covers the earlier one. -/
def RevisionLink.Integral (s : State) (link : RevisionLink) : Prop :=
  ∃ earlier ∈ live s.outcome s.resolutions, ∃ later ∈ live s.outcome s.resolutions,
    earlier.id = link.earlierResolutionId ∧ later.id = link.laterResolutionId ∧ earlier.key = later.key ∧
    (link.relationKind = .errorRestatement →
      ∃ event ∈ live s.outcome s.events, link.filingEventId = some event.id ∧ event.eventKind = .formalCorrection ∧
        ∃ scope ∈ live s.outcome s.scopes, scope.eventId = event.id ∧ scope.Covers earlier)

/-- The links of sound tables are integral. -/
theorem Sound.integral (h : Sound hash s) (hlink : link ∈ live s.outcome s.links) : link.Integral s := by
  obtain ⟨row, hrow, hlive, rfl⟩ := mem_live.mp hlink
  obtain ⟨e, hground, hcited, -⟩ := h.links row hrow hlive
  obtain ⟨⟨he, hid⟩, r, hr, hrid, hkey⟩ := hground
  refine ⟨e, mem_live_of_visible hlive he, r, mem_live_of_visible hlive hr, hid, hrid, hkey, fun hkind => ?_⟩
  obtain ⟨event, hevent, heventId, hformal, scope, hscope, hof, hcovers⟩ := hcited hkind
  exact ⟨event, mem_live_of_visible hlive hevent, heventId, hformal, scope, mem_live_of_visible hlive hscope, hof, hcovers⟩

/-- The history of revisions has no cycle, its links are integral, and resolutions that links connect share their key,
while the trigger finds the resolutions of links. -/
theorem acyclic_of_found (hash : Uuid → ℤ) (s : State) (h : (guardedSystem hash).Reachable s) :
    (∀ a, ¬ Relation.TransGen s.Revises a a) ∧ (∀ link ∈ live s.outcome s.links, link.Integral s) ∧
    ∀ r ∈ live s.outcome s.resolutions, ∀ r' ∈ live s.outcome s.resolutions,
      Relation.EqvGen s.Revises r.id r'.id → r.key = r'.key := by
  have hsound : Sound hash s := invariant_sound.holds h
  exact ⟨hsound.acyclic, fun link hlink => hsound.integral hlink, fun r hr r' hr' => hsound.key_of_connected hr hr'⟩

/-! ### Runs -/

/-- What transactions do in turn. -/
def performAll (hash : Uuid → ℤ) (s : State) (actions : List Action) : Option State := actions.foldlM (perform hash) s

/-- What transactions do in turn, while the trigger finds the resolutions of links. -/
def performGuarded (hash : Uuid → ℤ) (s : State) (actions : List Action) : Option State :=
  actions.foldlM (fun s a => if Guarded s a then perform hash s a else none) s

/-- What transactions do in turn leads to a reachable state. -/
theorem reachable_performAll {actions : List Action} (hs : (system hash).Reachable s)
    (h : performAll hash s actions = some s') : (system hash).Reachable s' := by
  induction actions generalizing s with
  | nil =>
    cases h
    exact hs
  | cons a actions ih =>
    obtain ⟨t, hstep, hrest⟩ := Option.bind_eq_some_iff.mp h
    exact ih (hs.step hstep) hrest

/-- What transactions do in turn leads to a reachable state, while the trigger finds the resolutions of links. -/
theorem reachable_performGuarded {actions : List Action} (hs : (guardedSystem hash).Reachable s)
    (h : performGuarded hash s actions = some s') : (guardedSystem hash).Reachable s' := by
  induction actions generalizing s with
  | nil =>
    cases h
    exact hs
  | cons a actions ih =>
    obtain ⟨t, hstep, hrest⟩ := Option.bind_eq_some_iff.mp h
    simp only [Option.ite_none_right_eq_some] at hstep
    exact ih (hs.step ⟨hstep.2, hstep.1⟩) hrest

/-- Tables without rows. -/
def State.empty : State := ⟨fun _ => .active, fun _ => true, [], [], [], [], [], fun _ => .idle, fun _ => []⟩

/-- A resolution of an issuer. -/
def sampleResolution (id issuer : Uuid) : Resolution := ⟨id, issuer, .revenue, 1, 1, 1, none, .income, "us-gaap", 1⟩

/-- A link without an event. -/
def sampleLink (earlier later : Uuid) : RevisionLink := ⟨earlier, later, .comparativeRevision, none, "later filing", "note 2"⟩

/-- A restatement of an error that a correction evidences. -/
def sampleRestatement : RevisionLink := ⟨1, 2, .errorRestatement, some 5, "restated", "note 2"⟩

/-- A transaction writes resolutions, an event and its scope; another one links the resolutions. -/
def sampleActions : List Action :=
  [.insertResolution 1 (sampleResolution 1 7), .insertResolution 1 (sampleResolution 2 7),
    .insertEvent 1 ⟨5, 7, .formalCorrection⟩, .insertScope 1 ⟨5, some 1, none, some .revenue⟩, .endStatement 1, .commit 1,
    .compare 2 sampleRestatement, .lock 2, .search 2, .insert 2, .endStatement 2, .commit 2]

/-- The tables are empty and no transaction has begun. -/
theorem initial_empty : State.empty.Initial := ⟨fun _ => rfl, rfl, rfl, rfl, rfl, rfl, fun _ => rfl, fun _ => rfl⟩

/-- The sample transactions leave a link that has no cycle and is integral. -/
theorem acyclic_of_found_sample :
    ∃ s, (guardedSystem Int.ofNat).Reachable s ∧ live s.outcome s.links = [sampleRestatement] ∧
      (∀ a, ¬ Relation.TransGen s.Revises a a) ∧ sampleRestatement.Integral s := by
  have hrun : (performGuarded Int.ofNat State.empty sampleActions).map (fun s => live s.outcome s.links) = some [sampleRestatement] := by
    decide +kernel
  obtain ⟨s, hs, hlinks⟩ := Option.map_eq_some_iff.mp hrun
  have hreachable : (guardedSystem Int.ofNat).Reachable s := reachable_performGuarded (.initial initial_empty) hs
  obtain ⟨hacyclic, hintegral, -⟩ := acyclic_of_found Int.ofNat s hreachable
  exact ⟨s, hreachable, hlinks, hacyclic, hintegral _ (hlinks ▸ List.mem_singleton_self _)⟩

/-- Two transactions link resolutions, of different issuers and in opposite directions, that another transaction commits
after their searches and before their statements end. -/
def unseenActions : List Action :=
  [.insertResolution 1 (sampleResolution 1 7), .insertResolution 1 (sampleResolution 2 8), .endStatement 1,
    .compare 2 (sampleLink 1 2), .lock 2, .search 2, .insert 2, .compare 3 (sampleLink 2 1), .lock 3, .search 3, .insert 3,
    .commit 1, .endStatement 2, .commit 2, .endStatement 3, .commit 3]

/-- Resolutions that the trigger does not find are linked in a cycle and across issuers. -/
theorem unseen_resolutions_cycle :
    ∃ s, (system Int.ofNat).Reachable s ∧ (∀ row ∈ s.links, s.outcome row.writer = .committed) ∧ Relation.TransGen s.Revises 1 1 ∧
      ∃ link ∈ live s.outcome s.links, ∃ earlier ∈ live s.outcome s.resolutions, ∃ later ∈ live s.outcome s.resolutions,
        earlier.id = link.earlierResolutionId ∧ later.id = link.laterResolutionId ∧ earlier.issuerId ≠ later.issuerId := by
  have hrun : (performAll Int.ofNat State.empty unseenActions).map (fun s =>
        (s.links, s.links.map (fun row => s.outcome row.writer), live s.outcome s.resolutions)) =
      some ([⟨2, sampleLink 1 2⟩, ⟨3, sampleLink 2 1⟩], [.committed, .committed], [sampleResolution 1 7, sampleResolution 2 8]) := by
    decide +kernel
  obtain ⟨s, hs, hrows⟩ := Option.map_eq_some_iff.mp hrun
  obtain ⟨hlinks, hrest⟩ := Prod.mk.inj hrows
  obtain ⟨houtcomes, hresolutions⟩ := Prod.mk.inj hrest
  rw [hlinks] at houtcomes
  obtain ⟨hfirst, hsecond⟩ : s.outcome 2 = .committed ∧ s.outcome 3 = .committed := by simpa using houtcomes
  have hcommitted : ∀ row ∈ s.links, s.outcome row.writer = .committed := by
    simp [hlinks, hfirst, hsecond]
  have hlive : ∀ row ∈ s.links, row.Live s.outcome := by
    intro row hrow
    rw [Row.Live, hcommitted row hrow]
    decide
  have hforth : s.Revises 1 2 := by
    have hrow : (⟨2, sampleLink 1 2⟩ : Row RevisionLink) ∈ s.links := by simp [hlinks]
    exact ⟨_, hrow, hlive _ hrow, rfl, rfl⟩
  have hback : s.Revises 2 1 := by
    have hrow : (⟨3, sampleLink 2 1⟩ : Row RevisionLink) ∈ s.links := by simp [hlinks]
    exact ⟨_, hrow, hlive _ hrow, rfl, rfl⟩
  have hlink : sampleLink 1 2 ∈ live s.outcome s.links := by
    have hrow : (⟨2, sampleLink 1 2⟩ : Row RevisionLink) ∈ s.links := by simp [hlinks]
    exact mem_live.mpr ⟨_, hrow, hlive _ hrow, rfl⟩
  refine ⟨s, reachable_performAll (.initial initial_empty) hs, hcommitted, .tail (.single hforth) hback, sampleLink 1 2, hlink,
    sampleResolution 1 7, ?_, sampleResolution 2 8, ?_, rfl, rfl, by decide⟩
  · simp [hresolutions]
  · simp [hresolutions]

end EquityEval.Evidence
