import TypeAtlas.Proofs.Order.Cascade

/-! Placing packages as a relation between orders, with all references at hand in every step: what
is under way alone keeps it from going round in circles.  It ends, whatever the references are, and
it brings in what leads from the package over packages that are not yet where they belong. -/

namespace TypeAtlas.PackageOrder

open Relation

variable {edges edges' : List Edge} {placing ps ps' : List ObjectId}
  {order order₁ order₂ order' : List ObjectId} {p q anchor : ObjectId} {Kept : ObjectId → Prop}

/-- Packages are placed before an anchor one after another: those under way are left alone, and so
are those that stand before it.  The others move, and what they depend on is placed before them. -/
inductive Placed (edges : List Edge) : List ObjectId → ObjectId → List ObjectId → List ObjectId →
    List ObjectId → Prop
  | nil (placing : List ObjectId) (anchor : ObjectId) (order : List ObjectId) :
      Placed edges placing anchor [] order order
  | underway {placing ps order order' : List ObjectId} {p anchor : ObjectId} :
      p ∈ placing → Placed edges placing anchor ps order order' →
      Placed edges placing anchor (p :: ps) order order'
  | stays {placing ps order order' : List ObjectId} {p anchor : ObjectId} :
      p ∉ placing → anchor ∉ order ∨ Precedes order p anchor →
      Placed edges placing anchor ps order order' →
      Placed edges placing anchor (p :: ps) order order'
  | moves {placing ps order order₁ order₂ order' : List ObjectId} {p anchor : ObjectId} :
      p ∉ placing → Moves p anchor order order₁ →
      Placed edges (p :: placing) p ((Edge.outOf edges p).map Edge.dependency) order₁ order₂ →
      Placed edges placing anchor ps order₂ order' →
      Placed edges placing anchor (p :: ps) order order'

def CalledFor (edges : List Edge) (next now : ObjectId × List ObjectId) : Prop :=
  now.1 ∉ now.2 ∧ Edge.Links edges now.1 next.1 ∧ next.2 = now.1 :: now.2

/-- The references out of packages that are not under way get fewer from call to call. -/
theorem wellFounded_calledFor (edges : List Edge) : WellFounded (CalledFor edges) := by
  apply Subrelation.wf _
    (measure fun call => (edges.filter fun e => e.referencer ∉ call.2).length).wf
  rintro ⟨d, placing'⟩ ⟨p, placing⟩ ⟨hp, hlink, rfl⟩
  have he : ⟨p, d⟩ ∈ Edge.outOf (edges.filter fun e => e.referencer ∉ placing) p := by
    simpa [hp, Edge.Links] using hlink
  have hless := length_elsewhere_lt he
  have hsame : Edge.elsewhere (edges.filter fun e => e.referencer ∉ placing) p
      = edges.filter fun e => e.referencer ∉ p :: placing := by
    simp [Edge.elsewhere, List.filter_filter]
  rwa [hsame] at hless

theorem Placed.append (h : Placed edges placing anchor ps order order₁)
    (h' : Placed edges placing anchor ps' order₁ order') :
    Placed edges placing anchor (ps ++ ps') order order' := by
  induction h with
  | nil => exact h'
  | underway hp _ ih => exact .underway hp (ih h')
  | stays hp hstays _ ih => exact .stays hp hstays (ih h')
  | moves hp hmoves hdeps _ _ ih => exact .moves hp hmoves hdeps (ih h')

theorem Placed.unique (h : Placed edges placing anchor ps order order₁)
    (h' : Placed edges placing anchor ps order order₂) : order₁ = order₂ := by
  induction h generalizing order₂ with
  | nil =>
    cases h'
    rfl
  | underway hp _ ih =>
    cases h' with
    | underway _ hrest => exact ih hrest
    | stays hnot => exact absurd hp hnot
    | moves hnot => exact absurd hp hnot
  | stays hp hstays _ ih =>
    cases h' with
    | underway hnot => exact absurd hnot hp
    | stays _ _ hrest => exact ih hrest
    | moves _ hmoves =>
      rw [moves_iff, stays_iff.mpr hstays] at hmoves
      contradiction
  | moves hp hmoves _ _ ihdeps ih =>
    rw [moves_iff] at hmoves
    cases h' with
    | underway hnot => exact absurd hnot hp
    | stays _ hstays =>
      rw [stays_iff.mpr hstays] at hmoves
      contradiction
    | moves _ hmoves' hdeps hrest =>
      obtain rfl := Option.some.inj (hmoves.symm.trans (moves_iff.mp hmoves'))
      obtain rfl := ihdeps hdeps
      exact ih hrest

theorem placed_dependencies {es : List Edge}
    (h : ∀ e ∈ es, ∀ order, Placed edges (p :: placing) p [e.dependency] order
      (placeBefore (Edge.elsewhere edges' p) e.dependency p (p :: placing) order)) :
    Placed edges (p :: placing) p (es.map Edge.dependency) order
      (placeDependencies edges' p placing es order) := by
  induction es generalizing order with
  | nil => exact .nil ..
  | cons e es ih =>
    have hfirst := h e List.mem_cons_self order
    exact hfirst.append (ih fun e he => h e (List.mem_cons_of_mem _ he))

theorem placed_placeBefore (hsame : ∀ q ∉ placing, Edge.outOf edges' q = Edge.outOf edges q) :
    Placed edges placing anchor [p] order (placeBefore edges' p anchor placing order) := by
  induction hcall : (p, placing) using (wellFounded_calledFor edges).induction
    generalizing edges' p anchor placing order with
  | _ call ih =>
    subst hcall
    by_cases hp : p ∈ placing
    · rw [placeBefore_of_mem hp]
      exact .underway hp (.nil ..)
    cases hm : moved? order p anchor with
    | none =>
      rw [placeBefore_of_not_moved hm]
      exact .stays hp (stays_iff.mp hm) (.nil ..)
    | some order₁ =>
      rw [placeBefore_of_moved hp hm, hsame p hp]
      refine .moves hp (moves_iff.mpr hm) (placed_dependencies fun e he order => ?_) (.nil ..)
      have hcalled : CalledFor edges (e.dependency, p :: placing) (p, placing) :=
        ⟨hp, Edge.links_of_mem_outOf he, rfl⟩
      apply ih _ hcalled _ rfl
      intro q hq
      rw [List.mem_cons, not_or] at hq
      rw [Edge.outOf_elsewhere hq.1, hsame q hq.2]

theorem placed_iff : Placed edges placing anchor [p] order order'
    ↔ order' = placeBefore edges p anchor placing order := by
  have hplaced : Placed edges placing anchor [p] order (placeBefore edges p anchor placing order) :=
    placed_placeBefore fun _ _ => rfl
  constructor
  · intro h
    exact h.unique hplaced
  · rintro rfl
    exact hplaced

theorem Placed.others (h : Placed edges placing anchor ps order order') :
    Rearranged (· ∉ placing) order order' := by
  induction h with
  | nil => exact .refl _
  | underway _ _ ih => exact ih
  | stays _ _ _ ih => exact ih
  | @moves placing _ order order₁ _ _ p _ hp hmoves _ _ ihdeps ih =>
    have hfirst : Rearranged (· ∉ placing) order order₁ := .move (.refl _) hp (moves_iff.mp hmoves)
    have hdeps := ihdeps.mono fun q (hq : q ∉ p :: placing) => List.not_mem_of_not_mem_cons hq
    exact (hfirst.trans hdeps).trans ih

theorem Placed.precedes (h : Placed edges placing anchor ps order order') (hn : order.Nodup)
    (hq : q ∈ placing) (hpq : Precedes order p q) : Precedes order' p q :=
  h.others.precedes hn (by simpa using hq) hpq

theorem Placed.before (h : Placed edges (p :: placing) p ps order₁ order₂) (hn : order.Nodup)
    (hp : p ∉ placing) (hanchor : anchor ∈ placing) (hm : moved? order p anchor = some order₁) :
    Precedes order₂ p anchor := by
  have hne : p ≠ anchor := fun heq => hp (heq ▸ hanchor)
  exact h.precedes (nodup_moved hn hm) (List.mem_cons_of_mem p hanchor) (precedes_moved hn hne hm)

theorem Placed.front (h : Placed edges placing anchor ps order order') (hn : order.Nodup)
    (hanchor : anchor ∈ placing) : Rearranged (Precedes order' · anchor) order order' := by
  induction h with
  | nil => exact .refl _
  | underway _ _ ih => exact ih hn hanchor
  | stays _ _ _ ih => exact ih hn hanchor
  | @moves placing _ order order₁ order₂ order' p anchor hp hmoves hdeps hrest ihdeps ih =>
    have hm := moves_iff.mp hmoves
    have hn₁ := nodup_moved hn hm
    have hn₂ := hdeps.others.nodup hn₁
    have hbefore := hdeps.before hn hp hanchor hm
    have hfirst : Rearranged (Precedes order' · anchor) order order₁ :=
      .move (.refl _) (hrest.precedes hn₂ hanchor hbefore) hm
    have hnext : Rearranged (Precedes order' · anchor) order₁ order₂ :=
      (ihdeps hn₁ List.mem_cons_self).mono fun q hq =>
        hrest.precedes hn₂ hanchor (hq.trans hbefore)
    exact (hfirst.trans hnext).trans (ih hn₂ hanchor)

theorem Placed.next (h : Placed edges (p :: placing) p ps order₁ order₂) (hn : order.Nodup)
    (hp : p ∉ placing) (hanchor : anchor ∈ placing) (hm : moved? order p anchor = some order₁)
    (q : ObjectId) : Precedes order₂ q anchor ↔ q = p ∨ Precedes order₂ q p := by
  have hn₁ := nodup_moved hn hm
  have hne : p ≠ anchor := fun heq => hp (heq ▸ hanchor)
  have hbefore := h.before hn hp hanchor hm
  constructor
  · intro hq
    by_contra hbetween
    rw [not_or] at hbetween
    -- what stands between the two has not moved, and so stood there before
    have hfront := h.front hn₁ List.mem_cons_self
    have hmem : q ∈ order₁ := (hfront.mem hq.left_mem).resolve_right hbetween.2
    have hmem' : anchor ∈ order₁ := (mem_moved hm).mpr (.inr (anchor_mem_of_moved hm))
    have hthen := (hfront.precedes_iff hn₁ hmem hmem' hbetween.2 hbefore.asymm).mp hq
    cases (precedes_anchor_iff hn hne hm).mp hthen with
    | inl heq => exact hbetween.1 heq
    | inr hqp => exact hbetween.2 (h.precedes hn₁ List.mem_cons_self hqp)
  · rintro (rfl | hq)
    · exact hbefore
    · exact hq.trans hbefore

theorem Placed.leads {Loose : ObjectId → Prop} (h : Placed edges placing anchor ps order order')
    (hn : order.Nodup) (hanchor : anchor ∈ placing)
    (hloose : ∀ q ∉ placing, ¬ Precedes order q anchor → Loose q) :
    Rearranged (fun q => ∃ p ∈ ps, Loose p
      ∧ ReflTransGen (fun a b => Edge.Links edges a b ∧ Loose b) p q) order order' := by
  induction h with
  | nil => exact .refl _
  | underway _ _ ih =>
    exact (ih hn hanchor hloose).mono fun q ⟨p, hp, h⟩ => ⟨p, List.mem_cons_of_mem _ hp, h⟩
  | stays _ _ _ ih =>
    exact (ih hn hanchor hloose).mono fun q ⟨p, hp, h⟩ => ⟨p, List.mem_cons_of_mem _ hp, h⟩
  | @moves placing ps order order₁ order₂ order' p anchor hp hmoves hdeps hrest ihdeps ih =>
    have hm := moves_iff.mp hmoves
    have hn₁ := nodup_moved hn hm
    have hne : p ≠ anchor := fun heq => hp (heq ▸ hanchor)
    have hown : Loose p := hloose p hp (not_precedes_of_moved hm)
    -- nothing falls back behind the anchor, so that no more packages get loose
    have hnext := ihdeps hn₁ List.mem_cons_self fun q hq hnot =>
      hloose q (List.not_mem_of_not_mem_cons hq) (mt (precedes_moved_iff hn hm).mpr hnot)
    have hlast := ih (hdeps.others.nodup hn₁) hanchor fun q hq hnot =>
      hloose q hq fun hbefore => hnot (hdeps.precedes hn₁ (List.mem_cons_of_mem p hanchor)
        (hbefore.moved hn hm (Ne.symm hne)))
    refine .trans (.trans (.move (.refl order) ⟨p, ?_, hown, .refl⟩ hm) (hnext.mono ?_))
      (hlast.mono ?_)
    · exact List.mem_cons_self
    · rintro q ⟨d, hd, hlooseD, hq⟩
      exact ⟨p, List.mem_cons_self, hown, .head ⟨Edge.mem_dependencies.mp hd, hlooseD⟩ hq⟩
    · rintro q ⟨p', hp', h⟩
      exact ⟨p', List.mem_cons_of_mem p hp', h⟩

/-- What has come to stand before the anchor has its dependencies there as well, or under way. -/
def Followed (edges : List Edge) (placing : List ObjectId) (anchor : ObjectId)
    (Kept : ObjectId → Prop) (order : List ObjectId) : Prop :=
  ∀ q d, Precedes order q anchor → ¬ Kept q → Edge.Links edges q d →
    d ∈ placing ∨ Precedes order d anchor

theorem Followed.push (hf : Followed edges placing anchor Kept order) (hn : order.Nodup)
    (hm : moved? order p anchor = some order') : Followed edges (p :: placing) p Kept order' := by
  intro q d hq hkept hlink
  cases hf q d ((precedes_moved_iff hn hm).mp hq) hkept hlink with
  | inl hd => exact .inl (List.mem_cons_of_mem p hd)
  | inr hd => exact .inr ((precedes_moved_iff hn hm).mpr hd)

theorem Followed.pop (hf : Followed edges (p :: placing) p Kept order)
    (hout : ∀ d, Edge.Links edges p d → d ∈ p :: placing ∨ Precedes order d p)
    (hnext : ∀ q, Precedes order q anchor ↔ q = p ∨ Precedes order q p) :
    Followed edges placing anchor Kept order := by
  intro q d hq hkept hlink
  have hd : d ∈ p :: placing ∨ Precedes order d p := by
    cases (hnext q).mp hq with
    | inl heq => exact hout d (heq ▸ hlink)
    | inr hq => exact hf q d hq hkept hlink
  rw [List.mem_cons, or_assoc, or_left_comm, ← hnext] at hd
  exact hd

theorem Placed.followed (h : Placed edges placing anchor ps order order') (hn : order.Nodup)
    (hanchor : anchor ∈ placing) (hmem : anchor ∈ order)
    (hf : Followed edges placing anchor Kept order) :
    Followed edges placing anchor Kept order'
      ∧ ∀ p ∈ ps, p ∈ placing ∨ Precedes order' p anchor := by
  induction h with
  | nil => exact ⟨hf, by simp⟩
  | underway hp _ ih =>
    obtain ⟨hf', hps⟩ := ih hn hanchor hmem hf
    exact ⟨hf', List.forall_mem_cons.mpr ⟨.inl hp, hps⟩⟩
  | stays _ hstays hrest ih =>
    obtain ⟨hf', hps⟩ := ih hn hanchor hmem hf
    have hp := hstays.resolve_left (not_not_intro hmem)
    exact ⟨hf', List.forall_mem_cons.mpr ⟨.inr (hrest.precedes hn hanchor hp), hps⟩⟩
  | @moves placing ps order order₁ order₂ order' p anchor hp hmoves hdeps hrest ihdeps ih =>
    have hm := moves_iff.mp hmoves
    have hn₁ := nodup_moved hn hm
    have hn₂ := hdeps.others.nodup hn₁
    have hbefore := hdeps.before hn hp hanchor hm
    obtain ⟨hf₂, hout⟩ :=
      ihdeps hn₁ List.mem_cons_self ((mem_moved hm).mpr (.inl rfl)) (hf.push hn hm)
    have hpop := hf₂.pop (fun d hd => hout d (Edge.mem_dependencies.mpr hd))
      (hdeps.next hn hp hanchor hm)
    obtain ⟨hf', hps⟩ := ih hn₂ hanchor hbefore.right_mem hpop
    exact ⟨hf', List.forall_mem_cons.mpr ⟨.inr (hrest.precedes hn₂ hanchor hbefore), hps⟩⟩

def Misplaced (placing : List ObjectId) (anchor : ObjectId) (order : List ObjectId)
    (q : ObjectId) : Prop :=
  q ∉ placing ∧ ¬ Precedes order q anchor

/-- A way from one package to another that goes on over misplaced packages only. -/
def LeadsOver (edges : List Edge) (placing : List ObjectId) (anchor : ObjectId)
    (order : List ObjectId) : ObjectId → ObjectId → Prop :=
  ReflTransGen fun a b => Edge.Links edges a b ∧ Misplaced placing anchor order b

theorem LeadsOver.reflTransGen (h : LeadsOver edges placing anchor order p q) :
    ReflTransGen (Edge.Links edges) p q :=
  ReflTransGen.mono (fun _ _ hab => hab.1) _ _ h

theorem Followed.of_leadsOver
    (hf : Followed edges (p :: placing) p (Precedes order · anchor) order')
    (hout : ∀ d, Edge.Links edges p d → d ∈ p :: placing ∨ Precedes order' d p)
    (hway : LeadsOver edges placing anchor order p q) :
    q = p ∨ Misplaced placing anchor order q ∧ Precedes order' q p := by
  induction hway with
  | refl => exact .inl rfl
  | @tail b c _ hbc ih =>
    obtain ⟨hlink, hc⟩ := hbc
    have hafter : c ∈ p :: placing ∨ Precedes order' c p := by
      rcases ih with rfl | ⟨hb, hbefore⟩
      · exact hout c hlink
      · exact hf b c hbefore hb.2 hlink
    simpa [hc, hc.1] using hafter

theorem Placed.mem_iff (h : Placed edges placing anchor [p] order order') (hn : order.Nodup) :
    q ∈ order' ↔ q ∈ order ∨ anchor ∈ order ∧ Misplaced placing anchor order p
      ∧ LeadsOver edges placing anchor order p q := by
  cases h with
  | underway hp hrest =>
    cases hrest
    simp [Misplaced, hp]
  | stays hp hstays hrest =>
    cases hrest
    have hnot : ¬ (anchor ∈ order ∧ Misplaced placing anchor order p) :=
      fun h => hstays.elim (· h.1) h.2.2
    simp [← and_assoc, hnot]
  | @moves _ _ _ order₁ _ _ _ _ hp hmoves hdeps hrest =>
    cases hrest
    have hm := moves_iff.mp hmoves
    have hn₁ := nodup_moved hn hm
    constructor
    · intro hq
      have hloose : ∀ q ∉ p :: placing, ¬ Precedes order₁ q p → Misplaced placing anchor order q :=
        fun q hq hnot =>
          ⟨List.not_mem_of_not_mem_cons hq, mt (precedes_moved_iff hn hm).mpr hnot⟩
      have hown : Misplaced placing anchor order p := ⟨hp, not_precedes_of_moved hm⟩
      refine or_iff_not_imp_left.mpr fun hnew => ⟨anchor_mem_of_moved hm, hown, ?_⟩
      rcases (hdeps.leads hn₁ List.mem_cons_self hloose).mem hq with hq | ⟨d, hd, hd', hway⟩
      · exact ((mem_moved hm).mp hq).resolve_right hnew ▸ .refl
      · exact .head ⟨Edge.mem_dependencies.mp hd, hd'⟩ hway
    · rintro (hq | ⟨_, _, hway⟩)
      · exact hdeps.others.subset ((mem_moved hm).mpr (.inr hq))
      · have hfirst : Followed edges (p :: placing) p (Precedes order · anchor) order₁ :=
          fun q d hq hkept _ => absurd ((precedes_moved_iff hn hm).mp hq) hkept
        have hmem : p ∈ order₁ := (mem_moved hm).mpr (.inl rfl)
        obtain ⟨hf, hout⟩ := hdeps.followed hn₁ List.mem_cons_self hmem hfirst
        rcases hf.of_leadsOver (fun d hd => hout d (Edge.mem_dependencies.mpr hd)) hway with
          rfl | ⟨_, hq⟩
        · exact hdeps.others.subset hmem
        · exact hq.left_mem

/-- To place a package comes to an end, however the references go: no endless chain of calls is
possible, and the calls have one outcome.  No package is lost or listed twice, and what is new is
what leads on from the package over packages that are not yet where they belong. -/
theorem placeBefore_ends (edges : List Edge) (p anchor : ObjectId) (placing order : List ObjectId)
    (hn : order.Nodup) :
    let placed := placeBefore edges p anchor placing order
    WellFounded (CalledFor edges)
      ∧ (∀ order', Placed edges placing anchor [p] order order' ↔ order' = placed)
      ∧ placed.Nodup ∧ order ⊆ placed
      ∧ (∀ q ∈ placed, q ∈ order ∨ ReflTransGen (Edge.Links edges) p q)
      ∧ ∀ q, q ∈ placed ↔ q ∈ order ∨ anchor ∈ order ∧ Misplaced placing anchor order p
          ∧ LeadsOver edges placing anchor order p q := by
  intro placed
  have hplaced : Placed edges placing anchor [p] order placed := placed_iff.mpr rfl
  refine ⟨wellFounded_calledFor edges, fun _ => placed_iff, hplaced.others.nodup hn,
    hplaced.others.subset, fun q hq => ?_, fun q => hplaced.mem_iff hn⟩
  exact ((hplaced.mem_iff hn).mp hq).imp_right fun h => h.2.2.reflTransGen

theorem placeBefore_ends_ring :
    let edges : List Edge := [⟨1, 4⟩, ⟨4, 1⟩, ⟨4, 7⟩, ⟨7, 9⟩]
    let order : List ObjectId := [7, 2]
    order.Nodup ∧ placeBefore edges 1 2 [] order = [7, 4, 1, 2]
      ∧ Placed edges [] 2 [1] order [7, 4, 1, 2]
      ∧ ReflTransGen (Edge.Links edges) 1 4 ∧ ¬ LeadsOver edges [] 2 order 1 9 := by
  intro edges order
  have hn : order.Nodup := by decide
  have hvalue : placeBefore edges 1 2 [] order = [7, 4, 1, 2] := by decide +kernel
  have hmisplaced : Misplaced [] 2 order 1 :=
    ⟨List.not_mem_nil, fun h => absurd h.left_mem (by decide)⟩
  obtain ⟨_, hcalls, _, _, hnew, hmem⟩ := placeBefore_ends edges 1 2 [] order hn
  refine ⟨hn, hvalue, (hcalls _).mpr hvalue.symm, ?_, ?_⟩
  · exact (hnew 4 (hvalue ▸ by decide)).resolve_left (by decide)
  · intro hway
    have : 9 ∈ placeBefore edges 1 2 [] order := (hmem 9).mpr (.inr ⟨by decide, hmisplaced, hway⟩)
    rw [hvalue] at this
    revert this
    decide

end TypeAtlas.PackageOrder
