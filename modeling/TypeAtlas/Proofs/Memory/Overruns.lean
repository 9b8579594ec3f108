import TypeAtlas.Proofs.Memory.Captured
import TypeAtlas.Proofs.Memory.Gaps

namespace TypeAtlas

theorem Outcome.not_completes_abandoned {ε α : Type} (o : Overflow) :
    ¬ Completes (.error (.abandoned o) : Outcome ε α) := fun h => h o rfl

/-- Something of a segment finds room in a memory whose place in the file is past the last word. -/
def Segment.Overruns (g : Segment) (base : Address) (s : Space) : Prop :=
  ∃ start, Word.add? base g.offset = some start
    ∧ ∃ gap ∈ Space.gaps s.mappings start (g.region start).range.stop,
      Word.bound ≤ g.fileOffset + (gap.1 - start)

def Image.mapAll (image : Image) (base : Address) (gs : List Segment) (n : Nat) : Space.Step Nat :=
  gs.foldlM (fun n g => do return n + (← image.mapSegment base g)) n

namespace Space

variable {s t u : Space} {m : Mapping} {image : Image} {base a start length : Nat} {g : Segment}
  {gs : List Segment} {region : Region} {contents : Bytes} {offset n k : Nat} {gap : Nat × Nat}

theorem sub_lt_memorySize {ms : List Mapping}
    (hgap : gap ∈ gaps ms start (g.region start).range.stop) : gap.1 - start < g.memorySize := by
  have hgap : gap ∈ gaps ms (g.region start).start (g.region start).range.stop := hgap
  exact sub_lt_size hgap

theorem outcome_mapGap_abandoned (h : Word.bound ≤ offset + (gap.1 - region.start)) :
    Step.outcome (mapGap region contents offset length gap) s = (.error (.abandoned .add), s) := by
  have hadd : Word.add offset (gap.1 - region.start) = .error .add := if_neg (Nat.not_lt.mpr h)
  simp only [mapGap, hadd]
  rfl

theorem Ordered.exists_outcome_mapRegion_abandoned (hs : s.Ordered) (region : Region)
    (contents : Bytes) (length : Nat)
    (h : ∃ gap ∈ gaps s.mappings region.start region.range.stop,
      Word.bound ≤ offset + (gap.1 - region.start)) :
    ∃ t, Step.outcome (mapRegion region contents offset length) s
      = (.error (.abandoned .add), t) := by
  obtain ⟨first, hfirst⟩ := Option.isSome_iff_exists.mp (List.find?_isSome.mpr
    (h.imp fun gap hgap => ⟨hgap.1, decide_eq_true hgap.2⟩))
  obtain ⟨hfar, front, back, hgaps, hnear⟩ := List.find?_eq_some_iff_append.mp hfirst
  have hplaces : ∀ gap ∈ front, offset + (gap.1 - region.start) < Word.bound := by
    simpa using hnear
  have hsublist : (front.map (piece region contents offset length)).Sublist
      (s.parts region contents offset length) := by
    rw [parts, hgaps, List.map_append]
    exact List.sublist_append_left ..
  obtain ⟨t, ht, -⟩ := exists_outcome_forM hs (fun m hm => filled_parts (hsublist.subset hm))
    (fun m hm => hs.parts_free (hsublist.subset hm)) (parts_apart.sublist hsublist)
  have hrest : Step.outcome ((first :: back).forM (mapGap region contents offset length)) t
      = (.error (.abandoned .add), t) := by
    change Step.outcome (mapGap region contents offset length first >>= fun _ =>
      back.forM (mapGap region contents offset length)) t = _
    rw [Step.outcome_bind, outcome_mapGap_abandoned (of_decide_eq_true hfar)]
  have hall : (front ++ first :: back).forM (mapGap region contents offset length)
      = (do
        front.forM (mapGap region contents offset length)
        (first :: back).forM (mapGap region contents offset length)) := List.forM_append
  refine ⟨t, ?_⟩
  rw [mapRegion, Step.outcome_bind, Step.outcome_get]
  dsimp only
  rw [Step.outcome_bind, hgaps, hall, Step.outcome_bind, forM_mapGap hplaces, ht]
  dsimp only
  rw [hrest]

theorem ordered_mapSegment (image : Image) (base : Address) (g : Segment) (hs : s.Ordered) :
    (Step.outcome (image.mapSegment base g) s).2.Ordered := by
  have hadds : Adds (Call.mapInto { image with segments := [g] } (some base)).Makes
      (image.mapSegment base g) := adds_mapSegment (List.mem_singleton_self g)
  exact (hadds s).ordered hs

theorem outcome_mapSegment (image : Image) (base : Address) (g : Segment) (hs : s.Ordered) :
    (¬ g.Overruns base s ∧ ∃ n t, Step.outcome (image.mapSegment base g) s = (.ok n, t)
        ∧ t.mappings.length = s.mappings.length + n)
      ∨ (¬ g.Overruns base s ∧ ∃ e, Step.outcome (image.mapSegment base g) s
        = (.error (.refused e), s))
      ∨ g.Overruns base s ∧ ∃ t, Step.outcome (image.mapSegment base g) s
        = (.error (.abandoned .add), t) := by
  unfold Image.mapSegment
  by_cases hsize : g.memorySize = 0
  · have hnot : ¬ g.Overruns base s := by
      rintro ⟨start, -, gap, hgap, -⟩
      have hlt := sub_lt_memorySize hgap
      omega
    rw [if_pos hsize]
    exact .inl ⟨hnot, 0, s, rfl, rfl⟩
  · rw [if_neg hsize]
    cases hadd : Word.add? base g.offset with
    | none =>
      have hnot : ¬ g.Overruns base s := by
        rintro ⟨start, hstart, -⟩
        simp [hadd] at hstart
      exact .inr (.inl ⟨hnot, _, rfl⟩)
    | some start =>
      by_cases hfar : ∃ gap ∈ gaps s.mappings start (g.region start).range.stop,
          Word.bound ≤ g.fileOffset + (gap.1 - start)
      · exact .inr (.inr ⟨⟨start, hadd, hfar⟩, hs.exists_outcome_mapRegion_abandoned
          (g.region start) image.contents (min g.fileSize g.memorySize) hfar⟩)
      · have hnot : ¬ g.Overruns base s := by
          rintro ⟨_, hstart, hfar'⟩
          obtain rfl := Option.some.inj (hadd.symm.trans hstart)
          exact hfar hfar'
        obtain ⟨t, ht, -, hperm⟩ := hs.exists_outcome_mapRegion_of_places (g.region start)
          image.contents (min g.fileSize g.memorySize) fun gap hgap =>
            Nat.lt_of_not_le fun hle => hfar ⟨gap, hgap, hle⟩
        refine .inl ⟨hnot, _, t, ht, ?_⟩
        rw [hperm.length_eq, List.length_append, Nat.add_comm]

theorem completes_mapSegment_iff (image : Image) (base : Address) (g : Segment) (hs : s.Ordered) :
    Outcome.Completes (Step.outcome (image.mapSegment base g) s).1 ↔ ¬ g.Overruns base s := by
  rcases outcome_mapSegment image base g hs with
    ⟨hnot, n, t, h, -⟩ | ⟨hnot, e, h⟩ | ⟨hover, t, h⟩
  · rw [h]
    exact iff_of_true (.ok n) hnot
  · rw [h]
    exact iff_of_true (.refused e) hnot
  · rw [h]
    exact iff_of_false (Outcome.not_completes_abandoned _) (not_not_intro hover)

theorem length_of_mapSegment (hs : s.Ordered)
    (h : Step.outcome (image.mapSegment base g) s = (.ok n, t)) :
    t.mappings.length = s.mappings.length + n := by
  rcases outcome_mapSegment image base g hs with
    ⟨-, k, u, hok, hlength⟩ | ⟨-, e, hrefused⟩ | ⟨-, u, habandoned⟩
  · cases h.symm.trans hok
    exact hlength
  · cases h.symm.trans hrefused
  · cases h.symm.trans habandoned

theorem outcome_mapAll_cons (image : Image) (base : Address) (g : Segment) (gs : List Segment)
    (n : Nat) (s : Space) : Step.outcome (image.mapAll base (g :: gs) n) s =
      match Step.outcome (image.mapSegment base g) s with
      | (.ok k, u) => Step.outcome (image.mapAll base gs (n + k)) u
      | (.error e, u) => (.error e, u) := by
  rw [Image.mapAll, List.foldlM_cons, Step.outcome_bind, Step.outcome_bind]
  rcases Step.outcome (image.mapSegment base g) s with ⟨_ | k, u⟩
  · rfl
  · rfl

theorem length_of_mapAll (hs : s.Ordered)
    (h : Step.outcome (image.mapAll base gs n) s = (.ok k, t)) :
    t.mappings.length + n = s.mappings.length + k := by
  induction gs generalizing s n with
  | nil =>
    cases h
    rfl
  | cons g gs ih =>
    rw [outcome_mapAll_cons] at h
    have hordered := ordered_mapSegment image base g hs
    rcases hg : Step.outcome (image.mapSegment base g) s with ⟨e | l, u⟩
    · rw [hg] at h
      cases h
    · rw [hg] at h hordered
      have hfirst := length_of_mapSegment hs hg
      have hrest : t.mappings.length + (n + l) = u.mappings.length + k := ih hordered h
      omega

theorem completes_mapAll_iff (image : Image) (base : Address) (gs : List Segment) (hs : s.Ordered)
    (n : Nat) : Outcome.Completes (Step.outcome (image.mapAll base gs n) s).1 ↔
      ∀ before g after, gs = before ++ g :: after →
        ∀ k u, Step.outcome (image.mapAll base before n) s = (.ok k, u) → ¬ g.Overruns base u := by
  induction gs generalizing s n with
  | nil =>
    refine iff_of_true (.ok n) fun before g after h => ?_
    simp at h
  | cons g gs ih =>
    have hfirst := completes_mapSegment_iff image base g hs
    have hordered := ordered_mapSegment image base g hs
    constructor
    · intro h before g' after heq k u hbefore
      rw [outcome_mapAll_cons] at h
      cases before with
      | nil =>
        cases hbefore
        obtain ⟨rfl, rfl⟩ := List.cons.inj heq
        rw [← hfirst]
        rcases hg : Step.outcome (image.mapSegment base g) s with ⟨e | l, u⟩
        · rwa [hg] at h
        · exact .ok l
      | cons _ before =>
        obtain ⟨rfl, rfl⟩ := List.cons.inj heq
        rw [outcome_mapAll_cons] at hbefore
        rcases hg : Step.outcome (image.mapSegment base g) s with ⟨e | l, v⟩
        · rw [hg] at hbefore
          cases hbefore
        · rw [hg] at hbefore h hordered
          exact (ih hordered (n + l)).mp h before g' after rfl k u hbefore
    · intro h
      rw [outcome_mapAll_cons]
      have hg' := hfirst.mpr (h [] g gs rfl n s rfl)
      rcases hg : Step.outcome (image.mapSegment base g) s with ⟨e | l, v⟩
      · rwa [hg] at hg'
      · rw [hg] at hordered
        refine (ih hordered (n + l)).mpr fun before g' after heq k u hbefore => ?_
        refine h (g :: before) g' after (heq ▸ rfl) k u ?_
        rw [outcome_mapAll_cons, hg]
        exact hbefore

theorem not_overruns (hroom : g.fileOffset + g.memorySize < Word.bound) :
    ¬ g.Overruns base s := by
  rintro ⟨start, -, gap, hgap, hfar⟩
  have hlt := sub_lt_memorySize hgap
  omega

end Space

end TypeAtlas
