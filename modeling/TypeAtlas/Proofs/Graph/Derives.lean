import TypeAtlas.Proofs.Resolution.References

/-! Which names an object derives from.  Super-types may come round, so that a search among them has
to give up at the first that it has seen before; it misses nothing by that, and takes no more steps
than there are objects. -/

namespace TypeAtlas.Graph

variable {g : Graph} {id other super : ObjectId} {o : Object} {name : String}
  {seen : List ObjectId} {n steps : Nat}

def superAt? (g : Graph) : Nat → ObjectId → Option ObjectId
  | 0, id => some id
  | n + 1, id => (g.superOf? id).bind (g.superAt? n)

def unseen (g : Graph) (seen : List ObjectId) : Nat := g.objects.countP fun o => o.id ∉ seen

theorem unseen_cons_lt (hget : g.get? id = some o) (hid : id ∉ seen) :
    g.unseen (id :: seen) < g.unseen seen := by
  obtain ⟨hmem, rfl⟩ := get?_eq_some.mp hget
  apply countP_lt_countP _ hmem
  · simp
  · simpa using hid
  · intro p hp
    simp only [List.mem_cons, not_or, decide_eq_true_eq] at hp ⊢
    exact hp.2

def findsName (g : Graph) (name : String) (seen : List ObjectId) (id : ObjectId) : Bool :=
  if hid : id ∈ seen then false
  else match hget : g.get? id with
    | none => false
    | some o =>
      if o.name = name then true
      else match g.superOf? id with
        | none => false
        | some super =>
          have := unseen_cons_lt hget hid
          g.findsName name (id :: seen) super
termination_by g.unseen seen

theorem isNamed_iff : g.isNamed name id = true ↔ ∃ o, g.get? id = some o ∧ o.name = name := by
  unfold isNamed
  split <;> simp_all

theorem get?_of_superOf? (h : g.superOf? id = some super) : ∃ o, g.get? id = some o := by
  unfold superOf? aggregate? at h
  cases hget : g.get? id with
  | none => simp [hget] at h
  | some o => exact ⟨o, rfl⟩

theorem exists_of_findsName (h : g.findsName name seen id = true) :
    ∃ n < g.unseen seen, ∃ other, g.superAt? n id = some other ∧ g.isNamed name other = true := by
  fun_induction findsName g name seen id with
  | case1 => cases h
  | case2 => cases h
  | case3 seen id hid o hget hname =>
    have hroom := Nat.zero_lt_of_lt (unseen_cons_lt hget hid)
    exact ⟨0, hroom, id, rfl, isNamed_iff.mpr ⟨o, hget, hname⟩⟩
  | case4 => cases h
  | case5 seen id hid o hget hname super hsuper hroom ih =>
    obtain ⟨n, hn, other, hother, hnamed⟩ := ih h
    refine ⟨n + 1, by omega, other, ?_, hnamed⟩
    rw [superAt?, hsuper]
    exact hother

/-- Nothing that has been seen has the name, and what it leads to has been seen or is next. -/
structure Exhausted (g : Graph) (name : String) (seen : List ObjectId) (next : ObjectId) :
    Prop where
  not_named : ∀ id ∈ seen, g.isNamed name id = false
  closed : ∀ id ∈ seen, ∀ super, g.superOf? id = some super → super = next ∨ super ∈ seen

theorem Exhausted.not_named_of_superAt? (h : g.Exhausted name seen id) (hid : id ∈ seen)
    {start : ObjectId} (hstart : start ∈ seen) (hother : g.superAt? n start = some other) :
    g.isNamed name other = false := by
  induction n generalizing start with
  | zero =>
    cases hother
    exact h.not_named _ hstart
  | succ n ih =>
    obtain ⟨super, hsuper, hrest⟩ := Option.bind_eq_some_iff.mp hother
    cases h.closed start hstart super hsuper with
    | inl heq => exact ih (heq ▸ hid) hrest
    | inr hmem => exact ih hmem hrest

theorem Exhausted.cons (h : g.Exhausted name seen id) (hnamed : g.isNamed name id = false)
    (hsuper : g.superOf? id = some super) : g.Exhausted name (id :: seen) super where
  not_named other hother := by
    rcases List.mem_cons.mp hother with rfl | hother
    · exact hnamed
    · exact h.not_named other hother
  closed other hother super' hsuper' := by
    rcases List.mem_cons.mp hother with rfl | hother
    · exact .inl (Option.some.inj (hsuper'.symm.trans hsuper))
    · right
      cases h.closed other hother super' hsuper' with
      | inl heq => simp [heq]
      | inr hmem => exact List.mem_cons_of_mem _ hmem

theorem Exhausted.findsName (h : g.Exhausted name seen id) (hother : g.superAt? n id = some other)
    (hnamed : g.isNamed name other = true) : g.findsName name seen id = true := by
  fun_induction Graph.findsName g name seen id generalizing n with
  | case1 seen id hid =>
    rw [h.not_named_of_superAt? hid hid hother] at hnamed
    cases hnamed
  | case2 seen id hid hget =>
    cases n with
    | zero =>
      cases hother
      obtain ⟨o, ho, -⟩ := isNamed_iff.mp hnamed
      simp [hget] at ho
    | succ n =>
      obtain ⟨super, hsuper, -⟩ := Option.bind_eq_some_iff.mp hother
      obtain ⟨o, ho⟩ := get?_of_superOf? hsuper
      simp [hget] at ho
  | case3 => rfl
  | case4 seen id hid o hget hname hsuper =>
    cases n with
    | zero =>
      cases hother
      obtain ⟨o', ho', hname'⟩ := isNamed_iff.mp hnamed
      cases hget.symm.trans ho'
      exact absurd hname' hname
    | succ n => simp [superAt?, hsuper] at hother
  | case5 seen id hid o hget hname super hsuper _ ih =>
    have hnot : g.isNamed name id = false := by simp [isNamed, hget, hname]
    cases n with
    | zero =>
      cases hother
      rw [hnot] at hnamed
      cases hnamed
    | succ n =>
      rw [superAt?, hsuper] at hother
      exact ih (h.cons hnot hsuper) hother

theorem mem_lineage : other ∈ g.lineage steps id ↔ ∃ n ≤ steps, g.superAt? n id = some other := by
  induction steps generalizing id with
  | zero => simp [lineage, superAt?, eq_comm]
  | succ steps ih =>
    unfold lineage
    constructor
    · intro h
      split at h
      case h_1 super hsuper =>
        rcases List.mem_cons.mp h with rfl | h
        · exact ⟨0, Nat.zero_le _, rfl⟩
        · obtain ⟨n, hn, hother⟩ := ih.mp h
          exact ⟨n + 1, Nat.succ_le_succ hn, by rw [superAt?, hsuper]; exact hother⟩
      case h_2 => exact ⟨0, Nat.zero_le _, by rw [List.mem_singleton.mp h]; rfl⟩
    · rintro ⟨n, hn, hother⟩
      cases n with
      | zero =>
        cases hother
        split <;> exact List.mem_cons_self
      | succ n =>
        obtain ⟨super, hsuper, hrest⟩ := Option.bind_eq_some_iff.mp hother
        simp only [hsuper]
        exact List.mem_cons_of_mem _ (ih.mpr ⟨n, Nat.le_of_succ_le_succ hn, hrest⟩)

theorem derivesFrom_iff_exists_le : g.derivesFrom id name = true ↔
    ∃ n ≤ g.objects.length, ∃ other,
      g.superAt? n id = some other ∧ g.isNamed name other = true := by
  simp only [derivesFrom, List.any_eq_true, mem_lineage]
  constructor
  · rintro ⟨other, ⟨n, hn, hother⟩, hnamed⟩
    exact ⟨n, hn, other, hother, hnamed⟩
  · rintro ⟨n, hn, other, hother, hnamed⟩
    exact ⟨other, ⟨n, hn, hother⟩, hnamed⟩

/-- However long its chain of super-types is and wherever that leads, round or to nothing, an object
derives from a name if some number of steps along it, be it none, leads to an object of that name.
The search that gives up at the first super-type seen before comes to its end, and with the same
answer. -/
theorem derivesFrom_iff (g : Graph) (id : ObjectId) (name : String) :
    (g.derivesFrom id name = true ↔
      ∃ n other o, g.superAt? n id = some other ∧ g.get? other = some o ∧ o.name = name)
    ∧ g.findsName name [] id = g.derivesFrom id name := by
  have hfound : (∃ n other, g.superAt? n id = some other ∧ g.isNamed name other = true) →
      g.findsName name [] id = true := fun ⟨n, other, hother, hnamed⟩ =>
    Exhausted.findsName ⟨by simp, by simp⟩ hother hnamed
  have hwithin : g.findsName name [] id = true → g.derivesFrom id name = true := by
    intro h
    obtain ⟨n, hn, hother⟩ := exists_of_findsName h
    have hle : n ≤ g.objects.length := Nat.le_trans (Nat.le_of_lt hn) List.countP_le_length
    exact derivesFrom_iff_exists_le.mpr ⟨n, hle, hother⟩
  have hexists : g.derivesFrom id name = true →
      ∃ n other, g.superAt? n id = some other ∧ g.isNamed name other = true := by
    intro h
    obtain ⟨n, -, hother⟩ := derivesFrom_iff_exists_le.mp h
    exact ⟨n, hother⟩
  constructor
  · simp only [← isNamed_iff, exists_and_left]
    exact ⟨hexists, fun h => hwithin (hfound h)⟩
  · exact Bool.eq_iff_iff.mpr ⟨hwithin, fun h => hfound (hexists h)⟩

example : ∃ g : Graph, g.superOf? 1 = some 2 ∧ g.superOf? 2 = some 1
    ∧ g.derivesFrom 1 "Actor" = true ∧ g.derivesFrom 1 "Pawn" = false :=
  ⟨⟨[⟨1, 0, "Object", none, "Class Core.Object", none, none, 0, .classType ⟨some 2, 8, []⟩⟩,
      ⟨2, 1, "Actor", none, "Class Core.Actor", none, none, 0, .classType ⟨some 1, 8, []⟩⟩],
    by decide⟩, by decide +kernel⟩

end TypeAtlas.Graph
