
namespace TypeAtlas

abbrev Table (α : Type) := List (String × α)

namespace Table

def get? {α : Type} (t : Table α) (key : String) : Option α := t.lookup key

/-- Sets the entry of a name: a known name keeps its place. -/
def insert {α : Type} (key : String) (a : α) : Table α → Table α
  | [] => [(key, a)]
  | (k, b) :: rest => if k = key then (k, a) :: rest else (k, b) :: insert key a rest

variable {α : Type} {t : Table α} {key : String} {a : α}

theorem insert_of_notMem (h : key ∉ t.map Prod.fst) : insert key a t = t ++ [(key, a)] := by
  induction t with
  | nil => rfl
  | cons e t ih =>
    simp only [List.map_cons, List.mem_cons, not_or] at h
    simp only [insert, if_neg (Ne.symm h.1), ih h.2, List.cons_append]

theorem mem_insert {e : String × α} (h : e ∈ insert key a t) : e = (key, a) ∨ e ∈ t := by
  induction t with
  | nil => exact .inl (List.mem_singleton.mp h)
  | cons e' t ih =>
    by_cases he : e'.1 = key
    · rw [insert, if_pos he] at h
      cases List.mem_cons.mp h with
      | inl heq => exact .inl (heq.trans (by rw [he]))
      | inr h => exact .inr (List.mem_cons_of_mem _ h)
    · rw [insert, if_neg he] at h
      cases List.mem_cons.mp h with
      | inl heq => exact .inr (heq ▸ List.mem_cons_self)
      | inr h => exact (ih h).imp_right (List.mem_cons_of_mem _)

theorem map_fst_insert_of_mem (h : key ∈ t.map Prod.fst) :
    (insert key a t).map Prod.fst = t.map Prod.fst := by
  induction t with
  | nil => cases h
  | cons e t ih =>
    by_cases he : e.1 = key
    · simp only [insert, if_pos he, List.map_cons]
    · have hmem : key ∈ t.map Prod.fst := (List.mem_cons.mp h).resolve_left (Ne.symm he)
      simp only [insert, if_neg he, List.map_cons, ih hmem]

theorem nodup_insert (h : (t.map Prod.fst).Nodup) : ((insert key a t).map Prod.fst).Nodup := by
  by_cases hk : key ∈ t.map Prod.fst
  · rwa [map_fst_insert_of_mem hk]
  · rw [insert_of_notMem hk, List.map_append, List.nodup_append]
    refine ⟨h, by simp, fun k hmem k' hk' => ?_⟩
    rw [List.mem_singleton.mp hk']
    rintro rfl
    exact hk hmem

theorem notMem_of_nodup {e : String × α} {rest : Table α}
    (h : ((t ++ e :: rest).map Prod.fst).Nodup) : e.1 ∉ t.map Prod.fst := by
  intro hmem
  rw [List.map_append, List.nodup_append] at h
  exact h.2.2 e.1 hmem e.1 (by simp) rfl

theorem foldl_insert_of_nodup {entries : List (String × α)}
    (h : ((t ++ entries).map Prod.fst).Nodup) :
    entries.foldl (fun t e => insert e.1 e.2 t) t = t ++ entries := by
  induction entries generalizing t with
  | nil => simp
  | cons e entries ih =>
    rw [List.foldl_cons, insert_of_notMem (notMem_of_nodup h), ih (by simpa using h), List.append_assoc]
    rfl

end Table

end TypeAtlas
