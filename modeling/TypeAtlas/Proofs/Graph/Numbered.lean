import TypeAtlas.Graph.Names
import Mathlib.Data.List.Nodup
import Mathlib.Data.Nat.Digits.Defs

namespace TypeAtlas

namespace Pad

theorem toList_zeros (width n : Nat) : (zeros width n).toList =
    List.replicate (width - (toString n).length) '0' ++ Nat.toDigits 10 n := by
  rw [zeros, String.toList_append, String.toList_ofList, Nat.toString_eq_ofList_toDigits,
    String.toList_ofList]

theorem ofDigitChars_zeros (width n : Nat) : Nat.ofDigitChars 10 (zeros width n).toList 0 = n := by
  rw [toList_zeros, Nat.ofDigitChars_append, Nat.ofDigitChars_replicate_zero,
    Nat.mul_zero, Nat.ofDigitChars_ten_toDigits]

theorem isDigit_of_mem_zeros {width n : Nat} {c : Char} (h : c ∈ (zeros width n).toList) :
    c.isDigit = true := by
  rw [toList_zeros, List.mem_append, List.mem_replicate] at h
  cases h with
  | inl h => exact h.2 ▸ rfl
  | inr h => exact Nat.isDigit_of_mem_toDigits (by decide) (by decide) h

end Pad

namespace NamesTaken

def numbered (name : String) : Nat → String
  | 0 => name
  | n + 1 => name ++ Pad.zeros 2 (n + 1)

variable {names : List String} {x y : String} {i j n : Nat}

theorem next_eq (t : NamesTaken) (name : String) :
    t.next name = numbered name (t.names.count name) := by
  unfold next
  split
  case h_1 h => rw [h, numbered]
  case h_2 n h =>
    obtain ⟨n, hn⟩ := Nat.exists_eq_succ_of_ne_zero h
    rw [hn, numbered]

theorem exists_toList_numbered (name : String) (n : Nat) : ∃ digits : List Char,
    (numbered name n).toList = name.toList ++ digits ∧ (∀ c ∈ digits, c.isDigit = true)
    ∧ Nat.ofDigitChars 10 digits 0 = n := by
  cases n with
  | zero => exact ⟨[], by simp [numbered], by simp, rfl⟩
  | succ n =>
    exact ⟨_, String.toList_append, fun c => Pad.isDigit_of_mem_zeros, Pad.ofDigitChars_zeros _ _⟩

theorem numbered_injective (name : String) : Function.Injective (numbered name) := by
  intro n k h
  obtain ⟨ds, hds, -, hn⟩ := exists_toList_numbered name n
  obtain ⟨es, hes, -, hk⟩ := exists_toList_numbered name k
  rw [h, hes] at hds
  rw [← hn, ← hk, List.append_cancel_left hds]

theorem getElem?_all (t : NamesTaken) (names : List String) (i : Nat) : (t.all names)[i]? =
    names[i]?.map fun x => numbered x ((names.take i).count x + t.names.count x) := by
  induction names generalizing t i with
  | nil => rfl
  | cons name names ih =>
    cases i with
    | zero => simp [all, next_eq]
    | succ i =>
      rw [all, List.getElem?_cons_succ, ih, List.getElem?_cons_succ]
      congr 1
      funext x
      simp only [take, List.take_succ_cons, List.count_cons]
      congr 1
      omega

theorem length_all (t : NamesTaken) (names : List String) :
    (t.all names).length = names.length := by
  induction names generalizing t with
  | nil => rfl
  | cons name names ih => rw [all, List.length_cons, ih, List.length_cons]

theorem exists_use (h : n < names.count x) :
    ∃ i, names[i]? = some x ∧ (names.take i).count x = n := by
  induction names generalizing n with
  | nil => simp at h
  | cons name names ih =>
    by_cases hx : name = x
    · subst hx
      cases n with
      | zero => exact ⟨0, rfl, rfl⟩
      | succ n =>
        obtain ⟨i, hi, hn⟩ := ih (by simpa using h)
        exact ⟨i + 1, hi, by simp [hn]⟩
    · obtain ⟨i, hi, hn⟩ := ih (by simpa [hx] using h)
      exact ⟨i + 1, hi, by simp [hx, hn]⟩

theorem count_take_lt (hi : names[i]? = some x) (hij : i < j) :
    (names.take i).count x < (names.take j).count x := by
  have hsucc : (names.take (i + 1)).count x = (names.take i).count x + 1 := by
    rw [List.take_add_one, hi, List.count_append]
    simp
  have hle : (names.take (i + 1)).count x ≤ (names.take j).count x :=
    (List.take_sublist_take_left hij).count_le x
  omega

theorem count_take_lt_count (hi : names[i]? = some x) : (names.take i).count x < names.count x := by
  have hlt : i < names.length := (List.getElem?_eq_some_iff.mp hi).1
  simpa using count_take_lt hi hlt

theorem use_unique (hi : names[i]? = some x) (hj : names[j]? = some x)
    (h : (names.take i).count x = (names.take j).count x) : i = j := by
  rcases Nat.lt_trichotomy i j with hij | rfl | hji
  · exact absurd h (Nat.ne_of_lt (count_take_lt hi hij))
  · rfl
  · exact absurd h.symm (Nat.ne_of_lt (count_take_lt hj hji))

/-- None of the uses of one name comes out as a use of another. -/
def Unmixed (names : List String) : Prop :=
  ∀ x ∈ names, ∀ y ∈ names, ∀ n < names.count x, ∀ k < names.count y,
    numbered x n = numbered y k → x = y

def Unnumbered (names : List String) : Prop :=
  ∀ x ∈ names, ∀ y ∈ names, x.toList <+: y.toList →
    (y.toList.drop x.toList.length).all Char.isDigit = true → x = y

theorem getElem?_all_none (names : List String) (i : Nat) : (NamesTaken.none.all names)[i]? =
    names[i]?.map fun x => numbered x ((names.take i).count x) := by
  simp only [getElem?_all, NamesTaken.none, List.count_nil, Nat.add_zero]

theorem unmixed_of_nodup (h : (NamesTaken.none.all names).Nodup) : Unmixed names := by
  intro x _ y _ n hn k hk heq
  obtain ⟨i, hi, rfl⟩ := exists_use hn
  obtain ⟨j, hj, rfl⟩ := exists_use hk
  have hx := getElem?_all_none names i
  have hy := getElem?_all_none names j
  rw [hi, Option.map_some] at hx
  rw [hj, Option.map_some, ← heq] at hy
  have hlt : i < (NamesTaken.none.all names).length := (List.getElem?_eq_some_iff.mp hx).1
  obtain rfl : i = j := (List.getElem?_inj hlt h).mp (hx.trans hy.symm)
  exact Option.some.inj (hi.symm.trans hj)

theorem Unmixed.nodup (h : Unmixed names) : (NamesTaken.none.all names).Nodup := by
  rw [List.nodup_iff_getElem?_ne_getElem?]
  intro i j hij hj heq
  rw [length_all] at hj
  have hi := List.getElem?_eq_getElem (Nat.lt_trans hij hj)
  have hj := List.getElem?_eq_getElem hj
  rw [getElem?_all_none, getElem?_all_none, hi, hj] at heq
  have hsame := h _ (List.mem_of_getElem? hi) _ (List.mem_of_getElem? hj) _
    (count_take_lt_count hi) _ (count_take_lt_count hj) (Option.some.inj heq)
  rw [← hsame] at heq hj
  exact absurd (use_unique hi hj (numbered_injective _ (Option.some.inj heq))) (Nat.ne_of_lt hij)

theorem Unnumbered.eq_of_append (h : Unnumbered names) (hx : x ∈ names) (hy : y ∈ names)
    {digits : List Char} (hdigits : ∀ c ∈ digits, c.isDigit = true)
    (heq : y.toList = x.toList ++ digits) : x = y := by
  apply h x hx y hy
  · exact heq ▸ List.prefix_append ..
  · rwa [heq, List.drop_left, List.all_eq_true]

theorem Unnumbered.unmixed (h : Unnumbered names) : Unmixed names := by
  intro x hx y hy n _ k _ heq
  obtain ⟨ds, hds, hdigits, -⟩ := exists_toList_numbered x n
  obtain ⟨es, hes, hdigits', -⟩ := exists_toList_numbered y k
  -- two names with digits behind them agree, so one of the names goes on with digits where the
  -- other has ended
  rw [heq, hes, List.append_eq_append_iff] at hds
  rcases hds with ⟨mid, hx', hes⟩ | ⟨mid, hy', hds⟩
  · exact (h.eq_of_append hy hx (fun c hc => hdigits' c (by simp [hes, hc])) hx').symm
  · exact h.eq_of_append hx hy (fun c hc => hdigits c (by simp [hds, hc])) hy'

/-- The first use of each name leaves it as it is.  All names come out distinct exactly if none of
the uses of one comes out as a use of another; so they do if no name is another one with digits
behind it. -/
theorem all_distinct_iff (names : List String) :
    (∀ i x, names[i]? = some x → x ∉ names.take i → (NamesTaken.none.all names)[i]? = some x)
    ∧ ((NamesTaken.none.all names).Nodup ↔ Unmixed names)
    ∧ (Unnumbered names → (NamesTaken.none.all names).Nodup) := by
  refine ⟨fun i x hi hfirst => ?_, ⟨unmixed_of_nodup, fun h => h.nodup⟩, fun h => h.unmixed.nodup⟩
  rw [getElem?_all_none, hi, Option.map_some, List.count_eq_zero.mpr hfirst, numbered]

theorem all_distinct_iff_events : Unnumbered ["On", "OnX", "On"]
    ∧ (NamesTaken.none.all ["On", "OnX", "On"]).Nodup
    ∧ (NamesTaken.none.all ["On", "OnX", "On"])[1]? = some "OnX" := by
  have h : Unnumbered ["On", "OnX", "On"] := by
    unfold Unnumbered
    decide
  exact ⟨h, (all_distinct_iff _).2.2 h, (all_distinct_iff _).1 1 "OnX" rfl (by decide)⟩

/-- A name that was given in between may be the one that a repeated name comes out as. -/
theorem all_overtaken : NamesTaken.none.all ["X", "X01", "X"] = ["X", "X01", "X01"]
    ∧ ¬ (NamesTaken.none.all ["X", "X01", "X"]).Nodup := by
  have h : NamesTaken.none.all ["X", "X01", "X"] = ["X", "X01", "X01"] := by decide +kernel
  exact ⟨h, by simp [h]⟩

end NamesTaken

namespace Identifier

theorem isPart_of_mem_sanitizeChars {cs : List Char} {c : Char} (h : c ∈ sanitizeChars cs) :
    isPart c = true := by
  have hmap : ∀ c ∈ cs.map (fun c => if isPart c then c else '_'), isPart c = true := by
    intro c hc
    obtain ⟨d, -, rfl⟩ := List.mem_map.mp hc
    split
    case isTrue hd => exact hd
    case isFalse => decide
  unfold sanitizeChars at h
  split at h
  case h_1 => cases h
  case h_2 first rest hcs =>
    rw [hcs] at hmap
    split at h
    case isTrue =>
      rcases List.mem_cons.mp h with rfl | h
      · decide
      · exact hmap c h
    case isFalse => exact hmap c h

theorem isPart_of_isDigit {c : Char} (h : c.isDigit = true) : isPart c = true := by
  have hdigit : isDigit c = true := h
  simp [isPart, hdigit]

theorem isPart_of_mem_numbered {raw : String} {n : Nat} {c : Char}
    (h : c ∈ (NamesTaken.numbered (sanitize raw) n).toList) : isPart c = true := by
  obtain ⟨digits, hname, hdigits, -⟩ := NamesTaken.exists_toList_numbered (sanitize raw) n
  rw [hname, sanitize, String.toList_ofList] at h
  rcases List.mem_append.mp h with h | h
  · exact isPart_of_mem_sanitizeChars h
  · exact isPart_of_isDigit (hdigits c h)

end Identifier

end TypeAtlas
