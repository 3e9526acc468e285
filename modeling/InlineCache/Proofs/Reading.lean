import InlineCache.Table
import Mathlib.Data.List.Induction
import Mathlib.Data.List.Nodup

/-! # Reading what was written

One law for each way in which an array or a table changes. -/

namespace InlineCache

variable {α κ ν : Type}

/-! ## Arrays -/

theorem getD_modify (xs : Array α) (i j : Nat) (f : α → α) (d : α) :
    (xs.modify i f).getD j d = if i = j ∧ j < xs.size then f (xs.getD j d) else xs.getD j d := by
  simp only [Array.getD_eq_getD_getElem?, Array.getElem?_modify]
  by_cases hij : i = j
  · by_cases hj : j < xs.size
    · simp [hij, hj]
    · simp [hij, hj]
  · simp [hij]

theorem getD_push (xs : Array α) (x : α) (j : Nat) (d : α) :
    (xs.push x).getD j d = if j = xs.size then x else xs.getD j d := by
  simp only [Array.getD_eq_getD_getElem?, Array.getElem?_push]
  split <;> rfl

/-! ## Tables -/

namespace Table

variable [DecidableEq κ]

@[simp] theorem get?_emptyCollection (k : κ) : (∅ : Table κ ν).get? k = none := rfl

theorem find_eq_some_iff {l : List (κ × ν)} (hl : (l.map Prod.fst).Nodup) (k : κ) (v : ν) :
    find k l = some v ↔ (k, v) ∈ l := by
  induction l with
  | nil => simp [find]
  | cons e rest ih =>
    rw [List.map_cons, List.nodup_cons] at hl
    unfold find
    split
    · rename_i hk
      subst hk
      constructor
      · rintro ⟨⟩
        exact List.mem_cons_self
      · intro hin
        rcases List.mem_cons.mp hin with heq | hin
        · rw [← heq]
        · exact absurd (List.mem_map_of_mem (f := Prod.fst) hin) hl.1
    · rename_i hk
      rw [ih hl.2, List.mem_cons]
      constructor
      · exact Or.inr
      · rintro (rfl | hin)
        · exact absurd rfl hk
        · exact hin

theorem get?_eq_some_iff (t : Table κ ν) (k : κ) (v : ν) :
    t.get? k = some v ↔ (k, v) ∈ t.entries :=
  find_eq_some_iff t.nodup k v

theorem get?_of_filterValues {t : Table κ ν} {p : ν → Bool} {k : κ} {v : ν}
    (h : (t.filterValues p).get? k = some v) : t.get? k = some v := by
  rw [get?_eq_some_iff] at h ⊢
  exact List.mem_of_mem_filter h

theorem get?_ofList (l : List (κ × ν)) (k : κ) :
    (ofList l).get? k = ((l.filter fun e => e.1 = k).getLast?).map Prod.snd := by
  -- From the end, where the entry stands that was put in last.
  induction l using List.reverseRecOn with
  | nil => rfl
  | append_singleton l e ih =>
    have hput : ofList (l ++ [e]) = (ofList l).insert e.1 e.2 := by
      simp [ofList]
    rw [hput, get?_insert, ih, List.filter_append]
    by_cases hk : e.1 = k <;> simp [hk]

end Table

end InlineCache
