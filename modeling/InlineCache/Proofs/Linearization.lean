import InlineCache.Heap.Definition
import Mathlib.Data.List.Nodup
import Mathlib.Tactic.Common

/-! # Merging orders keeps them all

`merge` finds an order that keeps all given orders exactly when there is one. -/

namespace InlineCache.Linearization

variable {α : Type}

/-- An order that lists the items of all given orders once each, every given order in its own
sequence. -/
structure Keeps (orders : List (List α)) (order : List α) : Prop where
  nodup : order.Nodup
  mem_iff : ∀ x, x ∈ order ↔ ∃ o ∈ orders, x ∈ o
  sublist : ∀ o ∈ orders, o.Sublist order

def live (orders : List (List α)) : List (List α) := orders.filter (!·.isEmpty)

def total (orders : List (List α)) : Nat := orders.flatten.length

theorem mem_live {orders : List (List α)} {o : List α} : o ∈ live orders ↔ o ∈ orders ∧ o ≠ [] := by
  simp [live]

theorem live_heads (orders : List (List α)) : ∀ o ∈ live orders, o.head?.isSome := by
  intro o ho
  have hne : o ≠ [] := (mem_live.mp ho).2
  simpa [List.isSome_head?] using hne

theorem total_live (orders : List (List α)) : total (live orders) = total orders := by
  induction orders with
  | nil => rfl
  | cons o rest ih => cases o <;> simp_all [live, total]

theorem live_eq_nil {orders : List (List α)} (h : total orders = 0) : live orders = [] := by
  rw [← total_live] at h
  by_contra hne
  obtain ⟨o, ho⟩ := List.exists_mem_of_ne_nil _ hne
  have hflat : (live orders).flatten = [] := List.eq_nil_of_length_eq_zero h
  exact (mem_live.mp ho).2 (List.flatten_eq_nil_iff.mp hflat o ho)

theorem keeps_nil {orders : List (List α)} (h : live orders = []) : Keeps orders [] := by
  have hnil : ∀ o ∈ orders, o = [] := by
    intro o ho
    by_contra hne
    have := mem_live.mpr ⟨ho, hne⟩
    simp [h] at this
  refine ⟨List.nodup_nil, ?_, ?_⟩
  · intro x
    constructor
    · simp
    · rintro ⟨o, ho, hx⟩
      simp [hnil o ho] at hx
  · intro o ho
    rw [hnil o ho]

/-- The first item of an order that keeps all is a head wherever it occurs. -/
theorem first_free {orders : List (List α)} {y : α} {order : List α}
    (h : Keeps orders (y :: order)) : ∀ o ∈ orders, y ∉ o.tail := by
  intro o ho hy
  have hsub : o.tail.Sublist order := by
    cases o with
    | nil => simp at hy
    | cons z rest => exact (h.sublist _ ho).tail
  exact (List.nodup_cons.mp h.nodup).1 (hsub.subset hy)

variable [DecidableEq α]

/-- The merge without a bound on its steps. Heads are only taken of orders that have one. -/
inductive Merges : List (List α) → Option (List α) → Prop
  | done {orders : List (List α)} (empty : live orders = []) : Merges orders (some [])
  | stuck {orders : List (List α)} (full : live orders ≠ [])
      (heads : ∀ o ∈ live orders, o.head?.isSome) (blocked : nextHead? (live orders) = none) :
      Merges orders none
  | step {orders : List (List α)} {x : α} {rest : Option (List α)} (full : live orders ≠ [])
      (heads : ∀ o ∈ live orders, o.head?.isSome) (next : nextHead? (live orders) = some x)
      (later : Merges ((live orders).map (dropHead x)) rest) : Merges orders (rest.map (x :: ·))

/-! ## One step -/

theorem mergeIn_empty (n : Nat) {orders : List (List α)} (h : live orders = []) :
    mergeIn n orders = some [] := by
  unfold mergeIn
  rw [show orders.filter (!·.isEmpty) = [] from h]
  rfl

theorem mergeIn_blocked (n : Nat) {orders : List (List α)} (h : live orders ≠ [])
    (hx : nextHead? (live orders) = none) : mergeIn n orders = none := by
  unfold mergeIn
  change (if (live orders).isEmpty then some [] else _) = none
  rw [if_neg (by simpa using h)]
  simp only [show orders.filter (!·.isEmpty) = live orders from rfl, hx]

theorem mergeIn_step (n : Nat) {orders : List (List α)} {x : α} (h : live orders ≠ [])
    (hx : nextHead? (live orders) = some x) :
    mergeIn (n + 1) orders = (mergeIn n ((live orders).map (dropHead x))).map (x :: ·) := by
  conv_lhs => unfold mergeIn
  change (if (live orders).isEmpty then some [] else _) = _
  rw [if_neg (by simpa using h)]
  simp only [show orders.filter (!·.isEmpty) = live orders from rfl, hx]

theorem nextHead_spec {orders : List (List α)} {x : α} (h : nextHead? orders = some x) :
    (∃ o ∈ orders, o.head? = some x) ∧ ∀ o ∈ orders, x ∉ o.tail := by
  have hfree : free orders x = true := List.find?_some h
  have hmem : x ∈ orders.filterMap List.head? := List.mem_of_find?_eq_some h
  refine ⟨by simpa using hmem, ?_⟩
  intro o ho
  have := List.all_eq_true.mp hfree o ho
  simpa using this

theorem nextHead_ne_none {orders : List (List α)} {x : α} {o : List α} (ho : o ∈ orders)
    (hx : o.head? = some x) (hfree : ∀ o ∈ orders, x ∉ o.tail) : nextHead? orders ≠ none := by
  intro hnone
  have hmem : x ∈ orders.filterMap List.head? := List.mem_filterMap.mpr ⟨o, ho, hx⟩
  apply List.find?_eq_none.mp hnone x hmem
  simpa [free] using hfree

theorem mem_dropHead {x y : α} {o : List α} (hx : x ∉ o.tail) :
    y ∈ dropHead x o ↔ y ∈ o ∧ y ≠ x := by
  cases o with
  | nil => simp [dropHead]
  | cons z rest =>
    by_cases hz : z = x
    · subst hz
      simp only [List.tail_cons] at hx
      simp only [dropHead, List.head?_cons, if_pos, List.tail_cons, List.mem_cons]
      grind
    · simp only [dropHead, List.head?_cons, Option.some.injEq, if_neg hz, List.mem_cons]
      simp only [List.tail_cons] at hx
      grind

theorem dropHead_sublist (x : α) (o : List α) : (dropHead x o).Sublist o := by
  unfold dropHead
  split
  · exact List.tail_sublist o
  · exact List.Sublist.refl o

theorem sublist_cons_dropHead (x : α) (o r : List α) (h : (dropHead x o).Sublist r) :
    o.Sublist (x :: r) := by
  cases o with
  | nil => exact List.nil_sublist _
  | cons z rest =>
    by_cases hz : z = x
    · subst hz
      exact List.Sublist.cons_cons z (by simpa [dropHead] using h)
    · exact List.Sublist.cons x (by simpa [dropHead, hz] using h)

theorem total_dropHead_le (x : α) (orders : List (List α)) :
    total (orders.map (dropHead x)) ≤ total orders := by
  induction orders with
  | nil => simp [total]
  | cons o rest ih =>
    have h := (dropHead_sublist x o).length_le
    simp only [total, List.map_cons, List.flatten_cons, List.length_append] at ih ⊢
    omega

theorem total_dropHead_lt {x : α} {orders : List (List α)} (h : ∃ o ∈ orders, o.head? = some x) :
    total (orders.map (dropHead x)) < total orders := by
  induction orders with
  | nil => simp at h
  | cons o rest ih =>
    have hle := total_dropHead_le x rest
    simp only [total, List.map_cons, List.flatten_cons, List.length_append] at ih hle ⊢
    by_cases hx : o.head? = some x
    · have : (dropHead x o).length < o.length := by cases o <;> simp_all [dropHead]
      omega
    · have hlen := (dropHead_sublist x o).length_le
      have := ih (by simpa [hx] using h)
      omega

/-! ## The bound never ends the merge -/

theorem merges_mergeIn (n : Nat) (orders : List (List α)) (h : total orders ≤ n) :
    Merges orders (mergeIn n orders) := by
  induction n generalizing orders with
  | zero =>
    have hlive : live orders = [] := live_eq_nil (by omega)
    rw [mergeIn_empty 0 hlive]
    exact .done hlive
  | succ n ih =>
    by_cases hlive : live orders = []
    · rw [mergeIn_empty _ hlive]
      exact .done hlive
    · cases hx : nextHead? (live orders) with
      | none =>
        rw [mergeIn_blocked _ hlive hx]
        exact .stuck hlive (live_heads orders) hx
      | some x =>
        rw [mergeIn_step n hlive hx]
        apply Merges.step hlive (live_heads orders) hx
        -- The step takes an item off, so what is left of the bound is enough for the rest.
        apply ih
        have := total_dropHead_lt (nextHead_spec hx).1
        rw [total_live] at this
        omega

theorem merges_merge (orders : List (List α)) : Merges orders (merge orders) :=
  merges_mergeIn _ _ (Nat.le_refl _)

/-! ## Soundness and completeness -/

theorem keeps_cons {orders : List (List α)} {x : α} {order : List α}
    (hx : nextHead? (live orders) = some x) (h : Keeps ((live orders).map (dropHead x)) order) :
    Keeps orders (x :: order) := by
  obtain ⟨⟨o₀, ho₀, hhead⟩, hfree⟩ := nextHead_spec hx
  have hmem : ∀ y, y ∈ order ↔ (∃ o ∈ orders, y ∈ o) ∧ y ≠ x := by
    intro y
    rw [h.mem_iff]
    constructor
    · rintro ⟨o', ho', hy⟩
      obtain ⟨o, ho, rfl⟩ := List.mem_map.mp ho'
      have := (mem_dropHead (hfree o ho)).mp hy
      exact ⟨⟨o, (mem_live.mp ho).1, this.1⟩, this.2⟩
    · rintro ⟨⟨o, ho, hy⟩, hne⟩
      have hlive : o ∈ live orders := mem_live.mpr ⟨ho, List.ne_nil_of_mem hy⟩
      exact ⟨_, List.mem_map_of_mem hlive, (mem_dropHead (hfree o hlive)).mpr ⟨hy, hne⟩⟩
  refine ⟨?_, ?_, ?_⟩
  · rw [List.nodup_cons]
    exact ⟨fun hin => ((hmem x).mp hin).2 rfl, h.nodup⟩
  · intro y
    rw [List.mem_cons, hmem]
    constructor
    · rintro (rfl | ⟨hy, _⟩)
      · exact ⟨o₀, (mem_live.mp ho₀).1, List.mem_of_mem_head? hhead⟩
      · exact hy
    · intro hy
      by_cases hyx : y = x
      · exact Or.inl hyx
      · exact Or.inr ⟨hy, hyx⟩
  · intro o ho
    by_cases hne : o = []
    · rw [hne]
      exact List.nil_sublist _
    · apply sublist_cons_dropHead
      exact h.sublist _ (List.mem_map_of_mem (mem_live.mpr ⟨ho, hne⟩))

theorem keeps_of_merges {orders : List (List α)} {r : Option (List α)} (h : Merges orders r) :
    ∀ order, r = some order → Keeps orders order := by
  induction h with
  | done empty =>
    rintro order ⟨⟩
    exact keeps_nil empty
  | stuck => simp
  | step full heads next later ih =>
    intro order horder
    obtain ⟨rest, rfl, rfl⟩ := Option.map_eq_some_iff.mp horder
    exact keeps_cons next (ih rest rfl)

theorem exists_next {orders : List (List α)} {order : List α} (h : Keeps orders order)
    (hlive : live orders ≠ []) : nextHead? (live orders) ≠ none := by
  cases order with
  | nil =>
    obtain ⟨o, ho⟩ := List.exists_mem_of_ne_nil _ hlive
    have := h.sublist o (mem_live.mp ho).1
    exact absurd (List.sublist_nil.mp this) (mem_live.mp ho).2
  | cons y order =>
    have hfree := first_free h
    obtain ⟨o, ho, hy⟩ := (h.mem_iff y).mp List.mem_cons_self
    have hhead : o.head? = some y := by
      cases o with
      | nil => simp at hy
      | cons z rest =>
        have htail : y ∉ rest := hfree _ ho
        rcases List.mem_cons.mp hy with rfl | hin
        · rfl
        · exact absurd hin htail
    apply nextHead_ne_none (mem_live.mpr ⟨ho, List.ne_nil_of_mem hy⟩) hhead
    exact fun o ho => hfree o (mem_live.mp ho).1

theorem keeps_erase {orders : List (List α)} {x : α} {order : List α}
    (hx : nextHead? (live orders) = some x) (h : Keeps orders order) :
    Keeps ((live orders).map (dropHead x)) (order.erase x) := by
  obtain ⟨_, hfree⟩ := nextHead_spec hx
  refine ⟨h.nodup.erase x, ?_, ?_⟩
  · intro y
    rw [h.nodup.mem_erase_iff, h.mem_iff]
    constructor
    · rintro ⟨hne, o, ho, hy⟩
      have hlive : o ∈ live orders := mem_live.mpr ⟨ho, List.ne_nil_of_mem hy⟩
      exact ⟨_, List.mem_map_of_mem hlive, (mem_dropHead (hfree o hlive)).mpr ⟨hy, hne⟩⟩
    · rintro ⟨o', ho', hy⟩
      obtain ⟨o, ho, rfl⟩ := List.mem_map.mp ho'
      have := (mem_dropHead (hfree o ho)).mp hy
      exact ⟨this.2, o, (mem_live.mp ho).1, this.1⟩
  · intro o' ho'
    obtain ⟨o, ho, rfl⟩ := List.mem_map.mp ho'
    have hsub : (dropHead x o).Sublist order :=
      (dropHead_sublist x o).trans (h.sublist o (mem_live.mp ho).1)
    have hx' : x ∉ dropHead x o := fun hin => ((mem_dropHead (hfree o ho)).mp hin).2 rfl
    rw [← List.erase_of_not_mem hx']
    exact hsub.erase x

theorem not_stuck_of_keeps {orders : List (List α)} {r : Option (List α)} (h : Merges orders r) :
    ∀ order, Keeps orders order → r ≠ none := by
  induction h with
  | done => simp
  | stuck full heads blocked =>
    intro order hk
    exact absurd blocked (exists_next hk full)
  | step full heads next later ih =>
    intro order hk
    have := ih _ (keeps_erase next hk)
    simpa using this

theorem keeps_merge {orders : List (List α)} {order : List α} (h : merge orders = some order) :
    Keeps orders order :=
  keeps_of_merges (merges_merge orders) order h

theorem merge_eq_none_iff (orders : List (List α)) :
    merge orders = none ↔ ∀ order, ¬ Keeps orders order := by
  constructor
  · intro h order hk
    exact not_stuck_of_keeps (merges_merge orders) order hk h
  · intro h
    cases hm : merge orders with
    | none => rfl
    | some order => exact absurd (keeps_merge hm) (h order)

example : merge [[1, 3], [2, 3], [1, 2]] = some [1, 2, 3] := by decide +kernel

example : merge [[1, 2], [2, 1]] = none := by decide +kernel

/-! ## Repeated bases -/

theorem firstRepeat_eq_none_iff (seen l : List α) :
    firstRepeat seen l = none ↔ l.Nodup ∧ ∀ x ∈ l, x ∉ seen := by
  induction l generalizing seen with
  | nil => simp [firstRepeat]
  | cons x rest ih =>
    unfold firstRepeat
    split
    · simp_all
    · rw [ih]
      simp only [List.nodup_cons, List.mem_cons]
      grind

theorem ofBases_of_nodup (ancestors : α → List α) {bases : List α} (hb : bases.Nodup) :
    ofBases ancestors bases =
      (merge (bases.map (fun b => b :: ancestors b) ++ [bases])).elim
        (.error .inconsistent) .ok := by
  unfold ofBases
  rw [(firstRepeat_eq_none_iff [] bases).mpr ⟨hb, by simp⟩]
  cases merge (bases.map (fun b => b :: ancestors b) ++ [bases]) <;> rfl

theorem firstRepeat_split (seen l pre post : List α) (b : α) (hl : l = pre ++ b :: post)
    (hpre : pre.Nodup) (hseen : ∀ x ∈ pre, x ∉ seen) (hb : b ∈ seen ∨ b ∈ pre) :
    firstRepeat seen l = some b := by
  induction pre generalizing seen l with
  | nil =>
    subst hl
    simp_all [firstRepeat]
  | cons x pre ih =>
    subst hl
    rw [List.cons_append, firstRepeat, if_neg (hseen x List.mem_cons_self)]
    rw [List.nodup_cons] at hpre
    apply ih (x :: seen) _ rfl hpre.2
    · intro y hy
      simp only [List.mem_cons] at hseen ⊢
      grind
    · simp only [List.mem_cons] at hb ⊢
      tauto

end InlineCache.Linearization

namespace InlineCache.Heap

open Linearization

/-- The orders that the ancestors of a class with these bases have to keep. -/
def baseOrders (h : Heap) (bases : List TypeRef) : List (List TypeRef) :=
  bases.map h.line ++ [bases]

theorem linearize_of_nodup (h : Heap) {bases : List TypeRef} (hb : bases.Nodup) :
    h.linearize bases = (merge (h.baseOrders bases)).elim
      (.error (.inconsistentBases (bases.map fun b => (h.typeAt b).name))) .ok := by
  have horders := ofBases_of_nodup (fun b => (h.typeAt b).ancestors) hb
  unfold linearize
  rw [horders]
  change _ = (merge (bases.map (fun b => b :: (h.typeAt b).ancestors) ++ [bases])).elim _ _
  cases merge (bases.map (fun b => b :: (h.typeAt b).ancestors) ++ [bases]) <;> rfl

theorem mem_iff_of_keeps {h : Heap} {bases order : List TypeRef}
    (hk : Keeps (h.baseOrders bases) order) (x : TypeRef) :
    x ∈ order ↔ ∃ b ∈ bases, x = b ∨ x ∈ (h.typeAt b).ancestors := by
  rw [hk.mem_iff]
  simp only [baseOrders, line, List.mem_append, List.mem_map, List.mem_singleton]
  constructor
  · rintro ⟨o, ⟨b, hb, rfl⟩ | rfl, hx⟩
    · exact ⟨b, hb, List.mem_cons.mp hx⟩
    · exact ⟨x, hx, Or.inl rfl⟩
  · rintro ⟨b, hb, hx⟩
    exact ⟨_, Or.inl ⟨b, hb, rfl⟩, List.mem_cons.mpr hx⟩

theorem keeps_of_linearize {h : Heap} {bases order : List TypeRef}
    (hl : h.linearize bases = .ok order) : Keeps (h.baseOrders bases) order := by
  by_cases hb : bases.Nodup
  · rw [linearize_of_nodup h hb] at hl
    cases hm : merge (h.baseOrders bases) with
    | none => simp [hm] at hl
    | some merged =>
      obtain rfl : merged = order := by simpa [hm] using hl
      exact keeps_merge hm
  · have hrep : firstRepeat [] bases ≠ none := fun hnone =>
      hb ((firstRepeat_eq_none_iff [] bases).mp hnone).1
    obtain ⟨b, hsome⟩ := Option.ne_none_iff_exists'.mp hrep
    simp [linearize, ofBases, hsome] at hl

/-- The ancestors of a class keep the lines of its bases and the order of the bases themselves, or
nothing does. -/
theorem linearize_keeps (h : Heap) (bases : List TypeRef) :
    Merges (h.baseOrders bases) (merge (h.baseOrders bases)) ∧
    (∀ pre b post, bases = pre ++ b :: post → pre.Nodup → b ∈ pre →
      h.linearize bases = .error (.duplicateBase (h.typeAt b).name)) ∧
    (bases.Nodup →
      ((∃ order, h.linearize bases = .ok order) ↔ ∃ order, Keeps (h.baseOrders bases) order) ∧
      (∀ order, h.linearize bases = .ok order →
        Keeps (h.baseOrders bases) order ∧
          ∀ x, x ∈ order ↔ ∃ b ∈ bases, x = b ∨ x ∈ (h.typeAt b).ancestors) ∧
      ((¬ ∃ order, Keeps (h.baseOrders bases) order) →
        h.linearize bases =
          .error (.inconsistentBases (bases.map fun b => (h.typeAt b).name)))) := by
  refine ⟨merges_merge _, ?_, ?_⟩
  · intro pre b post hsplit hpre hb
    have hrep := firstRepeat_split [] bases pre post b hsplit hpre (by simp) (Or.inr hb)
    unfold linearize ofBases
    rw [hrep]
  · intro hb
    have hok : ∀ order, h.linearize bases = .ok order → Keeps (h.baseOrders bases) order :=
      fun order => keeps_of_linearize
    rw [linearize_of_nodup h hb] at hok ⊢
    refine ⟨?_, fun order ho => ⟨hok order ho, mem_iff_of_keeps (hok order ho)⟩, ?_⟩
    · constructor
      · rintro ⟨order, ho⟩
        exact ⟨order, hok order ho⟩
      · intro hex
        cases hm : merge (h.baseOrders bases) with
        | none => exact absurd hex (not_exists.mpr ((merge_eq_none_iff _).mp hm))
        | some order => exact ⟨order, rfl⟩
    · intro hno
      rw [(merge_eq_none_iff _).mpr (not_exists.mp hno)]
      rfl

end InlineCache.Heap
