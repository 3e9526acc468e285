import InlineCache.Parameters
import InlineCache.Plan
import Mathlib.Tactic.Common

/-! # A plan picks what binding binds

Where a plan exists, the arguments of a call lay out without fault, bind without fault, and each
parameter gets the argument that the plan picks for it. -/

namespace InlineCache.Plan

/-! ## Slots of arguments and slots of values -/

/-- The slots, with the value of each argument in its place. -/
def valued (args : List Value) (slots : List (Option Nat)) : List (Option Value) :=
  slots.map (Option.map fun i => args.getD i .none)

theorem valued_set (args : List Value) (slots : List (Option Nat)) (p i : Nat) :
    valued args (slots.set p (some i)) =
      (valued args slots).set p (some (args.getD i .none)) := by
  simp [valued, List.map_set]

/-- Puts positionals into the slots from `next` on. -/
def putPlain (next : Nat) : List Value → List (Option Value) → List (Option Value)
  | [], slots => slots
  | v :: vs, slots => putPlain (next + 1) vs (slots.set next (some v))

theorem length_putPlain (next : Nat) (vs : List Value) (slots : List (Option Value)) :
    (putPlain next vs slots).length = slots.length := by
  induction vs generalizing next slots with
  | nil => rfl
  | cons v vs ih => rw [putPlain, ih, List.length_set]

theorem getElem?_putPlain (next : Nat) (vs : List Value) (slots : List (Option Value)) (p : Nat)
    (hp : p < next ∨ next + vs.length ≤ p) : (putPlain next vs slots)[p]? = slots[p]? := by
  induction vs generalizing next slots with
  | nil => rfl
  | cons v vs ih =>
    rw [List.length_cons] at hp
    rw [putPlain, ih _ _ (by omega), List.getElem?_set_ne (by omega)]

theorem putPlain_set (next : Nat) (vs : List Value) (slots : List (Option Value)) (p : Nat)
    (v : Value) (hp : p < next ∨ next + vs.length ≤ p) :
    putPlain next vs (slots.set p (some v)) = (putPlain next vs slots).set p (some v) := by
  induction vs generalizing next slots with
  | nil => rfl
  | cons w vs ih =>
    rw [List.length_cons] at hp
    rw [putPlain, putPlain, List.set_comm _ _ (by omega), ih _ _ (by omega)]

theorem getElem?_putPlain_self (next : Nat) (vs : List Value) (slots : List (Option Value))
    (p : Nat) (hp : next ≤ p) (hlt : p < next + vs.length) (hlen : p < slots.length) :
    (putPlain next vs slots)[p]? = some vs[p - next]? := by
  induction vs generalizing next slots with
  | nil => simp at hlt; omega
  | cons v vs ih =>
    rw [List.length_cons] at hlt
    by_cases heq : p = next
    · subst heq
      rw [putPlain, getElem?_putPlain _ _ _ _ (by omega), List.getElem?_set_self hlen]
      simp
    · rw [putPlain, ih (next + 1) _ (by omega) (by omega) (by rwa [List.length_set])]
      have hsub : p - next = p - (next + 1) + 1 := by omega
      rw [hsub, List.getElem?_cons_succ]

theorem putPlain_replicate (n : Nat) (vs : List Value) :
    putPlain 0 vs (List.replicate n none) = (List.range n).map fun p => vs[p]? := by
  apply List.ext_getElem?
  intro p
  rw [List.getElem?_map]
  by_cases hp : p < n
  · rw [List.getElem?_range hp]
    by_cases hv : p < vs.length
    · rw [getElem?_putPlain_self 0 vs _ p (by omega) (by omega) (by simpa using hp)]
      rfl
    · rw [getElem?_putPlain 0 vs _ p (by omega), List.getElem?_replicate, if_pos hp]
      simp [List.getElem?_eq_none (Nat.not_lt.mp hv)]
  · rw [List.getElem?_eq_none (by rw [length_putPlain, List.length_replicate]; omega),
      List.getElem?_eq_none (by rw [List.length_range]; omega)]
    rfl

/-! ## Placing and binding -/

def plainCount (kinds : List ArgKind) : Nat := kinds.countP (· == .plain)

theorem fill_eq_some {i p : Nat} {slots out : List (Option Nat)}
    {rest : List (Option Nat) → Option (List (Option Nat))}
    (h : place.fill i p slots rest = some out) :
    (∀ j, slots[p]? ≠ some (some j)) ∧ rest (slots.set p (some i)) = some out := by
  unfold place.fill at h
  split at h
  · exact absurd h (by simp)
  · rename_i hfree
    exact ⟨fun j hj => hfree j hj, h⟩

theorem taken_of_place {f : FunctionRecord} {kinds : List ArgKind} {i next p j : Nat}
    {slots out : List (Option Nat)} (h : place f i next kinds slots = some out)
    (hp : slots[p]? = some (some j)) : p < next ∨ next + plainCount kinds ≤ p := by
  induction kinds generalizing i next slots with
  | nil => simp [plainCount]; omega
  | cons kind kinds ih =>
    cases kind with
    | plain =>
      obtain ⟨hfree, h⟩ := fill_eq_some h
      have hne : p ≠ next := fun heq => hfree j (heq ▸ hp)
      have := ih h (by rwa [List.getElem?_set_ne (Ne.symm hne)])
      simp only [plainCount, List.countP_cons, beq_self_eq_true, if_true] at this ⊢
      omega
    | named name =>
      unfold place at h
      cases hq : f.paramIndex? name with
      | none => simp [hq] at h
      | some q =>
        simp only [hq] at h
        obtain ⟨hfree, h⟩ := fill_eq_some h
        have hne : p ≠ q := fun heq => hfree j (heq ▸ hp)
        have := ih h (by rwa [List.getElem?_set_ne (Ne.symm hne)])
        simpa [plainCount] using this
    | star => simp [place] at h

theorem paramIndex?_lt {f : FunctionRecord} {name : String} {q : Nat}
    (hq : f.paramIndex? name = some q) : q < f.params.length := by
  unfold FunctionRecord.paramIndex? at hq
  exact (List.findIdx?_eq_some_iff_getElem.mp hq).1

theorem fillKeyword_of_free {f : FunctionRecord} {slots : List (Option Value)} {name : String}
    {v : Value} {q : Nat} (hq : f.paramIndex? name = some q)
    (hfree : ∀ w, slots[q]? ≠ some (some w)) :
    f.fillKeyword slots (name, v) = .ok (slots.set q (some v)) := by
  unfold FunctionRecord.fillKeyword
  simp only [hq]

/-- A keyword fills a slot that is free whether positionals are put in before or after. -/
theorem fillKeyword_putPlain {f : FunctionRecord} {slots : List (Option Nat)} {name : String}
    {q next : Nat} {vs args : List Value} (hq : f.paramIndex? name = some q)
    (hfree : ∀ j, slots[q]? ≠ some (some j)) (hout : q < next ∨ next + vs.length ≤ q) (v : Value) :
    f.fillKeyword (putPlain next vs (valued args slots)) (name, v) =
      .ok (putPlain next vs ((valued args slots).set q (some v))) := by
  rw [putPlain_set _ _ _ _ _ hout]
  apply fillKeyword_of_free hq
  intro w hw
  rw [getElem?_putPlain _ _ _ _ hout, valued, List.getElem?_map] at hw
  obtain ⟨slot, hslot, hmap⟩ := Option.map_eq_some_iff.mp hw
  obtain ⟨j, rfl, -⟩ := Option.map_eq_some_iff.mp hmap
  exact hfree j hslot

theorem bind_of_place {f : FunctionRecord} (typeName : Value → String) {args : List Value}
    {kinds : List ArgKind} {i next : Nat} {slots out : List (Option Nat)}
    (h : place f i next kinds slots = some out) (hlen : slots.length = f.params.length)
    {rest : List Value} (hrest : args.drop i = rest) (hargs : rest.length = kinds.length) :
    ∃ laid, Signature.layOutKinds typeName kinds rest = .ok laid ∧
      laid.positional.length = plainCount kinds ∧
      laid.keywords.foldlM f.fillKeyword (putPlain next laid.positional (valued args slots)) =
        .ok (valued args out) := by
  induction kinds generalizing i next slots rest with
  | nil =>
    obtain rfl : slots = out := by simpa [place] using h
    exact ⟨{}, by simp [Signature.layOutKinds], rfl, rfl⟩
  | cons kind kinds ih =>
    cases rest with
    | nil => simp at hargs
    | cons v vs =>
      have hv : args.getD i .none = v := by
        rw [List.getD_eq_getElem?_getD, ← List.head?_drop, hrest]
        rfl
      have hvs : args.drop (i + 1) = vs := by
        rw [← List.drop_drop, hrest]
        rfl
      have hlenvs : vs.length = kinds.length := by simpa using hargs
      cases kind with
      | plain =>
        obtain ⟨-, h⟩ := fill_eq_some h
        obtain ⟨laid, hl, hcount, hfold⟩ := ih h (by rwa [List.length_set]) hvs hlenvs
        refine ⟨{ laid with positional := v :: laid.positional }, ?_, ?_, ?_⟩
        · simp only [Signature.layOutKinds, hl]
          rfl
        · simp [plainCount, hcount]
        · rw [valued_set, hv] at hfold
          exact hfold
      | named name =>
        unfold place at h
        cases hq : f.paramIndex? name with
        | none => simp [hq] at h
        | some q =>
          simp only [hq] at h
          obtain ⟨hfree, h⟩ := fill_eq_some h
          obtain ⟨laid, hl, hcount, hfold⟩ := ih h (by rwa [List.length_set]) hvs hlenvs
          have hqlt : q < slots.length := by
            rw [hlen]
            exact paramIndex?_lt hq
          have hout := taken_of_place h (List.getElem?_set_self hqlt)
          rw [← hcount] at hout
          refine ⟨{ laid with keywords := (name, v) :: laid.keywords }, ?_, ?_, ?_⟩
          · simp only [Signature.layOutKinds, hl]
            rfl
          · simp [plainCount, hcount]
          · rw [valued_set, hv] at hfold
            rw [List.foldlM_cons, fillKeyword_putPlain hq hfree hout]
            exact hfold
      | star => simp [place] at h

/-! ## Whole calls -/

theorem layOut_plain (typeName : Value → String) {kinds : List ArgKind} {rest : List Value}
    (hplain : kinds.all (· == .plain) = true) (hargs : rest.length = kinds.length) :
    Signature.layOutKinds typeName kinds rest = .ok { positional := rest } := by
  induction kinds generalizing rest with
  | nil =>
    obtain rfl := List.eq_nil_of_length_eq_zero hargs
    rfl
  | cons kind kinds ih =>
    cases rest with
    | nil => simp at hargs
    | cons v vs =>
      simp only [List.all_cons, Bool.and_eq_true, beq_iff_eq] at hplain
      obtain ⟨rfl, hplain⟩ := hplain
      simp only [Signature.layOutKinds, ih hplain (by simpa using hargs)]
      rfl

theorem eq_map_some_of_mapM {out : List (Option Nat)} {plan : List Nat}
    (h : out.mapM id = some plan) : out = plan.map some := by
  induction out generalizing plan with
  | nil =>
    obtain rfl : [] = plan := by simpa using h
    rfl
  | cons slot out ih =>
    rw [List.mapM_cons] at h
    cases slot with
    | none => exact absurd h (by simp)
    | some i =>
      cases hm : out.mapM id with
      | none => simp [hm] at h
      | some rest =>
        obtain rfl : i :: rest = plan := by simpa [hm] using h
        rw [ih hm]
        rfl

theorem bind_of_full {f : FunctionRecord} {laid : CallArgs} {args : List Value} {plan : List Nat}
    (hvariadic : f.variadic = false) (hpositional : laid.positional.length ≤ f.params.length)
    (hfold : laid.keywords.foldlM f.fillKeyword
      (putPlain 0 laid.positional (List.replicate f.params.length none)) =
        .ok (valued args (plan.map some))) (box : Nat) :
    f.bind laid box = .ok (pick plan args) := by
  have hslots : valued args (plan.map some) = (pick plan args).map some := by
    simp [valued, pick, Function.comp_def]
  rw [putPlain_replicate, hslots] at hfold
  have hmissing : f.missing ((pick plan args).map some) = [] := by
    unfold FunctionRecord.missing
    rw [List.map_eq_nil_iff, List.filter_eq_nil_iff]
    intro p hp
    obtain ⟨v, -, hv⟩ := List.mem_map.mp (List.of_mem_zip hp).2
    simp [← hv]
  have hfill : f.fillSlots laid = .ok (pick plan args) := by
    unfold FunctionRecord.fillSlots FunctionRecord.positionalSlots
    rw [if_neg (by simpa [hvariadic] using hpositional)]
    simp [hfold, hmissing, bind, Except.bind, pure, Except.pure]
  unfold FunctionRecord.bind
  simp [hfill, hvariadic]

/-- Where there is a plan, the general way binds what the plan picks. -/
theorem bind_of_make {f : FunctionRecord} {s : Signature} {plan : List Nat}
    (h : make? f s = some plan) (typeName : Value → String) {args : List Value}
    (hargs : args.length = s.arity) :
    f.variadic = false ∧ ∃ laid, s.layOut typeName args = .ok laid ∧
      ∀ box, f.bind laid box = .ok (pick plan args) := by
  unfold make? at h
  split at h
  · exact absurd h (by simp)
  · rename_i hgood
    simp only [Bool.or_eq_true, decide_eq_true_eq, not_or, Bool.not_eq_true] at hgood
    obtain ⟨⟨hvariadic, -⟩, harity⟩ := hgood
    have harity : s.arity = f.params.length := by simpa using harity
    refine ⟨hvariadic, ?_⟩
    split at h
    · rename_i hplain
      obtain rfl := Option.some.inj h
      refine ⟨{ positional := args }, layOut_plain typeName hplain hargs, fun box => ?_⟩
      apply bind_of_full hvariadic (Nat.le_of_eq (hargs.trans harity))
      rw [putPlain_replicate, harity]
      simp only [List.foldlM_nil, pure, Except.pure, valued, List.map_map, Except.ok.injEq]
      apply List.map_congr_left
      intro i hi
      have hlt : i < args.length := by
        have := List.mem_range.mp hi
        omega
      simp [List.getElem?_eq_getElem hlt]
    · obtain ⟨out, hplace, hmap⟩ := Option.bind_eq_some_iff.mp h
      obtain rfl := eq_map_some_of_mapM hmap
      obtain ⟨laid, hlaid, hcount, hfold⟩ := bind_of_place typeName hplace
        (by rw [List.length_replicate, harity]) (List.drop_zero) hargs
      refine ⟨laid, hlaid, bind_of_full hvariadic ?_ ?_⟩
      · have : plainCount s.kinds ≤ s.kinds.length := List.countP_le_length
        rw [hcount, ← harity]
        exact this
      · rw [← hfold, harity]
        simp [valued]

end InlineCache.Plan
