import InlineCache.Proofs.Slots
import Mathlib.Data.List.Induction
import Mathlib.Data.List.Nodup

/-! # What binding accepts and what it refuses

Where parameters have different names, binding succeeds exactly if every parameter gets one argument
and no argument is left over. Else the fault is decided by the number of positionals, then by the
first bad keyword, then by the parameters left empty. -/

namespace InlineCache.FunctionRecord

variable {f : FunctionRecord} {given i : Nat} {name : String}

/-! ## The rules -/

/-- What is wrong with a keyword, if `given` parameters have a positional and the keywords in
`before` come first. -/
def keywordFault? (f : FunctionRecord) (given : Nat) (before : List String) (name : String) :
    Option ArgumentFault :=
  match f.paramIndex? name with
  | none => some (.unexpectedKeyword name)
  | some i => if i < given ∨ name ∈ before then some (.multipleValues name) else none

/-- No keyword is bad. -/
def Accepts (f : FunctionRecord) (given : Nat) (names : List String) : Prop :=
  ∀ before name after, names = before ++ name :: after → f.keywordFault? given before name = none

/-- The parameters without an argument, in the order of their declaration. -/
def unfilled (f : FunctionRecord) (args : CallArgs) : List String :=
  (f.params.drop args.positional.length).filter (· ∉ args.keywords.map Prod.fst)

/-- Every parameter gets one argument, and no argument is left over. -/
structure Covered (f : FunctionRecord) (args : CallArgs) : Prop where
  few : args.positional.length ≤ f.params.length ∨ f.variadic = true
  known : ∀ name ∈ args.keywords.map Prod.fst,
    ∃ i, f.params[i]? = some name ∧ args.positional.length ≤ i
  once : (args.keywords.map Prod.fst).Nodup
  full : ∀ i name, f.params[i]? = some name → args.positional.length ≤ i →
    name ∈ args.keywords.map Prod.fst

/-- The fault of arguments that do not bind. -/
inductive Refuses (f : FunctionRecord) (args : CallArgs) : ArgumentFault → Prop
  | tooMany (fixed : f.variadic = false) (many : f.params.length < args.positional.length) :
      Refuses f args (.tooMany f.params.length args.positional.length)
  | keyword {before after : List String} {name : String} {fault : ArgumentFault}
      (few : args.positional.length ≤ f.params.length ∨ f.variadic = true)
      (names : args.keywords.map Prod.fst = before ++ name :: after)
      (accepts : f.Accepts args.positional.length before)
      (bad : f.keywordFault? args.positional.length before name = some fault) :
      Refuses f args fault
  | missing (few : args.positional.length ≤ f.params.length ∨ f.variadic = true)
      (accepts : f.Accepts args.positional.length (args.keywords.map Prod.fst))
      (empty : f.unfilled args ≠ []) : Refuses f args (.missing (f.unfilled args))

/-! ## Keywords that are accepted -/

theorem accepts_nil (f : FunctionRecord) (given : Nat) : f.Accepts given [] := by
  intro before name after heq
  simp at heq

theorem accepts_concat {names : List String} : f.Accepts given (names ++ [name]) ↔
    f.Accepts given names ∧ f.keywordFault? given names name = none := by
  constructor
  · intro all
    refine ⟨fun before name' after heq => ?_, all names name [] rfl⟩
    exact all before name' (after ++ [name]) (by simp [heq])
  · rintro ⟨all, last⟩ before name' after heq
    rcases List.eq_nil_or_concat after with rfl | ⟨after, last', rfl⟩
    · obtain ⟨rfl, heq⟩ := List.append_inj' heq rfl
      obtain rfl : name = name' := by simpa using heq
      exact last
    · rw [List.concat_eq_append, ← List.cons_append, ← List.append_assoc] at heq
      exact all before name' after (List.append_inj' heq rfl).1

theorem paramIndex?_eq_some_iff (distinct : f.params.Nodup) :
    f.paramIndex? name = some i ↔ f.params[i]? = some name := by
  unfold paramIndex? List.idxOf?
  rw [List.findIdx?_eq_some_iff_getElem, List.getElem?_eq_some_iff]
  constructor
  · rintro ⟨hi, heq, -⟩
    exact ⟨hi, by simpa using heq⟩
  · rintro ⟨hi, rfl⟩
    refine ⟨hi, by simp, fun j hj heq => ?_⟩
    have := (List.getElem_inj distinct).mp (by simpa using heq)
    omega

theorem keywordFault?_eq_none_iff (distinct : f.params.Nodup) {before : List String} :
    f.keywordFault? given before name = none ↔
      (∃ i, f.params[i]? = some name ∧ given ≤ i) ∧ name ∉ before := by
  unfold keywordFault?
  cases h : f.paramIndex? name with
  | none =>
    simp only [reduceCtorEq, false_iff]
    rintro ⟨⟨i, hi, -⟩, -⟩
    rw [(paramIndex?_eq_some_iff distinct).mpr hi] at h
    simp at h
  | some i =>
    have hi := (paramIndex?_eq_some_iff distinct).mp h
    have only : ∀ j, f.params[j]? = some name → j = i := fun j hj => by
      rw [← paramIndex?_eq_some_iff distinct, h] at hj
      exact (Option.some.inj hj).symm
    simp only [ite_eq_right_iff, reduceCtorEq, imp_false, not_or, Nat.not_lt]
    refine and_congr_left fun _ => ⟨fun hle => ⟨i, hi, hle⟩, ?_⟩
    rintro ⟨j, hj, hle⟩
    rwa [only j hj] at hle

theorem accepts_iff (distinct : f.params.Nodup) {names : List String} : f.Accepts given names ↔
    names.Nodup ∧ ∀ name ∈ names, ∃ i, f.params[i]? = some name ∧ given ≤ i := by
  induction names using List.reverseRecOn with
  | nil => simp [accepts_nil]
  | append_singleton names name ih =>
    rw [accepts_concat, ih, keywordFault?_eq_none_iff distinct, ← List.concat_eq_append,
      List.nodup_concat, List.concat_eq_append, List.forall_mem_append, List.forall_mem_singleton]
    grind

/-! ## Slots that arguments fill -/

/-- The slots once the positionals and these keywords are in. -/
def filled (f : FunctionRecord) (positional : List Value) (keywords : List (String × Value)) :
    List (Option Value) :=
  f.params.mapIdx fun i name => positional[i]?.or (keywords.lookup name)

theorem length_filled (positional : List Value) (keywords : List (String × Value)) :
    (f.filled positional keywords).length = f.params.length := List.length_mapIdx

theorem getElem?_filled (positional : List Value) (keywords : List (String × Value)) (i : Nat) :
    (f.filled positional keywords)[i]? =
      f.params[i]?.map fun name => positional[i]?.or (keywords.lookup name) := List.getElem?_mapIdx

theorem filled_nil (positional : List Value) :
    f.filled positional [] = f.positionalSlots positional := by
  apply List.ext_getElem?
  intro i
  rw [getElem?_filled, positionalSlots, List.getElem?_map]
  by_cases hi : i < f.params.length
  · simp [hi]
  · simp [hi]

theorem isSome_lookup_iff {keywords : List (String × Value)} :
    (keywords.lookup name).isSome ↔ name ∈ keywords.map Prod.fst := by
  rw [List.lookup_isSome_iff, List.mem_map]
  exact exists_congr fun k => and_congr_right fun _ => beq_iff_eq.trans eq_comm

theorem lookup_concat (keywords : List (String × Value)) (k : String × Value) (name : String) :
    (keywords ++ [k]).lookup name =
      (keywords.lookup name).or (if name = k.1 then some k.2 else none) := by
  rw [List.lookup_append, List.lookup_cons, List.lookup_nil]
  by_cases h : name = k.1
  · rw [if_pos h, beq_iff_eq.mpr h]
  · rw [if_neg h, beq_eq_false_iff_ne.mpr h]

theorem filled_concat (distinct : f.params.Nodup) {positional : List Value}
    {keywords : List (String × Value)} {k : String × Value} (hi : f.params[i]? = some k.1)
    (free : positional[i]?.or (keywords.lookup k.1) = none) :
    f.filled positional (keywords ++ [k]) = (f.filled positional keywords).set i (some k.2) := by
  apply List.ext_getElem?
  intro j
  rw [List.getElem?_set, length_filled, getElem?_filled, getElem?_filled]
  by_cases hij : i = j
  · subst hij
    obtain ⟨hnone, hlookup⟩ := Option.or_eq_none_iff.mp free
    have hlt := (List.getElem?_eq_some_iff.mp hi).1
    rw [hi, Option.map_some, hnone, lookup_concat, hlookup, if_pos rfl, if_pos rfl, if_pos hlt]
    rfl
  · rw [if_neg hij]
    cases hj : f.params[j]? with
    | none => rfl
    | some name =>
      have hne : name ≠ k.1 := by
        rintro rfl
        exact hij ((List.getElem?_inj (List.getElem?_eq_some_iff.mp hi).1 distinct).mp
          (hi.trans hj.symm))
      rw [Option.map_some, Option.map_some, lookup_concat, if_neg hne, Option.or_none]

theorem fillKeyword_filled (distinct : f.params.Nodup) (positional : List Value)
    (keywords : List (String × Value)) (k : String × Value) :
    f.fillKeyword (f.filled positional keywords) k =
      match f.keywordFault? positional.length (keywords.map Prod.fst) k.1 with
      | some fault => .error fault
      | none => .ok (f.filled positional (keywords ++ [k])) := by
  unfold fillKeyword keywordFault?
  cases h : f.paramIndex? k.1 with
  | none => rfl
  | some i =>
    have hi := (paramIndex?_eq_some_iff distinct).mp h
    have hslot : (f.filled positional keywords)[i]? =
        some (positional[i]?.or (keywords.lookup k.1)) := by
      rw [getElem?_filled, hi, Option.map_some]
    have htaken : (positional[i]?.or (keywords.lookup k.1)).isSome ↔
        i < positional.length ∨ k.1 ∈ keywords.map Prod.fst := by
      rw [Option.isSome_or, Bool.or_eq_true, isSome_lookup_iff]
      simp
    dsimp only
    rw [hslot]
    cases hv : positional[i]?.or (keywords.lookup k.1) with
    | some v =>
      rw [if_pos (htaken.mp (by rw [hv]; rfl))]
    | none =>
      have hfree : ¬ (i < positional.length ∨ k.1 ∈ keywords.map Prod.fst) := by
        rw [← htaken, hv]
        simp
      rw [if_neg hfree, filled_concat distinct hi hv]

theorem fillKeywords_of_accepts (distinct : f.params.Nodup) {positional : List Value}
    {keywords : List (String × Value)}
    (accepts : f.Accepts positional.length (keywords.map Prod.fst)) :
    keywords.foldlM f.fillKeyword (f.positionalSlots positional) =
      .ok (f.filled positional keywords) := by
  induction keywords using List.reverseRecOn with
  | nil =>
    rw [filled_nil]
    rfl
  | append_singleton keywords k ih =>
    rw [List.map_append, List.map_singleton, accepts_concat] at accepts
    rw [List.foldlM_append, ih accepts.1]
    change [k].foldlM f.fillKeyword (f.filled positional keywords) = _
    rw [List.foldlM_cons, fillKeyword_filled distinct, accepts.2]
    rfl

theorem fillKeywords_of_bad (distinct : f.params.Nodup) {positional : List Value}
    {keywords : List (String × Value)} {before after : List String} {fault : ArgumentFault}
    (names : keywords.map Prod.fst = before ++ name :: after)
    (accepts : f.Accepts positional.length before)
    (bad : f.keywordFault? positional.length before name = some fault) :
    keywords.foldlM f.fillKeyword (f.positionalSlots positional) = .error fault := by
  obtain ⟨first, rest, rfl, rfl, hrest⟩ := List.map_eq_append_iff.mp names
  obtain ⟨k, rest, rfl, rfl, -⟩ := List.map_eq_cons_iff.mp hrest
  rw [List.foldlM_append, fillKeywords_of_accepts distinct accepts]
  change (k :: rest).foldlM f.fillKeyword (f.filled positional first) = _
  rw [List.foldlM_cons, fillKeyword_filled distinct, bad]
  rfl

theorem accepts_or_bad (f : FunctionRecord) (given : Nat) (names : List String) :
    f.Accepts given names ∨ ∃ before name after fault, names = before ++ name :: after ∧
      f.Accepts given before ∧ f.keywordFault? given before name = some fault := by
  induction names using List.reverseRecOn with
  | nil => exact Or.inl (accepts_nil f given)
  | append_singleton names name ih =>
    rcases ih with accepts | ⟨before, bad, after, fault, rfl, accepts, hbad⟩
    · cases h : f.keywordFault? given names name with
      | none => exact Or.inl (accepts_concat.mpr ⟨accepts, h⟩)
      | some fault => exact Or.inr ⟨names, name, [], fault, rfl, accepts, h⟩
    · exact Or.inr ⟨before, bad, after ++ [name], fault, by simp, accepts, hbad⟩

/-! ## Slots left empty -/

theorem missing_filled (args : CallArgs) :
    f.missing (f.filled args.positional args.keywords) = f.unfilled args := by
  unfold missing filled unfilled
  generalize args.positional = positional
  induction f.params generalizing positional with
  | nil => simp
  | cons name params ih =>
    cases positional with
    | nil =>
      have hrest := ih []
      have hname : (args.keywords.lookup name).isNone =
          decide (name ∉ args.keywords.map Prod.fst) := by
        rw [Bool.eq_iff_iff, decide_eq_true_iff, ← isSome_lookup_iff, Option.isNone_iff_eq_none,
          Option.not_isSome_iff_eq_none]
      simp only [List.mapIdx_cons, List.zip_cons_cons, List.getElem?_nil, Option.none_or,
        List.length_nil, List.drop_zero, List.filter_cons, hname] at hrest ⊢
      split
      · rw [List.map_cons, hrest]
      · exact hrest
    | cons v positional =>
      simpa using ih positional

theorem unfilled_eq_nil_iff {args : CallArgs} : f.unfilled args = [] ↔
    ∀ i name, f.params[i]? = some name → args.positional.length ≤ i →
      name ∈ args.keywords.map Prod.fst := by
  unfold unfilled
  rw [List.filter_eq_nil_iff]
  constructor
  · intro all i name hi hle
    have hmem : name ∈ f.params.drop args.positional.length := by
      rw [List.mem_iff_getElem?]
      exact ⟨i - args.positional.length, by
        rw [List.getElem?_drop, Nat.add_sub_cancel' hle, hi]⟩
    simpa only [decide_eq_true_iff, not_not] using all name hmem
  · intro all name hmem
    obtain ⟨j, hj⟩ := List.mem_iff_getElem?.mp hmem
    rw [List.getElem?_drop] at hj
    simpa only [decide_eq_true_iff, not_not] using all _ name hj (Nat.le_add_right _ _)

theorem getElem?_filterMap {slots : List (Option Value)} (full : ∀ x ∈ slots, x.isSome = true)
    (i : Nat) : (slots.filterMap id)[i]? = slots[i]?.join := by
  induction slots generalizing i with
  | nil => rfl
  | cons x slots ih =>
    obtain ⟨v, rfl⟩ := Option.isSome_iff_exists.mp (full x List.mem_cons_self)
    have rest := ih fun x hx => full x (List.mem_cons_of_mem _ hx)
    cases i with
    | zero => rfl
    | succ i => exact rest i

/-! ## Whole calls -/

theorem few_iff {args : CallArgs} :
    ¬ (f.params.length < args.positional.length && !f.variadic) = true ↔
      args.positional.length ≤ f.params.length ∨ f.variadic = true := by
  cases f.variadic <;> simp

theorem fillSlots_of_accepts (distinct : f.params.Nodup) {args : CallArgs}
    (few : args.positional.length ≤ f.params.length ∨ f.variadic = true)
    (accepts : f.Accepts args.positional.length (args.keywords.map Prod.fst)) :
    f.fillSlots args =
      if f.unfilled args = [] then .ok ((f.filled args.positional args.keywords).filterMap id)
      else .error (.missing (f.unfilled args)) := by
  unfold fillSlots
  rw [if_neg (few_iff.mpr few), fillKeywords_of_accepts distinct accepts]
  simp only [Bind.bind, Except.bind, missing_filled]
  cases f.unfilled args <;> rfl

theorem fillSlots_of_refuses (distinct : f.params.Nodup) {args : CallArgs} {fault : ArgumentFault}
    (refuses : f.Refuses args fault) : f.fillSlots args = .error fault := by
  cases refuses with
  | tooMany fixed many =>
    unfold fillSlots
    rw [if_pos (by simp [fixed, many])]
    rfl
  | keyword few names accepts bad =>
    unfold fillSlots
    rw [if_neg (few_iff.mpr few), fillKeywords_of_bad distinct names accepts bad]
    rfl
  | missing few accepts empty =>
    rw [fillSlots_of_accepts distinct few accepts, if_neg empty]

theorem covered_iff (distinct : f.params.Nodup) {args : CallArgs} : f.Covered args ↔
    (args.positional.length ≤ f.params.length ∨ f.variadic = true) ∧
      f.Accepts args.positional.length (args.keywords.map Prod.fst) ∧ f.unfilled args = [] := by
  rw [accepts_iff distinct, unfilled_eq_nil_iff]
  exact ⟨fun c => ⟨c.few, ⟨c.once, c.known⟩, c.full⟩,
    fun ⟨few, ⟨once, known⟩, full⟩ => ⟨few, known, once, full⟩⟩

theorem covered_or_refuses (distinct : f.params.Nodup) (args : CallArgs) :
    f.Covered args ∨ ∃ fault, f.Refuses args fault := by
  rw [covered_iff distinct]
  by_cases few : args.positional.length ≤ f.params.length ∨ f.variadic = true
  · rcases f.accepts_or_bad args.positional.length (args.keywords.map Prod.fst) with
      accepts | ⟨before, name, after, fault, names, accepts, bad⟩
    · by_cases empty : f.unfilled args = []
      · exact Or.inl ⟨few, accepts, empty⟩
      · exact Or.inr ⟨_, .missing few accepts empty⟩
    · exact Or.inr ⟨fault, .keyword few names accepts bad⟩
  · simp only [not_or, Nat.not_le, Bool.not_eq_true] at few
    exact Or.inr ⟨_, .tooMany few.2 few.1⟩

theorem bind_of_fillSlots_error {args : CallArgs} {fault : ArgumentFault}
    (h : f.fillSlots args = .error fault) (box : Nat) :
    f.bind args box = .error (.argument f.name fault) := by
  unfold bind
  rw [h]

/-- What a body gets when binding succeeds: a value for each parameter, and then the tuple. -/
theorem bind_of_covered (distinct : f.params.Nodup) {args : CallArgs} (covered : f.Covered args)
    (box : Nat) : f.bind args box = .ok ((f.filled args.positional args.keywords).filterMap id ++
      if f.variadic then [.tuple box (args.positional.drop f.params.length)] else []) := by
  obtain ⟨few, accepts, empty⟩ := (covered_iff distinct).mp covered
  unfold bind
  rw [fillSlots_of_accepts distinct few accepts, if_pos empty]
  cases f.variadic <;> simp

theorem getElem?_of_covered (distinct : f.params.Nodup) {args : CallArgs}
    (covered : f.Covered args) (hi : f.params[i]? = some name) :
    ((f.filled args.positional args.keywords).filterMap id)[i]? =
      args.positional[i]?.or (args.keywords.lookup name) := by
  have full : ∀ x ∈ f.filled args.positional args.keywords, x.isSome = true := by
    apply isSome_of_missing (length_filled _ _)
    rw [missing_filled]
    exact ((covered_iff distinct).mp covered).2.2
  rw [getElem?_filterMap full, getElem?_filled, hi]
  rfl

theorem length_of_covered (distinct : f.params.Nodup) {args : CallArgs}
    (covered : f.Covered args) :
    ((f.filled args.positional args.keywords).filterMap id).length = f.params.length := by
  obtain ⟨few, accepts, empty⟩ := (covered_iff distinct).mp covered
  have hfill := fillSlots_of_accepts distinct few accepts
  rw [if_pos empty] at hfill
  exact (fillSlots_spec hfill).2.1

theorem exists_of_mem_keywords {keywords : List (String × Value)}
    (h : name ∈ keywords.map Prod.fst) :
    ∃ v, (name, v) ∈ keywords ∧ keywords.lookup name = some v := by
  obtain ⟨v, hv⟩ := Option.isSome_iff_exists.mp (isSome_lookup_iff.mpr h)
  obtain ⟨before, after, rfl, -⟩ := List.lookup_eq_some_iff.mp hv
  exact ⟨v, by simp, hv⟩

theorem slots_of_covered (distinct : f.params.Nodup) {args : CallArgs} (covered : f.Covered args)
    {box : Nat} {slots : List Value} (h : f.bind args box = .ok slots) :
    slots.length = f.slotCount ∧
    (∀ i name, f.params[i]? = some name →
      (∀ v, args.positional[i]? = some v → slots[i]? = some v) ∧
      (args.positional.length ≤ i → ∃ v, (name, v) ∈ args.keywords ∧ slots[i]? = some v)) ∧
    (f.variadic = true →
      slots.getLast? = some (.tuple box (args.positional.drop f.params.length))) := by
  rw [bind_of_covered distinct covered] at h
  obtain rfl := Except.ok.inj h
  have length := length_of_covered distinct covered
  refine ⟨?_, ?_, fun variadic => by simp [variadic]⟩
  · rw [List.length_append, length, slotCount]
    cases f.variadic <;> rfl
  · intro i name hi
    have hlt := (List.getElem?_eq_some_iff.mp hi).1
    rw [List.getElem?_append_left (length ▸ hlt), getElem?_of_covered distinct covered hi]
    refine ⟨fun v hv => by rw [hv, Option.some_or], fun hle => ?_⟩
    rw [List.getElem?_eq_none hle, Option.none_or]
    exact exists_of_mem_keywords (covered.full i name hi hle)

/-! ## Main theorem -/

/-- Binding succeeds exactly if every parameter gets one argument and no argument is left over. Then
there is a slot for each parameter, with its positional or else with the value of the keyword that
names it, and for a variadic function the tuple of the positionals that are left comes last. Else
the fault is that of too many positionals, or else that of the first keyword that is unknown or
whose parameter is filled already, or else all parameters left empty are named in order. -/
theorem bind_follows_rules (distinct : f.params.Nodup) (args : CallArgs) (box : Nat) :
    ((∃ slots, f.bind args box = .ok slots) ↔ f.Covered args) ∧
    (∀ slots, f.bind args box = .ok slots →
      slots.length = f.slotCount ∧
      (∀ i name, f.params[i]? = some name →
        (∀ v, args.positional[i]? = some v → slots[i]? = some v) ∧
        (args.positional.length ≤ i → ∃ v, (name, v) ∈ args.keywords ∧ slots[i]? = some v)) ∧
      (f.variadic = true →
        slots.getLast? = some (.tuple box (args.positional.drop f.params.length)))) ∧
    ∀ e, f.bind args box = .error e ↔
      ∃ fault, e = .argument f.name fault ∧ f.Refuses args fault := by
  have fails : ∀ fault, f.Refuses args fault →
      f.bind args box = .error (.argument f.name fault) := fun fault refuses =>
    bind_of_fillSlots_error (fillSlots_of_refuses distinct refuses) box
  have succeeds : (∃ slots, f.bind args box = .ok slots) ↔ f.Covered args := by
    constructor
    · rintro ⟨slots, h⟩
      refine (covered_or_refuses distinct args).resolve_right ?_
      rintro ⟨fault, refuses⟩
      rw [fails fault refuses] at h
      simp at h
    · exact fun covered => ⟨_, bind_of_covered distinct covered box⟩
  refine ⟨succeeds, ?_, ?_⟩
  · exact fun slots h => slots_of_covered distinct (succeeds.mp ⟨slots, h⟩) h
  · intro e
    constructor
    · intro h
      rcases covered_or_refuses distinct args with covered | ⟨fault, refuses⟩
      · rw [bind_of_covered distinct covered] at h
        simp at h
      · rw [fails fault refuses] at h
        exact ⟨fault, (Except.error.inj h).symm, refuses⟩
    · rintro ⟨fault, rfl, refuses⟩
      exact fails fault refuses

/-- Two parameters, and the tuple of whatever positionals are left. -/
def gather : FunctionRecord := ⟨"gather", ["a", "b"], true⟩

theorem gather_binds : gather.params.Nodup ∧
    gather.Covered { positional := [.none], keywords := [("b", .bool true)] } ∧
    gather.bind { positional := [.none], keywords := [("c", .none), ("a", .none)] } 7 =
      .error (.argument "gather" (.unexpectedKeyword "c")) := by
  have distinct : gather.params.Nodup := by decide
  refine ⟨distinct, ?_, ?_⟩
  · exact (bind_follows_rules distinct _ 7).1.mp ⟨[.none, .bool true, .tuple 7 []], rfl⟩
  · have names : (["c", "a"] : List String) = [] ++ "c" :: ["a"] := rfl
    exact ((bind_follows_rules distinct _ 7).2.2 _).mpr
      ⟨_, rfl, .keyword (Or.inr rfl) names (accepts_nil _ _) rfl⟩

end InlineCache.FunctionRecord
