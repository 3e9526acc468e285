import InlineCache.Proofs.Signatures
import InlineCache.Proofs.Slots
import InlineCache.Proofs.Uncached

/-! # Planned calls bind like general calls

Where a plan exists, it is a permutation of the arguments and picks the slots that binding fills.
For a function without a tuple of further positionals, and a call without a star, there is one
exactly if binding succeeds. -/

namespace InlineCache

namespace Plan

variable {f : FunctionRecord} {kinds before after : List ArgKind} {kind : ArgKind} {i next p : Nat}
  {slots out : List (Option Nat)}

/-! ## Where each argument goes -/

/-- The slot of an argument; `next` is the place of the next plain one. -/
def home? (f : FunctionRecord) (next : Nat) : ArgKind → Option Nat
  | .plain => some next
  | .named name => f.paramIndex? name
  | .star => none

theorem place_cons (f : FunctionRecord) (i next : Nat) (kind : ArgKind) (kinds : List ArgKind)
    (slots : List (Option Nat)) : place f i next (kind :: kinds) slots =
      (home? f next kind).bind fun p =>
        place.fill i p slots (place f (i + 1) (next + plainCount [kind]) kinds) := by
  cases kind with
  | named name => cases h : f.paramIndex? name <;> simp [place, home?, plainCount, h]
  | _ => rfl

theorem fill_of_free {rest : List (Option Nat) → Option (List (Option Nat))}
    (hfree : slots[p]? = some none) : place.fill i p slots rest = rest (slots.set p (some i)) := by
  unfold place.fill
  rw [hfree]

theorem length_place (h : place f i next kinds slots = some out) : out.length = slots.length := by
  induction kinds generalizing i next slots with
  | nil =>
    obtain rfl : slots = out := by simpa [place] using h
    rfl
  | cons kind kinds ih =>
    rw [place_cons] at h
    obtain ⟨p, -, h⟩ := Option.bind_eq_some_iff.mp h
    rw [ih (fill_eq_some h).2, List.length_set]

theorem plainCount_append (kinds kinds' : List ArgKind) :
    plainCount (kinds ++ kinds') = plainCount kinds + plainCount kinds' := List.countP_append

theorem plainCount_cons (kind : ArgKind) (kinds : List ArgKind) :
    plainCount (kind :: kinds) = plainCount [kind] + plainCount kinds :=
  plainCount_append [kind] kinds

theorem plainCount_le (kinds : List ArgKind) : plainCount kinds ≤ kinds.length :=
  List.countP_le_length

theorem home?_lt (hhome : home? f next kind = some p) (hlen : slots.length = f.params.length)
    (hroom : next + plainCount [kind] ≤ slots.length) : p < slots.length := by
  cases kind with
  | plain =>
    obtain rfl : next = p := by simpa [home?] using hhome
    simpa [plainCount] using hroom
  | named name => exact hlen ▸ paramIndex?_lt hhome
  | star => simp [home?] at hhome

theorem home?_lt_of_place (hsplit : kinds = before ++ kind :: after)
    (harity : kinds.length = f.params.length)
    (hplace : place f 0 0 before (List.replicate kinds.length none) = some slots)
    (hhome : home? f (plainCount before) kind = some p) : p < slots.length := by
  have hlen := (length_place hplace).trans List.length_replicate
  apply home?_lt hhome (hlen.trans harity)
  have hbefore := plainCount_le before
  have hkind := plainCount_le [kind]
  rw [hlen, hsplit, List.length_append, List.length_cons]
  rw [List.length_singleton] at hkind
  omega

/-! ## A plan uses each argument once -/

theorem perm_set (hp : p < slots.length) (hfree : slots[p]? = some none) :
    ((slots.set p (some i)).filterMap id).Perm (i :: slots.filterMap id) := by
  have hsplit : slots = slots.take p ++ none :: slots.drop (p + 1) := by
    rw [← (List.getElem?_eq_some_iff.mp hfree).2, List.getElem_cons_drop, List.take_append_drop]
  rw [List.set_eq_take_append_cons_drop, if_pos hp]
  conv_rhs => rw [hsplit]
  simp

theorem perm_of_place (h : place f i next kinds slots = some out)
    (hlen : slots.length = f.params.length) (hroom : next + plainCount kinds ≤ slots.length) :
    (out.filterMap id).Perm (slots.filterMap id ++ List.range' i kinds.length) := by
  induction kinds generalizing i next slots with
  | nil =>
    obtain rfl : slots = out := by simpa [place] using h
    simp
  | cons kind kinds ih =>
    rw [place_cons] at h
    obtain ⟨p, hhome, h⟩ := Option.bind_eq_some_iff.mp h
    obtain ⟨hfree, h⟩ := fill_eq_some h
    rw [plainCount_cons] at hroom
    have hp : p < slots.length := home?_lt hhome hlen (by omega)
    have hnone : slots[p]? = some none := by
      rw [List.getElem?_eq_getElem hp] at hfree ⊢
      cases hslot : slots[p] with
      | none => rfl
      | some j => exact absurd (congrArg some hslot) (hfree j)
    have hrest := ih h (by rwa [List.length_set]) (by rw [List.length_set]; omega)
    rw [List.length_cons, List.range'_succ]
    exact hrest.trans (((perm_set hp hnone).append_right _).trans List.perm_middle.symm)

theorem perm_of_make {s : Signature} {plan : List Nat} (h : make? f s = some plan) :
    plan.Perm (List.range s.arity) := by
  unfold make? at h
  split at h
  · simp at h
  · rename_i hgood
    have harity : s.arity = f.params.length := by
      simp only [Bool.or_eq_true, decide_eq_true_eq, not_or, not_not] at hgood
      exact hgood.2
    split at h
    · exact Option.some.inj h ▸ .refl _
    · obtain ⟨out, hplace, hmap⟩ := Option.bind_eq_some_iff.mp h
      obtain rfl := eq_map_some_of_mapM hmap
      have hperm := perm_of_place hplace (List.length_replicate.trans harity)
        (by rw [List.length_replicate, Nat.zero_add]; exact plainCount_le _)
      simpa [List.range_eq_range', Signature.arity] using hperm

/-! ## What binds has a plan -/

theorem length_positional_spread {rest : List Value} (hstar : .star ∉ kinds)
    (hargs : rest.length = kinds.length) :
    (Signature.spread (kinds.zip rest)).positional.length = plainCount kinds := by
  induction kinds generalizing rest with
  | nil => rfl
  | cons kind kinds ih =>
    obtain ⟨v, vs, rfl⟩ := List.exists_cons_of_length_eq_add_one hargs
    obtain ⟨hkind, hkinds⟩ := not_or.mp (mt List.mem_cons.mpr hstar)
    rw [plainCount_cons, ← ih hkinds (Nat.succ.inj hargs)]
    change (kind.positionals v ++ (Signature.spread (kinds.zip vs)).positional).length = _
    rw [List.length_append]
    cases kind with
    | plain | named name => rfl
    | star => exact absurd rfl hkind

theorem layOut_of_no_star (typeName : Value → String) {rest : List Value}
    (hstar : .star ∉ kinds) (hargs : rest.length = kinds.length) :
    ∃ laid, Signature.layOutKinds typeName kinds rest = .ok laid ∧
      laid.positional.length = plainCount kinds ∧ laid.size = kinds.length := by
  refine ⟨_, Signature.layOutKinds_of_fits typeName (Signature.starsFit_of_no_star hstar),
    length_positional_spread hstar hargs, ?_⟩
  have all := (Signature.values_perm (kinds.zip rest)).length_eq
  rw [Signature.values_of_no_star hstar hargs, List.length_append, List.length_map] at all
  exact all.trans hargs

theorem free_of_fillKeyword {name : String} {v : Value} {vs args : List Value}
    {filled : List (Option Value)} (hlen : slots.length = f.params.length)
    (h : f.fillKeyword (putPlain next vs (valued args slots)) (name, v) = .ok filled) :
    ∃ q, f.paramIndex? name = some q ∧ slots[q]? = some none ∧
      (q < next ∨ next + vs.length ≤ q) := by
  unfold FunctionRecord.fillKeyword at h
  cases hq : f.paramIndex? name with
  | none => simp [hq] at h
  | some q =>
    have hlt : q < slots.length := hlen ▸ paramIndex?_lt hq
    have hfree : ∀ w, (putPlain next vs (valued args slots))[q]? ≠ some (some w) := by
      intro w hw
      simp [hq, hw] at h
    have hout : q < next ∨ next + vs.length ≤ q := by
      by_contra hin
      have hidx : q - next < vs.length := by omega
      apply hfree vs[q - next]
      rw [getElem?_putPlain_self _ _ _ _ (by omega) (by omega) (by simpa [valued] using hlt),
        List.getElem?_eq_getElem hidx]
    refine ⟨q, rfl, ?_, hout⟩
    rw [List.getElem?_eq_getElem hlt]
    cases hslot : slots[q] with
    | none => rfl
    | some j =>
      refine absurd ?_ (hfree (args.getD j .none))
      rw [getElem?_putPlain _ _ _ _ hout, valued, List.getElem?_map,
        List.getElem?_eq_getElem hlt, hslot]
      rfl

theorem place_of_bind (typeName : Value → String) {args rest : List Value} {laid : CallArgs}
    {filled : List (Option Value)} (hstar : .star ∉ kinds)
    (hlen : slots.length = f.params.length)
    (hroom : ∀ p, next ≤ p → p < next + plainCount kinds → slots[p]? = some none)
    (hrest : args.drop i = rest) (hargs : rest.length = kinds.length)
    (hlaid : Signature.layOutKinds typeName kinds rest = .ok laid)
    (hfold : laid.keywords.foldlM f.fillKeyword
      (putPlain next laid.positional (valued args slots)) = .ok filled) :
    ∃ out, place f i next kinds slots = some out ∧ filled = valued args out := by
  induction kinds generalizing i next slots rest laid with
  | nil =>
    obtain rfl : {} = laid := by simpa [Signature.layOutKinds] using hlaid
    exact ⟨slots, rfl, (Except.ok.inj hfold).symm⟩
  | cons kind kinds ih =>
    cases rest with
    | nil => simp at hargs
    | cons v vs =>
      have hv : args.getD i .none = v := by
        rw [List.getD_eq_getElem?_getD, ← List.head?_drop, hrest]
        rfl
      have hvs : args.drop (i + 1) = vs := by
        rw [← List.drop_drop, hrest]
        rfl
      have hlenvs : vs.length = kinds.length := by simpa using hargs
      have hstar' : .star ∉ kinds := fun h => hstar (List.mem_cons_of_mem _ h)
      obtain ⟨tail, htail, hcount, -⟩ := layOut_of_no_star typeName hstar' hlenvs
      cases kind with
      | plain =>
        have hnext : slots[next]? = some none := hroom next le_rfl (by simp [plainCount])
        have hroom' : ∀ p, next + 1 ≤ p → p < next + 1 + plainCount kinds →
            (slots.set next (some i))[p]? = some none := by
          intro p hp hlt
          rw [List.getElem?_set_ne (by omega)]
          apply hroom p (by omega)
          simp only [plainCount, List.countP_cons, beq_self_eq_true, if_true] at hlt ⊢
          omega
        obtain rfl : { tail with positional := v :: tail.positional } = laid := by
          simp only [Signature.layOutKinds, htail] at hlaid
          exact Except.ok.inj hlaid
        rw [putPlain, ← hv, ← valued_set] at hfold
        rw [place, fill_of_free hnext]
        exact ih hstar' (by rwa [List.length_set]) hroom' hvs hlenvs htail hfold
      | named name =>
        obtain rfl : { tail with keywords := (name, v) :: tail.keywords } = laid := by
          simp only [Signature.layOutKinds, htail] at hlaid
          exact Except.ok.inj hlaid
        rw [List.foldlM_cons] at hfold
        cases hfill : f.fillKeyword (putPlain next tail.positional (valued args slots))
            (name, v) with
        | error fault =>
          rw [hfill] at hfold
          exact absurd hfold (by rintro ⟨⟩)
        | ok filled' =>
          rw [hfill] at hfold
          obtain ⟨q, hq, hfree, hout⟩ := free_of_fillKeyword hlen hfill
          rw [fillKeyword_putPlain hq (by simp [hfree]) hout, ← hv, ← valued_set] at hfill
          rw [hcount] at hout
          have hroom' : ∀ p, next ≤ p → p < next + plainCount kinds →
              (slots.set q (some i))[p]? = some none := by
            intro p hp hlt
            rw [List.getElem?_set_ne (by omega)]
            exact hroom p hp (by simpa [plainCount] using hlt)
          rw [place_cons, home?, hq, Option.bind_some, fill_of_free hfree]
          exact ih hstar' (by rwa [List.length_set]) hroom' hvs hlenvs htail
            (Except.ok.inj hfill ▸ hfold)
      | star => simp at hstar

theorem mapM_id_of_isSome (h : ∀ x ∈ out, x.isSome = true) :
    ∃ plan, out.mapM id = some plan := by
  induction out with
  | nil => exact ⟨[], by simp⟩
  | cons slot out ih =>
    obtain ⟨plan, hplan⟩ := ih fun x hx => h x (List.mem_cons_of_mem _ hx)
    obtain ⟨i, rfl⟩ := Option.isSome_iff_exists.mp (h slot List.mem_cons_self)
    exact ⟨i :: plan, by simp [hplan]⟩

theorem isSome_of_valued {args : List Value} (h : ∀ x ∈ valued args out, x.isSome = true) :
    ∀ x ∈ out, x.isSome = true := by
  intro x hx
  simpa using h _ (List.mem_map_of_mem hx)

theorem ne_star_getLast? (hstar : .star ∉ kinds) : kinds.getLast? ≠ some .star := fun h =>
  hstar (List.mem_of_getLast? h)

/-- Arguments that bind have a plan, unless a tuple is collected or spread out. -/
theorem make_of_bind {s : Signature} (typeName : Value → String) {args : List Value}
    {laid : CallArgs} {box : Nat} {values : List Value} (hfixed : f.variadic = false)
    (hstar : .star ∉ s.kinds) (hargs : args.length = s.arity)
    (hlaid : s.layOut typeName args = .ok laid) (hbind : f.bind laid box = .ok values) :
    ∃ plan, make? f s = some plan := by
  obtain ⟨filled, hfill, -⟩ := FunctionRecord.bind_eq_ok hbind
  obtain ⟨hfew, slots, hfold, hmissing, -⟩ := FunctionRecord.fillSlots_eq_ok hfill
  obtain ⟨laid', hlaid', hcount, hsize⟩ := layOut_of_no_star typeName hstar hargs
  obtain rfl : laid' = laid := Except.ok.inj (hlaid'.symm.trans hlaid)
  have harity : s.arity = f.params.length := by
    have hcover := (FunctionRecord.fillSlots_spec hfill).1
    have hle := hfew hfixed
    unfold CallArgs.size at hsize
    unfold Signature.arity
    omega
  have hplain : s.hasStar = false := by simp [Signature.hasStar, ne_star_getLast? hstar]
  unfold make?
  rw [if_neg (by simp [hfixed, hplain, harity])]
  split
  · exact ⟨_, rfl⟩
  · rw [FunctionRecord.positionalSlots, ← putPlain_replicate, ← harity] at hfold
    have hempty : valued args (List.replicate s.arity none) = List.replicate s.arity none := by
      simp [valued]
    have hroom : ∀ p, 0 ≤ p → p < 0 + plainCount s.kinds →
        (List.replicate s.arity (none : Option Nat))[p]? = some none := by
      intro p _ hp
      have := plainCount_le s.kinds
      rw [List.getElem?_replicate, if_pos]
      unfold Signature.arity
      omega
    rw [← hempty] at hfold
    obtain ⟨out, hplace, rfl⟩ := place_of_bind typeName hstar
      (List.length_replicate.trans harity) hroom List.drop_zero hargs hlaid hfold
    have hlen : (valued args out).length = f.params.length := by
      rw [valued, List.length_map, length_place hplace, List.length_replicate, harity]
    obtain ⟨plan, hplan⟩ := mapM_id_of_isSome
      (isSome_of_valued (FunctionRecord.isSome_of_missing hlen hmissing))
    exact ⟨plan, by rw [hplace, Option.bind_some, hplan]⟩

end Plan

/-! ## Calls -/

/-- Binds arguments as they were written. -/
def FunctionRecord.bindWritten (f : FunctionRecord) (s : Signature) (typeName : Value → String)
    (args : List Value) (box : Nat) : Except RuntimeError (List Value) := do
  let laid ← s.layOut typeName args
  f.bind laid box

theorem Plan.exists_make_iff {f : FunctionRecord} {s : Signature} (typeName : Value → String)
    {args : List Value} (box : Nat) (hfixed : f.variadic = false) (hstar : .star ∉ s.kinds)
    (hargs : args.length = s.arity) :
    (∃ plan, make? f s = some plan) ↔
      ∃ slots, f.bindWritten s typeName args box = .ok slots := by
  unfold FunctionRecord.bindWritten
  constructor
  · rintro ⟨plan, hplan⟩
    obtain ⟨-, laid, hlaid, hbind⟩ := bind_of_make hplan typeName hargs
    exact ⟨pick plan args, by rw [hlaid]; exact hbind box⟩
  · rintro ⟨slots, h⟩
    cases hlaid : s.layOut typeName args with
    | error err => simp [hlaid, bind, Except.bind] at h
    | ok laid =>
      rw [hlaid] at h
      exact make_of_bind typeName hfixed hstar hargs hlaid h

/-- The world once the tuple of further positionals is made, if the function collects one. -/
def World.boxed (w : World) (f : FunctionRecord) : World :=
  { w with heap := if f.variadic then w.heap.addBox.2 else w.heap }

namespace Engine

theorem callWritten_function (e : Engine) (f : FunctionRef) (s : Signature) (args : List Value)
    (w : World) : e.callWritten s (.function f) args w =
      match (w.heap.functionAt f).bindWritten s w.heap.typeName args w.heap.boxes with
      | .error err => .error (.error err) w
      | .ok slots => e.enter (.function f slots) (w.boxed (w.heap.functionAt f)) := by
  unfold callWritten FunctionRecord.bindWritten call
  simp only [callWithin_function]
  rw [heap_bind]
  cases hlaid : s.layOut w.heap.typeName args with
  | error err => rfl
  | ok laid =>
    change e.callFunction f laid w = _
    unfold callFunction
    rw [heap_bind]
    dsimp only
    rw [heap_bind]
    simp only [bind, Except.bind]
    cases (w.heap.functionAt f).bind laid w.heap.boxes with
    | error err => rfl
    | ok slots =>
      unfold World.boxed
      cases (w.heap.functionAt f).variadic <;> rfl

/-- A call by plan enters the function with the slots that binding gives, or fails as binding does
and enters nothing. No argument is looked for outside the arguments, and while the plan is made none
is put outside the slots. Unless a tuple is collected or spread out, there is a plan exactly if
binding succeeds. -/
theorem planned_call_binds (e : Engine) (f : FunctionRef) (s : Signature) {args : List Value}
    (w : World) (hargs : args.length = s.arity) :
    let fn := w.heap.functionAt f
    let bound := fn.bindWritten s w.heap.typeName args w.heap.boxes
    let call := e.callPlanned f (Plan.make? fn s) s args
    (∀ err, bound = .error err → call w = .error (.error err) w) ∧
    (∀ slots, bound = .ok slots → call w = e.enter (.function f slots) (w.boxed fn)) ∧
    (∀ plan, Plan.make? fn s = some plan → plan.Perm (List.range args.length)) ∧
    (∀ before kind after placed p, s.kinds = before ++ kind :: after →
      s.arity = fn.params.length →
      Plan.place fn 0 0 before (List.replicate s.arity none) = some placed →
      Plan.home? fn (Plan.plainCount before) kind = some p → p < placed.length) ∧
    (fn.variadic = false → .star ∉ s.kinds →
      ((∃ plan, Plan.make? fn s = some plan) ↔ ∃ slots, bound = .ok slots)) := by
  have hcall : e.callPlanned f (Plan.make? (w.heap.functionAt f) s) s args w =
      e.callWritten s (.function f) args w := callPlanned_eq rfl hargs
  rw [callWritten_function] at hcall
  refine ⟨?_, ?_, ?_, ?_, ?_⟩
  · intro err herr
    rw [hcall, herr]
  · intro slots hslots
    rw [hcall, hslots]
  · exact fun plan hplan => hargs ▸ Plan.perm_of_make hplan
  · exact fun before kind after placed p hsplit harity hplace hhome =>
      Plan.home?_lt_of_place hsplit harity hplace hhome
  · exact fun hfixed hstar => Plan.exists_make_iff w.heap.typeName _ hfixed hstar hargs

/-- A keyword comes first, and the positional is left for the first parameter. -/
def crossed : Signature := ⟨[.named "b", .plain]⟩

/-- The one function there is takes two arguments. -/
def crossedStart : World := (History.start #[⟨"pair", ["a", "b"], false⟩]).world

theorem crossed_call_binds :
    Plan.make? (crossedStart.heap.functionAt ⟨0⟩) crossed = some [1, 0] ∧
    (constant .none).callPlanned ⟨0⟩ (some [1, 0]) crossed [.none, .bool true] crossedStart =
      (constant .none).enter (.function ⟨0⟩ [.bool true, .none]) crossedStart := by
  have hargs : [Value.none, .bool true].length = crossed.arity := rfl
  have hplan : Plan.make? (crossedStart.heap.functionAt ⟨0⟩) crossed = some [1, 0] := by decide
  refine ⟨hplan, ?_⟩
  rw [← hplan]
  have hbinds := planned_call_binds (constant .none) ⟨0⟩ crossed crossedStart hargs
  exact hbinds.2.1 [.bool true, .none] rfl

end Engine

end InlineCache
