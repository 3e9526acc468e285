import InlineCache.Signature
import Mathlib.Data.List.Nodup
import Mathlib.Data.List.Perm.Basic

/-! # Laying arguments out

A signature is in order if a star stands in the last place only and no name is given twice.
Arguments are laid out one by one, each by its own kind, and the only thing that can go wrong is a
star that is no tuple. So a receiver may be put in front before arguments are laid out or after. -/

namespace InlineCache

namespace ArgKind

/-- What an argument adds to the positionals: a plain one itself, a starred tuple its items. -/
def positionals : ArgKind → Value → List Value
  | .plain, v => [v]
  | .star, .tuple _ items => items
  | _, _ => []

def keywords : ArgKind → Value → List (String × Value)
  | .named name, v => [(name, v)]
  | _, _ => []

/-- The name that an argument is given by, if it is. -/
def names : ArgKind → List String
  | .named name => [name]
  | _ => []

def values (kind : ArgKind) (v : Value) : List Value :=
  kind.positionals v ++ (kind.keywords v).map Prod.snd

theorem map_fst_keywords (kind : ArgKind) (v : Value) :
    (kind.keywords v).map Prod.fst = kind.names := by
  cases kind <;> rfl

end ArgKind

namespace CallArgs

variable (a : CallArgs) (v : Value)

theorem size_withReceiver : (a.withReceiver v).size = a.size + 1 := by
  change a.positional.length + 1 + a.keywords.length = a.positional.length + a.keywords.length + 1
  omega

theorem withoutReceiver_withReceiver : (a.withReceiver v).withoutReceiver = a := rfl

end CallArgs

namespace Signature

variable {kinds : List ArgKind} {args : List Value} {laid : CallArgs} {s : Signature}
  {n : Value → String}

/-! ## Signatures in order -/

def namesOf (kinds : List ArgKind) : List String := kinds.flatMap ArgKind.names

theorem namesOf_cons (kind : ArgKind) (kinds : List ArgKind) :
    namesOf (kind :: kinds) = kind.names ++ namesOf kinds := List.flatMap_cons

/-- A star stands in the last place only, and no name is given twice. -/
structure InOrder (kinds : List ArgKind) : Prop where
  star_last : .star ∉ kinds.dropLast
  names_once : (namesOf kinds).Nodup

theorem inOrder_nil : InOrder [] := ⟨List.not_mem_nil, List.nodup_nil⟩

theorem star_last_cons {kind : ArgKind} : .star ∉ (kind :: kinds).dropLast ↔
    (kind = .star → kinds = []) ∧ .star ∉ kinds.dropLast := by
  cases kinds with
  | nil => simp
  | cons next rest =>
    rw [List.dropLast_cons_cons, List.mem_cons, not_or]
    simp [eq_comm]

theorem inOrder_cons {kind : ArgKind} : InOrder (kind :: kinds) ↔
    (kind = .star → kinds = []) ∧ (∀ name ∈ kind.names, name ∉ namesOf kinds) ∧
      InOrder kinds := by
  have once : kind.names.Nodup := by cases kind <;> simp [ArgKind.names]
  have names : (namesOf (kind :: kinds)).Nodup ↔
      (∀ name ∈ kind.names, name ∉ namesOf kinds) ∧ (namesOf kinds).Nodup := by
    rw [namesOf_cons, List.nodup_append']
    exact ⟨fun h => ⟨h.2.2, h.2.1⟩, fun h => ⟨once, h.2, h.1⟩⟩
  constructor
  · rintro ⟨star, distinct⟩
    obtain ⟨last, star⟩ := star_last_cons.mp star
    obtain ⟨new, distinct⟩ := names.mp distinct
    exact ⟨last, new, star, distinct⟩
  · rintro ⟨last, new, star, distinct⟩
    exact ⟨star_last_cons.mpr ⟨last, star⟩, names.mpr ⟨new, distinct⟩⟩

theorem fault?_eq_none_iff {seen : List String} : fault? seen kinds = none ↔
    InOrder kinds ∧ ∀ name ∈ namesOf kinds, name ∉ seen := by
  induction kinds generalizing seen with
  | nil => simp [fault?, inOrder_nil, namesOf]
  | cons kind kinds ih =>
    rw [inOrder_cons, namesOf_cons]
    cases kind with
    | plain => simp [fault?, ih, ArgKind.names]
    | named name =>
      by_cases old : name ∈ seen
      · simp [fault?, old, ArgKind.names]
      · simp only [fault?, if_neg old, ih, ArgKind.names]
        grind
    | star => cases kinds <;> simp [fault?, inOrder_nil, ArgKind.names, namesOf]

theorem ofKinds_eq_ok_iff : ofKinds kinds = .ok s ↔ InOrder kinds ∧ s.kinds = kinds := by
  have order : fault? [] kinds = none ↔ InOrder kinds := by simp [fault?_eq_none_iff]
  unfold ofKinds
  rw [← order]
  cases fault? [] kinds with
  | none =>
    simp only [Except.ok.injEq, true_and]
    exact ⟨fun built => built ▸ rfl, fun built => built ▸ rfl⟩
  | some fault => simp

/-! ## Laying out one by one -/

/-- Arguments laid out one by one, each by its own kind. -/
def spread (written : List (ArgKind × Value)) : CallArgs where
  positional := written.flatMap fun a => a.1.positionals a.2
  keywords := written.flatMap fun a => a.1.keywords a.2

/-- Every star is a tuple. -/
def StarsFit (written : List (ArgKind × Value)) : Prop :=
  ∀ v, (.star, v) ∈ written → ∃ box items, v = .tuple box items

theorem starsFit_cons {kind : ArgKind} {v : Value} {written : List (ArgKind × Value)} :
    StarsFit ((kind, v) :: written) ↔
      (kind = .star → ∃ box items, v = .tuple box items) ∧ StarsFit written := by
  simp only [StarsFit, List.mem_cons, Prod.mk.injEq, or_imp, forall_and]
  simp [eq_comm]

theorem layOutKinds_cons (n : Value → String) (kind : ArgKind) (v : Value) (kinds : List ArgKind)
    (args : List Value) (fits : kind = .star → ∃ box items, v = .tuple box items) :
    layOutKinds n (kind :: kinds) (v :: args) = (layOutKinds n kinds args).map fun rest =>
      { positional := kind.positionals v ++ rest.positional
        keywords := kind.keywords v ++ rest.keywords } := by
  cases kind with
  | plain | named name =>
    rw [layOutKinds]
    cases layOutKinds n kinds args <;> rfl
  | star =>
    obtain ⟨box, items, rfl⟩ := fits rfl
    rw [layOutKinds]
    cases layOutKinds n kinds args <;> rfl

theorem layOutKinds_of_fits (n : Value → String) (fit : StarsFit (kinds.zip args)) :
    layOutKinds n kinds args = .ok (spread (kinds.zip args)) := by
  induction kinds generalizing args with
  | nil => rfl
  | cons kind kinds ih =>
    cases args with
    | nil => cases kind <;> rfl
    | cons v args =>
      obtain ⟨first, rest⟩ := starsFit_cons.mp fit
      rw [layOutKinds_cons n kind v kinds args first, ih rest]
      rfl

theorem starsFit_of_layOutKinds (done : layOutKinds n kinds args = .ok laid) :
    StarsFit (kinds.zip args) := by
  -- A star that is no tuple ends the run at once, so where the rest is laid out the first fits.
  induction kinds generalizing args laid with
  | nil => exact fun v hv => absurd hv List.not_mem_nil
  | cons kind kinds ih =>
    cases args with
    | nil => exact fun v hv => absurd hv List.not_mem_nil
    | cons v args =>
      have first : kind = .star → ∃ box items, v = .tuple box items := by
        rintro rfl
        cases v with
        | tuple box items => exact ⟨box, items, rfl⟩
        | _ => cases done
      rw [layOutKinds_cons n kind v kinds args first] at done
      cases rest : layOutKinds n kinds args with
      | error e =>
        rw [rest] at done
        cases done
      | ok tail => exact starsFit_cons.mpr ⟨first, ih rest⟩

theorem layOutKinds_eq_ok_iff : layOutKinds n kinds args = .ok laid ↔
    StarsFit (kinds.zip args) ∧ spread (kinds.zip args) = laid := by
  constructor
  · intro done
    have fit := starsFit_of_layOutKinds done
    rw [layOutKinds_of_fits n fit] at done
    exact ⟨fit, Except.ok.inj done⟩
  · rintro ⟨fit, rfl⟩
    exact layOutKinds_of_fits n fit

/-! ## The star -/

theorem InOrder.star_mem_iff (order : InOrder s.kinds) : .star ∈ s.kinds ↔ s.hasStar = true := by
  rw [hasStar, beq_iff_eq]
  refine ⟨fun mem => ?_, List.mem_of_getLast?⟩
  have hne : s.kinds ≠ [] := List.ne_nil_of_mem mem
  rw [← List.dropLast_append_getLast hne, List.mem_append] at mem
  have last := List.mem_singleton.mp (mem.resolve_left order.star_last)
  rw [List.getLast?_eq_some_getLast hne, ← last]

theorem InOrder.split (order : InOrder s.kinds) (star : s.hasStar = true)
    (length : args.length = s.arity) : ∃ front vs v, s.kinds = front ++ [.star] ∧
      args = vs ++ [v] ∧ .star ∉ front ∧ vs.length = front.length := by
  obtain ⟨front, hkinds⟩ := List.getLast?_eq_some_iff.mp (beq_iff_eq.mp star)
  have plain : .star ∉ front := by
    have last := order.star_last
    rwa [hkinds, List.dropLast_concat] at last
  rw [arity, hkinds, List.length_append, List.length_singleton] at length
  have hne : args ≠ [] := List.ne_nil_of_length_eq_add_one length
  refine ⟨front, args.dropLast, args.getLast hne, hkinds,
    (List.dropLast_append_getLast hne).symm, plain, ?_⟩
  rw [List.length_dropLast, length, Nat.add_sub_cancel]

theorem layOutKinds_bad {v : Value} (bad : ∀ box items, v ≠ .tuple box items)
    {front : List ArgKind} (plain : .star ∉ front) {vs : List Value}
    (length : vs.length = front.length) :
    layOutKinds n (front ++ [.star]) (vs ++ [v]) = .error (.type (.starNotIterable (n v))) := by
  induction front generalizing vs with
  | nil =>
    obtain rfl := List.length_eq_zero_iff.mp length
    cases v with
    | tuple box items => exact absurd rfl (bad box items)
    | _ => rfl
  | cons kind front ih =>
    obtain ⟨u, us, rfl⟩ := List.exists_cons_of_length_eq_add_one length
    obtain ⟨hkind, hfront⟩ := not_or.mp (mt List.mem_cons.mpr plain)
    have first : kind = .star → ∃ box items, u = .tuple box items := fun h => absurd h.symm hkind
    rw [List.cons_append, List.cons_append, layOutKinds_cons n kind u _ _ first,
      ih hfront (Nat.succ.inj length)]
    rfl

theorem layOut_of_bad (order : InOrder s.kinds) (star : s.hasStar = true)
    (length : args.length = s.arity) {v : Value} (last : args.getLast? = some v)
    (bad : ∀ box items, v ≠ .tuple box items) (n : Value → String) :
    s.layOut n args = .error (.type (.starNotIterable (n v))) := by
  obtain ⟨front, vs, w, hkinds, rfl, plain, hfront⟩ := order.split star length
  obtain rfl : w = v := by simpa using last
  rw [layOut, hkinds]
  exact layOutKinds_bad bad plain hfront

/-! ## Nothing lost -/

/-- The values that a call passes on: its arguments, with the items of a star in its place. -/
def passed (s : Signature) (args : List Value) : List Value :=
  match s.hasStar, args.getLast? with
  | true, some (.tuple _ items) => args.dropLast ++ items
  | _, _ => args

theorem values_of_no_star {kinds : List ArgKind} (plain : .star ∉ kinds)
    (length : args.length = kinds.length) :
    (kinds.zip args).flatMap (fun a => a.1.values a.2) = args := by
  induction kinds generalizing args with
  | nil => exact (List.length_eq_zero_iff.mp length).symm
  | cons kind kinds ih =>
    obtain ⟨v, vs, rfl⟩ := List.exists_cons_of_length_eq_add_one length
    obtain ⟨hkind, hkinds⟩ := not_or.mp (mt List.mem_cons.mpr plain)
    have one : kind.values v = [v] := by
      cases kind with
      | plain | named name => rfl
      | star => exact absurd rfl hkind
    rw [List.zip_cons_cons, List.flatMap_cons, ih hkinds (Nat.succ.inj length), one]
    rfl

theorem values_perm (written : List (ArgKind × Value)) :
    ((spread written).positional ++ (spread written).keywords.map Prod.snd).Perm
      (written.flatMap fun a => a.1.values a.2) := by
  rw [spread, List.map_flatMap]
  exact List.flatMap_append_perm written _ _

/-- What the arguments of a call are laid out as. Positionals and keywords keep the order of the
call; nothing is lost, and nothing is passed on twice. -/
structure LaidOut (s : Signature) (args : List Value) (laid : CallArgs) : Prop where
  positional : laid.positional = (s.kinds.zip args).flatMap fun a => a.1.positionals a.2
  keywords : laid.keywords = (s.kinds.zip args).flatMap fun a => a.1.keywords a.2
  names : laid.keywords.map Prod.fst = namesOf s.kinds
  passed : (laid.positional ++ laid.keywords.map Prod.snd).Perm (s.passed args)

theorem map_fst_keywords_spread {kinds : List ArgKind} (length : args.length = kinds.length) :
    (spread (kinds.zip args)).keywords.map Prod.fst = namesOf kinds := by
  calc (spread (kinds.zip args)).keywords.map Prod.fst
      = (kinds.zip args).flatMap (fun a => a.1.names) := by
        rw [spread, List.map_flatMap]
        simp only [ArgKind.map_fst_keywords]
    _ = ((kinds.zip args).map Prod.fst).flatMap ArgKind.names :=
        (List.flatMap_map ..).symm
    _ = namesOf kinds := by
        rw [List.map_fst_zip (Nat.le_of_eq length.symm), namesOf]

theorem starsFit_of_no_star {kinds : List ArgKind} (plain : .star ∉ kinds) :
    StarsFit (kinds.zip args) :=
  fun _ mem => absurd (List.of_mem_zip mem).1 plain

theorem starsFit_or_bad (order : InOrder s.kinds) (length : args.length = s.arity) :
    StarsFit (s.kinds.zip args) ∨ s.hasStar = true ∧
      ∃ v, args.getLast? = some v ∧ ∀ box items, v ≠ .tuple box items := by
  cases star : s.hasStar with
  | false =>
    refine Or.inl (starsFit_of_no_star fun mem => ?_)
    rw [order.star_mem_iff, star] at mem
    cases mem
  | true =>
    obtain ⟨front, vs, v, hkinds, rfl, plain, hfront⟩ := order.split star length
    by_cases tuple : ∃ box items, v = .tuple box items
    · left
      rw [hkinds, List.zip_append hfront.symm]
      intro w mem
      rcases List.mem_append.mp mem with mem | mem
      · exact absurd (List.of_mem_zip mem).1 plain
      · obtain rfl : w = v := by simpa using mem
        exact tuple
    · right
      refine ⟨rfl, v, List.getLast?_concat, ?_⟩
      rintro box items rfl
      exact tuple ⟨box, items, rfl⟩

theorem laidOut_spread (order : InOrder s.kinds) (length : args.length = s.arity)
    (fit : StarsFit (s.kinds.zip args)) : s.LaidOut args (spread (s.kinds.zip args)) := by
  refine ⟨rfl, rfl, map_fst_keywords_spread length, (values_perm _).trans (.of_eq ?_)⟩
  unfold passed
  cases star : s.hasStar with
  | false =>
    have plain : .star ∉ s.kinds := fun mem => by simp [order.star_mem_iff, star] at mem
    exact values_of_no_star plain length
  | true =>
    obtain ⟨front, vs, v, hkinds, rfl, plain, hfront⟩ := order.split star length
    rw [hkinds, List.zip_append hfront.symm] at fit ⊢
    obtain ⟨box, items, rfl⟩ := fit v (by simp)
    rw [List.flatMap_append, values_of_no_star plain hfront, List.getLast?_concat,
      List.dropLast_concat]
    simp [ArgKind.values, ArgKind.positionals, ArgKind.keywords]

/-! ## Receivers -/

theorem withReceiver_layOut (s : Signature) (n : Value → String) (receiver : Value)
    (args : List Value) : s.withReceiver.layOut n (receiver :: args) =
      (s.layOut n args).map (·.withReceiver receiver) :=
  layOutKinds_cons n .plain receiver s.kinds args nofun

theorem InOrder.withReceiver (order : InOrder s.kinds) : InOrder s.withReceiver.kinds :=
  inOrder_cons.mpr ⟨nofun, nofun, order⟩

theorem hasStar_withReceiver (s : Signature) : s.withReceiver.hasStar = s.hasStar := by
  unfold hasStar withReceiver
  cases h : s.kinds.getLast? <;> simp [List.getLast?_cons, h]

/-- A receiver in front of a signature that is in order. It stays in order, with one argument more
and a star as before. Laying out with the receiver in front is laying out and then putting the
receiver in front, complaint about a star included, and leaving the receiver out undoes that. What
is laid out are the arguments of the call in their order, with nothing lost, unless the call ends
with a star that is no tuple. -/
theorem receiver_commutes {kinds : List ArgKind} (accepted : ofKinds kinds = .ok s)
    (n : Value → String) (receiver : Value) (length : args.length = s.arity) :
    s.kinds = kinds ∧ InOrder kinds ∧
    ofKinds s.withReceiver.kinds = .ok s.withReceiver ∧
    s.withReceiver.arity = s.arity + 1 ∧
    s.withReceiver.hasStar = s.hasStar ∧
    (.star ∈ s.kinds ↔ s.hasStar = true) ∧
    (.star ∈ s.withReceiver.kinds ↔ s.withReceiver.hasStar = true) ∧
    s.withReceiver.layOut n (receiver :: args) =
      (s.layOut n args).map (·.withReceiver receiver) ∧
    (∀ laid : CallArgs, (laid.withReceiver receiver).withoutReceiver = laid) ∧
    ((∃ laid, s.layOut n args = .ok laid ∧ s.LaidOut args laid) ∨
      s.hasStar = true ∧ ∃ v, args.getLast? = some v ∧ (∀ box items, v ≠ .tuple box items) ∧
        s.layOut n args = .error (.type (.starNotIterable (n v)))) := by
  obtain ⟨order, rfl⟩ := ofKinds_eq_ok_iff.mp accepted
  refine ⟨rfl, order, ofKinds_eq_ok_iff.mpr ⟨order.withReceiver, rfl⟩, rfl,
    hasStar_withReceiver s, order.star_mem_iff, order.withReceiver.star_mem_iff,
    withReceiver_layOut s n receiver args,
    fun laid => laid.withoutReceiver_withReceiver receiver, ?_⟩
  rcases starsFit_or_bad order length with fit | ⟨star, v, last, bad⟩
  · exact Or.inl ⟨_, layOutKinds_of_fits n fit, laidOut_spread order length fit⟩
  · exact Or.inr ⟨star, v, last, bad, layOut_of_bad order star length last bad n⟩

/-- A call with a keyword and a star of two items. -/
def sampleCall : Signature := ⟨[.plain, .named "y", .star]⟩

theorem sampleCall_commutes :
    ofKinds sampleCall.kinds = .ok sampleCall ∧
      sampleCall.withReceiver.layOut (fun _ => "int")
          [.none, .int 1, .int 2, .tuple 0 [.int 3, .int 4]] =
        .ok { positional := [.none, .int 1, .int 3, .int 4], keywords := [("y", .int 2)] } ∧
      sampleCall.LaidOut [.int 1, .int 2, .tuple 0 [.int 3, .int 4]]
        { positional := [.int 1, .int 3, .int 4], keywords := [("y", .int 2)] } := by
  have accepted : ofKinds sampleCall.kinds = .ok sampleCall := by decide
  have length : [Value.int 1, .int 2, .tuple 0 [.int 3, .int 4]].length = sampleCall.arity := rfl
  obtain ⟨-, -, -, -, -, -, -, commutes, -, laid⟩ :=
    receiver_commutes accepted (fun _ => "int") .none length
  refine ⟨accepted, commutes, ?_⟩
  rcases laid with ⟨laid, done, laidOut⟩ | ⟨-, v, last, bad, -⟩
  · obtain rfl := Except.ok.inj done
    exact laidOut
  · exact absurd (Option.some.inj last).symm (bad 0 [.int 3, .int 4])

end Signature

end InlineCache
