import InlineCache.Proofs.PlanBinding

/-! # What the slots of a body tell about its arguments

Parameters have no defaults, so a function that binds two lists of arguments to the same slots got
as many of them both times, and the same one in front. -/

namespace InlineCache.FunctionRecord

variable {f : FunctionRecord} {slots slots' : List (Option Value)}

/-! ## Keywords -/

theorem fillKeyword_spec {k : String × Value} (h : f.fillKeyword slots k = .ok slots')
    (hlen : slots.length = f.params.length) :
    ∃ i, slots[i]? = some none ∧ slots' = slots.set i (some k.2) := by
  unfold fillKeyword at h
  cases hi : f.paramIndex? k.1 with
  | none => simp [hi] at h
  | some i =>
    simp only [hi] at h
    have hlt : i < slots.length := hlen ▸ Plan.paramIndex?_lt hi
    refine ⟨i, ?_⟩
    rw [List.getElem?_eq_getElem hlt] at h ⊢
    cases hfree : slots[i] with
    | none => simpa [hfree, eq_comm] using h
    | some v => simp [hfree] at h

theorem fillKeywords_spec {keywords : List (String × Value)}
    (h : keywords.foldlM f.fillKeyword slots = .ok slots')
    (hlen : slots.length = f.params.length) :
    slots'.length = slots.length ∧
      slots'.countP Option.isSome = slots.countP Option.isSome + keywords.length ∧
      ∀ (i : Nat) (v : Value), slots[i]? = some (some v) → slots'[i]? = some (some v) := by
  induction keywords generalizing slots with
  | nil =>
    cases h
    exact ⟨rfl, rfl, fun _ _ hv => hv⟩
  | cons k rest ih =>
    rw [List.foldlM_cons] at h
    cases hk : f.fillKeyword slots k with
    | error fault =>
      rw [hk] at h
      exact absurd h (by rintro ⟨⟩)
    | ok next =>
      rw [hk] at h
      obtain ⟨i, hfree, rfl⟩ := fillKeyword_spec hk hlen
      obtain ⟨hi, hnone⟩ := List.getElem?_eq_some_iff.mp hfree
      obtain ⟨hlength, hcount, hkept⟩ := ih h (by rwa [List.length_set])
      rw [List.length_set] at hlength
      rw [List.countP_set hi, hnone] at hcount
      refine ⟨hlength, by simp at hcount ⊢; omega, ?_⟩
      intro j v hv
      have hne : i ≠ j := by
        rintro rfl
        simp [hfree] at hv
      exact hkept j v (by rwa [List.getElem?_set_ne hne])

/-! ## Positionals -/

theorem countP_positionalSlots (f : FunctionRecord) (positional : List Value) :
    (f.positionalSlots positional).countP Option.isSome =
      min f.params.length positional.length := by
  unfold positionalSlots
  induction f.params.length with
  | zero => simp
  | succ n ih =>
    rw [List.range_succ, List.map_append, List.countP_append, ih]
    by_cases hn : n < positional.length
    · simp [hn]
      omega
    · simp [hn]
      omega

theorem isSome_of_missing (hlen : slots.length = f.params.length) (h : f.missing slots = []) :
    ∀ x ∈ slots, x.isSome = true := by
  intro x hx
  obtain ⟨i, hi, rfl⟩ := List.getElem_of_mem hx
  unfold missing at h
  rw [List.map_eq_nil_iff, List.filter_eq_nil_iff] at h
  have hmem : (f.params[i], slots[i]) ∈ f.params.zip slots := by
    have hzip : i < (f.params.zip slots).length := by simp; omega
    rw [← List.getElem_zip (h := hzip)]
    exact List.getElem_mem hzip
  simpa [Option.isSome_iff_ne_none] using h _ hmem

/-! ## All arguments -/

theorem fillSlots_eq_ok {args : CallArgs} {values : List Value}
    (h : f.fillSlots args = .ok values) :
    (f.variadic = false → args.positional.length ≤ f.params.length) ∧
      ∃ slots, args.keywords.foldlM f.fillKeyword (f.positionalSlots args.positional) = .ok slots ∧
        f.missing slots = [] ∧ values = slots.filterMap id := by
  unfold fillSlots at h
  split at h
  · exact absurd h (by rintro ⟨⟩)
  · rename_i hfew
    refine ⟨fun hfixed => by simpa [hfixed] using hfew, ?_⟩
    cases hfold : args.keywords.foldlM f.fillKeyword (f.positionalSlots args.positional) with
    | error fault =>
      simp only [hfold] at h
      exact absurd h (by rintro ⟨⟩)
    | ok slots =>
      simp only [hfold, Bind.bind, Except.bind] at h
      cases hmissing : f.missing slots with
      | nil =>
        rw [hmissing] at h
        cases h
        exact ⟨slots, rfl, hmissing, rfl⟩
      | cons name names =>
        rw [hmissing] at h
        exact absurd h (by rintro ⟨⟩)

theorem head?_filterMap {v : Value} (hv : slots[0]? = some (some v)) :
    (slots.filterMap id).head? = some v := by
  cases slots with
  | nil => simp at hv
  | cons x rest => simp_all

theorem fillSlots_spec {args : CallArgs} {values : List Value}
    (h : f.fillSlots args = .ok values) :
    min f.params.length args.positional.length + args.keywords.length = f.params.length ∧
      values.length = f.params.length ∧
      (0 < f.params.length → ∀ v, args.positional.head? = some v → values.head? = some v) := by
  obtain ⟨-, slots, hfold, hmissing, rfl⟩ := fillSlots_eq_ok h
  have hstart : (f.positionalSlots args.positional).length = f.params.length := by
    simp [positionalSlots]
  obtain ⟨hlength, hcount, hkept⟩ := fillKeywords_spec hfold hstart
  rw [hstart] at hlength
  have hall : slots.countP Option.isSome = slots.length :=
    List.countP_eq_length.mpr (isSome_of_missing hlength hmissing)
  have hvalues : (slots.filterMap id).length = slots.length := by
    rw [List.length_filterMap_eq_countP]
    exact hall
  rw [countP_positionalSlots] at hcount
  refine ⟨by omega, hvalues.trans hlength, ?_⟩
  intro hpos v hv
  apply head?_filterMap
  apply hkept
  rw [List.head?_eq_getElem?] at hv
  simp [positionalSlots, hpos, hv]

theorem bind_eq_ok {args : CallArgs} {box : Nat} {out : List Value}
    (h : f.bind args box = .ok out) : ∃ values, f.fillSlots args = .ok values ∧
      out = values ++ if f.variadic then
        [.tuple box (args.positional.drop f.params.length)] else [] := by
  unfold bind at h
  cases hfill : f.fillSlots args with
  | error fault => simp [hfill] at h
  | ok values =>
    refine ⟨values, rfl, ?_⟩
    simp only [hfill] at h
    split at h <;> cases h <;> simp_all

section

variable {args args' : CallArgs} {box box' : Nat} {out : List Value}

theorem size_of_bind (h : f.bind args box = .ok out) (h' : f.bind args' box' = .ok out) :
    args.size = args'.size := by
  obtain ⟨values, hfill, rfl⟩ := bind_eq_ok h
  obtain ⟨values', hfill', hout⟩ := bind_eq_ok h'
  obtain ⟨hcount, hlength, -⟩ := fillSlots_spec hfill
  obtain ⟨hcount', hlength', -⟩ := fillSlots_spec hfill'
  have hfew := (fillSlots_eq_ok hfill).1
  have hfew' := (fillSlots_eq_ok hfill').1
  unfold CallArgs.size
  cases hvariadic : f.variadic with
  | false =>
    have := hfew hvariadic
    have := hfew' hvariadic
    omega
  | true =>
    rw [hvariadic] at hout
    obtain ⟨-, htuple⟩ := List.append_inj hout (hlength.trans hlength'.symm)
    simp only [if_true, List.cons.injEq, Value.tuple.injEq, and_true] at htuple
    have hdrop := congrArg List.length htuple.2
    rw [List.length_drop, List.length_drop] at hdrop
    omega

theorem head_of_bind {v v' : Value} (h : f.bind (args.withReceiver v) box = .ok out)
    (h' : f.bind (args'.withReceiver v') box' = .ok out) : v = v' := by
  obtain ⟨values, hfill, rfl⟩ := bind_eq_ok h
  obtain ⟨values', hfill', hout⟩ := bind_eq_ok h'
  obtain ⟨-, hlength, hhead⟩ := fillSlots_spec hfill
  obtain ⟨-, hlength', hhead'⟩ := fillSlots_spec hfill'
  obtain ⟨hvalues, htuple⟩ := List.append_inj hout (hlength.trans hlength'.symm)
  by_cases hparams : 0 < f.params.length
  · have hv := hhead hparams v rfl
    have hv' := hhead' hparams v' rfl
    rw [hvalues, hv'] at hv
    exact (Option.some.inj hv).symm
  · have hnone : f.params.length = 0 := Nat.eq_zero_of_not_pos hparams
    cases hvariadic : f.variadic with
    | false =>
      have hfew := (fillSlots_eq_ok hfill).1 hvariadic
      simp [CallArgs.withReceiver, hnone] at hfew
    | true =>
      simp [hvariadic, hnone, CallArgs.withReceiver] at htuple
      exact htuple.2.1

end

end InlineCache.FunctionRecord
