import InlineCache.Proofs.Links
import InlineCache.Proofs.Metaclass
import InlineCache.Proofs.Numbering
import InlineCache.Proofs.Reading

/-! # Definitions are atomic

`defineInPlace` changes the heap piece by piece and undoes nothing, yet a definition that fails
leaves the heap as it was, since all that can fail comes before the first change. A definition that
succeeds adds one type that nothing led to before, and of the types there were only its bases
change, by the link down to it. -/

namespace InlineCache.Heap

/-! ## Piece by piece -/

/-- A computation that changes the heap. What it did before an error stays done. -/
abbrev Edit := EStateM RuntimeError Heap

def takeId : Edit TypeId := modifyGet fun h =>
  let (id, registry) := h.registry.allocate
  (id, { h with registry })

def takeVersion : Edit Version :=
  modifyGet fun h => (versionTag h.versions, { h with versions := h.versions + 1 })

/-- Makes a type that nothing leads to yet. -/
def pushType (r : TypeRecord) : Edit TypeRef :=
  modifyGet fun h => (⟨h.types.size⟩, { h with types := h.types.push r })

def linkBelow (t b : TypeRef) : Edit Unit :=
  modify fun h => h.modifyType b fun p => { p with subtypes := p.subtypes ++ [t] }

def enter (id : TypeId) (t : TypeRef) : Edit Unit :=
  modify fun h => { h with registry := h.registry.register id t }

/-- Defines a type piece by piece. -/
def defineInPlace (c : ClassSpec) : Edit TypeRef := do
  let ancestors ← ofExcept ((← get).linearize c.parents)
  let metaclass ← ofExcept ((← get).resolveMetaclass c.metaclass c.parents)
  let layout := c.layout.getD ((← get).typeAt (c.parents.headD .object)).layout
  let mixed := (← get).mixes c.classic ancestors
  let id ← takeId
  let version ← takeVersion
  let t ← pushType
    { id, name := c.name, bases := c.parents, ancestors, layout
      flags := { system := c.system, classic := c.classic, mixed }
      metaclass, attrs := Table.ofList c.attrs, version, subtypes := [] }
  c.parents.forM (linkBelow t)
  enter id t
  return t

theorem forM_linkBelow (t : TypeRef) (bases : List TypeRef) (h : Heap) :
    bases.forM (linkBelow t) h = .ok ⟨⟩ (bases.foldl
      (fun h b => h.modifyType b fun p => { p with subtypes := p.subtypes ++ [t] }) h) := by
  induction bases generalizing h with
  | nil => rfl
  | cons b rest ih => exact ih _

theorem define_of_linearize_error {h : Heap} {c : ClassSpec} {e : RuntimeError}
    (line : h.linearize c.parents = .error e) : h.define c = .error e := by
  unfold define
  change (h.linearize c.parents >>= _) = _
  rw [line]
  rfl

/-- What `defineInPlace` does is what `define` works out. -/
theorem defineInPlace_eq (c : ClassSpec) (h : Heap) :
    defineInPlace c h = match h.define c with
      | .ok (t, h') => .ok t h'
      | .error e => .error e h := by
  cases line : h.linearize c.parents with
  -- The two steps that can fail come first.
  | error e =>
    rw [define_of_linearize_error line]
    change EStateM.bind (ofExcept (h.linearize c.parents)) _ h = _
    rw [line]
    rfl
  | ok ancestors =>
    rw [define_of_linearize line]
    change EStateM.bind (ofExcept (h.linearize c.parents)) _ h = _
    rw [line]
    change EStateM.bind (ofExcept (h.resolveMetaclass c.metaclass c.parents)) _ h = _
    cases h.resolveMetaclass c.metaclass c.parents with
    | error e => rfl
    | ok metaclass =>
      change EStateM.bind (c.parents.forM (linkBelow ⟨h.types.size⟩)) _ _ = _
      unfold EStateM.bind
      rw [forM_linkBelow]
      rfl

/-! ## What stops a definition -/

def DefinitionFault (e : RuntimeError) : Prop :=
  (∃ name, e = .duplicateBase name) ∨ (∃ names, e = .inconsistentBases names) ∨
    e = .metaclassConflict

theorem fault_of_linearize {h : Heap} {bases : List TypeRef} {e : RuntimeError}
    (line : h.linearize bases = .error e) : DefinitionFault e := by
  unfold linearize at line
  split at line
  · exact nomatch line
  · exact Or.inl ⟨_, (Except.error.inj line).symm⟩
  · exact Or.inr (Or.inl ⟨_, (Except.error.inj line).symm⟩)

theorem Linearized.fault_of_define {h : Heap} (hl : h.Linearized) {c : ClassSpec}
    {e : RuntimeError} (failed : h.define c = .error e) : DefinitionFault e := by
  cases line : h.linearize c.parents with
  | error e' =>
    rw [define_of_linearize_error line, Except.error.injEq] at failed
    exact failed ▸ fault_of_linearize line
  | ok ancestors =>
    rw [define_of_linearize line] at failed
    obtain ⟨-, r, hr, -⟩ | ⟨-, hr⟩ := hl.resolveMetaclass_spec c.metaclass c.parents
    · rw [hr] at failed
      exact nomatch failed
    · rw [hr] at failed
      exact Or.inr (Or.inr (Except.error.inj failed).symm)

/-! ## What a definition adds -/

theorem addType_eq (h : Heap) (r : TypeRecord) :
    (h.addType r).2 = { h with
      types := (h.addType r).2.types
      registry := h.registry.register r.id ⟨h.types.size⟩ } :=
  have link := linked_foldl ⟨h.types.size⟩ r.bases { h with types := h.types.push r }
  congrArg (fun g : Heap => { g with registry := g.registry.register r.id ⟨h.types.size⟩ })
    link.rest

section

variable {h h' : Heap} {c : ClassSpec} {t : TypeRef} (done : h.define c = .ok (t, h'))

include done

theorem id_define : (h'.typeAt t).id = h.registry.nextId := by
  obtain ⟨-, ancestors, metaclass, subtypes, -, -, hat⟩ := typeAt_define done
  rw [hat]
  rfl

theorem define_eq : h' = { h with
    types := h'.types
    versions := h.versions + 1
    registry := h.registry.allocate.2.register h.registry.nextId t } := by
  obtain ⟨ancestors, metaclass, -, -, hadd⟩ := define_eq_ok_iff.mp done
  obtain ⟨rfl, rfl⟩ := Prod.mk.inj hadd
  exact addType_eq _ _

theorem get?_define (id : TypeId) : h'.registry.get? id =
    if h.registry.nextId = id then some t else h.registry.get? id := by
  rw [congrArg Heap.registry (define_eq done)]
  exact Table.get?_insert _ _ _ _

end

/-- The second heap is the first with the new type `t`, defined by the class. -/
structure Adds (h : Heap) (c : ClassSpec) (t : TypeRef) (h' : Heap) : Prop where
  new : ¬ h.Has t
  has : ∀ u, h'.Has u ↔ h.Has u ∨ u = t
  found : h'.registry.get? (h'.typeAt t).id = some t
  others : ∀ id, id ≠ (h'.typeAt t).id → h'.registry.get? id = h.registry.get? id
  drawn : h'.registry.drawn = h.registry.drawn + 1
  /-- A later entry wins over an earlier one of the same name. -/
  attrs : ∀ name,
    h'.ownAttr t name = ((c.attrs.filter fun e => e.1 = name).getLast?).map Prod.snd
  /-- Only bases change, and only by one link. -/
  old : ∀ u, h.Has u → h'.typeAt u = { h.typeAt u with
    subtypes := (h.typeAt u).subtypes ++ if u ∈ c.parents then [t] else [] }
  lookup : ∀ u, h.Has u → ∀ name, h'.lookup u name = h.lookup u name
  rest : h' = { h with
    types := h'.types
    versions := h.versions + 1
    registry := h'.registry }

theorem Hierarchy.adds {h h' : Heap} (hh : h.Hierarchy) {c : ClassSpec} {t : TypeRef}
    (bases : ∀ b ∈ c.bases, h.Has b) (layout : ∀ l ∈ c.layout, l.index < h.layouts.size)
    (done : h.define c = .ok (t, h')) : Adds h c t h' := by
  have d := define_defined hh bases layout done
  have hid := id_define done
  have hget := get?_define done
  have rest := define_eq done
  obtain ⟨rfl, ancestors, metaclass, subtypes, -, -, hat⟩ := typeAt_define done
  have old : ∀ u, h.Has u → h'.typeAt u = { h.typeAt u with
      subtypes := (h.typeAt u).subtypes ++
        if u ∈ c.parents then [⟨h.types.size⟩] else [] } := by
    intro u hu
    obtain ⟨links, heq⟩ := d.old u hu
    have hlinks := subtypes_define hh bases done u
    rw [heq] at hlinks ⊢
    exact congrArg (fun subtypes => { h.typeAt u with subtypes }) hlinks
  refine ⟨lt_irrefl _, d.has_iff, ?_, ?_, drawn_define done, ?_, old, ?_, ?_⟩
  · rw [hget, hid, if_pos rfl]
  · intro id hne
    rw [hget, if_neg (hid ▸ hne.symm)]
  · intro name
    rw [ownAttr, hat]
    exact Table.get?_ofList _ _
  · intro u hu
    refine lookup_congr (d.line hu) fun x hx => ?_
    rw [old x (hh.has_of_mem_line hu hx)]
  · rw [rest]

/-! ## Nothing led to it before -/

/-- Whatever the registry leads to is a type with that number. -/
def Registered (h : Heap) : Prop :=
  ∀ id t, h.registry.get? id = some t → h.Has t ∧ (h.typeAt t).id = id

theorem registered_initial (functions : Array FunctionRecord) :
    Registered { initial with functions } := by
  intro id t found
  change (Table.insert ∅ TypeId.object TypeRef.object).get? id = some t at found
  rw [Table.get?_insert] at found
  split at found
  · rename_i hid
    rw [← Option.some.inj found, ← hid]
    exact ⟨Nat.zero_lt_one, rfl⟩
  · exact nomatch found

theorem Registered.change {h h' : Heap} (registered : h.Registered) (hh : h.Hierarchy)
    (change : h.Change h') (registers : Registers h h') : h'.Registered := by
  have g := change.grows hh
  have kept : ∀ id t, h.registry.get? id = some t → h'.Has t ∧ (h'.typeAt t).id = id := by
    intro id t found
    obtain ⟨ht, hid⟩ := registered id t found
    exact ⟨g.has ht, by rw [g.id ht, hid]⟩
  intro id t found
  rcases registers with same | ⟨c, u, done⟩
  · exact kept id t (same ▸ found)
  · rw [get?_define done] at found
    split at found
    · rename_i heq
      obtain rfl := Option.some.inj found
      exact ⟨has_of_define done, (id_define done).trans heq⟩
    · exact kept id t found

theorem Numbered.ne_nextId {h : Heap} (hn : h.Numbered)
    (room : Registry.firstAdded + h.registry.drawn < 2 ^ 32) {u : TypeRef} (hu : h.Has u) :
    (h.typeAt u).id ≠ h.registry.nextId := by
  have room : h.registry.drawn + 256 < 2 ^ 32 := by
    rw [Registry.firstAdded] at room
    omega
  obtain ⟨i⟩ := u
  have hlt : i < h.types.size := hu
  have hdrawn := hn.drawn
  intro heq
  have hnat := congrArg (·.raw.toNat) heq
  have hnext : h.registry.nextId.raw.toNat = h.registry.drawn + 256 := toNat_added room
  have hzero : (h.typeAt ⟨0⟩).id.raw.toNat = 0 := congrArg (·.raw.toNat) hn.object
  cases i with
  | zero => simp only [hzero, hnext] at hnat; omega
  | succ i =>
    simp only [hn.added i hu, toNat_added (show i + 256 < 2 ^ 32 by omega), hnext] at hnat
    omega

theorem Registered.get?_nextId {h : Heap} (registered : h.Registered) (hn : h.Numbered)
    (room : Registry.firstAdded + h.registry.drawn < 2 ^ 32) :
    h.registry.get? h.registry.nextId = none := by
  refine Option.eq_none_iff_forall_ne_some.mpr fun u found => ?_
  obtain ⟨hu, hid⟩ := registered _ u found
  exact hn.ne_nextId room hu hid

theorem WellFormed.version_lt_define {h h' : Heap} (hw : h.WellFormed) {c : ClassSpec}
    {t : TypeRef} (done : h.define c = .ok (t, h')) (fits : h.versions + 1 < 2 ^ 64) {u : TypeRef}
    (hu : h.Has u) : (h.typeAt u).version < (h'.typeAt t).version := by
  obtain ⟨-, ancestors, metaclass, subtypes, -, -, hat⟩ := typeAt_define done
  rw [hat, UInt64.lt_iff_toNat_lt]
  change _ < (versionTag h.versions).toNat
  rw [toNat_versionTag fits]
  exact Nat.lt_succ_of_le (hw.version_le u hu)

/-! ## Main theorem -/

namespace Timeline

variable {h : Nat → Heap}

section

variable (run : Timeline h) (registers : ∀ n, Registers (h n) (h (n + 1)))

include run registers

theorem registered : ∀ n, (h n).Registered :=
  run.invariant registered_initial fun n before =>
    before.change (run.hierarchy n) (run.step n) (registers n)

/-- At every moment of a run, a definition either fails and leaves the heap as it was, or it adds
one type, which is linked below its bases, and changes nothing else. As long as they have not run
out, the number of the type is new and its version is ahead of all others. -/
theorem definition_atomic (n : Nat) (c : ClassSpec) (bases : ∀ b ∈ c.bases, (h n).Has b)
    (layout : ∀ l ∈ c.layout, l.index < (h n).layouts.size) :
    (∃ e, defineInPlace c (h n) = .error e (h n) ∧ (h n).define c = .error e ∧
      DefinitionFault e) ∨
    ∃ t h', defineInPlace c (h n) = .ok t h' ∧ (h n).define c = .ok (t, h') ∧
      Adds (h n) c t h' ∧
      (Registry.firstAdded + (h n).registry.drawn < 2 ^ 32 →
        (∀ u, (h n).Has u → ((h n).typeAt u).id ≠ (h'.typeAt t).id) ∧
          (h n).registry.get? (h'.typeAt t).id = none) ∧
      ((h n).versions + 1 < 2 ^ 64 →
        ∀ u, (h n).Has u → ((h n).typeAt u).version < (h'.typeAt t).version) := by
  have inPlace := defineInPlace_eq c (h n)
  cases done : (h n).define c with
  | error e =>
    rw [done] at inPlace
    exact Or.inl ⟨e, inPlace, rfl, (run.linearized n).fault_of_define done⟩
  | ok added =>
    obtain ⟨t, h'⟩ := added
    rw [done] at inPlace
    refine Or.inr ⟨t, h', inPlace, rfl, (run.hierarchy n).adds bases layout done, ?_, ?_⟩
    · intro room
      have numbered := run.numbered registers n
      rw [id_define done]
      exact ⟨fun u => numbered.ne_nextId room,
        (run.registered registers n).get?_nextId numbered room⟩
    · intro fits u
      exact (run.wellFormed n (by omega)).version_lt_define done fits

end

theorem diamond_registers (n : Nat) : Registers (diamond n) (diamond (n + 1)) := by
  rcases n with _ | _ | _ | _ | _ | _ | n
  all_goals first | exact registers_tryDefine _ _ | exact Or.inl rfl

/-- Type 1 is in the line of type 2, so it cannot stand in front of it. -/
def reversed : ClassSpec := { name := "E", bases := [⟨1⟩, ⟨2⟩] }

/-- Its attribute is given twice. -/
def twice : ClassSpec := { name := "G", bases := [⟨4⟩], attrs := [("x", .int 1), ("x", .int 2)] }

theorem diamond_atomic :
    (∃ e, defineInPlace reversed (diamond 4) = .error e (diamond 4)) ∧
    ∃ t h', defineInPlace twice (diamond 4) = .ok t h' ∧ h'.ownAttr t "x" = some (.int 2) ∧
      h'.registry.get? (h'.typeAt t).id = some t ∧
      ((diamond 4).typeAt ⟨4⟩).id ≠ (h'.typeAt t).id ∧
      ((diamond 4).typeAt ⟨4⟩).version < (h'.typeAt t).version ∧
      h'.lookup ⟨4⟩ "x" = (diamond 4).lookup ⟨4⟩ "x" := by
  have has : (diamond 4).Has ⟨4⟩ := by decide +kernel
  constructor
  · rcases definition_atomic diamond_timeline diamond_registers 4 reversed (by decide +kernel)
      (by simp [reversed]) with ⟨e, left, -⟩ | ⟨t, h', -, done, -⟩
    · exact ⟨e, left⟩
    · have failed : ((diamond 4).define reversed).isOk = false := by decide +kernel
      rw [done] at failed
      exact nomatch failed
  · rcases definition_atomic diamond_timeline diamond_registers 4 twice (by decide +kernel)
      (by simp [twice]) with ⟨e, -, failed, -⟩ | ⟨t, h', built, -, adds, fresh, ahead⟩
    · have done : ((diamond 4).define twice).isOk = true := by decide +kernel
      rw [failed] at done
      exact nomatch done
    · refine ⟨t, h', built, ?_, adds.found, ?_, ?_, adds.lookup _ has _⟩
      · rw [adds.attrs]
        decide
      · exact (fresh (by decide +kernel)).1 _ has
      · exact ahead (by decide +kernel) _ has

end Timeline

end InlineCache.Heap
