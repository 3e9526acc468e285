import InlineCache.Proofs.Definition

/-! # Types are told apart by their numbers

A definition takes the next number of the registry. As long as numbers have not run out, no two
types share one. -/

namespace InlineCache.Heap

variable {h h' : Heap} {t u : TypeRef}

theorem Grows.id (g : Grows h h') (ht : h.Has t) : (h'.typeAt t).id = (h.typeAt t).id := by
  obtain ⟨_, _, _, heq⟩ := g.type t ht
  rw [heq]

theorem Grows.layoutOf (g : Grows h h') (hh : h.Hierarchy) (ht : h.Has t) :
    h'.layoutOf t = h.layoutOf t := by
  obtain ⟨_, _, _, heq⟩ := g.type t ht
  rw [Heap.layoutOf, Heap.layoutOf, heq, g.layoutAt _ (hh.layout t ht)]

/-- One number was handed out for each type but `object`, in order. -/
structure Numbered (h : Heap) : Prop where
  drawn : h.registry.drawn + 1 = h.types.size
  object : (h.typeAt .object).id = .object
  added : ∀ n, h.Has ⟨n + 1⟩ →
    (h.typeAt ⟨n + 1⟩).id = ⟨UInt32.ofNat (Registry.firstAdded + n)⟩

theorem numbered_initial (functions : Array FunctionRecord) :
    Numbered { initial with functions } := by
  refine ⟨rfl, rfl, fun n hn => ?_⟩
  have : n + 1 < 1 := hn
  omega

/-- The registry changes by definitions only. -/
def Registers (h h' : Heap) : Prop := h'.registry = h.registry ∨ ∃ c t, h.define c = .ok (t, h')

theorem registers_tryDefine (h : Heap) (c : ClassSpec) : Registers h (h.tryDefine c) := by
  unfold tryDefine
  split
  next t h' done => exact Or.inr ⟨c, t, done⟩
  next => exact Or.inl rfl

theorem registers_setAttr (h : Heap) (t : TypeRef) (name : String) (v : Value) :
    Registers h (h.setAttr t name v) := by
  have drawn : Draws (h.editAttrs t (·.insert name v)) (h.setAttr t name v) := draws_refresh _ _ t
  left
  rw [drawn.same.rest]
  rfl

theorem drawn_define {c : ClassSpec} (done : h.define c = .ok (t, h')) :
    h'.registry.drawn = h.registry.drawn + 1 := by
  obtain ⟨ancestors, metaclass, -, -, hadd⟩ := define_eq_ok_iff.mp done
  obtain rfl := congrArg Prod.snd hadd
  unfold addType
  dsimp only [Registry.register]
  rw [(linked_foldl _ _ _).rest]
  rfl

theorem Change.size_of_registry (change : h.Change h') (hh : h.Hierarchy)
    (same : h'.registry = h.registry) : h'.types.size = h.types.size := by
  by_contra hne
  have hlt : h.types.size < h'.types.size := lt_of_le_of_ne (change.grows hh).types (Ne.symm hne)
  rcases change.has (t := ⟨h.types.size⟩) hlt with hold | ⟨c, -, done⟩
  · exact absurd hold (lt_irrefl _)
  · have := drawn_define done
    rw [same] at this
    omega

theorem Numbered.change (hn : Numbered h) (hh : h.Hierarchy) (change : h.Change h')
    (registers : Registers h h') : Numbered h' := by
  have g := change.grows hh
  have object : (h'.typeAt .object).id = .object := (g.id hh.root).trans hn.object
  rcases registers with same | ⟨c, t, done⟩
  · have hsize := change.size_of_registry hh same
    refine ⟨by rw [same, hsize, hn.drawn], object, fun n hhas => ?_⟩
    have hold : h.Has ⟨n + 1⟩ := by rwa [Has, ← hsize]
    rw [g.id hold, hn.added n hold]
  · have hdrawn := hn.drawn
    have hsize := size_define done
    refine ⟨by rw [drawn_define done, hsize, hn.drawn], object, fun n hhas => ?_⟩
    by_cases hold : h.Has ⟨n + 1⟩
    · rw [g.id hold, hn.added n hold]
    · -- The new type has the number that the registry would hand out next.
      obtain ⟨rfl, ancestors, metaclass, subtypes, -, -, hat⟩ := typeAt_define done
      obtain rfl : n = h.registry.drawn := by
        unfold Has at hhas hold
        simp only at hhas hold
        omega
      rw [← hdrawn] at hat
      rw [hat]
      rfl

theorem toNat_added {n : Nat} (hn : n + 256 < 2 ^ 32) :
    (UInt32.ofNat (Registry.firstAdded + n)).toNat = n + 256 := by
  rw [UInt32.toNat_ofNat', Registry.firstAdded]
  omega

def DistinctIds (h : Heap) : Prop :=
  ∀ t u, h.Has t → h.Has u → (h.typeAt t).id = (h.typeAt u).id → t = u

theorem Numbered.distinctIds (hn : Numbered h) (room : h.types.size + 255 ≤ 2 ^ 32) :
    h.DistinctIds := by
  intro t u ht hu heq
  obtain ⟨i⟩ := t
  obtain ⟨j⟩ := u
  have hi : i < h.types.size := ht
  have hj : j < h.types.size := hu
  have hzero : (h.typeAt ⟨0⟩).id.raw.toNat = 0 := congrArg (·.raw.toNat) hn.object
  have hnat := congrArg (·.raw.toNat) heq
  rcases i with _ | i <;> rcases j with _ | j
  · rfl
  · simp only [hzero, hn.added j hu, toNat_added (show j + 256 < 2 ^ 32 by omega)] at hnat
    omega
  · simp only [hzero, hn.added i ht, toNat_added (show i + 256 < 2 ^ 32 by omega)] at hnat
    omega
  · simp only [hn.added i ht, hn.added j hu, toNat_added (show i + 256 < 2 ^ 32 by omega),
      toNat_added (show j + 256 < 2 ^ 32 by omega)] at hnat
    simp only [TypeRef.mk.injEq]
    omega

theorem Numbered.id_eq_object_iff (hn : Numbered h) (room : h.types.size + 255 ≤ 2 ^ 32)
    (hu : h.Has u) : (h.typeAt u).id = .object ↔ u = .object := by
  have root : h.Has .object := by
    have hdrawn := hn.drawn
    change 0 < h.types.size
    omega
  refine ⟨fun heq => hn.distinctIds room u .object hu root (heq.trans hn.object.symm), ?_⟩
  rintro rfl
  exact hn.object

theorem Timeline.numbered {h : Nat → Heap} (run : Timeline h)
    (registers : ∀ n, Registers (h n) (h (n + 1))) : ∀ n, (h n).Numbered :=
  run.invariant numbered_initial fun n before =>
    before.change (run.hierarchy n) (run.step n) (registers n)

end InlineCache.Heap
