import InlineCache.Proofs.Ancestry
import InlineCache.Proofs.ArityCap
import InlineCache.Proofs.Numbering

/-! # Where classic and modern types meet

A definition looks once whether both kinds stand in the new line, and the mark that it leaves is not
touched again. Yet the mark is right at all times: it tells whether both kinds can be reached from
the type, and every type that derives from a marked one is marked too. What does not count is told
by its number, so this holds as long as numbers have not run out. -/

namespace InlineCache.Heap

open Relation

/-- A type of this kind, `object` apart, is the type itself or one that it derives from. -/
def ReachesKind (h : Heap) (t : TypeRef) (classic : Bool) : Prop :=
  ∃ u, ReflTransGen h.Derives t u ∧ u ≠ .object ∧ (h.typeAt u).flags.classic = classic

/-- The mark of every type tells whether both kinds stand in its line. -/
def Marked (h : Heap) : Prop :=
  ∀ t, h.Has t → ((h.typeAt t).flags.mixed = true ↔
    ∀ classic, ∃ u ∈ h.line t, u ≠ .object ∧ (h.typeAt u).flags.classic = classic)

theorem mixes_iff {h : Heap} {classic : Bool} {ancestors : List TypeRef} :
    h.mixes classic ancestors = true ↔ ∀ kind, classic = kind ∨
      ∃ u ∈ ancestors, (h.typeAt u).id ≠ .object ∧ (h.typeAt u).flags.classic = kind := by
  simp only [mixes, Bool.and_eq_true, List.contains_iff_mem, List.mem_cons, List.mem_map,
    List.mem_filter, decide_eq_true_eq, Bool.forall_bool, and_assoc]
  rw [and_comm, eq_comm, eq_comm (a := true)]

/-! ## In every heap of a run -/

theorem marked_initial (functions : Array FunctionRecord) : Marked { initial with functions } := by
  intro t ht
  obtain rfl := eq_object_of_has_initial functions t ht
  refine ⟨fun marked => (nomatch marked), fun both => ?_⟩
  obtain ⟨u, hu, hne, -⟩ := both true
  exact absurd (List.mem_singleton.mp hu) hne

theorem Grows.flags {h h' : Heap} (g : Grows h h') {t : TypeRef} (ht : h.Has t) :
    (h'.typeAt t).flags = (h.typeAt t).flags := by
  obtain ⟨_, _, _, heq⟩ := g.type t ht
  rw [heq]

theorem Change.marked {h h' : Heap} (change : h.Change h') (hl : h.Linearized)
    (hn : h.Numbered) (room : h.types.size + 255 ≤ 2 ^ 32) (marked : h.Marked) : h'.Marked := by
  have g := change.grows hl.toHierarchy
  intro t ht
  rcases change.has ht with hold | ⟨c, -, done⟩
  · have hline : h'.line t = h.line t := by rw [line, line, g.ancestors hold]
    rw [g.flags hold, marked t hold, hline]
    refine forall_congr' fun kind => exists_congr fun u => and_congr_right fun hu => ?_
    rw [g.flags (hl.toHierarchy.has_of_mem_line hold hu)]
  · have lower : ∀ u ∈ (h'.typeAt t).ancestors, h.Has u := by
      intro u hu
      have hlt := (change.linearized hl).lt_of_mem ht hu
      rwa [(typeAt_define done).1] at hlt
    have hne : t ≠ .object := by
      rintro rfl
      have := (typeAt_define done).1.symm ▸ hl.root
      exact lt_irrefl _ this
    obtain ⟨-, ancestors, metaclass, subtypes, -, -, hat⟩ := typeAt_define done
    have hclassic : (h'.typeAt t).flags.classic = c.classic := by rw [hat]; rfl
    have hmixed : (h'.typeAt t).flags.mixed = h.mixes c.classic (h'.typeAt t).ancestors := by
      rw [hat]
      rfl
    rw [hmixed, mixes_iff]
    refine forall_congr' fun kind => ?_
    rw [line, List.exists_mem_cons_iff, hclassic, and_iff_right hne]
    refine or_congr Iff.rfl (exists_congr fun u => and_congr_right fun hu => ?_)
    rw [g.flags (lower u hu), ne_eq, hn.id_eq_object_iff room (lower u hu)]

theorem Timeline.marked {h : Nat → Heap} (run : Timeline h)
    (registers : ∀ n, Registers (h n) (h (n + 1))) :
    ∀ n, (h n).types.size + 255 ≤ 2 ^ 32 → (h n).Marked := by
  refine run.invariant (P := fun g => g.types.size + 255 ≤ 2 ^ 32 → g.Marked)
    (fun functions _ => marked_initial functions) fun n ih room => ?_
  have before : (h n).types.size + 255 ≤ 2 ^ 32 :=
    (Nat.add_le_add_right (run.grows n.le_succ).types 255).trans room
  exact (run.step n).marked (run.linearized n) (run.numbered registers n) before (ih before)

/-! ## What the mark says -/

section

variable {h : Heap} (hl : h.Linearized) (marked : h.Marked)

include hl marked

theorem Marked.mixed_iff {t : TypeRef} (ht : h.Has t) :
    (h.typeAt t).flags.mixed = true ↔ h.ReachesKind t true ∧ h.ReachesKind t false := by
  rw [marked t ht, Bool.forall_bool, and_comm]
  simp only [ReachesKind, ← hl.isSubtype_iff_reaches, isSubtype_iff]

theorem Marked.mixed_of_isSubtype {t u : TypeRef} (sub : h.isSubtype u t = true)
    (mixed : (h.typeAt t).flags.mixed = true) : (h.typeAt u).flags.mixed = true := by
  have reach := hl.isSubtype_iff_reaches.mp sub
  -- What is no type bears no mark, and nothing but itself derives from it.
  have ht : h.Has t := by
    by_contra hnot
    rw [typeAt_of_not_has hnot] at mixed
    exact nomatch mixed
  have hu : h.Has u := by
    rcases reach.cases_head with rfl | ⟨b, hb, -⟩
    · exact ht
    · exact has_of_derives hb
  have below : ∀ classic, h.ReachesKind t classic → h.ReachesKind u classic :=
    fun _ ⟨x, htx, found⟩ => ⟨x, reach.trans htx, found⟩
  obtain ⟨old, modern⟩ := (marked.mixed_iff hl ht).mp mixed
  exact (marked.mixed_iff hl hu).mpr ⟨below _ old, below _ modern⟩

end

theorem mixed_define_congr {h h₁ h₂ : Heap} {c d : ClassSpec} {t u : TypeRef}
    (hc : h.define c = .ok (t, h₁)) (hd : h.define d = .ok (u, h₂))
    (bases : ∀ b, b ∈ c.parents ↔ b ∈ d.parents) (classic : c.classic = d.classic) :
    (h₁.typeAt t).flags.mixed = (h₂.typeAt u).flags.mixed := by
  obtain ⟨-, line, _, _, hline, -, hat⟩ := typeAt_define hc
  obtain ⟨-, line', _, _, hline', -, hat'⟩ := typeAt_define hd
  have same : ∀ x, x ∈ line ↔ x ∈ line' := by
    intro x
    rw [mem_iff_of_keeps (keeps_of_linearize hline), mem_iff_of_keeps (keeps_of_linearize hline')]
    simp only [bases]
  rw [hat, hat', Bool.eq_iff_iff]
  change h.mixes c.classic line = true ↔ h.mixes d.classic line' = true
  simp only [mixes_iff, classic, same]

theorem gate_of_mixed {settings : Settings} {h : Heap} {shape : SiteShape} {t : TypeRef}
    (mixed : (h.typeAt t).flags.mixed = true) :
    ∃ reason ∈ [Refusal.disabled, .systemType, .mixedModels],
      gate settings h shape t = some reason := by
  unfold gate
  cases settings.enabled with
  | false => exact ⟨.disabled, by simp, rfl⟩
  | true =>
    cases hsystem : (h.typeAt t).flags.system with
    | true => exact ⟨.systemType, by simp, by simp⟩
    | false => exact ⟨.mixedModels, by simp, by simp [mixed]⟩

/-! ## Main theorem -/

namespace Timeline

variable {h : Nat → Heap}

/-- At every moment of a run a type is marked exactly if classic and modern types meet among it and
all that it derives from, `object` apart, and so all that derives from a marked type is marked, as
long as numbers have not run out. The order of bases makes no difference, and no request of any
specializer is ever answered with a shortcut for a marked type. -/
theorem mixed_exact (run : Timeline h) (registers : ∀ n, Registers (h n) (h (n + 1))) (n : Nat) :
    (Registry.firstAdded + (h n).registry.drawn ≤ 2 ^ 32 →
      (∀ t, (h n).Has t → (((h n).typeAt t).flags.mixed = true ↔
        (h n).ReachesKind t true ∧ (h n).ReachesKind t false)) ∧
      ∀ t u, (h n).isSubtype u t = true → ((h n).typeAt t).flags.mixed = true →
        ((h n).typeAt u).flags.mixed = true) ∧
    (∀ c d t h₁ u h₂, (h n).define c = .ok (t, h₁) → (h n).define d = .ok (u, h₂) →
      (∀ b, b ∈ c.parents ↔ b ∈ d.parents) → c.classic = d.classic →
      (h₁.typeAt t).flags.mixed = (h₂.typeAt u).flags.mixed) ∧
    ∀ t, ((h n).typeAt t).flags.mixed = true → ∀ s shape c,
      ∃ reason ∈ [Refusal.disabled, .systemType, .mixedModels],
        Caches.request (h n) s shape t c = .ok (.error reason) (c.count s .ineligible) := by
  refine ⟨fun room => ?_, ?_, ?_⟩
  · have hl := run.linearized n
    have hdrawn := (run.numbered registers n).drawn
    have marked := run.marked registers n (by rw [Registry.firstAdded] at room; omega)
    exact ⟨fun t => marked.mixed_iff hl, fun t u => marked.mixed_of_isSubtype hl⟩
  · exact fun c d t h₁ u h₂ => mixed_define_congr
  · intro t mixed s shape c
    obtain ⟨reason, hin, hgate⟩ := gate_of_mixed mixed
    exact ⟨reason, hin, Engine.request_of_gate hgate⟩

/-- Type 1 is classic and type 2 is modern. Type 3 derives from both, and type 4 from type 3. -/
def kinds : Nat → Heap
  | 0 => initial
  | 1 => (kinds 0).tryDefine { name := "Old", classic := true }
  | 2 => (kinds 1).tryDefine { name := "New" }
  | 3 => (kinds 2).tryDefine { name := "Both", bases := [⟨1⟩, ⟨2⟩] }
  | 4 => (kinds 3).tryDefine { name := "Below", bases := [⟨3⟩], classic := true }
  | n + 5 => kinds (n + 4)

theorem kinds_timeline : Timeline kinds := by
  have two : (kinds 2).types.size = 3 := by cbv
  have three : (kinds 3).types.size = 4 := by cbv
  refine ⟨⟨_, rfl⟩, ?_⟩
  rintro (_ | _ | _ | _ | n)
  · exact .tryDefine (by simp) (by simp)
  · exact .tryDefine (by simp) (by simp)
  · exact .tryDefine (by simp [Has, two]) (by simp)
  · exact .tryDefine (by simp [Has, three]) (by simp)
  · exact .idle _

theorem kinds_registers (n : Nat) : Registers (kinds n) (kinds (n + 1)) := by
  rcases n with _ | _ | _ | _ | n
  all_goals first | exact registers_tryDefine _ _ | exact Or.inl rfl

/-- Its bases can be named in either order. -/
def union (bases : List TypeRef) : ClassSpec := { name := "Union", bases }

/-- A classic type alone is not marked, since `object` does not count. -/
theorem kinds_mixed :
    ¬ (kinds 4).ReachesKind ⟨1⟩ false ∧ ((kinds 4).typeAt ⟨4⟩).flags.mixed = true ∧
      (∃ t h₁ u h₂, (kinds 4).define (union [⟨1⟩, ⟨2⟩]) = .ok (t, h₁) ∧
        (kinds 4).define (union [⟨2⟩, ⟨1⟩]) = .ok (u, h₂) ∧
        (h₁.typeAt t).flags.mixed = (h₂.typeAt u).flags.mixed) ∧
      ∃ reason ∈ [Refusal.disabled, .systemType, .mixedModels],
        Caches.request (kinds 4) .shared { signature := .plain 0 } ⟨4⟩ .initial =
          .ok (.error reason) (Caches.initial.count .shared .ineligible) := by
  obtain ⟨marked, order, refused⟩ := mixed_exact kinds_timeline kinds_registers 4
  obtain ⟨marks, below⟩ := marked (by decide +kernel)
  have under := below ⟨3⟩ ⟨4⟩ (by decide +kernel) (by decide +kernel)
  refine ⟨fun modern => ?_, under, ?_, refused ⟨4⟩ under .shared _ _⟩
  · have old : (kinds 4).ReachesKind ⟨1⟩ true := ⟨⟨1⟩, .refl, by decide, by decide +kernel⟩
    have marked := (marks ⟨1⟩ (by decide +kernel)).mpr ⟨old, modern⟩
    exact absurd marked (by decide +kernel)
  · have line : (kinds 4).linearize (union [⟨1⟩, ⟨2⟩]).parents = .ok [⟨1⟩, ⟨2⟩, .object] := by
      decide +kernel
    have turned : (kinds 4).linearize (union [⟨2⟩, ⟨1⟩]).parents = .ok [⟨2⟩, ⟨1⟩, .object] := by
      decide +kernel
    have plain : ∀ bases ∈ [[⟨1⟩, ⟨2⟩], [⟨2⟩, ⟨1⟩]],
        (kinds 4).resolveMetaclass none (union bases).parents = .ok none := by decide +kernel
    have hc := define_eq_ok_iff.mpr ⟨_, _, line, plain [⟨1⟩, ⟨2⟩] (by simp), rfl⟩
    have hd := define_eq_ok_iff.mpr ⟨_, _, turned, plain [⟨2⟩, ⟨1⟩] (by simp), rfl⟩
    have same : ∀ b, b ∈ (union [⟨1⟩, ⟨2⟩]).parents ↔ b ∈ (union [⟨2⟩, ⟨1⟩]).parents := by
      simp [union, ClassSpec.parents, or_comm]
    exact ⟨_, _, _, _, hc, hd, order _ _ _ _ _ _ hc hd same rfl⟩

end Timeline

end InlineCache.Heap
