import InlineCache.Proofs.Change

/-! # A version names one state of one type, at all times

Two moments of one run are compared: types that have the same version at them are one type, and
nothing that a look-up on it finds has changed. -/

namespace InlineCache.Heap

/-- The heap at each moment of a run, one change after the other. -/
structure Timeline (h : Nat → Heap) : Prop where
  start : ∃ functions, h 0 = { initial with functions }
  step : ∀ n, (h n).Change (h (n + 1))

theorem Change.idle (h : Heap) : h.Change h := .aside rfl rfl rfl rfl

/-- The heap after a definition was tried. -/
def tryDefine (h : Heap) (c : ClassSpec) : Heap :=
  match h.define c with
  | .ok (_, h') => h'
  | .error _ => h

/-- A definition that fails is a change too: it draws no version. -/
theorem Change.tryDefine {h : Heap} {c : ClassSpec} (bases : ∀ b ∈ c.bases, h.Has b)
    (layout : ∀ l ∈ c.layout, l.index < h.layouts.size) : h.Change (h.tryDefine c) := by
  unfold Heap.tryDefine
  split
  next t h' done => exact .define bases layout done
  next => exact .idle h

theorem Tracks.version_le {h h' : Heap} (tracks : Tracks h h') (hw : h.WellFormed) {t : TypeRef}
    (has : h.Has t) (has' : h'.Has t) : (h.typeAt t).version ≤ (h'.typeAt t).version := by
  rw [UInt64.le_iff_toNat_le]
  rcases tracks t has' with kept | drawn
  · rw [kept.version]
  · exact (hw.version_le t has).trans drawn.le

namespace Timeline

variable {h : Nat → Heap}

/-- What holds at the start and is kept by every step holds at every moment. -/
theorem invariant (run : Timeline h) {P : Heap → Prop}
    (start : ∀ functions, P { initial with functions })
    (step : ∀ n, P (h n) → P (h (n + 1))) (n : Nat) : P (h n) := by
  induction n with
  | zero =>
    obtain ⟨functions, hstart⟩ := run.start
    rw [hstart]
    exact start functions
  | succ n ih => exact step n ih

theorem hierarchy (run : Timeline h) : ∀ n, (h n).Hierarchy :=
  run.invariant hierarchy_initial fun n => (run.step n).hierarchy

theorem grows (run : Timeline h) {i j : Nat} (hij : i ≤ j) : Grows (h i) (h j) := by
  induction j, hij using Nat.le_induction with
  | base => exact .refl _
  | succ j _ ih => exact ih.trans ((run.step j).grows (run.hierarchy j))

theorem wellFormed (run : Timeline h) :
    ∀ n, (h n).versions < 2 ^ 64 → (h n).WellFormed := by
  refine run.invariant (P := fun g => g.versions < 2 ^ 64 → g.WellFormed)
    (fun functions _ => wellFormed_initial functions) fun n ih fits => ?_
  have before := (run.grows n.le_succ).versions
  exact (run.step n).wellFormed (ih (before.trans_lt fits)) fits

theorem tracks (run : Timeline h) {i j : Nat} (hij : i ≤ j) (fits : (h j).versions < 2 ^ 64) :
    Tracks (h i) (h j) := by
  induction j, hij using Nat.le_induction with
  | base => exact .refl _
  | succ j hij ih =>
    have before := (run.grows j.le_succ).versions.trans_lt fits
    exact (ih before).trans ((run.step j).tracks (run.wellFormed j before) fits) (run.grows hij)

theorem same_of_version_eq (run : Timeline h) {i j : Nat} (hij : i ≤ j)
    (fits : (h j).versions < 2 ^ 64) {t u : TypeRef} (ht : (h i).Has t) (hu : (h j).Has u)
    (heq : ((h i).typeAt t).version = ((h j).typeAt u).version) :
    t = u ∧ ∀ name, (h i).lookup t name = (h j).lookup u name := by
  have hw := run.wellFormed i ((run.grows hij).versions.trans_lt fits)
  rcases run.tracks hij fits u hu with kept | drawn
  · obtain rfl := hw.version_inj t u ht kept.has (heq.trans kept.version)
    exact ⟨rfl, fun name => (kept.lookup name).symm⟩
  -- What was drawn since is ahead of every version there was.
  · have hle := hw.version_le t ht
    rw [heq] at hle
    omega

theorem version_mono (run : Timeline h) {i j : Nat} (hij : i ≤ j)
    (fits : (h j).versions < 2 ^ 64) {t : TypeRef} (ht : (h i).Has t) :
    ((h i).typeAt t).version ≤ ((h j).typeAt t).version :=
  (run.tracks hij fits).version_le (run.wellFormed i ((run.grows hij).versions.trans_lt fits)) ht
    ((run.grows hij).has ht)

/-- A version names one state of one type. Types that have the same version at two moments of a
run are one type, on which every look-up finds the same at both. So at any moment no two types
share a version, and a type that has left a version never has it again. -/
theorem version_identifies_state (run : Timeline h) :
    (∀ i j t u, (h i).versions < 2 ^ 64 → (h j).versions < 2 ^ 64 → (h i).Has t → (h j).Has u →
      ((h i).typeAt t).version = ((h j).typeAt u).version →
      t = u ∧ ∀ name, (h i).lookup t name = (h j).lookup u name) ∧
    (∀ n t u, (h n).versions < 2 ^ 64 → (h n).Has t → (h n).Has u → t ≠ u →
      ((h n).typeAt t).version ≠ ((h n).typeAt u).version) ∧
    ∀ i j k t, i ≤ j → j ≤ k → (h k).versions < 2 ^ 64 → (h i).Has t →
      ((h j).typeAt t).version ≠ ((h i).typeAt t).version →
      ((h k).typeAt t).version ≠ ((h i).typeAt t).version := by
  refine ⟨?_, ?_, ?_⟩
  · intro i j t u fitsi fitsj ht hu heq
    rcases Nat.le_total i j with hij | hji
    · exact run.same_of_version_eq hij fitsj ht hu heq
    · obtain ⟨rfl, same⟩ := run.same_of_version_eq hji fitsi hu ht heq.symm
      exact ⟨rfl, fun name => (same name).symm⟩
  · intro n t u fits ht hu hne heq
    exact hne ((run.wellFormed n fits).version_inj t u ht hu heq)
  · intro i j k t hij hjk fits ht left back
    have up := run.version_mono hij ((run.grows hjk).versions.trans_lt fits) ht
    have on := run.version_mono hjk fits ((run.grows hij).has ht)
    rw [back] at on
    exact left (UInt64.le_antisymm on up)

/-- A class, a definition that fails, an attribute for the root, and nothing after that. -/
def sample : Nat → Heap
  | 0 => initial
  | 1 => (sample 0).tryDefine { name := "A" }
  | 2 => (sample 1).tryDefine { name := "B", bases := [⟨1⟩, ⟨1⟩] }
  | 3 => (sample 2).setAttr .object "x" .none
  | n + 4 => sample (n + 3)

theorem sample_timeline : Timeline sample := by
  refine ⟨⟨_, rfl⟩, ?_⟩
  rintro (_ | _ | _ | n)
  · exact .tryDefine (by simp) (by simp)
  · exact .tryDefine (by decide +kernel) (by simp)
  · exact .setAttr _ _ _
  · exact .idle _

theorem sample_versions :
    (∀ name, (sample 1).lookup ⟨1⟩ name = (sample 2).lookup ⟨1⟩ name) ∧
    ((sample 3).typeAt .object).version ≠ ((sample 3).typeAt ⟨1⟩).version ∧
    ((sample 5).typeAt ⟨1⟩).version ≠ ((sample 1).typeAt ⟨1⟩).version := by
  obtain ⟨identifies, distinct, never_back⟩ := version_identifies_state sample_timeline
  refine ⟨?_, ?_, ?_⟩
  · exact (identifies 1 2 ⟨1⟩ ⟨1⟩ (by decide +kernel) (by decide +kernel) (by decide +kernel)
      (by decide +kernel) (by decide +kernel)).2
  · exact distinct 3 .object ⟨1⟩ (by decide +kernel) (by decide +kernel) (by decide +kernel)
      (by decide)
  · exact never_back 1 3 5 ⟨1⟩ (by decide) (by decide) (by decide +kernel) (by decide +kernel)
      (by decide +kernel)

end Timeline

end InlineCache.Heap
