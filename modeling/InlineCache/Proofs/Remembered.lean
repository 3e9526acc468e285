import InlineCache.Proofs.Builds
import InlineCache.Proofs.Lives

/-! # The relays that a specializer remembers

A specializer remembers relays without keeping them alive. Asking for a relay gives the one that is
remembered if it lives, else a new one; a sweep takes out those that do not live, and no others. -/

namespace InlineCache

theorem Table.get?_filterValues_iff {κ ν : Type} [DecidableEq κ] {t : Table κ ν} {p : ν → Bool}
    {k : κ} {v : ν} :
    (t.filterValues p).get? k = some v ↔ t.get? k = some v ∧ p v = true := by
  rw [Table.get?_eq_some_iff, Table.get?_eq_some_iff]
  exact List.mem_filter

theorem Specializer.mem_filed_iff {p : Specializer} {k : ShortcutRef} :
    k ∈ p.filed ↔ ∃ l key, (p.shelf l).shortcuts.get? key = some k := by
  unfold filed Table.values
  rw [List.mem_flatMap]
  constructor
  · rintro ⟨_, hshelf, hk⟩
    obtain ⟨e, he, rfl⟩ := List.mem_map.mp hshelf
    obtain ⟨entry, hentry, rfl⟩ := List.mem_map.mp hk
    refine ⟨e.1, entry.1, ?_⟩
    rw [shelf_of_mem he]
    exact (Table.get?_eq_some_iff _ _ _).mpr hentry
  · rintro ⟨l, key, hk⟩
    unfold shelf at hk
    cases hl : p.shelves.get? l with
    | none =>
      rw [hl] at hk
      cases hk
    | some shelf =>
      rw [hl] at hk
      refine ⟨shelf, ?_, ?_⟩
      · exact List.mem_map_of_mem ((Table.get?_eq_some_iff _ _ _).mp hl)
      · exact List.mem_map_of_mem ((Table.get?_eq_some_iff _ _ _).mp hk)

namespace Caches

variable {c : Caches} {s : SpecializerRef} {f : FunctionRef} {shape : SiteShape} {key : RelayKey}
  {hands : List RelayRef} {r : RelayRef}

def relayTable (c : Caches) (s : SpecializerRef) : Table RelayKey RelayRef :=
  (c.specializerAt s).relays

/-- So many remembered relays call for a sweep. -/
def sweepAt (c : Caches) (s : SpecializerRef) : Nat := (c.specializerAt s).sweepAt

/-- The relay remembered under a key, if it lives. -/
def remembered? (c : Caches) (s : SpecializerRef) (key : RelayKey) (hands : List RelayRef) :
    Option RelayRef :=
  ((c.relayTable s).get? key).filter (c.isLive hands)

/-- Remembers a new relay, before the sweep. -/
def remember (c : Caches) (s : SpecializerRef) (f : FunctionRef) (shape : SiteShape) : Caches :=
  ((c.addRelay { callable := .function f, shape }).2.count s .adapterBuilds).modifySpecializer s
    fun p => { p with relays := p.relays.insert ⟨f, shape.signature⟩ ⟨c.relays.size⟩ }

theorem relayFor_eq (c : Caches) (s : SpecializerRef) (f : FunctionRef) (shape : SiteShape)
    (hands : List RelayRef) : c.relayFor s f shape hands =
      match c.remembered? s ⟨f, shape.signature⟩ hands with
      | some r => (r, c)
      | none => (⟨c.relays.size⟩, (c.remember s f shape).sweep s (⟨c.relays.size⟩ :: hands)) := rfl

theorem remembered?_eq_some_iff : c.remembered? s key hands = some r ↔
    (c.relayTable s).get? key = some r ∧ c.Lives hands r := by
  rw [remembered?, Option.filter_eq_some_iff, isLive_iff]

/-! ## What goes on living -/

theorem mem_filed_iff {k : ShortcutRef} : k ∈ c.filed ↔ ∃ s, k ∈ (c.specializerAt s).filed := by
  unfold filed
  rw [List.mem_flatMap]
  constructor
  · rintro ⟨p, hp, hk⟩
    obtain ⟨i, hi, rfl⟩ := Array.getElem_of_mem (Array.mem_toList_iff.mp hp)
    refine ⟨⟨i⟩, ?_⟩
    rwa [specializerAt, Array.getD_eq_getD_getElem?, Array.getElem?_eq_getElem hi]
  · rintro ⟨s, hk⟩
    unfold specializerAt at hk
    rw [Array.getD_eq_getD_getElem?] at hk
    cases hp : c.specializers[s.index]? with
    | none =>
      rw [hp] at hk
      exact absurd hk List.not_mem_nil
    | some p =>
      rw [hp] at hk
      exact ⟨p, Array.mem_toList_iff.mpr (Array.mem_of_getElem? hp), hk⟩

theorem filed_subset {c' : Caches}
    (hfiled : ∀ p, (c.specializerAt p).filed ⊆ (c'.specializerAt p).filed) :
    c.filed ⊆ c'.filed := by
  intro k hk
  obtain ⟨p, hp⟩ := mem_filed_iff.mp hk
  exact mem_filed_iff.mpr ⟨p, hfiled p hp⟩

theorem lives_modifySpecializer {g : Specializer → Specializer}
    (hg : ∀ p l, ((g p).shelf l).shortcuts = (p.shelf l).shortcuts) :
    (c.modifySpecializer s g).Lives hands r ↔ c.Lives hands r := by
  have hfiled : ∀ p k, k ∈ ((c.modifySpecializer s g).specializerAt p).filed ↔
      k ∈ (c.specializerAt p).filed := by
    intro p k
    rw [specializerAt_modifySpecializer]
    split
    · simp only [Specializer.mem_filed_iff, hg]
    · rfl
  constructor
  · intro lives
    exact lives.mono (List.Subset.refl _) rfl (filed_subset fun p k => (hfiled p k).mp) rfl rfl
      fun _ _ own => own
  · intro lives
    exact lives.mono (List.Subset.refl _) rfl (filed_subset fun p k => (hfiled p k).mpr) rfl rfl
      fun _ _ own => own

theorem lives_sweep {extra : List RelayRef} :
    (c.sweep s extra).Lives hands r ↔ c.Lives hands r := by
  unfold sweep
  dsimp only
  split
  · rfl
  · exact lives_modifySpecializer fun _ _ => rfl

theorem Lives.addRelay (lives : c.Lives hands r) (relay : Relay) :
    (c.addRelay relay).2.Lives hands r := by
  refine lives.mono (List.Subset.refl _) rfl (List.Subset.refl _) rfl rfl fun p site own => ?_
  rw [relayAt_addRelay, if_neg]
  · exact own
  · intro heq
    rw [relayAt_of_le heq.ge] at own
    cases own

theorem Lives.openShelf (lives : c.Lives hands r) (s : SpecializerRef) (l : LayoutId) :
    (c.openShelf s l).Lives hands r :=
  (lives_modifySpecializer fun p l' => by rw [shelf_open]).mpr lives

theorem Lives.count (lives : c.Lives hands r) (s : SpecializerRef) (n : Counter) :
    (c.count s n).Lives hands r := by
  refine (lives_modifySpecializer ?_).mpr lives
  exact fun _ _ => rfl

theorem Lives.allocatorFor (lives : c.Lives hands r) (h : Heap) (s : SpecializerRef)
    (l : LayoutRef) : (c.allocatorFor h s l).2.Lives hands r := by
  unfold Caches.allocatorFor
  dsimp only
  split
  · exact lives
  · refine (lives_modifySpecializer fun p l' => ?_).mpr ?_
    · rw [Specializer.shelf_insert]
      split
      · rename_i heq
        subst heq
        rfl
      · rfl
    · split
      · exact lives.count s _
      · exact lives

theorem Lives.relayFor (lives : c.Lives hands r) (s : SpecializerRef) (f : FunctionRef)
    (shape : SiteShape) : (c.relayFor s f shape hands).2.Lives hands r := by
  rw [relayFor_eq]
  split
  · exact lives
  · rw [lives_sweep]
    refine (lives_modifySpecializer ?_).mpr ((lives.addRelay _).count s _)
    exact fun _ _ => rfl

/-! ## What is remembered -/

theorem specializerAt_remember (has : c.HasSpecializer s) (f : FunctionRef) (shape : SiteShape) :
    (c.remember s f shape).relayTable s =
        (c.relayTable s).insert ⟨f, shape.signature⟩ ⟨c.relays.size⟩ ∧
      (c.remember s f shape).sweepAt s = c.sweepAt s := by
  have hat : ((c.addRelay { callable := .function f, shape }).2.count s
      .adapterBuilds).specializerAt s =
        { c.specializerAt s with counters := (c.specializerAt s).counters.record .adapterBuilds } :=
    (specializerAt_modifySpecializer _ s s _).trans (if_pos ⟨rfl, has⟩)
  have has' : ((c.addRelay { callable := .function f, shape }).2.count s
      .adapterBuilds).HasSpecializer s := hasSpecializer_modify.mpr has
  unfold relayTable sweepAt remember
  rw [specializerAt_modifySpecializer, if_pos ⟨rfl, has'⟩, hat]
  exact ⟨rfl, rfl⟩

/-- A sweep, if it is time for one, keeps what lives and waits until twice as much is there. -/
theorem specializerAt_sweep (has : c.HasSpecializer s) (hands : List RelayRef) :
    if (c.relayTable s).size < c.sweepAt s then c.sweep s hands = c
    else (c.sweep s hands).relayTable s = (c.relayTable s).filterValues (c.isLive hands) ∧
      (c.sweep s hands).sweepAt s = max sweepFloor (2 * ((c.sweep s hands).relayTable s).size) := by
  unfold sweep relayTable sweepAt
  dsimp only
  split
  · rfl
  · rw [specializerAt_modifySpecializer, if_pos ⟨rfl, has⟩, Nat.max_comm, Nat.mul_comm]
    exact ⟨rfl, rfl⟩

theorem hasSpecializer_remember (has : c.HasSpecializer s) (f : FunctionRef) (shape : SiteShape) :
    (c.remember s f shape).HasSpecializer s := by
  refine hasSpecializer_modify.mpr (hasSpecializer_modify.mpr ?_)
  exact has

end Caches

/-- The caches at some moment, and the relays that whoever asks for more has in hand. -/
structure Holding where
  caches : Caches
  hands : List RelayRef

namespace Holding

variable {S : Holding} {s : SpecializerRef} {f : FunctionRef} {shape : SiteShape} {key : RelayKey}
  {r : RelayRef}

abbrev table (S : Holding) (s : SpecializerRef) : Table RelayKey RelayRef := S.caches.relayTable s

abbrev Lives (S : Holding) (r : RelayRef) : Prop := S.caches.Lives S.hands r

def answer (S : Holding) (s : SpecializerRef) (f : FunctionRef) (shape : SiteShape) : RelayRef :=
  (S.caches.relayFor s f shape S.hands).1

/-- The moment after the relay for a function was asked for. It is in hand then. -/
def ask (S : Holding) (s : SpecializerRef) (f : FunctionRef) (shape : SiteShape) : Holding where
  caches := (S.caches.relayFor s f shape S.hands).2
  hands := S.answer s f shape :: S.hands

/-- Whether that takes a sweep: a new relay is remembered, and with it there are enough. -/
def sweeps (S : Holding) (s : SpecializerRef) (f : FunctionRef) (shape : SiteShape) : Bool :=
  (S.caches.remembered? s ⟨f, shape.signature⟩ S.hands).isNone &&
    (S.caches.remember s f shape).sweepAt s ≤ ((S.caches.remember s f shape).relayTable s).size

theorem relayFor_of_lives (found : (S.table s).get? key = some r) (lives : S.Lives r)
    (signature : shape.signature = key.signature) :
    S.caches.relayFor s key.callable shape S.hands = (r, S.caches) := by
  rw [Caches.relayFor_eq, signature, Caches.remembered?_eq_some_iff.mpr ⟨found, lives⟩]

theorem lives_ask (lives : S.Lives r) (s : SpecializerRef) (f : FunctionRef) (shape : SiteShape) :
    (S.ask s f shape).Lives r :=
  (lives.relayFor s f shape).mono (List.subset_cons_self _ _) rfl (List.Subset.refl _) rfl rfl
    fun _ _ own => own

/-- How asking for a relay can go. -/
inductive Asked (S : Holding) (s : SpecializerRef) (f : FunctionRef) (shape : SiteShape) : Prop
  | known (found : (S.table s).get? ⟨f, shape.signature⟩ = some (S.answer s f shape))
      (same : (S.ask s f shape).caches = S.caches) (calm : S.sweeps s f shape = false)
  | new (table : (S.ask s f shape).table s =
        (S.table s).insert ⟨f, shape.signature⟩ (S.answer s f shape))
      (calm : S.sweeps s f shape = false)
      (sweepAt : (S.ask s f shape).caches.sweepAt s = S.caches.sweepAt s)
      (few : ((S.ask s f shape).table s).size < S.caches.sweepAt s)
  | swept (table : ∀ key r, ((S.ask s f shape).table s).get? key = some r ↔
        ((S.table s).insert ⟨f, shape.signature⟩ (S.answer s f shape)).get? key = some r ∧
          (S.ask s f shape).Lives r)
      (due : S.sweeps s f shape = true)
      (sweepAt : (S.ask s f shape).caches.sweepAt s =
        max sweepFloor (2 * ((S.ask s f shape).table s).size))

theorem ask_spec (has : S.caches.HasSpecializer s) (f : FunctionRef) (shape : SiteShape) :
    Asked S s f shape := by
  obtain ⟨htable, hsweepAt⟩ := Caches.specializerAt_remember has f shape
  have swept := Caches.specializerAt_sweep (Caches.hasSpecializer_remember has f shape)
    (⟨S.caches.relays.size⟩ :: S.hands)
  have hask := Caches.relayFor_eq S.caches s f shape S.hands
  cases known : S.caches.remembered? s ⟨f, shape.signature⟩ S.hands with
  | some r =>
    rw [known] at hask
    have found := (Caches.remembered?_eq_some_iff.mp known).1
    refine .known ?_ (congrArg Prod.snd hask) (by simp [sweeps, known])
    rw [answer, hask]
    exact found
  | none =>
    rw [known] at hask
    have hanswer : S.answer s f shape = ⟨S.caches.relays.size⟩ := congrArg Prod.fst hask
    have hcaches : (S.ask s f shape).caches = _ := congrArg Prod.snd hask
    split at swept
    · rename_i few
      rw [swept] at hcaches
      refine .new ?_ (by simpa [sweeps, known] using few) ?_ ?_
      · rw [table, hcaches, htable, hanswer]
      · rw [hcaches, hsweepAt]
      · rw [table, hcaches, ← hsweepAt]
        exact few
    · rename_i many
      refine .swept (fun key r => ?_) (by simpa [sweeps, known] using many) ?_
      · rw [table, Lives, hcaches, swept.1, htable, Table.get?_filterValues_iff, Caches.lives_sweep,
          Caches.isLive_iff, hanswer, ask, hanswer]
      · rw [table, hcaches]
        exact swept.2

/-- What is remembered after a relay was asked for: that relay, and what was there before. A sweep
leaves just those of them that live. -/
theorem get?_ask (has : S.caches.HasSpecializer s) (f : FunctionRef) (shape : SiteShape)
    (key : RelayKey) (r : RelayRef) : ((S.ask s f shape).table s).get? key = some r ↔
      (if ⟨f, shape.signature⟩ = key then S.answer s f shape = r
        else (S.table s).get? key = some r) ∧
      (S.sweeps s f shape = true → (S.ask s f shape).Lives r) := by
  cases ask_spec has f shape with
  | known found same calm =>
    rw [table, same, calm]
    split
    · rename_i heq
      simp [← heq, found]
    · simp
  | new table calm sweepAt few =>
    rw [table, calm, Table.get?_insert]
    split <;> simp
  | swept table due sweepAt =>
    rw [table, due, Table.get?_insert]
    split <;> simp

theorem size_ask (has : S.caches.HasSpecializer s) (f : FunctionRef) (shape : SiteShape)
    (few : (S.table s).size < S.caches.sweepAt s) :
    ((S.ask s f shape).table s).size < (S.ask s f shape).caches.sweepAt s := by
  cases ask_spec has f shape with
  | known found same calm => rwa [table, same]
  | new table calm sweepAt few => rwa [sweepAt]
  | swept table due sweepAt =>
    rw [sweepAt]
    unfold sweepFloor
    omega

theorem sweepAt_ask (has : S.caches.HasSpecializer s) (f : FunctionRef) (shape : SiteShape) :
    (S.ask s f shape).caches.sweepAt s = if S.sweeps s f shape = true then
      max sweepFloor (2 * ((S.ask s f shape).table s).size) else S.caches.sweepAt s := by
  cases ask_spec has f shape with
  | known found same calm => rw [same, calm, if_neg Bool.false_ne_true]
  | new table calm sweepAt few => rw [sweepAt, calm, if_neg Bool.false_ne_true]
  | swept table due sweepAt => rw [sweepAt, if_pos due]

end Holding

end InlineCache
