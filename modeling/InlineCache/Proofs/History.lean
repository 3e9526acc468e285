import InlineCache.Proofs.Requests
import Mathlib

/-! # Histories

A history is a world with every grant of a shortcut on the way to it. It goes on in small steps: one
change to the heap, one request, one target of a call site. Whole calls are made of them. -/

namespace InlineCache

/-- A shortcut that a specializer gave for a type and a shape of call. -/
structure Grant where
  specializer : SpecializerRef
  shape : SiteShape
  type : TypeRef
  shortcut : ShortcutRef
deriving DecidableEq

/-- A world, and the grants made on the way to it. -/
structure History where
  world : World
  grants : List Grant

/-- Which specializers a call site may be used with. -/
abbrev Usage := CallSiteRef → SpecializerRef → Prop

namespace History

abbrev heap (H : History) : Heap := H.world.heap

abbrev caches (H : History) : Caches := H.world.caches

def withHeap (H : History) (h : Heap) : History := { H with world := { H.world with heap := h } }

def withCaches (H : History) (c : Caches) : History :=
  { H with world := { H.world with caches := c } }

def withTrace (H : History) (trace : Array Entry) : History :=
  { H with world := { H.world with trace } }

/-- The history after a request; a shortcut that is given is a grant. -/
def afterRequest (H : History) (s : SpecializerRef) (shape : SiteShape) (t : TypeRef) : History :=
  match Caches.request H.heap s shape t H.caches with
  | .ok (.ok k) c => { H.withCaches c with grants := ⟨s, shape, t, k⟩ :: H.grants }
  | .ok (.error _) c => H.withCaches c
  | .error _ c => H.withCaches c

theorem heap_afterRequest (H : History) (s : SpecializerRef) (shape : SiteShape) (t : TypeRef) :
    (H.afterRequest s shape t).heap = H.heap := by
  unfold afterRequest
  split <;> rfl

/-- One step. A call site gets only shortcuts that were granted for its shape, by a specializer
that it may be used with. -/
inductive Step (o : Usage) (H : History) : History → Prop
  | heap {h : Heap} (change : H.heap.Change h) : Step o H (H.withHeap h)
  | trace (trace : Array Entry) : Step o H (H.withTrace trace)
  | held (held : Held) : Step o H (H.withCaches { H.caches with held })
  | count (s : SpecializerRef) (n : Counter) : Step o H (H.withCaches (H.caches.count s n))
  | request (s : SpecializerRef) (shape : SiteShape) (t : TypeRef)
      (has : H.caches.HasSpecializer s) : Step o H (H.afterRequest s shape t)
  | aim (site : CallSiteRef) (g : Grant) (granted : g ∈ H.grants)
      (shape : g.shape = (H.caches.siteAt site).shape) (use : o site g.specializer) :
      Step o H (H.withCaches (H.caches.setTarget site (some (.shortcut g.shortcut))))
  | plan (site : CallSiteRef) (f : FunctionRef) :
      Step o H (H.withCaches (H.caches.setTarget site (some (.function f
        (Plan.make? (H.heap.functionAt f) (H.caches.siteAt site).shape.signature)))))
  | clear (site : CallSiteRef) : Step o H (H.withCaches (H.caches.setTarget site none))
  | relaySite (r : RelayRef) : Step o H (H.withCaches (H.caches.relaySite r).2)
  | addSpecializer (settings : Settings) (valid : settings.Valid) :
      Step o H (H.withCaches (H.caches.addSpecializer (.fresh settings valid)).2)
  | addSite (shape : SiteShape) : Step o H (H.withCaches (H.caches.addSite shape).2)

def Reaches (o : Usage) : History → History → Prop := Relation.ReflTransGen (Step o)

/-- Nothing has run, and these functions exist. -/
def start (functions : Array FunctionRecord) : History where
  world := { World.initial with heap := { Heap.initial with functions } }
  grants := []

/-- Some run leads there. -/
def Reachable (o : Usage) (H : History) : Prop := ∃ functions, Reaches o (start functions) H

/-! ## A small history -/

/-- The class defined in it has the one function there is as its `__init__`. -/
def sampleClass : ClassSpec := { name := "A", attrs := [("__init__", .function ⟨0⟩)] }

def sampleGrant : Grant := ⟨.shared, { signature := .plain 0 }, ⟨1⟩, ⟨0⟩⟩

/-- The one function there is takes a receiver. -/
def sampleStart : History := start #[⟨"__init__", ["self"], false⟩]

def sampleDefined : History :=
  let h := match sampleStart.heap.define sampleClass with
    | .ok (_, h) => h
    | .error _ => sampleStart.heap
  (sampleStart.withHeap h).withCaches (sampleStart.caches.addSite sampleGrant.shape).2

/-- The shortcut is given, and the call site has it as its target. -/
def sample : History :=
  let H := sampleDefined.afterRequest sampleGrant.specializer sampleGrant.shape sampleGrant.type
  H.withCaches (H.caches.setTarget ⟨0⟩ (some (.shortcut sampleGrant.shortcut)))

theorem sample_reachable {o : Usage} (use : o ⟨0⟩ .shared) : Reachable o sample := by
  have hdefine : sampleStart.heap.define sampleClass = .ok (⟨1⟩, sampleDefined.heap) := by cbv
  have define : Step o sampleStart (sampleStart.withHeap sampleDefined.heap) :=
    .heap (.define (by decide) (by decide) hdefine)
  have site : Step o (sampleStart.withHeap sampleDefined.heap) sampleDefined := .addSite _
  have ask : Step o sampleDefined _ :=
    .request sampleGrant.specializer sampleGrant.shape sampleGrant.type (by decide +kernel)
  have aim : Step o _ sample := .aim ⟨0⟩ sampleGrant (by decide +kernel) (by decide +kernel) use
  exact ⟨_, (((Relation.ReflTransGen.single define).tail site).tail ask).tail aim⟩

end History

end InlineCache
