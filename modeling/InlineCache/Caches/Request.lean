import InlineCache.Caches.Liveness
import InlineCache.Slot

/-! # Asking for a shortcut

`request` answers with the shortcut for a type and a shape of call. One that was built for the
current version of the type is used again; else a new one is built, or the request is refused with
the first reason that applies.
-/

namespace InlineCache

/-- Why there is no shortcut. -/
inductive Refusal where
  | disabled
  | systemType
  /-- Classic and modern types meet in its line. -/
  | mixedModels
  /-- The type defines `__del__`. -/
  | finalizer
  | arityOverCap (arity cap : Nat)
  /-- The callee is known to be a type before the call. -/
  | typedReceiver
  | customMetaclass
  /-- There are arguments, but no slot of the user that takes them. -/
  | argumentsWithoutSlots
  | unsupportedInit
  | unsupportedNew
  /-- No constructor of the layout can be called directly. -/
  | noNativeAllocator
deriving DecidableEq

def Refusal.message : Refusal → String
  | .disabled => "fast binding disabled"
  | .systemType => "system type"
  | .mixedModels => "mixes classic and new-style bases"
  | .finalizer => "defines __del__"
  | .arityOverCap arity cap => s!"{arity} arguments exceeds cap {cap}"
  | .typedReceiver => "statically typed receiver"
  | .customMetaclass => "custom metaclass"
  | .argumentsWithoutSlots => "arguments passed to default __new__ and __init__"
  | .unsupportedInit => "unsupported __init__"
  | .unsupportedNew => "unsupported __new__"
  | .noNativeAllocator => "no direct native allocator"

/-- What stops a build. -/
inductive Obstacle where
  | refusal (reason : Refusal)
  | error (e : BindError)
deriving DecidableEq

/-- The reason to refuse that can be seen before slots are looked at. -/
def gate (settings : Settings) (h : Heap) (shape : SiteShape) (t : TypeRef) : Option Refusal :=
  let arity := shape.signature.arity
  if !settings.enabled then some .disabled
  else if (h.typeAt t).flags.system then some .systemType
  else if (h.typeAt t).flags.mixed then some .mixedModels
  else if (h.slot t .del).isFound then some .finalizer
  else if settings.maxArity < arity then some (.arityOverCap arity settings.maxArity)
  else if shape.typed then some .typedReceiver
  else if (h.typeAt t).metaclass.isSome then some .customMetaclass
  else none

namespace Caches

/-- Makes room for shortcuts of a layout. -/
def openShelf (c : Caches) (s : SpecializerRef) (l : LayoutId) : Caches :=
  c.modifySpecializer s fun p =>
    if p.shelves.contains l then p else { p with shelves := p.shelves.insert l {} }

def modifyShelf (c : Caches) (s : SpecializerRef) (l : LayoutId) (f : Shelf → Shelf) : Caches :=
  c.modifySpecializer s fun p =>
    { p with shelves := p.shelves.insert l (f ((p.shelves.get? l).getD {})) }

def shelf (c : Caches) (s : SpecializerRef) (l : LayoutId) : Shelf :=
  ((c.specializerAt s).shelves.get? l).getD {}

/-- The shortcut filed under a key, if it is good for this version. -/
def current? (c : Caches) (s : SpecializerRef) (l : LayoutId) (key : ShortcutKey)
    (version : Version) : Option ShortcutRef :=
  ((c.shelf s l).shortcuts.get? key).filter fun k => (c.shortcutAt k).version = version

/-- Forgets the dead relays of a specializer when it remembers many. -/
def sweep (c : Caches) (s : SpecializerRef) (extra : List RelayRef) : Caches :=
  let p := c.specializerAt s
  if p.relays.size < p.sweepAt then c
  else
    let live := c.live extra
    let relays := p.relays.filterValues live.contains
    c.modifySpecializer s fun p =>
      { p with relays, sweepAt := max (relays.size * 2) sweepFloor }

/-- The relay of a specializer for a function: the one remembered if it lives, else a new one.
`extra` are relays that the caller holds. -/
def relayFor (c : Caches) (s : SpecializerRef) (f : FunctionRef) (shape : SiteShape)
    (extra : List RelayRef) : RelayRef × Caches :=
  let key : RelayKey := ⟨f, shape.signature⟩
  match ((c.specializerAt s).relays.get? key).filter (c.isLive extra) with
  | some r => (r, c)
  | none =>
    let (r, c) := c.addRelay { callable := .function f, shape }
    let c := (c.count s .adapterBuilds).modifySpecializer s fun p =>
      { p with relays := p.relays.insert key r }
    (r, c.sweep s (r :: extra))

/-- The layout to allocate from directly, looked for once per shelf. -/
def allocatorFor (c : Caches) (h : Heap) (s : SpecializerRef) (l : LayoutRef) :
    Option LayoutRef × Caches :=
  let id := (h.layoutAt l).id
  match (c.shelf s id).allocator with
  | some known => (known, c)
  | none =>
    let found := Specializer.directAllocator h l
    let c := if found.isSome then c.count s .allocatorBuilds else c
    (found, c.modifyShelf s id fun p => { p with allocator := some found })

/-- The relay for the user's `__init__`, if the type has one. -/
def initializerFor (h : Heap) (s : SpecializerRef) (shape : SiteShape) (t : TypeRef) :
    EStateM Obstacle Caches (Option RelayRef) :=
  match h.slot t .init with
  | .standard =>
    if shape.signature.arity ≠ 0 ∧ h.slot t .new = .standard then
      throw (.refusal .argumentsWithoutSlots)
    else pure none
  | .user (.function f) => some <$> modifyGet (·.relayFor s f shape.withReceiver [])
  | _ => throw (.refusal .unsupportedInit)

/-- What makes the new object: the relay for the user's `__new__`, or the allocator. The relay
for `__init__` is held meanwhile. -/
def allocationFor (h : Heap) (s : SpecializerRef) (shape : SiteShape) (t : TypeRef)
    (initializer : Option RelayRef) : EStateM Obstacle Caches Allocation :=
  match h.slot t .new with
  | .standard => do
    match ← modifyGet (·.allocatorFor h s (h.typeAt t).layout) with
    | some l => pure (.native l)
    | none => throw (.refusal .noNativeAllocator)
  | .user (.staticMethod _ (.function f)) =>
    .relay <$> modifyGet (·.relayFor s f shape.withReceiver initializer.toList)
  | _ => throw (.refusal .unsupportedNew)

/-- Works out the construction of a type, or finds what is in the way. -/
def build (h : Heap) (s : SpecializerRef) (shape : SiteShape) (t : TypeRef) :
    EStateM Obstacle Caches Shortcut := do
  let arity ← match Arity.ofNat shape.signature.arity with
    | .ok arity => pure arity
    | .error e => throw (.error e)
  let initializer ← initializerFor h s shape t
  let allocate ← allocationFor h s shape t initializer
  modify (·.count s .siteBuilds)
  return { version := (h.typeAt t).version, arity, allocate, initializer }

/-- Files a new shortcut; an older one under the same key is replaced. -/
def file (c : Caches) (s : SpecializerRef) (l : LayoutId) (key : ShortcutKey) (k : Shortcut) :
    ShortcutRef × Caches :=
  let (r, c) := c.addShortcut k
  (r, c.modifyShelf s l fun p => { p with shortcuts := p.shortcuts.insert key r })

/-- The shortcut for calls of a type, or the reason why there is none. -/
def request (h : Heap) (s : SpecializerRef) (shape : SiteShape) (t : TypeRef) :
    EStateM BindError Caches (Except Refusal ShortcutRef) := fun c =>
  match gate (c.settings s) h shape t with
  | some reason => .ok (.error reason) (c.count s .ineligible)
  | none =>
    let l := (h.layoutOf t).id
    let key : ShortcutKey := ⟨(h.typeAt t).id, shape.signature⟩
    let c := c.openShelf s l
    match c.current? s l key (h.typeAt t).version with
    | some k => .ok (.ok k) (c.count s .cacheReuses)
    | none =>
      match build h s shape t c with
      | .ok shortcut c =>
        let (k, c) := c.file s l key shortcut
        .ok (.ok k) c
      | .error (.refusal reason) c => .ok (.error reason) (c.count s .ineligible)
      | .error (.error e) c => .error e c

end Caches

end InlineCache
