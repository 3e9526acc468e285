import InlineCache.Counters
import InlineCache.Heap.Basic
import InlineCache.Signature

/-! # What is cached

A shortcut is a construction worked out beforehand: it is good for one version of one type. A call
site keeps one target. A relay calls one function through a call site of its own. A specializer
keeps the shortcuts it built, by layout, and remembers its relays without keeping them alive.
-/

namespace InlineCache

structure CallSiteRef where
  index : Nat
deriving DecidableEq, Inhabited

structure ShortcutRef where
  index : Nat
deriving DecidableEq, Inhabited

structure RelayRef where
  index : Nat
deriving DecidableEq, Inhabited

structure SpecializerRef where
  index : Nat
deriving DecidableEq, Inhabited

/-- The number of arguments of a shortcut. -/
structure Arity where
  count : Nat
  le_limit : count ≤ arityLimit
deriving DecidableEq

instance : Inhabited Arity := ⟨0, Nat.zero_le _⟩

/-- A number as an arity, if it is small enough. -/
def Arity.ofNat (n : Nat) : Except BindError Arity :=
  if h : n ≤ arityLimit then .ok ⟨n, h⟩ else .error (.unsupportedArity n arityLimit)

/-- How a shortcut makes the new object. -/
inductive Allocation where
  /-- The one constructor of a layout, given the type. -/
  | native (layout : LayoutRef)
  /-- The user's `__new__`, given the type and the arguments. -/
  | relay (r : RelayRef)
deriving DecidableEq, Inhabited

/-- A construction worked out for one version of one type. -/
structure Shortcut where
  version : Version
  arity : Arity
  allocate : Allocation
  /-- The user's `__init__`, if it is not the one that `object` defines. -/
  initializer : Option RelayRef
deriving DecidableEq, Inhabited

/-- The relays that a shortcut goes through. -/
def Shortcut.relays (s : Shortcut) : List RelayRef :=
  (match s.allocate with
    | .native _ => []
    | .relay r => [r]) ++ s.initializer.toList

/-- What a call site does next time. -/
inductive Target where
  | shortcut (s : ShortcutRef)
  /-- Calls one function; with a plan, without binding its arguments anew. -/
  | function (f : FunctionRef) (plan : Option (List Nat))
deriving DecidableEq

/-- A call site and its target. -/
structure CallSite where
  shape : SiteShape
  target : Option Target := none
deriving DecidableEq, Inhabited

/-- Calls one callable through a call site that is made on first use. -/
structure Relay where
  callable : Value
  shape : SiteShape
  site : Option CallSiteRef := none
deriving DecidableEq, Inhabited

/-- What a shortcut is filed under. -/
structure ShortcutKey where
  type : TypeId
  signature : Signature
deriving DecidableEq

/-- What a relay is remembered under. -/
structure RelayKey where
  callable : FunctionRef
  signature : Signature
deriving DecidableEq

/-- The shortcuts for types of one layout. -/
structure Shelf where
  shortcuts : Table ShortcutKey ShortcutRef := ∅
  /-- The layout to allocate from directly, once it was looked for. -/
  allocator : Option (Option LayoutRef) := none
deriving Inhabited

/-- The fewest remembered relays that are worth a sweep. -/
def sweepFloor : Nat := 64

/-- Builds shortcuts, and keeps what it built. -/
structure Specializer where
  settings : Settings
  valid : settings.Valid
  shelves : Table LayoutId Shelf := ∅
  relays : Table RelayKey RelayRef := ∅
  /-- So many remembered relays call for a sweep. -/
  sweepAt : Nat := sweepFloor
  counters : Counters := {}

/-- A specializer that has built nothing. -/
def Specializer.fresh (settings : Settings) (valid : settings.Valid) : Specializer :=
  { settings, valid }

instance : Inhabited Specializer := ⟨.fresh {} (by decide)⟩

namespace Specializer

/-- The shortcuts on all shelves, stale ones included. -/
def filed (s : Specializer) : List ShortcutRef :=
  s.shelves.values.flatMap fun shelf => shelf.shortcuts.values

def shortcutCount (s : Specializer) : Nat := s.filed.length

/-- Whether the only constructor of a layout can be called directly. -/
def directAllocator (h : Heap) (l : LayoutRef) : Option LayoutRef :=
  if (h.layoutAt l).hasSoleAllocator then some l else none

end Specializer

/-- What is kept from outside the caches. -/
structure Held where
  sites : List CallSiteRef := []
  shortcuts : List ShortcutRef := []
  relays : List RelayRef := []
deriving DecidableEq, Inhabited

/-- Everything that is cached. -/
structure Caches where
  specializers : Array Specializer
  sites : Array CallSite
  shortcuts : Array Shortcut
  relays : Array Relay
  held : Held
deriving Inhabited

/-- The specializer that all contexts share unless they have one of their own. -/
def SpecializerRef.shared : SpecializerRef := ⟨0⟩

namespace Caches

/-- One specializer with default settings, and nothing cached. -/
def initial : Caches where
  specializers := #[default]
  sites := #[]
  shortcuts := #[]
  relays := #[]
  held := {}

/-! ## Reading -/

def specializerAt (c : Caches) (s : SpecializerRef) : Specializer :=
  c.specializers.getD s.index default

def siteAt (c : Caches) (s : CallSiteRef) : CallSite := c.sites.getD s.index default

def shortcutAt (c : Caches) (s : ShortcutRef) : Shortcut := c.shortcuts.getD s.index default

def relayAt (c : Caches) (r : RelayRef) : Relay := c.relays.getD r.index default

def settings (c : Caches) (s : SpecializerRef) : Settings := (c.specializerAt s).settings

/-! ## Writing -/

def modifySpecializer (c : Caches) (s : SpecializerRef) (f : Specializer → Specializer) :
    Caches :=
  { c with specializers := c.specializers.modify s.index f }

def count (c : Caches) (s : SpecializerRef) (n : Counter) : Caches :=
  c.modifySpecializer s fun p => { p with counters := p.counters.record n }

def setTarget (c : Caches) (s : CallSiteRef) (t : Option Target) : Caches :=
  { c with sites := c.sites.modify s.index fun site => { site with target := t } }

def addSpecializer (c : Caches) (s : Specializer) : SpecializerRef × Caches :=
  (⟨c.specializers.size⟩, { c with specializers := c.specializers.push s })

def addSite (c : Caches) (shape : SiteShape) : CallSiteRef × Caches :=
  (⟨c.sites.size⟩, { c with sites := c.sites.push { shape } })

def addShortcut (c : Caches) (s : Shortcut) : ShortcutRef × Caches :=
  (⟨c.shortcuts.size⟩, { c with shortcuts := c.shortcuts.push s })

def addRelay (c : Caches) (r : Relay) : RelayRef × Caches :=
  (⟨c.relays.size⟩, { c with relays := c.relays.push r })

/-- The call site of a relay, made on first use. -/
def relaySite (c : Caches) (r : RelayRef) : CallSiteRef × Caches :=
  match (c.relayAt r).site with
  | some s => (s, c)
  | none =>
    let (s, c) := c.addSite (c.relayAt r).shape
    (s, { c with relays := c.relays.modify r.index fun p => { p with site := some s } })

/-- Keeps a shortcut alive while it runs. -/
def hold (c : Caches) (s : ShortcutRef) : Caches :=
  { c with held := { c.held with shortcuts := s :: c.held.shortcuts } }

/-- Lets go of the shortcut kept last. -/
def release (c : Caches) : Caches :=
  { c with held := { c.held with shortcuts := c.held.shortcuts.tail } }

end Caches

end InlineCache
