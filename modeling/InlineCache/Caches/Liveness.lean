import InlineCache.Caches.Basic

/-! # Which relays are alive

A specializer does not keep its relays alive. A relay lives while a shortcut goes through it or
somebody holds it. A shortcut lives while it is filed, held, or the target of a call site that
lives. The call site of a relay lives as long as the relay.
-/

namespace InlineCache.Caches

/-- The shortcut that a call site keeps. -/
def targetShortcut? (c : Caches) (s : CallSiteRef) : Option ShortcutRef :=
  match (c.siteAt s).target with
  | some (.shortcut k) => some k
  | _ => none

/-- The shortcuts that some specializer has filed. -/
def filed (c : Caches) : List ShortcutRef := c.specializers.toList.flatMap Specializer.filed

/-- The shortcuts that live without the help of a relay. -/
def rootShortcuts (c : Caches) : List ShortcutRef :=
  c.filed ++ c.held.shortcuts ++ c.held.sites.filterMap c.targetShortcut?

/-- The relays that live without the help of another; `extra` are held by whoever asks. -/
def rootRelays (c : Caches) (extra : List RelayRef) : List RelayRef :=
  extra ++ c.held.relays ++ c.rootShortcuts.flatMap fun s => (c.shortcutAt s).relays

/-- The relays that live because this one does. -/
def kept (c : Caches) (r : RelayRef) : List RelayRef :=
  ((c.relayAt r).site.bind c.targetShortcut?).elim [] fun s => (c.shortcutAt s).relays

/-- Everything reached from `work`, with `seen` done, in at most `n` steps. -/
def reach {α : Type} [DecidableEq α] (next : α → List α) :
    (n : Nat) → (seen work : List α) → List α
  | 0, seen, _ => seen
  | _, seen, [] => seen
  | n + 1, seen, x :: work =>
    if x ∈ seen then reach next n seen work else reach next n (x :: seen) (next x ++ work)

/-- The relays that live. A relay keeps at most two others, which bounds the steps. -/
def live (c : Caches) (extra : List RelayRef) : List RelayRef :=
  let roots := c.rootRelays extra
  reach c.kept (roots.length + 2 * c.relays.size + 1) [] roots

def isLive (c : Caches) (extra : List RelayRef) (r : RelayRef) : Bool := (c.live extra).contains r

end InlineCache.Caches
