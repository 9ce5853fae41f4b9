import WgoTailscale.DerpHome
import WgoTailscale.Lib.Threads

/-!
# The connections to the relays (`tailnet/derp.go`)

`derpManager` as a machine, one critical section at a time; a slot that is being connected keeps its
lock over several steps, and so does `updateMap` with the lock of the manager. Slots are pointers:
callers go on with a slot after it was removed, and with a client after it was replaced.
-/

namespace WgoTailscale

/-! ## The machine -/

/-- `derpRegionSlot`. Clients are numbered in the order in which they are dialed. -/
structure DerpSlot where
  region : Int := 0
  mu : Bool := false
  config : Option DERPRegion := none
  client : Option Nat := none
  connecting : Bool := false
  connected : Bool := false

/-- `derpManager`, with the slots that were ever made. -/
structure DerpManager where
  mu : Bool := false
  closed : Bool := false
  mapv : Option DERPMap := none
  slots : FinMap Int Nat := ∅
  heap : Nat → DerpSlot := fun _ => {}
  allocated : Nat := 0
  /-- How many clients were dialed. -/
  dialed : Nat := 0
  /-- The clients whose connection was closed by `derpClient.close`. -/
  closedClients : Finset Nat := ∅
  /-- The slots that `updateMap` removed. -/
  removed : Finset Nat := ∅

/-- Who calls `getClient`. -/
inductive DerpCaller where
  | send
  | ensureAsync

/-- The program points of the manager's functions, of a client's `readLoop` and of its `close`. -/
inductive DerpFrame where
  | send (region : Int)
  | ensureAsync (region : Int)
  | slot (region : Int) (caller : DerpCaller)
  | swapConnecting (a : Nat)
  | loadConnected (a : Nat)
  | storeConnecting (a : Nat)
  | getClient (a : Nat) (caller : DerpCaller)
  | dial (a : Nat) (nodes : List (Option DERPNode)) (caller : DerpCaller)
  | unlockSlot (a : Nat) (client : Option Nat) (caller : DerpCaller)
  | sendPacket (a : Nat) (client : Nat)
  | readLoop (a : Nat) (client : Nat)
  | clear (a : Nat) (expected : Option Nat)
  | closeClient (client : Nat)
  | updateMap (value : Option DERPMap)
  | updateSlots (value : Option DERPMap) (ids : List Int)
  | deleteSlot (id : Int) (value : Option DERPMap) (ids : List Int)
  | unlockManager
  | closeConnections
  | close
  | clearAll (slots : List Nat)

/-- What a step does not decide: whether dialing, sending and receiving succeed and whether the
context is done; and the order in which the slots are ranged over. -/
structure DerpChoice where
  ok : Bool := true
  order : List Int := []

namespace DerpManager

/-- Change a slot. -/
def setSlot (m : DerpManager) (a : Nat) (slot : DerpSlot) : DerpManager :=
  { m with heap := Function.update m.heap a slot }

/-- The slot that `slot` makes. -/
def newSlot (m : DerpManager) (region : Int) (config : DERPRegion) : DerpManager :=
  { m.setSlot m.allocated { region, config := some config } with
    allocated := m.allocated + 1, slots := m.slots.insert region m.allocated }

/-- `getClient` installs the client it dialed. -/
def install (m : DerpManager) (a : Nat) : DerpManager :=
  { m.setSlot a { m.heap a with client := some m.dialed, connected := true } with
    dialed := m.dialed + 1 }

/-- `clear` uninstalls the client of a slot. -/
def uninstall (m : DerpManager) (a : Nat) : DerpManager :=
  m.setSlot a { m.heap a with client := none, connected := false }

/-- What `updateMap` does to one slot. -/
def updateSlot (m : DerpManager) (a : Nat) (region : Option DERPRegion) : DerpManager :=
  match region, (m.heap a).client with
  | none, some client =>
    { m.setSlot a { m.heap a with config := none, client := none, connected := false } with
      closedClients := insert client m.closedClients }
  | _, _ => m.setSlot a { m.heap a with config := region }

/-- `updateMap` removes a slot. -/
def deleteSlot (m : DerpManager) (id : Int) (a : Nat) : DerpManager :=
  { m with slots := m.slots.erase id, removed := insert a m.removed }

/-- The slots in the order in which a loop visits them. -/
def listSlots (m : DerpManager) (order : List Int) : List Nat := order.filterMap m.slots.get

end DerpManager

/-- What the caller of `getClient` goes on with. -/
def DerpCaller.next (a : Nat) (client : Option Nat) : DerpCaller → List DerpFrame
  | .ensureAsync => []
  | .send => match client with
    | none => []
    | some client => [.sendPacket a client]

/-- What the caller of `slot` goes on with. -/
def DerpCaller.found (a : Nat) : DerpCaller → DerpFrame
  | .ensureAsync => .swapConnecting a
  | .send => .getClient a .send

/-- One step. -/
def derpStep (ch : DerpChoice) (m : DerpManager) :
    DerpFrame → Option (Outcome DerpManager DerpFrame)
  | .send region =>
    if ch.ok then some { state := m, calls := [.slot region .send] } else some { state := m }
  | .ensureAsync region => some { state := m, calls := [.slot region .ensureAsync] }
  | .slot region caller =>
    if m.mu then none
    else if m.closed then some { state := m }
    else match regionOf m.mapv region with
      | none => some { state := m }
      | some config => match m.slots.get region with
        | some a => some { state := m, calls := [caller.found a] }
        | none => some { state := m.newSlot region config, calls := [caller.found m.allocated] }
  | .swapConnecting a =>
    if (m.heap a).connecting then some { state := m }
    else some { state := m.setSlot a { m.heap a with connecting := true },
                calls := [.loadConnected a] }
  | .loadConnected a =>
    if (m.heap a).connected then some { state := m, calls := [.storeConnecting a] }
    else some { state := m, spawned := [[.getClient a .ensureAsync, .storeConnecting a]] }
  | .storeConnecting a =>
    some { state := m.setSlot a { m.heap a with connecting := false } }
  | .getClient a caller =>
    if (m.heap a).mu then none
    else match (m.heap a).client with
      | some client =>
        some { state := m.setSlot a { m.heap a with mu := true, connected := true },
               calls := [.unlockSlot a (some client) caller] }
      | none => match (m.heap a).config with
        | none => some { state := m.setSlot a { m.heap a with mu := true },
                         calls := [.unlockSlot a none caller] }
        | some config => some { state := m.setSlot a { m.heap a with mu := true },
                                calls := [.dial a (Slice.list config.nodes) caller] }
  | .dial a [] caller => some { state := m, calls := [.unlockSlot a none caller] }
  | .dial a (node :: nodes) caller =>
    if (node.any fun node => !node.stunOnly) ∧ ch.ok then
      some { state := m.install a, calls := [.unlockSlot a (some m.dialed) caller],
             spawned := [[.readLoop a m.dialed]] }
    else some { state := m, calls := [.dial a nodes caller] }
  | .unlockSlot a client caller =>
    some { state := m.setSlot a { m.heap a with mu := false }, calls := caller.next a client }
  | .sendPacket a client =>
    if ch.ok then some { state := m } else some { state := m, calls := [.clear a (some client)] }
  | .readLoop a client =>
    if ch.ok then some { state := m, calls := [.readLoop a client] }
    else some { state := m, calls := [.clear a (some client)] }
  | .clear a expected =>
    if (m.heap a).mu then none
    else if expected ≠ none ∧ (m.heap a).client ≠ expected then some { state := m }
    else some { state := m.uninstall a, calls := (m.heap a).client.toList.map .closeClient }
  | .closeClient client =>
    some { state := { m with closedClients := insert client m.closedClients } }
  | .updateMap value =>
    if m.mu then none
    else if m.closed then some { state := m }
    else if m.slots.Listing ch.order then
      some { state := { m with mu := true, mapv := value }, calls := [.updateSlots value ch.order] }
    else none
  | .updateSlots _ [] => some { state := m, calls := [.unlockManager] }
  | .updateSlots value (id :: ids) =>
    match m.slots.get id with
    | none => some { state := m, calls := [.updateSlots value ids] }
    | some a =>
      if (m.heap a).mu then none
      else match regionOf value id with
        | none => some { state := m.updateSlot a none, calls := [.deleteSlot id value ids] }
        | some region =>
          some { state := m.updateSlot a (some region), calls := [.updateSlots value ids] }
  | .deleteSlot id value ids =>
    match m.slots.get id with
    | none => some { state := m, calls := [.updateSlots value ids] }
    | some a => some { state := m.deleteSlot id a, calls := [.updateSlots value ids] }
  | .unlockManager => some { state := { m with mu := false } }
  | .closeConnections =>
    if m.mu then none
    else if m.slots.Listing ch.order then
      some { state := m, calls := [.clearAll (m.listSlots ch.order)] }
    else none
  | .close =>
    if m.mu then none
    else if m.closed then some { state := m }
    else if m.slots.Listing ch.order then
      some { state := { m with closed := true }, calls := [.clearAll (m.listSlots ch.order)] }
    else none
  | .clearAll [] => some { state := m }
  | .clearAll (a :: slots) => some { state := m, calls := [.clear a none, .clearAll slots] }

/-- The machine; the manager's functions are called from outside. -/
def derps : Machine DerpManager DerpFrame DerpChoice Empty where
  exec f ch m := derpStep ch m f
  env := nofun
  entry f _ := match f with
    | .send _ | .ensureAsync _ | .updateMap _ | .closeConnections | .close => true
    | _ => false

end WgoTailscale
