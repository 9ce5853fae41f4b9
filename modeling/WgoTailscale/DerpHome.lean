import WgoTailscale.Client

/-!
# Choosing the home DERP region (`map.go`)

`choosePreferredDERPMeasured` keeps the current home unless another usable region is clearly faster.
It runs over the measurements in the order in which Go visits a map; `choosePreferredDERPMeasured`
fixes one order, and `choosePreferredDERPMeasuredFrom` takes any.
-/

namespace WgoTailscale

/-- The region under an id: nil if there is no map, no such entry or a nil entry. -/
def regionOf (derpMap : Option DERPMap) (id : Int) : Option DERPRegion :=
  derpMap.bind fun m => (GoMap.get m.regions id).join

/-- `usableDERPRegion`. -/
def usableDERPRegion (region : Option DERPRegion) : Bool :=
  match region with
  | none => false
  | some region =>
    !region.noMeasureNoHome &&
      (Slice.list region.nodes).any fun node => node.any fun node => !node.stunOnly

/-- `choosePreferredDERP`: the current region if it is usable, else the usable one of least id. -/
def choosePreferredDERP (derpMap : Option DERPMap) (current : Int) : Int :=
  match derpMap with
  | none => 0
  | some m =>
    if usableDERPRegion (regionOf derpMap current) then current
    else match (m.regions.getD ∅).sortedKeys (compare : Int → Int → Ordering) |>.filter
        (fun id => usableDERPRegion (regionOf derpMap id)) with
      | [] => 0
      | id :: _ => id

/-- One round of the loop over the measurements: the best region so far and its latency. -/
def betterRegion (derpMap : Option DERPMap) (measured : FinMap Int DERPRegionLatency)
    (acc : Int × Duration) (regionID : Int) : Int × Duration :=
  match measured.get regionID with
  | none => acc
  | some metric =>
    if metric.latency ≤ 0 ∨ usableDERPRegion (regionOf derpMap regionID) = false then acc
    else if acc.1 = 0 ∨ metric.latency < acc.2 ∨ (metric.latency = acc.2 ∧ regionID < acc.1) then
      (regionID, metric.latency)
    else acc

/-- `choosePreferredDERPMeasured`, when the measurements are visited in the given order. -/
def choosePreferredDERPMeasuredFrom (order : List Int) (derpMap : Option DERPMap) (current : Int)
    (measured : FinMap Int DERPRegionLatency) : Int :=
  let fallback := choosePreferredDERP derpMap current
  if derpMap.isNone ∨ measured.keys = ∅ then fallback
  else
    let (bestID, best) := order.foldl (betterRegion derpMap measured) (0, 0)
    if bestID = 0 then fallback
    else if bestID = current then bestID
    else match measured.get current with
      | none => bestID
      | some currentMetric =>
        if usableDERPRegion (regionOf derpMap current) ∧ 0 < currentMetric.latency then
          if currentMetric.latency ≤ best then current
          else if currentMetric.latency - best < 10 * (second / 1000) ∨
              currentMetric.latency / 3 * 2 < best then current
          else bestID
        else bestID

/-- `choosePreferredDERPMeasured`. -/
def choosePreferredDERPMeasured (derpMap : Option DERPMap) (current : Int)
    (measured : FinMap Int DERPRegionLatency) : Int :=
  choosePreferredDERPMeasuredFrom (measured.sortedKeys (compare : Int → Int → Ordering))
    derpMap current measured

end WgoTailscale
