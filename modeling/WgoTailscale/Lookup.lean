import Mathlib.Data.Finset.Union
import WgoTailscale.Lib.Search
import WgoTailscale.Program
import WgoTailscale.Views

/-!
# MagicDNS lookups (`dns.go`)

The resolver answers from a `DNSView` alone. `resolveDNSName` follows CNAME records depth first,
with one set of visited names, and `LookupNetIP` runs it on the names it derives from a host until
one has addresses. Control chooses the records, so CNAME records may form any graph, with cycles.

`lookupNetIP_reachable` says what that computes: `LookupNetIP` ends, and gives the sorted addresses
that can be reached from the first of its names from which any can (`Resolved`).
-/

namespace WgoTailscale

open GoText List

/-! ## The code -/

/-- `net.DNSError`, as far as the resolver fills it in. -/
structure DNSError where
  err : String
  name : String
  isNotFound : Bool := false
  deriving DecidableEq

/-- The errors of a lookup: that of its context, or its own. -/
inductive LookupError where
  | ctx (err : CtxError)
  | dns (err : DNSError)
  deriving DecidableEq

/-- One turn of the loop of `resolveDNSName`, with the addresses and the visited names so far. -/
def resolveRecord (network : String)
    (go : String → Finset String → Option (List Addr × Finset String))
    (acc : List Addr × Finset String) (record : DNSRecord) : Option (List Addr × Finset String) :=
  if toUpper record.type = "A" ∨ toUpper record.type = "AAAA" then
    match parseAddr record.value with
    | none => some acc
    | some address =>
      if (network = "ip4" ∧ !address.unmap.is4) ∨ (network = "ip6" ∧ !address.unmap.is6) then
        some acc
      else some (acc.1 ++ [address.unmap], acc.2)
  else if toUpper record.type = "CNAME" then
    (go (normalizeDNSName record.value) acc.2).map fun r => (acc.1 ++ r.1, r.2)
  else some acc

/-- `resolveDNSName`: the addresses, and the names visited then. The result is `none` if the
recursion goes deeper than the given depth. -/
def resolveDNSName (records : FinMap String (List DNSRecord)) (network : String) :
    Nat → String → Finset String → Option (List Addr × Finset String)
  | 0, _, _ => none
  | depth + 1, name, seen =>
    if name ∈ seen then some ([], seen)
    else ((records.get name).getD []).foldlM
      (resolveRecord network (resolveDNSName records network depth)) ([], insert name seen)

/-- The map from normalized names to records that `LookupNetIP` makes. -/
def recordsByName (records : List DNSRecord) : FinMap String (List DNSRecord) :=
  records.foldl (fun m record =>
    let name := normalizeDNSName record.name
    m.insert name ((m.get name).getD [] ++ [record])) ∅

/-- The names that `LookupNetIP` tries. -/
def lookupNames (view : DNSView) (host : String) : List String :=
  let absolute := (host.toList.reverse.dropWhile isSpace).head? = some '.'
  normalizeDNSName host ::
    if ¬ absolute ∧ '.' ∉ host.toList then
      (Slice.list view.searchDomains).map fun domain => normalizeDNSName (host ++ "." ++ domain)
    else []

/-- The loop of `LookupNetIP`, which ends with the first name that has addresses. -/
def lookupLoop (resolve : String → Option (List Addr)) : List String → Option (List Addr)
  | [] => some []
  | name :: names =>
    (resolve name).bind fun found => if found.isEmpty then lookupLoop resolve names else some found

/-- `LookupNetIP`, with the error of its context and the depth that recursion is allowed. -/
def lookupNetIP (ctx : Option CtxError) (view : DNSView) (network host : String) (depth : Nat) :
    Option (Except LookupError (List Addr)) :=
  match ctx with
  | some err => some (.error (.ctx err))
  | none =>
    if network ∉ ["", "ip", "ip4", "ip6"] then
      some (.error (.dns { err := "unsupported network", name := host }))
    else
      let records := recordsByName view.records
      let resolve name := (resolveDNSName records network depth name ∅).map (·.1)
      (lookupLoop resolve (lookupNames view host)).map fun found =>
        let result := compact (sortBy Addr.compare found)
        if result.isEmpty then
          .error (.dns { err := "no such MagicDNS host", name := host, isNotFound := true })
        else .ok result

/-- `LookupAddr`. -/
def lookupAddr (ctx : Option CtxError) (view : DNSView) (address : String) :
    Except LookupError (List String) :=
  match ctx with
  | some err => .error (.ctx err)
  | none =>
    match parseAddr address with
    | none => .error (.dns { err := "invalid address", name := address })
    | some want =>
      let found := view.records.filter fun record =>
        (parseAddr record.value).any fun value => value.unmap = want.unmap
      let result := compact (sortBy compare (found.map (·.name)))
      if result.isEmpty then
        .error (.dns { err := "no reverse MagicDNS record", name := address, isNotFound := true })
      else .ok result

/-! ## What a name resolves to -/

section
variable {view : DNSView} {records : List DNSRecord} {network name host : String} {a : Addr}

/-- A CNAME record leads from one normalized name to another. -/
def CnameStep (records : List DNSRecord) (name target : String) : Prop :=
  ∃ record ∈ records, normalizeDNSName record.name = name ∧
    toUpper record.type = "CNAME" ∧ normalizeDNSName record.value = target

/-- The address is of the family that the network asks for. -/
def OfFamily (network : String) (a : Addr) : Prop :=
  (network = "ip4" → a.is4 = true) ∧ (network = "ip6" → a.is6 = true)

/-- An A or AAAA record at the name holds the address. -/
def HoldsAddr (records : List DNSRecord) (name : String) (a : Addr) : Prop :=
  ∃ record ∈ records, normalizeDNSName record.name = name ∧
    (toUpper record.type = "A" ∨ toUpper record.type = "AAAA") ∧
    ∃ value, parseAddr record.value = some value ∧ value.unmap = a

/-- The addresses that a name resolves to: those of the requested family that are held at the names
reachable through CNAME records. -/
def Resolved (records : List DNSRecord) (network name : String) : Set Addr :=
  { a | OfFamily network a ∧
    ∃ target, Relation.ReflTransGen (CnameStep records) name target ∧ HoldsAddr records target a }

/-! ## `resolveDNSName` searches the graph of names -/

/-- What a record contributes to the search. -/
def searchItem (network : String) (record : DNSRecord) : Option (SearchItem String Addr) :=
  if toUpper record.type = "A" ∨ toUpper record.type = "AAAA" then
    (parseAddr record.value).bind fun address =>
      if (network = "ip4" ∧ !address.unmap.is4) ∨ (network = "ip6" ∧ !address.unmap.is6) then none
      else some (.value address.unmap)
  else if toUpper record.type = "CNAME" then some (.edge (normalizeDNSName record.value))
  else none

/-- A CNAME record is searched as an edge. -/
theorem searchItem_eq_edge {record : DNSRecord} {target : String} :
    searchItem network record = some (.edge target) ↔
      toUpper record.type = "CNAME" ∧ normalizeDNSName record.value = target := by
  unfold searchItem
  by_cases haddr : toUpper record.type = "A" ∨ toUpper record.type = "AAAA"
  · rw [if_pos haddr, Option.bind_eq_some_iff]
    constructor
    · rintro ⟨address, -, hitem⟩
      split at hitem <;> cases hitem
    · rintro ⟨hcname, -⟩
      rw [hcname] at haddr
      exact absurd haddr (by decide)
  · rw [if_neg haddr]
    split
    · next hcname => simp only [hcname, true_and, Option.some.injEq, SearchItem.edge.injEq]
    · next hcname => simp only [hcname, false_and, reduceCtorEq]

/-- An A or AAAA record with an address of the requested family is searched as that address. -/
theorem searchItem_eq_value {record : DNSRecord} :
    searchItem network record = some (.value a) ↔ OfFamily network a ∧
      (toUpper record.type = "A" ∨ toUpper record.type = "AAAA") ∧
      ∃ value, parseAddr record.value = some value ∧ value.unmap = a := by
  unfold searchItem
  by_cases haddr : toUpper record.type = "A" ∨ toUpper record.type = "AAAA"
  · rw [if_pos haddr, Option.bind_eq_some_iff]
    constructor
    · rintro ⟨address, hparse, hitem⟩
      split at hitem
      · cases hitem
      · next hfamily =>
        obtain rfl := SearchItem.value.inj (Option.some.inj hitem)
        refine ⟨?_, haddr, address, hparse, rfl⟩
        unfold OfFamily
        grind
    · rintro ⟨hfamily, -, address, hparse, rfl⟩
      refine ⟨address, hparse, if_neg ?_⟩
      unfold OfFamily at hfamily
      grind
  · rw [if_neg haddr]
    simp only [haddr, false_and, and_false, iff_false]
    split <;> nofun

/-- What a name contributes to the search. -/
def searchItems (records : FinMap String (List DNSRecord)) (network name : String) :
    List (SearchItem String Addr) :=
  ((records.get name).getD []).filterMap (searchItem network)

/-- A record is skipped, or searched as its item. -/
theorem resolveRecord_eq (go : String → Finset String → Option (List Addr × Finset String))
    (acc : List Addr × Finset String) (record : DNSRecord) :
    resolveRecord network go acc record =
      match searchItem network record with
      | some item => visitItem go acc item
      | none => pure acc := by
  unfold resolveRecord searchItem
  split
  · cases parseAddr record.value with
    | none => rfl
    | some address =>
      rw [Option.bind_some]
      dsimp only
      split <;> rfl
  · split <;> rfl

/-- `resolveDNSName` is the depth-first search of the names. -/
theorem resolveDNSName_eq_visit (byName : FinMap String (List DNSRecord)) (depth : Nat)
    (name : String) (seen : Finset String) :
    resolveDNSName byName network depth name seen =
      visit (searchItems byName network) depth name seen := by
  induction depth generalizing name seen with
  | zero => rfl
  | succ depth ih =>
    have hgo : resolveDNSName byName network depth = visit (searchItems byName network) depth :=
      funext fun name => funext fun seen => ih name seen
    rw [resolveDNSName, visit, hgo, searchItems, foldlM_filterMap]
    refine if_congr Iff.rfl rfl (congrArg (List.foldlM · _ _) ?_)
    funext acc record
    rw [resolveRecord_eq]
    cases searchItem network record <;> rfl

/-- The names that CNAME records lead to. -/
def cnameTargets (byName : FinMap String (List DNSRecord)) : Finset String :=
  byName.keys.biUnion fun name =>
    (((byName.get name).getD []).map fun record => normalizeDNSName record.value).toFinset

theorem mem_cnameTargets {byName : FinMap String (List DNSRecord)} {target : String}
    (h : Edge (searchItems byName network) name target) : target ∈ cnameTargets byName := by
  obtain ⟨record, hrecord, hitem⟩ := mem_filterMap.mp h
  obtain ⟨-, htarget⟩ := searchItem_eq_edge.mp hitem
  have hname : name ∈ byName.keys := by
    refine FinMap.mem_def.mp (FinMap.mem_iff.mpr ?_)
    cases hget : byName.get name with
    | none =>
      rw [hget] at hrecord
      cases hrecord
    | some l => exact ⟨l, rfl⟩
  refine Finset.mem_biUnion.mpr ⟨name, hname, mem_toFinset.mpr ?_⟩
  exact mem_map.mpr ⟨record, hrecord, htarget⟩

/-- A name and the targets of CNAME records are closed under CNAME records. -/
theorem closed_cnameTargets (byName : FinMap String (List DNSRecord)) (network name : String) :
    ∀ w ∈ insert name (cnameTargets byName), ∀ u, Edge (searchItems byName network) w u →
      u ∈ insert name (cnameTargets byName) :=
  fun _ _ _ hedge => Finset.mem_insert_of_mem (mem_cnameTargets hedge)

/-- `resolveDNSName` never recurses deeper than there are targets of CNAME records. -/
theorem isSome_resolveDNSName {byName : FinMap String (List DNSRecord)} {depth : Nat}
    (h : (cnameTargets byName).card + 1 < depth) (name : String) (seen : Finset String) :
    (resolveDNSName byName network depth name seen).isSome = true := by
  rw [resolveDNSName_eq_visit]
  refine isSome_visit (closed_cnameTargets byName network name) (Finset.mem_insert_self _ _) ?_
  calc (insert name (cnameTargets byName) \ seen).card
      ≤ (insert name (cnameTargets byName)).card := Finset.card_le_card Finset.sdiff_subset
    _ ≤ (cnameTargets byName).card + 1 := Finset.card_insert_le _ _
    _ < depth := h

/-! ## The records of a name -/

theorem get_recordsByName (records : List DNSRecord) (name : String) :
    ((recordsByName records).get name).getD [] =
      records.filter fun record => normalizeDNSName record.name = name := by
  suffices h : ∀ m : FinMap String (List DNSRecord),
      ((records.foldl (fun m record =>
        m.insert (normalizeDNSName record.name)
          ((m.get (normalizeDNSName record.name)).getD [] ++ [record])) m).get name).getD [] =
      (m.get name).getD [] ++ records.filter fun record => normalizeDNSName record.name = name from
    h ∅
  induction records with
  | nil => exact fun m => (append_nil _).symm
  | cons record records ih =>
    intro m
    rw [foldl_cons, ih, FinMap.get_insert, filter_cons]
    by_cases hname : name = normalizeDNSName record.name
    · simp [hname]
    · simp [hname, Ne.symm hname]

theorem mem_searchItems {item : SearchItem String Addr} :
    item ∈ searchItems (recordsByName records) network name ↔
      ∃ record ∈ records, normalizeDNSName record.name = name ∧
        searchItem network record = some item := by
  rw [searchItems, get_recordsByName]
  simp only [mem_filterMap, mem_filter, decide_eq_true_eq, and_assoc]

theorem edge_iff_cnameStep {target : String} :
    Edge (searchItems (recordsByName records) network) name target ↔
      CnameStep records name target := by
  simp only [Edge, mem_searchItems, CnameStep, searchItem_eq_edge]

theorem value_iff_holdsAddr :
    .value a ∈ searchItems (recordsByName records) network name ↔
      OfFamily network a ∧ HoldsAddr records name a := by
  simp only [mem_searchItems, HoldsAddr, searchItem_eq_value]
  constructor
  · rintro ⟨record, hrecord, hname, hfamily, hheld⟩
    exact ⟨hfamily, record, hrecord, hname, hheld⟩
  · rintro ⟨hfamily, record, hrecord, hname, hheld⟩
    exact ⟨record, hrecord, hname, hfamily, hheld⟩

/-- What `resolveDNSName` returns for a name, at any depth that is enough. -/
theorem exists_resolveDNSName (records : List DNSRecord) (network name : String) :
    ∃ found : List Addr × Finset String,
      (∀ depth, (cnameTargets (recordsByName records)).card + 1 < depth →
        resolveDNSName (recordsByName records) network depth name ∅ = some found) ∧
      ∀ a, a ∈ found.1 ↔ a ∈ Resolved records network name := by
  obtain ⟨found, hfound⟩ := exists_visit
    (closed_cnameTargets (recordsByName records) network name) (Finset.mem_insert_self _ _)
  have hcard := Finset.card_insert_le name (cnameTargets (recordsByName records))
  refine ⟨found, fun depth hdepth => ?_, fun a => ?_⟩
  · rw [resolveDNSName_eq_visit]
    exact hfound depth (hcard.trans_lt hdepth)
  · have hedge : Edge (searchItems (recordsByName records) network) = CnameStep records :=
      funext fun v => funext fun w => propext edge_iff_cnameStep
    rw [mem_visit (hfound _ (Nat.lt_succ_self _)), Reachable, hedge]
    simp only [value_iff_holdsAddr, Resolved, Set.mem_ofPred_eq]
    constructor
    · rintro ⟨w, hw, hfamily, hheld⟩
      exact ⟨hfamily, w, hw, hheld⟩
    · rintro ⟨hfamily, w, hw, hheld⟩
      exact ⟨w, hw, hfamily, hheld⟩

/-! ## Forward lookup -/

/-- The host, and a host without a dot in each search domain. -/
def searchForms (domains : Slice String) (host : String) : List String :=
  normalizeDNSName host ::
    if '.' ∈ host.toList then []
    else (Slice.list domains).map fun domain => normalizeDNSName (host ++ "." ++ domain)

/-- A host that ends in a dot has a dot, so the first test of `LookupNetIP` decides nothing. -/
theorem lookupNames_eq (view : DNSView) (host : String) :
    lookupNames view host = searchForms view.searchDomains host := by
  unfold lookupNames searchForms
  by_cases hdot : '.' ∈ host.toList
  · simp only [hdot, not_true_eq_false, and_false, if_false, if_true]
  · have habsolute : (host.toList.reverse.dropWhile isSpace).head? ≠ some '.' := by
      intro hhead
      have hmem := (dropWhile_sublist _).subset (mem_of_head? hhead)
      exact hdot (mem_reverse.mp hmem)
    simp only [habsolute, hdot, not_false_eq_true, and_self, if_true, if_false]

/-- The loop ends with the first name that has addresses. -/
theorem lookupLoop_spec (found : String → List Addr) (names : List String) :
    (∃ before name after, names = before ++ name :: after ∧ (∀ n ∈ before, found n = []) ∧
        found name ≠ [] ∧ lookupLoop (fun n => some (found n)) names = some (found name)) ∨
      (∀ n ∈ names, found n = []) ∧ lookupLoop (fun n => some (found n)) names = some [] := by
  induction names with
  | nil => exact .inr ⟨nofun, rfl⟩
  | cons name names ih =>
    rw [lookupLoop, Option.bind_some]
    by_cases hempty : found name = []
    · rw [hempty, isEmpty_nil, if_pos rfl]
      rcases ih with ⟨before, first, after, rfl, hbefore, hfirst, hloop⟩ | ⟨hall, hloop⟩
      · refine .inl ⟨name :: before, first, after, rfl, ?_, hfirst, hloop⟩
        exact forall_mem_cons.mpr ⟨hempty, hbefore⟩
      · exact .inr ⟨forall_mem_cons.mpr ⟨hempty, hall⟩, hloop⟩
    · rw [if_neg (fun h => hempty (isEmpty_iff.mp h))]
      exact .inl ⟨[], name, names, rfl, nofun, hempty, rfl⟩

/-- Sorted and compacted addresses are strictly ascending. -/
theorem pairwise_compact_sortBy (l : List Addr) :
    (compact (sortBy Addr.compare l)).Pairwise fun a b => a.compare b = .lt := by
  have hsorted := pairwise_sortBy Addr.compare l
  have hnodup := nodup_compact hsorted fun a _ b _ hab hba =>
    Std.LawfulEqCmp.eq_of_compare (Std.OrientedCmp.isLE_antisymm hab hba)
  refine ((hsorted.sublist (sublist_compact _)).and hnodup).imp fun {a b} ⟨hle, hne⟩ => ?_
  cases hcompare : a.compare b with
  | lt => rfl
  | eq => exact absurd (Std.LawfulEqCmp.eq_of_compare hcompare) hne
  | gt =>
    rw [hcompare] at hle
    cases hle

/-- The error of a lookup that finds nothing. -/
def notFound (host : String) : LookupError :=
  .dns { err := "no such MagicDNS host", name := host, isNotFound := true }

/-- What a forward lookup is to return when it tries some names in turn: the addresses that the
first name with any resolves to, or an error if there is none. -/
inductive ForwardLookup (records : List DNSRecord) (network host : String) (names : List String) :
    Except LookupError (List Addr) → Prop where
  | found {before name after addresses} (hnames : names = before ++ name :: after)
      (hbefore : ∀ n ∈ before, Resolved records network n = ∅)
      (hfirst : (Resolved records network name).Nonempty)
      (hascending : addresses.Pairwise fun a b => a.compare b = .lt)
      (hmem : ∀ a, a ∈ addresses ↔ a ∈ Resolved records network name) :
      ForwardLookup records network host names (.ok addresses)
  | missing (hnone : ∀ n ∈ names, Resolved records network n = ∅) :
      ForwardLookup records network host names (.error (notFound host))

/-- An error says that no name resolves. -/
theorem ForwardLookup.error_iff {names : List String} {result : Except LookupError (List Addr)}
    (h : ForwardLookup records network host names result) :
    result = .error (notFound host) ↔ ∀ n ∈ names, Resolved records network n = ∅ := by
  cases h with
  | @found before name after addresses hnames hbefore hfirst hascending hmem =>
    refine ⟨nofun, fun hnone => absurd (hnone name ?_) hfirst.ne_empty⟩
    rw [hnames]
    exact mem_append_right _ mem_cons_self
  | missing hnone => exact ⟨fun _ => hnone, fun _ => rfl⟩

/-- `LookupNetIP` returns the same at every depth that is enough. -/
theorem exists_lookupNetIP (view : DNSView) (network host : String)
    (hnetwork : network ∈ ["", "ip", "ip4", "ip6"]) :
    ∃ result, (∀ depth, (cnameTargets (recordsByName view.records)).card + 1 < depth →
        lookupNetIP none view network host depth = some result) ∧
      ForwardLookup view.records network host (searchForms view.searchDomains host) result := by
  choose found hfound hmem using exists_resolveDNSName view.records network
  have hnil (name : String) : (found name).1 = [] ↔ Resolved view.records network name = ∅ := by
    rw [eq_nil_iff_forall_not_mem, Set.eq_empty_iff_forall_notMem]
    exact forall_congr' fun a => not_congr (hmem name a)
  have hlookup depth (hdepth : (cnameTargets (recordsByName view.records)).card + 1 < depth) :
      lookupNetIP none view network host depth =
        (lookupLoop (fun n => some (found n).1) (searchForms view.searchDomains host)).map fun l =>
          if (compact (sortBy Addr.compare l)).isEmpty then .error (notFound host)
          else .ok (compact (sortBy Addr.compare l)) := by
    simp only [lookupNetIP, hnetwork, not_true_eq_false, if_false, hfound _ depth hdepth,
      lookupNames_eq, Option.map_some]
    rfl
  rcases lookupLoop_spec (fun n => (found n).1) (searchForms view.searchDomains host) with
    ⟨before, name, after, hnames, hbefore, hfirst, hloop⟩ | ⟨hall, hloop⟩
  · refine ⟨.ok (compact (sortBy Addr.compare (found name).1)), fun depth hdepth => ?_, ?_⟩
    · have hne : (compact (sortBy Addr.compare (found name).1)).isEmpty = false := by
        refine isEmpty_eq_false_iff.mpr fun hempty => hfirst ?_
        refine eq_nil_iff_forall_not_mem.mpr fun a ha => ?_
        have hcompact := mem_compact.mpr ((mem_sortBy Addr.compare).mpr ha)
        rw [hempty] at hcompact
        cases hcompact
      rw [hlookup depth hdepth, hloop, Option.map_some, hne]
      rfl
    · refine .found hnames (fun n hn => (hnil n).mp (hbefore n hn)) ?_
        (pairwise_compact_sortBy _) fun a => ?_
      · exact Set.nonempty_iff_ne_empty.mpr fun h => hfirst ((hnil name).mpr h)
      · rw [mem_compact, mem_sortBy, hmem]
  · refine ⟨.error (notFound host), fun depth hdepth => ?_, ?_⟩
    · rw [hlookup depth hdepth, hloop]
      rfl
    · exact .missing fun n hn => (hnil n).mp (hall n hn)

/-- Forward lookup is CNAME reachability. `resolveDNSName` ends on every name with every set of
visited names, and `LookupNetIP` returns, for the first form of the host that resolves to an
address at all, the strictly ascending list of what it resolves to, or else that there is none. -/
theorem lookupNetIP_reachable (view : DNSView) (network host : String)
    (hnetwork : network ∈ ["", "ip", "ip4", "ip6"]) :
    ∃ bound,
      (∀ depth, bound < depth → ∀ name seen,
        (resolveDNSName (recordsByName view.records) network depth name seen).isSome = true) ∧
      ∃ result, (∀ depth, bound < depth → lookupNetIP none view network host depth = some result) ∧
        ForwardLookup view.records network host (searchForms view.searchDomains host) result ∧
        (result = .error (notFound host) ↔
          ∀ name ∈ searchForms view.searchDomains host,
            Resolved view.records network name = ∅) := by
  obtain ⟨result, hlookup, hforward⟩ := exists_lookupNetIP view network host hnetwork
  exact ⟨_, fun depth hdepth => isSome_resolveDNSName hdepth, result, hlookup, hforward,
    hforward.error_iff⟩

/-- Two names that are each other's CNAME records, of which one has an address. -/
def cyclicView : DNSView where
  records :=
    [⟨"a.example.", "CNAME", "b.example."⟩, ⟨"b.example", "cname", "A.example"⟩,
      ⟨"b.example", "A", "::ffff:100.64.0.1"⟩]
  searchDomains := some ["example"]
  revision := 1

/-- The cycle is walked once, from the host `a` in its search domain. -/
theorem lookupNetIP_cyclic :
    lookupNetIP none cyclicView "ip4" "a" 4 = some (.ok [.v4 0x64400001#32]) ∧
      ∃ bound,
        (∀ depth, bound < depth → ∀ name seen,
          (resolveDNSName (recordsByName cyclicView.records) "ip4" depth name seen).isSome = true) ∧
        ∃ result,
          (∀ depth, bound < depth → lookupNetIP none cyclicView "ip4" "a" depth = some result) ∧
          ForwardLookup cyclicView.records "ip4" "a"
            (searchForms cyclicView.searchDomains "a") result ∧
          (result = .error (notFound "a") ↔
            ∀ name ∈ searchForms cyclicView.searchDomains "a",
              Resolved cyclicView.records "ip4" name = ∅) :=
  ⟨by decide +kernel, lookupNetIP_reachable cyclicView "ip4" "a" (by decide)⟩

end

end WgoTailscale
