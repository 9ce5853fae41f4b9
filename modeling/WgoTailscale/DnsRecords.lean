import WgoTailscale.Lookup

/-!
# The records of the DNS view (`views.go`, `dns.go`)

`dnsViewLocked` makes the records of a view from the extra records that control sends and from the
addresses of the nodes. `Client.Alias` and `Client.Owns` say what that data means: which name is
another name of which, and which address a name has. The view resolves every name to what the data
says (`resolved_records`).

A record of the view has the type of its address unless it comes from an extra record without a type
that holds an IPv6 address (`records_typed_iff`, `untyped_ipv6_record`). Reverse lookup reads the
values of records of every type. So the names it returns lead back to the address exactly if every
extra record of a type that forward lookup skips repeats what forward lookup finds
(`lookups_agree_iff`, `text_record_disagrees`).
-/

namespace WgoTailscale

open GoText

/-! ## Where records come from -/

section
variable {c : Client} {view : DNSView} {record extra : DNSRecord} {name : String} {a : Addr}

namespace Client

/-- The client may return the view: `dnsViewLocked` visits the peers in some order, and its sort may
leave ties in any order. -/
def MayDNSView (c : Client) (view : DNSView) : Prop :=
  ∃ order sorted, c.peers.Listing order ∧ SortsTo compareRecords (c.dnsRecords order) sorted ∧
    view = { c.dnsView [] with records := compact sorted }

/-- The node is the client's own or a peer's. -/
def HasNode (c : Client) (node : Node) : Prop :=
  c.self = some node ∨ ∃ id, c.peers.get id = some node

/-- Control sent the extra record. -/
def HasExtra (c : Client) (extra : DNSRecord) : Prop :=
  ∃ dns, c.dns = some dns ∧ extra ∈ Slice.list dns.extraRecords

/-- The search domains that control sent. -/
def searchDomains (c : Client) : Slice String := c.dns.bind DNSConfig.domains

/-- The view has the record. -/
inductive Gives (c : Client) : DNSRecord → Prop where
  | extra {e : DNSRecord} (hextra : c.HasExtra e) : Gives c (extraRecord e)
  | node {node : Node} {record : DNSRecord} (hnode : c.HasNode node)
      (hrecord : record ∈ nodeRecords node) : Gives c record

theorem mem_dnsRecords {order : List Int} (h : c.peers.Listing order) :
    record ∈ c.dnsRecords order ↔ c.Gives record := by
  have hpeers (node : Node) : (∃ id ∈ order, c.peers.get id = some node) ↔
      ∃ id, c.peers.get id = some node :=
    exists_congr fun id => and_iff_right_of_imp fun hget => h.mem_iff.mpr (FinMap.mem_of_get hget)
  simp only [dnsRecords, List.mem_append, List.mem_flatMap, List.mem_filterMap, hpeers]
  constructor
  · rintro ((hextra | hself) | ⟨node, hnode, hrecord⟩)
    · cases hdns : c.dns with
      | none => rw [hdns] at hextra; cases hextra
      | some dns =>
        rw [hdns] at hextra
        obtain ⟨extra, hmem, rfl⟩ := List.mem_map.mp hextra
        exact .extra ⟨dns, hdns, hmem⟩
    · cases hnode : c.self with
      | none => rw [hnode] at hself; cases hself
      | some node =>
        rw [hnode] at hself
        exact .node (.inl hnode) hself
    · exact .node (.inr hnode) hrecord
  · rintro (⟨dns, hdns, hmem⟩ | ⟨hnode | hnode, hrecord⟩)
    · refine .inl (.inl ?_)
      rw [hdns]
      exact List.mem_map_of_mem hmem
    · refine .inl (.inr ?_)
      rw [hnode]
      exact hrecord
    · exact .inr ⟨_, hnode, hrecord⟩

theorem MayDNSView.mem_records (h : c.MayDNSView view) :
    record ∈ view.records ↔ c.Gives record := by
  obtain ⟨order, sorted, horder, hsorted, rfl⟩ := h
  rw [mem_compact, hsorted.perm.mem_iff, mem_dnsRecords horder]

theorem MayDNSView.searchDomains_eq (h : c.MayDNSView view) :
    view.searchDomains = c.searchDomains := by
  obtain ⟨order, sorted, -, -, rfl⟩ := h
  unfold dnsView searchDomains
  cases c.dns <;> rfl

/-- There is a view to return. -/
theorem exists_mayDNSView (c : Client) : ∃ view, c.MayDNSView view := by
  obtain ⟨order, horder⟩ := c.peers.exists_listing
  exact ⟨_, order, _, horder, sortsTo_sortBy _, rfl⟩

end Client

/-! ## Values -/

/-- The types of extra records that hold addresses. -/
def addressTypes : List String := ["", "A", "AAAA"]

theorem mem_addressTypes {s : String} (h : s = "A" ∨ s = "AAAA") : s ∈ addressTypes :=
  List.mem_cons_of_mem _ (by simpa using h)

/-- The record of an extra record that holds an address. -/
theorem extraRecord_of_address (htype : toUpper extra.type ∈ addressTypes)
    (hparse : parseAddr extra.value = some a) :
    extraRecord extra =
      { name := extra.name
        type := if toUpper extra.type = "" ∨ a.unmap.is4 then "A" else "AAAA"
        value := a.unmap.toText } := by
  unfold extraRecord
  rw [hparse]
  dsimp only
  rw [if_pos (by simpa [addressTypes] using htype)]

/-- Any other extra record keeps its value. -/
theorem extraRecord_of_other
    (h : toUpper extra.type ∉ addressTypes ∨ parseAddr extra.value = none) :
    extraRecord extra = { extra with type := toUpper extra.type } := by
  unfold extraRecord
  cases hparse : parseAddr extra.value with
  | none => rfl
  | some a =>
    have hother : toUpper extra.type ∉ addressTypes := h.resolve_right (by simp [hparse])
    dsimp only
    rw [if_neg (by simpa [addressTypes] using hother)]

theorem extraRecord_cases (extra : DNSRecord) :
    (∃ a, toUpper extra.type ∈ addressTypes ∧ parseAddr extra.value = some a ∧
      extraRecord extra =
        { name := extra.name
          type := if toUpper extra.type = "" ∨ a.unmap.is4 then "A" else "AAAA"
          value := a.unmap.toText }) ∨
    (toUpper extra.type ∉ addressTypes ∨ parseAddr extra.value = none) ∧
      extraRecord extra = { extra with type := toUpper extra.type } := by
  by_cases htype : toUpper extra.type ∈ addressTypes
  · cases hparse : parseAddr extra.value with
    | none => exact .inr ⟨.inr rfl, extraRecord_of_other (.inr hparse)⟩
    | some a => exact .inl ⟨a, htype, rfl, extraRecord_of_address htype hparse⟩
  · exact .inr ⟨.inl htype, extraRecord_of_other (.inl htype)⟩

theorem mem_nodeRecords {node : Node} : record ∈ nodeRecords node ↔
    node.name ≠ "" ∧ ∃ p ∈ Slice.list node.addresses, record =
      { name := node.name, type := if p.addr.unmap.is6 then "AAAA" else "A"
        value := p.addr.unmap.toText } := by
  unfold nodeRecords
  split
  · next hname => simp [hname]
  · next hname =>
    simp only [List.mem_map, ne_eq, hname, not_false_eq_true, true_and]
    exact exists_congr fun p => and_congr_right fun _ => eq_comm

/-! ## Types -/

/-- An address record has the type of its address. -/
def TypedRight (record : DNSRecord) : Prop :=
  record.type = "A" ∨ record.type = "AAAA" → ∀ a, parseAddr record.value = some a →
    (record.type = "A" ↔ a.unmap.is4 = true) ∧ (record.type = "AAAA" ↔ a.unmap.is6 = true)

theorem Addr.is6_iff_not_is4 (h : a.isValid = true) : a.is6 = true ↔ ¬ a.is4 = true := by
  cases a with
  | invalid => cases h
  | v4 b => exact ⟨nofun, fun h => absurd rfl h⟩
  | v6 b z => exact ⟨fun _ => Bool.false_ne_true, fun _ => rfl⟩

/-- A record that holds the text of an unmapped address. -/
theorem typedRight_of_text {record : DNSRecord} (hvalue : record.value = a.unmap.toText)
    (htype : record.type = if a.unmap.is6 then "AAAA" else "A") : TypedRight record := by
  intro _ b hparse
  rw [hvalue] at hparse
  obtain ⟨hvalid, rfl⟩ := parseAddr_toText_iff.mp hparse
  have hfamily := Addr.is6_iff_not_is4 hvalid
  rw [htype, Addr.unmap_unmap]
  cases h6 : a.unmap.is6 <;> cases h4 : a.unmap.is4 <;> simp_all

/-- The record of an extra record has the type of its address, unless the extra record has no type
and holds an IPv6 address. -/
theorem typedRight_extraRecord : TypedRight (extraRecord extra) ↔
    (extra.type = "" → ∀ a, parseAddr extra.value = some a → a.unmap.is4 = true) := by
  by_cases htype : toUpper extra.type ∈ addressTypes
  · cases hparse : parseAddr extra.value with
    | none =>
      rw [extraRecord_of_other (.inr hparse)]
      refine ⟨fun _ _ a h => (by cases h), fun _ _ a h => ?_⟩
      rw [hparse] at h
      cases h
    | some a =>
      have hvalid := Addr.isValid_unmap (isValid_of_parseAddr hparse)
      have hfamily := Addr.is6_iff_not_is4 hvalid
      rw [extraRecord_of_address htype hparse]
      by_cases huntyped : extra.type = ""
      · rw [if_pos (.inl (toUpper_eq_empty.mpr huntyped))]
        constructor
        · intro htyped _ b hb
          cases hb
          have h4 := (htyped (.inl rfl) a.unmap (parseAddr_toText hvalid)).1.mp rfl
          rwa [Addr.unmap_unmap] at h4
        · intro h
          have h6 : ¬ a.unmap.is6 = true := fun h6 => hfamily.mp h6 (h huntyped a rfl)
          exact typedRight_of_text rfl (if_neg h6).symm
      · refine ⟨fun _ h => absurd h huntyped, fun _ => typedRight_of_text rfl ?_⟩
        have hupper : toUpper extra.type ≠ "" :=
          fun h => huntyped (toUpper_eq_empty.mp h)
        simp only [hupper, false_or, hfamily, ite_not]
  · rw [extraRecord_of_other (.inl htype)]
    constructor
    · intro _ huntyped
      refine absurd ?_ htype
      rw [toUpper_eq_empty.mpr huntyped]
      exact List.mem_cons_self
    · exact fun _ haddress => absurd (mem_addressTypes haddress) htype

namespace Client

/-- All records have the type of their address exactly if no extra record without a type holds an
IPv6 address. -/
theorem records_typed_iff (c : Client) :
    (∀ view, c.MayDNSView view → ∀ record ∈ view.records, TypedRight record) ↔
      ∀ dns, c.dns = some dns → ∀ extra ∈ Slice.list dns.extraRecords, extra.type = "" →
        ∀ a, parseAddr extra.value = some a → a.unmap.is4 = true := by
  constructor
  · intro hall dns hdns extra hextra
    obtain ⟨view, hview⟩ := c.exists_mayDNSView
    exact typedRight_extraRecord.mp (hall view hview _
      (hview.mem_records.mpr (.extra ⟨dns, hdns, hextra⟩)))
  · intro hextras view hview record hrecord
    rcases hview.mem_records.mp hrecord with ⟨dns, hdns, hextra⟩ | ⟨-, hnode⟩
    · exact typedRight_extraRecord.mpr (hextras dns hdns _ hextra)
    · obtain ⟨-, p, -, rfl⟩ := mem_nodeRecords.mp hnode
      exact typedRight_of_text rfl rfl

/-- A client to which control sent one extra record. -/
def withExtra (extra : DNSRecord) : Client :=
  { sampleClient.shared.client with dns := some { extraRecords := some [extra] } }

/-- An extra record without a type that holds an IPv6 address becomes an A record. -/
theorem untyped_ipv6_record :
    ∃ view, (withExtra ⟨"host.example", "", "2001:db8::1"⟩).MayDNSView view ∧
      ∃ record ∈ view.records, record.type = "A" ∧
        ∃ a, parseAddr record.value = some a ∧ a.unmap.is6 = true := by
  obtain ⟨view, hview⟩ := (withExtra ⟨"host.example", "", "2001:db8::1"⟩).exists_mayDNSView
  refine ⟨view, hview, ⟨"host.example", "A", "2001:db8::1"⟩, ?_, rfl, ?_⟩
  · have hextra : (withExtra ⟨"host.example", "", "2001:db8::1"⟩).HasExtra
        ⟨"host.example", "", "2001:db8::1"⟩ := ⟨_, rfl, List.mem_cons_self⟩
    have hrecord : extraRecord ⟨"host.example", "", "2001:db8::1"⟩ =
        ⟨"host.example", "A", "2001:db8::1"⟩ := by decide +kernel
    rw [hview.mem_records, ← hrecord]
    exact .extra hextra
  · exact ⟨.v6 0x20010db8000000000000000000000001#128 "", by decide +kernel⟩

end Client

/-! ## What the data says -/

namespace Client

/-- Control says that one name stands for another. -/
def Alias (c : Client) (name target : String) : Prop :=
  ∃ extra, c.HasExtra extra ∧ normalizeDNSName extra.name = name ∧
    toUpper extra.type = "CNAME" ∧ normalizeDNSName extra.value = target

/-- The name has the address, by an extra record or as the name of a node. -/
def Owns (c : Client) (name : String) (a : Addr) : Prop :=
  (∃ extra, c.HasExtra extra ∧ normalizeDNSName extra.name = name ∧
    toUpper extra.type ∈ addressTypes ∧
    ∃ value, parseAddr extra.value = some value ∧ value.unmap = a) ∨
  ∃ node, c.HasNode node ∧ node.name ≠ "" ∧ normalizeDNSName node.name = name ∧
    ∃ p ∈ Slice.list node.addresses, p.addr.unmap = a ∧ a.isValid = true

/-- The addresses that a name leads to. -/
def addressesOf (c : Client) (name : String) : Set Addr :=
  { a | ∃ target, Relation.ReflTransGen c.Alias name target ∧ c.Owns target a }

end Client

/-- The types that records with addresses get are those that forward lookup reads. -/
theorem toUpper_ite {p : Prop} [Decidable p] {s t : String} (hs : s = "A" ∨ s = "AAAA")
    (ht : t = "A" ∨ t = "AAAA") :
    toUpper (if p then s else t) = "A" ∨ toUpper (if p then s else t) = "AAAA" := by
  split
  · rcases hs with rfl | rfl <;> decide
  · rcases ht with rfl | rfl <;> decide

namespace Client

/-- The CNAME records of the view are those of control. -/
theorem MayDNSView.cnameStep_iff (h : c.MayDNSView view) {target : String} :
    CnameStep view.records name target ↔ c.Alias name target := by
  constructor
  · rintro ⟨record, hrecord, hname, htype, hvalue⟩
    have hnot : ¬ (toUpper record.type = "A" ∨ toUpper record.type = "AAAA") := by
      rw [htype]
      decide
    rcases h.mem_records.mp hrecord with ⟨hextra⟩ | ⟨-, hnode⟩
    · next extra =>
      rcases extraRecord_cases extra with ⟨a, -, -, heq⟩ | ⟨-, heq⟩
      · rw [heq] at hnot
        exact absurd (toUpper_ite (.inl rfl) (.inr rfl)) hnot
      · rw [heq] at hname htype hvalue
        exact ⟨extra, hextra, hname, (toUpper_toUpper _).symm.trans htype, hvalue⟩
    · obtain ⟨-, p, -, rfl⟩ := mem_nodeRecords.mp hnode
      exact absurd (toUpper_ite (.inr rfl) (.inl rfl)) hnot
  · rintro ⟨extra, hextra, hname, htype, hvalue⟩
    have hother : toUpper extra.type ∉ addressTypes := by
      rw [htype]
      decide
    have hrecord := h.mem_records.mpr (.extra hextra)
    rw [extraRecord_of_other (.inl hother)] at hrecord
    exact ⟨_, hrecord, hname, (toUpper_toUpper _).trans htype, hvalue⟩

/-- The address records of the view hold the addresses of control's data. -/
theorem MayDNSView.holdsAddr_iff (h : c.MayDNSView view) :
    HoldsAddr view.records name a ↔ c.Owns name a := by
  constructor
  · rintro ⟨record, hrecord, hname, htype, value, hparse, rfl⟩
    rcases h.mem_records.mp hrecord with ⟨hextra⟩ | ⟨hnode, hmem⟩
    · next extra =>
      rcases extraRecord_cases extra with ⟨b, htypes, hb, heq⟩ | ⟨hother, heq⟩
      · rw [heq] at hname hparse
        obtain ⟨-, rfl⟩ := parseAddr_toText_iff.mp hparse
        exact .inl ⟨extra, hextra, hname, htypes, b, hb, (Addr.unmap_unmap b).symm⟩
      · rw [heq] at htype hparse
        have hupper := mem_addressTypes htype
        rw [toUpper_toUpper] at hupper
        rw [hother.resolve_left (not_not_intro hupper)] at hparse
        cases hparse
    · obtain ⟨hne, p, hp, rfl⟩ := mem_nodeRecords.mp hmem
      obtain ⟨hvalid, rfl⟩ := parseAddr_toText_iff.mp hparse
      rw [Addr.unmap_unmap]
      exact .inr ⟨_, hnode, hne, hname, p, hp, rfl, hvalid⟩
  · rintro (⟨extra, hextra, hname, htypes, b, hb, rfl⟩ |
      ⟨node, hnode, hne, hname, p, hp, rfl, hvalid⟩)
    · have hrecord := h.mem_records.mpr (.extra hextra)
      rw [extraRecord_of_address htypes hb] at hrecord
      have hvalid := Addr.isValid_unmap (isValid_of_parseAddr hb)
      exact ⟨_, hrecord, hname, toUpper_ite (.inl rfl) (.inr rfl), b.unmap, parseAddr_toText hvalid,
        Addr.unmap_unmap b⟩
    · have hrecord := h.mem_records.mpr (.node hnode (mem_nodeRecords.mpr ⟨hne, p, hp, rfl⟩))
      exact ⟨_, hrecord, hname, toUpper_ite (.inr rfl) (.inl rfl), p.addr.unmap,
        parseAddr_toText hvalid, Addr.unmap_unmap p.addr⟩

/-- The view resolves every name to the addresses it leads to. -/
theorem MayDNSView.resolved_records (h : c.MayDNSView view) :
    Resolved view.records "ip" = c.addressesOf := by
  have hstep : CnameStep view.records = c.Alias :=
    funext fun name => funext fun target => propext h.cnameStep_iff
  have hfamily (a : Addr) : OfFamily "ip" a :=
    ⟨fun h => absurd h (by decide), fun h => absurd h (by decide)⟩
  ext name a
  simp only [Resolved, addressesOf, Set.mem_ofPred_eq, hfamily, true_and, hstep, h.holdsAddr_iff]

end Client

/-! ## Reverse lookup -/

/-- The address is one of those of the first name that has any. -/
def FirstOf (addresses : String → Set Addr) (a : Addr) : List String → Prop
  | [] => False
  | name :: names => a ∈ addresses name ∨ addresses name = ∅ ∧ FirstOf addresses a names

theorem firstOf_append {addresses : String → Set Addr} {before after : List String}
    (hbefore : ∀ n ∈ before, addresses n = ∅) (hname : (addresses name).Nonempty) :
    FirstOf addresses a (before ++ name :: after) ↔ a ∈ addresses name := by
  induction before with
  | nil =>
    refine ⟨fun h => h.elim id fun h => absurd h.1 hname.ne_empty, .inl⟩
  | cons n before ih =>
    obtain ⟨hn, hbefore⟩ := List.forall_mem_cons.mp hbefore
    rw [List.cons_append, FirstOf, hn, ih hbefore]
    simp only [Set.mem_empty_iff_false, false_or, true_and]

theorem not_firstOf {addresses : String → Set Addr} {names : List String}
    (h : ∀ n ∈ names, addresses n = ∅) : ¬ FirstOf addresses a names := by
  induction names with
  | nil => exact id
  | cons n names ih =>
    obtain ⟨hn, hnames⟩ := List.forall_mem_cons.mp h
    rw [FirstOf, hn]
    simp only [Set.mem_empty_iff_false, false_or, true_and]
    exact ih hnames

/-- Forward lookup finds the addresses of the first name that has any. -/
theorem ForwardLookup.mem_iff {records : List DNSRecord} {network host : String}
    {names : List String} {result : Except LookupError (List Addr)}
    (h : ForwardLookup records network host names result) :
    (∃ found, result = .ok found ∧ a ∈ found) ↔ FirstOf (Resolved records network) a names := by
  cases h with
  | @found before name after addresses hnames hbefore hfirst hascending hmem =>
    rw [hnames, firstOf_append hbefore hfirst, ← hmem]
    simp only [Except.ok.injEq, exists_eq_left']
  | missing hnone =>
    refine ⟨nofun, fun h => absurd h (not_firstOf hnone)⟩

/-- The names that reverse lookup returns. -/
theorem mem_lookupAddr {address : String} {want : Addr} (hparse : parseAddr address = some want) :
    (∃ names, lookupAddr none view address = .ok names ∧ name ∈ names) ↔
      ∃ record ∈ view.records, record.name = name ∧
        ∃ value, parseAddr record.value = some value ∧ value.unmap = want.unmap := by
  have hmem : name ∈ compact (sortBy compare ((view.records.filter fun record =>
        (parseAddr record.value).any fun value => value.unmap = want.unmap).map (·.name))) ↔
      ∃ record ∈ view.records, record.name = name ∧
        ∃ value, parseAddr record.value = some value ∧ value.unmap = want.unmap := by
    simp only [mem_compact, mem_sortBy, List.mem_map, List.mem_filter, Option.any_eq_true,
      decide_eq_true_eq]
    constructor
    · rintro ⟨record, ⟨hrecord, hvalue⟩, hname⟩
      exact ⟨record, hrecord, hname, hvalue⟩
    · rintro ⟨record, hrecord, hname, hvalue⟩
      exact ⟨record, ⟨hrecord, hvalue⟩, hname⟩
  rw [← hmem, lookupAddr]
  rw [hparse]
  dsimp only
  generalize (compact _ : List String) = result
  cases result with
  | nil =>
    constructor
    · rintro ⟨_, h, -⟩
      cases h
    · exact fun hin => absurd hin List.not_mem_nil
  | cons n ns =>
    constructor
    · rintro ⟨names, hok, hin⟩
      obtain rfl := Except.ok.inj hok
      exact hin
    · exact fun hin => ⟨_, rfl, hin⟩

/-- Every name that reverse lookup returns for an address leads forward lookup to the address. -/
def LookupsAgree (view : DNSView) : Prop :=
  ∀ address a, parseAddr address = some a →
    ∀ names, lookupAddr none view address = .ok names → ∀ name ∈ names,
      ∃ bound found, (∀ depth, bound < depth →
        lookupNetIP none view "ip" name depth = some (.ok found)) ∧ a.unmap ∈ found

/-- Forward lookup of a name finds the address. -/
theorem lookupNetIP_finds_iff (view : DNSView) (name : String) (a : Addr) :
    (∃ bound found, (∀ depth, bound < depth →
        lookupNetIP none view "ip" name depth = some (.ok found)) ∧ a ∈ found) ↔
      FirstOf (Resolved view.records "ip") a (searchForms view.searchDomains name) := by
  obtain ⟨result, hlookup, hforward⟩ :=
    exists_lookupNetIP view "ip" name (by decide)
  rw [← hforward.mem_iff]
  constructor
  · rintro ⟨bound, found, hfound, ha⟩
    refine ⟨found, ?_, ha⟩
    have henough := hlookup (max bound _ + 1) (Nat.lt_succ_of_le (le_max_right _ _))
    rw [hfound _ (Nat.lt_succ_of_le (le_max_left _ _))] at henough
    exact (Option.some.inj henough).symm
  · rintro ⟨found, rfl, ha⟩
    exact ⟨_, found, hlookup, ha⟩

namespace Client

/-- Reverse and forward lookup agree exactly if every extra record of a type that forward lookup
does not read, but with an address as its value, has a name that leads to that address anyway. -/
theorem lookups_agree_iff (c : Client) :
    (∀ view, c.MayDNSView view → LookupsAgree view) ↔
      ∀ dns, c.dns = some dns → ∀ extra ∈ Slice.list dns.extraRecords,
        toUpper extra.type ∉ addressTypes → ∀ a, parseAddr extra.value = some a →
          FirstOf c.addressesOf a.unmap (searchForms dns.domains extra.name) := by
  have hfinds {view : DNSView} (hview : c.MayDNSView view) (name : String) (a : Addr) :=
    (lookupNetIP_finds_iff view name a).trans
      (iff_of_eq (by rw [hview.resolved_records, hview.searchDomains_eq]))
  constructor
  · intro hagree dns hdns extra hextra hother a hparse
    obtain ⟨view, hview⟩ := c.exists_mayDNSView
    have hrecord := hview.mem_records.mpr (.extra ⟨dns, hdns, hextra⟩)
    rw [extraRecord_of_other (.inl hother)] at hrecord
    obtain ⟨names, hnames, hname⟩ :=
      (mem_lookupAddr hparse).mpr ⟨_, hrecord, rfl, a, hparse, rfl⟩
    have hfound := (hfinds hview _ _).mp (hagree view hview _ a hparse names hnames _ hname)
    rwa [searchDomains, hdns, Option.bind_some] at hfound
  · intro hextras view hview address a hparse names hnames name hname
    obtain ⟨record, hrecord, rfl, value, hvalue, hunmap⟩ :=
      (mem_lookupAddr hparse).mp ⟨names, hnames, hname⟩
    rw [← hunmap]
    refine (hfinds hview _ _).mpr ?_
    -- Records that forward lookup reads are found at their own name.
    have hread (htype : toUpper record.type = "A" ∨ toUpper record.type = "AAAA") :
        FirstOf c.addressesOf value.unmap (searchForms c.searchDomains record.name) :=
      .inl ⟨_, .refl, hview.holdsAddr_iff.mp ⟨record, hrecord, rfl, htype, value, hvalue, rfl⟩⟩
    rcases hview.mem_records.mp hrecord with ⟨dns, hdns, hextra⟩ | ⟨-, hnode⟩
    · next extra =>
      rcases extraRecord_cases extra with ⟨b, -, -, heq⟩ | ⟨hother, heq⟩
      · refine hread ?_
        rw [heq]
        exact toUpper_ite (.inl rfl) (.inr rfl)
      · rw [heq] at hvalue ⊢
        have hskipped := hother.resolve_right (by rw [hvalue]; nofun)
        have hfound := hextras dns hdns extra hextra hskipped value hvalue
        rwa [searchDomains, hdns, Option.bind_some]
    · obtain ⟨-, p, -, rfl⟩ := mem_nodeRecords.mp hnode
      exact hread (toUpper_ite (.inr rfl) (.inl rfl))

/-- Reverse lookup returns the name of a TXT record whose text is an address, and forward lookup
does not know the name. -/
theorem text_record_disagrees :
    ∃ view, (withExtra ⟨"host.example", "TXT", "192.0.2.1"⟩).MayDNSView view ∧
      lookupAddr none view "192.0.2.1" = .ok ["host.example"] ∧
      lookupNetIP none view "ip" "host.example" 2 = some (.error (notFound "host.example")) := by
  have hrecords : (withExtra ⟨"host.example", "TXT", "192.0.2.1"⟩).dnsRecords [] =
      [⟨"host.example", "TXT", "192.0.2.1"⟩] := by decide +kernel
  refine ⟨_, ⟨[], [⟨"host.example", "TXT", "192.0.2.1"⟩], rfl,
    ⟨?_, List.pairwise_singleton _ _⟩, rfl⟩, ?_, ?_⟩
  · rw [hrecords]
  · decide +kernel
  · decide +kernel

end Client

end

end WgoTailscale
