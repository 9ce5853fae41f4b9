import WgoTailscale.Device
import WgoTailscale.Endpoints

/-!
# The advertised endpoints

`endpointsLocked` sorts the local endpoints and those learned by STUN by address and then by type,
and keeps the first of each address. So the list has every address of the two sources once, in
ascending order, with the least type it has in them (`advertises_endpointsFrom`).
`advertised_endpoints` adds that the client and the bind choose the same first endpoint of a peer.
-/

namespace WgoTailscale

open List

/-! ## Sorting and compacting -/

instance : Std.TransCmp fun a c : EndpointCandidate => a.addr.compare c.addr where
  eq_swap := (inferInstance : Std.OrientedCmp AddrPort.compare).eq_swap
  isLE_trans := (inferInstance : Std.TransCmp AddrPort.compare).isLE_trans

instance : Std.TransCmp Bind.compareCandidates :=
  inferInstanceAs (Std.TransCmp (compareLex (fun a c : EndpointCandidate => a.addr.compare c.addr)
    (compareOn fun a => a.type.toNat)))

section
variable {a c e : EndpointCandidate} {l : List EndpointCandidate}

theorem isLE_addr (h : (Bind.compareCandidates a c).isLE = true) :
    (a.addr.compare c.addr).isLE = true := by
  rcases Ordering.isLE_then_iff_or.mp h with hlt | ⟨heq, -⟩
  · simp [hlt]
  · simp [heq]

/-- Among candidates of one address the type decides. -/
theorem toNat_le_of_isLE (h : (Bind.compareCandidates a c).isLE = true) (haddr : a.addr = c.addr) :
    a.type.toNat ≤ c.type.toNat := by
  rcases Ordering.isLE_then_iff_and.mp h with ⟨-, hlt | htype⟩
  · rw [haddr, show c.addr.compare c.addr = .eq from Std.ReflCmp.compare_self] at hlt
    cases hlt
  · exact Nat.isLE_compare.mp htype

theorem mem_of_mem_compactFrom (h : e ∈ Bind.compactFrom a l) : e ∈ a :: l := by
  induction l generalizing a with
  | nil => exact h
  | cons c l ih =>
    rw [Bind.compactFrom] at h
    split at h
    · rcases mem_cons.mp (ih h) with rfl | hl
      · exact mem_cons_self
      · exact mem_cons_of_mem _ (mem_cons_of_mem _ hl)
    · rcases mem_cons.mp h with rfl | hl
      · exact mem_cons_self
      · exact mem_cons_of_mem _ (ih hl)

/-- Compacting a sorted list leaves the addresses in strictly ascending order. -/
theorem ascending_compactFrom
    (h : (a :: l).Pairwise fun a c => (Bind.compareCandidates a c).isLE = true) :
    (Bind.compactFrom a l).Pairwise fun a c => a.addr.compare c.addr = .lt := by
  induction l generalizing a with
  | nil => exact pairwise_singleton _ _
  | cons c l ih =>
    obtain ⟨hle, htail⟩ := pairwise_cons.mp h
    rw [Bind.compactFrom]
    split
    · exact ih (h.sublist ((sublist_cons_self c l).cons_cons a))
    · next hne =>
      have hfirst : a.addr.compare c.addr = .lt := by
        have hle := Ordering.isLE_iff_eq_lt_or_eq_eq.mp (isLE_addr (hle c mem_cons_self))
        exact hle.resolve_right fun heq => hne (Std.LawfulEqCmp.eq_of_compare heq)
      refine pairwise_cons.mpr ⟨fun e he => ?_, ih htail⟩
      rcases mem_cons.mp (mem_of_mem_compactFrom he) with rfl | hl
      · exact hfirst
      · exact Std.TransCmp.lt_of_lt_of_isLE hfirst
          (isLE_addr ((pairwise_cons.mp htail).1 e hl))

/-- What compacting drops has the address of an element that is kept and is not greater. -/
theorem exists_mem_compactFrom
    (h : (a :: l).Pairwise fun a c => (Bind.compareCandidates a c).isLE = true)
    (hc : c ∈ a :: l) : ∃ e ∈ Bind.compactFrom a l, e.addr = c.addr ∧
      (Bind.compareCandidates e c).isLE = true := by
  induction l generalizing a c with
  | nil =>
    rw [mem_singleton.mp hc]
    exact ⟨a, mem_singleton_self a, rfl, Std.ReflCmp.isLE_rfl⟩
  | cons c' l ih =>
    obtain ⟨hle, htail⟩ := pairwise_cons.mp h
    rw [Bind.compactFrom]
    split
    · next heq =>
      have hskip := h.sublist ((sublist_cons_self c' l).cons_cons a)
      rcases mem_cons.mp hc with rfl | hc
      · exact ih hskip mem_cons_self
      rcases mem_cons.mp hc with rfl | hc
      · -- the one kept before it is not greater
        obtain ⟨e, he, haddr, hfirst⟩ := ih hskip mem_cons_self
        exact ⟨e, he, haddr.trans heq, Std.TransCmp.isLE_trans hfirst (hle c mem_cons_self)⟩
      · exact ih hskip (mem_cons_of_mem a hc)
    · rcases mem_cons.mp hc with rfl | hc
      · exact ⟨c, mem_cons_self, rfl, Std.ReflCmp.isLE_rfl⟩
      · obtain ⟨e, he, hfound⟩ := ih htail hc
        exact ⟨e, mem_cons_of_mem a he, hfound⟩

end

/-! ## The list -/

/-- The two sources of the bind's endpoints. -/
def Bind.Source (b : Bind) (e : EndpointCandidate) : Prop :=
  e ∈ b.localEndpoints ∨ ∃ a, b.stun.get a = some e

/-- A list advertises the endpoints of a bind: the addresses ascend strictly, so that none is there
twice, they are those of the sources, and each has the least type that a source gives it. -/
structure Advertises (b : Bind) (result : List EndpointCandidate) : Prop where
  ascending : result.Pairwise fun a c => a.addr.compare c.addr = .lt
  nodup : (result.map EndpointCandidate.addr).Nodup
  source : ∀ e ∈ result, b.Source e
  complete : ∀ e, b.Source e → ∃ e' ∈ result, e'.addr = e.addr
  least : ∀ e ∈ result, ∀ e', b.Source e' → e'.addr = e.addr → e.type.toNat ≤ e'.type.toNat
  ofLocal : (∀ e ∈ b.localEndpoints, e.type = .local) → b.STUNKeyed →
    ∀ e ∈ result, ∀ e' ∈ b.localEndpoints, e'.addr = e.addr → e.type = .local

theorem advertises_compactByAddr {b : Bind} {l : List EndpointCandidate}
    (hmem : ∀ e, e ∈ l ↔ b.Source e)
    (h : l.Pairwise fun a c => (Bind.compareCandidates a c).isLE = true) :
    Advertises b (Bind.compactByAddr l) := by
  have hascending : (Bind.compactByAddr l).Pairwise fun a c => a.addr.compare c.addr = .lt := by
    cases l with
    | nil => exact .nil
    | cons a l => exact ascending_compactFrom h
  have hnodup : ((Bind.compactByAddr l).map EndpointCandidate.addr).Nodup := by
    refine pairwise_map.mpr (hascending.imp fun {a c} hlt heq => ?_)
    rw [heq, show c.addr.compare c.addr = .eq from Std.ReflCmp.compare_self] at hlt
    cases hlt
  have hsource : ∀ e ∈ Bind.compactByAddr l, b.Source e := by
    cases l with
    | nil => exact nofun
    | cons a l => exact fun e he => (hmem e).mp (mem_of_mem_compactFrom he)
  have hfound : ∀ e, b.Source e → ∃ e' ∈ Bind.compactByAddr l, e'.addr = e.addr ∧
      (Bind.compareCandidates e' e).isLE = true := by
    intro e he
    have he := (hmem e).mpr he
    cases l with
    | nil => cases he
    | cons a l => exact exists_mem_compactFrom h he
  have hleast : ∀ e ∈ Bind.compactByAddr l, ∀ e', b.Source e' → e'.addr = e.addr →
      e.type.toNat ≤ e'.type.toNat := by
    intro e he e' he' haddr
    obtain ⟨first, hfirst, hsame, hle⟩ := hfound e' he'
    obtain rfl : first = e :=
      inj_on_of_nodup_map hnodup hfirst he (hsame.trans haddr)
    exact toNat_le_of_isLE hle hsame
  refine ⟨hascending, hnodup, hsource, fun e he => ?_, hleast, ?_⟩
  · obtain ⟨e', he', hsame, -⟩ := hfound e he
    exact ⟨e', he', hsame⟩
  · intro hlocal hstun e he e' he' haddr
    rcases hsource e he with hown | ⟨a, hget⟩
    · exact hlocal e hown
    · -- a STUN endpoint comes after the local one
      have hle := hleast e he e' (.inl he') haddr
      rw [hlocal e' he', hstun a e hget] at hle
      exact absurd (show 2 ≤ 1 from hle) (by decide)

/-- Whatever order the map of STUN endpoints is visited in. -/
theorem advertises_endpointsFrom {b : Bind} {order : List AddrPort} (h : b.stun.Listing order) :
    Advertises b (b.endpointsFrom order) := by
  refine advertises_compactByAddr (fun e => ?_) (pairwise_sortBy _ _)
  rw [mem_sortBy, mem_append, mem_filterMap]
  refine or_congr_right ⟨fun ⟨a, _, hget⟩ => ⟨a, hget⟩, fun ⟨a, hget⟩ => ⟨a, ?_, hget⟩⟩
  exact h.mem_iff.mpr (FinMap.mem_of_get hget)

/-- `localEndpointsLocked` lists local endpoints. -/
theorem local_localEndpointsFor (actual : AddrPort) (interfaces : List String) :
    ∀ e ∈ Bind.localEndpointsFor actual interfaces, e.type = .local := by
  intro e he
  unfold Bind.localEndpointsFor at he
  dsimp only at he
  rw [mem_sortBy] at he
  refine List.foldlRecOn _ _ (motive := fun l => e ∈ l → e.type = .local)
    (fun h => absurd h not_mem_nil) ?_ he
  intro l ih addr _ he
  split at he
  · exact ih he
  · rcases mem_append.mp he with hold | hnew
    · exact ih hold
    · rw [mem_singleton.mp hnew]

/-! ## The first endpoint of a peer -/

/-- What is found first stays first. -/
theorem head_sanitizeLoop (endpoints : List AddrPort) (a : AddrPort) (result : List AddrPort) :
    (sanitizeLoop endpoints (a :: result)).head? = some a := by
  induction endpoints generalizing result with
  | nil => rfl
  | cons endpoint rest ih =>
    unfold sanitizeLoop
    dsimp only
    repeat' split
    · exact ih result
    · rfl
    · exact ih _

theorem firstUsableEndpoint_eq (endpoints : List AddrPort) :
    firstUsableEndpoint endpoints = (sanitizeEndpoints endpoints).head?.getD .zero := by
  unfold sanitizeEndpoints
  induction endpoints with
  | nil => rfl
  | cons endpoint rest ih =>
    unfold firstUsableEndpoint sanitizeLoop
    simp only [not_mem_nil, or_false]
    split
    · exact ih
    · rw [if_neg (by decide), nil_append, head_sanitizeLoop, Option.getD_some]

/-- For every local list and STUN map, visited in any order, `endpointsLocked` lists each address
once in ascending order, as a local one if it is in the local list, which has only local ones. And
`firstUsableEndpoint` is the head of `sanitizeEndpoints`, or invalid if that is empty. -/
theorem advertised_endpoints :
    (∀ (b : Bind) order, b.stun.Listing order → Advertises b (b.endpointsFrom order)) ∧
    (∀ actual interfaces, ∀ e ∈ Bind.localEndpointsFor actual interfaces, e.type = .local) ∧
    (∀ endpoints,
      firstUsableEndpoint endpoints = (sanitizeEndpoints endpoints).head?.getD .zero) ∧
    AddrPort.zero.isValid = false :=
  ⟨fun _ _ h => advertises_endpointsFrom h, local_localEndpointsFor, firstUsableEndpoint_eq, rfl⟩

end WgoTailscale
