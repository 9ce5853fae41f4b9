import Mathlib.Data.String.Basic
import WgoTailscale.Acl
import WgoTailscale.Client
import WgoTailscale.NetipText

/-!
# The cache (`cache.go`)

What the client keeps between runs: the node key it belongs to, its machine and discovery keys, its
backend id and the confirmed peers. `loadOrCreateCache` reads it, or makes a new one, and
`encodeCache` writes it; `encoding/json` is a `CacheCodec`. What `loadOrCreateCache` returns is
complete and in order (`usable_of_loadOrCreateCache`), and is what it returns again once it is
written (`loadOrCreateCache_encodeCache`). Its private keys can be read exactly if those of the blob
can (`accepted_cache_keys_iff`).
-/

namespace WgoTailscale

/-! ## Records -/

def cacheVersion : Int := 1

/-- `cacheState` without the confirmed peers. -/
structure CacheIdentity where
  version : Int := 0
  nodePublic : String := ""
  machinePrivate : String := ""
  discoPrivate : String := ""
  backendLogID : String := ""
  deriving DecidableEq

/-- `cacheState`. -/
structure CacheRecord extends CacheIdentity where
  confirmedPeerIDs : List String := []
  deriving DecidableEq

/-- `encoding/json` on `cacheState`, with the newline that `encodeCache` appends. -/
structure CacheCodec (β : Type) where
  marshal : CacheRecord → β
  unmarshal : β → Except String CacheRecord
  isEmpty : β → Bool
  isEmpty_marshal : ∀ r, isEmpty (marshal r) = false
  unmarshal_marshal : ∀ r, unmarshal (marshal r) = .ok r

/-- The errors of `loadOrCreateCache`. -/
inductive CacheError where
  | load (err : String)
  | decode (err : String)
  | version (version : Int)
  | nodeIdentityChanged
  | generateIdentity (err : String)
  | generateBackendID (err : String)
  deriving DecidableEq

/-! ## Loading and storing -/

/-- The confirmed peers in ascending order, each once. -/
def normalizeIDs (ids : List String) : List String :=
  compact (sortBy (compare : String → String → Ordering) ids)

/-- The random bytes of a private key as `newPrivateKeyText` keeps them. -/
def clampKey (key : BitVec 256) : BitVec 256 :=
  ((key &&& ~~~(7#256 <<< 248)) &&& ~~~0x80#256) ||| 0x40#256

/-- `newPrivateKeyText`, given what `rand.Read` reads. -/
def newPrivateKeyText (random : Except String (BitVec 256)) : Except CacheError String :=
  match random with
  | .error err => .error (.generateIdentity err)
  | .ok key => .ok (hexKey (clampKey key))

/-- The 32 hexadecimal digits of 16 bytes. -/
def hexID (raw : BitVec 128) : String :=
  String.ofList ((List.range 32).map fun i => Nat.digitChar (raw.toNat / 16 ^ (31 - i) % 16))

/-- The backend id that `loadOrCreateCache` generates, given what `rand.Read` reads. -/
def newBackendID (random : Except String (BitVec 128)) : Except CacheError String :=
  match random with
  | .error err => .error (.generateBackendID err)
  | .ok id => .ok (hexID id)

/-- What `loadOrCreateCache` reads from the random source. -/
structure CacheRandom where
  machine : Except String (BitVec 256)
  disco : Except String (BitVec 256)
  backendID : Except String (BitVec 128)

/-- Keep a text, or generate it if there is none; and whether it was there. -/
def orGenerate (text : String) (generate : Except CacheError String) (loaded : Bool) :
    Except CacheError (String × Bool) :=
  if text = "" then generate.map fun text => (text, false) else .ok (text, loaded)

/-- The first part of `loadOrCreateCache`, given what `Load` returns, if there is a callback. -/
def loadCache {β : Type} (J : CacheCodec β) :
    Option (Except String β) → Except CacheError (CacheRecord × Bool)
  | none => .ok ({}, false)
  | some (.error err) => .error (.load err)
  | some (.ok data) =>
    if J.isEmpty data then .ok ({}, false)
    else match J.unmarshal data with
      | .error err => .error (.decode err)
      | .ok state => .ok (state, true)

/-- `loadOrCreateCache`, given what `Load` returns, if there is such a callback. -/
def loadOrCreateCache {β : Type} (J : CacheCodec β) (load : Option (Except String β))
    (nodePublic : NodePublic) (random : CacheRandom) : Except CacheError (CacheRecord × Bool) := do
  let (state, loaded) ← loadCache J load
  if state.version ≠ 0 ∧ state.version ≠ cacheVersion then throw (.version state.version)
  let wantNode := hexKey nodePublic.raw
  if state.nodePublic ≠ "" ∧ state.nodePublic ≠ wantNode then throw .nodeIdentityChanged
  let (machinePrivate, loaded) ←
    orGenerate state.machinePrivate (newPrivateKeyText random.machine) loaded
  let (discoPrivate, loaded) ←
    orGenerate state.discoPrivate (newPrivateKeyText random.disco) loaded
  let (backendLogID, loaded) ← orGenerate state.backendLogID (newBackendID random.backendID) loaded
  return ({ version := cacheVersion, nodePublic := wantNode, machinePrivate, discoPrivate,
            backendLogID, confirmedPeerIDs := normalizeIDs state.confirmedPeerIDs }, loaded)

/-- `encodeCache`. -/
def encodeCache {β : Type} (J : CacheCodec β) (state : CacheRecord) : β :=
  J.marshal { state with
    version := cacheVersion, confirmedPeerIDs := normalizeIDs state.confirmedPeerIDs }

/-! ## What is loaded -/

/-- A cache of the node key with everything in it, and the confirmed peers in ascending order. -/
structure CacheRecord.Usable (nodePublic : NodePublic) (r : CacheRecord) : Prop where
  version : r.version = cacheVersion
  nodePublic : r.nodePublic = hexKey nodePublic.raw
  machinePrivate : r.machinePrivate ≠ ""
  discoPrivate : r.discoPrivate ≠ ""
  backendLogID : r.backendLogID ≠ ""
  confirmedPeerIDs : r.confirmedPeerIDs.Pairwise (· < ·)

/-- A list without repetitions, in ascending order, is left. -/
theorem ascending_normalizeIDs (ids : List String) : (normalizeIDs ids).Pairwise (· < ·) := by
  have hsorted := pairwise_sortBy (compare : String → String → Ordering) ids
  have hnodup : (normalizeIDs ids).Nodup := nodup_compact hsorted fun a _ b _ hab hba =>
    Std.LawfulEqCmp.eq_of_compare (Std.OrientedCmp.isLE_antisymm hab hba)
  refine ((hsorted.sublist (sublist_compact _)).and hnodup).imp fun {a b} h => ?_
  have hle : a ≤ b := compare_le_iff_le.mp (Ordering.isLE_iff_ne_gt.mp h.1)
  exact lt_of_le_of_ne hle h.2

variable {ids : List String} {text text' : String} {loaded loaded' : Bool} {r : CacheRecord}

/-- Sorting a list in strictly ascending order changes nothing. -/
theorem sortBy_of_ascending (h : ids.Pairwise (· < ·)) :
    sortBy (compare : String → String → Ordering) ids = ids := by
  have hsorted : SortsTo (compare : String → String → Ordering) ids ids :=
    ⟨.refl _, h.imp fun {a b} hlt => by rw [compare_lt_iff_lt.mpr hlt]; rfl⟩
  exact (sortsTo_sortBy ids).unique hsorted (.refl _) fun _ _ _ _ => Std.LawfulEqCmp.eq_of_compare

/-- Nor does compacting it. -/
theorem compact_of_ascending (h : ids.Pairwise (· < ·)) : compact ids = ids :=
  compact_of_nodup (h.imp ne_of_lt)

theorem normalizeIDs_of_ascending (h : ids.Pairwise (· < ·)) : normalizeIDs ids = ids := by
  rw [normalizeIDs, sortBy_of_ascending h, compact_of_ascending h]

/-- The members of a set in ascending order, as `syncConfirmedCacheLocked` lists them. -/
def ascendingIDs (ids : Finset String) : List String :=
  FinMap.sortedElems (compare : String → String → Ordering) ids

/-- Any listing of a set, sorted, is its members in ascending order. -/
theorem sortBy_listing {ids : Finset String} {l : List String}
    (h : (l : Multiset String) = ids.val) :
    sortBy (compare : String → String → Ordering) l = ascendingIDs ids :=
  (FinMap.sortedElems_eq _ h).symm

theorem pairwise_ascendingIDs (ids : Finset String) : (ascendingIDs ids).Pairwise (· < ·) := by
  have hlist : (ids.val.toList : Multiset String) = ids.val := Multiset.coe_toList _
  have hnodup : ids.val.toList.Nodup := by
    rw [← Multiset.coe_nodup, hlist]
    exact ids.nodup
  have hsorted := ascending_normalizeIDs ids.val.toList
  rwa [normalizeIDs, compact_of_nodup ((perm_sortBy _ _).nodup_iff.mpr hnodup),
    sortBy_listing hlist] at hsorted

theorem mem_ascendingIDs {ids : Finset String} {id : String} :
    id ∈ ascendingIDs ids ↔ id ∈ ids := by
  rw [← sortBy_listing (Multiset.coe_toList ids.val), mem_sortBy, Multiset.mem_toList]
  rfl

/-- A list in ascending order lists the set of its members. -/
theorem ascendingIDs_toFinset (h : ids.Pairwise (· < ·)) : ascendingIDs ids.toFinset = ids := by
  have hlist : (ids : Multiset String) = ids.toFinset.val := by
    rw [List.toFinset_val, List.dedup_eq_self.mpr (h.imp ne_of_lt)]
  rw [← sortBy_listing hlist, sortBy_of_ascending h]

section
variable {β : Type} {J : CacheCodec β} {nodePublic : NodePublic}

theorem hexKey_ne_empty (raw : BitVec 256) : hexKey raw ≠ "" := by
  intro h
  have hlength := congrArg (fun text => text.toList.length) h
  simp [hexKey] at hlength

theorem hexID_ne_empty (raw : BitVec 128) : hexID raw ≠ "" := by
  intro h
  have hlength := congrArg (fun text => text.toList.length) h
  simp [hexID] at hlength

theorem newPrivateKeyText_ne {random : Except String (BitVec 256)}
    (h : newPrivateKeyText random = .ok text) : text ≠ "" := by
  cases random with
  | error err => cases h
  | ok key =>
    obtain rfl := Except.ok.inj h
    exact hexKey_ne_empty _

/-- A text is generated if there is none, and kept otherwise. -/
theorem orGenerate_cases {generate : Except CacheError String}
    (h : orGenerate text generate loaded = .ok (text', loaded')) :
    text = "" ∧ generate = .ok text' ∨ text ≠ "" ∧ text' = text := by
  unfold orGenerate at h
  split at h
  · next hempty =>
    cases generate with
    | error err => cases h
    | ok new =>
      cases h
      exact .inl ⟨hempty, rfl⟩
  · next hne =>
    cases h
    exact .inr ⟨hne, rfl⟩

theorem orGenerate_ne {generate : Except CacheError String}
    (h : orGenerate text generate loaded = .ok (text', loaded'))
    (hgenerate : ∀ text, generate = .ok text → text ≠ "") : text' ≠ "" := by
  rcases orGenerate_cases h with ⟨-, hnew⟩ | ⟨hne, rfl⟩
  · exact hgenerate _ hnew
  · exact hne

theorem newBackendID_ne {random : Except String (BitVec 128)} (h : newBackendID random = .ok text) :
    text ≠ "" := by
  cases random with
  | error err => cases h
  | ok id =>
    obtain rfl := Except.ok.inj h
    exact hexID_ne_empty _

theorem exists_of_bind_ok {ε α γ : Type} {x : Except ε α} {f : α → Except ε γ} {c : γ}
    (h : (x >>= f) = .ok c) : ∃ a, x = .ok a ∧ f a = .ok c := by
  cases x with
  | error err => cases h
  | ok a => exact ⟨a, rfl, h⟩

/-- What is made of the loaded state. -/
theorem loadOrCreateCache_cases {load : Option (Except String β)} {random : CacheRandom}
    (h : loadOrCreateCache J load nodePublic random = .ok (r, loaded)) :
    ∃ state loaded₀ loaded₁ loaded₂ loaded₃, loadCache J load = .ok (state, loaded₀) ∧
      orGenerate state.machinePrivate (newPrivateKeyText random.machine) loaded₀ =
        .ok (r.machinePrivate, loaded₁) ∧
      orGenerate state.discoPrivate (newPrivateKeyText random.disco) loaded₁ =
        .ok (r.discoPrivate, loaded₂) ∧
      orGenerate state.backendLogID (newBackendID random.backendID) loaded₂ =
        .ok (r.backendLogID, loaded₃) ∧
      r.version = cacheVersion ∧ r.nodePublic = hexKey nodePublic.raw ∧
      r.confirmedPeerIDs = normalizeIDs state.confirmedPeerIDs := by
  obtain ⟨⟨state, loaded₀⟩, hload, h⟩ := exists_of_bind_ok h
  dsimp only at h
  split at h
  · cases h
  split at h
  · cases h
  obtain ⟨⟨machine, loaded₁⟩, hmachine, h⟩ := exists_of_bind_ok h
  obtain ⟨⟨disco, loaded₂⟩, hdisco, h⟩ := exists_of_bind_ok h
  obtain ⟨⟨id, loaded₃⟩, hid, h⟩ := exists_of_bind_ok h
  cases h
  exact ⟨state, _, _, _, _, hload, hmachine, hdisco, hid, rfl, rfl, rfl⟩

/-- What is loaded or created is usable. -/
theorem usable_of_loadOrCreateCache {load : Option (Except String β)} {random : CacheRandom}
    (h : loadOrCreateCache J load nodePublic random = .ok (r, loaded)) : r.Usable nodePublic := by
  obtain ⟨state, _, _, _, _, -, hmachine, hdisco, hid, hversion, hnode, hids⟩ :=
    loadOrCreateCache_cases h
  exact ⟨hversion, hnode, orGenerate_ne hmachine fun _ => newPrivateKeyText_ne,
    orGenerate_ne hdisco fun _ => newPrivateKeyText_ne, orGenerate_ne hid fun _ => newBackendID_ne,
    hids ▸ ascending_normalizeIDs _⟩

/-- A usable cache that was written is loaded again, without a change. -/
theorem loadOrCreateCache_encodeCache (h : r.Usable nodePublic) (random : CacheRandom) :
    loadOrCreateCache J (some (.ok (encodeCache J r))) nodePublic random = .ok (r, true) := by
  have hload : loadCache J (some (.ok (encodeCache J r))) = .ok (r, true) := by
    rw [encodeCache, normalizeIDs_of_ascending h.confirmedPeerIDs, ← h.version, loadCache,
      J.isEmpty_marshal, J.unmarshal_marshal]
    rfl
  have hkept {text : String} (htext : text ≠ "") (generate : Except CacheError String) :
      orGenerate text generate true = .ok (text, true) := if_neg htext
  rw [loadOrCreateCache, hload]
  simp only [h.version, h.nodePublic, hkept h.machinePrivate, hkept h.discoPrivate,
    hkept h.backendLogID, normalizeIDs_of_ascending h.confirmedPeerIDs, bind, Except.bind, pure,
    Except.pure, ne_eq, not_true_eq_false, and_false, if_false]
  rw [← h.version, ← h.nodePublic]

/-! ## Private keys -/

/-- `curve25519.X25519` with `Basepoint`; it fails for no scalar of 32 bytes. -/
structure BaseMultiplication where
  x25519 : BitVec 256 → Except String (BitVec 256)
  total : ∀ scalar, ∃ point, x25519 scalar = .ok point

/-- `decodePrivateKey`. -/
def decodePrivateKey (curve : BaseMultiplication) (text : String) : Except String (BitVec 256) :=
  match text.toList.mapM hexDigit? with
  | none => .error "tailscale: invalid cached private key"
  | some digits =>
    -- `hex.DecodeString` also fails on an odd number of digits
    if digits.length ≠ 2 * 32 then .error "tailscale: invalid cached private key"
    else
      let out := BitVec.ofNat 256 (Digits.value 16 digits)
      match curve.x25519 out with
      | .error err => .error ("tailscale: invalid cached private key: " ++ err)
      | .ok _ => .ok out

/-- A text of 64 hexadecimal digits. -/
structure IsKeyText (text : String) : Prop where
  length : text.toList.length = 64
  digits : ∀ c ∈ text.toList, (hexDigit? c).isSome = true

/-- A function is applied to every member of a list, or fails for one of them. -/
theorem mapM_cases {α γ : Type} (f : α → Option γ) (l : List α) :
    (∃ ys, l.mapM f = some ys ∧ ys.length = l.length ∧ ∀ a ∈ l, (f a).isSome = true) ∨
      l.mapM f = none ∧ ∃ a ∈ l, (f a).isSome = false := by
  induction l with
  | nil => exact .inl ⟨[], rfl, rfl, nofun⟩
  | cons a l ih =>
    rw [List.mapM_cons]
    cases ha : f a with
    | none => exact .inr ⟨rfl, a, List.mem_cons_self, by rw [ha]; rfl⟩
    | some y =>
      rcases ih with ⟨ys, hys, hlength, hall⟩ | ⟨hnone, b, hb, hfails⟩
      · refine .inl ⟨y :: ys, by rw [hys]; rfl, congrArg (· + 1) hlength, ?_⟩
        exact List.forall_mem_cons.mpr ⟨by rw [ha]; rfl, hall⟩
      · exact .inr ⟨by rw [hnone]; rfl, b, List.mem_cons_of_mem _ hb, hfails⟩

/-- The texts that `decodePrivateKey` accepts. -/
theorem decodePrivateKey_ok_iff (curve : BaseMultiplication) :
    (∃ key, decodePrivateKey curve text = .ok key) ↔ IsKeyText text := by
  unfold decodePrivateKey
  rcases mapM_cases hexDigit? text.toList with
    ⟨digits, hdigits, hlength, hall⟩ | ⟨hnone, c, hc, hc'⟩
  · rw [hdigits]
    dsimp only
    split
    · next hne => exact iff_of_false nofun fun h => hne (hlength.trans h.length)
    · next heq =>
      obtain ⟨point, hpoint⟩ := curve.total (BitVec.ofNat 256 (Digits.value 16 digits))
      rw [hpoint]
      exact iff_of_true ⟨_, rfl⟩ ⟨hlength.symm.trans (not_ne_iff.mp heq), hall⟩
  · rw [hnone]
    refine iff_of_false nofun fun h => ?_
    rw [h.digits c hc] at hc'
    cases hc'

theorem isKeyText_hexKey (raw : BitVec 256) : IsKeyText (hexKey raw) := by
  unfold hexKey
  refine ⟨by simp, fun c hc => ?_⟩
  rw [String.toList_ofList] at hc
  obtain ⟨i, -, rfl⟩ := List.mem_map.mp hc
  rw [hexDigit?_reads _ (Nat.mod_lt _ (by decide))]
  rfl

/-- A key of the result can be read exactly if the blob had none, or one that can be read. -/
theorem orGenerate_isKeyText {random : Except String (BitVec 256)}
    (h : orGenerate text (newPrivateKeyText random) loaded = .ok (text', loaded')) :
    IsKeyText text' ↔ text = "" ∨ IsKeyText text := by
  rcases orGenerate_cases h with ⟨hempty, hnew⟩ | ⟨hne, rfl⟩
  · cases random with
    | error err => cases hnew
    | ok key =>
      obtain rfl := Except.ok.inj hnew
      exact iff_of_true (isKeyText_hexKey _) (.inl hempty)
  · exact (or_iff_right hne).symm

/-- The blob is empty, or each private key in it is empty or a text of 64 hexadecimal digits. -/
def CacheCodec.KeysReadable (J : CacheCodec β) (data : β) : Prop :=
  J.isEmpty data = true ∨ ∃ state, J.unmarshal data = .ok state ∧
    (state.machinePrivate = "" ∨ IsKeyText state.machinePrivate) ∧
    (state.discoPrivate = "" ∨ IsKeyText state.discoPrivate)

/-- A blob that `loadOrCreateCache` accepts gives a cache of the current version for the node key,
with the confirmed peers in strictly ascending order and a backend id. Its private keys are accepted
by `decodePrivateKey` if and only if the blob's can be read. -/
theorem accepted_cache_keys_iff (J : CacheCodec β) (curve : BaseMultiplication) (data : β)
    (nodePublic : NodePublic) (random : CacheRandom) (r : CacheRecord) (loaded : Bool)
    (h : loadOrCreateCache J (some (.ok data)) nodePublic random = .ok (r, loaded)) :
    r.version = cacheVersion ∧ r.nodePublic = hexKey nodePublic.raw ∧
      r.confirmedPeerIDs.Pairwise (· < ·) ∧ r.backendLogID ≠ "" ∧
      ((∃ key, decodePrivateKey curve r.machinePrivate = .ok key) ∧
        (∃ key, decodePrivateKey curve r.discoPrivate = .ok key) ↔ J.KeysReadable data) := by
  have husable := usable_of_loadOrCreateCache h
  refine ⟨husable.version, husable.nodePublic, husable.confirmedPeerIDs, husable.backendLogID, ?_⟩
  obtain ⟨state, _, _, _, _, hload, hmachine, hdisco, -⟩ := loadOrCreateCache_cases h
  rw [decodePrivateKey_ok_iff, decodePrivateKey_ok_iff, orGenerate_isKeyText hmachine,
    orGenerate_isKeyText hdisco]
  rw [loadCache] at hload
  unfold CacheCodec.KeysReadable
  split at hload
  · next hempty =>
    cases hload
    exact iff_of_true ⟨.inl rfl, .inl rfl⟩ (.inl hempty)
  · next hne =>
    rw [or_iff_right hne]
    cases hdecoded : J.unmarshal data with
    | error err =>
      rw [hdecoded] at hload
      cases hload
    | ok decoded =>
      rw [hdecoded] at hload
      cases hload
      exact ⟨fun hkeys => ⟨_, rfl, hkeys⟩, fun ⟨_, heq, hkeys⟩ => Except.ok.inj heq ▸ hkeys⟩

end

/-- `encoding/json` if blobs were the records themselves. -/
def plainCodec : CacheCodec CacheRecord where
  marshal r := r
  unmarshal r := .ok r
  isEmpty _ := false
  isEmpty_marshal _ := rfl
  unmarshal_marshal _ := rfl

/-- The cache made from the random keys 2 and 3 and the random id 4 for the node key 1. -/
def newCache : CacheRecord where
  version := cacheVersion
  nodePublic := hexKey 1
  machinePrivate := hexKey (clampKey 2)
  discoPrivate := hexKey (clampKey 3)
  backendLogID := hexID 4

/-- A multiplication that returns its scalar. -/
def baseMultiplication : BaseMultiplication := ⟨.ok, fun k => ⟨k, rfl⟩⟩

/-- The keys of a new cache that was stored are accepted. -/
theorem accepted_cache_keys_new :
    (∃ key, decodePrivateKey baseMultiplication newCache.machinePrivate = .ok key) ∧
      ∃ key, decodePrivateKey baseMultiplication newCache.discoPrivate = .ok key :=
  (accepted_cache_keys_iff plainCodec baseMultiplication newCache ⟨1⟩ ⟨.ok 5, .ok 6, .ok 7⟩ newCache
    true rfl).2.2.2.2.mpr
    (.inr ⟨newCache, rfl, .inr (isKeyText_hexKey _), .inr (isKeyText_hexKey _)⟩)

/-- A blob with the machine key `zz`: it is accepted, and the key is not. -/
theorem unreadable_key_accepted :
    loadOrCreateCache plainCodec (some (.ok { machinePrivate := "zz" })) ⟨1⟩ ⟨.ok 2, .ok 3, .ok 4⟩ =
        .ok ({ newCache with machinePrivate := "zz" }, false) ∧
      decodePrivateKey baseMultiplication "zz" =
        .error "tailscale: invalid cached private key" :=
  ⟨rfl, rfl⟩

end WgoTailscale
