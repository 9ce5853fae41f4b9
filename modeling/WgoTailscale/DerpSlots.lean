import WgoTailscale.DerpManager

/-!
# The slots of the relays and their clients

What holds of the connections to the relays between the steps of any number of callers. The
invariant is `SlotsSound`: a slot is only changed by a frame that has its lock, a client that leaves
a slot is closed, and a slot that leaves the manager has neither a configuration nor a client. There
is one lemma for each kind of step; `derp_slots` is what holds in every state of every interleaving.
-/

namespace WgoTailscale

open Machine Multiset

/-! ## The invariant -/

/-- The frames that hold the lock of the manager. -/
def DerpFrame.holdsManager : DerpFrame → Nat
  | .updateSlots _ _ | .deleteSlot _ _ _ | .unlockManager => 1
  | _ => 0

/-- The frames that hold the lock of a slot. -/
def DerpFrame.holdsSlot (a : Nat) : DerpFrame → Nat
  | .dial b _ _ | .unlockSlot b _ _ => if b = a then 1 else 0
  | _ => 0

/-- The slots a frame points to. -/
def DerpFrame.slots : DerpFrame → List Nat
  | .swapConnecting a | .loadConnected a | .storeConnecting a | .getClient a _ | .dial a _ _
  | .unlockSlot a _ _ | .sendPacket a _ | .readLoop a _ | .clear a _ => [a]
  | .clearAll slots => slots
  | _ => []

/-- What a caller knows at its program points: a slot that is being connected has a configuration
and no client, and a slot that is to be removed has no configuration any more. -/
def DerpFrame.Holds (m : DerpManager) : DerpFrame → Prop
  | .dial a _ _ => (m.heap a).config ≠ none ∧ (m.heap a).client = none
  | .deleteSlot id _ _ => ∀ a, m.slots.get id = some a → (m.heap a).config = none
  | _ => True

/-- What holds of a slot. -/
structure SlotOk (m : DerpManager) (a : Nat) (slot : DerpSlot) : Prop where
  fresh : m.allocated ≤ a → slot = {}
  removed : a ∈ m.removed → slot.config = none
  unconfigured : slot.config = none → slot.client = none
  connected : slot.connected = slot.client.isSome
  installed : ∀ c, slot.client = some c → c < m.dialed

/-- What holds of the slots and the clients. -/
structure SlotsOk (m : DerpManager) : Prop where
  slot : ∀ a, SlotOk m a (m.heap a)
  listed : ∀ id a, m.slots.get id = some a →
    (m.heap a).region = id ∧ a < m.allocated ∧ a ∉ m.removed
  removed : ∀ a ∈ m.removed, a < m.allocated
  unique : ∀ a b c, (m.heap a).client = some c → (m.heap b).client = some c → a = b

/-- Every client that was dialed is either installed, or closed or about to be. -/
structure ClientsOk (m : DerpManager) (F : Multiset DerpFrame) : Prop where
  dialed : ∀ c < m.dialed, (∃ a, (m.heap a).client = some c) ∨ c ∈ m.closedClients ∨
    .closeClient c ∈ F
  closing : ∀ c, c ∈ m.closedClients ∨ .closeClient c ∈ F →
    c < m.dialed ∧ ∀ a, (m.heap a).client ≠ some c

/-- What holds between the steps of all callers. -/
structure SlotsSound (m : DerpManager) (F : Multiset DerpFrame) : Prop
    extends SlotsOk m, ClientsOk m F where
  locked : weightOf DerpFrame.holdsManager F = m.mu.toNat
  slotLocked : ∀ a, weightOf (DerpFrame.holdsSlot a) F = (m.heap a).mu.toNat
  points : ∀ f ∈ F, ∀ a ∈ f.slots, a < m.allocated
  holds : ∀ f ∈ F, f.Holds m

section
variable {m m' : DerpManager} {f g : DerpFrame} {R : Multiset DerpFrame}
  {o : Outcome DerpManager DerpFrame} {a b : Nat} {slot : DerpSlot}

@[simp] theorem heap_setSlot_self : (m.setSlot a slot).heap a = slot := Function.update_self ..

theorem heap_setSlot_ne (h : b ≠ a) : (m.setSlot a slot).heap b = m.heap b :=
  Function.update_of_ne h ..

namespace SlotsSound

/-- While a frame holds the lock of a slot, no other does. -/
theorem slot_holder (h : SlotsSound m (f ::ₘ R)) (hf : f.holdsSlot a = 1) :
    (m.heap a).mu = true ∧ ∀ g ∈ R, g.holdsSlot a = 0 :=
  weight_of_locked (h.slotLocked a) hf

/-- While the lock of a slot is free, no frame holds it. -/
theorem slot_free (h : SlotsSound m R) (hmu : ¬ (m.heap a).mu) : ∀ g ∈ R, g.holdsSlot a = 0 :=
  weight_of_free (h.slotLocked a) (Bool.eq_false_iff.mpr hmu)

/-- While a frame holds the lock of the manager, no other does. -/
theorem holder (h : SlotsSound m (f ::ₘ R)) (hf : f.holdsManager = 1) :
    m.mu = true ∧ ∀ g ∈ R, g.holdsManager = 0 :=
  weight_of_locked h.locked hf

/-- While the lock of the manager is free, no frame holds it. -/
theorem free (h : SlotsSound m R) (hmu : ¬ m.mu) : ∀ g ∈ R, g.holdsManager = 0 :=
  weight_of_free h.locked (Bool.eq_false_iff.mpr hmu)

end SlotsSound

/-- What a frame knows stays true where the slots it has locked are not changed, nor the manager if
it has locked that. -/
theorem DerpFrame.Holds.transfer (h : g.Holds m)
    (hslot : ∀ a, g.holdsSlot a = 1 →
      (m'.heap a).config = (m.heap a).config ∧ (m'.heap a).client = (m.heap a).client)
    (hmanager : g.holdsManager = 1 →
      m'.slots = m.slots ∧ ∀ a, (m'.heap a).config = (m.heap a).config) : g.Holds m' := by
  cases g with
  | dial a nodes caller =>
    obtain ⟨hconfig, hclient⟩ := hslot a (if_pos rfl)
    rw [Holds, hconfig, hclient]
    exact h
  | deleteSlot id value ids =>
    obtain ⟨hslots, hconfig⟩ := hmanager rfl
    intro a ha
    rw [hconfig]
    exact h a (hslots ▸ ha)
  | _ => trivial

/-- What has to be shown of a step. -/
theorem SlotsSound.step (h : SlotsSound m (f ::ₘ R)) (hok : SlotsOk o.state)
    (hlocked : Outcome.weight DerpFrame.holdsManager o + m.mu.toNat =
      o.state.mu.toNat + f.holdsManager)
    (hslotLocked : ∀ a, Outcome.weight (DerpFrame.holdsSlot a) o + (m.heap a).mu.toNat =
      (o.state.heap a).mu.toNat + f.holdsSlot a)
    (hallocated : m.allocated ≤ o.state.allocated)
    (hslot : ∀ g ∈ R, ∀ a, g.holdsSlot a = 1 →
      (o.state.heap a).config = (m.heap a).config ∧ (o.state.heap a).client = (m.heap a).client)
    (hmanager : ∀ g ∈ R, g.holdsManager = 1 →
      o.state.slots = m.slots ∧ ∀ a, (o.state.heap a).config = (m.heap a).config)
    (hnew : ∀ g ∈ o.frames, (∀ a ∈ g.slots, a < o.state.allocated) ∧ g.Holds o.state)
    (hclients : ClientsOk o.state (o.frames + R)) : SlotsSound o.state (o.frames + R) := by
  refine { hok, hclients with
    locked := weightOf_step h.locked hlocked
    slotLocked := fun a => weightOf_step (h.slotLocked a) (hslotLocked a)
    points := fun g hg a ha => ?_
    holds := fun g hg => ?_ }
  · rcases mem_add.mp hg with hg | hg
    · exact (hnew g hg).1 a ha
    · exact (h.points g (mem_cons_of_mem hg) a ha).trans_le hallocated
  · rcases mem_add.mp hg with hg | hg
    · exact (hnew g hg).2
    · exact (h.holds g (mem_cons_of_mem hg)).transfer (hslot g hg) (hmanager g hg)

/-- The frames that close a client. -/
def DerpFrame.closes : DerpFrame → Bool
  | .closeClient _ => true
  | _ => false

/-- Where no frame that closes a client comes or goes, the same clients are about to be closed. -/
theorem mem_closeClient_iff (hf : f.closes = false) (hnew : ∀ g ∈ o.frames, g.closes = false)
    (c : Nat) : .closeClient c ∈ o.frames + R ↔ .closeClient c ∈ f ::ₘ R := by
  rw [mem_add, mem_cons, or_iff_right, or_iff_right]
  · rintro rfl
    cases hf
  · intro hmem
    cases hnew _ hmem

theorem ClientsOk.same (h : ClientsOk m (f ::ₘ R))
    (hclient : ∀ a, (m'.heap a).client = (m.heap a).client) (hdialed : m'.dialed = m.dialed)
    (hclosed : m'.closedClients = m.closedClients) (hf : f.closes = false)
    (hnew : ∀ g ∈ o.frames, g.closes = false) : ClientsOk m' (o.frames + R) := by
  have hclose := mem_closeClient_iff (R := R) hf hnew
  refine ⟨fun c hc => ?_, fun c hc => ?_⟩
  · simp only [hclient, hclosed, hclose]
    exact h.dialed c (hdialed ▸ hc)
  · simp only [hclosed, hclose] at hc
    simp only [hclient, hdialed]
    exact h.closing c hc

/-! ## Steps that change no slot -/

/-- The slots and the clients are the same, up to the locks and `connecting`. -/
structure DerpManager.SameSlots (m m' : DerpManager) : Prop where
  allocated : m'.allocated = m.allocated
  slots : m'.slots = m.slots
  removed : m'.removed = m.removed
  dialed : m'.dialed = m.dialed
  region : ∀ a, (m'.heap a).region = (m.heap a).region
  config : ∀ a, (m'.heap a).config = (m.heap a).config
  client : ∀ a, (m'.heap a).client = (m.heap a).client
  connected : ∀ a, (m'.heap a).connected = (m.heap a).connected
  fresh : ∀ a, m.allocated ≤ a → m'.heap a = m.heap a

theorem sameSlots_setSlot (ha : a < m.allocated) (hregion : slot.region = (m.heap a).region)
    (hconfig : slot.config = (m.heap a).config) (hclient : slot.client = (m.heap a).client)
    (hconnected : slot.connected = (m.heap a).connected) : m.SameSlots (m.setSlot a slot) := by
  have heap {γ : Type} (view : DerpSlot → γ) (hview : view slot = view (m.heap a)) (b : Nat) :
      view ((m.setSlot a slot).heap b) = view (m.heap b) := by
    by_cases hb : b = a
    · rw [hb, heap_setSlot_self, hview]
    · rw [heap_setSlot_ne hb]
  exact ⟨rfl, rfl, rfl, rfl, heap _ hregion, heap _ hconfig, heap _ hclient, heap _ hconnected,
    fun b hb => heap_setSlot_ne (Nat.ne_of_gt (ha.trans_le hb))⟩

theorem SlotsOk.same (h : SlotsOk m) (hsame : m.SameSlots m') : SlotsOk m' where
  slot a := by
    obtain ⟨hfresh, hremoved, hunconfigured, hconnected, hinstalled⟩ := h.slot a
    refine ⟨fun ha => ?_, ?_, ?_, ?_, ?_⟩
    · rw [hsame.allocated] at ha
      rw [hsame.fresh a ha, hfresh ha]
    · rwa [hsame.removed, hsame.config]
    · rwa [hsame.config, hsame.client]
    · rwa [hsame.connected, hsame.client]
    · rwa [hsame.client, hsame.dialed]
  listed id a ha := by
    rw [hsame.slots] at ha
    rw [hsame.region, hsame.allocated, hsame.removed]
    exact h.listed id a ha
  removed a ha := by
    rw [hsame.removed] at ha
    rw [hsame.allocated]
    exact h.removed a ha
  unique a b c ha hb := by
    rw [hsame.client] at ha hb
    exact h.unique a b c ha hb

/-- A step that changes no slot, and moves locks. -/
theorem SlotsSound.move (h : SlotsSound m (f ::ₘ R)) (hsame : m.SameSlots o.state)
    (hclosed : o.state.closedClients = m.closedClients)
    (hlocked : Outcome.weight DerpFrame.holdsManager o + m.mu.toNat =
      o.state.mu.toNat + f.holdsManager)
    (hslotLocked : ∀ a, Outcome.weight (DerpFrame.holdsSlot a) o + (m.heap a).mu.toNat =
      (o.state.heap a).mu.toNat + f.holdsSlot a)
    (hf : f.closes = false)
    (hnew : ∀ g ∈ o.frames, g.closes = false ∧ (∀ a ∈ g.slots, a < m.allocated) ∧ g.Holds m) :
    SlotsSound o.state (o.frames + R) := by
  refine h.step (h.toSlotsOk.same hsame) hlocked hslotLocked hsame.allocated.ge
    (fun _ _ a _ => ⟨hsame.config a, hsame.client a⟩) (fun _ _ _ => ⟨hsame.slots, hsame.config⟩)
    (fun g hg => ?_)
    (h.toClientsOk.same hsame.client hsame.dialed hclosed hf fun g hg => (hnew g hg).1)
  obtain ⟨-, hpoints, hholds⟩ := hnew g hg
  rw [hsame.allocated]
  exact ⟨hpoints, hholds.transfer (fun a _ => ⟨hsame.config a, hsame.client a⟩) fun _ =>
    ⟨hsame.slots, hsame.config⟩⟩

/-- The frames that hold no lock and close nothing. -/
def DerpFrame.quiet : DerpFrame → Bool
  | .dial _ _ _ | .unlockSlot _ _ _ | .updateSlots _ _ | .deleteSlot _ _ _ | .unlockManager
  | .closeClient _ => false
  | _ => true

theorem DerpFrame.quiet_spec (h : g.quiet) :
    g.holdsManager = 0 ∧ (∀ a, g.holdsSlot a = 0) ∧ g.closes = false ∧ g.Holds m := by
  cases g <;> first | exact ⟨rfl, fun _ => rfl, rfl, trivial⟩ | cases h

/-- A step from a quiet frame to quiet frames. -/
theorem SlotsSound.rest (h : SlotsSound m (f ::ₘ R)) (hsame : m.SameSlots o.state)
    (hclosed : o.state.closedClients = m.closedClients) (hmu : o.state.mu = m.mu)
    (hslotMu : ∀ a, (o.state.heap a).mu = (m.heap a).mu) (hf : f.quiet)
    (hnew : ∀ g ∈ o.frames, g.quiet ∧ ∀ a ∈ g.slots, a < m.allocated) :
    SlotsSound o.state (o.frames + R) := by
  have hweight (weight : DerpFrame → Nat) (hw : ∀ g, g.quiet → weight g = 0) :
      Outcome.weight weight o = 0 ∧ weight f = 0 :=
    ⟨weight_eq_zero fun g hg => hw g (hnew g hg).1, hw f hf⟩
  refine h.move hsame hclosed ?_ (fun a => ?_) (f.quiet_spec (m := m) hf).2.2.1 fun g hg => ?_
  · obtain ⟨hnone, hfzero⟩ := hweight _ fun g hg => (g.quiet_spec (m := m) hg).1
    rw [hnone, hfzero, hmu, Nat.zero_add, Nat.add_zero]
  · obtain ⟨hnone, hfzero⟩ := hweight _ fun g hg => (g.quiet_spec (m := m) hg).2.1 a
    rw [hnone, hfzero, hslotMu, Nat.zero_add, Nat.add_zero]
  · obtain ⟨hquiet, hpoints⟩ := hnew g hg
    exact ⟨(g.quiet_spec (m := m) hquiet).2.2.1, hpoints, (g.quiet_spec hquiet).2.2.2⟩

theorem DerpManager.SameSlots.refl (m : DerpManager) : m.SameSlots m :=
  ⟨rfl, rfl, rfl, rfl, fun _ => rfl, fun _ => rfl, fun _ => rfl, fun _ => rfl, fun _ _ => rfl⟩

/-- A step from a quiet frame to quiet frames that point to its slots, which changes nothing. -/
theorem SlotsSound.goto (h : SlotsSound m (f ::ₘ R)) (hstate : o.state = m) (hf : f.quiet)
    (hnew : ∀ g ∈ o.frames, g.quiet ∧ g.slots ⊆ f.slots) : SlotsSound o.state (o.frames + R) := by
  have hpoints := h.points f (mem_cons_self _ _)
  refine h.rest ?_ ?_ ?_ (fun a => ?_) hf fun g hg =>
    ⟨(hnew g hg).1, fun a ha => hpoints a ((hnew g hg).2 ha)⟩
  · rw [hstate]
    exact .refl m
  all_goals rw [hstate]

/-- A step between frames that hold the same locks, which changes nothing. -/
theorem SlotsSound.swap (h : SlotsSound m (f ::ₘ R)) (ho : o = { state := m, calls := [g] })
    (hmanager : g.holdsManager = f.holdsManager) (hslot : ∀ a, g.holdsSlot a = f.holdsSlot a)
    (hcloses : f.closes = false ∧ g.closes = false) (hslots : g.slots = f.slots)
    (hholds : g.Holds m) : SlotsSound o.state (o.frames + R) := by
  have hnew : ∀ g' ∈ o.frames, g' = g := by
    rw [ho]
    simp [Outcome.frames]
  subst ho
  refine h.move (.refl m) rfl ?_ (fun a => ?_) hcloses.1 fun g' hg' => ?_
  · rw [weight_call, hmanager]
    exact Nat.add_comm _ _
  · rw [weight_call, hslot]
    exact Nat.add_comm _ _
  · rw [hnew g' hg', hslots]
    exact ⟨hcloses.2, h.points f (mem_cons_self _ _), hholds⟩

/-- A call of one of the manager's functions. -/
theorem SlotsSound.start {F : Multiset DerpFrame} (h : SlotsSound m F) (hf : f.quiet)
    (hslots : f.slots = []) : SlotsSound m (f ::ₘ F) := by
  obtain ⟨hmanager, hslot, hcloses, hholds⟩ := DerpFrame.quiet_spec (m := m) hf
  have hclose (c : Nat) : .closeClient c ∈ f ::ₘ F ↔ .closeClient c ∈ F := by
    rw [mem_cons, or_iff_right]
    rintro rfl
    cases hcloses
  refine { h.toSlotsOk with
    dialed := fun c hc => by rw [hclose]; exact h.dialed c hc
    closing := fun c hc => h.closing c (by rwa [hclose] at hc)
    locked := by rw [weightOf_cons, hmanager, Nat.zero_add, h.locked]
    slotLocked := fun a => by rw [weightOf_cons, hslot, Nat.zero_add, h.slotLocked]
    points := fun g hg => ?_
    holds := fun g hg => ?_ }
  · rcases mem_cons.mp hg with rfl | hg
    · rw [hslots]
      nofun
    · exact h.points g hg
  · rcases mem_cons.mp hg with rfl | hg
    · exact hholds
    · exact h.holds g hg

/-- `connecting` is stored. -/
theorem SlotsSound.setConnecting (h : SlotsSound m (f ::ₘ R)) (ha : a < m.allocated)
    {connecting : Bool} (ho : o.state = m.setSlot a { m.heap a with connecting }) (hf : f.quiet)
    (hnew : ∀ g ∈ o.frames, g.quiet ∧ ∀ b ∈ g.slots, b = a) :
    SlotsSound o.state (o.frames + R) := by
  have hsame : m.SameSlots o.state := by
    rw [ho]
    exact sameSlots_setSlot ha rfl rfl rfl rfl
  refine h.rest hsame ?_ ?_ (fun b => ?_) hf fun g hg =>
    ⟨(hnew g hg).1, fun b hb => ((hnew g hg).2 b hb).symm ▸ ha⟩
  · rw [ho]
    rfl
  · rw [ho]
    rfl
  · rw [ho]
    by_cases hba : b = a
    · rw [hba, heap_setSlot_self]
    · rw [heap_setSlot_ne hba]

/-- The lock of the manager is taken or released. -/
theorem SlotsSound.setManager (h : SlotsSound m (f ::ₘ R)) {mu : Bool} {mapv : Option DERPMap}
    (ho : o.state = { m with mu, mapv })
    (hlocked : Outcome.weight DerpFrame.holdsManager o + m.mu.toNat =
      mu.toNat + f.holdsManager) (hf : ∀ a, f.holdsSlot a = 0) (hcloses : f.closes = false)
    (hnew : ∀ g ∈ o.frames,
      (∀ a, g.holdsSlot a = 0) ∧ g.closes = false ∧ g.slots = [] ∧ g.Holds m) :
    SlotsSound o.state (o.frames + R) := by
  have hsame : m.SameSlots o.state := by
    rw [ho]
    exact ⟨rfl, rfl, rfl, rfl, fun _ => rfl, fun _ => rfl, fun _ => rfl, fun _ => rfl,
      fun _ _ => rfl⟩
  have hslotLocked (a : Nat) := weight_eq_zero fun g hg => (hnew g hg).1 a
  refine h.move hsame (by rw [ho]) (by rw [ho]; exact hlocked) (fun a => ?_) hcloses fun g hg => ?_
  · rw [hslotLocked, hf, ho, Nat.zero_add, Nat.add_zero]
  · obtain ⟨-, hcloses, hslots, hholds⟩ := hnew g hg
    rw [hslots]
    exact ⟨hcloses, nofun, hholds⟩

/-- `getClient` takes the lock of a slot. -/
theorem SlotsSound.lockSlot {caller : DerpCaller} (h : SlotsSound m (.getClient a caller ::ₘ R))
    (hmu : ¬ (m.heap a).mu) {connected : Bool} (hconnected : connected = (m.heap a).connected)
    (ho : o = { state := m.setSlot a { m.heap a with mu := true, connected }, calls := [g] })
    (hg : g.holdsManager = 0 ∧ (∀ b, g.holdsSlot b = if a = b then 1 else 0) ∧ g.slots = [a] ∧
      g.closes = false) (hholds : g.Holds m) :
    SlotsSound o.state (o.frames + R) := by
  obtain ⟨hmanager, hlock, hslots, hcloses⟩ := hg
  have ha : a < m.allocated := h.points _ (mem_cons_self _ _) a (List.mem_singleton_self a)
  have hnew : ∀ g' ∈ o.frames, g' = g := by
    rw [ho]
    simp [Outcome.frames]
  subst ho
  refine h.move (sameSlots_setSlot ha rfl rfl rfl hconnected) rfl ?_ (fun b => ?_) rfl
    fun g' hg' => ?_
  · rw [weight_call, hmanager]
    exact Nat.add_comm _ _
  · rw [weight_call, hlock]
    by_cases hba : b = a
    · subst hba
      rw [heap_setSlot_self, Bool.eq_false_iff.mpr hmu, if_pos rfl]
      rfl
    · rw [heap_setSlot_ne hba, if_neg (Ne.symm hba)]
      exact Nat.add_comm _ _
  · rw [hnew g' hg', hslots]
    refine ⟨hcloses, fun b hb => ?_, hholds⟩
    rw [List.mem_singleton.mp hb]
    exact ha

/-- The lock of a slot is released. -/
theorem SlotsSound.unlockSlot {client : Option Nat} {caller : DerpCaller}
    (h : SlotsSound m (.unlockSlot a client caller ::ₘ R))
    (ho : o = { state := m.setSlot a { m.heap a with mu := false },
                calls := caller.next a client }) :
    SlotsSound o.state (o.frames + R) := by
  have ha : a < m.allocated := h.points _ (mem_cons_self _ _) a (List.mem_singleton_self a)
  have hnext : ∀ g ∈ caller.next a client, g.quiet ∧ ∀ b ∈ g.slots, b = a := by
    cases caller <;> cases client <;>
      simp [DerpCaller.next, DerpFrame.quiet, DerpFrame.slots]
  have hnew : ∀ g ∈ o.frames, g ∈ caller.next a client := by
    rw [ho]
    simp [Outcome.frames]
  obtain ⟨hmu, -⟩ := h.slot_holder (a := a) (if_pos rfl)
  have hspec (g : DerpFrame) (hg : g ∈ o.frames) :=
    DerpFrame.quiet_spec (m := m) (hnext g (hnew g hg)).1
  have hlocked := weight_eq_zero fun g hg => (hspec g hg).1
  have hslotLocked (b : Nat) := weight_eq_zero fun g hg => (hspec g hg).2.1 b
  subst ho
  refine h.move (sameSlots_setSlot ha rfl rfl rfl rfl) rfl ?_ (fun b => ?_) rfl fun g hg => ?_
  · rw [hlocked]
    exact Nat.add_comm _ _
  · rw [hslotLocked]
    by_cases hba : b = a
    · subst hba
      rw [heap_setSlot_self, hmu, DerpFrame.holdsSlot, if_pos rfl]
      rfl
    · rw [heap_setSlot_ne hba, DerpFrame.holdsSlot, if_neg (Ne.symm hba)]
      exact Nat.add_comm _ _
  · obtain ⟨-, hslots⟩ := hnext g (hnew g hg)
    obtain ⟨-, -, hcloses, hholds⟩ := hspec g hg
    exact ⟨hcloses, fun b hb => (hslots b hb).symm ▸ ha, hholds⟩

/-! ## Steps that change a slot -/

/-- A slot is changed, and possibly a client dialed or closed; the manager has the same slots. -/
theorem SlotsOk.setSlot (h : SlotsOk m) (a : Nat) (slot : DerpSlot) (n : Nat) (closed : Finset Nat)
    (hregion : slot.region = (m.heap a).region) (hn : m.dialed ≤ n)
    (hslot : SlotOk { m.setSlot a slot with dialed := n, closedClients := closed } a slot)
    (hunique : ∀ c, slot.client = some c → ∀ b ≠ a, (m.heap b).client ≠ some c) :
    SlotsOk { m.setSlot a slot with dialed := n, closedClients := closed } where
  slot := by
    refine (Function.forall_update_iff m.heap _).mpr ⟨hslot, fun b _ => ?_⟩
    obtain ⟨hfresh, hremoved, hunconfigured, hconnected, hinstalled⟩ := h.slot b
    exact ⟨hfresh, hremoved, hunconfigured, hconnected, fun c hc => (hinstalled c hc).trans_le hn⟩
  listed id b hb := by
    obtain ⟨hid, hrest⟩ := h.listed id b hb
    refine ⟨?_, hrest⟩
    show ((m.setSlot a slot).heap b).region = id
    by_cases hba : b = a
    · subst hba
      rw [heap_setSlot_self, hregion, hid]
    · rw [heap_setSlot_ne hba, hid]
  removed := h.removed
  unique b b' c hb hb' := by
    have hne {x : Nat} (hx : x ≠ a) : ((m.setSlot a slot).heap x).client = (m.heap x).client := by
      rw [heap_setSlot_ne hx]
    have heq : ((m.setSlot a slot).heap a).client = slot.client := by rw [heap_setSlot_self]
    by_cases hba : b = a <;> by_cases hba' : b' = a
    · rw [hba, hba']
    · subst hba
      exact absurd ((hne hba').symm.trans hb') (hunique c (heq.symm.trans hb) b' hba')
    · subst hba'
      exact absurd ((hne hba).symm.trans hb) (hunique c (heq.symm.trans hb') b hba)
    · exact h.unique b b' c ((hne hba).symm.trans hb) ((hne hba').symm.trans hb')

theorem ClientsOk.change (h : ClientsOk m (f ::ₘ R)) (hok : SlotsOk m) (a : Nat)
    (hf : f.closes = false) (hheap : ∀ b, b ≠ a → m'.heap b = m.heap b)
    (hgain : m'.dialed = m.dialed ∧
        (∀ c, (m'.heap a).client = some c → (m.heap a).client = some c) ∨
      m'.dialed = m.dialed + 1 ∧ (m'.heap a).client = some m.dialed)
    {N : Multiset DerpFrame}
    (hlost : ∀ c, (m.heap a).client = some c →
      (m'.heap a).client = some c ∨ c ∈ m'.closedClients ∨ .closeClient c ∈ N)
    (hclosed : m.closedClients ⊆ m'.closedClients)
    (hclosing : ∀ c, c ∈ m'.closedClients ∨ .closeClient c ∈ N →
      c ∈ m.closedClients ∨ (m.heap a).client = some c ∧ (m'.heap a).client = none) :
    ClientsOk m' (N + R) where
  dialed c hc := by
    rw [mem_add]
    by_cases hold : c < m.dialed
    · rcases h.dialed c hold with ⟨b, hb⟩ | hmem | hmem
      · by_cases hba : b = a
        · rcases hlost c (hba ▸ hb) with hnow | hmem | hmem
          · exact .inl ⟨a, hnow⟩
          · exact .inr (.inl hmem)
          · exact .inr (.inr (.inl hmem))
        · exact .inl ⟨b, (hheap b hba).symm ▸ hb⟩
      · exact .inr (.inl (hclosed hmem))
      · rcases mem_cons.mp hmem with rfl | hmem
        · cases hf
        · exact .inr (.inr (.inr hmem))
    · rcases hgain with ⟨hn, -⟩ | ⟨hn, hnow⟩
      · exact absurd (hn ▸ hc) hold
      · obtain rfl : c = m.dialed := by omega
        exact .inl ⟨a, hnow⟩
  closing c hc := by
    have hn : m.dialed ≤ m'.dialed := by omega
    -- a client that was closed, or about to be, is not installed again
    have hold (hc : c < m.dialed ∧ ∀ b, (m.heap b).client ≠ some c) :
        c < m'.dialed ∧ ∀ b, (m'.heap b).client ≠ some c := by
      refine ⟨hc.1.trans_le hn, fun b hb => ?_⟩
      by_cases hba : b = a
      · rw [hba] at hb
        rcases hgain with ⟨-, hwas⟩ | ⟨-, hdial⟩
        · exact hc.2 a (hwas c hb)
        · exact absurd hc.1 (Option.some.inj (hb.symm.trans hdial)).not_lt
      · rw [hheap b hba] at hb
        exact hc.2 b hb
    rw [mem_add, ← or_assoc] at hc
    rcases hc with hc | hc
    · rcases hclosing c hc with hmem | ⟨hwas, hnone⟩
      · exact hold (h.closing c (.inl hmem))
      · refine ⟨((hok.slot a).installed c hwas).trans_le hn, fun b hb => ?_⟩
        by_cases hba : b = a
        · rw [hba, hnone] at hb
          cases hb
        · rw [hheap b hba] at hb
          exact hba (hok.unique b a c hb hwas)
    · exact hold (h.closing c (.inr (mem_cons_of_mem hc)))

/-- A slot that no other frame has locked is changed; the locks stay as they are. A client that the
slot loses is closed or about to be, and a client that it gains was dialed now. -/
theorem SlotsSound.change (h : SlotsSound m (f ::ₘ R)) {a n : Nat} {slot : DerpSlot}
    {closed : Finset Nat}
    (ho : o.state = { m.setSlot a slot with dialed := n, closedClients := closed })
    (hf : f.closes = false) (hfree : ∀ g ∈ R, g.holdsSlot a = 0)
    (hlocked : Outcome.weight DerpFrame.holdsManager o = f.holdsManager)
    (hslotLocked : ∀ b, Outcome.weight (DerpFrame.holdsSlot b) o = f.holdsSlot b)
    (hregion : slot.region = (m.heap a).region) (hmu : slot.mu = (m.heap a).mu)
    (hconfig : slot.config = (m.heap a).config ∨ ∀ g ∈ R, g.holdsManager = 0)
    (hslot : SlotOk o.state a slot)
    (hgain : n = m.dialed ∧ (∀ c, slot.client = some c → (m.heap a).client = some c) ∨
      n = m.dialed + 1 ∧ slot.client = some m.dialed)
    (hlost : ∀ c, (m.heap a).client = some c →
      slot.client = some c ∨ c ∈ closed ∨ .closeClient c ∈ o.frames)
    (hclosed : m.closedClients ⊆ closed)
    (hclosing : ∀ c, c ∈ closed ∨ .closeClient c ∈ o.frames →
      c ∈ m.closedClients ∨ (m.heap a).client = some c ∧ slot.client = none)
    (hnew : ∀ g ∈ o.frames, (∀ b ∈ g.slots, b < m.allocated) ∧ g.Holds o.state) :
    SlotsSound o.state (o.frames + R) := by
  have hheap {b : Nat} (hb : b ≠ a) : o.state.heap b = m.heap b := by
    rw [ho]
    exact heap_setSlot_ne hb
  have hself : o.state.heap a = slot := by
    rw [ho]
    exact heap_setSlot_self
  have hok : SlotsOk o.state := by
    rw [ho] at hslot ⊢
    refine h.toSlotsOk.setSlot a slot n closed hregion (by omega) hslot fun c hc b hb hbc => ?_
    rcases hgain with ⟨-, hwas⟩ | ⟨-, hdial⟩
    · exact hb (h.unique b a c hbc (hwas c hc))
    · cases hdial.symm.trans hc
      exact Nat.lt_irrefl _ ((h.slot b).installed _ hbc)
  have hclients : ClientsOk o.state (o.frames + R) := by
    refine h.toClientsOk.change h.toSlotsOk a hf (fun _ => hheap) ?_ ?_ ?_ ?_
    all_goals
      try rw [hself]
      rw [ho]
    exacts [hgain, hlost, hclosed, hclosing]
  refine h.step hok ?_ (fun b => ?_) ?_ (fun g hg b hb => ?_) (fun g hg hheld => ⟨?_, fun b => ?_⟩)
    (fun g hg => ?_) hclients
  · rw [hlocked, ho, Nat.add_comm]
    rfl
  · rw [hslotLocked, Nat.add_comm]
    by_cases hba : b = a
    · rw [hba, hself, hmu]
    · rw [hheap hba]
  · rw [ho]
    exact le_rfl
  · have hba : b ≠ a := by
      rintro rfl
      rw [hfree g hg] at hb
      cases hb
    rw [hheap hba]
    exact ⟨rfl, rfl⟩
  · rw [ho]
    rfl
  · rcases hconfig with hconfig | hnone
    · by_cases hba : b = a
      · rw [hba, hself, hconfig]
      · rw [hheap hba]
    · rw [hnone g hg] at hheld
      cases hheld
  · obtain ⟨hpoints, hholds⟩ := hnew g hg
    refine ⟨fun b hb => ?_, hholds⟩
    rw [ho]
    exact hpoints b hb

/-- A slot that is being connected gets the client that was dialed. -/
theorem SlotsSound.install {nodes : List (Option DERPNode)} {caller : DerpCaller}
    (h : SlotsSound m (.dial a nodes caller ::ₘ R))
    (ho : o = { state := m.install a, calls := [.unlockSlot a (some m.dialed) caller],
                spawned := [[.readLoop a m.dialed]] }) :
    SlotsSound o.state (o.frames + R) := by
  have ha : a < m.allocated := h.points _ (mem_cons_self _ _) a (List.mem_singleton_self a)
  obtain ⟨hconfig, hclient⟩ := h.holds _ (mem_cons_self _ _)
  obtain ⟨-, hothers⟩ := h.slot_holder (a := a) (if_pos rfl)
  have hclose (c : Nat) : .closeClient c ∉ o.frames := by simp [ho, Outcome.frames]
  subst ho
  refine h.change rfl rfl hothers rfl (fun b => ?_) rfl rfl (.inl rfl) ?_ (.inr ⟨rfl, rfl⟩)
    (fun c hc => ?_) subset_rfl (fun c hc => .inl (hc.resolve_right (hclose c))) fun g hg => ?_
  · simp [Outcome.weight, DerpFrame.holdsSlot]
  · refine ⟨fun hle => absurd ha hle.not_gt, (h.slot a).removed, fun hnone => absurd hnone hconfig,
      rfl, fun c hc => ?_⟩
    cases hc
    exact Nat.lt_succ_self _
  · rw [hclient] at hc
    cases hc
  · have hslots : (∀ b ∈ g.slots, b = a) ∧ g.Holds (m.install a) := by
      revert g
      simp [Outcome.frames, DerpFrame.slots, DerpFrame.Holds]
    exact ⟨fun b hb => (hslots.1 b hb).symm ▸ ha, hslots.2⟩

/-- `clear` uninstalls a client and goes on to close it. -/
theorem SlotsSound.clear {expected : Option Nat} (h : SlotsSound m (.clear a expected ::ₘ R))
    (hmu : ¬ (m.heap a).mu)
    (ho : o = { state := m.uninstall a,
                calls := (m.heap a).client.toList.map DerpFrame.closeClient }) :
    SlotsSound o.state (o.frames + R) := by
  have ha : a < m.allocated := h.points _ (mem_cons_self _ _) a (List.mem_singleton_self a)
  have hmem (c : Nat) : .closeClient c ∈ o.frames ↔ (m.heap a).client = some c := by
    simp [ho, Outcome.frames]
  have hweight (weight : DerpFrame → Nat) (hw : ∀ c, weight (.closeClient c) = 0) :
      Outcome.weight weight o = 0 := by
    rw [ho]
    cases (m.heap a).client with
    | none => rfl
    | some c => exact hw c
  have hnew : ∀ g ∈ o.frames, (∀ b ∈ g.slots, b < m.allocated) ∧ g.Holds o.state := by
    rw [ho]
    simp [Outcome.frames, DerpFrame.slots, DerpFrame.Holds]
  subst ho
  refine h.change rfl rfl (fun g hg => h.slot_free hmu g (mem_cons_of_mem hg))
    (hweight _ fun _ => rfl) (fun b => hweight _ fun _ => rfl) rfl rfl (.inl rfl) ?_
    (.inl ⟨rfl, by simp⟩) (fun c hc => .inr (.inr ((hmem c).mpr hc))) subset_rfl
    (fun c hc => hc.imp_right fun hc => ⟨(hmem c).mp hc, rfl⟩) hnew
  exact ⟨fun hle => absurd ha hle.not_gt, (h.slot a).removed, fun _ => rfl, rfl, by simp⟩

theorem config_updateSlot (region : Option DERPRegion) :
    ((m.updateSlot a region).heap a).config = region := by
  unfold DerpManager.updateSlot
  split <;> exact congrArg DerpSlot.config heap_setSlot_self

theorem slots_updateSlot (region : Option DERPRegion) :
    (m.updateSlot a region).slots = m.slots := by
  unfold DerpManager.updateSlot
  split <;> rfl

/-- `updateMap` gives a slot another configuration, or takes it away and closes the client. -/
theorem SlotsSound.updateSlot (h : SlotsSound m (f ::ₘ R)) (region : Option DERPRegion)
    (hf : f.closes = false) (hholder : f.holdsManager = 1) (hslots : ∀ b, f.holdsSlot b = 0)
    (ha : a < m.allocated ∧ a ∉ m.removed) (hmu : ¬ (m.heap a).mu)
    (ho : o.state = m.updateSlot a region)
    (hlocked : Outcome.weight DerpFrame.holdsManager o = 1)
    (hslotLocked : ∀ b, Outcome.weight (DerpFrame.holdsSlot b) o = 0)
    (hnew : ∀ g ∈ o.frames, g.closes = false ∧ g.slots = [] ∧ g.Holds o.state) :
    SlotsSound o.state (o.frames + R) := by
  have hfree (g : DerpFrame) (hg : g ∈ R) := h.slot_free hmu g (mem_cons_of_mem hg)
  have hclose (c : Nat) : .closeClient c ∉ o.frames := fun hmem => nomatch (hnew _ hmem).1
  have hnew' (g : DerpFrame) (hg : g ∈ o.frames) :
      (∀ b ∈ g.slots, b < m.allocated) ∧ g.Holds o.state := by
    obtain ⟨-, hslots, hholds⟩ := hnew g hg
    rw [hslots]
    exact ⟨nofun, hholds⟩
  rw [← hholder] at hlocked
  have hslotLocked (b : Nat) := (hslotLocked b).trans (hslots b).symm
  have hnot : ¬ m.allocated ≤ a := ha.1.not_ge
  obtain ⟨-, -, hunconfigured, hconnected, hinstalled⟩ := h.slot a
  unfold DerpManager.updateSlot at ho
  split at ho
  · next client hclient =>
    refine h.change ho hf hfree hlocked hslotLocked rfl rfl (.inr (h.holder hholder).2) ?_
      (.inl ⟨rfl, nofun⟩) (fun c hc => .inr (.inl ?_)) (Finset.subset_insert _ _) (fun c hc => ?_)
      hnew'
    · rw [ho]
      exact ⟨fun hle => absurd hle hnot, fun hmem => absurd hmem ha.2, fun _ => rfl, rfl, nofun⟩
    · exact Finset.mem_insert.mpr (.inl (Option.some.inj (hc.symm.trans hclient)))
    · rcases Finset.mem_insert.mp (hc.resolve_right (hclose c)) with rfl | hc
      · exact .inr ⟨hclient, rfl⟩
      · exact .inl hc
  · next hkeep =>
    refine h.change ho hf hfree hlocked hslotLocked rfl rfl (.inr (h.holder hholder).2) ?_
      (.inl ⟨rfl, fun _ => id⟩) (fun _ => .inl) subset_rfl
      (fun c hc => .inl (hc.resolve_right (hclose c))) hnew'
    rw [ho]
    refine ⟨fun hle => absurd hle hnot, fun hmem => absurd hmem ha.2, fun hnone => ?_, hconnected,
      hinstalled⟩
    cases hclient : (m.heap a).client with
    | none => rfl
    | some client => exact absurd hclient (hkeep client hnone)

/-- `updateMap` removes a slot without a configuration. -/
theorem SlotsOk.deleteSlot (h : SlotsOk m) {id : Int} (ha : m.slots.get id = some a)
    (hconfig : (m.heap a).config = none) : SlotsOk (m.deleteSlot id a) where
  slot b := by
    refine { h.slot b with removed := fun hb => ?_ }
    rcases Finset.mem_insert.mp hb with rfl | hb
    · exact hconfig
    · exact (h.slot b).removed hb
  listed id' b hb := by
    have hb : (m.slots.erase id).get id' = some b := hb
    have hne : id' ≠ id := by
      rintro rfl
      rw [FinMap.get_erase_self] at hb
      cases hb
    rw [FinMap.get_erase_ne _ hne] at hb
    obtain ⟨hregion, hlt, hmem⟩ := h.listed id' b hb
    refine ⟨hregion, hlt, fun hb => ?_⟩
    -- the slot that is removed serves another region
    rcases Finset.mem_insert.mp hb with rfl | hb
    · exact hne (hregion.symm.trans (h.listed id b ha).1)
    · exact hmem hb
  removed b hb := by
    rcases Finset.mem_insert.mp hb with rfl | hb
    · exact (h.listed id b ha).2.1
    · exact h.removed b hb
  unique := h.unique

theorem SlotsSound.deleteSlot {id : Int} {value : Option DERPMap} {ids : List Int}
    (h : SlotsSound m (.deleteSlot id value ids ::ₘ R)) (ha : m.slots.get id = some a)
    (ho : o = { state := m.deleteSlot id a, calls := [.updateSlots value ids] }) :
    SlotsSound o.state (o.frames + R) := by
  have hconfig : (m.heap a).config = none := h.holds _ (mem_cons_self _ _) a ha
  have hnew : ∀ g ∈ o.frames, g.closes = false ∧ g.slots = [] ∧ g.Holds o.state := by
    rw [ho]
    simp [Outcome.frames, DerpFrame.closes, DerpFrame.slots, DerpFrame.Holds]
  subst ho
  refine h.step (h.toSlotsOk.deleteSlot ha hconfig) (Nat.add_comm _ _) (fun b => Nat.add_comm _ _)
    le_rfl (fun _ _ _ _ => ⟨rfl, rfl⟩) (fun g hg hheld => ?_) (fun g hg => ?_)
    (h.toClientsOk.same (fun _ => rfl) rfl rfl rfl fun g hg => (hnew g hg).1)
  · rw [(h.holder rfl).2 g hg] at hheld
    cases hheld
  · obtain ⟨-, hslots, hholds⟩ := hnew g hg
    rw [hslots]
    exact ⟨by simp, hholds⟩

/-- A new slot has no client and is not locked, like the memory it is made in. -/
theorem heap_newSlot (h : SlotsOk m) {region : Int} {config : DERPRegion} (b : Nat) :
    ((m.newSlot region config).heap b).client = (m.heap b).client ∧
      ((m.newSlot region config).heap b).mu = (m.heap b).mu := by
  by_cases hb : b = m.allocated
  · have hself : (m.newSlot region config).heap b = { region, config := some config } := by
      rw [hb]
      exact heap_setSlot_self
    rw [(h.slot b).fresh hb.ge, hself]
    exact ⟨rfl, rfl⟩
  · have hne : (m.newSlot region config).heap b = m.heap b := heap_setSlot_ne hb
    rw [hne]
    exact ⟨rfl, rfl⟩

/-- `slot` makes a slot for a region. -/
theorem SlotsOk.newSlot (h : SlotsOk m) (region : Int) (config : DERPRegion) :
    SlotsOk (m.newSlot region config) where
  slot := by
    refine (Function.forall_update_iff m.heap _).mpr ⟨?_, fun b hb => ?_⟩
    · exact ⟨fun hle => absurd hle (Nat.not_succ_le_self _),
        fun hmem => absurd (h.removed _ hmem) (Nat.lt_irrefl _), nofun, rfl, nofun⟩
    · exact { h.slot b with fresh := fun hle => (h.slot b).fresh (Nat.le_of_succ_le hle) }
  listed id a ha := by
    rw [DerpManager.newSlot, FinMap.get_insert] at ha
    split at ha
    · next hid =>
      cases ha
      refine ⟨?_, Nat.lt_succ_self _, fun hmem => Nat.lt_irrefl _ (h.removed _ hmem)⟩
      exact (congrArg DerpSlot.region heap_setSlot_self).trans hid.symm
    · obtain ⟨hregion, hlt, hmem⟩ := h.listed id a ha
      refine ⟨?_, hlt.trans (Nat.lt_succ_self _), hmem⟩
      exact (congrArg DerpSlot.region (heap_setSlot_ne hlt.ne)).trans hregion
  removed a ha := (h.removed a ha).trans (Nat.lt_succ_self _)
  unique a b c hac hbc := by
    rw [(heap_newSlot h a).1] at hac
    rw [(heap_newSlot h b).1] at hbc
    exact h.unique a b c hac hbc

theorem DerpFrame.mem_slots_of_holdsSlot (h : g.holdsSlot a = 1) : a ∈ g.slots := by
  unfold holdsSlot at h
  split at h
  · split at h
    · next heq => exact List.mem_singleton.mpr heq.symm
    · cases h
  · split at h
    · next heq => exact List.mem_singleton.mpr heq.symm
    · cases h
  · cases h

theorem DerpCaller.found_spec (caller : DerpCaller) (a : Nat) :
    (caller.found a).quiet ∧ (caller.found a).slots = [a] := by
  cases caller <;> exact ⟨rfl, rfl⟩

theorem SlotsSound.newSlot {region : Int} {config : DERPRegion} {caller : DerpCaller}
    (h : SlotsSound m (.slot region caller ::ₘ R)) (hmu : ¬ m.mu)
    (ho : o = { state := m.newSlot region config, calls := [caller.found m.allocated] }) :
    SlotsSound o.state (o.frames + R) := by
  have hfound := caller.found_spec m.allocated
  obtain ⟨hlocked, hslotLocked, hclose, -⟩ := DerpFrame.quiet_spec (m := m) hfound.1
  have hnew : ∀ g ∈ o.frames, g = caller.found m.allocated := by
    rw [ho]
    simp [Outcome.frames]
  subst ho
  refine h.step (h.toSlotsOk.newSlot region config) ?_ (fun b => ?_) (Nat.le_succ _)
    (fun g hg b hb => ?_) (fun g hg hheld => ?_) (fun g hg => ?_)
    (h.toClientsOk.same (fun b => (heap_newSlot h.toSlotsOk b).1) rfl rfl rfl fun g hg => ?_)
  · rw [weight_call, hlocked]
    exact Nat.add_comm _ _
  · rw [weight_call, hslotLocked, (heap_newSlot h.toSlotsOk b).2]
    exact Nat.add_comm _ _
  · have hlt := h.points g (mem_cons_of_mem hg) b (DerpFrame.mem_slots_of_holdsSlot hb)
    have hheap : (m.newSlot region config).heap b = m.heap b := heap_setSlot_ne hlt.ne
    rw [hheap]
    exact ⟨rfl, rfl⟩
  · rw [h.free hmu g (mem_cons_of_mem hg)] at hheld
    cases hheld
  · rw [hnew g hg, hfound.2]
    refine ⟨fun b hb => ?_, (DerpFrame.quiet_spec hfound.1).2.2.2⟩
    rw [List.mem_singleton.mp hb]
    exact Nat.lt_succ_self _
  · rw [hnew g hg]
    exact hclose

/-- The connection of a client is closed. -/
theorem SlotsSound.closeClient {c : Nat} (h : SlotsSound m (.closeClient c ::ₘ R))
    (ho : o = { state := { m with closedClients := insert c m.closedClients } }) :
    SlotsSound o.state (o.frames + R) := by
  have hsame : m.SameSlots { m with closedClients := insert c m.closedClients } :=
    ⟨rfl, rfl, rfl, rfl, fun _ => rfl, fun _ => rfl, fun _ => rfl, fun _ => rfl, fun _ _ => rfl⟩
  have hmem (c' : Nat) : c' ∈ insert c m.closedClients ∨ .closeClient c' ∈ R ↔
      c' ∈ m.closedClients ∨ .closeClient c' ∈ DerpFrame.closeClient c ::ₘ R := by
    rw [Finset.mem_insert, mem_cons, DerpFrame.closeClient.injEq, or_left_comm, or_assoc]
  subst ho
  refine h.step (h.toSlotsOk.same hsame) (Nat.add_comm _ _) (fun b => Nat.add_comm _ _) le_rfl
    (fun _ _ _ _ => ⟨rfl, rfl⟩) (fun _ _ _ => ⟨rfl, fun _ => rfl⟩) nofun ?_
  rw [Outcome.frames_none]
  exact ⟨fun c' hc' => (h.dialed c' hc').imp_right (hmem c').mpr,
    fun c' hc' => h.closing c' ((hmem c').mp hc')⟩

/-! ## Runs -/

/-- The slots of the manager exist. -/
theorem SlotsOk.lt_of_mem_listSlots (h : SlotsOk m) {order : List Int}
    (ha : a ∈ m.listSlots order) : a < m.allocated := by
  obtain ⟨id, -, hid⟩ := List.mem_filterMap.mp ha
  exact (h.listed id a hid).2.1

/-- Every step keeps the invariant. -/
theorem keeps_slotsSound : derps.Keeps .any SlotsSound where
  run m f R ch o h hany ho := by
    have ho : derpStep ch m f = some o := ho
    have hpoints := h.points f (mem_cons_self _ _)
    revert ho
    fun_cases derpStep ch m f <;> intro ho <;> cases ho
    case case1 | case2 | case3 | case5 | case6 | case9 | case11 | case12 | case22 | case23 | case24
        | case25 =>
      exact h.goto rfl rfl (by simp [Outcome.frames, DerpFrame.quiet, DerpFrame.slots])
    case case27 | case31 | case46 | case49 | case50 =>
      exact h.goto rfl rfl (by simp [Outcome.frames, DerpFrame.quiet, DerpFrame.slots])
    case case7 caller _ _ config _ a ha =>
      refine h.rest (.refl m) rfl rfl (fun _ => rfl) rfl fun g hg => ?_
      obtain rfl : g = caller.found a := by simpa [Outcome.frames] using hg
      obtain ⟨hquiet, hslots⟩ := caller.found_spec a
      rw [hslots]
      refine ⟨hquiet, fun b hb => ?_⟩
      rw [List.mem_singleton.mp hb]
      exact (h.listed _ a ha).2.1
    case case8 hmu _ _ _ _ => exact h.newSlot hmu rfl
    case case10 a _ =>
      exact h.setConnecting (hpoints a (List.mem_singleton_self a)) rfl rfl
        (by simp [Outcome.frames, DerpFrame.quiet, DerpFrame.slots])
    case case13 a =>
      exact h.setConnecting (hpoints a (List.mem_singleton_self a)) rfl rfl
        (by simp [Outcome.frames])
    case case15 a _ hmu client hclient =>
      have hconnected : true = (m.heap a).connected := by
        rw [(h.slot a).connected, hclient]
        rfl
      exact h.lockSlot hmu hconnected rfl ⟨rfl, fun _ => rfl, rfl, rfl⟩ trivial
    case case16 a _ hmu _ _ => exact h.lockSlot hmu rfl rfl ⟨rfl, fun _ => rfl, rfl, rfl⟩ trivial
    case case17 a _ hmu hclient config hconfig =>
      refine h.lockSlot hmu rfl rfl ⟨rfl, fun _ => rfl, rfl, rfl⟩ ⟨?_, hclient⟩
      rw [hconfig]
      exact Option.some_ne_none _
    case case18 => exact h.swap rfl rfl (fun _ => rfl) ⟨rfl, rfl⟩ rfl trivial
    case case19 => exact h.install rfl
    case case20 =>
      have hdial := h.holds _ (mem_cons_self _ _)
      exact h.swap rfl rfl (fun _ => rfl) ⟨rfl, rfl⟩ rfl hdial
    case case21 => exact h.unlockSlot rfl
    case case28 hmu _ => exact h.clear hmu rfl
    case case29 => exact h.closeClient rfl
    case case32 hmu _ _ =>
      refine h.setManager rfl ?_ (fun _ => rfl) rfl
        (by simp [Outcome.frames, DerpFrame.closes, DerpFrame.slots, DerpFrame.Holds,
          DerpFrame.holdsSlot])
      rw [weight_call, Bool.eq_false_iff.mpr hmu]
      rfl
    case case34 | case35 | case39 =>
      exact h.swap rfl rfl (fun _ => rfl) ⟨rfl, rfl⟩ rfl trivial
    case case37 value id ids a ha hmu _ =>
      refine h.updateSlot none rfl rfl (fun _ => rfl) (h.listed id a ha).2 hmu rfl rfl
        (fun _ => rfl) fun g hg => ?_
      obtain rfl : g = .deleteSlot id value ids := by simpa [Outcome.frames] using hg
      refine ⟨rfl, rfl, fun b hb => ?_⟩
      rw [slots_updateSlot] at hb
      obtain rfl : a = b := Option.some.inj (ha.symm.trans hb)
      exact config_updateSlot none
    case case38 value id ids a ha hmu region _ =>
      exact h.updateSlot (some region) rfl rfl (fun _ => rfl) (h.listed id a ha).2 hmu rfl rfl
        (fun _ => rfl)
        (by simp [Outcome.frames, DerpFrame.closes, DerpFrame.slots, DerpFrame.Holds])
    case case40 ha => exact h.deleteSlot ha rfl
    case case41 =>
      refine h.setManager rfl ?_ (fun _ => rfl) rfl (by simp [Outcome.frames])
      rw [(h.holder rfl).1]
      rfl
    case case43 | case47 =>
      refine h.rest ⟨rfl, rfl, rfl, rfl, fun _ => rfl, fun _ => rfl, fun _ => rfl, fun _ => rfl,
        fun _ _ => rfl⟩ rfl rfl (fun _ => rfl) rfl fun g hg => ?_
      obtain rfl : g = .clearAll (m.listSlots ch.order) := by simpa [Outcome.frames] using hg
      exact ⟨rfl, fun a ha => h.toSlotsOk.lt_of_mem_listSlots ha⟩
  start m F f h _ hf := by
    have hquiet : f.quiet ∧ f.slots = [] := by
      cases f <;> first | exact ⟨rfl, rfl⟩ | cases hf
    exact h.start hquiet.1 hquiet.2
  env m m' F e h _ he := nomatch e

theorem slotsSound_empty : SlotsSound {} 0 where
  slot _ := ⟨fun _ => rfl, nofun, fun _ => rfl, rfl, nofun⟩
  listed := nofun
  removed := nofun
  unique := nofun
  dialed := nofun
  closing := nofun
  locked := rfl
  slotLocked _ := rfl
  points := nofun
  holds := nofun

end

/-- A `clear` for a client leaves any other client installed. -/
theorem client_clear {cfg cfg' : Config DerpManager DerpFrame} {t : Nat} {ch : DerpChoice}
    {a c c' : Nat} (htop : cfg.top t = some (.clear a (some c)))
    (hstep : derps.step cfg (.run t ch) = some cfg')
    (hclient : (cfg.shared.heap a).client = some c') (hne : c' ≠ c) :
    (cfg'.shared.heap a).client = some c' := by
  rw [step, htop] at hstep
  obtain ⟨o, ho, rfl⟩ := Option.map_eq_some_iff.mp hstep
  have ho : derpStep ch cfg.shared (.clear a (some c)) = some o := ho
  rw [derpStep] at ho
  split at ho
  · cases ho
  · have hother : (cfg.shared.heap a).client ≠ some c :=
      fun heq => hne (Option.some.inj (hclient.symm.trans heq))
    rw [if_pos ⟨Option.some_ne_none _, hother⟩] at ho
    cases ho
    exact hclient

/-- In every state of every interleaving each client that was dialed is installed in one slot, or it
is closed or about to be by the call that uninstalled it, and never both; a `clear` for a client
leaves any other client installed; a slot whose lock is free is connected exactly if it has a
client; and a slot that was removed has neither a configuration nor a client. -/
theorem derp_slots (acts : List (Act DerpFrame DerpChoice Empty)) :
    derps.system.Visits (fun cfg =>
      (∀ c < cfg.shared.dialed, (∃ a, (cfg.shared.heap a).client = some c) ∨
        c ∈ cfg.shared.closedClients ∨ .closeClient c ∈ cfg.frames) ∧
      (∀ a c, (cfg.shared.heap a).client = some c → c < cfg.shared.dialed ∧
        c ∉ cfg.shared.closedClients ∧ .closeClient c ∉ cfg.frames ∧
        ∀ b, (cfg.shared.heap b).client = some c → b = a) ∧
      (∀ t ch cfg' a c c', cfg.top t = some (.clear a (some c)) →
        derps.step cfg (.run t ch) = some cfg' → (cfg.shared.heap a).client = some c' → c' ≠ c →
        (cfg'.shared.heap a).client = some c') ∧
      (∀ a, (cfg.shared.heap a).mu = false →
        ((cfg.shared.heap a).connected = true ↔ (cfg.shared.heap a).client.isSome)) ∧
      ∀ a ∈ cfg.shared.removed,
        (cfg.shared.heap a).config = none ∧ (cfg.shared.heap a).client = none)
      { shared := {} } acts := by
  refine keeps_slotsSound.visits (fun cfg h => ⟨h.dialed, fun a c hc => ?_,
    fun _ _ _ _ _ _ => client_clear, fun a _ => ?_, fun a ha => ?_⟩) slotsSound_empty acts
  · exact ⟨(h.slot a).installed c hc, fun hmem => (h.closing c (.inl hmem)).2 a hc,
      fun hmem => (h.closing c (.inr hmem)).2 a hc, fun b hb => h.unique b a c hb hc⟩
  · rw [(h.slot a).connected]
  · have hconfig := (h.slot a).removed ha
    exact ⟨hconfig, (h.slot a).unconfigured hconfig⟩

end WgoTailscale
