import Mathlib.Data.List.Nodup
import WgoTailscale.Noise

/-!
# Nonces and records of the Noise transport

What the sending direction of an end keeps through every step of both ends and of the network
(`Sends`): the chunks it sealed under valid nonces are numbered from zero, each was handed over once,
nothing is sealed after a failed write or `Close`, and together they are a beginning of what was
given to `Write`. `noise_nonces_unique` follows.
-/

namespace WgoTailscale

open List

/-! ## Nonces -/

variable {n : NoiseNonce} {m : Nat} {s' : Noise}

theorem NoiseNonce.of_increment {n' : NoiseNonce} (h : n.increment = some n') :
    n.valid = true ∧ n'.head = n.head ∧ n'.counter.toNat = n.counter.toNat + 1 := by
  unfold NoiseNonce.increment at h
  split at h
  · next hvalid =>
    cases h
    refine ⟨hvalid, rfl, ?_⟩
    simp only [NoiseNonce.valid, decide_eq_true_eq] at hvalid
    have hmax : n.counter.toNat ≠ 2 ^ 64 - 1 := fun heq => hvalid.2 (UInt64.toNat_inj.mp heq)
    have hlt := n.counter.toNat_lt
    rw [UInt64.toNat_add, Nat.mod_eq_of_lt]
    · rfl
    · show n.counter.toNat + 1 < 2 ^ 64
      omega
  · cases h

theorem NoiseNonce.increment_of_valid (h : n.valid = true) : ∃ n', n.increment = some n' := ⟨_, if_pos h⟩

/-- The first nonces. -/
def noncesBelow (m : Nat) : List NoiseNonce := (List.range m).map fun i => ⟨0, UInt64.ofNat i⟩

theorem noncesBelow_succ (hhead : n.head = 0) :
    noncesBelow (n.counter.toNat + 1) = noncesBelow n.counter.toNat ++ [n] := by
  obtain ⟨head, counter⟩ := n
  obtain rfl : head = 0 := hhead
  simp [noncesBelow, range_succ]

theorem nodup_noncesBelow (hm : m ≤ 2 ^ 64) : (noncesBelow m).Nodup := by
  refine List.Nodup.map_on ?_ nodup_range
  intro i hi j hj heq
  have hcounter := congrArg (fun n : NoiseNonce => n.counter.toNat) heq
  simp only [UInt64.toNat_ofNat'] at hcounter
  rw [mem_range] at hi hj
  omega

/-- The nonces below a counter are valid. -/
theorem valid_of_mem_noncesBelow (hm : m < 2 ^ 64) (h : n ∈ noncesBelow m) : n.valid = true := by
  obtain ⟨i, hi, rfl⟩ := mem_map.mp h
  have hlt := mem_range.mp hi
  simp only [NoiseNonce.valid, decide_eq_true_eq, true_and, ne_eq]
  intro heq
  have hcounter := congrArg UInt64.toNat heq
  rw [UInt64.toNat_ofNat_of_lt' (show i < UInt64.size from Nat.lt_trans hlt hm)] at hcounter
  have hmax : noiseInvalidNonce.toNat = 2 ^ 64 - 1 := rfl
  omega

/-- The nonce at a position is that position. -/
theorem counter_of_noncesBelow {k : Nat} (hm : m < 2 ^ 64) (h : (noncesBelow m)[k]? = some n) :
    n.head = 0 ∧ n.counter.toNat = k := by
  rw [noncesBelow, List.getElem?_map] at h
  obtain ⟨i, hi, rfl⟩ := Option.map_eq_some_iff.mp h
  obtain ⟨hlt, rfl⟩ := List.getElem?_eq_some_iff.mp hi
  rw [length_range] at hlt
  rw [getElem_range]
  exact ⟨rfl, UInt64.toNat_ofNat_of_lt' (show k < UInt64.size from Nat.lt_trans hlt hm)⟩

/-! ## What the history says about a direction -/

/-- A chunk that was sealed by an end under a valid nonce. -/
def NoiseEvent.text (w : Side) : NoiseEvent → Option SealedRecord
  | .sealedText r => if r.key = w ∧ r.nonce.valid then some r else none
  | _ => none

/-- The nonce of a record that an end handed over. -/
def NoiseEvent.handedNonce (w : Side) : NoiseEvent → Option NoiseNonce
  | .handedOver side nonce _ _ _ => if side = w then some nonce else none
  | _ => none

/-- A failed underlying write or `Close`, of an end. -/
def NoiseEvent.ends (w : Side) : NoiseEvent → Prop
  | .handedOver side _ _ _ false | .closed side => side = w
  | _ => False

/-- A seal of an end. -/
def NoiseEvent.seals (w : Side) : NoiseEvent → Prop
  | .sealedText r => r.key = w
  | _ => False

/-- The end whose sending direction an event is about. -/
def NoiseEvent.sender : NoiseEvent → Option Side
  | .wrote side _ | .handedOver side _ _ _ _ | .closed side | .writePanicked side => some side
  | .sealedText r => some r.key
  | _ => none

/-- The end whose `Read` an event is about. -/
def NoiseEvent.reader : NoiseEvent → Option Side
  | .returned side _ | .readFailed side _ | .readPanicked side => some side
  | _ => none

namespace Noise

variable (s : Noise) (w : Side)

/-- The texts that an end sealed under valid nonces. -/
def texts : List SealedRecord := s.history.filterMap (NoiseEvent.text w)

/-- The nonces of the records that an end handed over. -/
def handedNonces : List NoiseNonce := s.history.filterMap (NoiseEvent.handedNonce w)

/-- What is left of the `Write` in progress. -/
def pending : List UInt8 := ((s.ends w).writing.map WriteCall.src).getD []

end Noise

/-- The bytes of some records. -/
def plainOf (rs : List SealedRecord) : List UInt8 := rs.flatMap Sealed.plain

/-- The records of some sealed chunks. -/
def framesOf (rs : List SealedRecord) : List UInt8 :=
  rs.flatMap fun r => noiseFrame r.plain r.ciphertext

/-- Every record that an end handed over is the frame of a chunk sealed under its nonce. -/
def Noise.Framed (s : Noise) (w : Side) : Prop :=
  ∀ nonce chunk frame ok, .handedOver w nonce chunk frame ok ∈ s.history →
    ∃ r, .sealedText r ∈ s.history ∧ r.key = w ∧ r.nonce = nonce ∧
      frame = noiseFrame r.plain r.ciphertext

/-- What holds of the sending direction of an end. -/
structure Sends (s : Noise) (w : Side) : Prop where
  key : ∀ k, (s.ends w).tx.cipher = some k → k = w
  head : (s.ends w).tx.nonce.head = 0
  nonces : (s.texts w).map Sealed.nonce = noncesBelow (s.ends w).tx.nonce.counter.toNat
  handed : s.handedNonces w = (s.texts w).map Sealed.nonce
  framed : s.Framed w
  formed : ∀ r ∈ s.texts w, r.plain ≠ [] ∧ r.plain.length ≤ noiseMaxPlaintext ∧
    r.ciphertext.length = r.plain.length + aeadOverhead
  ended : ∀ e ∈ s.history, e.ends w → (s.ends w).tx.cipher = none
  quiet : s.history.Pairwise fun e e' => e.ends w → ¬ e'.seals w
  accepted : ∃ m ≤ (s.texts w).length, s.wireFrom w = framesOf ((s.texts w).take m) ∧
    s.acceptedFrom w = plainOf ((s.texts w).take m) ∧
    ((s.ends w).tx.cipher ≠ none → m = (s.texts w).length)
  written : plainOf (s.texts w) <+: s.writtenBy w
  exhausted : .writePanicked w ∈ s.history → (s.ends w).tx.nonce.valid = false
  flowing : (s.ends w).tx.cipher ≠ none → .writePanicked w ∉ s.history →
    plainOf (s.texts w) ++ s.pending w = s.writtenBy w

/-! ## Steps of the sending end -/

section
variable {s : Noise} {w side : Side} {c : NoiseConn} {events : List NoiseEvent}

@[simp] theorem ends_after_self : (s.after w c events).ends w = c := Function.update_self ..

theorem ends_after_of_ne (h : w ≠ side) : (s.after side c events).ends w = s.ends w :=
  Function.update_of_ne h ..

@[simp] theorem history_after : (s.after side c events).history = s.history ++ events := rfl

@[simp] theorem texts_after : (s.after side c events).texts w =
    s.texts w ++ events.filterMap (NoiseEvent.text w) := filterMap_append

@[simp] theorem handedNonces_after : (s.after side c events).handedNonces w =
    s.handedNonces w ++ events.filterMap (NoiseEvent.handedNonce w) := filterMap_append

@[simp] theorem log_after : (s.after side c events).log =
    s.log ++ events.filterMap NoiseEvent.record := filterMap_append

@[simp] theorem writtenBy_after : (s.after side c events).writtenBy w =
    s.writtenBy w ++ events.flatMap (NoiseEvent.src w) := flatMap_append

@[simp] theorem returnedTo_after : (s.after side c events).returnedTo w =
    s.returnedTo w ++ events.flatMap (NoiseEvent.output w) := flatMap_append

@[simp] theorem acceptedFrom_after : (s.after side c events).acceptedFrom w =
    s.acceptedFrom w ++ events.flatMap (NoiseEvent.accepted w) := flatMap_append

@[simp] theorem wireFrom_after : (s.after side c events).wireFrom w =
    s.wireFrom w ++ events.flatMap (NoiseEvent.wire w) := flatMap_append

@[simp] theorem plainOf_append (rs rs' : List SealedRecord) :
    plainOf (rs ++ rs') = plainOf rs ++ plainOf rs' := flatMap_append

@[simp] theorem framesOf_append (rs rs' : List SealedRecord) :
    framesOf (rs ++ rs') = framesOf rs ++ framesOf rs' := flatMap_append

/-- What an event of a direction that sends no record has. -/
structure NoiseEvent.Plain (w : Side) (e : NoiseEvent) : Prop where
  text : e.text w = none
  handedNonce : e.handedNonce w = none
  accepted : e.accepted w = []
  wire : e.wire w = []

/-- An event that is not about a sending direction adds nothing to what is known of it. -/
theorem plain_of_sender_ne {e : NoiseEvent} (h : e.sender ≠ some w) :
    e.Plain w ∧ e.src w = [] ∧ ¬ e.ends w ∧ ¬ e.seals w := by
  cases e with
  | wrote side src =>
    have hside : side ≠ w := fun heq => h (congrArg some heq)
    exact ⟨⟨rfl, rfl, rfl, rfl⟩, if_neg hside, id, id⟩
  | handedOver side nonce chunk frame ok =>
    have hside : side ≠ w := fun heq => h (congrArg some heq)
    cases ok with
    | false => exact ⟨⟨rfl, if_neg hside, rfl, rfl⟩, rfl, hside, id⟩
    | true => exact ⟨⟨rfl, if_neg hside, if_neg hside, if_neg hside⟩, rfl, id, id⟩
  | closed side => exact ⟨⟨rfl, rfl, rfl, rfl⟩, rfl, fun heq => h (congrArg some heq), id⟩
  | sealedText r =>
    have hkey : r.key ≠ w := fun heq => h (congrArg some heq)
    exact ⟨⟨if_neg fun h => hkey h.1, rfl, rfl, rfl⟩, rfl, id, hkey⟩
  | _ => exact ⟨⟨rfl, rfl, rfl, rfl⟩, rfl, id, id⟩

/-- A step that sends no record: the cipher stays or is taken away, and as long as it is there what
was written is what was sealed and what is pending. -/
theorem Sends.keep (h : Sends s w)
    (hnonce : ((s.after side c events).ends w).tx.nonce = (s.ends w).tx.nonce)
    (hcipher : ((s.after side c events).ends w).tx.cipher = none ∨
      ((s.after side c events).ends w).tx.cipher = (s.ends w).tx.cipher)
    (hplain : ∀ e ∈ events, e.Plain w)
    (hends : ∀ e ∈ events, e.ends w → ((s.after side c events).ends w).tx.cipher = none)
    (hquiet : (s.history ++ events).Pairwise fun e e' => e.ends w → ¬ e'.seals w)
    (hpanics : .writePanicked w ∈ events → (s.ends w).tx.nonce.valid = false)
    (hflow : ((s.after side c events).ends w).tx.cipher ≠ none → .writePanicked w ∉ events →
      plainOf (s.texts w) ++ s.pending w = s.writtenBy w →
      plainOf (s.texts w) ++ (s.after side c events).pending w =
        s.writtenBy w ++ events.flatMap (NoiseEvent.src w)) :
    Sends (s.after side c events) w := by
  have hsome (hne : ((s.after side c events).ends w).tx.cipher ≠ none) :
      (s.ends w).tx.cipher ≠ none := hcipher.resolve_left hne ▸ hne
  have htexts : (s.after side c events).texts w = s.texts w := by
    rw [texts_after, filterMap_eq_nil_iff.mpr fun e he => (hplain e he).text, append_nil]
  refine ⟨fun k hk => ?_, ?_, ?_, ?_, fun nonce chunk frame ok he => ?_, ?_, fun e he hend => ?_,
    hquiet, ?_, ?_, fun he => ?_, fun hne hnot => ?_⟩
  · rw [hcipher.resolve_left (by rw [hk]; exact nofun)] at hk
    exact h.key k hk
  · rw [hnonce]
    exact h.head
  · rw [hnonce, htexts]
    exact h.nonces
  · rw [handedNonces_after, filterMap_eq_nil_iff.mpr fun e he => (hplain e he).handedNonce,
      append_nil, htexts]
    exact h.handed
  · rcases mem_append.mp he with hold | hnew
    · obtain ⟨r, hr, hkey⟩ := h.framed nonce chunk frame ok hold
      exact ⟨r, mem_append_left _ hr, hkey⟩
    · have hnone := (hplain _ hnew).handedNonce
      rw [NoiseEvent.handedNonce, if_pos rfl] at hnone
      cases hnone
  · rw [htexts]
    exact h.formed
  · rcases mem_append.mp he with hold | hnew
    · refine hcipher.elim id fun heq => heq.trans (h.ended e hold hend)
    · exact hends e hnew hend
  · obtain ⟨m, hm, hwire, haccepted, hall⟩ := h.accepted
    rw [htexts, wireFrom_after, acceptedFrom_after,
      flatMap_eq_nil_iff.mpr fun e he => (hplain e he).wire,
      flatMap_eq_nil_iff.mpr fun e he => (hplain e he).accepted, append_nil,
      append_nil]
    exact ⟨m, hm, hwire, haccepted, fun hne => hall (hsome hne)⟩
  · rw [htexts, writtenBy_after]
    exact h.written.trans (prefix_append _ _)
  · rw [hnonce]
    exact (mem_append.mp he).elim h.exhausted hpanics
  · rw [history_after, mem_append, not_or] at hnot
    rw [htexts, writtenBy_after]
    exact hflow hne hnot.2 (h.flowing (hsome hne) hnot.1)

/-- Events without a seal keep the direction quiet. -/
theorem Sends.quiet_append (h : Sends s w) (hev : ∀ e ∈ events, ¬ e.seals w) :
    (s.history ++ events).Pairwise fun e e' => e.ends w → ¬ e'.seals w :=
  pairwise_append.mpr ⟨h.quiet,
    pairwise_of_forall_mem_list fun _ _ e' he' _ => hev e' he', fun _ _ e' he' _ => hev e' he'⟩

/-- As long as there is a cipher, there may be a seal. -/
theorem Sends.quiet_seal (h : Sends s w) (hcipher : (s.ends w).tx.cipher ≠ none)
    (hev : events.Pairwise fun e e' => e.ends w → ¬ e'.seals w) :
    (s.history ++ events).Pairwise fun e e' => e.ends w → ¬ e'.seals w :=
  pairwise_append.mpr ⟨h.quiet, hev,
    fun e he _ _ hends => absurd (h.ended e he hends) hcipher⟩

/-- A step that concerns something else. -/
theorem Sends.frame (h : Sends s w)
    (hc : side = w → c.tx = (s.ends w).tx ∧ c.writing = (s.ends w).writing)
    (hev : ∀ e ∈ events, e.sender ≠ some w) : Sends (s.after side c events) w := by
  have hsame : ((s.after side c events).ends w).tx = (s.ends w).tx ∧
      ((s.after side c events).ends w).writing = (s.ends w).writing := by
    by_cases hside : side = w
    · subst hside
      rw [ends_after_self]
      exact hc rfl
    · rw [ends_after_of_ne (Ne.symm hside)]
      exact ⟨rfl, rfl⟩
  have hpending : (s.after side c events).pending w = s.pending w := by
    simp only [Noise.pending, hsame.2]
  refine h.keep (congrArg _ hsame.1) (.inr (congrArg _ hsame.1))
    (fun e he => (plain_of_sender_ne (hev e he)).1)
    (fun e he hends => absurd hends (plain_of_sender_ne (hev e he)).2.2.1)
    (h.quiet_append fun e he => (plain_of_sender_ne (hev e he)).2.2.2)
    (fun he => absurd rfl (hev _ he)) fun _ _ hflow => ?_
  rw [hpending, hflow, flatMap_eq_nil_iff.mpr fun e he => (plain_of_sender_ne (hev e he)).2.1,
    append_nil]

/-- A `Write` that passes its checks. -/
theorem Sends.write (h : Sends s w) (hfree : (s.ends w).writing = none) (src : List UInt8) :
    Sends (s.after w { s.ends w with writing := some { src } } [.wrote w src]) w := by
  have hpending : s.pending w = [] := by
    rw [Noise.pending, hfree]
    rfl
  refine h.keep (by rw [ends_after_self]) (.inr (by rw [ends_after_self])) ?_ ?_ (h.quiet_append ?_)
    (by simp) ?_
  · simp only [mem_singleton, forall_eq]
    exact ⟨rfl, rfl, rfl, rfl⟩
  · simp [NoiseEvent.ends]
  · simp [NoiseEvent.seals]
  · intro _ _ hflow
    rw [hpending, append_nil] at hflow
    simp [Noise.pending, NoiseEvent.src, hflow]

/-- A `Write` that has nothing left to write, or that panics. -/
theorem Sends.writeEnds (h : Sends s w)
    (hpanics : .writePanicked w ∈ events → (s.ends w).tx.nonce.valid = false)
    (hleft : .writePanicked w ∉ events → s.pending w = [])
    (hev : ∀ e ∈ events, e.Plain w ∧ e.src w = [] ∧ ¬ e.ends w)
    (hquiet : (s.history ++ events).Pairwise fun e e' => e.ends w → ¬ e'.seals w) :
    Sends (s.after w { s.ends w with writing := none } events) w := by
  refine h.keep (by rw [ends_after_self]) (.inr (by rw [ends_after_self])) (fun e he => (hev e he).1)
    (fun e he hends => absurd hends (hev e he).2.2) hquiet hpanics fun _ hnot hflow => ?_
  rw [hleft hnot, append_nil] at hflow
  rw [flatMap_eq_nil_iff.mpr fun e he => (hev e he).2.1, hflow]
  simp [Noise.pending]

/-- `Close`. -/
theorem Sends.close (h : Sends s w) :
    Sends (s.after w { s.ends w with tx := { (s.ends w).tx with cipher := none } } [.closed w]) w := by
  refine h.keep (by rw [ends_after_self]) (.inl (by rw [ends_after_self])) ?_
    (fun _ _ _ => by rw [ends_after_self]) (h.quiet_append ?_) (by simp) fun hne => ?_
  · simp only [mem_singleton, forall_eq]
    exact ⟨rfl, rfl, rfl, rfl⟩
  · simp [NoiseEvent.seals]
  · rw [ends_after_self] at hne
    exact absurd rfl hne

/-- A round of `Write` that hands over a record. -/
theorem Sends.record (h : Sends s w) {r : SealedRecord} {nonce : NoiseNonce} {ok : Bool}
    {rest : List UInt8} {tail : List NoiseEvent} (hcipher : (s.ends w).tx.cipher = some w)
    (hkey : r.key = w) (hrnonce : r.nonce = (s.ends w).tx.nonce)
    (hincrement : (s.ends w).tx.nonce.increment = some nonce)
    (hformed : r.plain ≠ [] ∧ r.plain.length ≤ noiseMaxPlaintext ∧
      r.ciphertext.length = r.plain.length + aeadOverhead)
    (hpending : s.pending w = r.plain ++ rest) (hcnonce : c.tx.nonce = nonce)
    (hccipher : c.tx.cipher = if ok then some w else none)
    (hcwriting : ok = true → c.writing.map WriteCall.src = some rest)
    (htail : ∀ e ∈ tail, e.sender ≠ some w) :
    Sends (s.after w c (.sealedText r ::
      .handedOver w r.nonce r.plain (noiseFrame r.plain r.ciphertext) ok :: tail)) w := by
  obtain ⟨hvalid, hhead, hcounter⟩ := NoiseNonce.of_increment hincrement
  have hnot : .writePanicked w ∉ s.history := fun he => by
    rw [h.exhausted he] at hvalid
    cases hvalid
  have hflow := h.flowing (by rw [hcipher]; exact nofun) hnot
  have htext : (NoiseEvent.sealedText r).text w = some r := if_pos ⟨hkey, hrnonce ▸ hvalid⟩
  have hplain (e : NoiseEvent) (he : e ∈ tail) := plain_of_sender_ne (htail e he)
  have htexts : (s.after w c (.sealedText r ::
      .handedOver w r.nonce r.plain (noiseFrame r.plain r.ciphertext) ok :: tail)).texts w =
      s.texts w ++ [r] := by
    rw [texts_after, filterMap_cons_some htext, filterMap_cons_none rfl,
      filterMap_eq_nil_iff.mpr fun e he => (hplain e he).1.text]
  have hwritten : (s.after w c (.sealedText r ::
      .handedOver w r.nonce r.plain (noiseFrame r.plain r.ciphertext) ok :: tail)).writtenBy w =
      s.writtenBy w := by
    rw [writtenBy_after, flatMap_eq_nil_iff.mpr, append_nil]
    simp only [mem_cons]
    rintro e (rfl | rfl | he)
    · rfl
    · rfl
    · exact (hplain e he).2.1
  refine ⟨fun k hk => ?_, ?_, ?_, ?_, fun n chunk frame ok' he => ?_, ?_, fun e he hends => ?_, ?_, ?_,
    ?_, fun he => ?_, fun hne _ => ?_⟩
  · rw [ends_after_self, hccipher] at hk
    split at hk
    · exact (Option.some.inj hk).symm
    · cases hk
  · rw [ends_after_self, hcnonce, hhead]
    exact h.head
  · rw [htexts, ends_after_self, hcnonce, hcounter, noncesBelow_succ h.head, map_append, h.nonces,
      map_singleton, hrnonce]
  · have hnonce : (NoiseEvent.handedOver w r.nonce r.plain (noiseFrame r.plain r.ciphertext)
        ok).handedNonce w = some r.nonce := if_pos rfl
    rw [htexts, handedNonces_after, h.handed, filterMap_cons_none rfl,
      filterMap_cons_some hnonce,
      filterMap_eq_nil_iff.mpr fun e he => (hplain e he).1.handedNonce, map_append]
    rfl
  · rcases mem_append.mp he with hold | hnew
    · obtain ⟨r', hr', hkey'⟩ := h.framed n chunk frame ok' hold
      exact ⟨r', mem_append_left _ hr', hkey'⟩
    · simp only [mem_cons, reduceCtorEq, false_or] at hnew
      rcases hnew with heq | hnew
      · obtain ⟨-, rfl, -, rfl, -⟩ := NoiseEvent.handedOver.inj heq
        exact ⟨r, mem_append_right _ mem_cons_self, hkey, rfl, rfl⟩
      · exact absurd rfl (htail _ hnew)
  · rw [htexts]
    intro r' hr'
    rcases mem_append.mp hr' with hold | hnew
    · exact h.formed r' hold
    · rw [mem_singleton.mp hnew]
      exact hformed
  · rw [ends_after_self, hccipher]
    rcases mem_append.mp he with hold | hnew
    · exact absurd (h.ended e hold hends) (by rw [hcipher]; exact nofun)
    · simp only [mem_cons] at hnew
      rcases hnew with rfl | rfl | hnew
      · exact absurd hends id
      · cases ok with
        | false => rfl
        | true => exact absurd hends id
      · exact absurd hends (hplain e hnew).2.2.1
  · refine h.quiet_seal (by rw [hcipher]; exact nofun) ?_
    refine pairwise_cons.mpr ⟨fun _ _ hends => absurd hends id, ?_⟩
    refine pairwise_cons.mpr ⟨fun e he _ => (hplain e he).2.2.2, ?_⟩
    exact pairwise_of_forall_mem_list fun _ _ e he _ => (hplain e he).2.2.2
  · obtain ⟨m, hm, hwire, haccepted, hall⟩ := h.accepted
    obtain rfl := hall (by rw [hcipher]; exact nofun)
    rw [take_length] at hwire haccepted
    rw [htexts, wireFrom_after, acceptedFrom_after, hwire, haccepted, ends_after_self, hccipher]
    simp only [flatMap_cons,
      flatMap_eq_nil_iff.mpr fun e he => (hplain e he).1.wire,
      flatMap_eq_nil_iff.mpr fun e he => (hplain e he).1.accepted]
    cases ok with
    | false =>
      refine ⟨(s.texts w).length, by simp, ?_, ?_, fun hne => absurd rfl hne⟩
      · rw [take_left]
        exact append_nil _
      · rw [take_left]
        exact append_nil _
    | true =>
      refine ⟨(s.texts w ++ [r]).length, Nat.le_refl _, ?_, ?_, fun _ => rfl⟩
      · rw [take_length, framesOf_append]
        simp [NoiseEvent.wire, framesOf]
      · rw [take_length, plainOf_append]
        simp [NoiseEvent.accepted, plainOf]
  · rw [htexts, hwritten, ← hflow, plainOf_append, hpending]
    exact ⟨rest, by simp [plainOf]⟩
  · refine absurd he fun he => ?_
    simp only [history_after, mem_append, mem_cons, reduceCtorEq, false_or, hnot] at he
    exact absurd rfl (htail _ he)
  · rw [ends_after_self, hccipher] at hne
    cases ok with
    | false => exact absurd rfl hne
    | true =>
      rw [htexts, hwritten, ← hflow, hpending, plainOf_append]
      simp [Noise.pending, hcwriting rfl, plainOf]

variable {A : Sealing Side NoiseNonce aeadOverhead}

/-- A round of `Write` keeps its direction. -/
theorem Sends.writeRound (h : Sends s w) {err : Option String} {call : WriteCall}
    (hcall : (s.ends w).writing = some call) (hstep : s.writeRound A w err call = some s') :
    Sends s' w := by
  have hpending : s.pending w = call.src := by
    rw [Noise.pending, hcall]
    rfl
  unfold Noise.writeRound at hstep
  dsimp only at hstep
  split at hstep
  · next hdone =>
    cases hstep
    refine h.writeEnds (by simp) (fun _ => hpending.trans hdone) ?_ (h.quiet_append ?_)
    · simp only [mem_singleton, forall_eq]
      exact ⟨⟨rfl, rfl, rfl, rfl⟩, rfl, id⟩
    · simp [NoiseEvent.seals]
  next hsrc =>
  split at hstep
  · cases hstep
  next key hcipher =>
  obtain rfl := h.key key hcipher
  have hsome : (s.ends key).tx.cipher ≠ none := by
    rw [hcipher]
    exact Option.some_ne_none _
  have hformed : call.src.take noiseMaxPlaintext ≠ [] ∧
      (call.src.take noiseMaxPlaintext).length ≤ noiseMaxPlaintext ∧
      (A.sealText key (s.ends key).tx.nonce (call.src.take noiseMaxPlaintext)).length =
        (call.src.take noiseMaxPlaintext).length + aeadOverhead := by
    refine ⟨?_, length_take_le _ _, A.length_sealText _ _ _⟩
    rw [ne_eq, take_eq_nil_iff, not_or]
    exact ⟨by decide, hsrc⟩
  split at hstep
  · next hincrement =>
    cases hstep
    have hinvalid : ¬ (s.ends key).tx.nonce.valid = true := by
      intro hvalid
      obtain ⟨nonce, hnonce⟩ := NoiseNonce.increment_of_valid hvalid
      rw [hnonce] at hincrement
      cases hincrement
    refine h.writeEnds (fun _ => Bool.eq_false_iff.mpr hinvalid) (fun hnot => by simp at hnot) ?_
      (h.quiet_seal hsome ?_)
    · simp only [mem_cons, not_mem_nil, or_false, forall_eq_or_imp, forall_eq]
      exact ⟨⟨⟨if_neg fun hv => hinvalid hv.2, rfl, rfl, rfl⟩, rfl, id⟩,
        ⟨rfl, rfl, rfl, rfl⟩, rfl, id⟩
    · simp [NoiseEvent.ends]
  next nonce hincrement =>
  have htake : s.pending key = call.src.take noiseMaxPlaintext ++
      call.src.drop (call.src.take noiseMaxPlaintext).length := by
    rw [hpending, length_take]
    rcases Nat.le_total noiseMaxPlaintext call.src.length with hle | hle
    · rw [Nat.min_eq_left hle, take_append_drop]
    · rw [Nat.min_eq_right hle, take_of_length_le hle, drop_length, append_nil]
  split at hstep
  · cases hstep
    exact h.record hcipher rfl rfl hincrement hformed htake rfl rfl
      (fun hfalse => absurd hfalse Bool.false_ne_true) (by simp [NoiseEvent.sender])
  · cases hstep
    exact h.record hcipher rfl rfl hincrement hformed htake rfl hcipher (fun _ => rfl)
      (by simp)

/-- A round of `Write` is about its own direction. -/
theorem writeRound_after {err : Option String} {call : WriteCall}
    (hkey : ∀ k, (s.ends side).tx.cipher = some k → k = side)
    (hstep : s.writeRound A side err call = some s') :
    ∃ c events, s' = s.after side c events ∧ c.rx = (s.ends side).rx ∧
      c.incoming = (s.ends side).incoming ∧
      (∀ e ∈ events, (e.sender = some side ∨ e.sender = none) ∧ e.reader = none) ∧
      (err = none → c.tx.cipher = (s.ends side).tx.cipher) := by
  unfold Noise.writeRound at hstep
  dsimp only at hstep
  split at hstep
  · cases hstep
    exact ⟨_, _, rfl, rfl, rfl, by simp [NoiseEvent.sender, NoiseEvent.reader], fun _ => rfl⟩
  split at hstep
  · cases hstep
  next key hcipher =>
  obtain rfl := hkey key hcipher
  split at hstep
  · cases hstep
    exact ⟨_, _, rfl, rfl, rfl, by simp [NoiseEvent.sender, NoiseEvent.reader], fun _ => rfl⟩
  split at hstep
  all_goals
    cases hstep
    refine ⟨_, _, rfl, rfl, rfl, by simp [NoiseEvent.sender, NoiseEvent.reader], ?_⟩
  · exact fun hnone => absurd hnone (Option.some_ne_none _)
  · exact fun _ => rfl

theorem NoiseConn.read_tx (log : List SealedRecord) (c : NoiseConn) (size : Nat) :
    (c.read log size).2.tx = c.tx ∧ (c.read log size).2.writing = c.writing := by
  unfold NoiseConn.read
  split
  · exact ⟨rfl, rfl⟩
  · split <;> exact ⟨rfl, rfl⟩

theorem sender_event (outcome : ReadOutcome) : (outcome.event side).sender = none := by
  rcases outcome with bytes | (err | -) <;> rfl

/-- Every step keeps the sending direction of both ends. -/
theorem sends_step {a : NoiseAct} (h : ∀ w, Sends s w) (hstep : s.step A a = some s') (w : Side) :
    Sends s' w := by
  cases a with
  | write side src =>
    unfold Noise.step at hstep
    dsimp only at hstep
    split at hstep
    · cases hstep
    next hfree =>
    have hrefused (written : Nat) (err : Option String) :
        Sends (s.after side (s.ends side) [.writeReturned side written err]) w :=
      (h w).frame (by rintro rfl; exact ⟨rfl, rfl⟩) (by simp [NoiseEvent.sender])
    split at hstep
    · cases hstep
      exact hrefused ..
    split at hstep
    · cases hstep
      exact hrefused ..
    · cases hstep
      by_cases hside : side = w
      · subst hside
        exact (h side).write (by simpa using hfree) src
      · exact (h w).frame (fun heq => absurd heq hside) (by simpa [NoiseEvent.sender] using hside)
  | writeRound side err =>
    obtain ⟨call, hcall, hround⟩ := Option.bind_eq_some_iff.mp hstep
    by_cases hside : side = w
    · subst hside
      exact (h side).writeRound hcall hround
    · obtain ⟨c, events, rfl, -, -, hev, -⟩ := writeRound_after (h side).key hround
      refine (h w).frame (fun heq => absurd heq hside) fun e he hsender => ?_
      rcases (hev e he).1 with heq | heq
      · exact hside (Option.some.inj (heq.symm.trans hsender))
      · rw [heq] at hsender
        cases hsender
  | read side size =>
    cases hstep
    refine (h w).frame (by rintro rfl; exact NoiseConn.read_tx ..) ?_
    simp [sender_event]
  | deliver | closeRx =>
    cases hstep
    exact (h w).frame (by rintro rfl; exact ⟨rfl, rfl⟩) nofun
  | closeTx side =>
    unfold Noise.step at hstep
    dsimp only at hstep
    split at hstep
    · cases hstep
    cases hstep
    by_cases hside : side = w
    · subst hside
      exact (h side).close
    · exact (h w).frame (fun heq => absurd heq hside) (by simpa [NoiseEvent.sender] using hside)

end

theorem sends_start (w : Side) : Sends noiseStart w where
  key _ hk := (Option.some.inj hk).symm
  head := rfl
  nonces := rfl
  handed := rfl
  framed := nofun
  formed := nofun
  ended := nofun
  quiet := .nil
  accepted := ⟨0, Nat.le_refl _, rfl, rfl, fun _ => rfl⟩
  written := ⟨_, rfl⟩
  exhausted := nofun
  flowing _ _ := rfl

/-! ## Nonces are never reused -/

/-- Every record that an end handed over was sealed under its nonce, no two under the same one, none
under the reserved one, and nothing is sealed after a failed write or `Close`. -/
structure NoncesUnique (s : Noise) (w : Side) : Prop where
  framed : s.Framed w
  distinct : (s.handedNonces w).Nodup
  reserved : ∀ n ∈ s.handedNonces w, n.counter ≠ noiseInvalidNonce
  quiet : s.history.Pairwise fun e e' => e.ends w → ¬ e'.seals w

theorem Sends.noncesUnique {s : Noise} {w : Side} (h : Sends s w) : NoncesUnique s w := by
  have hlt := (s.ends w).tx.nonce.counter.toNat_lt
  refine ⟨h.framed, ?_, fun n hn => ?_, h.quiet⟩
  · rw [h.handed, h.nonces]
    exact nodup_noncesBelow (Nat.le_of_lt hlt)
  · rw [h.handed, h.nonces] at hn
    have hvalid := valid_of_mem_noncesBelow hlt hn
    simp only [NoiseNonce.valid, decide_eq_true_eq] at hvalid
    exact hvalid.2

/-- However `Write` and `Close` are called at both ends, whatever underlying writes fail and however
many records there are, the nonces of an end are never reused. -/
theorem noise_nonces_unique (A : Sealing Side NoiseNonce aeadOverhead) (acts : List NoiseAct) :
    (noiseSystem A).Visits (fun s => ∀ w, NoncesUnique s w) noiseStart acts :=
  System.visits_of_invariant (J := fun s => ∀ w, Sends s w) (fun _ _ _ h hstep => sends_step h hstep)
    (fun _ h w => (h w).noncesUnique) sends_start acts

end WgoTailscale
