import WgoTailscale.NoiseSafety

/-!
# What the Noise transport delivers

The texts that an end has accepted are the first ones that the other end sealed, in order, whatever
the network delivers (`Receives`): opening succeeds under the nonce that counts the accepted records
only on the record of that number. So what is read is a beginning of what was written. If the network
delivers the records as they are, in any segments, every `Read` gets bytes until all of them are read
(`delivers_all`). `noise_transport_integrity` is both.
-/

namespace WgoTailscale

open List

/-! ## Accepted texts -/

/-- What was returned and what is buffered are the first of the texts; the nonce counts them as long
as the direction is usable. -/
def Accepts (texts : List SealedRecord) (returned : List UInt8) (rx : NoiseDirection) : Prop :=
  ∃ k ≤ texts.length, returned ++ rx.plain = plainOf (texts.take k) ∧
    (rx.cipher ≠ none → rx.nonce.head = 0 ∧ rx.nonce.counter.toNat = k)

theorem plainOf_take_le (texts : List SealedRecord) (k : Nat) :
    plainOf (texts.take k) <+: plainOf texts := by
  conv_rhs => rw [← take_append_drop k texts, plainOf_append]
  exact prefix_append _ _

variable {log : List SealedRecord} {w : Side} {m : Nat} {r : SealedRecord} {a : NoiseAct}

section
variable {texts : List SealedRecord} {returned : List UInt8} {rx : NoiseDirection}

/-- Further texts change nothing. -/
theorem Accepts.append (h : Accepts texts returned rx) (more : List SealedRecord) :
    Accepts (texts ++ more) returned rx := by
  obtain ⟨k, hk, hplain, hnonce⟩ := h
  refine ⟨k, by rw [length_append]; omega, ?_, hnonce⟩
  rw [take_append_of_le_length hk]
  exact hplain

/-- What was returned is a beginning of the texts. -/
theorem Accepts.begins (h : Accepts texts returned rx) : returned <+: plainOf texts := by
  obtain ⟨k, -, hplain, -⟩ := h
  have htake := plainOf_take_le texts k
  rw [← hplain] at htake
  exact (prefix_append _ _).trans htake

/-- The text that opens under a nonce is the one of that number. -/
theorem text_of_open {nonce : NoiseNonce} {ciphertext plain : List UInt8}
    (hlog : ∀ r ∈ log, r.key = w → r.nonce.valid = true → r ∈ texts)
    (hnonces : texts.map Sealed.nonce = noncesBelow m) (hm : m < 2 ^ 64)
    (hvalid : nonce.valid = true) (hopen : openSealed log w nonce ciphertext = some plain) :
    ∃ r, texts[nonce.counter.toNat]? = some r ∧ r.plain = plain := by
  obtain ⟨r, hr, hkey, rfl, rfl⟩ := mem_of_openSealed hopen
  obtain ⟨k, hk⟩ := mem_iff_getElem?.mp (hlog r hr hkey hvalid)
  have hnonce : (noncesBelow m)[k]? = some r.nonce := by
    rw [← hnonces, List.getElem?_map, hk]
    rfl
  rw [(counter_of_noncesBelow hm hnonce).2]
  exact ⟨r, hk, rfl⟩

/-- The loop of `Read` accepts texts in order. -/
theorem accepts_fillPlain (incoming : List Incoming)
    (hlog : ∀ r ∈ log, r.key = w → r.nonce.valid = true → r ∈ texts)
    (hnonces : texts.map Sealed.nonce = noncesBelow m) (hm : m < 2 ^ 64)
    (hcipher : rx.cipher = some w) (h : Accepts texts returned rx) :
    Accepts texts returned (fillPlain log w rx incoming).1 ∧
      ((fillPlain log w rx incoming).1.cipher = none ∨
        (fillPlain log w rx incoming).1.cipher = some w) := by
  fun_induction fillPlain log w rx incoming with
  | case1 | case2 | case3 | case4 | case5 | case6 => exact ⟨h, .inr hcipher⟩
  | case7 =>
    obtain ⟨k, hk, hplain, -⟩ := h
    exact ⟨⟨k, hk, hplain, fun hne => absurd rfl hne⟩, .inl rfl⟩
  | case8 rx incoming hempty header rest _ _ _ ciphertext rest' _ nonce hincrement plain hopen ih =>
    obtain ⟨k, hk, hplain, hnonce⟩ := h
    obtain ⟨hhead, hcounter⟩ := hnonce (by rw [hcipher]; exact nofun)
    obtain ⟨hvalid, hhead', hcounter'⟩ := NoiseNonce.of_increment hincrement
    obtain ⟨r, hr, rfl⟩ := text_of_open hlog hnonces hm hvalid hopen
    rw [hcounter] at hr
    refine ih hcipher ⟨k + 1, (List.getElem?_eq_some_iff.mp hr).1, ?_, fun _ => ?_⟩
    · rw [not_ne_iff.mp hempty, append_nil] at hplain
      rw [take_add_one, hr, plainOf_append, ← hplain]
      simp [plainOf]
    · exact ⟨hhead'.trans hhead, hcounter'.trans (congrArg (· + 1) hcounter)⟩

/-- `Read` returns what it accepted. -/
theorem accepts_read {c : NoiseConn} {size : Nat}
    (hlog : ∀ r ∈ log, r.key = w → r.nonce.valid = true → r ∈ texts)
    (hnonces : texts.map Sealed.nonce = noncesBelow m) (hm : m < 2 ^ 64)
    (hkey : ∀ k, c.rx.cipher = some k → k = w) (h : Accepts texts returned c.rx) :
    Accepts texts (returned ++ (c.read log size).1.bytes) (c.read log size).2.rx ∧
      ∀ k, (c.read log size).2.rx.cipher = some k → k = w := by
  unfold NoiseConn.read
  split
  · exact ⟨by rw [ReadOutcome.bytes, append_nil]; exact h, hkey⟩
  next key hcipher =>
  obtain rfl := hkey key hcipher
  obtain ⟨haccepts, hafter⟩ := accepts_fillPlain c.incoming hlog hnonces hm hcipher h
  generalize fillPlain log key c.rx c.incoming = result at haccepts hafter ⊢
  obtain ⟨rx, incoming, stop⟩ := result
  have hkey' : ∀ k, rx.cipher = some k → k = key := by
    intro k hk
    rcases hafter with hnone | hsome
    · rw [show rx.cipher = none from hnone] at hk
      cases hk
    · rw [show rx.cipher = some key from hsome] at hk
      exact (Option.some.inj hk).symm
  cases stop with
  | some stop => exact ⟨by rw [ReadOutcome.bytes, append_nil]; exact haccepts, hkey'⟩
  | none =>
    obtain ⟨k, hk, hplain, hnonce⟩ := haccepts
    refine ⟨⟨k, hk, ?_, hnonce⟩, hkey'⟩
    rw [ReadOutcome.bytes, append_assoc, take_append_drop]
    exact hplain

end

/-! ## Steps -/

/-- An act on the receiving direction of an end: `Read`, a delivery, the first half of `Close`. -/
def NoiseAct.receives (w : Side) : NoiseAct → Prop
  | .read side _ | .deliver side _ | .closeRx side => side = w
  | _ => False

/-- An act that ends the sending direction of an end: a failed underlying write, the second half of
`Close`. -/
def NoiseAct.breaks (w : Side) : NoiseAct → Prop
  | .writeRound side err => side = w ∧ err ≠ none
  | .closeTx side => side = w
  | _ => False

/-- What holds of the receiving direction at the other end of `w`. -/
structure Receives (s : Noise) (w : Side) : Prop where
  key : ∀ k, (s.ends w.other).rx.cipher = some k → k = w
  accepts : Accepts (s.texts w) (s.returnedTo w.other) (s.ends w.other).rx

section
variable {s s' : Noise} {side : Side} {c : NoiseConn} {events : List NoiseEvent}

/-- Events that are not of an end's `Read` return nothing there. -/
theorem output_of_reader (hev : ∀ e ∈ events, e.reader ≠ some w) :
    events.flatMap (NoiseEvent.output w) = [] := by
  refine flatMap_eq_nil_iff.mpr fun e he => ?_
  cases e with
  | returned side bytes => exact if_neg fun h => hev _ he (congrArg some h)
  | _ => rfl

theorem Side.other_other (w : Side) : w.other.other = w := by cases w <;> rfl

/-- A step that returns nothing. -/
theorem Receives.frame (h : Receives s w)
    (hrx : side = w.other → c.rx = (s.ends w.other).rx)
    (hev : ∀ e ∈ events, e.reader ≠ some w.other) : Receives (s.after side c events) w := by
  have hsame : ((s.after side c events).ends w.other).rx = (s.ends w.other).rx := by
    by_cases hside : side = w.other
    · subst hside
      rw [ends_after_self]
      exact hrx rfl
    · rw [ends_after_of_ne (Ne.symm hside)]
  refine ⟨?_, ?_⟩
  · rw [hsame]
    exact h.key
  · rw [hsame, texts_after, returnedTo_after, output_of_reader hev, append_nil]
    exact h.accepts.append _

variable {A : Sealing Side NoiseNonce aeadOverhead}

/-- The texts of a direction are those of its key that were sealed under valid nonces. -/
theorem mem_texts (hr : r ∈ s.log) (hkey : r.key = w) (hvalid : r.nonce.valid = true) :
    r ∈ s.texts w := by
  obtain ⟨e, he, hrecord⟩ := mem_filterMap.mp hr
  refine mem_filterMap.mpr ⟨e, he, ?_⟩
  cases e with
  | sealedText r' =>
    cases hrecord
    exact if_pos ⟨hkey, hvalid⟩
  | _ => cases hrecord

theorem log_of_texts (hr : r ∈ s.texts w) : r ∈ s.log ∧ r.key = w := by
  obtain ⟨e, he, htext⟩ := mem_filterMap.mp hr
  cases e with
  | sealedText r' =>
    obtain ⟨hcond, hsome⟩ := Option.ite_none_right_eq_some.mp htext
    cases hsome
    exact ⟨mem_filterMap.mpr ⟨_, he, rfl⟩, hcond.1⟩
  | _ => cases htext

theorem output_event (outcome : ReadOutcome) : (outcome.event side).output side = outcome.bytes := by
  rcases outcome with bytes | (err | -)
  · exact if_pos rfl
  · rfl
  · rfl

theorem reader_event (outcome : ReadOutcome) : (outcome.event side).reader = some side := by
  rcases outcome with bytes | (err | -) <;> rfl

/-- An event of a `Read` at an end shows that the act was on its receiving direction. -/
theorem not_reader {e : NoiseEvent} (he : e.reader = none ∨ e.reader = some side ∧ a.receives side)
    (ha : ¬ a.receives w) : e.reader ≠ some w := by
  rcases he with hnone | ⟨hside, hreceives⟩
  · rw [hnone]
    exact nofun
  · rw [hside]
    rintro ⟨⟩
    exact ha hreceives

/-- What an act makes of the end it is at. -/
theorem step_after (hs : ∀ w, Sends s w) (hstep : s.step A a = some s') :
    ∃ side c events, s' = s.after side c events ∧
      (∀ e ∈ events, e.reader = none ∨ e.reader = some side ∧ a.receives side) ∧
      (¬ a.receives side → c.rx = (s.ends side).rx ∧ c.incoming = (s.ends side).incoming) ∧
      (¬ a.breaks side → c.tx.cipher = (s.ends side).tx.cipher) := by
  cases a with
  | write side src =>
    unfold Noise.step at hstep
    dsimp only at hstep
    split at hstep
    · cases hstep
    repeat' split at hstep
    all_goals
      cases hstep
      exact ⟨side, _, _, rfl, by simp [NoiseEvent.reader], fun _ => ⟨rfl, rfl⟩, fun _ => rfl⟩
  | writeRound side err =>
    obtain ⟨call, hcall, hround⟩ := Option.bind_eq_some_iff.mp hstep
    obtain ⟨c, events, rfl, hrx, hincoming, hev, hcipher⟩ := writeRound_after (hs side).key hround
    exact ⟨side, c, events, rfl, fun e he => .inl (hev e he).2, fun _ => ⟨hrx, hincoming⟩,
      fun hbreaks => hcipher (not_not.mp fun hne => hbreaks ⟨rfl, hne⟩)⟩
  | read side size =>
    cases hstep
    exact ⟨side, _, _, rfl, by simp [reader_event, NoiseAct.receives], fun h => absurd rfl h,
      fun _ => congrArg NoiseDirection.cipher (NoiseConn.read_tx ..).1⟩
  | deliver | closeRx =>
    cases hstep
    exact ⟨_, _, _, rfl, by simp, fun h => absurd rfl h, fun _ => rfl⟩
  | closeTx side =>
    unfold Noise.step at hstep
    dsimp only at hstep
    split at hstep
    · cases hstep
    cases hstep
    exact ⟨side, _, _, rfl, by simp [NoiseEvent.reader], fun _ => ⟨rfl, rfl⟩,
      fun h => absurd rfl h⟩

/-- Every step keeps the receiving direction of both ends. -/
theorem receives_step (hs : ∀ w, Sends s w) (h : ∀ w, Receives s w) (hstep : s.step A a = some s')
    (w : Side) : Receives s' w := by
  by_cases ha : a.receives w.other
  · cases a with
    | read side size =>
      obtain rfl : side = w.other := ha
      cases hstep
      have hlt := (s.ends w).tx.nonce.counter.toNat_lt
      obtain ⟨haccepts, hkey⟩ := accepts_read (fun r hr => mem_texts hr) (hs w).nonces hlt (h w).key
        (h w).accepts
      refine ⟨by rw [ends_after_self]; exact hkey, ?_⟩
      rw [ends_after_self, texts_after, returnedTo_after, flatMap_singleton, output_event]
      exact haccepts.append _
    | deliver side more =>
      cases hstep
      exact (h w).frame (fun heq => by rw [heq]) nofun
    | closeRx side =>
      obtain rfl : side = w.other := ha
      cases hstep
      obtain ⟨k, hk, hplain, -⟩ := (h w).accepts
      refine ⟨by simp, ?_⟩
      rw [ends_after_self, texts_after, returnedTo_after, flatMap_nil, append_nil]
      have hclosed : Accepts (s.texts w) (s.returnedTo w.other)
          { (s.ends w.other).rx with cipher := none } :=
        ⟨k, hk, hplain, fun hne => absurd rfl hne⟩
      exact hclosed.append _
    | _ => exact ha.elim
  · obtain ⟨side, c, events, rfl, hev, hsame, -⟩ := step_after hs hstep
    exact (h w).frame (fun heq => heq ▸ (hsame (heq ▸ ha)).1) fun e he => not_reader (hev e he) ha

end

theorem receives_start (w : Side) : Receives noiseStart w where
  key k hk := by
    rw [← Side.other_other w]
    exact (Option.some.inj hk).symm
  accepts := ⟨0, Nat.le_refl _, rfl, fun _ => ⟨rfl, rfl⟩⟩

/-- What is read at one end is a beginning of what was written at the other. -/
theorem reads_written {s : Noise} (hs : Sends s w) (h : Receives s w) :
    s.returnedTo w.other <+: s.writtenBy w :=
  h.accepts.begins.trans hs.written

/-- Both directions, in every state of every run. -/
theorem directions_step {A : Sealing Side NoiseNonce aeadOverhead} (s s' : Noise) (a : NoiseAct)
    (h : (∀ w, Sends s w) ∧ ∀ w, Receives s w) (hstep : (noiseSystem A).step s a = some s') :
    (∀ w, Sends s' w) ∧ ∀ w, Receives s' w :=
  ⟨sends_step h.1 hstep, receives_step h.1 h.2 hstep⟩

/-! ## Records delivered as they are -/

section
variable {rx : NoiseDirection} {incoming : List Incoming}

/-- The loop of `Read` takes the next record off an unbroken stream. -/
theorem fillPlain_record {nonce : NoiseNonce} {more : List UInt8} (hempty : rx.plain = [])
    (hincrement : rx.nonce.increment = some nonce)
    (hopen : openSealed log w rx.nonce r.ciphertext = some r.plain)
    (hformed : r.plain ≠ [] ∧ r.plain.length ≤ noiseMaxPlaintext ∧
      r.ciphertext.length = r.plain.length + aeadOverhead)
    (hunbroken : Unbroken incoming)
    (hbytes : streamBytes incoming = noiseFrame r.plain r.ciphertext ++ more) :
    ∃ rest, fillPlain log w rx incoming = ({ rx with nonce, plain := r.plain }, rest, none) ∧
      Unbroken rest ∧ streamBytes rest = more := by
  obtain ⟨hne, hmax, hlength⟩ := hformed
  have hmaxPlain : noiseMaxPlaintext = 4077 := rfl
  have hoverhead : aeadOverhead = 16 := rfl
  have hheader : streamBytes incoming =
      (4 :: putUint16 (r.plain.length + aeadOverhead)) ++ (r.ciphertext ++ more) := by
    rw [hbytes, noiseFrame, append_assoc]
  obtain ⟨rest, hread, hunbroken', hbytes'⟩ := readFull_unbroken hunbroken hheader
  obtain ⟨rest', hread', hunbroken'', hbytes''⟩ := readFull_unbroken hunbroken' hbytes'
  have hget : getUint16 (putUint16 (r.plain.length + aeadOverhead)) = r.ciphertext.length := by
    have hget := getUint16_putUint16 (show r.plain.length + aeadOverhead < 2 ^ 16 by omega) []
    rw [append_nil] at hget
    rw [hget, hlength]
  refine ⟨rest', ?_, hunbroken'', hbytes''⟩
  have hthree : (4 :: putUint16 (r.plain.length + aeadOverhead)).length = noiseHeaderLen := rfl
  rw [hthree] at hread
  rw [fillPlain, if_neg (not_not.mpr hempty)]
  split
  · next h =>
    rw [hread] at h
    cases h
  next header rest₁ h =>
  rw [hread] at h
  cases h
  have hhead : ¬ List.headD (4 :: putUint16 (r.plain.length + aeadOverhead)) 0 ≠ 4 := not_not.mpr rfl
  have hsize : ¬ (getUint16 (List.tail (4 :: putUint16 (r.plain.length + aeadOverhead))) >
        noiseMaxCiphertext ∨
      getUint16 (List.tail (4 :: putUint16 (r.plain.length + aeadOverhead))) < aeadOverhead) := by
    have hmaxCipher : noiseMaxCiphertext = 4093 := rfl
    rw [tail_cons, hget, hlength]
    omega
  rw [if_neg hhead, if_neg hsize]
  split
  · next h =>
    rw [tail_cons, hget, hread'] at h
    cases h
  next ciphertext rest₂ h =>
  rw [tail_cons, hget, hread'] at h
  cases h
  simp only [hincrement, hopen]
  rw [fillPlain, if_pos hne]

/-- At the end of an unbroken stream the loop of `Read` fails, and nothing changes. -/
theorem fillPlain_drained (hempty : rx.plain = []) (hunbroken : Unbroken incoming)
    (hbytes : streamBytes incoming = []) :
    ∃ rest, fillPlain log w rx incoming = (rx, rest, some (.failed (.stream .eof))) ∧
      Unbroken rest ∧ streamBytes rest = [] := by
  have hshort : (streamBytes incoming).length < noiseHeaderLen := by
    rw [hbytes]
    decide
  obtain ⟨rest, hread, hunbroken', hbytes'⟩ := readFull_short hunbroken hshort
  rw [if_pos hbytes] at hread
  refine ⟨rest, ?_, hunbroken', hbytes'⟩
  rw [fillPlain, if_neg (not_not.mpr hempty)]
  split
  · next h =>
    rw [hread] at h
    cases h
    rfl
  · next h =>
    rw [hread] at h
    cases h

end

/-- How far the receiving direction is: `k` records were accepted, the others are to come. -/
def Progress (records : List SealedRecord) (returned : List UInt8) (rx : NoiseDirection)
    (incoming : List Incoming) : Prop :=
  ∃ k, k ≤ records.length ∧ rx.nonce = ⟨0, UInt64.ofNat k⟩ ∧
    streamBytes incoming = framesOf (records.drop k) ∧
    returned ++ rx.plain = plainOf (records.take k)

/-- The direction from `w` while some of its records are being delivered as they are: all of them can
be opened in turn; those that were not accepted yet are still to come. -/
structure Draining (s : Noise) (w : Side) (records : List SealedRecord) : Prop where
  opens : ∀ k r, records[k]? = some r →
    NoiseNonce.valid ⟨0, UInt64.ofNat k⟩ = true ∧
      openSealed s.log w ⟨0, UInt64.ofNat k⟩ r.ciphertext = some r.plain
  formed : ∀ r ∈ records, r.plain ≠ [] ∧ r.plain.length ≤ noiseMaxPlaintext ∧
    r.ciphertext.length = r.plain.length + aeadOverhead
  cipher : (s.ends w.other).rx.cipher = some w
  unbroken : Unbroken (s.ends w.other).incoming
  progress : Progress records (s.returnedTo w.other) (s.ends w.other).rx (s.ends w.other).incoming

section
variable {s : Noise} {records : List SealedRecord}

/-- The nonce after a record that can be opened. -/
theorem increment_ofNat {k : Nat}
    (hvalid : NoiseNonce.valid ⟨0, UInt64.ofNat k⟩ = true) :
    NoiseNonce.increment ⟨0, UInt64.ofNat k⟩ = some ⟨0, UInt64.ofNat (k + 1)⟩ := by
  rw [NoiseNonce.increment, if_pos hvalid]
  have hcounter : UInt64.ofNat k + 1 = UInt64.ofNat (k + 1) := by
    rw [UInt64.ofNat_add]
    rfl
  rw [hcounter]

/-- The loop of `Read` takes the next record, or everything was returned. -/
theorem Draining.fills (h : Draining s w records) :
    ∃ rx incoming stop,
      fillPlain s.log w (s.ends w.other).rx (s.ends w.other).incoming = (rx, incoming, stop) ∧
      rx.cipher = some w ∧ Unbroken incoming ∧
      Progress records (s.returnedTo w.other) rx incoming ∧
      (stop = none ∧ rx.plain ≠ [] ∨
        stop = some (.failed (.stream .eof)) ∧ s.returnedTo w.other = plainOf records) := by
  obtain ⟨k, hk, hnonce, hbytes, hplain⟩ := h.progress
  by_cases hempty : (s.ends w.other).rx.plain = []
  · rw [hempty, append_nil] at hplain
    rcases Nat.lt_or_eq_of_le hk with hlt | rfl
    · obtain ⟨hvalid, hopen⟩ := h.opens k _ (List.getElem?_eq_getElem hlt)
      have hformed := h.formed _ (getElem_mem hlt)
      have hincrement := increment_ofNat hvalid
      rw [drop_eq_getElem_cons hlt] at hbytes
      rw [← hnonce] at hincrement hopen
      obtain ⟨rest, hfill, hunbroken, hrest⟩ :=
        fillPlain_record hempty hincrement hopen hformed h.unbroken hbytes
      refine ⟨_, rest, none, hfill, h.cipher, hunbroken, ⟨k + 1, hlt, rfl, hrest, ?_⟩,
        .inl ⟨rfl, hformed.1⟩⟩
      rw [take_add_one, List.getElem?_eq_getElem hlt, plainOf_append, hplain]
      simp [plainOf]
    · rw [drop_length] at hbytes
      rw [take_length] at hplain
      obtain ⟨rest, hfill, hunbroken, hrest⟩ := fillPlain_drained hempty h.unbroken hbytes
      refine ⟨_, rest, _, hfill, h.cipher, hunbroken, ⟨records.length, Nat.le_refl _, hnonce, ?_, ?_⟩,
        .inr ⟨rfl, hplain⟩⟩
      · rw [drop_length]
        exact hrest
      · rw [hempty, append_nil, take_length]
        exact hplain
  · refine ⟨_, _, none, ?_, h.cipher, h.unbroken, ⟨k, hk, hnonce, hbytes, hplain⟩, .inl ⟨rfl, hempty⟩⟩
    rw [fillPlain, if_pos hempty]

/-- A `Read` that makes progress. -/
theorem Draining.after (h : Draining s w records) {c : NoiseConn} {outcome : ReadOutcome}
    (hcipher : c.rx.cipher = some w) (hunbroken : Unbroken c.incoming)
    (hprogress : Progress records (s.returnedTo w.other ++ outcome.bytes) c.rx c.incoming) :
    Draining (s.after w.other c [outcome.event w.other]) w records := by
  have hlog : (s.after w.other c [outcome.event w.other]).log = s.log := by
    rw [log_after]
    rcases outcome with bytes | (err | -) <;> exact append_nil _
  refine ⟨?_, h.formed, ?_, ?_, ?_⟩
  · rw [hlog]
    exact h.opens
  · rw [ends_after_self]
    exact hcipher
  · rw [ends_after_self]
    exact hunbroken
  · rw [ends_after_self, returnedTo_after, flatMap_singleton, output_event]
    exact hprogress

/-- While the records are delivered as they are, a `Read` returns bytes, at least one if there is
room, or everything was returned and the stream is at its end. -/
theorem Draining.read (h : Draining s w records) (size : Nat) :
    ∃ outcome c, (s.ends w.other).read s.log size = (outcome, c) ∧
      Draining (s.after w.other c [outcome.event w.other]) w records ∧
      ((∃ bytes, outcome = .returned bytes ∧ (0 < size → bytes ≠ [])) ∨
        outcome = .stopped (.failed (.stream .eof)) ∧ s.returnedTo w.other = plainOf records) := by
  obtain ⟨rx, incoming, stop, hfill, hcipher, hunbroken, hprogress, hstop⟩ := h.fills
  have hread : (s.ends w.other).read s.log size = match stop with
      | some stop => (.stopped stop, { s.ends w.other with rx, incoming })
      | none => (.returned (rx.plain.take size),
          { s.ends w.other with rx := { rx with plain := rx.plain.drop size }, incoming }) := by
    unfold NoiseConn.read
    simp only [h.cipher, hfill]
    cases stop <;> rfl
  rcases hstop with ⟨rfl, hne⟩ | ⟨rfl, hall⟩
  · refine ⟨_, _, hread, h.after hcipher hunbroken ?_, .inl ⟨_, rfl, fun hsize => ?_⟩⟩
    · obtain ⟨k, hk, hnonce, hbytes, hplain⟩ := hprogress
      refine ⟨k, hk, hnonce, hbytes, ?_⟩
      rw [ReadOutcome.bytes, append_assoc, take_append_drop]
      exact hplain
    · rw [ne_eq, take_eq_nil_iff, not_or]
      exact ⟨Nat.ne_of_gt hsize, hne⟩
  · refine ⟨_, _, hread, h.after hcipher hunbroken ?_, .inr ⟨rfl, hall⟩⟩
    rw [ReadOutcome.bytes, append_nil]
    exact hprogress

theorem Draining.begins (h : Draining s w records) : s.returnedTo w.other <+: plainOf records := by
  obtain ⟨k, -, -, -, hplain⟩ := h.progress
  have htake := plainOf_take_le records k
  rw [← hplain] at htake
  exact (prefix_append _ _).trans htake

/-- What a sequence of reads made happen while the records were delivered as they are. -/
structure Drained (s s' : Noise) (w : Side) (records : List SealedRecord) (sizes : List Nat)
    (events : List NoiseEvent) : Prop where
  history : s'.history = s.history ++ events
  outcomes : ∀ e ∈ events, (∃ bytes, e = .returned w.other bytes) ∨
    e = .readFailed w.other (.stream .eof)
  all : .readFailed w.other (.stream .eof) ∈ events → s'.returnedTo w.other = plainOf records
  some : .readFailed w.other (.stream .eof) ∉ events →
    (s.returnedTo w.other).length + (sizes.filter (0 < ·)).length ≤ (s'.returnedTo w.other).length

/-- While the records are delivered as they are, reads return bytes until all of them are returned. -/
theorem Draining.reads {A : Sealing Side NoiseNonce aeadOverhead} (h : Draining s w records)
    (sizes : List Nat) :
    ∃ s' events, (noiseSystem A).run s (sizes.map (.read w.other)) = some s' ∧
      Draining s' w records ∧ Drained s s' w records sizes events := by
  induction sizes generalizing s with
  | nil => exact ⟨s, [], rfl, h, (append_nil _).symm, nofun, nofun, fun _ => Nat.le_refl _⟩
  | cons size sizes ih =>
    obtain ⟨outcome, c, hread, hdraining, hcases⟩ := h.read size
    obtain ⟨s', events, hrun, hdraining', hdrained⟩ := ih hdraining
    have hstep : (noiseSystem A).step s (.read w.other size) =
        some (s.after w.other c [outcome.event w.other]) := by
      show some (s.after w.other ((s.ends w.other).read s.log size).2
        [((s.ends w.other).read s.log size).1.event w.other]) = _
      rw [hread]
    have hreturned : (s.after w.other c [outcome.event w.other]).returnedTo w.other =
        s.returnedTo w.other ++ outcome.bytes := by
      rw [returnedTo_after, flatMap_singleton, output_event]
    have hgrows : (s.after w.other c [outcome.event w.other]).returnedTo w.other <+:
        s'.returnedTo w.other := by
      rw [Noise.returnedTo, Noise.returnedTo, hdrained.history, flatMap_append]
      exact prefix_append _ _
    refine ⟨s', outcome.event w.other :: events, ?_, hdraining', ?_, ?_, ?_, ?_⟩
    · rw [map_cons, System.run, hstep]
      exact hrun
    · rw [hdrained.history, history_after, append_assoc]
      rfl
    · rintro e (_ | ⟨_, he⟩)
      · rcases hcases with ⟨bytes, rfl, -⟩ | ⟨rfl, -⟩
        · exact .inl ⟨bytes, rfl⟩
        · exact .inr rfl
      · exact hdrained.outcomes e he
    · intro he
      rcases hcases with ⟨bytes, rfl, -⟩ | ⟨rfl, hall⟩
      · exact hdrained.all ((mem_cons.mp he).resolve_left nofun)
      · rw [hreturned, ReadOutcome.bytes, append_nil, hall] at hgrows
        exact (hgrows.eq_of_length_le hdraining'.begins.length_le).symm
    · intro hnot
      rw [mem_cons, not_or] at hnot
      obtain ⟨bytes, rfl, hpos⟩ := hcases.resolve_right fun heof => hnot.1 (by rw [heof.1]; rfl)
      have hrest := hdrained.some hnot.2
      rw [hreturned, ReadOutcome.bytes, length_append] at hrest
      by_cases hsize : 0 < size
      · have hbytes := length_pos_iff.mpr (hpos hsize)
        rw [filter_cons_of_pos (by simpa using hsize), length_cons]
        omega
      · rw [filter_cons_of_neg (by simpa using hsize)]
        omega

end

/-! ## Whole runs -/

/-- The receiving direction of an end is as the handshake left it. -/
structure Untouched (s : Noise) (w : Side) : Prop where
  rx : (s.ends w).rx = (noiseStart.ends w).rx
  incoming : (s.ends w).incoming = []
  reads : ∀ e ∈ s.history, e.reader ≠ some w

section
variable {s s' : Noise} {side : Side} {c : NoiseConn} {events : List NoiseEvent}
variable {A : Sealing Side NoiseNonce aeadOverhead}

theorem Untouched.after (h : Untouched s w)
    (hend : side = w → c.rx = (s.ends w).rx ∧ c.incoming = (s.ends w).incoming)
    (hev : ∀ e ∈ events, e.reader ≠ some w) : Untouched (s.after side c events) w := by
  have hsame : ((s.after side c events).ends w).rx = (s.ends w).rx ∧
      ((s.after side c events).ends w).incoming = (s.ends w).incoming := by
    by_cases hside : side = w
    · subst hside
      rw [ends_after_self]
      exact hend rfl
    · rw [ends_after_of_ne (Ne.symm hside)]
      exact ⟨rfl, rfl⟩
  refine ⟨hsame.1.trans h.rx, hsame.2.trans h.incoming, fun e he => ?_⟩
  rcases mem_append.mp he with hold | hnew
  · exact h.reads e hold
  · exact hev e hnew

/-- Only an act on the receiving direction of an end changes it. -/
theorem untouched_step (hs : ∀ w, Sends s w) (h : Untouched s w) (ha : ¬ a.receives w)
    (hstep : s.step A a = some s') : Untouched s' w := by
  obtain ⟨side, c, events, rfl, hev, hsame, -⟩ := step_after hs hstep
  refine h.after (fun heq => ?_) fun e he => not_reader (hev e he) ha
  subst heq
  exact hsame ha

/-- Only a failed write and `Close` take the cipher of a sending direction away. -/
theorem cipher_step (hs : ∀ w, Sends s w) (hcipher : (s.ends w).tx.cipher = some w)
    (ha : ¬ a.breaks w) (hstep : s.step A a = some s') : (s'.ends w).tx.cipher = some w := by
  obtain ⟨side, c, events, rfl, -, -, hkept⟩ := step_after hs hstep
  by_cases hside : side = w
  · subst hside
    rw [ends_after_self, hkept ha, hcipher]
  · rw [ends_after_of_ne (Ne.symm hside), hcipher]

/-- A text can be opened under the nonce of its number. -/
theorem Sends.opens (hs : Sends s w) {k : Nat} (hr : (s.texts w)[k]? = some r) :
    NoiseNonce.valid ⟨0, UInt64.ofNat k⟩ = true ∧
      openSealed s.log w ⟨0, UInt64.ofNat k⟩ r.ciphertext = some r.plain := by
  have hlt := (s.ends w).tx.nonce.counter.toNat_lt
  have hnonce : (noncesBelow (s.ends w).tx.nonce.counter.toNat)[k]? = some r.nonce := by
    rw [← hs.nonces, List.getElem?_map, hr]
    rfl
  obtain ⟨hhead, hcounter⟩ := counter_of_noncesBelow hlt hnonce
  have hvalid := valid_of_mem_noncesBelow hlt (mem_of_getElem? hnonce)
  obtain ⟨hlog, hkey⟩ := log_of_texts (mem_of_getElem? hr)
  have heq : r.nonce = ⟨0, UInt64.ofNat k⟩ := by
    rw [← hcounter, UInt64.ofNat_toNat, ← hhead]
  have honce : ∀ r' ∈ s.log, r'.key = r.key → r'.nonce = r.nonce → r' = r := by
    intro r' hr' hkey' hnonce'
    have htexts := mem_texts hr' (hkey'.trans hkey) (hnonce' ▸ hvalid)
    have hnodup : ((s.texts w).map Sealed.nonce).Nodup := hs.nonces ▸ nodup_noncesBelow (Nat.le_of_lt hlt)
    exact inj_on_of_nodup_map hnodup htexts (mem_of_getElem? hr) hnonce'
  rw [← heq]
  refine ⟨hvalid, ?_⟩
  rw [← hkey]
  exact openSealed_of_mem hlog honce

/-- An end that received nothing yet is given the records as they are. -/
theorem draining_start (hs : Sends s w) (h : Untouched s w.other) {stream : List Incoming}
    (hunbroken : Unbroken stream) (hstream : streamBytes stream = framesOf ((s.texts w).take m)) :
    Draining (s.after w.other { s.ends w.other with incoming := (s.ends w.other).incoming ++ stream }
      []) w ((s.texts w).take m) where
  opens k r hr := by
    rw [log_after, filterMap_nil, append_nil]
    refine hs.opens (?_ : (s.texts w)[k]? = some r)
    rw [List.getElem?_take] at hr
    split at hr
    · exact hr
    · cases hr
  formed r hr := hs.formed r (mem_of_mem_take hr)
  cipher := by
    rw [ends_after_self, h.rx]
    exact congrArg some (Side.other_other w)
  unbroken := by
    rw [ends_after_self, h.incoming]
    exact hunbroken
  progress := by
    refine ⟨0, Nat.zero_le _, ?_, ?_, ?_⟩
    · rw [ends_after_self, h.rx]
      rfl
    · rw [ends_after_self, h.incoming]
      exact hstream
    · rw [ends_after_self, h.rx, returnedTo_after, flatMap_nil, append_nil]
      rw [Noise.returnedTo, output_of_reader h.reads]
      rfl

end

/-- Reads of these sizes got what was accepted from `w`: they failed only at the end of the stream,
and then with everything returned; with more reads of a nonempty destination than there were bytes,
the end is reached. -/
structure ReadsAll (s s' : Noise) (w : Side) (sizes : List Nat) : Prop where
  failed : ∀ err, .readFailed w.other err ∈ s'.history → err = .stream .eof
  panicked : .readPanicked w.other ∉ s'.history
  all : .readFailed w.other (.stream .eof) ∈ s'.history → s'.returnedTo w.other = s.acceptedFrom w
  ends : (s.acceptedFrom w).length < (sizes.filter (0 < ·)).length →
    .readFailed w.other (.stream .eof) ∈ s'.history

/-- The records that the underlying connection took from `w`, delivered unmodified in any segments,
are read as what was accepted. -/
def DeliversAll (A : Sealing Side NoiseNonce aeadOverhead) (s : Noise) (w : Side) : Prop :=
  ∀ stream sizes, Unbroken stream → streamBytes stream = s.wireFrom w →
    ∃ s', (noiseSystem A).run s (.deliver w.other stream :: sizes.map (.read w.other)) = some s' ∧
      ReadsAll s s' w sizes

section
variable {s : Noise} {A : Sealing Side NoiseNonce aeadOverhead}

theorem delivers_all (hs : Sends s w) (h : Untouched s w.other) : DeliversAll A s w := by
  intro stream sizes hunbroken hstream
  obtain ⟨m, -, hwire, haccepted, -⟩ := hs.accepted
  have hstart := draining_start hs h hunbroken (hstream.trans hwire)
  obtain ⟨s', events, hrun, hdraining, hdrained⟩ := hstart.reads sizes
  have hmem {e : NoiseEvent} (hreader : e.reader = some w.other) (he : e ∈ s'.history) :
      e ∈ events := by
    rw [hdrained.history, history_after, append_nil] at he
    exact (mem_append.mp he).resolve_left fun hold => h.reads e hold hreader
  refine ⟨s', hrun, fun err he => ?_, fun he => ?_, fun he => ?_, fun hmany => ?_⟩
  · rcases hdrained.outcomes _ (hmem rfl he) with ⟨bytes, hbytes⟩ | heof
    · cases hbytes
    · cases heof
      rfl
  · rcases hdrained.outcomes _ (hmem rfl he) with ⟨bytes, hbytes⟩ | heof
    · cases hbytes
    · cases heof
  · rw [haccepted]
    exact hdrained.all (hmem rfl he)
  · rw [hdrained.history]
    refine mem_append_right _ (Classical.byContradiction fun hnot => ?_)
    have hsome := hdrained.some hnot
    have hle := hdraining.begins.length_le
    rw [← haccepted] at hle
    omega

/-- A `Write` is out of nonces only after `2 ^ 64 - 1` bytes. -/
theorem Sends.written_of_panicked (hs : Sends s w) (h : .writePanicked w ∈ s.history) :
    2 ^ 64 - 1 ≤ (s.writtenBy w).length := by
  have hcounter : (s.texts w).length = (s.ends w).tx.nonce.counter.toNat := by
    have hlength := congrArg List.length hs.nonces
    rwa [length_map, noncesBelow, length_map, length_range] at hlength
  have hplain : (s.texts w).length ≤ (plainOf (s.texts w)).length := by
    rw [plainOf, length_flatMap, ← length_map fun r : SealedRecord => r.plain.length]
    refine length_le_sum_of_one_le _ fun n hn => ?_
    obtain ⟨r, hr, rfl⟩ := mem_map.mp hn
    exact length_pos_iff.mpr (hs.formed r hr).1
  have hlast : (s.ends w).tx.nonce.counter.toNat = 2 ^ 64 - 1 := by
    have hinvalid := hs.exhausted h
    simp only [NoiseNonce.valid, hs.head, true_and, decide_eq_false_iff_not, not_not] at hinvalid
    rw [hinvalid]
    rfl
  have hwritten := hs.written.length_le
  omega

/-- Everything written was accepted, when nothing failed and no call is under way. -/
theorem Sends.accepted_all (hs : Sends s w) (hcipher : (s.ends w).tx.cipher = some w)
    (hpanic : .writePanicked w ∉ s.history) (hidle : (s.ends w).writing = none) :
    s.acceptedFrom w = s.writtenBy w := by
  have hne : (s.ends w).tx.cipher ≠ none := by
    rw [hcipher]
    exact nofun
  obtain ⟨m, -, -, haccepted, hm⟩ := hs.accepted
  have hwritten := hs.flowing hne hpanic
  rw [Noise.pending, hidle] at hwritten
  rw [haccepted, hm hne, take_length, ← hwritten]
  exact (append_nil _).symm

end

/-- Whatever is written and whatever the network delivers, what is read at one end is a beginning of
what was written at the other. If the records are delivered unmodified, in any segments, every one is
accepted and reading until the end of the stream returns everything that the underlying connection
took; that is all that was written, unless a write failed, a call is still under way, `Close` was
called, or the nonces ran out. -/
theorem noise_transport_integrity (A : Sealing Side NoiseNonce aeadOverhead) (w : Side)
    (acts : List NoiseAct) :
    (noiseSystem A).Visits (fun s => s.returnedTo w.other <+: s.writtenBy w) noiseStart acts ∧
      ((∀ a ∈ acts, ¬ a.receives w.other) → ∀ s, (noiseSystem A).run noiseStart acts = some s →
        DeliversAll A s w ∧
          ((∀ a ∈ acts, ¬ a.breaks w) → .writePanicked w ∉ s.history →
            (s.ends w).writing = none → s.acceptedFrom w = s.writtenBy w) ∧
          (.writePanicked w ∈ s.history → 2 ^ 64 - 1 ≤ (s.writtenBy w).length)) := by
  refine ⟨?_, fun hacts s hrun => ?_⟩
  · exact System.visits_of_invariant directions_step (fun s hs => reads_written (hs.1 w) (hs.2 w))
      ⟨sends_start, receives_start⟩ acts
  · obtain ⟨hsends, huntouched⟩ : (∀ w, Sends s w) ∧ Untouched s w.other :=
      System.run_invariant (I := fun s => (∀ w, Sends s w) ∧ Untouched s w.other) hrun
        ⟨sends_start, rfl, rfl, nofun⟩ fun s s' a ha hs hstep =>
          ⟨sends_step hs.1 hstep, untouched_step hs.1 hs.2 (hacts a ha) hstep⟩
    refine ⟨delivers_all (hsends w) huntouched, fun hbreaks hpanic hidle => ?_,
      (hsends w).written_of_panicked⟩
    have hcipher := System.run_invariant (I := fun s => (∀ w, Sends s w) ∧
        (s.ends w).tx.cipher = some w) hrun ⟨sends_start, rfl⟩ fun s s' a ha hs hstep =>
      ⟨sends_step hs.1 hstep, cipher_step hs.1 hs.2 (hbreaks a ha) hstep⟩
    exact (hsends w).accepted_all hcipher.2 hpanic hidle

/-- A sealing that appends zeros. -/
def zeroTag : Sealing Side NoiseNonce aeadOverhead where
  sealText _ _ plain := plain ++ List.replicate aeadOverhead 0
  length_sealText _ _ plain := by rw [length_append, length_replicate]

/-- Three bytes are written by the client. -/
def threeBytes : List NoiseAct :=
  [.write .client [1, 2, 3], .writeRound .client none, .writeRound .client none]

/-- The three bytes are delivered. -/
theorem noise_transport_integrity_threeBytes :
    ∃ s, (noiseSystem zeroTag).run noiseStart threeBytes = some s ∧
      s.writtenBy .client = [1, 2, 3] ∧ s.acceptedFrom .client = s.writtenBy .client ∧
      DeliversAll zeroTag s .client := by
  obtain ⟨s, hrun, hwritten, hpanic, hidle⟩ :
      ∃ s, (noiseSystem zeroTag).run noiseStart threeBytes = some s ∧
        s.writtenBy .client = [1, 2, 3] ∧ .writePanicked .client ∉ s.history ∧
        (s.ends .client).writing = none := by
    refine ⟨_, rfl, rfl, ?_, rfl⟩
    simp [Noise.after, noiseStart]
  obtain ⟨hdelivers, hall, -⟩ := (noise_transport_integrity zeroTag .client threeBytes).2
    (by simp [threeBytes, NoiseAct.receives]) s hrun
  exact ⟨s, hrun, hwritten, hall (by simp [threeBytes, NoiseAct.breaks]) hpanic hidle, hdelivers⟩

end WgoTailscale
