import WgoTailscale.Flow

/-!
# Locks

Which frames hold which of the locks that are held for longer than a step. Every step moves as much
between the frames and the lock words as it takes or releases (`conserves_locks`), so a lock word
says how many holders there are (`LocksHeld`), two frames never hold the same mutex, and a reader of
`deviceMu` excludes a writer.
-/

namespace WgoTailscale

open Machine

/-! ## Mutual exclusion -/

/-- How often a frame holds a lock. -/
def Frame.holds (ℓ : Lock) (f : Frame) : Nat := f.locks.count ℓ

/-- The lock words count the holders, and a writer of `deviceMu` excludes readers. -/
structure LocksHeld (s : Sys) (F : Multiset Frame) : Prop where
  level : ∀ ℓ, weightOf (Frame.holds ℓ) F = lockLevel s.ctl s.hub ℓ
  exclusive : s.ctl.deviceWriter = true → s.ctl.deviceReaders = 0

/-- Every step moves as much between the frames and the lock words as it takes or releases. -/
theorem conserves_locks (ℓ : Lock) :
    program.Conserves (Frame.holds ℓ) fun s => lockLevel s.ctl s.hub ℓ where
  run f ch s o hle ho := by
    obtain ⟨e, he, rfl⟩ := Option.map_eq_some_iff.mp ho
    have hheld : Outcome.weight (Frame.holds ℓ) (e.apply ch.now s) = e.held.count ℓ := by
      rw [weight_apply (fun _ => rfl) (fun _ => rfl), Effect.held, List.count_flatMap]
      rfl
    rw [hheld]
    show e.held.count ℓ + lockLevel s.ctl s.hub ℓ =
      lockLevel e.ctl (e.hub.getD s.hub) ℓ + f.locks.count ℓ
    have hle : f.locks.count ℓ ≤ lockLevel s.ctl s.hub ℓ := hle
    cases (tabled_effect he).locks with
    | keep hheld hlevel => rw [hheld, hlevel, Nat.add_comm]
    | take k hheld hlevel =>
      rw [hheld, hlevel, List.count_append, List.count_singleton]
      by_cases hk : ℓ = k
      · subst hk
        simp only [beq_self_eq_true, if_true]
        omega
      · simp only [if_neg hk, beq_iff_eq, if_neg (Ne.symm hk)]
        omega
    | release k hheld hlevel =>
      rw [hheld, List.count_append, List.count_singleton] at hle ⊢
      rw [hlevel]
      by_cases hk : ℓ = k
      · subst hk
        simp only [beq_self_eq_true, if_true] at hle ⊢
        omega
      · simp only [if_neg hk, beq_iff_eq, if_neg (Ne.symm hk)] at hle ⊢
        omega
  start f s hf := by
    revert hf
    show entry s f = true → _
    fun_cases entry s f
    all_goals first
      | exact fun _ => rfl
      | exact fun hf => absurd hf Bool.false_ne_true
  env a s s' ha := by
    obtain ⟨-, -, hctl, hhub, -⟩ := envStep ha
    rw [hctl]
    cases ℓ <;> simp [lockLevel, hhub.locked]

theorem keeps_locks (p : Policy Sys Frame Choice EnvAct) : program.Keeps p LocksHeld where
  run s f R ch o h hp ho := by
    refine ⟨fun ℓ => ((conserves_locks ℓ).keeps p).run s f R ch o (h.level ℓ) hp ho, ?_⟩
    obtain ⟨e, he, rfl⟩ := Option.map_eq_some_iff.mp ho
    exact (traced_effect he).ctl.exclusive h.exclusive
  start s F f h hp hf :=
    ⟨fun ℓ => ((conserves_locks ℓ).keeps p).start s F f (h.level ℓ) hp hf, h.exclusive⟩
  env s s' F a h hp ha := by
    refine ⟨fun ℓ => ((conserves_locks ℓ).keeps p).env s s' F a (h.level ℓ) hp ha, ?_⟩
    rw [(envStep ha).ctl]
    exact h.exclusive

theorem locksHeld_initial (opts : Options) (privateKey : Option PrivateKey) :
    LocksHeld (initial opts privateKey).shared (initial opts privateKey).frames :=
  ⟨fun ℓ => by cases ℓ <;> rfl, fun _ => rfl⟩

namespace LocksHeld

variable {s : Sys} {F R : Multiset Frame} {f g : Frame} {ℓ : Lock}

/-- While a frame holds a lock, its word is not zero. -/
theorem level_ne_zero (h : LocksHeld s F) (hg : g ∈ F) (hℓ : ℓ ∈ g.locks) :
    lockLevel s.ctl s.hub ℓ ≠ 0 := by
  have hle : Frame.holds ℓ g ≤ weightOf (Frame.holds ℓ) F := weight_le_of_mem hg
  have hpos : 0 < Frame.holds ℓ g := List.count_pos_iff.mpr hℓ
  rw [← h.level ℓ]
  omega

/-- A mutex has one holder. -/
theorem alone (h : LocksHeld s (f ::ₘ R)) (hmutex : ℓ ≠ .deviceRead) (hf : ℓ ∈ f.locks)
    (hg : g ∈ R) : ℓ ∉ g.locks := by
  intro hgℓ
  have hle : Frame.holds ℓ g ≤ weightOf (Frame.holds ℓ) R := weight_le_of_mem hg
  have hpos : 0 < Frame.holds ℓ g := List.count_pos_iff.mpr hgℓ
  have hposf : 0 < Frame.holds ℓ f := List.count_pos_iff.mpr hf
  have hlevel := h.level ℓ
  rw [weightOf_cons] at hlevel
  have hone : lockLevel s.ctl s.hub ℓ ≤ 1 := by
    cases ℓ with
    | deviceRead => exact absurd rfl hmutex
    | _ => exact Bool.toNat_le _
  omega

/-- Who reads `deviceMu` excludes its writers. -/
theorem no_writer (h : LocksHeld s F) (hf : f ∈ F) (hread : .deviceRead ∈ f.locks) (hg : g ∈ F) :
    .deviceWrite ∉ g.locks := by
  intro hwrite
  have hreaders := h.level_ne_zero hf hread
  have hwriter := h.level_ne_zero hg hwrite
  refine hreaders (h.exclusive ?_)
  simpa [lockLevel] using hwriter

end LocksHeld

end WgoTailscale
