import Mathlib.Data.Nat.Digits.Defs
import Mathlib.Tactic.Ring

/-!
# Numbers in text

Reading back what `Nat.toDigits` prints. A reader is any function `digit?` from characters to digit
values that inverts `Nat.digitChar` below the base (`Reads`); `takeDigits` splits a text after its
leading digits, and `digits_takeDigits` says that in front of a character that is no digit it finds
exactly the digits printed. `foldlM_toDigits` is the checked reader of a text that must be all
digits.
-/

namespace WgoTailscale.Digits

/-- The reader inverts `Nat.digitChar` on the digits of base `b`. -/
def Reads (digit? : Char → Option Nat) (b : Nat) : Prop :=
  ∀ d < b, digit? (Nat.digitChar d) = some d

/-- The value of a sequence of digits, the most significant first. -/
def value (b : Nat) (ds : List Nat) : Nat := ds.foldl (fun acc d => b * acc + d) 0

/-- The last `k` digits of `n` in base `b` have the value of `n` modulo `b ^ k`. -/
theorem value_positions (b k n : Nat) :
    value b ((List.range k).map fun i => n / b ^ (k - 1 - i) % b) = n % b ^ k := by
  induction k generalizing n with
  | zero => simp [value, Nat.mod_one]
  | succ k ih =>
    have hshift : (List.range k).map (fun i => n / b ^ (k + 1 - 1 - i) % b) =
        (List.range k).map fun i => n / b / b ^ (k - 1 - i) % b := by
      refine List.map_congr_left fun i hi => ?_
      have hi : i < k := List.mem_range.mp hi
      rw [Nat.div_div_eq_div_mul, ← Nat.pow_succ', show k + 1 - 1 - i = k - 1 - i + 1 by omega]
    have hvalue := ih (n / b)
    unfold value at hvalue ⊢
    rw [List.range_succ, List.map_append, List.foldl_append, hshift, hvalue]
    simp only [List.map_cons, List.map_nil, List.foldl_cons, List.foldl_nil]
    rw [show k + 1 - 1 - k = 0 by omega, Nat.pow_zero, Nat.div_one, Nat.pow_succ', Nat.mod_mul,
      Nat.add_comm]

/-- The digits a text starts with, and what follows them. -/
def takeDigits (digit? : Char → Option Nat) : List Char → List Nat × List Char
  | [] => ([], [])
  | c :: s =>
    match digit? c with
    | some d => let (ds, rest) := takeDigits digit? s; (d :: ds, rest)
    | none => ([], c :: s)

variable {b n : Nat} {digit? : Char → Option Nat}

/-- Every character of a printed number is the character of a digit. -/
theorem exists_of_mem_toDigits (hb : 1 < b) {c : Char} (h : c ∈ Nat.toDigits b n) :
    ∃ d < b, c = Nat.digitChar d := by
  induction n using Nat.strong_induction_on with
  | _ n ih =>
    rcases Nat.lt_or_ge n b with hn | hn
    · rw [Nat.toDigits_of_lt_base hn, List.mem_singleton] at h
      exact ⟨n, hn, h⟩
    · rw [Nat.toDigits_of_base_le hb hn, List.mem_append, List.mem_singleton] at h
      rcases h with h | h
      · exact ih _ (Nat.div_lt_self (by omega) hb) h
      · exact ⟨n % b, Nat.mod_lt _ (by omega), h⟩

/-- A printed number of more than one digit does not start with the digit zero. -/
theorem head_toDigits (hb : 1 < b) (hn : n ≠ 0) :
    ∃ d, 0 < d ∧ d < b ∧ (Nat.toDigits b n).head? = some (Nat.digitChar d) := by
  induction n using Nat.strong_induction_on with
  | _ n ih =>
    rcases Nat.lt_or_ge n b with hlt | hge
    · exact ⟨n, by omega, hlt, by rw [Nat.toDigits_of_lt_base hlt]; rfl⟩
    · have hpos : n / b ≠ 0 := (Nat.div_pos hge (by omega)).ne'
      obtain ⟨d, h0, hd, hh⟩ := ih _ (Nat.div_lt_self (by omega) hb) hpos
      refine ⟨d, h0, hd, ?_⟩
      rw [Nat.toDigits_of_base_le hb hge, List.head?_append, hh]
      rfl

/-- Reading a printed number, digit by digit and failing on anything else, gives the number. -/
theorem foldlM_toDigits (hb : 1 < b) (hr : Reads digit? b) (n : Nat) :
    (Nat.toDigits b n).foldlM (fun acc c => (digit? c).map (b * acc + ·)) 0 = some n := by
  induction n using Nat.strong_induction_on with
  | _ n ih =>
    rcases Nat.lt_or_ge n b with hlt | hge
    · simp [Nat.toDigits_of_lt_base hlt, hr n hlt]
    · have hmod : n % b < b := Nat.mod_lt _ (by omega)
      rw [Nat.toDigits_of_base_le hb hge, List.foldlM_append,
        ih _ (Nat.div_lt_self (by omega) hb)]
      simp [hr _ hmod, Nat.div_add_mod]

/-- Before a character that is no digit, the digits read are those of the printed number. -/
theorem takeDigits_append {s rest : List Char} {ds : List Nat} (hs : s.map digit? = ds.map some)
    (hrest : ∀ c ∈ rest.head?, digit? c = none) : takeDigits digit? (s ++ rest) = (ds, rest) := by
  induction s generalizing ds with
  | nil =>
    obtain rfl : ds = [] := by simpa using hs.symm
    cases rest with
    | nil => rfl
    | cons c rest => simp [takeDigits, hrest c rfl]
  | cons c s ih =>
    cases ds with
    | nil => simp at hs
    | cons d ds =>
      simp only [List.map_cons, List.cons.injEq] at hs
      rw [List.cons_append, takeDigits, hs.1, ih hs.2]

/-- The characters of a printed number read as digits whose value is the number. -/
theorem exists_digits (hb : 1 < b) (hr : Reads digit? b) (n : Nat) :
    ∃ ds : List Nat, (Nat.toDigits b n).map digit? = ds.map some ∧ value b ds = n := by
  induction n using Nat.strong_induction_on with
  | _ n ih =>
    rcases Nat.lt_or_ge n b with hlt | hge
    · exact ⟨[n], by simp [Nat.toDigits_of_lt_base hlt, hr n hlt], by simp [value]⟩
    · have hmod : n % b < b := Nat.mod_lt _ (by omega)
      obtain ⟨ds, hds, hv⟩ := ih _ (Nat.div_lt_self (by omega) hb)
      refine ⟨ds ++ [n % b], ?_, ?_⟩
      · rw [Nat.toDigits_of_base_le hb hge, List.map_append, hds]
        simp [hr _ hmod]
      · unfold value at hv ⊢
        rw [List.foldl_append, hv]
        simp [Nat.div_add_mod]

/-- `takeDigits` in front of a character that is no digit: a printed number of at most `k` digits
is read as at least one and at most `k` digits of its value. -/
theorem takeDigits_toDigits (hb : 1 < b) (hr : Reads digit? b) {k : Nat} (hk : 0 < k)
    (hn : n < b ^ k) {rest : List Char} (hrest : ∀ c ∈ rest.head?, digit? c = none) :
    ∃ ds, takeDigits digit? (Nat.toDigits b n ++ rest) = (ds, rest) ∧ ds ≠ [] ∧ ds.length ≤ k ∧
      value b ds = n := by
  obtain ⟨ds, hds, hv⟩ := exists_digits hb hr n
  have hlen : (Nat.toDigits b n).length = ds.length := by simpa using congrArg List.length hds
  refine ⟨ds, takeDigits_append hds hrest, ?_, ?_, hv⟩
  · rintro rfl
    simp at hlen
  · rw [← hlen]
    exact (Nat.length_toDigits_le_iff hb hk).mpr hn

end WgoTailscale.Digits
