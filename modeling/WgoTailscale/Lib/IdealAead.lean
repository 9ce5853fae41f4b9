import Mathlib.Data.List.Basic

/-!
# Ideal authenticated encryption

What an authenticated cipher is to a protocol that uses it: a text sealed under a key and a nonce is
longer by a fixed overhead, and only what was sealed under a key and a nonce can be opened under
them. Who sealed what is a log of records; `openSealed` looks a ciphertext up in it.
-/

/-- Sealing, under keys `κ` and nonces `ν`. -/
structure Sealing (κ ν : Type) (overhead : Nat) where
  sealText : κ → ν → List UInt8 → List UInt8
  length_sealText : ∀ key nonce plain,
    (sealText key nonce plain).length = plain.length + overhead

/-- A text that was sealed. -/
structure Sealed (κ ν : Type) where
  key : κ
  nonce : ν
  plain : List UInt8
  ciphertext : List UInt8
  deriving DecidableEq

section
variable {κ ν : Type} [DecidableEq κ] [DecidableEq ν]

/-- Opening, once the texts of the log were sealed. -/
def openSealed (log : List (Sealed κ ν)) (key : κ) (nonce : ν) (ciphertext : List UInt8) :
    Option (List UInt8) :=
  (log.find? fun r => r.key = key ∧ r.nonce = nonce ∧ r.ciphertext = ciphertext).map Sealed.plain

variable {log : List (Sealed κ ν)}

/-- What is opened was sealed under the key and the nonce. -/
theorem mem_of_openSealed {key : κ} {nonce : ν} {ciphertext plain : List UInt8}
    (h : openSealed log key nonce ciphertext = some plain) :
    ∃ r ∈ log, r.key = key ∧ r.nonce = nonce ∧ r.plain = plain := by
  obtain ⟨r, hfind, rfl⟩ := Option.map_eq_some_iff.mp h
  have hr := List.find?_some hfind
  simp only [decide_eq_true_eq] at hr
  exact ⟨r, List.mem_of_find?_eq_some hfind, hr.1, hr.2.1, rfl⟩

/-- What was sealed under a key and a nonce that were used once is opened. -/
theorem openSealed_of_mem {r : Sealed κ ν} (hr : r ∈ log)
    (honce : ∀ r' ∈ log, r'.key = r.key → r'.nonce = r.nonce → r' = r) :
    openSealed log r.key r.nonce r.ciphertext = some r.plain := by
  unfold openSealed
  cases hfind : log.find? fun r' =>
      r'.key = r.key ∧ r'.nonce = r.nonce ∧ r'.ciphertext = r.ciphertext with
  | none =>
    have hnone := List.find?_eq_none.mp hfind r hr
    simp at hnone
  | some r' =>
    have hr' := List.find?_some hfind
    simp only [decide_eq_true_eq] at hr'
    rw [honce r' (List.mem_of_find?_eq_some hfind) hr'.1 hr'.2.1]
    rfl

end
