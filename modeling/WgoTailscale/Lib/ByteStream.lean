import Mathlib.Algebra.BigOperators.Group.List.Basic

/-!
# Bytes from a connection

What a connection delivers is a list of segments of bytes, with errors of single reads in between;
at its end there is nothing more to read. `readFull` reads a given number of bytes, across segments,
as Go's `io.ReadFull` does; what it read before an error is lost.
-/

/-- What a connection delivers next. -/
inductive Incoming where
  | data (bytes : List UInt8)
  | fail (err : String)

/-- How reading fails. -/
inductive StreamError where
  | eof
  | unexpectedEOF
  | read (err : String)
  deriving DecidableEq

/-- The error once some bytes were read. -/
def StreamError.partly : StreamError → StreamError
  | .eof => .unexpectedEOF
  | err => err

/-- `io.ReadFull`: read `n` bytes, and what is left to be delivered. -/
def readFull (n : Nat) : List Incoming → Except StreamError (List UInt8) × List Incoming
  | [] => if n = 0 then (.ok [], []) else (.error .eof, [])
  | .fail err :: rest =>
    if n = 0 then (.ok [], .fail err :: rest) else (.error (.read err), rest)
  | .data bytes :: rest =>
    if n ≤ bytes.length then (.ok (bytes.take n), .data (bytes.drop n) :: rest)
    else match readFull (n - bytes.length) rest with
      | (.ok more, rest) => (.ok (bytes ++ more), rest)
      | (.error err, rest) => (.error (if bytes = [] then err else err.partly), rest)

/-- The bytes of a stream. -/
def streamBytes : List Incoming → List UInt8
  | [] => []
  | .data bytes :: rest => bytes ++ streamBytes rest
  | .fail _ :: rest => streamBytes rest

/-- A stream without errors. -/
def Unbroken (stream : List Incoming) : Prop := ∀ err, .fail err ∉ stream

@[simp] theorem unbroken_cons_data {bytes : List UInt8} {rest : List Incoming} :
    Unbroken (.data bytes :: rest) ↔ Unbroken rest := by
  simp [Unbroken]

/-- Reading takes as many bytes off the stream as it returns. -/
theorem readFull_ok {n : Nat} {stream rest : List Incoming} {bytes : List UInt8}
    (h : readFull n stream = (.ok bytes, rest)) :
    bytes.length = n ∧ streamBytes stream = bytes ++ streamBytes rest := by
  induction stream generalizing n rest bytes with
  | nil =>
    unfold readFull at h
    split at h
    · next hn =>
      cases h
      exact ⟨hn.symm, rfl⟩
    · cases h
  | cons item stream ih =>
    cases item with
    | fail err =>
      unfold readFull at h
      split at h
      · next hn =>
        cases h
        exact ⟨hn.symm, rfl⟩
      · cases h
    | data segment =>
      unfold readFull at h
      split at h
      · next hn =>
        cases h
        refine ⟨List.length_take_of_le hn, ?_⟩
        simp [streamBytes, ← List.append_assoc]
      · next hn =>
        split at h
        · next more rest' hmore =>
          cases h
          obtain ⟨hlength, hbytes⟩ := ih hmore
          refine ⟨by rw [List.length_append, hlength]; omega, ?_⟩
          rw [streamBytes, hbytes, List.append_assoc]
        · cases h

/-- An unbroken stream that has enough bytes delivers them, however it is cut into segments. -/
theorem readFull_unbroken {stream : List Incoming} (hstream : Unbroken stream)
    {bytes more : List UInt8} (h : streamBytes stream = bytes ++ more) :
    ∃ rest, readFull bytes.length stream = (.ok bytes, rest) ∧ Unbroken rest ∧
      streamBytes rest = more := by
  induction stream generalizing bytes with
  | nil =>
    obtain ⟨rfl, rfl⟩ := List.append_eq_nil_iff.mp h.symm
    exact ⟨[], rfl, hstream, rfl⟩
  | cons item stream ih =>
    cases item with
    | fail err => exact absurd List.mem_cons_self (hstream err)
    | data segment =>
      have hrest := unbroken_cons_data.mp hstream
      rw [streamBytes] at h
      unfold readFull
      by_cases hn : bytes.length ≤ segment.length
      · obtain ⟨tail, rfl, hmore⟩ :
            ∃ tail, segment = bytes ++ tail ∧ more = tail ++ streamBytes stream := by
          rcases List.append_eq_append_iff.mp h with ⟨tail, hb, hm⟩ | ⟨tail, hs, hm⟩
          · have htail : tail = [] := by
              have := congrArg List.length hb
              rw [List.length_append] at this
              exact List.length_eq_zero_iff.mp (by omega)
            subst htail
            exact ⟨[], by simpa using hb.symm, by simpa using hm.symm⟩
          · exact ⟨tail, hs, hm⟩
        rw [if_pos hn, List.take_left, List.drop_left]
        exact ⟨_, rfl, unbroken_cons_data.mpr hrest, hmore.symm⟩
      · obtain ⟨tail, rfl, htail⟩ :
            ∃ tail, bytes = segment ++ tail ∧ streamBytes stream = tail ++ more := by
          rcases List.append_eq_append_iff.mp h with ⟨tail, hb, hm⟩ | ⟨tail, hs, hm⟩
          · exact ⟨tail, hb, hm⟩
          · have := congrArg List.length hs
            rw [List.length_append] at this
            omega
        obtain ⟨rest, hread, hunbroken, hbytes⟩ := ih hrest htail
        refine ⟨rest, ?_, hunbroken, hbytes⟩
        rw [if_neg hn, List.length_append, Nat.add_sub_cancel_left, hread]

/-- An unbroken stream that has too few bytes is read to its end. -/
theorem readFull_short {stream : List Incoming} (hstream : Unbroken stream) {n : Nat}
    (h : (streamBytes stream).length < n) :
    ∃ rest, readFull n stream =
        (.error (if streamBytes stream = [] then .eof else .unexpectedEOF), rest) ∧
      Unbroken rest ∧ streamBytes rest = [] := by
  induction stream generalizing n with
  | nil => exact ⟨[], if_neg (Nat.ne_of_gt h), hstream, rfl⟩
  | cons item stream ih =>
    cases item with
    | fail err => exact absurd List.mem_cons_self (hstream err)
    | data segment =>
      rw [streamBytes, List.length_append] at h
      obtain ⟨rest, hread, hunbroken, hbytes⟩ :=
        ih (unbroken_cons_data.mp hstream) (show (streamBytes stream).length <
          n - segment.length by omega)
      refine ⟨rest, ?_, hunbroken, hbytes⟩
      unfold readFull
      rw [if_neg (by omega), hread, streamBytes]
      dsimp only
      by_cases hsegment : segment = []
      · rw [if_pos hsegment, hsegment, List.nil_append]
      · rw [if_neg hsegment, if_neg fun hnil => hsegment (List.append_eq_nil_iff.mp hnil).1]
        split <;> rfl
