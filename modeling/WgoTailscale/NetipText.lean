import Mathlib.Data.List.TakeWhile
import WgoTailscale.Lib.Digits
import WgoTailscale.Netip

/-!
# The text of addresses and prefixes

`netip.ParseAddr`, `netip.ParsePrefix` and the `String` methods. Parsing follows the documented
grammar: dotted IPv4 without leading zeros, IPv6 groups with at most one `::`, an embedded IPv4
tail, and a zone after `%`. Printing compresses the first longest run of at least two zero groups.
The main results are the round trips: a valid address is what its text parses to
(`parseAddr_toText`), and so is a valid prefix (`parsePrefix_toText`).
-/

namespace WgoTailscale

open Digits List

/-! ## Parsing -/

/-- The value of a decimal digit. -/
def decDigit? (c : Char) : Option Nat :=
  if '0' ≤ c ∧ c ≤ '9' then some (c.toNat - '0'.toNat) else none

/-- The value of a hexadecimal digit. -/
def hexDigit? (c : Char) : Option Nat :=
  if '0' ≤ c ∧ c ≤ '9' then some (c.toNat - '0'.toNat)
  else if 'a' ≤ c ∧ c ≤ 'f' then some (c.toNat - 'a'.toNat + 10)
  else if 'A' ≤ c ∧ c ≤ 'F' then some (c.toNat - 'A'.toNat + 10)
  else none

/-- A text of decimal digits as a number; the empty text and a leading zero are errors. -/
def parseDecimal (s : List Char) : Option Nat :=
  if s.isEmpty ∨ (1 < s.length ∧ s.head? = some '0') then none
  else s.foldlM (fun acc c => (decDigit? c).map (10 * acc + ·)) 0

/-- One dotted field: a decimal number of at most three digits and at most 255. -/
def parseOctet (s : List Char) : Option Nat :=
  if 3 < s.length then none else (parseDecimal s).filter (· ≤ 255)

/-- `parseIPv4Fields`: exactly four fields, as one number. -/
def parseIPv4Fields (s : List Char) : Option Nat :=
  match (s.splitOn '.').mapM parseOctet with
  | some [a, b, c, d] => some (value 256 [a, b, c, d])
  | _ => none

/-- The loop of `parseIPv6` over the groups of an address: `groups` holds the 16-bit groups read so
far in reverse and `ellipsis` the number of groups before the `::`. The fuel is the number of
groups that still fit. -/
def parseGroups : Nat → List Char → List Nat → Option Nat → Option (List Nat × Option Nat)
  | 0, s, groups, ellipsis => if s.isEmpty then some (groups, ellipsis) else none
  | fuel + 1, s, groups, ellipsis =>
    let (ds, rest) := takeDigits hexDigit? s
    if ds.isEmpty ∨ 4 < ds.length then none
    else if rest.head? = some '.' then
      -- an embedded IPv4 address takes the last two groups
      if (ellipsis.isNone ∧ groups.length ≠ 6) ∨ 8 < groups.length + 2 then none
      else match parseIPv4Fields s with
        | some n => some (n % 65536 :: n / 65536 :: groups, ellipsis)
        | none => none
    else
      let groups := value 16 ds :: groups
      match rest with
      | [] => some (groups, ellipsis)
      | ':' :: ':' :: more =>
        if ellipsis.isSome then none
        else if more.isEmpty then some (groups, some groups.length)
        else parseGroups fuel more groups (some groups.length)
      | ':' :: more => if more.isEmpty then none else parseGroups fuel more groups ellipsis
      | _ => none

/-- The eight groups as a number, the `::` filled with zero groups; at least one group must be
filled. -/
def expandGroups (groups : List Nat) (ellipsis : Option Nat) : Option Nat :=
  if groups.length = 8 then
    if ellipsis.isSome then none else some (value 65536 groups)
  else match ellipsis with
    | none => none
    | some e => some
        (value 65536 (groups.take e ++ List.replicate (8 - groups.length) 0 ++ groups.drop e))

/-- `parseIPv6` on the text before the zone: a leading `::` is an ellipsis before any group. -/
def parseIPv6Body (s : List Char) : Option Nat :=
  match s with
  | [':', ':'] => some 0
  | ':' :: ':' :: rest =>
    (parseGroups 8 rest [] (some 0)).bind fun (groups, e) => expandGroups groups.reverse e
  | _ => (parseGroups 8 s [] none).bind fun (groups, e) => expandGroups groups.reverse e

/-- `parseIPv6`: a `%` separates the zone, which must not be empty. -/
def parseIPv6 (s : List Char) : Option Addr :=
  let body := s.takeWhile (· ≠ '%')
  let tail := s.drop body.length
  if tail = ['%'] then none
  else (parseIPv6Body body).map fun n => .v6 (BitVec.ofNat 128 n) (String.ofList (tail.drop 1))

/-- `netip.ParseAddr`: the first `.`, `:` or `%` decides the grammar. -/
def parseAddr (s : String) : Option Addr :=
  match s.toList.find? (fun c => c = '.' ∨ c = ':' ∨ c = '%') with
  | some '.' => (parseIPv4Fields s.toList).map fun n => .v4 (BitVec.ofNat 32 n)
  | some ':' => parseIPv6 s.toList
  | _ => none

/-- `netip.ParsePrefix`: the text before the last slash is the address, which must have no zone. -/
def parsePrefix (s : String) : Option Prefix :=
  let rev := s.toList.reverse
  match rev.dropWhile (· ≠ '/') with
  | [] => none
  | _ :: before => do
    let ip ← parseAddr (String.ofList before.reverse)
    if ip.hasZone then none
    else
      let bits ← parseDecimal (rev.takeWhile (· ≠ '/')).reverse
      if bits ≤ ip.bitLen then some (prefixFrom ip bits) else none

/-! ## Printing -/

/-- The four decimal fields of an IPv4 address. -/
def dotted (n : Nat) : List Char :=
  ['.'].intercalate ([n / 16777216 % 256, n / 65536 % 256, n / 256 % 256, n % 256].map
    (Nat.toDigits 10))

/-- The eight 16-bit groups of an IPv6 address, the most significant first. -/
def groupsOf (n : Nat) : List Nat :=
  (List.range 8).map fun i => n / 65536 ^ (7 - i) % 65536

/-- The number of zero groups that start at group `i`. -/
def zeroRun (gs : List Nat) (i : Nat) : Nat := ((gs.drop i).takeWhile (· == 0)).length

/-- The first longest run of at least two zero groups, as its start and length. -/
def longestZeroRun (gs : List Nat) : Option (Nat × Nat) :=
  (List.range 8).foldl (fun best i =>
    if 2 ≤ zeroRun gs i ∧ (best.map (·.2)).getD 0 < zeroRun gs i then some (i, zeroRun gs i)
    else best) none

/-- Groups in lower-case hexadecimal without leading zeros, joined by colons. -/
def joinGroups (gs : List Nat) : List Char := [':'].intercalate (gs.map (Nat.toDigits 16))

/-- The text of an IPv6 address without its zone. -/
def text6 (n : Nat) : List Char :=
  match longestZeroRun (groupsOf n) with
  | none => joinGroups (groupsOf n)
  | some (i, l) =>
    joinGroups ((groupsOf n).take i) ++ ':' :: ':' :: joinGroups ((groupsOf n).drop (i + l))

/-- The characters of an address without its zone. -/
def Addr.body (a : Addr) : List Char :=
  if a.is4In6 then "::ffff:".toList ++ dotted (a.toNat % 2 ^ 32)
  else match a with
    | .invalid => "invalid IP".toList
    | .v4 b => dotted b.toNat
    | .v6 b _ => text6 b.toNat

/-- `Addr.String`. -/
def Addr.toText (a : Addr) : String :=
  String.ofList (if a.hasZone then a.body ++ '%' :: a.zone.toList else a.body)

/-- `AddrPort.String`. -/
def AddrPort.toText (a : AddrPort) : String :=
  match a.addr with
  | .invalid => "invalid AddrPort"
  | .v4 _ => s!"{a.addr.toText}:{a.port.toNat}"
  | .v6 _ _ => s!"[{a.addr.toText}]:{a.port.toNat}"

/-- `Prefix.String`. -/
def Prefix.toText (p : Prefix) : String :=
  match p.bits with
  | none => "invalid Prefix"
  | some b => String.ofList (p.addr.toText.toList ++ '/' :: Nat.toDigits 10 b)

/-! ## Reading back decimal fields -/

theorem decDigit?_reads : Reads decDigit? 10 := by unfold Reads; decide

theorem hexDigit?_reads : Reads hexDigit? 16 := by unfold Reads; decide

/-- A printed decimal number reads back. -/
theorem parseDecimal_toDigits (n : Nat) : parseDecimal (Nat.toDigits 10 n) = some n := by
  have hhead : ¬ (1 < (Nat.toDigits 10 n).length ∧ (Nat.toDigits 10 n).head? = some '0') := by
    rintro ⟨hlen, hzero⟩
    have hn : n ≠ 0 := by
      rintro rfl
      simp at hlen
    obtain ⟨d, h0, hd, hh⟩ := head_toDigits (b := 10) (by decide) hn
    rw [hh, Option.some.injEq, Nat.digitChar_eq_zero] at hzero
    omega
  have hne : (Nat.toDigits 10 n).isEmpty = false := by simp
  simp only [parseDecimal, hne, Bool.false_eq_true, false_or, hhead, if_false]
  exact foldlM_toDigits (by decide) decDigit?_reads n

variable {n b fuel : Nat} {c : Char} {gs groups : List Nat} {s : List Char} {a : Addr} {p : Prefix}

/-- A printed byte reads back as a dotted field. -/
theorem parseOctet_toDigits (h : n < 256) : parseOctet (Nat.toDigits 10 n) = some n := by
  have hlen : (Nat.toDigits 10 n).length ≤ 3 :=
    (Nat.length_toDigits_le_iff (by decide) (by decide)).mpr (by omega)
  rw [parseOctet, if_neg (by omega), parseDecimal_toDigits]
  simp [Option.filter]; omega

/-- No digit is one of the characters that structure an address. -/
theorem not_mem_toDigits (hb : 1 < b) (hb16 : b ≤ 16) (hc : ∀ d < 16, Nat.digitChar d ≠ c) :
    c ∉ Nat.toDigits b n := by
  intro h
  obtain ⟨d, hd, rfl⟩ := exists_of_mem_toDigits hb h
  exact hc d (by omega) rfl

/-- The four fields of a 32-bit number have its value. -/
theorem value_fields (h : n < 2 ^ 32) :
    value 256 [n / 16777216 % 256, n / 65536 % 256, n / 256 % 256, n % 256] = n := by
  simp only [value, foldl_cons, foldl_nil]
  omega

theorem parseIPv4Fields_dotted (h : n < 2 ^ 32) : parseIPv4Fields (dotted n) = some n := by
  have hsplit : (dotted n).splitOn '.' =
      [n / 16777216 % 256, n / 65536 % 256, n / 256 % 256, n % 256].map (Nat.toDigits 10) := by
    refine splitOn_intercalate _ ?_ (by simp)
    intro l hl
    obtain ⟨m, -, rfl⟩ := mem_map.mp hl
    exact not_mem_toDigits (by decide) (by decide) (by decide)
  have hoctet (m : Nat) : parseOctet (Nat.toDigits 10 (m % 256)) = some (m % 256) :=
    parseOctet_toDigits (Nat.mod_lt _ (by decide))
  simp only [parseIPv4Fields, hsplit, map_cons, map_nil, mapM_cons, mapM_nil,
    hoctet, Option.pure_def, Option.bind_eq_bind, Option.bind_some]
  rw [value_fields h]

/-- What comes before the first dot of a dotted address is the text of a byte. -/
theorem dotted_eq (n : Nat) : ∃ tail,
    dotted n = Nat.toDigits 10 (n / 16777216 % 256) ++ '.' :: tail :=
  ⟨['.'].intercalate ([n / 65536 % 256, n / 256 % 256, n % 256].map (Nat.toDigits 10)), by
    simp [dotted, intercalate_cons_cons]⟩

/-! ## Reading back groups -/

theorem joinGroups_cons_cons (g h : Nat) (gs : List Nat) :
    joinGroups (g :: h :: gs) = Nat.toDigits 16 g ++ ':' :: joinGroups (h :: gs) := by
  simp [joinGroups, intercalate_cons_cons]

theorem joinGroups_singleton (g : Nat) : joinGroups [g] = Nat.toDigits 16 g := by
  simp [joinGroups]

theorem joinGroups_ne_nil (h : gs ≠ []) : joinGroups gs ≠ [] := by
  match gs with
  | [] => exact absurd rfl h
  | [g] => simp [joinGroups_singleton]
  | g :: g' :: gs => simp [joinGroups_cons_cons]

/-- The text of a non-empty list of groups starts with the text of its first group, so not with
a colon. -/
theorem joinGroups_head (h : gs ≠ []) (rest : List Char) :
    (joinGroups gs ++ rest).head? ≠ some ':' := by
  have hdigits (g : Nat) (rest : List Char) : (Nat.toDigits 16 g ++ rest).head? ≠ some ':' := by
    intro hh
    have hne : Nat.toDigits 16 g ≠ [] := Nat.toDigits_ne_nil
    rw [List.head?_append_of_ne_nil _ hne] at hh
    exact not_mem_toDigits (b := 16) (n := g) (by decide) (by decide) (by decide)
      (mem_of_mem_head? hh)
  match gs with
  | [] => exact absurd rfl h
  | [g] => rw [joinGroups_singleton]; exact hdigits g rest
  | g :: g' :: gs => rw [joinGroups_cons_cons, append_assoc]; exact hdigits g _

/-- In front of a colon, or of the end of the text, the digits of a printed group are read. -/
theorem takeDigits_group {g : Nat} (hg : g < 65536) (rest : List Char)
    (hrest : ∀ c ∈ rest.head?, c = ':' ∨ c = '.') :
    ∃ ds, takeDigits hexDigit? (Nat.toDigits 16 g ++ rest) = (ds, rest) ∧
      ¬ (ds.isEmpty = true ∨ 4 < ds.length) ∧ value 16 ds = g := by
  have hnone : ∀ c ∈ rest.head?, hexDigit? c = none := by
    intro c hc
    rcases hrest c hc with rfl | rfl <;> rfl
  obtain ⟨ds, htake, hne, hlen, hval⟩ := takeDigits_toDigits (b := 16) (by decide) hexDigit?_reads
    (k := 4) (by decide) hg hnone
  refine ⟨ds, htake, ?_, hval⟩
  rintro (h | h)
  · exact hne (isEmpty_iff.mp h)
  · omega

section Groups

variable {g : Nat} (hg : g < 65536) {ellipsis : Option Nat}
include hg

theorem parseGroups_last :
    parseGroups (fuel + 1) (Nat.toDigits 16 g) groups ellipsis = some (g :: groups, ellipsis) := by
  obtain ⟨ds, htake, hds, hval⟩ := takeDigits_group hg [] (by simp)
  rw [append_nil] at htake
  simp only [parseGroups, htake, if_neg hds, List.head?_nil, reduceCtorEq, if_false, hval]

theorem parseGroups_colon {more : List Char} (hne : more ≠ []) (hmore : more.head? ≠ some ':') :
    parseGroups (fuel + 1) (Nat.toDigits 16 g ++ ':' :: more) groups ellipsis =
      parseGroups fuel more (g :: groups) ellipsis := by
  obtain ⟨ds, htake, hds, hval⟩ := takeDigits_group hg (':' :: more) (by simp)
  cases more with
  | nil => exact absurd rfl hne
  | cons c more =>
    have hc : c ≠ ':' := by simpa using hmore
    simp only [parseGroups, htake, if_neg hds, hval]
    simp [hc]

theorem parseGroups_ellipsis {more : List Char} :
    parseGroups (fuel + 1) (Nat.toDigits 16 g ++ ':' :: ':' :: more) groups none =
      if more.isEmpty then some (g :: groups, some (groups.length + 1))
      else parseGroups fuel more (g :: groups) (some (groups.length + 1)) := by
  obtain ⟨ds, htake, hds, hval⟩ := takeDigits_group hg (':' :: ':' :: more) (by simp)
  simp only [parseGroups, htake, if_neg hds, hval]
  simp

end Groups

/-- The groups of a list before the end of the text. -/
theorem parseGroups_join (hgs : ∀ g ∈ gs, g < 65536) (hne : gs ≠ []) {ellipsis : Option Nat}
    (hfuel : gs.length ≤ fuel) :
    parseGroups fuel (joinGroups gs) groups ellipsis = some (gs.reverse ++ groups, ellipsis) := by
  induction gs generalizing fuel groups with
  | nil => exact absurd rfl hne
  | cons g gs ih =>
    obtain ⟨fuel, rfl⟩ : ∃ f, fuel = f + 1 := ⟨fuel - 1, by simp at hfuel; omega⟩
    have hg : g < 65536 := hgs g mem_cons_self
    cases gs with
    | nil => rw [joinGroups_singleton, parseGroups_last hg]; rfl
    | cons h gs =>
      have hhead := joinGroups_head (cons_ne_nil h gs) []
      rw [append_nil] at hhead
      rw [joinGroups_cons_cons, parseGroups_colon hg (joinGroups_ne_nil (by simp)) hhead,
        ih (fun g hg => hgs g (mem_cons_of_mem _ hg)) (by simp) (by simpa using hfuel)]
      simp

/-- The groups of a list before a `::` that has no group to its left in the text read so far. -/
theorem parseGroups_join_ellipsis {tail : List Nat} (hgs : ∀ g ∈ gs, g < 65536) (hne : gs ≠ [])
    (htail : ∀ g ∈ tail, g < 65536) (hfuel : gs.length + tail.length ≤ fuel) :
    parseGroups fuel (joinGroups gs ++ ':' :: ':' :: joinGroups tail) groups none =
      some (tail.reverse ++ (gs.reverse ++ groups), some (groups.length + gs.length)) := by
  induction gs generalizing fuel groups with
  | nil => exact absurd rfl hne
  | cons g gs ih =>
    obtain ⟨fuel, rfl⟩ : ∃ f, fuel = f + 1 := ⟨fuel - 1, by simp at hfuel; omega⟩
    have hg : g < 65536 := hgs g mem_cons_self
    cases gs with
    | nil =>
      rw [joinGroups_singleton, parseGroups_ellipsis hg]
      cases tail with
      | nil => simp [joinGroups]
      | cons t tail =>
        rw [if_neg (by simpa using joinGroups_ne_nil (cons_ne_nil t tail)),
          parseGroups_join htail (by simp) (by simp at hfuel ⊢; omega)]
        simp
    | cons h gs =>
      rw [joinGroups_cons_cons, append_assoc, cons_append,
        parseGroups_colon hg (by simp [joinGroups_ne_nil]) (joinGroups_head (by simp) _),
        ih (fun g hg => hgs g (mem_cons_of_mem _ hg)) (by simp)
          (by simp at hfuel ⊢; omega)]
      simp [Nat.add_comm, Nat.add_left_comm]

/-! ## Zero runs and values -/

theorem length_groupsOf (n : Nat) : (groupsOf n).length = 8 := by simp [groupsOf]

theorem lt_of_mem_groupsOf {g : Nat} (h : g ∈ groupsOf n) : g < 65536 := by
  obtain ⟨i, -, rfl⟩ := mem_map.mp h
  exact Nat.mod_lt _ (by decide)

theorem value_groupsOf (h : n < 2 ^ 128) : value 65536 (groupsOf n) = n := by
  have hpow : 65536 ^ 8 = 2 ^ 128 := by norm_num
  have hvalue := value_positions 65536 8 n
  rwa [hpow, Nat.mod_eq_of_lt h] at hvalue

/-- The run the printer compresses is a run of zero groups. -/
theorem longestZeroRun_spec {i l : Nat} (h : longestZeroRun gs = some (i, l)) :
    2 ≤ l ∧ gs = gs.take i ++ List.replicate l 0 ++ gs.drop (i + l) := by
  -- what the fold keeps is always a run that starts somewhere and is as long as it can be
  have hfold (is : List Nat) (best : Option (Nat × Nat))
      (hbest : ∀ p ∈ best, 2 ≤ p.2 ∧ p.2 = zeroRun gs p.1) :
      ∀ p ∈ is.foldl (fun best i =>
        if 2 ≤ zeroRun gs i ∧ (best.map (·.2)).getD 0 < zeroRun gs i then some (i, zeroRun gs i)
        else best) best, 2 ≤ p.2 ∧ p.2 = zeroRun gs p.1 := by
    induction is generalizing best with
    | nil => exact hbest
    | cons i is ih =>
      refine ih _ ?_
      dsimp only
      split
      · next hi =>
        rintro p hp
        cases hp
        exact ⟨hi.1, rfl⟩
      · exact hbest
  obtain ⟨hl, hrun⟩ := hfold (List.range 8) none (by simp) (i, l) h
  refine ⟨hl, ?_⟩
  have hzero : (gs.drop i).takeWhile (· == 0) = List.replicate l 0 := by
    refine eq_replicate_iff.mpr ⟨hrun.symm, ?_⟩
    intro b hb
    simpa using mem_takeWhile_imp hb
  have hdrop : gs.drop (i + l) = (gs.drop i).dropWhile (· == 0) := by
    have hsplit := takeWhile_append_dropWhile (p := (· == 0)) (l := gs.drop i)
    rw [← drop_drop]
    conv_lhs => rw [← hsplit, hzero]
    simp
  rw [hdrop, append_assoc, ← hzero, takeWhile_append_dropWhile, take_append_drop]

/-! ## Addresses and prefixes -/

/-- The first structuring character after the digits of a group or field. -/
theorem find?_toDigits_append (hb : 1 < b) (hc : c = '.' ∨ c = ':' ∨ c = '%') (rest : List Char) :
    (Nat.toDigits b n ++ c :: rest).find? (fun c => c = '.' ∨ c = ':' ∨ c = '%') = some c := by
  have hdigits : (Nat.toDigits b n).find? (fun c => c = '.' ∨ c = ':' ∨ c = '%') = none := by
    refine List.find?_eq_none.mpr fun x hx => ?_
    obtain ⟨d, -, rfl⟩ := exists_of_mem_toDigits hb hx
    simp
  rw [List.find?_append, hdigits, Option.none_or, List.find?_cons_of_pos (by simpa using hc)]

/-- The text of a zone, which follows the text of the address. -/
def zoneText (zone : String) : List Char := if zone = "" then [] else '%' :: zone.toList

theorem Addr.toText_eq (a : Addr) : a.toText = String.ofList (a.body ++ zoneText a.zone) := by
  unfold Addr.toText Addr.hasZone zoneText
  by_cases hzone : a.zone = ""
  · simp [hzone]
  · simp [hzone]

/-- What follows a text without `%` is its zone. -/
theorem parseIPv6_eq (hs : '%' ∉ s) (zone : String) :
    parseIPv6 (s ++ zoneText zone) =
      (parseIPv6Body s).map fun n => .v6 (BitVec.ofNat 128 n) zone := by
  have hbody : (s ++ zoneText zone).takeWhile (· ≠ '%') = s := by
    have hall : ∀ c ∈ s, decide (c ≠ '%') = true :=
      fun c hc => decide_eq_true fun h => hs (h ▸ hc)
    rw [takeWhile_append_of_pos hall]
    unfold zoneText
    split <;> simp
  have hne : zoneText zone ≠ ['%'] := by
    unfold zoneText
    split
    · nofun
    · next hzone =>
      intro h
      exact hzone (String.toList_eq_nil_iff.mp (List.cons.inj h).2)
  have htail : String.ofList ((zoneText zone).drop 1) = zone := by
    unfold zoneText
    split
    · next hzone => rw [hzone]; rfl
    · rw [drop_succ_cons, drop_zero, String.ofList_toList]
  simp only [parseIPv6, hbody, drop_left, hne, if_false, htail]

theorem parseIPv6Body_of_head (h : s.head? ≠ some ':') :
    parseIPv6Body s =
      (parseGroups 8 s [] none).bind fun (groups, e) => expandGroups groups.reverse e := by
  match s with
  | [] => rfl
  | c :: s =>
    have hc : c ≠ ':' := by simpa using h
    simp [parseIPv6Body, hc]

theorem parseIPv6Body_of_ellipsis {rest : List Char} (h : rest ≠ []) :
    parseIPv6Body (':' :: ':' :: rest) =
      (parseGroups 8 rest [] (some 0)).bind fun (groups, e) => expandGroups groups.reverse e := by
  match rest with
  | [] => exact absurd rfl h
  | c :: rest => rfl

theorem not_mem_joinGroups (hc : ∀ d < 16, Nat.digitChar d ≠ c) (hcolon : c ≠ ':') :
    c ∉ joinGroups gs := by
  induction gs with
  | nil => simp [joinGroups]
  | cons g gs ih =>
    have hg : c ∉ Nat.toDigits 16 g := not_mem_toDigits (by decide) (by decide) hc
    cases gs with
    | nil => rwa [joinGroups_singleton]
    | cons h gs => simp [joinGroups_cons_cons, hg, hcolon, ih]

theorem not_mem_dotted (hc : ∀ d < 16, Nat.digitChar d ≠ c) (hdot : c ≠ '.') : c ∉ dotted n := by
  have hg (m : Nat) : c ∉ Nat.toDigits 10 m := not_mem_toDigits (by decide) (by decide) hc
  simp [dotted, intercalate_cons_cons, hg, hdot]

theorem not_mem_text6 (hc : ∀ d < 16, Nat.digitChar d ≠ c) (hcolon : c ≠ ':') : c ∉ text6 n := by
  unfold text6
  split <;> simp [not_mem_joinGroups hc hcolon, hcolon]

/-- Filling the `::` puts back the zero groups that the printer left out. -/
theorem expandGroups_zeros {pre post : List Nat} {l : Nat} (hl : 2 ≤ l)
    (h : pre.length + l + post.length = 8) :
    expandGroups (pre ++ post) (some pre.length) =
      some (value 65536 (pre ++ List.replicate l 0 ++ post)) := by
  have hlen : (pre ++ post).length = 8 - l := by rw [length_append]; omega
  have hfill : 8 - (8 - l) = l := by omega
  rw [expandGroups, if_neg (by omega), hlen, hfill, take_left, drop_left]

/-- The groups of a number read back from its text. -/
theorem parseIPv6Body_text6 (h : n < 2 ^ 128) : parseIPv6Body (text6 n) = some n := by
  have hlen := length_groupsOf n
  have hmem : ∀ g ∈ groupsOf n, g < 65536 := fun g => lt_of_mem_groupsOf
  cases hrun : longestZeroRun (groupsOf n) with
  | none =>
    have hne : groupsOf n ≠ [] := by intro h0; simp [h0] at hlen
    have hhead := joinGroups_head hne []
    rw [append_nil] at hhead
    simp only [text6, hrun]
    rw [parseIPv6Body_of_head hhead, parseGroups_join hmem hne (by omega)]
    simp [expandGroups, hlen, value_groupsOf h]
  | some p =>
    obtain ⟨i, l⟩ := p
    obtain ⟨hl, hsplit⟩ := longestZeroRun_spec hrun
    simp only [text6, hrun]
    generalize hpre : (groupsOf n).take i = pre at hsplit ⊢
    generalize hpost : (groupsOf n).drop (i + l) = post at hsplit ⊢
    have htotal : pre.length + l + post.length = 8 := by
      rw [← hlen, hsplit]; simp [Nat.add_assoc]
    have hpremem : ∀ g ∈ pre, g < 65536 := fun g hg => hmem g (mem_of_mem_take (hpre ▸ hg))
    have hpostmem : ∀ g ∈ post, g < 65536 := fun g hg => hmem g (mem_of_mem_drop (hpost ▸ hg))
    have hvalue : value 65536 (pre ++ List.replicate l 0 ++ post) = n := by
      rw [← hsplit, value_groupsOf h]
    cases pre with
    | nil =>
      cases post with
      | nil =>
        obtain rfl : l = 8 := by simpa using htotal
        rw [← hvalue]
        rfl
      | cons g post =>
        have hj : joinGroups (g :: post) ≠ [] := joinGroups_ne_nil (by simp)
        have hexp := expandGroups_zeros hl htotal
        show parseIPv6Body (':' :: ':' :: joinGroups (g :: post)) = _
        rw [parseIPv6Body_of_ellipsis hj,
          parseGroups_join hpostmem (by simp) (by simp at htotal ⊢; omega)]
        rw [hvalue] at hexp
        simpa using hexp
    | cons g pre =>
      have hexp := expandGroups_zeros hl htotal
      rw [parseIPv6Body_of_head (joinGroups_head (by simp) _),
        parseGroups_join_ellipsis hpremem (by simp) hpostmem (by omega)]
      rw [hvalue] at hexp
      simpa using hexp

/-- A dotted tail after an ellipsis is read as the last two groups. -/
theorem parseGroups_dotted (h : n < 2 ^ 32) {e : Nat} (hlen : groups.length ≤ 6) :
    parseGroups (fuel + 1) (dotted n) groups (some e) =
      some (n % 65536 :: n / 65536 :: groups, some e) := by
  obtain ⟨tail, htail⟩ := dotted_eq n
  have hreads : Reads hexDigit? 10 := fun d hd => hexDigit?_reads d (by omega)
  obtain ⟨ds, htake, hds, hshort, -⟩ := takeDigits_toDigits (b := 10) (by decide) hreads
    (n := n / 16777216 % 256) (k := 3) (by decide) (by omega)
    (show ∀ c ∈ ('.' :: tail).head?, hexDigit? c = none by simp [hexDigit?])
  rw [← htail] at htake
  have hds : ¬ (ds.isEmpty = true ∨ 4 < ds.length) := by
    rintro (h | h)
    · exact hds (isEmpty_iff.mp h)
    · omega
  have hfits : ¬ (((some e).isNone = true ∧ groups.length ≠ 6) ∨ 8 < groups.length + 2) := by
    rintro (⟨h, -⟩ | h)
    · cases h
    · omega
  simp only [parseGroups, htake, if_neg hds, List.head?_cons, if_true, if_neg hfits,
    parseIPv4Fields_dotted h]

/-- An IPv4-mapped address reads back from `::ffff:` and its IPv4 part. -/
theorem parseIPv6Body_mapped (h : n < 2 ^ 32) :
    parseIPv6Body (':' :: ':' :: 'f' :: 'f' :: 'f' :: 'f' :: ':' :: dotted n) =
      some (65535 * 2 ^ 32 + n) := by
  obtain ⟨tail, htail⟩ := dotted_eq n
  have hdigits : Nat.toDigits 16 65535 = ['f', 'f', 'f', 'f'] := by decide
  have hfirst : (dotted n).head? ≠ some ':' := by
    intro hh
    exact not_mem_dotted (by decide) (by decide) (mem_of_mem_head? hh)
  have hne : dotted n ≠ [] := by simp [htail]
  have hprefix : 'f' :: 'f' :: 'f' :: 'f' :: ':' :: dotted n =
      Nat.toDigits 16 65535 ++ ':' :: dotted n := by rw [hdigits]; rfl
  rw [parseIPv6Body_of_ellipsis (by simp), hprefix, parseGroups_colon (by decide) hne hfirst,
    parseGroups_dotted h (by decide)]
  simp only [Option.bind_some, expandGroups, value, reverse_cons, reverse_nil,
    nil_append, cons_append, length_cons, length_nil, Nat.reduceAdd,
    Nat.reduceEqDiff, if_false, take_zero, drop_zero, Nat.reduceSub,
    replicate_succ, replicate_zero, foldl_cons, foldl_nil]
  congr 1
  omega

/-- The value of an IPv4-mapped address. -/
theorem toNat_of_is4In6 {b : BitVec 128} {z : String} (h : (Addr.v6 b z).is4In6 = true) :
    b.toNat = 65535 * 2 ^ 32 + b.toNat % 2 ^ 32 := by
  have hshift : (b >>> 32).toNat = 65535 := by
    have := congrArg BitVec.toNat (beq_iff_eq.mp h)
    simpa using this
  rw [BitVec.toNat_ushiftRight, Nat.shiftRight_eq_div_pow] at hshift
  omega

theorem parseAddr_dotted (hs : s = dotted n) (h : n < 2 ^ 32) :
    parseAddr (String.ofList s) = some (.v4 (BitVec.ofNat 32 n)) := by
  obtain ⟨tail, htail⟩ := dotted_eq n
  have hfind : s.find? (fun c => c = '.' ∨ c = ':' ∨ c = '%') = some '.' := by
    rw [hs, htail]
    exact find?_toDigits_append (by decide) (.inl rfl) tail
  simp only [parseAddr, String.toList_ofList, hfind]
  rw [hs, parseIPv4Fields_dotted h]
  rfl

theorem find?_text6 (n : Nat) :
    (text6 n).find? (fun c => c = '.' ∨ c = ':' ∨ c = '%') = some ':' := by
  have hlen := length_groupsOf n
  have hcons (g : Nat) (gs : List Nat) (rest : List Char) :
      (joinGroups (g :: gs) ++ ':' :: rest).find? (fun c => c = '.' ∨ c = ':' ∨ c = '%') =
        some ':' := by
    cases gs with
    | nil =>
      rw [joinGroups_singleton]
      exact find?_toDigits_append (by decide) (.inr (.inl rfl)) _
    | cons g' gs =>
      rw [joinGroups_cons_cons, append_assoc]
      exact find?_toDigits_append (by decide) (.inr (.inl rfl)) _
  unfold text6
  split
  · obtain ⟨g, g', gs, hgs⟩ : ∃ g g' gs, groupsOf n = g :: g' :: gs := by
      match groupsOf n, hlen with
      | g :: g' :: gs, _ => exact ⟨g, g', gs, rfl⟩
    rw [hgs, joinGroups_cons_cons]
    exact find?_toDigits_append (by decide) (.inr (.inl rfl)) _
  · next i l _ =>
    cases (groupsOf n).take i with
    | nil => rfl
    | cons g gs => exact hcons g gs _

/-- A valid address is what its text parses to. -/
theorem parseAddr_toText (hvalid : a.isValid = true) : parseAddr a.toText = some a := by
  rw [Addr.toText_eq]
  cases a with
  | invalid => cases hvalid
  | v4 b =>
    have := parseAddr_dotted (s := dotted b.toNat ++ []) (append_nil _) b.isLt
    rwa [BitVec.ofNat_toNat, BitVec.setWidth_eq] at this
  | v6 b z =>
    have hnum (n : Nat) (h : b.toNat = n) : BitVec.ofNat 128 n = b := by
      rw [← h, BitVec.ofNat_toNat, BitVec.setWidth_eq]
    cases h4 : (Addr.v6 b z).is4In6 with
    | true =>
      have hmod : b.toNat % 2 ^ 32 < 2 ^ 32 := Nat.mod_lt _ (by decide)
      have hbody : (Addr.v6 b z).body =
          ':' :: ':' :: 'f' :: 'f' :: 'f' :: 'f' :: ':' :: dotted (b.toNat % 2 ^ 32) := by
        rw [Addr.body, if_pos h4]
        rfl
      have hpct : '%' ∉
          ':' :: ':' :: 'f' :: 'f' :: 'f' :: 'f' :: ':' :: dotted (b.toNat % 2 ^ 32) := by
        simp [not_mem_dotted]
      have hparse := parseIPv6Body_mapped hmod
      rw [← toNat_of_is4In6 h4] at hparse
      have hfind : ((Addr.v6 b z).body ++ zoneText z).find?
          (fun c => c = '.' ∨ c = ':' ∨ c = '%') = some ':' := by
        rw [hbody]
        rfl
      simp only [parseAddr, String.toList_ofList, Addr.zone, hfind]
      rw [hbody, parseIPv6_eq hpct, hparse, Option.map_some, hnum _ rfl]
    | false =>
      have hbody : (Addr.v6 b z).body = text6 b.toNat := by
        rw [Addr.body, if_neg (Bool.eq_false_iff.mp h4)]
      have hfind : (text6 b.toNat ++ zoneText z).find? (fun c => c = '.' ∨ c = ':' ∨ c = '%') =
          some ':' := by
        rw [List.find?_append, find?_text6, Option.some_or]
      simp only [parseAddr, String.toList_ofList, Addr.zone, hbody, hfind]
      rw [parseIPv6_eq (not_mem_text6 (by decide) (by decide)), parseIPv6Body_text6 b.isLt,
        Option.map_some, hnum _ rfl]

/-- The text of an address parses to it, if to anything. -/
theorem parseAddr_toText_iff {b : Addr} :
    parseAddr a.toText = some b ↔ a.isValid = true ∧ b = a := by
  cases hvalid : a.isValid with
  | true => rw [parseAddr_toText hvalid, Option.some.injEq, eq_comm, and_iff_right rfl]
  | false =>
    obtain rfl : a = .invalid := by cases a <;> first | rfl | cases hvalid
    have hnone : parseAddr Addr.invalid.toText = none := by decide
    simp [hnone]

/-- An address that was parsed is valid. -/
theorem isValid_of_parseAddr {s : String} (h : parseAddr s = some a) : a.isValid = true := by
  unfold parseAddr at h
  split at h
  · obtain ⟨n, -, rfl⟩ := Option.map_eq_some_iff.mp h; rfl
  · unfold parseIPv6 at h
    dsimp only at h
    split at h
    · cases h
    · obtain ⟨n, -, rfl⟩ := Option.map_eq_some_iff.mp h; rfl
  · cases h

/-- A valid prefix is rebuilt from its parts. -/
theorem prefixFrom_addr (h : p.bits = some b) : prefixFrom p.addr b = p := by
  obtain ⟨hne, hle⟩ := p.bits_le b h
  obtain ⟨haddr, hbits⟩ := prefixFrom_spec hne p.zone_eq hle
  exact Prefix.ext haddr (hbits.trans h.symm)

/-- A valid prefix is what its text parses to. -/
theorem parsePrefix_toText (h : p.isValid = true) : parsePrefix p.toText = some p := by
  obtain ⟨b, hb⟩ := Option.isSome_iff_exists.mp h
  obtain ⟨hne, hle⟩ := p.bits_le b hb
  have hvalid : p.addr.isValid = true := by cases hp : p.addr <;> simp_all [Addr.isValid]
  have hzone : p.addr.hasZone = false := by simp [Addr.hasZone, p.zone_eq]
  have hslash : ∀ c ∈ (Nat.toDigits 10 b).reverse, decide (c ≠ '/') = true := by
    intro c hc
    obtain ⟨d, -, rfl⟩ := exists_of_mem_toDigits (by decide) (mem_reverse.mp hc)
    simp
  have hrev : p.toText.toList.reverse =
      (Nat.toDigits 10 b).reverse ++ '/' :: p.addr.toText.toList.reverse := by
    simp [Prefix.toText, hb]
  have htake : p.toText.toList.reverse.takeWhile (· ≠ '/') = (Nat.toDigits 10 b).reverse := by
    rw [hrev, takeWhile_append_of_pos hslash]
    simp
  have hdrop : p.toText.toList.reverse.dropWhile (· ≠ '/') =
      '/' :: p.addr.toText.toList.reverse := by
    rw [hrev, dropWhile_append_of_pos hslash]
    simp
  simp only [parsePrefix, hdrop, htake, reverse_reverse, String.ofList_toList,
    parseAddr_toText hvalid, parseDecimal_toDigits, Option.bind_eq_bind, Option.bind_some,
    hzone, Bool.false_eq_true, if_false, if_pos hle, prefixFrom_addr hb]

/-- The text of an address without a zone has no slash, so it is never read as a prefix. -/
theorem slash_not_mem_toText (hvalid : a.isValid = true) (hzone : a.hasZone = false) :
    '/' ∉ a.toText.toList := by
  have hdotted (n : Nat) : '/' ∉ dotted n := not_mem_dotted (by decide) (by decide)
  have htext (n : Nat) : '/' ∉ text6 n := not_mem_text6 (by decide) (by decide)
  simp only [Addr.toText, hzone, Bool.false_eq_true, if_false, String.toList_ofList, Addr.body]
  split
  · simp [hdotted]
  · cases a with
    | invalid => cases hvalid
    | v4 b => exact hdotted _
    | v6 b z => exact htext _

/-- The text of a prefix has a slash. -/
theorem slash_mem_toText (h : p.isValid = true) : '/' ∈ p.toText.toList := by
  obtain ⟨b, hb⟩ := Option.isSome_iff_exists.mp h
  simp [Prefix.toText, hb]

end WgoTailscale
