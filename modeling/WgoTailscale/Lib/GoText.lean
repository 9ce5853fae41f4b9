import Mathlib.Algebra.Order.Group.Nat
import Mathlib.Data.List.Basic

/-!
# Go's text functions

The functions of Go's `net`, `strconv`, `strings` and `unicode` packages that the program calls on
texts from outside, on lists of characters. Case mapping and white space are those of Unicode.
-/

namespace GoText

/-- What reading an unsigned decimal number ends with. -/
inductive ParsedUint where
  | ok (n : Nat)
  | invalid
  | outOfRange
  deriving DecidableEq

/-- The loop of `strconv.ParseUint(s, 10, 64)`: an overflow ends it before the rest is looked at. -/
def parseUintLoop : List Char → Nat → ParsedUint
  | [], n => .ok n
  | c :: rest, n =>
    if c.isDigit then
      let n := n * 10 + (c.toNat - '0'.toNat)
      if 2 ^ 64 ≤ n then .outOfRange else parseUintLoop rest n
    else .invalid

/-- The value of `strconv.ParseInt(s, 10, 64)`, whose error is not looked at: zero if `s` is not a
number, the nearest 64-bit value if it is out of range. -/
def parseInt (s : List Char) : Int :=
  let (negative, digits) := match s with
    | '-' :: rest => (true, rest)
    | '+' :: rest => (false, rest)
    | _ => (false, s)
  if digits.isEmpty then 0
  else
    let clip (n : Nat) : Int :=
      if negative then -(min n (2 ^ 63) : Nat) else (min n (2 ^ 63 - 1) : Nat)
    match parseUintLoop digits 0 with
    | .ok n => clip n
    | .outOfRange => clip (2 ^ 64)
    | .invalid => 0

/-- The host and port of `net.SplitHostPort`, if it succeeds. -/
def splitHostPort (hostport : List Char) : Option (List Char × List Char) :=
  -- the last colon separates the port
  match hostport.reverse.span (· ≠ ':') with
  | (_, []) => none
  | (port, _ :: host) =>
    let port := port.reverse
    let host := host.reverse
    match host with
    | '[' :: inner =>
      match inner.span (· ≠ ']') with
      | (address, [']']) =>
        if '[' ∈ address ∨ '[' ∈ port ∨ ']' ∈ port then none else some (address, port)
      | _ => none
    | _ =>
      if ':' ∈ host ∨ '[' ∈ hostport ∨ ']' ∈ hostport then none else some (host, port)

/-! ## Case and white space -/

/-- Letters of one case at equal distances, and those of the other case, from `image` on at the same
distances. -/
structure CaseRun where
  first : Nat
  last : Nat
  step : Nat
  image : Nat

/-- Is a code point one of the letters? -/
def CaseRun.covers (r : CaseRun) (n : Nat) : Bool :=
  r.first ≤ n && n ≤ r.last && (n - r.first) % r.step == 0

/-- The run that maps the letters back. -/
def CaseRun.back (r : CaseRun) : CaseRun :=
  ⟨r.image, r.image + (r.last - r.first), r.step, r.first⟩

/-- The letters of ASCII. -/
def asciiRun : CaseRun := ⟨0x41, 0x5a, 1, 0x61⟩

/-- The other capital letters that are mapped to small letters and back, by the simple case mappings
of Unicode 15: runs of neighbours, runs in which capital and small letters take turns, and single
letters. -/
def caseRuns : List CaseRun :=
  ([(0xc0, 0xd6, 0xe0), (0xd8, 0xde, 0xf8), (0x189, 0x18a, 0x256), (0x1b1, 0x1b2, 0x28a),
    (0x388, 0x38a, 0x3ad), (0x38e, 0x38f, 0x3cd), (0x391, 0x3a1, 0x3b1), (0x3a3, 0x3ab, 0x3c3),
    (0x3fd, 0x3ff, 0x37b), (0x400, 0x40f, 0x450), (0x410, 0x42f, 0x430), (0x531, 0x556, 0x561),
    (0x10a0, 0x10c5, 0x2d00), (0x13a0, 0x13ef, 0xab70), (0x13f0, 0x13f5, 0x13f8),
    (0x1c90, 0x1cba, 0x10d0), (0x1cbd, 0x1cbf, 0x10fd), (0x1f08, 0x1f0f, 0x1f00),
    (0x1f18, 0x1f1d, 0x1f10), (0x1f28, 0x1f2f, 0x1f20), (0x1f38, 0x1f3f, 0x1f30),
    (0x1f48, 0x1f4d, 0x1f40), (0x1f68, 0x1f6f, 0x1f60), (0x1f88, 0x1f8f, 0x1f80),
    (0x1f98, 0x1f9f, 0x1f90), (0x1fa8, 0x1faf, 0x1fa0), (0x1fb8, 0x1fb9, 0x1fb0),
    (0x1fba, 0x1fbb, 0x1f70), (0x1fc8, 0x1fcb, 0x1f72), (0x1fd8, 0x1fd9, 0x1fd0),
    (0x1fda, 0x1fdb, 0x1f76), (0x1fe8, 0x1fe9, 0x1fe0), (0x1fea, 0x1feb, 0x1f7a),
    (0x1ff8, 0x1ff9, 0x1f78), (0x1ffa, 0x1ffb, 0x1f7c), (0x2160, 0x216f, 0x2170),
    (0x24b6, 0x24cf, 0x24d0), (0x2c00, 0x2c2f, 0x2c30), (0x2c7e, 0x2c7f, 0x23f),
    (0xff21, 0xff3a, 0xff41), (0x10400, 0x10427, 0x10428), (0x104b0, 0x104d3, 0x104d8),
    (0x10570, 0x1057a, 0x10597), (0x1057c, 0x1058a, 0x105a3), (0x1058c, 0x10592, 0x105b3),
    (0x10594, 0x10595, 0x105bb), (0x10c80, 0x10cb2, 0x10cc0), (0x118a0, 0x118bf, 0x118c0),
    (0x16e40, 0x16e5f, 0x16e60), (0x1e900, 0x1e921, 0x1e922)].map
    fun (first, last, image) => ⟨first, last, 1, image⟩) ++
  ([(0x100, 0x12e), (0x132, 0x136), (0x139, 0x147), (0x14a, 0x176), (0x179, 0x17d), (0x182, 0x184),
    (0x187, 0x187), (0x18b, 0x18b), (0x191, 0x191), (0x198, 0x198), (0x1a0, 0x1a4), (0x1a7, 0x1a7),
    (0x1ac, 0x1ac), (0x1af, 0x1af), (0x1b3, 0x1b5), (0x1b8, 0x1b8), (0x1bc, 0x1bc), (0x1cd, 0x1db),
    (0x1de, 0x1ee), (0x1f4, 0x1f4), (0x1f8, 0x21e), (0x222, 0x232), (0x23b, 0x23b), (0x241, 0x241),
    (0x246, 0x24e), (0x370, 0x372), (0x376, 0x376), (0x3d8, 0x3ee), (0x3f7, 0x3f7), (0x3fa, 0x3fa),
    (0x460, 0x480), (0x48a, 0x4be), (0x4c1, 0x4cd), (0x4d0, 0x52e), (0x1e00, 0x1e94),
    (0x1ea0, 0x1efe), (0x2183, 0x2183), (0x2c60, 0x2c60), (0x2c67, 0x2c6b), (0x2c72, 0x2c72),
    (0x2c75, 0x2c75), (0x2c80, 0x2ce2), (0x2ceb, 0x2ced), (0x2cf2, 0x2cf2), (0xa640, 0xa66c),
    (0xa680, 0xa69a), (0xa722, 0xa72e), (0xa732, 0xa76e), (0xa779, 0xa77b), (0xa77e, 0xa786),
    (0xa78b, 0xa78b), (0xa790, 0xa792), (0xa796, 0xa7a8), (0xa7b4, 0xa7c2), (0xa7c7, 0xa7c9),
    (0xa7d0, 0xa7d0), (0xa7d6, 0xa7d8), (0xa7f5, 0xa7f5)].map
    fun (first, last) => ⟨first, last, 2, first + 1⟩) ++
  ([(0x178, 0xff), (0x181, 0x253), (0x186, 0x254), (0x18e, 0x1dd), (0x18f, 0x259), (0x190, 0x25b),
    (0x193, 0x260), (0x194, 0x263), (0x196, 0x269), (0x197, 0x268), (0x19c, 0x26f), (0x19d, 0x272),
    (0x19f, 0x275), (0x1a6, 0x280), (0x1a9, 0x283), (0x1ae, 0x288), (0x1b7, 0x292), (0x1c4, 0x1c6),
    (0x1c7, 0x1c9), (0x1ca, 0x1cc), (0x1f1, 0x1f3), (0x1f6, 0x195), (0x1f7, 0x1bf), (0x220, 0x19e),
    (0x23a, 0x2c65), (0x23d, 0x19a), (0x23e, 0x2c66), (0x243, 0x180), (0x244, 0x289),
    (0x245, 0x28c), (0x37f, 0x3f3), (0x386, 0x3ac), (0x38c, 0x3cc), (0x3cf, 0x3d7), (0x3f9, 0x3f2),
    (0x4c0, 0x4cf), (0x10c7, 0x2d27), (0x10cd, 0x2d2d), (0x1f59, 0x1f51), (0x1f5b, 0x1f53),
    (0x1f5d, 0x1f55), (0x1f5f, 0x1f57), (0x1fbc, 0x1fb3), (0x1fcc, 0x1fc3), (0x1fec, 0x1fe5),
    (0x1ffc, 0x1ff3), (0x2132, 0x214e), (0x2c62, 0x26b), (0x2c63, 0x1d7d), (0x2c64, 0x27d),
    (0x2c6d, 0x251), (0x2c6e, 0x271), (0x2c6f, 0x250), (0x2c70, 0x252), (0xa77d, 0x1d79),
    (0xa78d, 0x265), (0xa7aa, 0x266), (0xa7ab, 0x25c), (0xa7ac, 0x261), (0xa7ad, 0x26c),
    (0xa7ae, 0x26a), (0xa7b0, 0x29e), (0xa7b1, 0x287), (0xa7b2, 0x29d), (0xa7b3, 0xab53),
    (0xa7c4, 0xa794), (0xa7c5, 0x282), (0xa7c6, 0x1d8e)].map
    fun (capital, small) => ⟨capital, capital, 2, small⟩)

/-- What `unicode.ToLower` maps and what is not mapped back. -/
def lowerRuns : List CaseRun :=
  caseRuns ++
  ([(0x130, 0x69), (0x1c5, 0x1c6), (0x1c8, 0x1c9), (0x1cb, 0x1cc), (0x1f2, 0x1f3), (0x3f4, 0x3b8),
    (0x1e9e, 0xdf), (0x2126, 0x3c9), (0x212a, 0x6b), (0x212b, 0xe5)].map
    fun (rune, small) => ⟨rune, rune, 2, small⟩)

/-- What `unicode.ToUpper` maps and what is not mapped back. -/
def upperRuns : List CaseRun :=
  caseRuns.map CaseRun.back ++
  ([(0xb5, 0x39c), (0x131, 0x49), (0x17f, 0x53), (0x1c5, 0x1c4), (0x1c8, 0x1c7), (0x1cb, 0x1ca),
    (0x1f2, 0x1f1), (0x345, 0x399), (0x3c2, 0x3a3), (0x3d0, 0x392), (0x3d1, 0x398), (0x3d5, 0x3a6),
    (0x3d6, 0x3a0), (0x3f0, 0x39a), (0x3f1, 0x3a1), (0x3f5, 0x395), (0x1c80, 0x412),
    (0x1c81, 0x414), (0x1c82, 0x41e), (0x1c83, 0x421), (0x1c84, 0x422), (0x1c85, 0x422),
    (0x1c86, 0x42a), (0x1c87, 0x462), (0x1c88, 0xa64a), (0x1e9b, 0x1e60), (0x1fbe, 0x399)].map
    fun (rune, capital) => ⟨rune, rune, 2, capital⟩)

/-- The loop of `unicode.To` over a table. -/
def mapRune (runs : List CaseRun) (n : Nat) : Nat :=
  match runs.find? (·.covers n) with
  | some r => r.image + (n - r.first)
  | none => n

/-- `unicode.ToLower`. -/
def lowerRune (c : Char) : Char :=
  Char.ofNat (mapRune (if c.toNat ≤ 0x7f then [asciiRun] else lowerRuns) c.toNat)

/-- `unicode.ToUpper`. -/
def upperRune (c : Char) : Char :=
  Char.ofNat (mapRune (if c.toNat ≤ 0x7f then [asciiRun.back] else upperRuns) c.toNat)

/-- `strings.ToLower`. -/
def toLower (s : String) : String := String.ofList (s.toList.map lowerRune)

/-- `strings.ToUpper`. -/
def toUpper (s : String) : String := String.ofList (s.toList.map upperRune)

/-- `unicode.IsSpace`. -/
def isSpace (c : Char) : Bool :=
  let n := c.toNat
  (0x09 ≤ n && n ≤ 0x0d) || (0x2000 ≤ n && n ≤ 0x200a) ||
    n ∈ [0x20, 0x85, 0xa0, 0x1680, 0x2028, 0x2029, 0x202f, 0x205f, 0x3000]

/-- No text but the empty one is mapped to the empty text. -/
theorem toUpper_eq_empty {s : String} : toUpper s = "" ↔ s = "" := by
  rw [toUpper, ← String.toList_eq_nil_iff, String.toList_ofList, List.map_eq_nil_iff,
    String.toList_eq_nil_iff]

/-- The images of a run are not letters of another: the runs are apart, or take turns. -/
def CaseRun.apart (r r' : CaseRun) : Bool :=
  r.back.last < r'.first || r'.last < r.image ||
    (r.step == 2 && r'.step == 2 && (r.image + r'.first) % 2 == 1)

/-- A run does not cover the images of a run it is apart from. -/
theorem CaseRun.not_covers_of_apart {r r' : CaseRun} {n : Nat} (h : r.apart r' = true)
    (hn : r.covers n = true) : r'.covers (r.image + (n - r.first)) = false := by
  simp only [apart, back, covers, Bool.or_eq_true, Bool.and_eq_true, decide_eq_true_eq, beq_iff_eq,
    Bool.eq_false_iff, ne_eq, not_and] at h hn ⊢
  rintro ⟨hfirst, hlast⟩
  obtain (hbelow | habove) | ⟨⟨hstep, hstep'⟩, hodd⟩ := h
  · have hbelow := of_decide_eq_true hbelow
    omega
  · omega
  · rw [hstep] at hn
    rw [hstep']
    obtain ⟨x, hx⟩ := Nat.exists_eq_add_of_le hfirst
    rw [hx, Nat.add_sub_cancel_left]
    omega

/-- No letter is mapped to a letter that is mapped again. -/
theorem apart_upperRuns : ∀ r ∈ asciiRun.back :: upperRuns, ∀ r' ∈ asciiRun.back :: upperRuns,
    r.apart r' = true := by
  simp only [← List.all_eq_true]
  decide +kernel

theorem covers_zero : ∀ r ∈ asciiRun.back :: upperRuns, r.covers 0 = false := by
  simp only [← Bool.not_eq_true', ← List.all_eq_true]
  decide +kernel

/-- What no run covers is mapped to itself. -/
theorem mapRune_eq_self {runs : List CaseRun} {n : Nat} (h : ∀ r ∈ runs, r.covers n = false) :
    mapRune runs n = n := by
  have hnone : runs.find? (·.covers n) = none :=
    List.find?_eq_none.mpr fun r hr => by simp [h r hr]
  rw [mapRune, hnone]

theorem toNat_ofNat (n : Nat) : (Char.ofNat n).toNat = n ∨ (Char.ofNat n).toNat = 0 := by
  by_cases h : n.isValidChar
  · rw [Char.ofNat, dif_pos h]
    exact .inl rfl
  · rw [Char.ofNat, dif_neg h]
    exact .inr rfl

/-- `unicode.ToUpper` leaves what it has mapped. -/
theorem upperRune_upperRune (c : Char) : upperRune (upperRune c) = upperRune c := by
  generalize hruns : (if c.toNat ≤ 0x7f then [asciiRun.back] else upperRuns) = runs
  have hsub : ∀ r ∈ runs, r ∈ asciiRun.back :: upperRuns := by
    subst hruns
    split <;> simp +contextual
  have hupper : upperRune c = Char.ofNat (mapRune runs c.toNat) := by rw [upperRune, hruns]
  cases hfind : runs.find? (·.covers c.toNat) with
  | none =>
    have hsame : upperRune c = c := by rw [hupper, mapRune, hfind, Char.ofNat_toNat]
    rw [hsame, hsame]
  | some r =>
    -- what the image is mapped to is the image, since no run covers it
    have hcovers := List.find?_some hfind
    have hmem := hsub r (List.mem_of_find?_eq_some hfind)
    have hnot : ∀ r' ∈ asciiRun.back :: upperRuns, r'.covers (upperRune c).toNat = false := by
      intro r' hr'
      rw [hupper, mapRune, hfind]
      rcases toNat_ofNat (r.image + (c.toNat - r.first)) with heq | heq
      · rw [heq]
        exact CaseRun.not_covers_of_apart (apart_upperRuns r hmem r' hr') hcovers
      · rw [heq]
        exact covers_zero r' hr'
    rw [upperRune.eq_1 (upperRune c), mapRune_eq_self, Char.ofNat_toNat]
    split
    · exact fun r' hr' => hnot r' (List.mem_cons.mpr (.inl (List.mem_singleton.mp hr')))
    · exact fun r' hr' => hnot r' (List.mem_cons_of_mem _ hr')

/-- `strings.ToUpper` leaves what it has mapped. -/
theorem toUpper_toUpper (s : String) : toUpper (toUpper s) = toUpper s := by
  simp [toUpper, Function.comp_def, upperRune_upperRune]

end GoText
