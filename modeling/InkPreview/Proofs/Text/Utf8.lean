import InkPreview.Text.LineBreak
import InkPreview.Text.Utf8
import Mathlib.Algebra.Group.Nat.Defs
/-!
Decoding loses nothing. Text that has been decoded is encoded as the very bytes it was decoded from, text that has been
encoded is decoded as it was, strictly or not, and line ends are unified in the bytes as they are in the text. Main
statements: `decode_eq_ok_iff`, `decodeLossy_encode`, `encode_unifyLines`.
-/
namespace InkPreview.Text

namespace Utf8

/-- The last `n` of the bytes of a code point that takes more than one. -/
def continuation (v : Nat) : Nat → List UInt8
  | 0 => []
  | n + 1 => UInt8.ofNat (v / 64 ^ n % 64 + 128) :: continuation v n

variable {acc seen n lo hi more position v : Nat} {b : UInt8} {c : Char} {bs rest : List UInt8} {cs : List Char}

/-- A character that is read to its end has the continuation bytes of its code point, the first of them within the
bounds that were set. -/
theorem tail_eq_char (h : tail acc seen n lo hi rest = .char c more) (low : 0x80 ≤ lo) (high : hi ≤ 0xbf) :
    ∃ v, c = Char.ofNat v ∧ v / 64 ^ n = acc ∧ more = seen + n ∧ rest = continuation v n ++ rest.drop n ∧
      ∀ k, n = k + 1 → lo ≤ v / 64 ^ k % 64 + 128 ∧ v / 64 ^ k % 64 + 128 ≤ hi := by
  induction n generalizing acc seen lo hi rest with
  | zero =>
    obtain ⟨rfl, rfl⟩ : Char.ofNat acc = c ∧ seen = more := by simpa [tail] using h
    exact ⟨acc, rfl, by simp, rfl, rfl, nofun⟩
  | succ n ih =>
    cases rest with
    | nil => simp [tail] at h
    | cons b rest =>
      simp only [tail] at h
      split at h
      · rename_i bounds
        simp only [Bool.and_eq_true, decide_eq_true_eq] at bounds
        obtain ⟨v, rfl, top, rfl, below, -⟩ := ih h (Nat.le_refl _) (Nat.le_refl _)
        have digit : v / 64 ^ n % 64 + 128 = b.toNat := by omega
        refine ⟨v, rfl, ?_, by omega, ?_, fun k eq => ?_⟩
        · rw [Nat.pow_succ, ← Nat.div_div_eq_div_mul, top]
          omega
        · rw [continuation, digit, UInt8.ofNat_toNat, List.cons_append, List.drop_succ_cons, ← below]
        · obtain rfl := Nat.succ.inj eq
          omega
      · cases h

theorem val_ofNat {v : Nat} (h : v < 0xd800 ∨ 0xdfff < v ∧ v < 0x110000) : (Char.ofNat v).val.toNat = v := by
  rw [Char.ofNat, dif_pos (show v.isValidChar from h)]
  rfl

theorem ofNat_eq {v : Nat} (h : v = b.toNat) : UInt8.ofNat v = b := by rw [h, UInt8.ofNat_toNat]

/-! ### The bytes of a character, by the first of them -/

theorem ascii_eq (h : b.toNat < 0x80) : [b] = String.utf8EncodeChar (Char.ofNat b.toNat) := by
  simp [String.utf8EncodeChar, val_ofNat (v := b.toNat) (by omega), show b.toNat ≤ 127 by omega]

theorem two_eq (h : tail acc 0 1 lo hi rest = .char c more) (low : 0x80 ≤ lo) (high : hi ≤ 0xbf)
    (first : b.toNat = acc + 0xc0) (wide : 2 ≤ acc) (narrow : acc < 32) :
    b :: rest = String.utf8EncodeChar c ++ rest.drop more := by
  obtain ⟨v, rfl, top, rfl, split, -⟩ := tail_eq_char h low high
  have encoded : String.utf8EncodeChar (Char.ofNat v) = b :: continuation v 1 := by
    have lead : UInt8.ofNat (v / 64 % 32 + 192) = b := ofNat_eq (by omega)
    simp only [String.utf8EncodeChar, val_ofNat (v := v) (by omega), if_neg (show ¬ v ≤ 127 by omega),
      if_pos (show v ≤ 2047 by omega), lead]
    simp [continuation]
  rw [encoded, List.cons_append]
  exact congrArg (b :: ·) split

/-- The bounds keep out code points that take fewer bytes, and surrogates. -/
theorem three_eq (h : tail acc 0 2 lo hi rest = .char c more) (low : 0x80 ≤ lo) (high : hi ≤ 0xbf)
    (first : b.toNat = acc + 0xe0) (narrow : acc < 16) (overlong : acc = 0 → 0xa0 ≤ lo)
    (surrogate : acc = 13 → hi ≤ 0x9f) : b :: rest = String.utf8EncodeChar c ++ rest.drop more := by
  obtain ⟨v, rfl, top, rfl, split, second⟩ := tail_eq_char h low high
  have bounds := second 1 rfl
  have encoded : String.utf8EncodeChar (Char.ofNat v) = b :: continuation v 2 := by
    have lead : UInt8.ofNat (v / 4096 % 16 + 224) = b := ofNat_eq (by omega)
    simp only [String.utf8EncodeChar, val_ofNat (v := v) (by omega), if_neg (show ¬ v ≤ 127 by omega),
      if_neg (show ¬ v ≤ 2047 by omega), if_pos (show v ≤ 65535 by omega), lead]
    simp [continuation]
  rw [encoded, List.cons_append]
  exact congrArg (b :: ·) split

/-- The bounds keep out code points that take fewer bytes, and those past the last one. -/
theorem four_eq (h : tail acc 0 3 lo hi rest = .char c more) (low : 0x80 ≤ lo) (high : hi ≤ 0xbf)
    (first : b.toNat = acc + 0xf0) (narrow : acc ≤ 4) (overlong : acc = 0 → 0x90 ≤ lo) (last : acc = 4 → hi ≤ 0x8f) :
    b :: rest = String.utf8EncodeChar c ++ rest.drop more := by
  obtain ⟨v, rfl, top, rfl, split, second⟩ := tail_eq_char h low high
  have bounds := second 2 rfl
  have encoded : String.utf8EncodeChar (Char.ofNat v) = b :: continuation v 3 := by
    have lead : UInt8.ofNat (v / 262144 % 8 + 240) = b := ofNat_eq (by omega)
    simp only [String.utf8EncodeChar, val_ofNat (v := v) (by omega), if_neg (show ¬ v ≤ 127 by omega),
      if_neg (show ¬ v ≤ 2047 by omega), if_neg (show ¬ v ≤ 65535 by omega), lead]
    simp [continuation]
  rw [encoded, List.cons_append]
  exact congrArg (b :: ·) split

/-- The piece at the front of some bytes is the encoding of its character. -/
theorem piece_eq_char (h : piece b rest = .char c more) :
    b :: rest = String.utf8EncodeChar c ++ rest.drop more := by
  simp only [piece] at h
  -- one case for every range of the first byte
  split at h
  · rename_i small
    obtain ⟨rfl, rfl⟩ : Char.ofNat b.toNat = c ∧ 0 = more := by simpa using h
    rw [← ascii_eq small]
    rfl
  split at h
  · cases h
  split at h
  · exact two_eq h (by omega) (by omega) (by omega) (by omega) (by omega)
  split at h
  · exact three_eq h (by omega) (by omega) (by omega) (by omega) (by omega) (by omega)
  split at h
  · exact three_eq h (by omega) (by omega) (by omega) (by omega) (by omega) (by omega)
  split at h
  · exact three_eq h (by omega) (by omega) (by omega) (by omega) (by omega) (by omega)
  split at h
  · exact four_eq h (by omega) (by omega) (by omega) (by omega) (by omega) (by omega)
  split at h
  · exact four_eq h (by omega) (by omega) (by omega) (by omega) (by omega) (by omega)
  split at h
  · exact four_eq h (by omega) (by omega) (by omega) (by omega) (by omega) (by omega)
  · cases h

/-! ### Whole texts -/

theorem encode_of_decodeFrom (h : decodeFrom position bs = .ok cs) : encode cs = bs := by
  fun_induction decodeFrom position bs generalizing cs with
  | case1 =>
    cases h
    rfl
  | case2 position b rest c more front cs' back ih =>
    cases h
    rw [piece_eq_char front, ← ih back]
    rfl
  | case3 => cases h
  | case4 => cases h

theorem encode_of_decode (h : decode bs = .ok cs) : encode cs = bs := encode_of_decodeFrom h

/-! ### What has been encoded -/

/-- Continuation bytes are read as the code point they are of, if the first of them is within the bounds. -/
theorem tail_continuation (bounds : ∀ k, n = k + 1 → lo ≤ v / 64 ^ k % 64 + 128 ∧ v / 64 ^ k % 64 + 128 ≤ hi)
    (seen : Nat) (rest : List UInt8) :
    tail (v / 64 ^ n) seen n lo hi (continuation v n ++ rest) = .char (Char.ofNat v) (seen + n) := by
  induction n generalizing seen lo hi with
  | zero => simp [tail]
  | succ n ih =>
    obtain ⟨low, high⟩ := bounds n rfl
    have small : v / 64 ^ n % 64 < 64 := Nat.mod_lt _ (by decide)
    have byte : (UInt8.ofNat (v / 64 ^ n % 64 + 128)).toNat = v / 64 ^ n % 64 + 128 := by
      rw [UInt8.toNat_ofNat']
      omega
    have shifted : v / 64 ^ (n + 1) * 64 + (v / 64 ^ n % 64 + 128 - 0x80) = v / 64 ^ n := by
      rw [Nat.pow_succ, ← Nat.div_div_eq_div_mul]
      omega
    simp only [continuation, List.cons_append, tail, byte, shifted, low, high, decide_true, Bool.and_self, if_true]
    rw [ih fun k _ => ⟨by omega, by omega⟩, Nat.add_right_comm]
    rfl

theorem drop_continuation (v n : Nat) (rest : List UInt8) : (continuation v n ++ rest).drop n = rest := by
  induction n with
  | zero => rfl
  | succ n ih => exact ih

theorem piece_two (first : b.toNat = acc + 0xc0) (wide : 2 ≤ acc) (narrow : acc < 32) :
    piece b rest = tail acc 0 1 0x80 0xbf rest := by
  simp only [piece, if_neg (show ¬ b.toNat < 0x80 by omega), if_neg (show ¬ b.toNat < 0xc2 by omega),
    if_pos (show b.toNat < 0xe0 by omega), show b.toNat - 0xc0 = acc by omega]

theorem piece_three (first : b.toNat = acc + 0xe0) (narrow : acc < 16) : piece b rest =
    tail acc 0 2 (if acc = 0 then 0xa0 else 0x80) (if acc = 0xd then 0x9f else 0xbf) rest := by
  simp only [piece, if_neg (show ¬ b.toNat < 0x80 by omega), if_neg (show ¬ b.toNat < 0xc2 by omega),
    if_neg (show ¬ b.toNat < 0xe0 by omega)]
  split
  · obtain rfl : acc = 0 := by omega
    rfl
  split
  · obtain rfl : acc = 0xd := by omega
    rfl
  · rw [if_pos (show b.toNat < 0xf0 by omega), if_neg (show acc ≠ 0 by omega), if_neg (show acc ≠ 0xd by omega),
      show b.toNat - 0xe0 = acc by omega]

theorem piece_four (first : b.toNat = acc + 0xf0) (narrow : acc ≤ 4) : piece b rest =
    tail acc 0 3 (if acc = 0 then 0x90 else 0x80) (if acc = 4 then 0x8f else 0xbf) rest := by
  simp only [piece, if_neg (show ¬ b.toNat < 0x80 by omega), if_neg (show ¬ b.toNat < 0xc2 by omega),
    if_neg (show ¬ b.toNat < 0xe0 by omega), if_neg (show ¬ b.toNat = 0xe0 by omega),
    if_neg (show ¬ b.toNat = 0xed by omega), if_neg (show ¬ b.toNat < 0xf0 by omega)]
  split
  · obtain rfl : acc = 0 := by omega
    rfl
  split
  · rw [if_neg (show acc ≠ 0 by omega), if_neg (show acc ≠ 4 by omega), show b.toNat - 0xf0 = acc by omega]
  · obtain rfl : acc = 4 := by omega
    rw [if_pos (show b.toNat = 0xf4 by omega)]
    rfl

/-- A character that has been encoded is read as the piece at the front. -/
theorem piece_encode (c : Char) (rest : List UInt8) : ∃ b later more,
    String.utf8EncodeChar c ++ rest = b :: later ∧ piece b later = .char c more ∧ later.drop more = rest := by
  have valid : c.toNat < 0xd800 ∨ 0xdfff < c.toNat ∧ c.toNat < 0x110000 := c.valid
  have code : Char.ofNat c.toNat = c := Char.ofNat_toNat c
  have byte : ∀ {n : Nat}, n < 256 → (UInt8.ofNat n).toNat = n := fun lt => by
    rw [UInt8.toNat_ofNat', Nat.mod_eq_of_lt lt]
  -- a character of more bytes has its code point in the first one and its continuation
  have long (n base : Nat) {lo hi : Nat} (encoded : String.utf8EncodeChar c =
        UInt8.ofNat (c.toNat / 64 ^ n + base) :: continuation c.toNat n)
      (front : ∀ later, piece (UInt8.ofNat (c.toNat / 64 ^ n + base)) later = tail (c.toNat / 64 ^ n) 0 n lo hi later)
      (bounds : ∀ k, n = k + 1 → lo ≤ c.toNat / 64 ^ k % 64 + 128 ∧ c.toNat / 64 ^ k % 64 + 128 ≤ hi) :
      ∃ b later more, String.utf8EncodeChar c ++ rest = b :: later ∧ piece b later = .char c more ∧
        later.drop more = rest := by
    refine ⟨_, _, n, by rw [encoded, List.cons_append], ?_, drop_continuation _ _ rest⟩
    rw [front, tail_continuation bounds, code, Nat.zero_add]
  have mod : ∀ {d m : Nat}, c.toNat / d < m → c.toNat / d % m = c.toNat / d := Nat.mod_eq_of_lt
  by_cases one : c.toNat ≤ 127
  · have encoded : String.utf8EncodeChar c = [UInt8.ofNat c.toNat] := by simp [String.utf8EncodeChar, one]
    refine ⟨_, rest, 0, by rw [encoded]; rfl, ?_, rfl⟩
    rw [piece, byte (by omega), if_pos (by omega), code]
  by_cases two : c.toNat ≤ 2047
  · refine long 1 0xc0 ?_ (fun later => piece_two (byte (by omega)) (by omega) (by omega)) fun k eq => ?_
    · simp [String.utf8EncodeChar, one, two, continuation, mod (show c.toNat / 64 < 32 by omega)]
    · omega
  by_cases three : c.toNat ≤ 65535
  · refine long 2 0xe0 ?_ (fun later => piece_three (byte (by omega)) (by omega)) fun k eq => ?_
    · simp [String.utf8EncodeChar, one, two, three, continuation, mod (show c.toNat / 4096 < 16 by omega)]
    · obtain rfl : k = 1 := by omega
      split <;> split <;> omega
  · refine long 3 0xf0 ?_ (fun later => piece_four (byte (by omega)) (by omega)) fun k eq => ?_
    · simp [String.utf8EncodeChar, one, two, three, continuation, mod (show c.toNat / 262144 < 8 by omega)]
    · obtain rfl : k = 2 := by omega
      split <;> split <;> omega

/-- Text that has been encoded is read as it was. -/
theorem decodeFrom_encode (cs : List Char) (position : Nat) : decodeFrom position (encode cs) = .ok cs := by
  induction cs generalizing position with
  | nil => rw [encode, List.flatMap_nil, decodeFrom]
  | cons c cs ih =>
    obtain ⟨b, later, more, front, read, back⟩ := piece_encode c (encode cs)
    rw [show encode (c :: cs) = String.utf8EncodeChar c ++ encode cs from rfl, front, decodeFrom, read]
    simp only [back, ih]

theorem decode_encode (cs : List Char) : decode (encode cs) = .ok cs := decodeFrom_encode cs 0

/-- Bytes are text just where they are what that text is encoded as. -/
theorem decode_eq_ok_iff : decode bs = .ok cs ↔ encode cs = bs :=
  ⟨encode_of_decode, fun eq => eq ▸ decode_encode cs⟩

theorem decodeLossy_encode (cs : List Char) : decodeLossy (encode cs) = cs := by
  induction cs with
  | nil => rw [encode, List.flatMap_nil, decodeLossy]
  | cons c cs ih =>
    obtain ⟨b, later, more, front, read, back⟩ := piece_encode c (encode cs)
    rw [show encode (c :: cs) = String.utf8EncodeChar c ++ encode cs from rfl, front, decodeLossy, read]
    simp only [back, ih]

end Utf8

/-! ### Line ends -/

/-- Bytes with every carriage return, alone or before a line feed, as one line feed. -/
def unifyBytes : List UInt8 → List UInt8
  | [] => []
  | 13 :: 10 :: rest => 10 :: unifyBytes rest
  | 13 :: rest => 10 :: unifyBytes rest
  | b :: rest => b :: unifyBytes rest

variable {c : Char} {bs more : List UInt8} {cs : List Char}

theorem not_mem_unifyBytes (bs : List UInt8) : 13 ∉ unifyBytes bs := by
  fun_induction unifyBytes bs with
  | case1 => simp
  | case2 rest ih => simpa using ih
  | case3 rest _ ih => simpa using ih
  | case4 b rest _ other ih =>
    have ne : b ≠ 13 := fun eq => other eq
    simp [ih, ne.symm]

theorem unifyBytes_append (h : 13 ∉ bs) : unifyBytes (bs ++ more) = bs ++ unifyBytes more := by
  induction bs with
  | nil => rfl
  | cons b rest ih =>
    obtain ⟨ne, later⟩ : 13 ≠ b ∧ 13 ∉ rest := by simpa using h
    rw [List.cons_append, unifyBytes, ih later, List.cons_append]
    · exact fun _ eq => absurd eq.symm ne
    · exact fun eq => absurd eq.symm ne

/-- Nothing but a carriage return is changed. -/
theorem unifyBytes_eq_self_iff : unifyBytes bs = bs ↔ 13 ∉ bs := by
  constructor
  · intro same
    exact same ▸ not_mem_unifyBytes bs
  · intro none
    simpa [unifyBytes] using @unifyBytes_append bs [] none

/-- A byte below 80 is a character of its own. -/
theorem utf8EncodeChar_cases (c : Char) :
    String.utf8EncodeChar c = [UInt8.ofNat c.toNat] ∧ c.toNat < 0x80 ∨
      ∀ b ∈ String.utf8EncodeChar c, 0x80 ≤ b.toNat := by
  have high : ∀ {n : Nat}, 0x80 ≤ n → n < 0x100 → 0x80 ≤ (UInt8.ofNat n).toNat := fun low _ => by
    rw [UInt8.toNat_ofNat']
    omega
  simp only [String.utf8EncodeChar]
  split
  · exact .inl ⟨rfl, by simp only [Char.toNat]; omega⟩
  split
  · refine .inr fun b mem => ?_
    simp only [List.mem_cons, List.not_mem_nil, or_false] at mem
    rcases mem with rfl | rfl <;> exact high (by omega) (by omega)
  split
  · refine .inr fun b mem => ?_
    simp only [List.mem_cons, List.not_mem_nil, or_false] at mem
    rcases mem with rfl | rfl | rfl <;> exact high (by omega) (by omega)
  · refine .inr fun b mem => ?_
    simp only [List.mem_cons, List.not_mem_nil, or_false] at mem
    rcases mem with rfl | rfl | rfl | rfl <;> exact high (by omega) (by omega)

/-- Only the character itself is written with a byte below 80. -/
theorem mem_utf8EncodeChar {b : UInt8} (mem : b ∈ String.utf8EncodeChar c) (low : b.toNat < 0x80) :
    c = Char.ofNat b.toNat := by
  rcases utf8EncodeChar_cases c with ⟨eq, small⟩ | high
  · rw [eq, List.mem_singleton] at mem
    rw [mem, UInt8.toNat_ofNat', Nat.mod_eq_of_lt (by omega), Char.ofNat_toNat]
  · exact absurd (high b mem) (by omega)

/-- Text that does not begin with a line feed has no line feed for its first byte. -/
theorem unifyBytes_return (h : ∀ rest, cs ≠ '\n' :: rest) :
    unifyBytes (13 :: Utf8.encode cs) = 10 :: unifyBytes (Utf8.encode cs) := by
  rw [unifyBytes]
  intro rest eq
  cases cs with
  | nil => cases eq
  | cons c cs =>
    cases first : String.utf8EncodeChar c with
    | nil => exact absurd first (by simp)
    | cons b more =>
      obtain ⟨rfl, -⟩ : b = 10 ∧ more ++ Utf8.encode cs = rest := by
        simpa [Utf8.encode, first] using eq
      exact h cs (congrArg (· :: cs) (mem_utf8EncodeChar (first ▸ List.mem_cons_self) (by decide)))

/-- The line ends of a text are unified in its bytes. -/
theorem encode_unifyLines (cs : List Char) : Utf8.encode (unifyLines cs) = unifyBytes (Utf8.encode cs) := by
  fun_induction unifyLines cs with
  | case1 => rfl
  | case2 rest ih => exact congrArg (10 :: ·) ih
  | case3 rest other ih =>
    rw [show Utf8.encode ('\r' :: rest) = 13 :: Utf8.encode rest from rfl, unifyBytes_return other, ← ih]
    rfl
  | case4 c rest _ other ih =>
    have none : 13 ∉ String.utf8EncodeChar c := fun mem => other (mem_utf8EncodeChar mem (by decide))
    rw [show Utf8.encode (c :: rest) = String.utf8EncodeChar c ++ Utf8.encode rest from rfl,
      unifyBytes_append none, ← ih]
    rfl

end InkPreview.Text
