import Mathlib.Data.Nat.Bitwise
import Mathlib.Data.List.Basic
import Mathlib.Data.List.TakeWhile

/-!
# Octets, sixteen-bit words and receive buffers

Integer conversions of a target whose `char` is an 8-bit signed type and whose
byte order is little-endian. A char is widened to a 32-bit int by its sign, and
only an explicit mask removes the copies of the sign bit. Receive buffers keep
what a shorter datagram does not overwrite.
-/

namespace TFTP.Octets

/-- The bytes of an ASCII literal. -/
def text (s : String) : List UInt8 := s.toList.map fun c => c.toNat.toUInt8

/-- A char promoted to int. -/
def widen (b : UInt8) : BitVec 32 := b.toBitVec.signExtend 32

/-- `(b1 & 0xFF) << 8 | (b0 & 0xFF)` cut to sixteen bits: a little-endian load. -/
def loadMasked (b0 b1 : UInt8) : UInt16 :=
  ⟨(((widen b1 &&& 0xFF#32) <<< 8) ||| (widen b0 &&& 0xFF#32)).setWidth 16⟩

/-- `b0 << 8 | b1` cut to sixteen bits, with no mask on either char. -/
def loadSigned (b0 b1 : UInt8) : UInt16 := ⟨((widen b0 <<< 8) ||| widen b1).setWidth 16⟩

/-- Network to host order on a little-endian machine: the two bytes change places. -/
def ntohs (w : UInt16) : UInt16 := w <<< 8 ||| w >>> 8

def hiByte (w : UInt16) : UInt8 := ((w >>> 8) &&& 0xFF).toUInt8

def loByte (w : UInt16) : UInt8 := (w &&& 0xFF).toUInt8

/-- The number two octets stand for in network order. -/
def bigEndian (b0 b1 : UInt8) : UInt16 := UInt16.ofNat (b0.toNat * 256 + b1.toNat)

theorem shift_or_eq_add (a : Nat) {b : Nat} (hb : b < 256) : a <<< 8 ||| b = a * 256 + b := by
  rw [← Nat.shiftLeft_add_eq_or_of_lt hb, Nat.shiftLeft_eq]

theorem masked_toNat (b : UInt8) : (widen b &&& 0xFF#32).toNat = b.toNat := by
  have all : ∀ v : BitVec 8, (v.signExtend 32 &&& 0xFF#32).toNat = v.toNat := by decide
  exact all b.toBitVec

@[simp] theorem bigEndian_toNat (b0 b1 : UInt8) :
    (bigEndian b0 b1).toNat = b0.toNat * 256 + b1.toNat := by
  have h0 := b0.toNat_lt
  have h1 := b1.toNat_lt
  rw [bigEndian, UInt16.toNat_ofNat']
  exact Nat.mod_eq_of_lt (by omega)

theorem loadMasked_toNat (b0 b1 : UInt8) :
    (loadMasked b0 b1).toNat = b1.toNat * 256 + b0.toNat := by
  have h0 := b0.toNat_lt
  have h1 := b1.toNat_lt
  have small : b1.toNat <<< 8 % 2 ^ 32 = b1.toNat <<< 8 := by
    rw [Nat.shiftLeft_eq]
    omega
  change ((((widen b1 &&& 0xFF#32) <<< 8) ||| (widen b0 &&& 0xFF#32)).setWidth 16).toNat = _
  rw [BitVec.toNat_setWidth, BitVec.toNat_or, BitVec.toNat_shiftLeft, masked_toNat,
    masked_toNat, small, shift_or_eq_add _ h0]
  omega

theorem ntohs_toNat (w : UInt16) :
    (ntohs w).toNat = w.toNat % 256 * 256 + w.toNat / 256 := by
  have hw := w.toNat_lt
  have left : w.toNat <<< 8 % 2 ^ 16 = (w.toNat % 256) <<< 8 := by
    simp only [Nat.shiftLeft_eq]
    omega
  have right : w.toNat >>> 8 = w.toNat / 256 := by rw [Nat.shiftRight_eq_div_pow]
  rw [ntohs, UInt16.toNat_or, UInt16.toNat_shiftLeft, UInt16.toNat_shiftRight]
  change w.toNat <<< 8 % 2 ^ 16 ||| w.toNat >>> 8 = _
  rw [left, right, shift_or_eq_add _ (by omega)]

/-- The masked load and the byte swap together read network order. -/
theorem ntohs_loadMasked (b0 b1 : UInt8) : ntohs (loadMasked b0 b1) = bigEndian b0 b1 := by
  have h0 := b0.toNat_lt
  apply UInt16.toNat_inj.mp
  rw [ntohs_toNat, loadMasked_toNat, bigEndian_toNat]
  omega

/-- Without a mask a low byte from 128 on is negative and fills the high byte with ones. -/
theorem loadSigned_toNat (b0 b1 : UInt8) :
    (loadSigned b0 b1).toNat =
      if b1.toNat < 128 then b0.toNat * 256 + b1.toNat else 0xFF00 + b1.toNat := by
  have h1 := b1.toNat_lt
  have split : loadSigned b0 b1 = ⟨(widen b0 <<< 8).setWidth 16 ||| (widen b1).setWidth 16⟩ := by
    rw [loadSigned, BitVec.setWidth_or]
  have high : ∀ v : BitVec 8, ((v.signExtend 32 <<< 8).setWidth 16).toNat = v.toNat <<< 8 := by
    decide
  have low : ∀ v : BitVec 8, ((v.signExtend 32).setWidth 16).toNat =
      if v.toNat < 128 then v.toNat else 255 <<< 8 ||| v.toNat := by decide
  rw [split]
  change ((widen b0 <<< 8).setWidth 16 ||| (widen b1).setWidth 16).toNat = _
  rw [BitVec.toNat_or, widen, high, widen, low]
  change b0.toNat <<< 8 ||| (if b1.toNat < 128 then b1.toNat else 255 <<< 8 ||| b1.toNat) = _
  split
  · rw [shift_or_eq_add _ h1]
  · have ones : b0.toNat ||| 255 = 255 := by
      have all : ∀ v : BitVec 8, v.toNat ||| 255 = 255 := by decide
      exact all b0.toBitVec
    rw [← Nat.or_assoc, ← Nat.shiftLeft_or_distrib, ones, shift_or_eq_add _ h1]

@[simp] theorem hiByte_toNat (w : UInt16) : (hiByte w).toNat = w.toNat / 256 := by
  have hw := w.toNat_lt
  simp only [hiByte, UInt16.toNat_toUInt8, UInt16.toNat_and, UInt16.toNat_shiftRight]
  change ((w.toNat >>> 8) &&& 255) % 2 ^ 8 = _
  rw [Nat.shiftRight_eq_div_pow, Nat.and_two_pow_sub_one_eq_mod _ 8]
  omega

@[simp] theorem loByte_toNat (w : UInt16) : (loByte w).toNat = w.toNat % 256 := by
  simp only [loByte, UInt16.toNat_toUInt8, UInt16.toNat_and]
  change (w.toNat &&& 255) % 2 ^ 8 = _
  rw [Nat.and_two_pow_sub_one_eq_mod _ 8]
  omega

@[simp] theorem bigEndian_bytes (w : UInt16) : bigEndian (hiByte w) (loByte w) = w := by
  apply UInt16.toNat_inj.mp
  rw [bigEndian_toNat, hiByte_toNat, loByte_toNat]
  omega

/-- The unmasked load recovers a word exactly when its low byte has no sign bit
or its high byte is all ones already. -/
theorem loadSigned_bytes_iff (w : UInt16) :
    loadSigned (hiByte w) (loByte w) = w ↔ w.toNat % 256 < 128 ∨ 0xFF00 ≤ w.toNat := by
  have hw := w.toNat_lt
  rw [← UInt16.toNat_inj, loadSigned_toNat, hiByte_toNat, loByte_toNat]
  split <;> omega

/-- A counter below its greatest value counts on. -/
theorem succ_toNat {n : UInt16} (limit : n.toNat < 65535) : (n + 1).toNat = n.toNat + 1 := by
  rw [UInt16.toNat_add]
  exact Nat.mod_eq_of_lt (show n.toNat + 1 < 65536 by omega)

/-- A char array of fixed size. -/
structure Buffer (n : Nat) where
  bytes : List UInt8
  size_eq : bytes.length = n
  deriving DecidableEq

namespace Buffer
variable {n : Nat}

def zero (n : Nat) : Buffer n := ⟨List.replicate n 0, List.length_replicate⟩

def get (b : Buffer n) (i : Fin n) : UInt8 :=
  b.bytes.get ⟨i.val, by rw [b.size_eq]; exact i.isLt⟩

/-- What a receive call leaves in the buffer: a datagram longer than the buffer
is cut, and behind a shorter one the earlier bytes stay. -/
def fill (b : Buffer n) (d : List UInt8) : Buffer n where
  bytes := d.take n ++ b.bytes.drop d.length
  size_eq := by
    have h := b.size_eq
    simp only [List.length_append, List.length_take, List.length_drop, h]
    omega

theorem bytes_getElem? (b : Buffer n) (i : Fin n) : b.bytes[i.val]? = some (b.get i) := by
  rw [get, List.get_eq_getElem, List.getElem?_eq_getElem]

theorem fill_get_lt (b : Buffer n) (d : List UInt8) (i : Fin n) (h : i.val < d.length) :
    (b.fill d).get i = d[i.val] := by
  have hi : i.val < (d.take n).length := by
    have := i.isLt
    simp only [List.length_take]
    omega
  have here := (b.fill d).bytes_getElem? i
  rw [fill, List.getElem?_append_left hi, List.getElem?_take_of_lt i.isLt,
    List.getElem?_eq_getElem h] at here
  exact (Option.some.inj here).symm

theorem fill_bytes (b : Buffer n) (d : List UInt8) (h : d.length ≤ n) :
    (b.fill d).bytes = d ++ b.bytes.drop d.length := by
  simp only [fill, List.take_of_length_le h]

theorem fill_get_ge (b : Buffer n) (d : List UInt8) (i : Fin n) (h : d.length ≤ i.val) :
    (b.fill d).get i = b.get i := by
  have short : d.length ≤ n := Nat.le_trans h (Nat.le_of_lt i.isLt)
  have here := (b.fill d).bytes_getElem? i
  rw [b.fill_bytes d short, List.getElem?_append_right h, List.getElem?_drop,
    Nat.add_sub_cancel' h, b.bytes_getElem? i] at here
  exact (Option.some.inj here).symm

theorem fill_bytes_cut (b : Buffer n) (d : List UInt8) (h : n ≤ d.length) :
    (b.fill d).bytes = d.take n := by
  have rest : b.bytes.drop d.length = [] := List.drop_of_length_le (by rw [b.size_eq]; exact h)
  simp only [fill, rest, List.append_nil]

end Buffer

/-- The value a receive call returns for a buffer of `n` bytes. -/
def received (n : Nat) (d : List UInt8) : Nat := min n d.length

theorem received_le (n : Nat) (d : List UInt8) : received n d ≤ n := Nat.min_le_left _ _

/-- The bytes before the first NUL; a range with no NUL in it is no C string. -/
def cString : List UInt8 → Option (List UInt8)
  | [] => none
  | c :: cs => if c = 0 then some [] else (cString cs).map (c :: ·)

/-- Where a NUL is sure to come, a C string ends at the first one. -/
theorem cString_before_nul (s rest : List UInt8) :
    cString (s ++ 0 :: rest) = some (s.takeWhile fun c => c ≠ 0) := by
  induction s with
  | nil => rfl
  | cons c cs ih =>
    by_cases nul : c = 0
    · simp [cString, nul]
    · simp [cString, nul, ih]

theorem takeWhile_clean {s : List UInt8} (clean : 0 ∉ s) : (s.takeWhile fun c => c ≠ 0) = s := by
  rw [List.takeWhile_eq_self_iff]
  intro c mem
  exact decide_eq_true fun nul => clean (nul ▸ mem)

theorem cString_append_nul (s rest : List UInt8) (h : 0 ∉ s) :
    cString (s ++ 0 :: rest) = some s := by
  rw [cString_before_nul, takeWhile_clean h]

theorem cString_no_nul {s t : List UInt8} (h : cString s = some t) : 0 ∉ t := by
  induction s generalizing t with
  | nil => simp [cString] at h
  | cons c cs ih =>
    by_cases hc : c = 0
    · simp only [cString, hc, if_true, Option.some.injEq] at h
      simp [← h]
    · simp only [cString, hc, if_false, Option.map_eq_some_iff] at h
      obtain ⟨t', ht', rfl⟩ := h
      simp only [List.mem_cons, not_or]
      exact ⟨fun e => hc e.symm, ih ht'⟩

theorem cString_none {s : List UInt8} (h : 0 ∉ s) : cString s = none := by
  induction s with
  | nil => rfl
  | cons c cs ih =>
    have hc : c ≠ 0 := fun e => h (by simp [e])
    simp [cString, hc, ih (fun m => h (List.mem_cons_of_mem c m))]

end TFTP.Octets
