import Mathlib.Data.List.Basic
import Mathlib.Tactic.Common

/-!
# Byte strings continued by zeros

A file that was given a length before it was written reads as zero behind the last byte
written. It is kept as the list of bytes up to there.

* `slice_mid`: a piece of a concatenation is read back.
* `slice_pad`: zeros that are written out read as those that are not.
* `write_end`, `write_mid`: a write at the end of the list is an append, one over a piece
  of it replaces the piece.
-/

open List

namespace Sparse

/-- The `n` bytes at an offset. -/
def slice (bytes : List UInt8) (off n : ℕ) : List UInt8 :=
  (bytes.drop off ++ replicate n 0).take n

/-- Bytes written over what is at an offset. -/
def write (bytes : List UInt8) (off : ℕ) (bs : List UInt8) : List UInt8 :=
  (bytes ++ replicate (off - bytes.length) 0).take off ++ bs ++ bytes.drop (off + bs.length)

variable {a b c : List UInt8} (bytes : List UInt8) {off n : ℕ}

@[simp] theorem length_slice : (slice bytes off n).length = n := by
  simp [slice]

theorem slice_of_le (h : off + n ≤ a.length) : slice a off n = (a.drop off).take n := by
  apply take_append_of_le_length
  rw [length_drop]
  omega

theorem slice_append_right (a b : List UInt8) (off n : ℕ) : slice (a ++ b) (a.length + off) n = slice b off n := by
  unfold slice
  rw [← drop_drop, drop_left]

theorem slice_append_left (h : off + n ≤ a.length) : slice (a ++ b) off n = slice a off n := by
  rw [slice_of_le h, slice_of_le (by rw [length_append]; omega)]
  rw [drop_append_of_le_length (by omega), take_append_of_le_length (by rw [length_drop]; omega)]

theorem slice_mid (a b c : List UInt8) : slice (a ++ (b ++ c)) a.length b.length = b := by
  have h := slice_append_right a (b ++ c) 0 b.length
  rw [Nat.add_zero] at h
  rw [h, slice_append_left (by omega), slice_of_le (by omega)]
  simp

theorem take_replicate_append (k n : ℕ) : (replicate k (0 : UInt8) ++ replicate n 0).take n = replicate n 0 := by
  rw [replicate_append_replicate, take_replicate]
  congr 1
  omega

/-- Zeros that are written out read as those that are not. -/
theorem slice_pad (k off n : ℕ) : slice (bytes ++ replicate k 0) off n = slice bytes off n := by
  unfold slice
  by_cases h : off ≤ bytes.length
  · rw [drop_append_of_le_length h, append_assoc, replicate_append_replicate,
      take_append, take_append, take_replicate, take_replicate]
    congr 2
    omega
  · have hlong : bytes.length ≤ off := by omega
    rw [drop_append, drop_of_length_le hlong, nil_append, drop_replicate,
      take_replicate_append, nil_append, take_replicate, Nat.min_self]

theorem slice_past {off : ℕ} (h : a.length ≤ off) : slice a off n = replicate n 0 := by
  unfold slice
  rw [drop_of_length_le h, nil_append, take_replicate, Nat.min_self]

theorem write_end (bytes bs : List UInt8) : write bytes bytes.length bs = bytes ++ bs := by
  unfold write
  simp

theorem slice_write (bs : List UInt8) : slice (write bytes off bs) 0 (off + bs.length) = slice bytes 0 off ++ bs := by
  have hlen : ((bytes ++ replicate (off - bytes.length) 0).take off).length = off := by
    simp only [length_take, length_append, length_replicate]
    omega
  have hfront : (bytes ++ replicate (off - bytes.length) 0).take off = slice bytes 0 off := by
    have hpad := slice_pad bytes (off - bytes.length) 0 off
    rw [← hpad, slice_of_le (by rw [length_append, length_replicate]; omega), drop_zero]
  unfold write
  rw [slice_append_left (by rw [length_append, hlen]; omega), slice_of_le (by rw [length_append, hlen]; omega),
    drop_zero, take_of_length_le (Nat.le_of_eq (by rw [length_append, hlen])), hfront]

theorem write_mid (a c : List UInt8) {b bs : List UInt8} (h : b.length = bs.length) :
    write (a ++ (b ++ c)) a.length bs = a ++ (bs ++ c) := by
  have htake : (a ++ (b ++ c) ++ replicate (a.length - (a ++ (b ++ c)).length) 0).take a.length = a := by
    rw [append_assoc]
    exact take_left
  have hdrop : (a ++ (b ++ c)).drop (a.length + bs.length) = c := by
    rw [← drop_drop, drop_left, drop_left' h]
  unfold write
  rw [htake, hdrop, append_assoc]

end Sparse
