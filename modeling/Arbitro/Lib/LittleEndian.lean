import Mathlib.Data.List.Basic
import Mathlib.Tactic.Ring

/-!
# Little-endian numbers and records

* `decode_encode`: a number that fits its width survives the round trip.
* `parse_concat`: fixed-size records written one after the other are read back.
* `decode_lt`, `mem_parse`: what is read from arbitrary bytes is still in range.
* `fields_layout`: the fields of a header are read back, each at its offset.
-/

open List

namespace LittleEndian

/-- The `k` low bytes of a number, lowest first. -/
def encode : ℕ → ℕ → List UInt8
  | 0, _ => []
  | k + 1, v => UInt8.ofNat v :: encode k (v / 256)

def decode (bytes : List UInt8) : ℕ := bytes.foldr (fun b v => b.toNat + 256 * v) 0

@[simp] theorem length_encode (k v : ℕ) : (encode k v).length = k := by
  induction k generalizing v with
  | zero => rfl
  | succ k ih => simp [encode, ih]

theorem decode_encode {k v : ℕ} (h : v < 256 ^ k) : decode (encode k v) = v := by
  induction k generalizing v with
  | zero =>
    have : v = 0 := by simpa using h
    subst this
    rfl
  | succ k ih =>
    have hdiv : v / 256 < 256 ^ k := by
      rw [pow_succ] at h
      exact Nat.div_lt_of_lt_mul (by rwa [mul_comm] at h)
    have hbyte : (UInt8.ofNat v).toNat = v % 256 := UInt8.toNat_ofNat'
    show (UInt8.ofNat v).toNat + 256 * decode (encode k (v / 256)) = v
    rw [hbyte, ih hdiv]
    exact Nat.mod_add_div v 256

theorem decode_lt (bytes : List UInt8) : decode bytes < 256 ^ bytes.length := by
  induction bytes with
  | nil => decide
  | cons x bytes ih =>
    have hx : x.toNat < 256 := x.toNat_lt
    show x.toNat + 256 * decode bytes < 256 ^ (bytes.length + 1)
    omega

section Records

variable {α : Type} (size : ℕ) (write : α → List UInt8) (read : List UInt8 → α)

/-- Read `n` records of a fixed size. -/
def parse : ℕ → List UInt8 → List α
  | 0, _ => []
  | n + 1, bytes => read (bytes.take size) :: parse n (bytes.drop size)

variable {size write read} {xs : List α}

theorem length_le_concat (hpos : ∀ x, 0 < (write x).length) : xs.length ≤ (xs.flatMap write).length := by
  induction xs with
  | nil => rfl
  | cons x xs ih =>
    have := hpos x
    rw [flatMap_cons, length_append, length_cons]
    omega

theorem length_concat (hsize : ∀ x ∈ xs, (write x).length = size) : (xs.flatMap write).length = size * xs.length := by
  induction xs with
  | nil => rfl
  | cons x xs ih =>
    rw [flatMap_cons, length_append, hsize x mem_cons_self, ih fun y hy => hsize y (mem_cons_of_mem _ hy), length_cons]
    ring

theorem parse_concat (hsize : ∀ x ∈ xs, (write x).length = size)
    (hread : ∀ x ∈ xs, read (write x) = x) : parse size read xs.length (xs.flatMap write) = xs := by
  induction xs with
  | nil => rfl
  | cons x xs ih =>
    have hx := hsize x mem_cons_self
    simp only [length_cons, parse, flatMap_cons]
    rw [take_left' hx, drop_left' hx, hread x mem_cons_self,
      ih (fun y hy => hsize y (mem_cons_of_mem _ hy)) fun y hy => hread y (mem_cons_of_mem _ hy)]

/-- Every record read is a reading of at most `size` bytes. -/
theorem mem_parse {n : ℕ} {bytes : List UInt8} {x : α} (h : x ∈ parse size read n bytes) :
    ∃ bs : List UInt8, bs.length ≤ size ∧ x = read bs := by
  induction n generalizing bytes with
  | zero => exact absurd h not_mem_nil
  | succ n ih =>
    rcases mem_cons.1 h with rfl | h
    · exact ⟨_, length_take_le _ _, rfl⟩
    · exact ih h

end Records

section Fields

variable (before after : List (ℕ × ℕ)) (fields : List (ℕ × ℕ))

/-- The number in the `n` bytes at an offset. -/
def field (bytes : List UInt8) (off n : ℕ) : ℕ := decode ((bytes.drop off).take n)

/-- Fields of given widths, one after the other. -/
def layout : List UInt8 := fields.flatMap fun f => encode f.1 f.2

/-- The bytes that fields take. -/
def width : ℕ := (fields.map Prod.fst).sum

@[simp] theorem length_layout : (layout fields).length = width fields := by
  induction fields with
  | nil => rfl
  | cons f fields ih => simp [layout, width] at ih ⊢

/-- A number that fits its field is read back, whatever stands before and behind it. -/
theorem field_layout {w v : ℕ} (h : v < 256 ^ w) (rest : List UInt8) :
    field (layout (before ++ (w, v) :: after) ++ rest) (width before) w = v := by
  have hsplit : layout (before ++ (w, v) :: after) ++ rest
      = layout before ++ (encode w v ++ (layout after ++ rest)) := by
    simp [layout]
  unfold field
  rw [hsplit, drop_left' (length_layout before), take_left' (length_encode w v), decode_encode h]

/-- Numbers are read one after the other, from an offset on. -/
def Fields (bytes : List UInt8) : ℕ → List (ℕ × ℕ) → Prop
  | _, [] => True
  | off, (w, v) :: fields => field bytes off w = v ∧ Fields bytes (off + w) fields

theorem fields_layout (h : ∀ f ∈ after, f.2 < 256 ^ f.1) (rest : List UInt8) :
    Fields (layout (before ++ after) ++ rest) (width before) after := by
  induction after generalizing before with
  | nil => trivial
  | cons f after ih =>
    obtain ⟨hf, hafter⟩ := forall_mem_cons.1 h
    have hnext := ih (before ++ [f]) hafter
    simp only [append_assoc, singleton_append, width, map_append, sum_append, map_cons, map_nil, sum_singleton] at hnext
    exact ⟨field_layout before after hf rest, hnext⟩

theorem field_append {bytes : List UInt8} {off n : ℕ} (h : off + n ≤ bytes.length) (rest : List UInt8) :
    field (bytes ++ rest) off n = field bytes off n := by
  unfold field
  rw [drop_append_of_le_length (by omega), take_append_of_le_length (by rw [length_drop]; omega)]

end Fields

end LittleEndian
