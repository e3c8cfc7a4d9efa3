import Mathlib.Data.Nat.Basic
import Mathlib.Data.UInt
import Mathlib.Data.List.Basic
import Mathlib.Tactic.Ring

/-! Byte strings: slices and fixed-width unsigned numbers in both byte orders.
Packing fails on a number that does not fit its width, as a checked serializer
does; unpacking is total on a string of the right length. -/

abbrev Bytes := List UInt8

namespace Bytes

/-- The part of `data` from offset `start` up to, not including, `stop`. -/
def slice (data : Bytes) (start stop : Nat) : Bytes := (data.drop start).take (stop - start)

theorem slice_length (data : Bytes) (start stop : Nat) :
    (slice data start stop).length = min (stop - start) (data.length - start) := by
  simp [slice]

/-- The field that begins right after `before` is read back whole. -/
theorem slice_append (before field after : Bytes) {start stop : Nat}
    (hstart : start = before.length) (hstop : stop = start + field.length) :
    slice (before ++ (field ++ after)) start stop = field := by
  subst hstart hstop
  simp [slice]

/-- Adjacent parts make up the part from the first start to the last stop. -/
theorem slice_slice (data : Bytes) {start middle stop : Nat} (first : start ≤ middle)
    (second : middle ≤ stop) : slice data start middle ++ slice data middle stop = slice data start stop := by
  have rest : data.drop middle = (data.drop start).drop (middle - start) := by
    rw [List.drop_drop]
    congr 1
    omega
  have width : stop - start = (middle - start) + (stop - middle) := by omega
  simp only [slice]
  rw [rest, width, List.take_add]

theorem slice_left (field after : Bytes) {stop : Nat} (hstop : stop = field.length) :
    slice (field ++ after) 0 stop = field := by
  subst hstop
  simp [slice]

/-- A part that ends within `data` does not depend on what follows. -/
theorem slice_append_left (data after : Bytes) {start stop : Nat} (inside : stop ≤ data.length) :
    slice (data ++ after) start stop = slice data start stop := by
  rw [slice, slice, List.drop_append, List.take_append_of_le_length (by simp; omega)]

/-- A part that ends within the first bytes is a part of them. -/
theorem slice_take (data : Bytes) {start stop size : Nat} (inside : stop ≤ size) :
    slice (data.take size) start stop = slice data start stop := by
  rw [slice, slice, List.drop_take, List.take_take, Nat.min_eq_left (by omega)]

/-- Little-endian digits, least significant byte first. -/
def toLE : (width value : Nat) → Bytes
  | 0, _ => []
  | width + 1, value => UInt8.ofNat value :: toLE width (value / 256)

def ofLE : Bytes → Nat
  | [] => 0
  | b :: rest => b.toNat + 256 * ofLE rest

def toBE (width value : Nat) : Bytes := (toLE width value).reverse

def ofBE (data : Bytes) : Nat := ofLE data.reverse

@[simp] theorem toLE_length (width value : Nat) : (toLE width value).length = width := by
  induction width generalizing value with
  | zero => rfl
  | succ width ih => simp [toLE, ih]

@[simp] theorem toBE_length (width value : Nat) : (toBE width value).length = width := by
  simp [toBE]

theorem ofLE_toLE_mod (width value : Nat) : ofLE (toLE width value) = value % 256 ^ width := by
  induction width generalizing value with
  | zero => simp [toLE, ofLE, Nat.mod_one]
  | succ width ih =>
    have head : (UInt8.ofNat value).toNat = value % 256 := by simp
    rw [toLE, ofLE, ih, head, Nat.pow_succ', Nat.mod_mul]

theorem ofLE_toLE {width value : Nat} (fits : value < 256 ^ width) :
    ofLE (toLE width value) = value := by
  rw [ofLE_toLE_mod, Nat.mod_eq_of_lt fits]

theorem ofBE_toBE {width value : Nat} (fits : value < 256 ^ width) :
    ofBE (toBE width value) = value := by
  simp [ofBE, toBE, ofLE_toLE fits]

theorem ofLE_lt (data : Bytes) : ofLE data < 256 ^ data.length := by
  induction data with
  | nil => simp [ofLE]
  | cons b rest ih =>
    have hb : b.toNat < 256 := b.toNat_lt
    rw [ofLE, List.length_cons, Nat.pow_succ']
    omega

theorem toLE_ofLE (data : Bytes) : toLE data.length (ofLE data) = data := by
  induction data with
  | nil => rfl
  | cons b rest ih =>
    have hb : b.toNat < 256 := b.toNat_lt
    have head : UInt8.ofNat (b.toNat + 256 * ofLE rest) = b := by
      apply UInt8.toNat_inj.mp
      simp
    have tail : (b.toNat + 256 * ofLE rest) / 256 = ofLE rest := by omega
    rw [List.length_cons, toLE, ofLE, head, tail, ih]

theorem toBE_ofBE (data : Bytes) : toBE data.length (ofBE data) = data := by
  have h := toLE_ofLE data.reverse
  rw [List.length_reverse] at h
  rw [toBE, ofBE, h, List.reverse_reverse]

/-- Distinct numbers of one width have distinct digits. -/
theorem toLE_inj {width a b : Nat} (ha : a < 256 ^ width) (hb : b < 256 ^ width)
    (same : toLE width a = toLE width b) : a = b := by
  have h := congrArg ofLE same
  rwa [ofLE_toLE ha, ofLE_toLE hb] at h

/-- Big-endian fields given as (width, value), `none` when a value does not fit. -/
def packBE : List (Nat × Nat) → Option Bytes
  | [] => some []
  | (width, value) :: rest =>
    if value < 256 ^ width then (packBE rest).map (toBE width value ++ ·) else none

/-- The big-endian fields of the given widths, in order. -/
def unpackBE : List Nat → Bytes → List Nat
  | [], _ => []
  | width :: rest, data => ofBE (data.take width) :: unpackBE rest (data.drop width)

def fieldsWidth (fields : List (Nat × Nat)) : Nat := (fields.map Prod.fst).sum

/-- The fields read from a string of their width are written back as that string. -/
theorem pack_unpackBE {fields : List (Nat × Nat)} {data : Bytes}
    (size : data.length = fieldsWidth fields)
    (read : unpackBE (fields.map Prod.fst) data = fields.map Prod.snd) :
    (fields.flatMap fun f => toBE f.1 f.2) = data := by
  induction fields generalizing data with
  | nil => exact (List.length_eq_zero_iff.mp size).symm
  | cons f rest ih =>
    simp only [fieldsWidth, List.map_cons, List.sum_cons] at size
    simp only [List.map_cons, unpackBE, List.cons.injEq] at read
    have width : (data.take f.1).length = f.1 := by
      rw [List.length_take]
      omega
    have first : toBE f.1 f.2 = data.take f.1 :=
      calc toBE f.1 f.2 = toBE (data.take f.1).length (ofBE (data.take f.1)) := by rw [width, read.1]
        _ = data.take f.1 := toBE_ofBE _
    have others : (rest.flatMap fun f => toBE f.1 f.2) = data.drop f.1 :=
      ih (by rw [List.length_drop, size]; simp [fieldsWidth]) read.2
    rw [List.flatMap_cons, first, others, List.take_append_drop]

theorem packBE_eq_some {fields : List (Nat × Nat)} (fit : ∀ f ∈ fields, f.2 < 256 ^ f.1) :
    packBE fields = some (fields.flatMap fun f => toBE f.1 f.2) := by
  induction fields with
  | nil => rfl
  | cons f rest ih =>
    have first := fit f List.mem_cons_self
    simp [packBE, first, ih fun g hg => fit g (List.mem_cons_of_mem _ hg)]

theorem unpackBE_pack {fields : List (Nat × Nat)} (fit : ∀ f ∈ fields, f.2 < 256 ^ f.1)
    (rest : Bytes) :
    unpackBE (fields.map Prod.fst) (fields.flatMap (fun f => toBE f.1 f.2) ++ rest) =
      fields.map Prod.snd := by
  induction fields with
  | nil => rfl
  | cons f tail ih =>
    have first := ofBE_toBE (fit f List.mem_cons_self)
    have more := ih fun g hg => fit g (List.mem_cons_of_mem _ hg)
    simp only [List.map_cons, unpackBE, List.flatMap_cons, List.append_assoc]
    rw [List.take_left' (toBE_length _ _), List.drop_left' (toBE_length _ _), first, more]

end Bytes
