import NoobKernel.Lib.Ranges
import NoobKernel.Misc.Align
import NoobKernel.Misc.Config

set_option autoImplicit false

/-! # Layout of a slab blob (`mm/slab.c`)

`slab_init` puts a header, a bitmap and the objects into one blob of `SLAB_BLOB_SIZE` bytes.
`object_num` chooses as many objects as fit together with their bits, to the last bit; the
alignment of the first object to `obj_size`, done by a power-of-two mask whatever `obj_size`
is, comes on top. The objects fit exactly for the sizes outside `misfits`.
-/

namespace NoobKernel.Mm

open Misc Ranges

/-- `sizeof(struct slab)` on rv64. -/
def sizeofSlab : Nat := 56

/-- The number of objects of a blob; `u32` arithmetic in the divisor. -/
def objectNum (objSize : Nat) : Nat :=
  let d := (8 * objSize + 1) % 2 ^ 32
  let n := 8 * (SLAB_BLOB_SIZE - sizeofSlab) - 7
  n / d % 2 ^ 32

/-- `kmem->obj_size`, a `u32`. -/
def cacheObjSize (size : Nat) : Nat := size % 2 ^ 32

/-- `kmem->alloc_size` as `kmem_cache_init` sets it. -/
def cacheAllocSize (size : Nat) : Nat := ALIGN_UP size 8 % 2 ^ 32

/-- `bitmap_size` in `slab_init`. -/
def slabBitmapSize (total : Nat) : Nat := ALIGN_UP total 8 / 8 % 2 ^ 32

/-- `offset` in `slab_init`. -/
def slabOffset (total objSize : Nat) : Nat :=
  ALIGN_UP (sizeofSlab + slabBitmapSize total) objSize % 2 ^ 32

/-- Where `slab_alloc` puts object `idx`, counted from the start of the blob. -/
def slabObject (offset idx allocSize : Nat) : Nat := offset + idx * allocSize % 2 ^ 32

/-- Header and bitmap end before the objects, and the objects end in the blob. -/
def LayoutFits (objSize allocSize : Nat) : Prop :=
  sizeofSlab + slabBitmapSize (objectNum allocSize) ≤ slabOffset (objectNum allocSize) objSize
    ∧ ∀ idx < objectNum allocSize,
        slabObject (slabOffset (objectNum allocSize) objSize) idx allocSize + allocSize
          ≤ SLAB_BLOB_SIZE

/-- The sizes up to 65472 whose last object leaves the blob. The classes 24 and 48 of
`MEM_OBJ_SIZES` are among them. -/
def misfits : List (Nat × Nat) :=
  [(21, 25), (27, 27), (29, 29), (31, 31), (41, 48), (55, 56), (81, 90), (93, 94), (113, 115),
   (133, 135), (144, 144), (147, 157), (159, 159), (161, 189), (191, 191), (193, 208),
   (217, 238), (369, 376), (438, 488), (497, 503), (577, 584), (597, 598), (745, 765),
   (767, 767), (889, 894), (960, 984), (993, 1000), (1009, 1016), (1121, 1128), (1225, 1232),
   (1249, 1256), (1273, 1273), (1275, 1275), (1277, 1277), (1279, 1279), (1329, 1329),
   (1385, 1392), (1475, 1488), (1505, 1506), (1513, 1520), (1761, 1768), (1977, 1979),
   (1981, 1983), (1989, 2044), (2105, 2108), (2249, 2256), (2417, 2424), (2501, 2512),
   (2721, 2725), (2727, 2727), (2969, 2973), (2975, 2975), (3065, 3069), (3071, 3071),
   (3270, 3272), (3833, 3837), (3839, 3839), (4039, 4094), (4345, 4350), (5449, 5456),
   (5945, 5950), (7161, 7166), (7265, 7272), (8136, 8191), (9209, 9215), (9337, 9343),
   (10905, 10911), (12281, 12287), (13049, 13055), (16328, 16368), (16377, 16383),
   (20473, 20479), (21497, 21503), (21753, 21759), (21817, 21823), (32712, 32743),
   (32753, 32759), (32761, 32767), (49121, 49127), (49137, 49143), (49145, 49151),
   (57313, 57319), (57329, 57335), (57337, 57343), (61409, 61415), (61425, 61431),
   (61433, 61439), (63457, 63463), (63473, 63479), (63481, 63487), (64481, 64487),
   (64497, 64503), (64505, 64511), (64993, 64999), (65009, 65015), (65017, 65023),
   (65249, 65255), (65265, 65271), (65273, 65279), (65377, 65383), (65393, 65399),
   (65401, 65407), (65441, 65447), (65457, 65463), (65465, 65471)]

/-- The sizes the layout works for. -/
def FittingSize (n : Nat) : Prop := 1 ≤ n ∧ n ≤ 65472 ∧ ¬Within misfits n

/-! ## The sizes up to 65472 -/

/-- Both conditions of `LayoutFits`, the second for the last object. The operations are named
so that the kernel evaluates them on numerals without unfolding an instance. -/
def layoutCheck (n : Nat) : Bool :=
  let allocSize := Nat.mul (Nat.div (Nat.add n 7) 8) 8
  let total := Nat.div 523833 (Nat.succ (Nat.mul 8 allocSize))
  let header := Nat.add 56 (Nat.div (Nat.add total 7) 8)
  let offset := Nat.land (Nat.add header (Nat.sub n 1)) (Nat.sub (2 ^ 64 - 1) (Nat.sub n 1))
  Nat.ble header offset && Nat.ble (Nat.add offset (Nat.mul total allocSize)) 65536

/-- All eight sizes of the allocation size `8 * k` fit, whatever `slab_init` pads: with
`q = k - 1` and the header in units of eight, the padding only depends on the bits of `q` that
the sum, with or without a carry, loses. -/
def classFits (k : Nat) : Bool :=
  let q := Nat.pred k
  let total := Nat.div 523833 (Nat.succ (Nat.mul 8 (Nat.mul 8 k)))
  let header := Nat.add 56 (Nat.div (Nat.add total 7) 8)
  let used := Nat.add (Nat.add header 7) (Nat.mul total (Nat.mul 8 k))
  let high := Nat.add (Nat.div header 8) q
  Nat.ble k 8184 && Nat.ble (Nat.add (Nat.mul 8 (Nat.sub q (Nat.land high q))) used) 65536
    && Nat.ble (Nat.add (Nat.mul 8 (Nat.sub q (Nat.land (Nat.succ high) q))) used) 65536

theorem and_complement_add {x m : Nat} (hx : x < 2 ^ 64) (hm : m < 2 ^ 64) :
    (x &&& (2 ^ 64 - 1 - m)) + (x &&& m) = x := by
  have hdisj : (BitVec.ofNat 64 x &&& ~~~BitVec.ofNat 64 m)
      &&& (BitVec.ofNat 64 x &&& BitVec.ofNat 64 m) = 0#64 := by
    ext i
    cases h : (BitVec.ofNat 64 m)[i] <;> simp [h]
  have hsum : (BitVec.ofNat 64 x &&& ~~~BitVec.ofNat 64 m)
      + (BitVec.ofNat 64 x &&& BitVec.ofNat 64 m) = BitVec.ofNat 64 x := by
    rw [BitVec.add_eq_or_of_and_eq_zero _ _ hdisj]
    ext i
    cases h : (BitVec.ofNat 64 m)[i] <;> simp [h]
  have h := congrArg BitVec.toNat hsum
  rwa [BitVec.toNat_add_of_and_eq_zero hdisj, BitVec.toNat_and, BitVec.toNat_and, BitVec.toNat_not,
    BitVec.toNat_ofNat, BitVec.toNat_ofNat, Nat.mod_eq_of_lt hx, Nat.mod_eq_of_lt hm] at h

/-- The padding in front of the first object. -/
theorem padding_le {header m b : Nat}
    (h0 : 8 * (m / 8 - ((header / 8 + m / 8) &&& m / 8)) + b ≤ 65536)
    (h1 : 8 * (m / 8 - ((header / 8 + m / 8 + 1) &&& m / 8)) + b ≤ 65536) :
    m - ((header + m) &&& m) + b ≤ 65536 + 7 := by
  have hdiv : ((header + m) &&& m) / 8 = (header + m) / 8 &&& m / 8 :=
    Nat.and_div_two_pow (n := 3)
  have hle : (header + m) &&& m ≤ m := Nat.and_le_right
  obtain hcarry | hcarry : (header + m) / 8 = header / 8 + m / 8
      ∨ (header + m) / 8 = header / 8 + m / 8 + 1 := by omega
  · rw [hcarry] at hdiv
    omega
  · rw [hcarry] at hdiv
    omega

theorem layoutCheck_of_classFits {n : Nat} (hn : 0 < n) (h : classFits ((n + 7) / 8) = true) :
    layoutCheck n = true := by
  have hq : (n + 7) / 8 - 1 = (n - 1) / 8 := by omega
  simp only [classFits, Bool.and_eq_true, Nat.ble_eq] at h
  simp only [layoutCheck, Bool.and_eq_true, Nat.ble_eq]
  have halloc : Nat.mul (Nat.div (Nat.add n 7) 8) 8 = Nat.mul 8 ((n + 7) / 8) := Nat.mul_comm _ _
  rw [halloc]
  generalize Nat.div 523833 (Nat.succ (Nat.mul 8 (Nat.mul 8 ((n + 7) / 8)))) = total at *
  generalize Nat.mul total (Nat.mul 8 ((n + 7) / 8)) = used at *
  obtain ⟨⟨hk, h0⟩, h1⟩ := h
  change 8 * ((n + 7) / 8 - 1 - ((56 + (total + 7) / 8) / 8 + ((n + 7) / 8 - 1)
    &&& (n + 7) / 8 - 1)) + (56 + (total + 7) / 8 + 7 + used) ≤ 65536 at h0
  change 8 * ((n + 7) / 8 - 1 - ((56 + (total + 7) / 8) / 8 + ((n + 7) / 8 - 1) + 1
    &&& (n + 7) / 8 - 1)) + (56 + (total + 7) / 8 + 7 + used) ≤ 65536 at h1
  rw [hq] at h0 h1
  have hpad := padding_le h0 h1
  have hand : (56 + (total + 7) / 8 + (n - 1)) &&& (n - 1) ≤ n - 1 := Nat.and_le_right
  have hadd := and_complement_add (x := 56 + (total + 7) / 8 + (n - 1)) (m := n - 1)
    (by omega) (by omega)
  constructor
  · show 56 + (total + 7) / 8 ≤ (56 + (total + 7) / 8 + (n - 1)) &&& (2 ^ 64 - 1 - (n - 1))
    omega
  · show ((56 + (total + 7) / 8 + (n - 1)) &&& (2 ^ 64 - 1 - (n - 1))) + used ≤ 65536
    omega

theorem scan_layoutCheck : scan layoutCheck 65473 misfits 1 = true := by
  have h : scanBlocks layoutCheck classFits 8 7 65473 misfits 1 = true := by decide +kernel
  exact scan_of_scanBlocks (by decide) (fun n hn => layoutCheck_of_classFits hn) (by decide) h

theorem ALIGN_UP_eight (x : Nat) : ALIGN_UP x 8 = (x + 7) % 2 ^ 64 / 8 * 8 :=
  @ALIGN_UP_two_pow x 3 (by decide)

theorem objectNum_eq {a : Nat} (ha : 8 * a + 1 < 2 ^ 32) :
    objectNum a = 523833 / (8 * a + 1) := by
  have hn : 8 * (SLAB_BLOB_SIZE - sizeofSlab) - 7 = 523833 := rfl
  have hle : 523833 / (8 * a + 1) ≤ 523833 := Nat.div_le_self _ _
  rw [objectNum]
  simp only [hn]
  rw [Nat.mod_eq_of_lt ha, Nat.mod_eq_of_lt (by omega)]

theorem objectNum_le (a : Nat) : objectNum a ≤ 523833 := by
  have hn : 8 * (SLAB_BLOB_SIZE - sizeofSlab) - 7 = 523833 := rfl
  rw [objectNum]
  simp only [hn]
  exact (Nat.mod_le _ _).trans (Nat.div_le_self _ _)

theorem slabBitmapSize_eq {total : Nat} (h : total ≤ 523833) :
    slabBitmapSize total = (total + 7) / 8 := by
  rw [slabBitmapSize, ALIGN_UP_eight]
  omega

/-- Only the last object matters. -/
theorem forall_object_iff {offset allocSize total : Nat} (htotal : 1 ≤ total)
    (hbound : total * allocSize < 2 ^ 32) :
    (∀ idx < total, slabObject offset idx allocSize + allocSize ≤ SLAB_BLOB_SIZE)
      ↔ offset + total * allocSize ≤ SLAB_BLOB_SIZE := by
  have hmod : ∀ idx < total, slabObject offset idx allocSize + allocSize
      = offset + (idx + 1) * allocSize := by
    intro idx hidx
    have hle : idx * allocSize ≤ total * allocSize := Nat.mul_le_mul_right _ (le_of_lt hidx)
    rw [slabObject, Nat.mod_eq_of_lt (by omega), Nat.add_mul]
    omega
  constructor
  · intro h
    have hlast := h (total - 1) (by omega)
    rwa [hmod _ (by omega), Nat.sub_add_cancel htotal] at hlast
  · intro h idx hidx
    have hle : (idx + 1) * allocSize ≤ total * allocSize := Nat.mul_le_mul_right _ hidx
    rw [hmod idx hidx]
    omega

theorem layoutFits_iff_check {n : Nat} (hpos : 1 ≤ n) (hn : n ≤ 65472) :
    LayoutFits n ((n + 7) / 8 * 8) ↔ layoutCheck n = true := by
  have halloc : (n + 7) / 8 * 8 ≤ 65472 := by omega
  have hnum := objectNum_eq (show 8 * ((n + 7) / 8 * 8) + 1 < 2 ^ 32 by omega)
  have htotal : 1 ≤ 523833 / (8 * ((n + 7) / 8 * 8) + 1) := by
    rw [Nat.one_le_div_iff (by omega)]
    omega
  have hle : 523833 / (8 * ((n + 7) / 8 * 8) + 1) ≤ 523833 := Nat.div_le_self _ _
  have hbound : 523833 / (8 * ((n + 7) / 8 * 8) + 1) * ((n + 7) / 8 * 8) < 2 ^ 32 := by
    have := Nat.div_mul_le_self 523833 (8 * ((n + 7) / 8 * 8) + 1)
    nlinarith
  have hoffset : slabOffset (523833 / (8 * ((n + 7) / 8 * 8) + 1)) n
      = (56 + (523833 / (8 * ((n + 7) / 8 * 8) + 1) + 7) / 8 + (n - 1)) &&& complement (n - 1) := by
    have hmask : mask n = n - 1 := by
      rw [mask]
      omega
    rw [slabOffset, slabBitmapSize_eq hle, ALIGN_UP, hmask, sizeofSlab,
      Nat.mod_eq_of_lt (show _ < 2 ^ 64 by omega)]
    exact Nat.mod_eq_of_lt (Nat.lt_of_le_of_lt Nat.and_le_left (by omega))
  rw [LayoutFits, hnum, forall_object_iff htotal hbound, hoffset, slabBitmapSize_eq hle]
  unfold layoutCheck
  rw [Bool.and_eq_true, Nat.ble_eq, Nat.ble_eq]
  rfl

/-! ## All sizes -/

theorem cacheAllocSize_eq (size : Nat) :
    cacheAllocSize size = (cacheObjSize size + 7) / 8 * 8 % 2 ^ 32 := by
  rw [cacheAllocSize, cacheObjSize, ALIGN_UP_eight]
  omega

/-- When `alloc_size` wraps to `0`, `offset` does too. -/
theorem slabOffset_wrapped {n : Nat} (hn : n < 2 ^ 32) (h : n = 0 ∨ 2 ^ 32 - 8 < n) :
    slabOffset 523833 n = 0 := by
  obtain rfl | rfl | rfl | rfl | rfl | rfl | rfl | rfl : n = 0 ∨ n = 4294967289 ∨ n = 4294967290
      ∨ n = 4294967291 ∨ n = 4294967292 ∨ n = 4294967293 ∨ n = 4294967294 ∨ n = 4294967295 := by
    omega
  all_goals decide

/-- A larger size does not fit: its object is longer than the blob, or its sizes have wrapped. -/
theorem not_layoutFits {n a : Nat} (hn : n < 2 ^ 32) (ha : a = (n + 7) / 8 * 8 % 2 ^ 32)
    (hlarge : ¬(1 ≤ n ∧ n ≤ 65472)) (hnum : 1 ≤ objectNum a) : ¬LayoutFits n a := by
  rintro ⟨hheader, hobj⟩
  have hfirst := hobj 0 hnum
  have hblob : SLAB_BLOB_SIZE = 65536 := rfl
  have hslab : sizeofSlab = 56 := rfl
  rw [slabObject, Nat.zero_mul, Nat.zero_mod, hblob] at hfirst
  rw [hslab] at hheader
  by_cases hzero : a = 0
  · have htotal : objectNum 0 = 523833 := by decide
    rw [hzero, htotal, slabOffset_wrapped hn (by omega)] at hheader
    omega
  · have ha' : a = 65480 := by omega
    have htotal : objectNum 65480 = 0 := by decide
    rw [ha', htotal] at hnum
    omega

/-- **Where the layout fits.** For every size that gets at least one object a blob, header,
bitmap and objects stay apart and inside the blob exactly when `obj_size` is at most 65472 and
outside the table. -/
theorem layoutFits_iff {size : Nat} (hnum : 1 ≤ objectNum (cacheAllocSize size)) :
    LayoutFits (cacheObjSize size) (cacheAllocSize size) ↔ FittingSize (cacheObjSize size) := by
  have halloc := cacheAllocSize_eq size
  have hlt : cacheObjSize size < 2 ^ 32 := Nat.mod_lt _ (by decide)
  generalize cacheObjSize size = n at *
  generalize cacheAllocSize size = a at *
  by_cases hsmall : 1 ≤ n ∧ n ≤ 65472
  · have ha : a = (n + 7) / 8 * 8 := by omega
    rw [ha, layoutFits_iff_check hsmall.1 hsmall.2,
      scan_iff scan_layoutCheck hsmall.1 (by omega), FittingSize]
    exact ⟨fun h => ⟨hsmall.1, hsmall.2, h⟩, fun h => h.2.2⟩
  · exact iff_of_false (not_layoutFits hlt halloc hsmall hnum)
      (fun h => hsmall ⟨h.1, h.2.1⟩)

/-- The class of 64-byte objects fits. -/
theorem layoutFits_iff_64 : LayoutFits (cacheObjSize 64) (cacheAllocSize 64)
    ↔ FittingSize (cacheObjSize 64) :=
  layoutFits_iff (by decide)

/-- The last of the 2714 objects of the class of 24-byte objects ends 16 bytes behind the
blob. -/
theorem not_layoutFits_24 : 1 ≤ objectNum (cacheAllocSize 24)
    ∧ ¬LayoutFits (cacheObjSize 24) (cacheAllocSize 24) := by
  refine ⟨by decide, fun h => ?_⟩
  have hlast := h.2 2713 (by decide)
  exact absurd hlast (by decide)

end NoobKernel.Mm
