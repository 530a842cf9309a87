import BleSpeaker.Lib.Words

/-!
# `rt_memset`, `rt_memcpy` and `rt_memmove`

The memory functions of `kservice.c` on a 32-bit target. Where the addresses are aligned and there is
enough to do, the first two go word by word, four words a turn as long as they can, and leave the rest to
their byte loop. Whichever way they take, they leave the same bytes behind.

`rt_memcpy` goes up, so it also serves a target that overlaps its source from below.
-/

namespace BleSpeaker.Kernel
open Lib

/-- The two pointers of a copy and what is left of its length. -/
structure Cursor where
  bytes : Nat → UInt8
  dst : Nat
  src : Nat
  len : Nat

namespace Cursor

/-- `*aligned_dst++ = *aligned_src++` -/
def copyWord (c : Cursor) : Cursor where
  bytes := setWord c.bytes c.dst (word c.bytes c.src)
  dst := c.dst + 4
  src := c.src + 4
  len := c.len

def copyByte (c : Cursor) : Cursor where
  bytes := Function.update c.bytes c.dst (c.bytes c.src)
  dst := c.dst + 1
  src := c.src + 1
  len := c.len

def counted (c : Cursor) (n : Nat) : Cursor := { c with len := c.len - n }

def bigBlocks (c : Cursor) : Cursor :=
  if c.len ≥ 16 then (c.copyWord.copyWord.copyWord.copyWord.counted 16).bigBlocks else c
termination_by c.len
decreasing_by
  show c.len - 16 < c.len
  omega

def littleBlocks (c : Cursor) : Cursor :=
  if c.len ≥ 4 then (c.copyWord.counted 4).littleBlocks else c
termination_by c.len
decreasing_by
  show c.len - 4 < c.len
  omega

def residual (c : Cursor) : Cursor :=
  if c.len ≠ 0 then (c.counted 1).copyByte.residual else c
termination_by c.len
decreasing_by
  show c.len - 1 < c.len
  omega

end Cursor

def rtMemcpy (m : Nat → UInt8) (dst src count : Nat) : Nat → UInt8 :=
  let c : Cursor := ⟨m, dst, src, count⟩
  let c := if ¬ c.len < 16 ∧ src % 4 = 0 ∧ dst % 4 = 0 then c.bigBlocks.littleBlocks else c
  c.residual.bytes

def copyUp (m : Nat → UInt8) (dst src : Nat) : Nat → Nat → UInt8
  | 0 => m
  | n + 1 => copyUp (Function.update m dst (m src)) (dst + 1) (src + 1) n

/-- `tmp` and `s` start behind the last byte. -/
def copyDown (m : Nat → UInt8) (dst src : Nat) : Nat → Nat → UInt8
  | 0 => m
  | n + 1 => copyDown (Function.update m (dst + n) (m (src + n))) dst src n

def rtMemmove (m : Nat → UInt8) (dest src n : Nat) : Nat → UInt8 :=
  if src < dest ∧ dest < src + n then copyDown m dest src n else copyUp m dest src n

/-- The pointer of `rt_memset` and what is left of its count. -/
structure Filler where
  bytes : Nat → UInt8
  addr : Nat
  count : Nat

namespace Filler

def storeWord (buffer : Nat) (f : Filler) : Filler :=
  { f with bytes := setWord f.bytes f.addr buffer, addr := f.addr + 4 }

def counted (f : Filler) (n : Nat) : Filler := { f with count := f.count - n }

def bigBlocks (buffer : Nat) (f : Filler) : Filler :=
  if f.count ≥ 16 then
    bigBlocks buffer ((storeWord buffer (storeWord buffer (storeWord buffer (storeWord buffer f)))).counted 16)
  else f
termination_by f.count
decreasing_by
  show f.count - 16 < f.count
  omega

def littleBlocks (buffer : Nat) (f : Filler) : Filler :=
  if f.count ≥ 4 then littleBlocks buffer ((storeWord buffer f).counted 4) else f
termination_by f.count
decreasing_by
  show f.count - 4 < f.count
  omega

def residual (d : UInt8) (f : Filler) : Filler :=
  if f.count ≠ 0 then
    residual d { (f.counted 1) with bytes := Function.update f.bytes f.addr d, addr := f.addr + 1 }
  else f
termination_by f.count
decreasing_by
  show f.count - 1 < f.count
  omega

end Filler

def rtMemset (m : Nat → UInt8) (s : Nat) (c : Int) (count : Nat) : Nat → UInt8 :=
  let d := (c % 256).toNat
  let buffer := (d <<< 8) ||| d
  let buffer := buffer ||| (buffer <<< 16)
  let f : Filler := ⟨m, s, count⟩
  let f := if ¬ count < 4 ∧ s % 4 = 0 then Filler.littleBlocks buffer (Filler.bigBlocks buffer f) else f
  (Filler.residual (UInt8.ofNat d) f).bytes

/-! ### Copying -/

variable {m : Nat → UInt8} {dst src count n k : Nat}

/-- `c` has done the first part of a copy of `n` bytes. -/
structure Cursor.Copied (m : Nat → UInt8) (dst src n : Nat) (c : Cursor) : Prop where
  done : c.len ≤ n
  bytes_eq : c.bytes = moved m dst src (n - c.len)
  dst_eq : c.dst = dst + (n - c.len)
  src_eq : c.src = src + (n - c.len)

/-- Some bytes more, whichever way they were copied. -/
theorem Cursor.Copied.more {c c' : Cursor} (copied : c.Copied m dst src n) (apart : dst ≤ src ∨ src + n ≤ dst)
    (left : c'.len + k = c.len) (bytes : c'.bytes = moved c.bytes c.dst c.src k) (target : c'.dst = c.dst + k)
    (source : c'.src = c.src + k) : c'.Copied m dst src n := by
  have done := copied.done
  have bytes_eq := copied.bytes_eq
  have dst_eq := copied.dst_eq
  have src_eq := copied.src_eq
  refine ⟨by omega, ?_, by omega, by omega⟩
  rw [bytes, bytes_eq, dst_eq, src_eq, moved_moved (by omega)]
  congr 1
  omega

theorem Cursor.copyWord_bytes (c : Cursor) : c.copyWord.bytes = moved c.bytes c.dst c.src 4 :=
  (moved_four c.bytes c.dst c.src).symm

theorem Cursor.bigBlocks_copied {c : Cursor} (apart : dst ≤ src ∨ src + n ≤ dst)
    (copied : c.Copied m dst src n) : c.bigBlocks.Copied m dst src n := by
  fun_induction Cursor.bigBlocks c with
  | case1 c enough ih =>
    apply ih
    have done := copied.done
    have dst_eq := copied.dst_eq
    have src_eq := copied.src_eq
    refine copied.more apart (by show c.len - 16 + 16 = c.len; omega) ?_ rfl rfl
    show c.copyWord.copyWord.copyWord.copyWord.bytes = _
    rw [copyWord_bytes, copyWord_bytes, copyWord_bytes, copyWord_bytes]
    show moved (moved (moved (moved c.bytes c.dst c.src 4) (c.dst + 4) (c.src + 4) 4) (c.dst + 8) (c.src + 8) 4)
      (c.dst + 12) (c.src + 12) 4 = _
    rw [moved_moved (by omega), moved_moved (by omega), moved_moved (by omega)]
  | case2 c few => exact copied

theorem Cursor.littleBlocks_copied {c : Cursor} (apart : dst ≤ src ∨ src + n ≤ dst)
    (copied : c.Copied m dst src n) : c.littleBlocks.Copied m dst src n := by
  fun_induction Cursor.littleBlocks c with
  | case1 c enough ih =>
    apply ih
    exact copied.more apart (by show c.len - 4 + 4 = c.len; omega) c.copyWord_bytes rfl rfl
  | case2 c few => exact copied

theorem Cursor.residual_copied {c : Cursor} (apart : dst ≤ src ∨ src + n ≤ dst)
    (copied : c.Copied m dst src n) : c.residual.bytes = moved m dst src n := by
  fun_induction Cursor.residual c with
  | case1 c some ih =>
    apply ih
    refine copied.more apart (by show c.len - 1 + 1 = c.len; omega) ?_ rfl rfl
    exact (moved_one c.bytes c.dst c.src).symm
  | case2 c nothing =>
    have none : c.len = 0 := not_not.mp nothing
    rw [copied.bytes_eq, none, Nat.sub_zero]

theorem rtMemcpy_eq (apart : dst ≤ src ∨ src + count ≤ dst) :
    rtMemcpy m dst src count = moved m dst src count := by
  have start : Cursor.Copied m dst src count ⟨m, dst, src, count⟩ := by
    refine ⟨Nat.le_refl _, ?_, ?_, ?_⟩
    · rw [Nat.sub_self, moved_zero]
    · rw [Nat.sub_self, Nat.add_zero]
    · rw [Nat.sub_self, Nat.add_zero]
  unfold rtMemcpy
  dsimp only
  split
  · exact Cursor.residual_copied apart (Cursor.littleBlocks_copied apart (Cursor.bigBlocks_copied apart start))
  · exact Cursor.residual_copied apart start

/-- `c` has stored nothing outside a target of `n` bytes, and will not. -/
structure Cursor.Within (m : Nat → UInt8) (dst n : Nat) (c : Cursor) : Prop where
  kept : ∀ x, x < dst ∨ dst + n ≤ x → c.bytes x = m x
  low : dst ≤ c.dst
  high : c.dst + c.len ≤ dst + n

theorem Cursor.Within.more {c c' : Cursor} (within : c.Within m dst n) (left : c'.len + k = c.len)
    (bytes : ∀ x, x < c.dst ∨ c.dst + k ≤ x → c'.bytes x = c.bytes x) (target : c'.dst = c.dst + k) :
    c'.Within m dst n := by
  have low := within.low
  have high := within.high
  refine ⟨fun x outside => ?_, by omega, by omega⟩
  rw [bytes x (by omega), within.kept x outside]

theorem Cursor.copyWord_outside (c : Cursor) {x : Nat} (outside : x < c.dst ∨ c.dst + 4 ≤ x) :
    c.copyWord.bytes x = c.bytes x := by
  rw [copyWord_bytes, moved_outside outside]

theorem Cursor.bigBlocks_within {c : Cursor} (within : c.Within m dst n) : c.bigBlocks.Within m dst n := by
  fun_induction Cursor.bigBlocks c with
  | case1 c enough ih =>
    apply ih
    refine within.more (by show c.len - 16 + 16 = c.len; omega) ?_ rfl
    intro x outside
    show c.copyWord.copyWord.copyWord.copyWord.bytes x = c.bytes x
    have pointers : c.copyWord.dst = c.dst + 4 ∧ c.copyWord.copyWord.dst = c.dst + 8 ∧
        c.copyWord.copyWord.copyWord.dst = c.dst + 12 := ⟨rfl, rfl, rfl⟩
    rw [copyWord_outside _ (by omega), copyWord_outside _ (by omega), copyWord_outside _ (by omega),
      copyWord_outside _ (by omega)]
  | case2 c few => exact within

theorem Cursor.littleBlocks_within {c : Cursor} (within : c.Within m dst n) : c.littleBlocks.Within m dst n := by
  fun_induction Cursor.littleBlocks c with
  | case1 c enough ih =>
    apply ih
    exact within.more (by show c.len - 4 + 4 = c.len; omega) (fun x outside => c.copyWord_outside outside) rfl
  | case2 c few => exact within

theorem Cursor.residual_within {c : Cursor} (within : c.Within m dst n) : c.residual.Within m dst n := by
  fun_induction Cursor.residual c with
  | case1 c some ih =>
    apply ih
    refine within.more (by show c.len - 1 + 1 = c.len; omega) ?_ rfl
    intro x outside
    exact Function.update_of_ne (by show x ≠ c.dst; omega) _ _
  | case2 c nothing => exact within

/-- Whatever overlaps, `rt_memcpy` stores nothing outside its target. -/
theorem rtMemcpy_outside {x : Nat} (outside : x < dst ∨ dst + count ≤ x) : rtMemcpy m dst src count x = m x := by
  have start : Cursor.Within m dst count ⟨m, dst, src, count⟩ := ⟨fun _ _ => rfl, Nat.le_refl _, Nat.le_refl _⟩
  unfold rtMemcpy
  dsimp only
  split
  · exact (Cursor.residual_within (Cursor.littleBlocks_within (Cursor.bigBlocks_within start))).kept x outside
  · exact (Cursor.residual_within start).kept x outside

theorem copyUp_eq (apart : dst ≤ src ∨ src + n ≤ dst) : copyUp m dst src n = moved m dst src n := by
  induction n generalizing m dst src with
  | zero => rw [copyUp, moved_zero]
  | succ n ih => rw [copyUp, ih (by omega), ← moved_one, moved_moved (by omega), Nat.add_comm]

theorem copyDown_eq (apart : src ≤ dst) : copyDown m dst src n = moved m dst src n := by
  induction n generalizing m with
  | zero => rw [copyDown, moved_zero]
  | succ n ih => rw [copyDown, ih, ← moved_one, moved_below (by omega)]

/-- Every overlap is served. -/
theorem rtMemmove_eq (m : Nat → UInt8) (dest src n : Nat) : rtMemmove m dest src n = moved m dest src n := by
  unfold rtMemmove
  split
  · exact copyDown_eq (by omega)
  · exact copyUp_eq (by omega)

/-! ### Filling -/

/-- `f` has filled the first part of `n` bytes. -/
structure Filler.Filled (m : Nat → UInt8) (s : Nat) (d : UInt8) (n : Nat) (f : Filler) : Prop where
  done : f.count ≤ n
  bytes_eq : f.bytes = filled m s d (n - f.count)
  addr_eq : f.addr = s + (n - f.count)

theorem Filler.Filled.more {s : Nat} {d : UInt8} {f f' : Filler} (fills : f.Filled m s d n)
    (left : f'.count + k = f.count) (bytes : f'.bytes = filled f.bytes f.addr d k) (addr : f'.addr = f.addr + k) :
    f'.Filled m s d n := by
  have done := fills.done
  have addr_eq := fills.addr_eq
  refine ⟨by omega, ?_, by omega⟩
  rw [bytes, fills.bytes_eq, addr_eq, filled_filled]
  congr 1
  omega

theorem Filler.storeWord_bytes (d : UInt8) (f : Filler) :
    (storeWord (d.toNat * 16843009) f).bytes = filled f.bytes f.addr d 4 := (filled_four f.bytes f.addr d).symm

theorem Filler.bigBlocks_filled {s : Nat} {d : UInt8} {f : Filler} (fills : f.Filled m s d n) :
    (bigBlocks (d.toNat * 16843009) f).Filled m s d n := by
  fun_induction Filler.bigBlocks (d.toNat * 16843009) f with
  | case1 f enough ih =>
    apply ih
    refine fills.more (by show f.count - 16 + 16 = f.count; omega) ?_ rfl
    show (storeWord _ (storeWord _ (storeWord _ (storeWord _ f)))).bytes = _
    rw [storeWord_bytes, storeWord_bytes, storeWord_bytes, storeWord_bytes]
    show filled (filled (filled (filled f.bytes f.addr d 4) (f.addr + 4) d 4) (f.addr + 8) d 4) (f.addr + 12) d 4 = _
    rw [filled_filled, filled_filled, filled_filled]
  | case2 f few => exact fills

theorem Filler.littleBlocks_filled {s : Nat} {d : UInt8} {f : Filler} (fills : f.Filled m s d n) :
    (littleBlocks (d.toNat * 16843009) f).Filled m s d n := by
  fun_induction Filler.littleBlocks (d.toNat * 16843009) f with
  | case1 f enough ih =>
    apply ih
    exact fills.more (by show f.count - 4 + 4 = f.count; omega) (f.storeWord_bytes d) rfl
  | case2 f few => exact fills

theorem Filler.residual_filled {s : Nat} {d : UInt8} {f : Filler} (fills : f.Filled m s d n) :
    (residual d f).bytes = filled m s d n := by
  fun_induction Filler.residual d f with
  | case1 f some ih =>
    apply ih
    refine fills.more (by show f.count - 1 + 1 = f.count; omega) ?_ rfl
    exact (filled_one f.bytes f.addr d).symm
  | case2 f nothing =>
    have none : f.count = 0 := not_not.mp nothing
    rw [fills.bytes_eq, none, Nat.sub_zero]

/-- The word that `rt_memset` stores. -/
theorem buffer_eq {d : Nat} (small : d < 256) :
    ((d <<< 8) ||| d) ||| (((d <<< 8) ||| d) <<< 16) = d * 16843009 := by
  have pair : (d <<< 8) ||| d = d * 257 := by
    rw [← Nat.shiftLeft_add_eq_or_of_lt small, Nat.shiftLeft_eq]
    omega
  have bound : d * 257 < 2 ^ 16 := by omega
  rw [pair, Nat.or_comm, ← Nat.shiftLeft_add_eq_or_of_lt bound, Nat.shiftLeft_eq]
  omega

theorem rtMemset_eq (m : Nat → UInt8) (s : Nat) (c : Int) (count : Nat) :
    rtMemset m s c count = filled m s (UInt8.ofNat (c % 256).toNat) count := by
  have small : (c % 256).toNat < 256 := by omega
  have byte : (UInt8.ofNat (c % 256).toNat).toNat = (c % 256).toNat := by
    rw [UInt8.toNat_ofNat', Nat.mod_eq_of_lt small]
  have start : Filler.Filled m s (UInt8.ofNat (c % 256).toNat) count ⟨m, s, count⟩ := by
    refine ⟨Nat.le_refl _, ?_, ?_⟩
    · rw [Nat.sub_self, filled_zero]
    · rw [Nat.sub_self, Nat.add_zero]
  unfold rtMemset
  dsimp only
  rw [buffer_eq small]
  split
  · have words := Filler.littleBlocks_filled (Filler.bigBlocks_filled start)
    rw [byte] at words
    exact Filler.residual_filled words
  · exact Filler.residual_filled start

/-- By words or by bytes, up or down: `rt_memmove` moves whatever overlaps, `rt_memcpy` does the same unless
its target starts within the source, and nothing outside the target changes. -/
theorem memory_moved (m : Nat → UInt8) (dst src count : Nat) (c : Int) :
    (∀ i < count, rtMemmove m dst src count (dst + i) = m (src + i)) ∧
      (dst ≤ src ∨ src + count ≤ dst → rtMemcpy m dst src count = rtMemmove m dst src count) ∧
      (∀ i < count, rtMemset m dst c count (dst + i) = UInt8.ofNat (c % 256).toNat) ∧
      ∀ x, x < dst ∨ dst + count ≤ x → rtMemmove m dst src count x = m x ∧ rtMemcpy m dst src count x = m x ∧
        rtMemset m dst c count x = m x := by
  rw [rtMemmove_eq, rtMemset_eq]
  refine ⟨fun i inside => moved_inside inside, rtMemcpy_eq, ?_, ?_⟩
  · intro i inside
    exact filled_inside (by omega)
  · intro x outside
    exact ⟨moved_outside outside, rtMemcpy_outside outside, filled_outside outside⟩

end BleSpeaker.Kernel
