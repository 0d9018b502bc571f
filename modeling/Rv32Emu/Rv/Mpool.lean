import Mathlib.Data.List.Pairwise
import Mathlib.Data.List.Perm.Basic
import Rv32Emu.Lib.ForRange
import Rv32Emu.Lib.Links
import Rv32Emu.Lib.Runs

namespace Rv32Emu

section source

abbrev HostBytes := ℕ → BitVec 8

def sizeMax : ℕ := 2 ^ 64 - 1

structure Mpool where
  chunkCount : ℕ
  pageCount : ℕ
  chunkSize : ℕ
  freeChunkHead : ℕ
  area : ℕ
  more : List ℕ

namespace Mpool

def areas (mp : Mpool) : List ℕ := mp.area :: mp.more

def stride (mp : Mpool) : ℕ := 8 + mp.chunkSize

def areaSize (pgsz : ℕ) (mp : Mpool) : ℕ := mp.pageCount * pgsz

def perArea (pgsz : ℕ) (mp : Mpool) : ℕ := mp.areaSize pgsz / mp.stride

end Mpool

def nextOf (mem : HostBytes) (chunk : ℕ) : ℕ := Cells.load mem chunk 8

def setNext (mem : HostBytes) (chunk v : ℕ) : HostBytes := Cells.store mem chunk 8 v

def memsetZero (mem : HostBytes) (p n : ℕ) : HostBytes := fun a => if p ≤ a ∧ a < p + n then 0 else mem a

def sizePred : ℕ → ℕ
  | 0 => sizeMax
  | n + 1 => n

def linkChunks (stride count : ℕ) (mem : HostBytes) (p : ℕ) : HostBytes × ℕ :=
  forRange (sizePred count) (mem, p) fun s _ =>
    let mem := setNext s.1 s.2 (s.2 + stride)
    (mem, nextOf mem s.2)

variable (pgsz : ℕ)

/-- The size that a pool is created with: a size for one chunk gets room for its header. -/
def withHeader (poolSize chunkSize : ℕ) : ℕ :=
  if poolSize < chunkSize + 8 then (poolSize + 8) % 2 ^ 64 else poolSize

/-- `malloced` tells whether the host gives the record, and `mapped` where it maps the pages, if it does. -/
def mpoolCreate (poolSize chunkSize : ℕ) (malloced : Bool) (mapped : Option ℕ) (mem : HostBytes) :
    Option (Mpool × HostBytes) :=
  if !malloced then none
  else if chunkSize > sizeMax - 8 then none
  else
    let poolSize := withHeader poolSize chunkSize
    if poolSize > sizeMax - pgsz + 1 then none
    else
      let pageCount := (poolSize + pgsz - 1) / pgsz
      if pageCount > sizeMax / pgsz then none
      else
        match mapped with
        | none => none
        | some p =>
          let chunkCount := poolSize / (8 + chunkSize)
          let linked := linkChunks (8 + chunkSize) chunkCount (memsetZero mem p (pageCount * pgsz)) p
          some (⟨chunkCount, pageCount, chunkSize, p, p, []⟩, setNext linked.1 linked.2 0)

def mpoolExtend (mp : Mpool) (mem : HostBytes) (mapped : Option ℕ) (malloced : Bool) :
    Option (Mpool × HostBytes) :=
  match mapped with
  | none => none
  | some p =>
    if !malloced then none
    else
      let chunkCount := mp.perArea pgsz
      let linked := linkChunks mp.stride chunkCount (memsetZero mem p (mp.areaSize pgsz)) p
      some
        ({ mp with freeChunkHead := p, chunkCount := mp.chunkCount + chunkCount, more := mp.more ++ [p] },
          linked.1)

def mpoolAllocHelper (mp : Mpool) (mem : HostBytes) : ℕ × Mpool :=
  (mp.freeChunkHead + 8,
    { mp with freeChunkHead := nextOf mem mp.freeChunkHead, chunkCount := mp.chunkCount - 1 })

def mpoolAlloc (mp : Mpool) (mem : HostBytes) (mapped : Option ℕ) (malloced : Bool) :
    Option ℕ × Mpool × HostBytes :=
  if mp.chunkCount = 0 then
    match mpoolExtend pgsz mp mem mapped malloced with
    | none => (none, mp, mem)
    | some (mp, mem) => (some (mpoolAllocHelper mp mem).1, (mpoolAllocHelper mp mem).2, mem)
  else (some (mpoolAllocHelper mp mem).1, (mpoolAllocHelper mp mem).2, mem)

def mpoolCalloc (mp : Mpool) (mem : HostBytes) (mapped : Option ℕ) (malloced : Bool) :
    Option ℕ × Mpool × HostBytes :=
  match mpoolAlloc pgsz mp mem mapped malloced with
  | (none, mp, mem) => (none, mp, mem)
  | (some ptr, mp, mem) => (some ptr, mp, memsetZero mem ptr mp.chunkSize)

def mpoolFree (mp : Mpool) (mem : HostBytes) (target : ℕ) : Mpool × HostBytes :=
  ({ mp with freeChunkHead := target - 8, chunkCount := mp.chunkCount + 1 },
    setNext mem (target - 8) mp.freeChunkHead)

def refreshAreas (stride count : ℕ) : List ℕ → HostBytes → HostBytes
  | [], mem => mem
  | p :: ps, mem =>
    let linked := linkChunks stride count mem p
    refreshAreas stride count ps (setNext linked.1 linked.2 (ps.headD 0))

def mpoolRefreshAll (mp : Mpool) (mem : HostBytes) : Mpool × HostBytes :=
  ({ mp with freeChunkHead := mp.area, chunkCount := mp.perArea pgsz * mp.areas.length },
    refreshAreas mp.stride (mp.perArea pgsz) mp.areas mem)

end source

section links

variable {stride count p : ℕ} {mem mem' : HostBytes}

def chunksOf (stride n p : ℕ) : List ℕ := (List.range n).map fun i => p + i * stride

theorem mem_chunksOf {n h : ℕ} : h ∈ chunksOf stride n p ↔ ∃ i < n, p + i * stride = h := by
  simp [chunksOf]

theorem chunksOf_succ (stride n p : ℕ) :
    chunksOf stride (n + 1) p = chunksOf stride n p ++ [p + n * stride] := by
  simp [chunksOf, List.range_succ]

theorem seg_frame {a b : ℕ} {hs : List ℕ} (h : Seg (nextOf mem) a hs b)
    (hmem : ∀ x ∈ hs, ∀ y, x ≤ y → y < x + 8 → mem' y = mem y) : Seg (nextOf mem') a hs b :=
  h.congr fun x hx => Cells.load_congr (hmem x hx)

theorem chunk_lt {i j : ℕ} (h : i < j) : p + i * stride + stride ≤ p + j * stride := by
  have hmul : (i + 1) * stride ≤ j * stride := Nat.mul_le_mul_right stride h
  rw [Nat.succ_mul] at hmul
  omega

theorem linkChunks_spec (mem : HostBytes) (hstride : 8 ≤ stride) (hcount : 0 < count)
    (hfit : p + count * stride ≤ 2 ^ 64) :
    (linkChunks stride count mem p).2 = p + (count - 1) * stride ∧
      Seg (nextOf (linkChunks stride count mem p).1) p (chunksOf stride (count - 1) p)
        (p + (count - 1) * stride) ∧
      ∀ a, (∀ h ∈ chunksOf stride (count - 1) p, a < h ∨ h + 8 ≤ a) →
        (linkChunks stride count mem p).1 a = mem a := by
  have hn : sizePred count = count - 1 := by
    obtain ⟨k, rfl⟩ : ∃ k, count = k + 1 := ⟨count - 1, by omega⟩
    rfl
  rw [linkChunks, hn]
  refine forRange_induction (P := fun i (s : HostBytes × ℕ) => s.2 = p + i * stride ∧
    Seg (nextOf s.1) p (chunksOf stride i p) (p + i * stride) ∧
      ∀ a, (∀ h ∈ chunksOf stride i p, a < h ∨ h + 8 ≤ a) → s.1 a = mem a) ?_ ?_
  · refine ⟨by simp, ?_, fun _ _ => rfl⟩
    simpa [chunksOf] using Seg.nil p
  · rintro i hi ⟨m, cur⟩ ⟨rfl, hseg, hframe⟩
    have hlast : p + i * stride + stride ≤ p + (count - 1) * stride := chunk_lt hi
    have hend : p + (count - 1) * stride + stride = p + count * stride := by
      obtain ⟨k, rfl⟩ : ∃ k, count = k + 1 := ⟨count - 1, by omega⟩
      rw [Nat.add_sub_cancel, Nat.succ_mul]
      omega
    have hnext : nextOf (setNext m (p + i * stride) (p + i * stride + stride)) (p + i * stride) =
        p + (i + 1) * stride := by
      rw [Nat.succ_mul, ← Nat.add_assoc]
      refine Cells.load_store_of_lt m _ ?_
      have h64 : 256 ^ 8 = 2 ^ 64 := by norm_num
      omega
    refine ⟨hnext, ?_, fun a ha => ?_⟩
    · rw [chunksOf_succ, ← hnext]
      refine Seg.snoc (seg_frame hseg fun x hx y _ hy => Cells.store_of_notMem ?_ _)
      obtain ⟨j, hj, rfl⟩ := mem_chunksOf.mp hx
      have hlt : p + j * stride + stride ≤ p + i * stride := chunk_lt hj
      omega
    · rw [chunksOf_succ] at ha
      have hlastCell := ha (p + i * stride) (by simp)
      refine (Cells.store_of_notMem hlastCell _).trans (hframe a fun h hh => ha h ?_)
      exact List.mem_append_left _ hh

theorem chunksOf_last (stride p : ℕ) (hcount : 0 < count) :
    chunksOf stride count p = chunksOf stride (count - 1) p ++ [p + (count - 1) * stride] := by
  rw [← chunksOf_succ, Nat.sub_add_cancel hcount]

theorem linkChunks_zeros (hstride : 8 ≤ stride) (hcount : 0 < count) (hfit : p + count * stride ≤ 2 ^ 64)
    (hzero : ∀ b, p ≤ b → b < p + count * stride → mem b = 0) :
    Seg (nextOf (linkChunks stride count mem p).1) p (chunksOf stride count p) 0 := by
  obtain ⟨-, hseg, hframe⟩ := linkChunks_spec mem hstride hcount hfit
  generalize linkChunks stride count mem p = linked at *
  have hend : p + (count - 1) * stride + stride ≤ p + count * stride := chunk_lt (by omega)
  have hlast : nextOf linked.1 (p + (count - 1) * stride) = 0 := by
    refine Cells.load_zeros fun b hb hb' => ?_
    rw [hframe b, hzero b (by omega) (by omega)]
    intro x hx
    obtain ⟨j, hj, rfl⟩ := mem_chunksOf.mp hx
    have hlt : p + j * stride + stride ≤ p + (count - 1) * stride := chunk_lt hj
    omega
  have hcell : Seg (nextOf linked.1) (p + (count - 1) * stride) [p + (count - 1) * stride] 0 := by
    refine .cons ?_
    rw [hlast]
    exact .nil 0
  rw [chunksOf_last stride p hcount]
  exact hseg.append hcell

theorem linkArea_spec (mem : HostBytes) (hstride : 8 ≤ stride) (hcount : 0 < count)
    (hfit : p + count * stride ≤ 2 ^ 64) {t : ℕ} (ht : t < 2 ^ 64) :
    Seg (nextOf (setNext (linkChunks stride count mem p).1 (linkChunks stride count mem p).2 t)) p
        (chunksOf stride count p) t ∧
      ∀ a, (∀ h ∈ chunksOf stride count p, a < h ∨ h + 8 ≤ a) →
        setNext (linkChunks stride count mem p).1 (linkChunks stride count mem p).2 t a = mem a := by
  obtain ⟨hcur, hseg, hframe⟩ := linkChunks_spec mem hstride hcount hfit
  rw [hcur, chunksOf_last stride p hcount]
  generalize linkChunks stride count mem p = linked at *
  constructor
  · have hnext : nextOf (setNext linked.1 (p + (count - 1) * stride) t) (p + (count - 1) * stride) = t := by
      refine Cells.load_store_of_lt _ _ ?_
      have h64 : 256 ^ 8 = 2 ^ 64 := by norm_num
      omega
    have hseg' : Seg (nextOf (setNext linked.1 (p + (count - 1) * stride) t)) p
        (chunksOf stride (count - 1) p)
        (p + (count - 1) * stride) := by
      refine seg_frame hseg fun x hx y _ hy => Cells.store_of_notMem ?_ _
      obtain ⟨j, hj, rfl⟩ := mem_chunksOf.mp hx
      have hlt : p + j * stride + stride ≤ p + (count - 1) * stride := chunk_lt hj
      omega
    exact hseg'.append (.cons (hnext.symm ▸ .nil t))
  · intro a ha
    have hlastCell := ha (p + (count - 1) * stride) (by simp)
    exact (Cells.store_of_notMem hlastCell t).trans (hframe a fun h hh => ha h (List.mem_append_left _ hh))

theorem refreshAreas_spec {size : ℕ} {ps : List ℕ} (hstride : 8 ≤ stride) (hcount : 0 < count)
    (hsize : count * stride ≤ size) (hfits : ∀ p ∈ ps, p + size ≤ 2 ^ 64)
    (hapart : ps.Pairwise fun p q => p + size ≤ q ∨ q + size ≤ p) (mem : HostBytes) :
    Seg (nextOf (refreshAreas stride count ps mem)) (ps.headD 0) (ps.flatMap (chunksOf stride count)) 0 ∧
      ∀ a, (∀ p ∈ ps, a < p ∨ p + size ≤ a) → refreshAreas stride count ps mem a = mem a := by
  have hpos : 0 < count * stride := Nat.mul_pos hcount (Nat.lt_of_lt_of_le (by decide) hstride)
  induction ps generalizing mem with
  | nil => exact ⟨.nil 0, fun _ _ => rfl⟩
  | cons p ps ih =>
    obtain ⟨hp, hps⟩ := List.pairwise_cons.mp hapart
    have hpfits := hfits p List.mem_cons_self
    have hhead : ps.headD 0 < 2 ^ 64 := by
      cases ps with
      | nil => decide
      | cons q qs =>
        have hq := hfits q (by simp)
        simp only [List.headD_cons]
        omega
    obtain ⟨hseg, hframe⟩ := linkArea_spec (p := p) mem hstride hcount (by omega) hhead
    obtain ⟨hrest, hrestFrame⟩ := ih (fun q hq => hfits q (List.mem_cons_of_mem p hq)) hps
      (setNext (linkChunks stride count mem p).1 (linkChunks stride count mem p).2 (ps.headD 0))
    have hin : ∀ x ∈ chunksOf stride count p, p ≤ x ∧ x + stride ≤ p + size := by
      intro x hx
      obtain ⟨i, hi, rfl⟩ := mem_chunksOf.mp hx
      have hlt : p + i * stride + stride ≤ p + count * stride := chunk_lt hi
      omega
    constructor
    · rw [List.flatMap_cons]
      refine (seg_frame hseg fun x hx y hy hy' => hrestFrame y fun q hq => ?_).append hrest
      have hxin := hin x hx
      have hpq := hp q hq
      omega
    · intro a ha
      refine (hrestFrame a fun q hq => ha q (List.mem_cons_of_mem p hq)).trans (hframe a fun x hx => ?_)
      have hxin := hin x hx
      have hpa := ha p List.mem_cons_self
      omega

end links

namespace Mpool

def chunks (pgsz : ℕ) (mp : Mpool) : List ℕ := mp.areas.flatMap (chunksOf mp.stride (mp.perArea pgsz))

def Apart (n p q : ℕ) : Prop := p + n ≤ q ∨ q + n ≤ p

structure Maps (pgsz : ℕ) (mp : Mpool) (p : ℕ) : Prop where
  nonnull : p ≠ 0
  fits : p + mp.areaSize pgsz ≤ 2 ^ 64
  apart : ∀ q ∈ mp.areas, Apart (mp.areaSize pgsz) q p

structure WellLaid (pgsz : ℕ) (mp : Mpool) : Prop where
  roomy : mp.stride ≤ mp.areaSize pgsz
  nonnull : ∀ p ∈ mp.areas, p ≠ 0
  fits : ∀ p ∈ mp.areas, p + mp.areaSize pgsz ≤ 2 ^ 64
  apart : mp.areas.Pairwise (Apart (mp.areaSize pgsz))

section chunks

variable {pgsz : ℕ} {mp : Mpool} {h k p : ℕ}

instance (n : ℕ) : Std.Symm (Apart n) := ⟨fun _ _ => Or.symm⟩

theorem eight_le_stride (mp : Mpool) : 8 ≤ mp.stride := Nat.le_add_right 8 mp.chunkSize

theorem perArea_pos (hw : mp.WellLaid pgsz) : 0 < mp.perArea pgsz :=
  Nat.div_pos hw.roomy (Nat.lt_of_lt_of_le (by decide) mp.eight_le_stride)

theorem perArea_mul_le (pgsz : ℕ) (mp : Mpool) : mp.perArea pgsz * mp.stride ≤ mp.areaSize pgsz :=
  Nat.div_mul_le_self ..

theorem mem_chunks : h ∈ mp.chunks pgsz ↔ ∃ p ∈ mp.areas, h ∈ chunksOf mp.stride (mp.perArea pgsz) p := by
  simp [chunks]

theorem chunk_inside {n : ℕ} (hn : n ≤ mp.perArea pgsz) (hh : h ∈ chunksOf mp.stride n p) :
    p ≤ h ∧ h + mp.stride ≤ p + mp.areaSize pgsz := by
  obtain ⟨i, hi, rfl⟩ := mem_chunksOf.mp hh
  have hlast : p + i * mp.stride + mp.stride ≤ p + mp.perArea pgsz * mp.stride := chunk_lt (by omega)
  have hsize := mp.perArea_mul_le pgsz
  omega

theorem chunksOf_apart (stride n p : ℕ) : (chunksOf stride n p).Pairwise (Apart stride) := by
  rw [chunksOf, List.pairwise_map]
  exact List.pairwise_lt_range.imp fun hlt => .inl (chunk_lt hlt)

theorem chunks_apart (hw : mp.WellLaid pgsz) : (mp.chunks pgsz).Pairwise (Apart mp.stride) := by
  rw [chunks, List.pairwise_flatMap]
  refine ⟨fun p _ => chunksOf_apart .., hw.apart.imp ?_⟩
  intro p q hpq x hx y hy
  have hx := chunk_inside (Nat.le_refl _) hx
  have hy := chunk_inside (Nat.le_refl _) hy
  simp only [Apart] at hpq ⊢
  omega

theorem ne_of_apart (hp : Apart mp.stride h k) : h ≠ k := by
  have h8 := mp.eight_le_stride
  simp only [Apart] at hp
  omega

theorem chunks_nodup (hw : mp.WellLaid pgsz) : (mp.chunks pgsz).Nodup := (chunks_apart hw).imp ne_of_apart

theorem apart_of_ne (hw : mp.WellLaid pgsz) (hh : h ∈ mp.chunks pgsz) (hk : k ∈ mp.chunks pgsz)
    (hne : h ≠ k) :
    Apart mp.stride h k :=
  (chunks_apart hw).forall hh hk hne

theorem chunksOf_nodup (mp : Mpool) (n p : ℕ) : (chunksOf mp.stride n p).Nodup :=
  (chunksOf_apart mp.stride n p).imp ne_of_apart

theorem chunk_pos (hw : mp.WellLaid pgsz) (hh : h ∈ mp.chunks pgsz) : h ≠ 0 ∧ h + mp.stride ≤ 2 ^ 64 := by
  obtain ⟨p, hp, hh⟩ := mem_chunks.mp hh
  have hin := chunk_inside (Nat.le_refl _) hh
  have hfits := hw.fits p hp
  have hnonnull := hw.nonnull p hp
  omega

theorem WellLaid.extend (hw : mp.WellLaid pgsz) (hp : mp.Maps pgsz p) (head count : ℕ) :
    WellLaid pgsz { mp with freeChunkHead := head, chunkCount := count, more := mp.more ++ [p] } where
  roomy := hw.roomy
  nonnull := by
    intro q hq
    obtain hq | hq := List.mem_append.mp (show q ∈ mp.areas ++ [p] from hq)
    · exact hw.nonnull q hq
    · exact List.mem_singleton.mp hq ▸ hp.nonnull
  fits := by
    intro q hq
    obtain hq | hq := List.mem_append.mp (show q ∈ mp.areas ++ [p] from hq)
    · exact hw.fits q hq
    · exact List.mem_singleton.mp hq ▸ hp.fits
  apart := by
    change (mp.areas ++ [p]).Pairwise (Apart (mp.areaSize pgsz))
    rw [List.pairwise_append]
    refine ⟨hw.apart, List.pairwise_singleton .., fun q hq r hr => ?_⟩
    exact List.mem_singleton.mp hr ▸ hp.apart q hq

theorem Maps.notMem_chunks (hp : mp.Maps pgsz p) (hh : h ∈ mp.chunks pgsz) :
    h ∉ chunksOf mp.stride (mp.perArea pgsz) p := by
  intro hnew
  obtain ⟨q, hq, hh⟩ := mem_chunks.mp hh
  have hin := chunk_inside (Nat.le_refl _) hh
  have hin' := chunk_inside (Nat.le_refl _) hnew
  have hapart := hp.apart q hq
  have h8 := mp.eight_le_stride
  simp only [Apart] at hapart
  omega

end chunks

end Mpool

structure PoolState where
  mp : Mpool
  mem : HostBytes
  live : List ℕ

inductive PoolEvent
  | alloc (ptr : Option ℕ)
  | free (ptr : ℕ)
  | refresh
  | write

namespace PoolState

open Mpool

inductive Step (pgsz : ℕ) : PoolState → PoolEvent → PoolState → Prop
  | alloc {s : PoolState} {mapped : Option ℕ} {malloced : Bool} {ptr : Option ℕ} {mp : Mpool}
      {mem : HostBytes} :
      (∀ p, mapped = some p → s.mp.Maps pgsz p) →
      mpoolAlloc pgsz s.mp s.mem mapped malloced = (ptr, mp, mem) →
      Step pgsz s (.alloc ptr) ⟨mp, mem, (ptr.map (· - 8)).toList ++ s.live⟩
  | calloc {s : PoolState} {mapped : Option ℕ} {malloced : Bool} {ptr : Option ℕ} {mp : Mpool}
      {mem : HostBytes} :
      (∀ p, mapped = some p → s.mp.Maps pgsz p) →
      mpoolCalloc pgsz s.mp s.mem mapped malloced = (ptr, mp, mem) →
      Step pgsz s (.alloc ptr) ⟨mp, mem, (ptr.map (· - 8)).toList ++ s.live⟩
  | free {s : PoolState} {h : ℕ} : h ∈ s.live →
      Step pgsz s (.free (h + 8))
        ⟨(mpoolFree s.mp s.mem (h + 8)).1, (mpoolFree s.mp s.mem (h + 8)).2, s.live.erase h⟩
  | refresh (s : PoolState) :
      Step pgsz s .refresh ⟨(mpoolRefreshAll pgsz s.mp s.mem).1, (mpoolRefreshAll pgsz s.mp s.mem).2, []⟩
  | write {s : PoolState} {mem : HostBytes} :
      (∀ p ∈ s.mp.areas, ∀ a, p ≤ a → a < p + s.mp.areaSize pgsz →
        (∀ h ∈ s.live, a < h + 8 ∨ h + s.mp.stride ≤ a) → mem a = s.mem a) →
      Step pgsz s .write ⟨s.mp, mem, s.live⟩

structure Sound (pgsz : ℕ) (s : PoolState) (hs : List ℕ) : Prop where
  laid : s.mp.WellLaid pgsz
  list : Seg (nextOf s.mem) s.mp.freeChunkHead hs 0
  count : hs.length = s.mp.chunkCount
  chunk : ∀ h ∈ hs ++ s.live, h ∈ s.mp.chunks pgsz
  nodup : (hs ++ s.live).Nodup

namespace Sound

variable {pgsz : ℕ} {s : PoolState} {hs : List ℕ} {f p : ℕ} {mp : Mpool} {mem : HostBytes}

theorem frame (h : s.Sound pgsz hs) (hmem : ∀ x ∈ hs, ∀ y, x ≤ y → y < x + 8 → mem y = s.mem y) :
    Sound pgsz ⟨s.mp, mem, s.live⟩ hs :=
  ⟨h.laid, seg_frame h.list hmem, h.count, h.chunk, h.nodup⟩

theorem head_lt (h : s.Sound pgsz hs) : s.mp.freeChunkHead < 2 ^ 64 := by
  cases hs with
  | nil =>
    rw [h.list.eq_of_nil]
    decide
  | cons f hs =>
    obtain ⟨hf, -⟩ := h.list.of_cons
    have hpos := chunk_pos h.laid (h.chunk f (by simp))
    have h8 := s.mp.eight_le_stride
    omega

theorem free_apart_live (h : s.Sound pgsz hs) {x : ℕ} (hx : x ∈ hs) (hf : f ∈ s.live) :
    Apart s.mp.stride x f := by
  refine apart_of_ne h.laid (h.chunk x (List.mem_append_left _ hx))
    (h.chunk f (List.mem_append_right _ hf)) ?_
  rintro rfl
  exact (List.nodup_append.mp h.nodup).2.2 x hx x hf rfl

theorem pop (h : s.Sound pgsz (f :: hs)) :
    (mpoolAllocHelper s.mp s.mem).1 = f + 8 ∧
      Sound pgsz ⟨(mpoolAllocHelper s.mp s.mem).2, s.mem, f :: s.live⟩ hs := by
  obtain ⟨hf, hlist⟩ := h.list.of_cons
  have hcount : hs.length + 1 = s.mp.chunkCount := h.count
  refine ⟨by rw [mpoolAllocHelper, hf], ⟨h.laid.roomy, h.laid.nonnull, h.laid.fits,
    h.laid.apart⟩, ?_, ?_, ?_, ?_⟩
  · rw [← hf] at hlist
    exact hlist
  · exact Nat.eq_sub_of_add_eq hcount
  · exact fun x hx => h.chunk x (List.perm_middle.mem_iff.mp hx)
  · exact List.perm_middle.nodup_iff.mpr h.nodup

theorem nil_of_count (h : s.Sound pgsz hs) (hc : s.mp.chunkCount = 0) : hs = [] :=
  List.eq_nil_of_length_eq_zero (h.count.trans hc)

theorem extend (h : s.Sound pgsz []) (hp : s.mp.Maps pgsz p) {malloced : Bool}
    (he : mpoolExtend pgsz s.mp s.mem (some p) malloced = some (mp, mem)) :
    Sound pgsz ⟨mp, mem, s.live⟩ (chunksOf s.mp.stride (s.mp.perArea pgsz) p) := by
  cases malloced with
  | false => cases he
  | true =>
    obtain ⟨rfl, rfl⟩ := Prod.mk.inj (Option.some.inj he)
    have hpos := perArea_pos h.laid
    have hsize := s.mp.perArea_mul_le pgsz
    have hfits := hp.fits
    refine ⟨h.laid.extend hp _ _, ?_, ?_, fun x hx => ?_, ?_⟩
    · have hzeros : ∀ b, p ≤ b → b < p + s.mp.perArea pgsz * s.mp.stride →
          memsetZero s.mem p (s.mp.areaSize pgsz) b = 0 := fun b hb hb' => if_pos ⟨hb, by omega⟩
      have hfit : p + s.mp.perArea pgsz * s.mp.stride ≤ 2 ^ 64 := by omega
      exact linkChunks_zeros s.mp.eight_le_stride hpos hfit hzeros
    · have hzero : s.mp.chunkCount = 0 := h.count.symm
      simp only [chunksOf, List.length_map, List.length_range, hzero, Nat.zero_add]
    · refine mem_chunks.mpr ?_
      obtain hx | hx := List.mem_append.mp hx
      · exact ⟨p, List.mem_append_right s.mp.areas (List.mem_singleton_self p), hx⟩
      · obtain ⟨q, hq, hx⟩ := mem_chunks.mp (h.chunk x hx)
        exact ⟨q, List.mem_append_left [p] hq, hx⟩
    · refine List.nodup_append.mpr ⟨chunksOf_nodup .., h.nodup, ?_⟩
      rintro x hx y hy rfl
      exact hp.notMem_chunks (h.chunk x hy) hx

theorem le_pages (hpgsz : 0 < pgsz) (size : ℕ) : size ≤ (size + pgsz - 1) / pgsz * pgsz := by
  have hdiv := Nat.div_add_mod (size + pgsz - 1) pgsz
  have hmod := Nat.mod_lt (size + pgsz - 1) hpgsz
  rw [Nat.mul_comm] at hdiv
  omega

theorem alloc (h : s.Sound pgsz hs) {mapped : Option ℕ} (hmap : ∀ p, mapped = some p → s.mp.Maps pgsz p)
    {malloced : Bool} {ptr : Option ℕ} (ha : mpoolAlloc pgsz s.mp s.mem mapped malloced = (ptr, mp, mem)) :
    (ptr = none ∧ Sound pgsz ⟨mp, mem, s.live⟩ hs) ∨
      ∃ f hs', ptr = some (f + 8) ∧ Sound pgsz ⟨mp, mem, f :: s.live⟩ hs' := by
  unfold mpoolAlloc at ha
  by_cases hc : s.mp.chunkCount = 0
  · rw [if_pos hc] at ha
    cases h.nil_of_count hc
    cases he : mpoolExtend pgsz s.mp s.mem mapped malloced with
    | none =>
      rw [he] at ha
      cases ha
      exact .inl ⟨rfl, h⟩
    | some grown =>
      cases mapped with
      | none => cases he
      | some p =>
        rw [he] at ha
        have hgrown := h.extend (hmap p rfl) he
        cases hch : chunksOf s.mp.stride (s.mp.perArea pgsz) p with
        | nil =>
          have hlen : (chunksOf s.mp.stride (s.mp.perArea pgsz) p).length = s.mp.perArea pgsz := by
            simp [chunksOf]
          have hpos := perArea_pos h.laid
          rw [hch] at hlen
          exact absurd hlen (Nat.ne_of_lt hpos)
        | cons f hs' =>
          rw [hch] at hgrown
          obtain ⟨hptr, hpop⟩ := hgrown.pop
          cases ha
          exact .inr ⟨f, hs', congrArg some hptr, hpop⟩
  · rw [if_neg hc] at ha
    cases hs with
    | nil => exact absurd h.count.symm hc
    | cons f hs' =>
      obtain ⟨hptr, hpop⟩ := h.pop
      cases ha
      exact .inr ⟨f, hs', congrArg some hptr, hpop⟩

theorem calloc (h : s.Sound pgsz hs) {mapped : Option ℕ} (hmap : ∀ p, mapped = some p → s.mp.Maps pgsz p)
    {malloced : Bool} {ptr : Option ℕ} (ha : mpoolCalloc pgsz s.mp s.mem mapped malloced = (ptr, mp, mem)) :
    (ptr = none ∧ Sound pgsz ⟨mp, mem, s.live⟩ hs) ∨
      ∃ f hs', ptr = some (f + 8) ∧ Sound pgsz ⟨mp, mem, f :: s.live⟩ hs' := by
  unfold mpoolCalloc at ha
  rcases hout : mpoolAlloc pgsz s.mp s.mem mapped malloced with ⟨ptr₀, mp₀, mem₀⟩
  rw [hout] at ha
  obtain ⟨rfl, hs₀⟩ | ⟨f, hs', rfl, hs₀⟩ := h.alloc hmap hout
  · cases ha
    exact .inl ⟨rfl, hs₀⟩
  · cases ha
    refine .inr ⟨f, hs', rfl, hs₀.frame fun x hx y _ hy => if_neg ?_⟩
    -- the payload of the new chunk is beside the header of a free one
    have hapart := hs₀.free_apart_live hx List.mem_cons_self
    simp only [Apart, stride] at hapart
    omega

theorem free (h : s.Sound pgsz hs) (hf : f ∈ s.live) :
    Sound pgsz ⟨(mpoolFree s.mp s.mem (f + 8)).1, (mpoolFree s.mp s.mem (f + 8)).2, s.live.erase f⟩
      (f :: hs) := by
  have hperm : (f :: hs ++ s.live.erase f).Perm (hs ++ s.live) := by
    have herase : (hs ++ f :: s.live.erase f).Perm (hs ++ s.live) :=
      (List.perm_cons_erase hf).symm.append_left hs
    exact List.perm_middle.symm.trans herase
  have hnext : nextOf (setNext s.mem f s.mp.freeChunkHead) f = s.mp.freeChunkHead := by
    refine Cells.load_store_of_lt s.mem f ?_
    have h64 : 256 ^ 8 = 2 ^ 64 := by norm_num
    rw [h64]
    exact h.head_lt
  refine ⟨⟨h.laid.roomy, h.laid.nonnull, h.laid.fits, h.laid.apart⟩, ?_, ?_, ?_, hperm.nodup_iff.mpr h.nodup⟩
  · have hlist : Seg (nextOf (setNext s.mem f s.mp.freeChunkHead)) f (f :: hs) 0 := by
      refine .cons ?_
      rw [hnext]
      refine seg_frame h.list fun x hx y _ hy => Cells.store_of_notMem ?_ _
      have hapart := h.free_apart_live hx hf
      have h8 := s.mp.eight_le_stride
      simp only [Apart] at hapart
      omega
    exact hlist
  · exact congrArg (· + 1) h.count
  · exact fun x hx => h.chunk x (hperm.mem_iff.mp hx)

theorem write (h : s.Sound pgsz hs)
    (hw : ∀ p ∈ s.mp.areas, ∀ a, p ≤ a → a < p + s.mp.areaSize pgsz →
      (∀ h ∈ s.live, a < h + 8 ∨ h + s.mp.stride ≤ a) → mem a = s.mem a) :
        Sound pgsz ⟨s.mp, mem, s.live⟩ hs := by
  refine h.frame fun x hx y hy hy' => ?_
  have hchunk := h.chunk x (List.mem_append_left _ hx)
  have h8 := s.mp.eight_le_stride
  obtain ⟨p, hp, hin⟩ := mem_chunks.mp hchunk
  have hin := chunk_inside (Nat.le_refl _) hin
  refine hw p hp y (by omega) (by omega) fun f hf => ?_
  have hapart := h.free_apart_live hx hf
  simp only [Apart] at hapart
  omega

theorem refresh (h : s.Sound pgsz hs) :
    Sound pgsz ⟨(mpoolRefreshAll pgsz s.mp s.mem).1, (mpoolRefreshAll pgsz s.mp s.mem).2, []⟩
      (s.mp.chunks pgsz) := by
  obtain ⟨hlist, -⟩ := refreshAreas_spec s.mp.eight_le_stride (perArea_pos h.laid)
      (s.mp.perArea_mul_le pgsz) h.laid.fits
    h.laid.apart s.mem
  refine ⟨⟨h.laid.roomy, h.laid.nonnull, h.laid.fits, h.laid.apart⟩, hlist, ?_, ?_, ?_⟩
  · simp [mpoolRefreshAll, chunks, chunksOf, Nat.mul_comm]
  · intro x hx
    rw [List.append_nil] at hx
    exact hx
  · rw [List.append_nil]
    exact chunks_nodup h.laid

theorem step {e : PoolEvent} {s' : PoolState} (h : s.Sound pgsz hs) (hstep : Step pgsz s e s') :
    ∃ hs', s'.Sound pgsz hs' := by
  cases hstep with
  | alloc hmap ha =>
    obtain ⟨rfl, hs'⟩ | ⟨f, hs', rfl, hsound⟩ := h.alloc hmap ha
    · exact ⟨hs, hs'⟩
    · exact ⟨hs', hsound⟩
  | calloc hmap ha =>
    obtain ⟨rfl, hs'⟩ | ⟨f, hs', rfl, hsound⟩ := h.calloc hmap ha
    · exact ⟨hs, hs'⟩
    · exact ⟨hs', hsound⟩
  | free hf => exact ⟨_, h.free hf⟩
  | refresh => exact ⟨_, h.refresh⟩
  | write hw => exact ⟨hs, h.write hw⟩

theorem fresh {ptr : ℕ} {s' : PoolState} (h : s.Sound pgsz hs) (hstep : Step pgsz s (.alloc (some ptr)) s') :
    ∀ f ∈ s.live, ptr ≠ f + 8 := by
  have hsound : ∃ f hs', ptr = f + 8 ∧ (hs' ++ f :: s.live).Nodup := by
    cases hstep with
    | alloc hmap ha =>
      obtain ⟨hnone, -⟩ | ⟨f, hs', hptr, hsound⟩ := h.alloc hmap ha
      · cases hnone
      · exact ⟨f, hs', Option.some.inj hptr, hsound.nodup⟩
    | calloc hmap ha =>
      obtain ⟨hnone, -⟩ | ⟨f, hs', hptr, hsound⟩ := h.calloc hmap ha
      · cases hnone
      · exact ⟨f, hs', Option.some.inj hptr, hsound.nodup⟩
  obtain ⟨f, hs', rfl, hnodup⟩ := hsound
  intro g hg heq
  cases Nat.add_right_cancel heq
  exact (List.nodup_cons.mp (List.nodup_append.mp hnodup).2.1).1 hg

theorem create {poolSize chunkSize : ℕ} {malloced : Bool} {mem₀ : HostBytes} (hpgsz : 0 < pgsz)
    (hcreate : mpoolCreate pgsz poolSize chunkSize malloced (some p) mem₀ = some (mp, mem)) (hp : p ≠ 0)
    (hfits : p + mp.areaSize pgsz ≤ 2 ^ 64) (hroomy : 8 + chunkSize ≤ withHeader poolSize chunkSize) :
    Sound pgsz ⟨mp, mem, []⟩ (chunksOf mp.stride mp.chunkCount p) := by
  dsimp only [mpoolCreate] at hcreate
  generalize withHeader poolSize chunkSize = size at hcreate hroomy
  split_ifs at hcreate
  obtain ⟨rfl, rfl⟩ := Prod.mk.inj (Option.some.inj hcreate)
  have hone : 0 < size / (8 + chunkSize) := Nat.div_pos hroomy (by omega)
  -- the pages hold the requested size
  have hpages : size ≤ (size + pgsz - 1) / pgsz * pgsz := le_pages hpgsz size
  have hle : size / (8 + chunkSize) ≤ (size + pgsz - 1) / pgsz * pgsz / (8 + chunkSize) :=
    Nat.div_le_div_right hpages
  have hmul : size / (8 + chunkSize) * (8 + chunkSize) ≤ size := Nat.div_mul_le_self ..
  dsimp only [areaSize] at hfits
  obtain ⟨hlist, -⟩ := linkArea_spec (p := p)
    (memsetZero mem₀ p ((size + pgsz - 1) / pgsz * pgsz)) (Nat.le_add_right 8 chunkSize) hone (by omega)
    (by decide : 0 < 2 ^ 64)
  refine ⟨⟨hroomy.trans hpages, ?_, ?_, List.pairwise_singleton ..⟩, hlist, by simp [chunksOf], ?_, ?_⟩
  · intro q hq
    exact List.mem_singleton.mp hq ▸ hp
  · intro q hq
    exact List.mem_singleton.mp hq ▸ hfits
  · intro x hx
    rw [List.append_nil] at hx
    obtain ⟨i, hi, rfl⟩ := mem_chunksOf.mp hx
    exact mem_chunks.mpr ⟨p, List.mem_singleton_self p, mem_chunksOf.mpr ⟨i, Nat.lt_of_lt_of_le hi hle, rfl⟩⟩
  · rw [List.append_nil]
    exact chunksOf_nodup ..

theorem run {events : List PoolEvent} {s' : PoolState} (h : s.Sound pgsz hs)
    (hrun : Run (Step pgsz) s events s') :
    ∃ hs', s'.Sound pgsz hs' := by
  induction hrun generalizing hs with
  | nil => exact ⟨hs, h⟩
  | cons hstep _ ih =>
    obtain ⟨hs', h'⟩ := h.step hstep
    exact ih h'

theorem refreshed {s' : PoolState} (h : s.Sound pgsz hs) (hstep : Step pgsz s .refresh s') :
    s'.mp.areas = s.mp.areas ∧ s'.Sound pgsz (s'.mp.chunks pgsz) := by
  cases hstep
  exact ⟨rfl, h.refresh⟩

end Sound

structure FreeList (s : PoolState) (hs : List ℕ) : Prop where
  list : Seg (nextOf s.mem) s.mp.freeChunkHead hs 0
  nonnull : ∀ h ∈ hs, h ≠ 0
  acyclic : hs.Nodup
  count : hs.length = s.mp.chunkCount

theorem Sound.freeList {pgsz : ℕ} {s : PoolState} {hs : List ℕ} (h : s.Sound pgsz hs) : s.FreeList hs where
  list := h.list
  nonnull x hx := (chunk_pos h.laid (h.chunk x (List.mem_append_left _ hx))).1
  acyclic := (List.nodup_append.mp h.nodup).1
  count := h.count

/-- After any calls on a pool that holds a chunk: the free list ends and has the length that is counted;
free and live chunks are disjoint and within the areas; an allocation hands out no live chunk; and a
refresh puts every chunk of every area on the free list, once. -/
theorem pool_sound {pgsz poolSize chunkSize p : ℕ} {malloced : Bool} {mem₀ mem : HostBytes} {mp : Mpool}
    {events : List PoolEvent} {s : PoolState} (hpgsz : 0 < pgsz)
    (hcreate : mpoolCreate pgsz poolSize chunkSize malloced (some p) mem₀ = some (mp, mem)) (hp : p ≠ 0)
    (hfits : p + mp.areaSize pgsz ≤ 2 ^ 64) (hroomy : 8 + chunkSize ≤ withHeader poolSize chunkSize)
    (hrun : Run (Step pgsz) ⟨mp, mem, []⟩ events s) :
    (∃ hs, s.FreeList hs ∧ (hs ++ s.live).Pairwise (Apart s.mp.stride) ∧
        ∀ h ∈ hs ++ s.live, ∃ q ∈ s.mp.areas, q ≤ h ∧ h + s.mp.stride ≤ q + s.mp.areaSize pgsz) ∧
      (∀ ptr s', Step pgsz s (.alloc (some ptr)) s' → ∀ h ∈ s.live, ptr ≠ h + 8) ∧
      ∀ s', Step pgsz s .refresh s' → s'.mp.areas = s.mp.areas ∧ s'.FreeList (s'.mp.chunks pgsz) := by
  obtain ⟨hs, h⟩ := (Sound.create hpgsz hcreate hp hfits hroomy).run hrun
  refine ⟨⟨hs, h.freeList, ?_, fun x hx => ?_⟩, fun ptr s' hstep => h.fresh hstep, fun s' hstep => ?_⟩
  · refine h.nodup.imp_of_mem fun {x y} hx hy hne => ?_
    exact apart_of_ne h.laid (h.chunk x hx) (h.chunk y hy) hne
  · obtain ⟨q, hq, hin⟩ := mem_chunks.mp (h.chunk x hx)
    exact ⟨q, hq, chunk_inside (Nat.le_refl _) hin⟩
  · obtain ⟨hareas, h'⟩ := h.refreshed hstep
    exact ⟨hareas, h'.freeList⟩

theorem pool_sound_two_chunks :
    ∃ mp mem s, mpoolCreate 4096 64 24 true (some 8192) (fun _ => 0xFF) = some (mp, mem) ∧
      Run (Step 4096) ⟨mp, mem, []⟩ [.alloc (some 8200), .free 8200, .refresh] s ∧ ∃ hs, s.FreeList hs := by
  obtain ⟨mem, hcreate⟩ : ∃ mem, mpoolCreate 4096 64 24 true (some 8192) (fun _ => 0xFF) =
      some (⟨2, 1, 24, 8192, 8192, []⟩, mem) := ⟨_, rfl⟩
  have hrun :=
    Run.cons (@Step.alloc 4096 ⟨⟨2, 1, 24, 8192, 8192, []⟩, mem, []⟩ none false (some 8200) _ _ nofun rfl)
    (.cons (.free (List.mem_singleton_self 8192)) (.cons (.refresh _) (.nil _)))
  obtain ⟨⟨hs, hlist, -⟩, -⟩ := pool_sound (by decide) hcreate (by decide) (by decide) (by decide) hrun
  exact ⟨_, _, _, hcreate, hrun, hs, hlist⟩

end PoolState

end Rv32Emu
