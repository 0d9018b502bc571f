import Rv32Emu.Tensix.Bfp8
import Mathlib.Data.Finset.Lattice.Fold
import Mathlib.Data.Finset.Range
import Mathlib.Data.List.GetD
import Mathlib.Order.Lattice.Nat

namespace Rv32Emu

theorem word_mul_one (w : Word) : w * 1 = w := BitVec.mul_one w

section tile

def groupExp (vals : List Word) (g : ℕ) : ℕ :=
  (Finset.range 16).sup fun j => floatExp (vals.getD (16 * g + j) 0)

theorem groupExp_lt (vals : List Word) (g : ℕ) : groupExp vals g < 256 := by
  rw [groupExp, Finset.sup_lt_iff (by decide)]
  intro j _
  exact floatExp_lt _

theorem floatExp_le_groupExp (vals : List Word) (k : ℕ) :
    floatExp (vals.getD k 0) ≤ groupExp vals (k / 16) := by
  have hk : 16 * (k / 16) + k % 16 = k := Nat.div_add_mod k 16
  have hmem : k % 16 ∈ Finset.range 16 := Finset.mem_range.mpr (Nat.mod_lt _ (by decide))
  have hle := Finset.le_sup (f := fun j => floatExp (vals.getD (16 * (k / 16) + j) 0)) hmem
  rwa [hk] at hle

def TileAt (base : ℕ) (l1 : Bytes) (vals : List Word) : Prop :=
  ∀ k < vals.length, base + 64 + k < l1Size →
    (l1 (base + k / 16)).toNat = groupExp vals (k / 16) ∧
      l1 (base + 64 + k) = (bfp8Mantissa (w32 (groupExp vals (k / 16))) (vals.getD k 0)).setWidth 8

variable {base : ℕ} {l1 : Bytes} {vals ws : List Word} {g : ℕ}

theorem groupExp_append_left (hlen : vals.length = 16 * g) {i : ℕ} (hi : i < g) :
    groupExp (vals ++ ws) i = groupExp vals i := by
  refine Finset.sup_congr rfl fun j hj => ?_
  have hj := Finset.mem_range.mp hj
  rw [List.getD_append _ _ _ _ (by omega)]

theorem getD_append_group (hlen : vals.length = 16 * g) (b : ℕ → Word) {j : ℕ} (hj : j < 16) :
    (vals ++ (List.range 16).map b).getD (16 * g + j) 0 = b j := by
  rw [List.getD_append_right _ _ _ _ (by omega), hlen, Nat.add_sub_cancel_left]
  simp [List.getD_eq_getElem?_getD, hj]

theorem groupExp_append_group (hlen : vals.length = 16 * g) (b : ℕ → Word) :
    groupExp (vals ++ (List.range 16).map b) g = (Finset.range 16).sup fun j => floatExp (b j) := by
  refine Finset.sup_congr rfl fun j hj => ?_
  rw [getD_append_group hlen b (Finset.mem_range.mp hj)]

theorem storeByte_of_ne {a x : Word} {n : ℕ} (h : a.toNat ≠ n) : storeByte l1 a x n = l1 n := by
  unfold storeByte
  split
  · exact Function.update_of_ne (Ne.symm h) _ _
  · rfl

theorem storeByte_self {a x : Word} (h : a.toNat < l1Size) : storeByte l1 a x a.toNat = x.setWidth 8 := by
  rw [storeByte, if_pos h]
  exact Function.update_self ..

theorem TileAt.group (h : TileAt base l1 vals) (hlen : vals.length = 16 * g) (hg : g < 64)
    {expA sharedExp : Word} {mantA b : ℕ → Word} (hexpA : expA.toNat = base + g)
    (hmantA : ∀ j < 16, (mantA j).toNat = base + 64 + (16 * g + j))
    (hE : sharedExp.toNat = (Finset.range 16).sup fun j => floatExp (b j)) :
    TileAt base
      (forRange 16 (storeByte l1 expA sharedExp) fun l1 j =>
        storeByte l1 (mantA j) (bfp8Mantissa sharedExp (b j)))
      (vals ++ (List.range 16).map b) := by
  intro k hk hin
  rw [List.length_append, List.length_map, List.length_range, hlen] at hk
  have hheader : ∀ i ≤ g, ∀ a : Bytes, ∀ j < 16, storeByte a (mantA j) (bfp8Mantissa sharedExp (b j))
      (base + i) =
      a (base + i) := by
    intro i hi a j hj
    apply storeByte_of_ne
    rw [hmantA j hj]
    omega
  by_cases hold : k < 16 * g
  · have hgk : k / 16 < g := by omega
    rw [groupExp_append_left hlen hgk, List.getD_append _ _ _ _ (by omega)]
    obtain ⟨hexp, hmant⟩ := h k (by omega) hin
    constructor
    · rw [← hexp, forRange_keeps (fun a : Bytes => a (base + k / 16)) fun j hj a =>
        hheader _ (by omega) a j hj, storeByte_of_ne (by omega)]
    · have hbytes : ∀ j < 16, ∀ a : Bytes,
          storeByte a (mantA j) (bfp8Mantissa sharedExp (b j)) (base + 64 + k) = a (base + 64 + k) := by
        intro j hj a
        apply storeByte_of_ne
        rw [hmantA j hj]
        omega
      rw [← hmant, forRange_keeps (fun a : Bytes => a (base + 64 + k)) hbytes, storeByte_of_ne (by omega)]
  · obtain ⟨j, rfl⟩ : ∃ j, k = 16 * g + j := ⟨k - 16 * g, by omega⟩
    have hgk : (16 * g + j) / 16 = g := by omega
    have hj : j < 16 := by omega
    rw [hgk, groupExp_append_group hlen, ← hE, w32_toNat, getD_append_group hlen b hj]
    constructor
    · rw [forRange_keeps (fun a : Bytes => a (base + g)) fun j hj a => hheader _ le_rfl a j hj, ← hexpA,
        storeByte_self (by omega), BitVec.toNat_setWidth, Nat.mod_eq_of_lt]
      rw [hE, Finset.sup_lt_iff (by decide)]
      intro j _
      exact floatExp_lt _
    · rw [← hmantA j hj]
      apply forRange_writes (fun a : Bytes => a (mantA j).toNat) hj
      · intro a
        exact storeByte_self (by rw [hmantA j hj]; omega)
      · intro i hi hne a
        apply storeByte_of_ne
        rw [hmantA i hi, hmantA j hj]
        omega

theorem sharedExp_toNat (f : ℕ → Word) (n : ℕ) :
    (forRange n (0 : Word) fun e k =>
        let e' := bits (f k) 23 0xFF
        if e'.toNat > e.toNat then e' else e).toNat =
      (Finset.range n).sup fun j => floatExp (f j) := by
  apply forRange_induction (P := fun i (e : Word) => e.toNat = (Finset.range i).sup fun j => floatExp (f j))
  · rfl
  · intro i _ e he
    rw [Finset.range_add_one, Finset.sup_insert, ← he]
    dsimp only
    split_ifs with h
    · rw [bits_exp_toNat] at h ⊢
      exact (max_eq_left h.le).symm
    · rw [bits_exp_toNat] at h
      exact (max_eq_right (not_lt.mp h)).symm

def blockValues (n : ℕ) (ws : List Word) : List Word := (List.range n).map fun k => ws.getD k 0

@[simp] theorem length_blockValues (n : ℕ) (ws : List Word) : (blockValues n ws).length = n := by
  simp [blockValues]

theorem blockValues_add (n m : ℕ) (ws : List Word) :
    blockValues (n + m) ws = blockValues n ws ++ (List.range m).map fun k => ws.getD (n + k) 0 := by
  simp [blockValues, List.range_add, Function.comp_def]

theorem TileAt.packBfp8 (h : TileAt base l1 vals) (hlen : vals.length = 16 * g) {p : PackPlan} {m : ℕ}
    (hn : p.numDatums.toNat = 16 * m) (htile : 16 * g + 16 * m ≤ 1024) (hbase : p.l1BaseByteAddr.toNat = base)
    (hlt : base < 2 ^ 21) {addr : Word} (haddr : addr = p.l1BaseByteAddr + w32 (16 * g)) :
    TileAt base (packBfp8 l1 p addr ws) (vals ++ blockValues (16 * m) ws) := by
  have hoff : addr - p.l1BaseByteAddr = w32 (16 * g) := by rw [haddr, BitVec.add_comm, BitVec.add_sub_cancel]
  have hcount : (16 * m + 15) / 16 = m := by omega
  unfold Rv32Emu.packBfp8
  simp only [hoff, hn, hcount]
  apply forRange_induction (P := fun i a => TileAt base a (vals ++ blockValues (16 * i) ws))
  · simpa [blockValues] using h
  intro i hi a ha
  rw [if_pos (by omega : 16 * i + 16 ≤ 16 * m), Nat.mul_succ, blockValues_add, ← List.append_assoc]
  have hgroups : (vals ++ blockValues (16 * i) ws).length = 16 * (g + i) := by
    rw [List.length_append, length_blockValues, hlen]
    omega
  apply ha.group hgroups (by omega)
  · simp only [w32, BitVec.toNat_add, BitVec.toNat_udiv, BitVec.toNat_ofNat, BitVec.reduceToNat, hbase]
    omega
  · intro j hj
    simp only [w32, BitVec.toNat_add, BitVec.toNat_ofNat, BitVec.reduceToNat, hbase]
    omega
  · exact sharedExp_toNat _ 16

end tile

section pacr

def packs (p : PackPlan) (pck : ℕ) : Bool := bit p.readIntfSel pck && !(p.byteLaneDup && (pck = 2 || pck = 3))

def packedBelow (tt : Tensix) (p : PackPlan) (n : ℕ) : List Word :=
  ((List.range n).filter (packs p ·)).flatMap fun pck =>
    blockValues p.numDatums.toNat (packValues tt p (packSrcAddr tt p pck))

variable {tt : Tensix} {imm : Word} {tid : Tid} {p : PackPlan} {l1 : Bytes} {vals : List Word}

theorem length_packedBelow (tt : Tensix) (p : PackPlan) (n : ℕ) :
    (packedBelow tt p n).length = (List.range n).countP (packs p ·) * p.numDatums.toNat := by
  simp [packedBelow, List.length_flatMap, List.countP_eq_length_filter]

theorem packedBelow_succ (tt : Tensix) (p : PackPlan) (n : ℕ) :
    packedBelow tt p (n + 1) =
      packedBelow tt p n ++
        if packs p n then blockValues p.numDatums.toNat (packValues tt p (packSrcAddr tt p n)) else [] := by
  rw [packedBelow, List.range_succ, List.filter_append, List.flatMap_append]
  by_cases h : packs p n <;> simp [h, packedBelow]

theorem countP_packs_succ (p : PackPlan) (n : ℕ) :
    (List.range (n + 1)).countP (packs p ·) = (List.range n).countP (packs p ·) + if packs p n then 1
      else 0 := by
  rw [List.range_succ, List.countP_append]
  by_cases h : packs p n <;> simp [h]

def packer (tt : Tensix) (p : PackPlan) (acc : Bytes × ℕ) (pck : ℕ) : Bytes × ℕ :=
  if !bit p.readIntfSel pck then acc
  else if p.byteLaneDup && (pck = 2 || pck = 3) then acc
  else
    let addr := p.l1BaseByteAddr + tt.packL1WriteOffset + w32 acc.2 * p.numDatums * p.outDsb
    let vals := packValues tt p (packSrcAddr tt p pck)
    let l1 :=
      if p.numDatums = 0 then acc.1
      else if p.outDataFmt = 6 ∨ p.outDataFmt = 2 then packBfp8 acc.1 p addr vals
      else packPlain acc.1 p addr vals
    (l1, acc.2 + 1)

theorem packer_of_packs {acc : Bytes × ℕ} {pck : ℕ} (hfmt : p.outDataFmt = 6) (h : packs p pck) :
    packer tt p acc pck =
      (if p.numDatums = 0 then acc.1
        else packBfp8 acc.1 p (p.l1BaseByteAddr + tt.packL1WriteOffset + w32 acc.2 * p.numDatums * p.outDsb)
          (packValues tt p (packSrcAddr tt p pck)),
      acc.2 + 1) := by
  simp only [packs, Bool.and_eq_true, Bool.not_eq_true'] at h
  simp only [packer, h.1, h.2, hfmt]
  rfl

theorem packer_of_not_packs {acc : Bytes × ℕ} {pck : ℕ} (h : packs p pck = false) :
    packer tt p acc pck = acc := by
  unfold packer
  cases hsel : bit p.readIntfSel pck with
  | false => rfl
  | true =>
    have hdup : (p.byteLaneDup && (pck = 2 || pck = 3)) = true := by
      rw [packs, hsel, Bool.true_and] at h
      simpa only [Bool.not_eq_false'] using h
    rw [hdup]
    rfl

structure PackedTile (tt : Tensix) (p : PackPlan) (vals : List Word) (n : ℕ) (acc : Bytes × ℕ) : Prop where
  count : acc.2 = (List.range n).countP (packs p ·)
  tile : (vals ++ packedBelow tt p n).length ≤ 1024 →
    TileAt p.l1BaseByteAddr.toNat acc.1 (vals ++ packedBelow tt p n)

structure PacksTile (tt : Tensix) (p : PackPlan) (vals : List Word) : Prop where
  aligned : 16 ∣ vals.length
  numDatums : 16 ∣ p.numDatums.toNat
  outDataFmt : p.outDataFmt = 6
  outDsb : p.outDsb = 1
  base : p.l1BaseByteAddr.toNat < 2 ^ 21
  offset : tt.packL1WriteOffset = w32 vals.length

theorem PackedTile.step (h : PacksTile tt p vals) {n : ℕ} {acc : Bytes × ℕ}
    (ha : PackedTile tt p vals n acc) :
    PackedTile tt p vals (n + 1) (packer tt p acc n) := by
  obtain ⟨g, hg⟩ := h.aligned
  obtain ⟨m, hm⟩ := h.numDatums
  cases hp : packs p n with
  | false =>
    rw [packer_of_not_packs hp]
    refine ⟨?_, ?_⟩
    · rw [countP_packs_succ, hp, ha.count]
      rfl
    · rw [packedBelow_succ, hp]
      simpa using ha.tile
  | true =>
    rw [packer_of_packs h.outDataFmt hp]
    refine ⟨?_, fun htile => ?_⟩
    · rw [countP_packs_succ, hp, ha.count]
      rfl
    rw [packedBelow_succ, hp, if_pos rfl, ← List.append_assoc] at htile ⊢
    rw [List.length_append, length_blockValues] at htile
    have htile' := ha.tile (by omega)
    by_cases hz : p.numDatums = 0
    · rw [if_pos hz, hz]
      simpa [blockValues] using htile'
    · have hlen : (vals ++ packedBelow tt p n).length = 16 * (g + acc.2 * m) := by
        rw [List.length_append, length_packedBelow, ← ha.count, hg, hm]
        ring
      rw [if_neg hz, hm]
      apply htile'.packBfp8 hlen hm (by omega) rfl h.base
      rw [h.offset, h.outDsb, word_mul_one, ← hlen, List.length_append, length_packedBelow, ha.count,
        w32_add, w32_mul, w32_toNat, BitVec.add_assoc]

theorem packLoop_tile (h : PacksTile tt p vals) (hl1 : TileAt p.l1BaseByteAddr.toNat l1 vals)
    (htile : (vals ++ packedBelow tt p 4).length ≤ 1024) :
    TileAt p.l1BaseByteAddr.toNat (packLoop tt p l1).1 (vals ++ packedBelow tt p 4) := by
  have hrun : PackedTile tt p vals 4 (forRange 4 (l1, 0) (packer tt p)) := by
    apply forRange_induction
    · exact ⟨rfl, fun _ => by simpa [packedBelow] using hl1⟩
    · intro n _ acc ha
      exact ha.step h
  exact hrun.tile htile

theorem bits_eq_ofFin (w : Word) (shift : ℕ) : ∃ i : Fin 16, bits w shift 0xF = w32 i := by
  have hlt : (bits w shift 0xF).toNat < 16 := by
    rw [bits, BitVec.toNat_and]
    exact Nat.and_lt_two_pow (n := 4) _ (by decide)
  exact ⟨⟨_, hlt⟩, (w32_toNat _).symm⟩

theorem numActive_eq (tt : Tensix) (imm : Word) (tid : Tid) :
    (packPlan tt imm tid).numActive = w32 ((List.range 4).countP (packs (packPlan tt imm tid) ·)) := by
  have key : ∀ (sel : Fin 16) (mode : Bool),
      let readIntfSel : Word := if w32 sel = 0 then 1 else w32 sel
      let byteLaneDup := !mode && (readIntfSel = 0x5 || readIntfSel = 0xA)
      let popcount := forRange 4 (0 : Word) fun n i => if bit readIntfSel i then n + 1 else n
      let numActive := if popcount = 0 then 1 else popcount
      (if byteLaneDup then 1 else numActive) =
        w32 ((List.range 4).countP fun pck => bit readIntfSel pck &&
          !(byteLaneDup && (pck = 2 || pck = 3))) := by
    decide
  obtain ⟨sel, hsel⟩ := bits_eq_ofFin imm 8
  have h := key sel (bit imm 17)
  rw [← hsel] at h
  exact h

def pacrValues (tt : Tensix) (imm : Word) (tid : Tid) : List Word := packedBelow tt (packPlan tt imm tid) 4

theorem l1BaseByteAddr_lt (tt : Tensix) (imm : Word) (tid : Tid) :
    (packPlan tt imm tid).l1BaseByteAddr.toNat < 2 ^ 21 := by
  have hand : ∀ w : Word, (w &&& 0x1FFFF).toNat < 2 ^ 17 := fun w => by
    rw [BitVec.toNat_and]
    exact Nat.and_lt_two_pow _ (by decide)
  have h := hand (tt.mem.tensixReadCfg 69 + 1)
  change ((tt.mem.tensixReadCfg 69 + 1 &&& 0x1FFFF) <<< 4).toNat < 2 ^ 21
  rw [BitVec.toNat_shiftLeft, Nat.shiftLeft_eq]
  omega

theorem ttpacr_packL1WriteOffset (hdsb : (packPlan tt imm tid).outDsb = 1)
    (hoff : tt.packL1WriteOffset = w32 vals.length) :
    (ttpacr tt imm tid).packL1WriteOffset = w32 (vals ++ pacrValues tt imm tid).length := by
  rw [List.length_append, pacrValues, length_packedBelow, w32_add, w32_mul, w32_toNat, ← numActive_eq, ← hoff]
  dsimp only [ttpacr]
  split_ifs with h
  · rw [hdsb, word_mul_one]
  · have hz : (packPlan tt imm tid).numDatums = 0 := BitVec.eq_of_toNat_eq (by simpa using h)
    simp [hz]

end pacr

end Rv32Emu
