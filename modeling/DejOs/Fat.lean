import DejOs.Base
import DejOs.Lib.Loop

/-!
# Reading a file from a FAT12 image

`fat.c` of the tools: `readSectors`, `readFat`, `readRootDirectory` and `readFile`. The image is a
list of bytes; every read seeks first, so the position of the `FILE` is not kept. Memory from a
pointer on (`g_Fat`, the output buffer) is a function of the offset; nothing checks its end, and
`malloc` is taken to succeed. The size that `readFat` asks it for, `SectorsPerFat * BytesPerSector`,
is a product of `int`s, which overflows from `2 ^ 31` on; the model stores the FAT all the same.

The layout and the packed entries are also given as FAT12 has them (`rootEnd`, `entry12`,
`clusterBytes`), and the code is compared with that: `readFile_chain` says that a file with a valid
chain is read as the contents of its clusters, one after the other.
-/

namespace DejOs.Fat

open Loop

/-! ## The code -/

/-- The fields of `BootSector` that are used. -/
structure BootSector where
  bytesPerSector : BitVec 16
  sectorsPerCluster : Byte
  reservedSectors : BitVec 16
  fatCount : Byte
  dirEntryCount : BitVec 16
  sectorsPerFat : BitVec 16
  deriving DecidableEq, Repr

/-- The fields of `DirectoryEntry` that are used. -/
structure DirectoryEntry where
  firstClusterLow : BitVec 16
  size : BitVec 32
  deriving DecidableEq, Repr

/-- Memory, by the offset from a pointer. -/
abbrev Memory := ℕ → Byte

/-- `bytes` written at `off`. -/
def store (m : Memory) (off : ℕ) (bytes : List Byte) : Memory :=
  fun i => if off ≤ i then (bytes[i - off]?).getD (m i) else m i

/-- `*(uint16_t*)(p + i)` -/
def load16 (m : Memory) (i : ℕ) : BitVec 16 := m (i + 1) ++ m i

/-- `BytesPerSector` in a product with a `uint32_t`. -/
def BootSector.bytes32 (b : BootSector) : BitVec 32 := b.bytesPerSector.setWidth 32

/-- What `fread` gets after `fseek` to the sector `lba`. -/
def sectorBytes (b : BootSector) (image : List Byte) (lba count : BitVec 32) : List Byte :=
  (image.drop (lba * b.bytes32).toNat).take (b.bytesPerSector.toNat * count.toNat)

/-- The number of whole items in what `fread` got. -/
def items (size : ℕ) (bytes : List Byte) : ℕ := if size = 0 then 0 else bytes.length / size

/-- `readSectors`, with what it puts into the buffer. -/
def readSectors (b : BootSector) (image : List Byte) (lba count : BitVec 32) : Bool × List Byte :=
  let bytes := sectorBytes b image lba count
  (items b.bytesPerSector.toNat bytes = count.toNat, bytes)

/-- The globals, and the image. -/
structure Tool where
  image : List Byte
  bootSector : BootSector
  fat : Memory
  rootDirectory : Memory
  rootDirectoryEnd : BitVec 32

/-- `readFat` -/
def readFat (t : Tool) : Bool × Tool :=
  let b := t.bootSector
  let (ok, bytes) := readSectors b t.image (b.reservedSectors.setWidth 32)
    (b.sectorsPerFat.setWidth 32)
  (ok, { t with fat := store t.fat 0 bytes })

/-- `lba` of `readRootDirectory` -/
def BootSector.rootLba (b : BootSector) : BitVec 32 :=
  b.reservedSectors.setWidth 32 + b.sectorsPerFat.setWidth 32 * b.fatCount.setWidth 32

/-- `sectors` of `readRootDirectory`; a `DirectoryEntry` has 32 bytes. -/
def BootSector.rootSectors (b : BootSector) : BitVec 32 :=
  let size := 32 * b.dirEntryCount.setWidth 32
  let sectors := size / b.bytes32
  if 0 < size % b.bytes32 then sectors + 1 else sectors

/-- `readRootDirectory`; `none` is the division by zero. -/
def readRootDirectory (t : Tool) : Option (Bool × Tool) :=
  let b := t.bootSector
  if b.bytesPerSector = 0 then none
  else
    let (ok, bytes) := readSectors b t.image b.rootLba b.rootSectors
    some (ok, { t with
      rootDirectoryEnd := b.rootLba + b.rootSectors
      rootDirectory := store t.rootDirectory 0 bytes })

/-- The entry of a cluster in the FAT, as `readFile` takes it out. -/
def nextCluster (fat : Memory) (c : BitVec 16) : BitVec 16 :=
  let fatIndex := c.toNat * 3 / 2
  if c.toNat % 2 = 0 then load16 fat fatIndex &&& 0x0FFF else load16 fat fatIndex >>> 4

/-- `g_RootDirectoryEnd + (currentCluster - 2) * g_BootSector.SectorsPerCluster` -/
def clusterLba (t : Tool) (c : BitVec 16) : BitVec 32 :=
  t.rootDirectoryEnd + (c.setWidth 32 - 2) * t.bootSector.sectorsPerCluster.setWidth 32

/-- The variables of `readFile`. -/
structure Reading where
  currentCluster : BitVec 16
  /-- `outputBuffer`, as an offset from where it was at first. -/
  output : ℕ
  buffer : Memory
  /-- The sectors read so far and what was got, the last first. -/
  reads : List (BitVec 32 × List Byte)

/-- The call of `readSectors` for a cluster. -/
def readCluster (t : Tool) (c : BitVec 16) : Bool × List Byte :=
  readSectors t.bootSector t.image (clusterLba t c) (t.bootSector.sectorsPerCluster.setWidth 32)

/-- The size of a cluster. -/
def BootSector.clusterSize (b : BootSector) : ℕ :=
  b.sectorsPerCluster.toNat * b.bytesPerSector.toNat

/-- A round of the loop of `readFile`. `ok` is true at the head of every round. -/
def readRound (t : Tool) (s : Reading) : Reading ⊕ (Bool × Reading) :=
  let (ok, bytes) := readCluster t s.currentCluster
  let s' : Reading :=
    { currentCluster := nextCluster t.fat s.currentCluster
      output := s.output + t.bootSector.clusterSize
      buffer := store s.buffer s.output bytes
      reads := (clusterLba t s.currentCluster, bytes) :: s.reads }
  if ok ∧ s'.currentCluster < 0x0FF8 then .inl s' else .inr (ok, s')

/-- `readFile`, before its loop. -/
def readStart (entry : DirectoryEntry) (buffer : Memory) : Reading :=
  ⟨entry.firstClusterLow, 0, buffer, []⟩

/-- `readFile` returns `ok`, with these variables. -/
def ReadFile (t : Tool) (entry : DirectoryEntry) (buffer : Memory) (ok : Bool) (s : Reading) :
    Prop :=
  Returns (readRound t) (readStart entry buffer) (ok, s)

/-- The size that `main` allocates for the buffer. -/
def bufferSize (b : BootSector) (entry : DirectoryEntry) : BitVec 32 := entry.size + b.bytes32

/-! ## FAT12 -/

/-- The bits of the FAT, in a row. -/
def fatBit (fat : Memory) (k : ℕ) : Bool := (fat (k / 8)).getLsbD (k % 8)

/-- The entry of cluster `c`: the 12 bits from bit `12 * c` on. -/
def entry12 (fat : Memory) (c : ℕ) : BitVec 16 :=
  (BitVec.ofBoolListLE ((List.range 12).map fun i => fatBit fat (12 * c + i))).setWidth 16

/-- The first sector behind the root directory. -/
def rootEnd (b : BootSector) : ℕ :=
  b.reservedSectors.toNat + b.sectorsPerFat.toNat * b.fatCount.toNat +
    (32 * b.dirEntryCount.toNat + b.bytesPerSector.toNat - 1) / b.bytesPerSector.toNat

/-- The first sector of a cluster. -/
def clusterSector (b : BootSector) (c : ℕ) : ℕ := rootEnd b + (c - 2) * b.sectorsPerCluster.toNat

/-- The contents of a cluster. -/
def clusterBytes (b : BootSector) (image : List Byte) (c : ℕ) : List Byte :=
  (image.drop (clusterSector b c * b.bytesPerSector.toNat)).take b.clusterSize

/-- The first copy of the FAT in the image. -/
def imageFat (b : BootSector) (image : List Byte) : Memory :=
  fun i => (image[b.reservedSectors.toNat * b.bytesPerSector.toNat + i]?).getD 0

/-- The clusters that can hold data. -/
def IsDataCluster (c : ℕ) : Prop := 2 ≤ c ∧ c ≤ 0xFEF

/-- A cluster's sectors are in the image. -/
def Inside (b : BootSector) (image : List Byte) (c : ℕ) : Prop :=
  clusterSector b c * b.bytesPerSector.toNat + b.clusterSize ≤ image.length

instance (c : ℕ) : Decidable (IsDataCluster c) := inferInstanceAs (Decidable (_ ∧ _))

instance (b : BootSector) (image : List Byte) (c : ℕ) : Decidable (Inside b image c) :=
  inferInstanceAs (Decidable (_ ≤ _))

/-- The entries of the clusters lead from one to the next, and the last ends the chain. -/
def Linked (fat : Memory) : BitVec 16 → List (BitVec 16) → Prop
  | c, [] => 0xFF8 ≤ entry12 fat c.toNat
  | c, c' :: cs => entry12 fat c.toNat = c' ∧ Linked fat c' cs

instance decidableLinked (fat : Memory) : ∀ c cs, Decidable (Linked fat c cs)
  | _, [] => inferInstanceAs (Decidable (_ ≤ _))
  | _, c' :: cs =>
    have := decidableLinked fat c' cs
    inferInstanceAs (Decidable (_ ∧ _))

/-- The clusters `c :: cs` are a file. -/
structure ValidChain (b : BootSector) (image : List Byte) (fat : Memory) (c : BitVec 16)
    (cs : List (BitVec 16)) : Prop where
  data : ∀ x ∈ c :: cs, IsDataCluster x.toNat
  nodup : (c :: cs).Nodup
  inside : ∀ x ∈ c :: cs, Inside b image x.toNat
  linked : Linked fat c cs

/-- The FAT and the root directory are in the image. -/
structure Consistent (b : BootSector) (image : List Byte) : Prop where
  bytes : b.bytesPerSector ≠ 0
  sectors : b.sectorsPerCluster ≠ 0
  fat : (b.reservedSectors.toNat + b.sectorsPerFat.toNat) * b.bytesPerSector.toNat ≤ image.length
  root : rootEnd b * b.bytesPerSector.toNat ≤ image.length

theorem IsDataCluster.lt_end {c : BitVec 16} (h : IsDataCluster c.toNat) : c < 0xFF8 := by
  rw [BitVec.lt_def]
  exact lt_of_le_of_lt h.2 (by decide)

/-! ## The packed entries -/

theorem getLsbD_entry12 (fat : Memory) (c i : ℕ) :
    (entry12 fat c).getLsbD i = (decide (i < 12) && fatBit fat (12 * c + i)) := by
  unfold entry12
  rw [BitVec.getLsbD_setWidth, BitVec.getLsbD_ofBoolListLE]
  by_cases hi : i < 12
  · simp [hi, show i < 16 by omega]
  · simp [hi]

theorem getLsbD_load16 (m : Memory) (k i : ℕ) : (load16 m k).getLsbD i =
    if i < 8 then (m k).getLsbD i else (m (k + 1)).getLsbD (i - 8) := BitVec.getLsbD_append

/-- Even and odd entries are taken out alike. -/
theorem nextCluster_eq (fat : Memory) (c : BitVec 16) :
    nextCluster fat c = entry12 fat c.toNat := by
  apply BitVec.eq_of_getLsbD_eq
  intro i hi
  have hmask : (0x0FFF : BitVec 16).getLsbD i = decide (i < 12) := by
    interval_cases i <;> rfl
  rw [getLsbD_entry12]
  unfold nextCluster fatBit
  dsimp only
  split_ifs with heven
  · -- bit `12 * c` begins a byte
    rw [BitVec.getLsbD_and, getLsbD_load16, hmask, Bool.and_comm]
    by_cases hi' : i < 12
    · rw [decide_eq_true hi', Bool.true_and, Bool.true_and]
      split_ifs with hlow
      · rw [show (12 * c.toNat + i) / 8 = c.toNat * 3 / 2 by omega,
          show (12 * c.toNat + i) % 8 = i by omega]
      · rw [show (12 * c.toNat + i) / 8 = c.toNat * 3 / 2 + 1 by omega,
          show (12 * c.toNat + i) % 8 = i - 8 by omega]
    · rw [decide_eq_false hi', Bool.false_and, Bool.false_and]
  · -- it is in the middle of one
    rw [BitVec.getLsbD_ushiftRight, getLsbD_load16]
    by_cases hi' : i < 12
    · rw [decide_eq_true hi', Bool.true_and]
      split_ifs with hlow
      · rw [show (12 * c.toNat + i) / 8 = c.toNat * 3 / 2 by omega,
          show (12 * c.toNat + i) % 8 = 4 + i by omega]
      · rw [show (12 * c.toNat + i) / 8 = c.toNat * 3 / 2 + 1 by omega,
          show (12 * c.toNat + i) % 8 = 4 + i - 8 by omega]
    · rw [if_neg (by omega), BitVec.getLsbD_of_ge _ _ (by omega), decide_eq_false hi',
        Bool.false_and]

/-- An entry depends on the FAT up to its own end. -/
theorem entry12_congr {fat fat' : Memory} {c n : ℕ} (hn : 12 * (c + 1) ≤ 8 * n)
    (h : ∀ i < n, fat i = fat' i) : entry12 fat c = entry12 fat' c := by
  apply BitVec.eq_of_getLsbD_eq
  intro i hi
  rw [getLsbD_entry12, getLsbD_entry12]
  by_cases hi' : i < 12
  · unfold fatBit
    rw [h _ (by omega)]
  · rw [decide_eq_false hi', Bool.false_and, Bool.false_and]

/-! ## Memory -/

theorem store_store (m : Memory) (off : ℕ) (bytes bytes' : List Byte) :
    store (store m off bytes) (off + bytes.length) bytes' = store m off (bytes ++ bytes') := by
  funext i
  unfold store
  split_ifs with hend hoff hoff
  · have hsub : i - off - bytes.length = i - (off + bytes.length) := by omega
    rw [List.getElem?_append_right (by omega), hsub, List.getElem?_eq_none (by omega : _ ≤ i - off)]
    rfl
  · omega
  · rw [List.getElem?_append_left (by omega)]
  · rfl

theorem store_apply {m : Memory} {i : ℕ} {bytes : List Byte} (off : ℕ) (h : i < bytes.length) :
    store m off bytes (off + i) = bytes[i] := by
  unfold store
  rw [if_pos (Nat.le_add_right _ _), Nat.add_sub_cancel_left, List.getElem?_eq_getElem h]
  rfl

/-! ## Sectors -/

section Sectors

variable {b : BootSector} {image : List Byte} {lba count : BitVec 32}

theorem toNat_word (x : BitVec 16) : (x.setWidth 32).toNat = x.toNat :=
  BitVec.toNat_setWidth_of_le (by decide)

theorem toNat_byte (x : Byte) : (x.setWidth 32).toNat = x.toNat :=
  BitVec.toNat_setWidth_of_le (by decide)

theorem BootSector.bytes_pos (b : BootSector) (hb : b.bytesPerSector ≠ 0) :
    0 < b.bytesPerSector.toNat :=
  Nat.pos_of_ne_zero fun e => hb (BitVec.eq_of_toNat_eq e)

theorem BootSector.bytes32_toNat (b : BootSector) : b.bytes32.toNat = b.bytesPerSector.toNat :=
  toNat_word _

theorem readSectors_inside (hb : b.bytesPerSector ≠ 0)
    (h : (lba * b.bytes32).toNat + b.bytesPerSector.toNat * count.toNat ≤ image.length) :
    readSectors b image lba count = (true, sectorBytes b image lba count) ∧
      (sectorBytes b image lba count).length = b.bytesPerSector.toNat * count.toNat := by
  have hpos := b.bytes_pos hb
  have hlen : (sectorBytes b image lba count).length = b.bytesPerSector.toNat * count.toNat := by
    unfold sectorBytes
    rw [List.length_take, List.length_drop]
    omega
  refine ⟨?_, hlen⟩
  unfold readSectors items
  dsimp only
  rw [hlen, if_neg (by omega), Nat.mul_div_cancel_left _ hpos]
  simp

theorem getElem_sectorBytes {i : ℕ} (h : i < (sectorBytes b image lba count).length) :
    (sectorBytes b image lba count)[i] = (image[(lba * b.bytes32).toNat + i]?).getD 0 := by
  unfold sectorBytes at h ⊢
  rw [List.length_take, List.length_drop] at h
  rw [List.getElem_take, List.getElem_drop, List.getElem?_eq_getElem (by omega)]
  rfl

theorem offset_toNat (b : BootSector) (lba : BitVec 32) :
    (lba * b.bytes32).toNat = lba.toNat * b.bytesPerSector.toNat % 2 ^ 32 := by
  rw [BitVec.toNat_mul, b.bytes32_toNat]

end Sectors

/-! ## The layout -/

section Layout

variable {t t' : Tool} {ok : Bool} {c : BitVec 16}

theorem readFat_inside (hb : t.bootSector.bytesPerSector ≠ 0)
    (h : (t.bootSector.reservedSectors.toNat + t.bootSector.sectorsPerFat.toNat) *
      t.bootSector.bytesPerSector.toNat ≤ t.image.length) :
    ∃ fat, readFat t = (true, { t with fat := fat }) ∧
      ∀ i < t.bootSector.sectorsPerFat.toNat * t.bootSector.bytesPerSector.toNat,
        fat i = imageFat t.bootSector t.image i := by
  obtain ⟨image, b, m, root, rend⟩ := t
  dsimp only at hb h ⊢
  have hcount : (b.sectorsPerFat.setWidth 32).toNat = b.sectorsPerFat.toNat := toNat_word _
  have hoff : (b.reservedSectors.setWidth 32 * b.bytes32).toNat =
      b.reservedSectors.toNat * b.bytesPerSector.toNat := by
    have hlt : b.reservedSectors.toNat * b.bytesPerSector.toNat < 2 ^ 16 * 2 ^ 16 :=
      Nat.mul_lt_mul'' b.reservedSectors.isLt b.bytesPerSector.isLt
    rw [offset_toNat, toNat_word]
    exact Nat.mod_eq_of_lt (hlt.trans_eq (by norm_num))
  have hin : (b.reservedSectors.setWidth 32 * b.bytes32).toNat +
      b.bytesPerSector.toNat * (b.sectorsPerFat.setWidth 32).toNat ≤ image.length := by
    rw [hoff, hcount, Nat.mul_comm b.bytesPerSector.toNat, ← Nat.add_mul]
    exact h
  obtain ⟨hread, hlen⟩ := readSectors_inside hb hin
  refine ⟨_, by unfold readFat; dsimp only; rw [hread], fun i hi => ?_⟩
  rw [hcount, Nat.mul_comm] at hlen
  have happly := store_apply (m := m) 0 (hi.trans_eq hlen.symm)
  rw [Nat.zero_add] at happly
  rw [happly]
  unfold imageFat
  rw [← hoff]
  exact getElem_sectorBytes _

theorem rootLba_toNat (b : BootSector) : b.rootLba.toNat =
    b.reservedSectors.toNat + b.sectorsPerFat.toNat * b.fatCount.toNat := by
  have hmul : b.sectorsPerFat.toNat * b.fatCount.toNat < 2 ^ 16 * 2 ^ 8 :=
    Nat.mul_lt_mul'' b.sectorsPerFat.isLt b.fatCount.isLt
  have hres := b.reservedSectors.isLt
  unfold BootSector.rootLba
  rw [BitVec.toNat_add, BitVec.toNat_mul, toNat_word, toNat_word, toNat_byte]
  omega

theorem div_round_up {n d : ℕ} (hd : 0 < d) :
    (n + d - 1) / d = if 0 < n % d then n / d + 1 else n / d := by
  have hn := Nat.div_add_mod n d
  have hr := Nat.mod_lt n hd
  have hcomm : d * (n / d) = n / d * d := Nat.mul_comm _ _
  split_ifs with hpos
  · refine Nat.div_eq_of_lt_le ?_ ?_
    · rw [Nat.add_mul]
      omega
    · rw [Nat.succ_mul, Nat.add_mul]
      omega
  · refine Nat.div_eq_of_lt_le (by omega) ?_
    rw [Nat.succ_mul]
    omega

/-- The sectors of the root directory, rounded up. -/
theorem rootSectors_toNat (b : BootSector) (hb : b.bytesPerSector ≠ 0) : b.rootSectors.toNat =
    (32 * b.dirEntryCount.toNat + b.bytesPerSector.toNat - 1) / b.bytesPerSector.toNat := by
  have hpos := b.bytes_pos hb
  have hdir := b.dirEntryCount.isLt
  have hsize : (32 * b.dirEntryCount.setWidth 32 : BitVec 32).toNat =
      32 * b.dirEntryCount.toNat := by
    rw [BitVec.toNat_mul, toNat_word]
    show 32 * _ % 2 ^ 32 = _
    omega
  have hdiv : 32 * b.dirEntryCount.toNat / b.bytesPerSector.toNat ≤ 32 * b.dirEntryCount.toNat :=
    Nat.div_le_self _ _
  have hmod : 0 < 32 * b.dirEntryCount.setWidth 32 % b.bytes32 ↔
      0 < 32 * b.dirEntryCount.toNat % b.bytesPerSector.toNat := by
    rw [BitVec.lt_def, BitVec.toNat_umod, hsize, b.bytes32_toNat]
    rfl
  have hquot : (32 * b.dirEntryCount.setWidth 32 / b.bytes32 : BitVec 32).toNat =
      32 * b.dirEntryCount.toNat / b.bytesPerSector.toNat := by
    rw [BitVec.toNat_udiv, hsize, b.bytes32_toNat]
  rw [div_round_up hpos]
  unfold BootSector.rootSectors
  simp only [hmod]
  generalize 32 * b.dirEntryCount.toNat / b.bytesPerSector.toNat = q at hdiv hquot ⊢
  split_ifs
  · rw [BitVec.toNat_add, hquot]
    show (q + 1) % 2 ^ 32 = q + 1
    omega
  · exact hquot

theorem rootEnd_lt (b : BootSector) (hb : b.bytesPerSector ≠ 0) : rootEnd b < 2 ^ 25 := by
  have hpos := b.bytes_pos hb
  have hmul : b.sectorsPerFat.toNat * b.fatCount.toNat < 2 ^ 16 * 2 ^ 8 :=
    Nat.mul_lt_mul'' b.sectorsPerFat.isLt b.fatCount.isLt
  have hres := b.reservedSectors.isLt
  have hdir := b.dirEntryCount.isLt
  have hdiv : 32 * b.dirEntryCount.toNat / b.bytesPerSector.toNat ≤ 32 * b.dirEntryCount.toNat :=
    Nat.div_le_self _ _
  unfold rootEnd
  rw [div_round_up hpos]
  split_ifs <;> omega

theorem rootDirectoryEnd_toNat (b : BootSector) (hb : b.bytesPerSector ≠ 0) :
    (b.rootLba + b.rootSectors).toNat = rootEnd b := by
  have hlt := rootEnd_lt b hb
  rw [BitVec.toNat_add, rootLba_toNat, rootSectors_toNat b hb]
  exact Nat.mod_eq_of_lt (hlt.trans (by norm_num))

/-- The tool knows where the data begins. -/
structure Located (t : Tool) : Prop where
  bytes : t.bootSector.bytesPerSector ≠ 0
  root : t.rootDirectoryEnd.toNat = rootEnd t.bootSector

theorem Located.root_lt (h : Located t) : t.rootDirectoryEnd.toNat < 2 ^ 25 := by
  rw [h.root]
  exact rootEnd_lt _ h.bytes

theorem readRootDirectory_end (h : readRootDirectory t = some (ok, t')) :
    Located t' ∧ t'.image = t.image ∧ t'.bootSector = t.bootSector ∧ t'.fat = t.fat := by
  unfold readRootDirectory at h
  dsimp only at h
  split_ifs at h with hb
  cases h
  exact ⟨⟨hb, rootDirectoryEnd_toNat _ hb⟩, rfl, rfl, rfl⟩

theorem readRootDirectory_inside (hb : t.bootSector.bytesPerSector ≠ 0)
    (h : rootEnd t.bootSector * t.bootSector.bytesPerSector.toNat ≤ t.image.length)
    (hlen : t.image.length < 2 ^ 32) : ∃ t', readRootDirectory t = some (true, t') := by
  obtain ⟨image, b, m, root, rend⟩ := t
  dsimp only at hb h hlen
  have hend := rootDirectoryEnd_toNat b hb
  have hadd : b.rootLba.toNat + b.rootSectors.toNat = rootEnd b := by
    rw [rootLba_toNat, rootSectors_toNat b hb]
    rfl
  have hin : (b.rootLba * b.bytes32).toNat + b.bytesPerSector.toNat * b.rootSectors.toNat ≤
      image.length := by
    rw [← hadd, Nat.add_mul] at h
    rw [offset_toNat, Nat.mul_comm b.bytesPerSector.toNat, Nat.mod_eq_of_lt (by omega)]
    exact h
  obtain ⟨hread, -⟩ := readSectors_inside hb hin
  unfold readRootDirectory
  dsimp only
  rw [if_neg hb, hread]
  exact ⟨_, rfl⟩

theorem clusterLba_mod (t : Tool) (c : BitVec 16) : (clusterLba t c).toNat =
    (t.rootDirectoryEnd.toNat + (2 ^ 32 - 2 + c.toNat) % 2 ^ 32 *
      t.bootSector.sectorsPerCluster.toNat) % 2 ^ 32 := by
  unfold clusterLba
  rw [BitVec.toNat_add, BitVec.toNat_mul, BitVec.toNat_sub, toNat_word, toNat_byte,
    Nat.add_mod_mod]
  rfl

/-- The first sector of a data cluster is computed without wrapping. -/
theorem clusterLba_toNat (hend : t.rootDirectoryEnd.toNat < 2 ^ 25) (hc : 2 ≤ c.toNat) :
    (clusterLba t c).toNat =
      t.rootDirectoryEnd.toNat + (c.toNat - 2) * t.bootSector.sectorsPerCluster.toNat := by
  have hc16 := c.isLt
  have hmul : (c.toNat - 2) * t.bootSector.sectorsPerCluster.toNat ≤ 2 ^ 16 * 2 ^ 8 :=
    Nat.mul_le_mul (by omega) t.bootSector.sectorsPerCluster.isLt.le
  have hsub : (2 ^ 32 - 2 + c.toNat) % 2 ^ 32 = c.toNat - 2 := by omega
  rw [clusterLba_mod, hsub]
  exact Nat.mod_eq_of_lt (by omega)

end Layout

/-! ## The loop of `readFile` -/

section Rounds

variable {t : Tool} {c : BitVec 16} {cs : List (BitVec 16)}

/-- `fseek` gets this for the cluster. -/
def clusterOffset (t : Tool) (c : BitVec 16) : ℕ := (clusterLba t c * t.bootSector.bytes32).toNat

/-- The sectors of the cluster, as the code counts them, are in the image. -/
def Readable (t : Tool) (c : BitVec 16) : Prop :=
  t.bootSector.sectorsPerCluster = 0 ∨ (t.bootSector.bytesPerSector ≠ 0 ∧
    clusterOffset t c + t.bootSector.clusterSize ≤ t.image.length)

instance (t : Tool) (c : BitVec 16) : Decidable (Readable t c) :=
  inferInstanceAs (Decidable (_ ∨ _))

theorem length_readCluster (t : Tool) (c : BitVec 16) : (readCluster t c).2.length =
    min t.bootSector.clusterSize (t.image.length - clusterOffset t c) := by
  unfold readCluster readSectors sectorBytes BootSector.clusterSize
  dsimp only
  rw [List.length_take, List.length_drop, toNat_byte, Nat.mul_comm]
  rfl

theorem readCluster_ok_iff : (readCluster t c).1 = true ↔ Readable t c := by
  have hlen := length_readCluster t c
  have hok : (readCluster t c).1 = true ↔ items t.bootSector.bytesPerSector.toNat
      (readCluster t c).2 = t.bootSector.sectorsPerCluster.toNat := by
    unfold readCluster readSectors
    dsimp only
    rw [decide_eq_true_iff, toNat_byte]
  have hzero : t.bootSector.sectorsPerCluster = 0 ↔
      t.bootSector.sectorsPerCluster.toNat = 0 := BitVec.toNat_eq
  rw [hok]
  unfold items Readable BootSector.clusterSize at *
  rw [hlen, hzero]
  by_cases hb : t.bootSector.bytesPerSector = 0
  · simp [hb, eq_comm]
  · have hpos := t.bootSector.bytes_pos hb
    generalize t.bootSector.bytesPerSector.toNat = p at hpos ⊢
    generalize t.bootSector.sectorsPerCluster.toNat = k at hlen ⊢
    have hle : min (k * p) (t.image.length - clusterOffset t c) / p ≤ k :=
      Nat.div_le_of_le_mul (by rw [Nat.mul_comm p]; exact Nat.min_le_left _ _)
    rw [if_neg (by omega)]
    constructor
    · intro h
      have hmul := (Nat.le_div_iff_mul_le hpos).mp h.ge
      rcases Nat.eq_zero_or_pos k with hk | hk
      · exact Or.inl hk
      · have hkp := Nat.mul_pos hk hpos
        exact Or.inr ⟨hb, by omega⟩
    · intro h
      refine Nat.le_antisymm hle ((Nat.le_div_iff_mul_le hpos).mpr ?_)
      rcases h with rfl | ⟨-, h⟩
      · rw [Nat.zero_mul]
        exact Nat.zero_le _
      · omega

theorem Readable.length (h : Readable t c) :
    (readCluster t c).2.length = t.bootSector.clusterSize := by
  rw [length_readCluster]
  rcases h with h | ⟨-, h⟩
  · unfold BootSector.clusterSize
    rw [h]
    simp
  · omega

/-- The variables after a round at `s`. -/
def afterRound (t : Tool) (s : Reading) : Reading :=
  { currentCluster := entry12 t.fat s.currentCluster.toNat
    output := s.output + t.bootSector.clusterSize
    buffer := store s.buffer s.output (readCluster t s.currentCluster).2
    reads := (clusterLba t s.currentCluster, (readCluster t s.currentCluster).2) :: s.reads }

theorem readRound_eq (t : Tool) (s : Reading) : readRound t s =
    if Readable t s.currentCluster ∧ entry12 t.fat s.currentCluster.toNat < 0xFF8 then
      .inl (afterRound t s)
    else .inr (decide (Readable t s.currentCluster), afterRound t s) := by
  have hok : (readCluster t s.currentCluster).1 = decide (Readable t s.currentCluster) := by
    rw [Bool.eq_iff_iff, readCluster_ok_iff, decide_eq_true_iff]
  unfold readRound afterRound
  dsimp only
  rw [nextCluster_eq, hok]
  simp only [decide_eq_true_iff]

/-- **A chain is read to its end.** -/
theorem returns_chain (hdata : ∀ x ∈ cs, IsDataCluster x.toNat)
    (hread : ∀ x ∈ c :: cs, Readable t x) (hlink : Linked t.fat c cs) (off : ℕ) (buffer : Memory)
    (reads : List (BitVec 32 × List Byte)) :
    ∃ s, Returns (readRound t) ⟨c, off, buffer, reads⟩ (true, s) ∧
      s.buffer = store buffer off ((c :: cs).flatMap fun x => (readCluster t x).2) ∧
      s.reads =
        ((c :: cs).map fun x => (clusterLba t x, (readCluster t x).2)).reverse ++ reads := by
  have hc := hread c List.mem_cons_self
  induction cs generalizing c off buffer reads with
  | nil =>
    have hround := readRound_eq t ⟨c, off, buffer, reads⟩
    have hlast : ¬ entry12 t.fat c.toNat < 0xFF8 := BitVec.not_lt.mpr hlink
    rw [if_neg fun h => hlast h.2, decide_eq_true hc] at hround
    exact ⟨_, Returns.here hround, by simp [afterRound], rfl⟩
  | cons c' cs ih =>
    obtain ⟨rfl, hlink⟩ := hlink
    have hround := readRound_eq t ⟨c, off, buffer, reads⟩
    have hnext : entry12 t.fat c.toNat < 0xFF8 := (hdata _ List.mem_cons_self).lt_end
    rw [if_pos ⟨hc, hnext⟩] at hround
    obtain ⟨s, hs, hbuf, hreads⟩ := ih (fun x hx => hdata x (List.mem_cons_of_mem _ hx))
      (fun x hx => hread x (List.mem_cons_of_mem _ hx)) hlink (off + t.bootSector.clusterSize)
      (store buffer off (readCluster t c).2) ((clusterLba t c, (readCluster t c).2) :: reads)
      (hread _ (List.mem_cons_of_mem _ List.mem_cons_self))
    refine ⟨s, Returns.next hround hs, ?_, ?_⟩
    · rw [hbuf, ← hc.length, store_store]
      rfl
    · rw [hreads]
      simp

/-- The code's offset of a data cluster, which wraps at `2 ^ 32`. -/
theorem clusterOffset_eq (hloc : Located t) (hc : IsDataCluster c.toNat) : clusterOffset t c =
    clusterSector t.bootSector c.toNat * t.bootSector.bytesPerSector.toNat % 2 ^ 32 := by
  unfold clusterOffset clusterSector
  rw [offset_toNat, clusterLba_toNat hloc.root_lt hc.1, hloc.root]

theorem Inside.readable (h : Inside t.bootSector t.image c.toNat) (hloc : Located t)
    (hc : IsDataCluster c.toNat) : Readable t c := by
  have hmod := Nat.mod_le
    (clusterSector t.bootSector c.toNat * t.bootSector.bytesPerSector.toNat) (2 ^ 32)
  unfold Inside at h
  refine Or.inr ⟨hloc.bytes, ?_⟩
  rw [clusterOffset_eq hloc hc]
  omega

/-- Below 4 GiB a cluster is read where it is. -/
theorem readCluster_bytes (h : Inside t.bootSector t.image c.toNat) (hloc : Located t)
    (hc : IsDataCluster c.toNat) (hsize : t.image.length < 2 ^ 32) :
    (readCluster t c).2 = clusterBytes t.bootSector t.image c.toNat := by
  have hoff := clusterOffset_eq hloc hc
  unfold Inside at h
  rw [Nat.mod_eq_of_lt (by omega)] at hoff
  unfold readCluster readSectors sectorBytes clusterBytes BootSector.clusterSize
  dsimp only
  rw [toNat_byte, Nat.mul_comm t.bootSector.bytesPerSector.toNat, ← hoff]
  rfl

theorem Linked.congr {fat fat' : Memory} {n : ℕ} (h : Linked fat c cs)
    (hfit : ∀ x ∈ c :: cs, 12 * (x.toNat + 1) ≤ 8 * n) (hfat : ∀ i < n, fat i = fat' i) :
    Linked fat' c cs := by
  have hentry := entry12_congr (hfit c List.mem_cons_self) hfat
  induction cs generalizing c with
  | nil =>
    unfold Linked at h ⊢
    rwa [← hentry]
  | cons c' cs ih =>
    have hfit' := fun x hx => hfit x (List.mem_cons_of_mem _ hx)
    refine ⟨hentry ▸ h.1, ih h.2 hfit' (entry12_congr (hfit' c' List.mem_cons_self) hfat)⟩

end Rounds

/-- **A file with a valid chain is read.** Of an image below 4 GiB, `readFat`, `readRootDirectory`
and `readFile` succeed, and the buffer gets the contents of the clusters of the chain, one after
the other. -/
theorem readFile_chain (t : Tool) (entry : DirectoryEntry) (buffer : Memory)
    (cs : List (BitVec 16)) (hcons : Consistent t.bootSector t.image)
    (hsize : t.image.length < 2 ^ 32)
    (hchain : ValidChain t.bootSector t.image (imageFat t.bootSector t.image)
      entry.firstClusterLow cs)
    (hfit : ∀ x ∈ entry.firstClusterLow :: cs, 12 * (x.toNat + 1) ≤
      8 * (t.bootSector.sectorsPerFat.toNat * t.bootSector.bytesPerSector.toNat)) :
    ∃ t₁ t₂ s, readFat t = (true, t₁) ∧ readRootDirectory t₁ = some (true, t₂) ∧
      ReadFile t₂ entry buffer true s ∧
      s.buffer = store buffer 0 ((entry.firstClusterLow :: cs).flatMap fun x =>
        clusterBytes t.bootSector t.image x.toNat) := by
  obtain ⟨fat, hfat, hsame⟩ := readFat_inside hcons.bytes hcons.fat
  obtain ⟨t₂, ht₂⟩ := readRootDirectory_inside (t := { t with fat := fat }) hcons.bytes hcons.root
    hsize
  obtain ⟨hloc, himage, hboot, hfat₂⟩ := readRootDirectory_end ht₂
  dsimp only at himage hboot hfat₂
  have hlink : Linked t₂.fat entry.firstClusterLow cs :=
    hfat₂ ▸ hchain.linked.congr hfit fun i hi => (hsame i hi).symm
  rw [← himage, ← hboot] at hchain
  have hread : ∀ x ∈ entry.firstClusterLow :: cs, Readable t₂ x := fun x hx =>
    (hchain.inside x hx).readable hloc (hchain.data x hx)
  obtain ⟨s, hs, hbuf, -⟩ := returns_chain (fun x hx => hchain.data x (List.mem_cons_of_mem _ hx))
    hread hlink 0 buffer []
  refine ⟨_, t₂, s, hfat, ht₂, hs, ?_⟩
  rw [hbuf, ← hboot, ← himage]
  congr 1
  exact List.flatMap_congr fun x hx =>
    readCluster_bytes (hchain.inside x hx) hloc (hchain.data x hx) (himage ▸ hsize)

/-- A disk with 4 bytes in a sector: a boot sector, a FAT of two sectors, an entry in the root
directory, and the clusters 2, 3 and 4. Cluster 3 leads to cluster 2. -/
def smallDisk : Tool where
  image := [0, 0, 0, 0] ++ [0xF0, 0xFF, 0xFF, 0xFF, 0x2F, 0, 0, 0] ++ List.replicate 32 0 ++
    [5, 6, 7, 8] ++ [1, 2, 3, 4] ++ [0, 0, 0, 0]
  bootSector := ⟨4, 1, 1, 1, 1, 2⟩
  fat := fun _ => 0
  rootDirectory := fun _ => 0
  rootDirectoryEnd := 0

theorem readFile_chain_small : ∃ t₁ t₂ s, readFat smallDisk = (true, t₁) ∧
    readRootDirectory t₁ = some (true, t₂) ∧ ReadFile t₂ ⟨3, 7⟩ (fun _ => 0) true s ∧
    s.buffer = store (fun _ => 0) 0 [1, 2, 3, 4, 5, 6, 7, 8] := by
  have hall : ∀ {P : BitVec 16 → Prop}, P 3 → P 2 → ∀ x ∈ [(3 : BitVec 16), 2], P x :=
    fun h3 h2 => List.forall_mem_cons.mpr ⟨h3, List.forall_mem_singleton.mpr h2⟩
  have hcons : Consistent smallDisk.bootSector smallDisk.image :=
    ⟨by decide, by decide, by decide, by decide⟩
  have hchain : ValidChain smallDisk.bootSector smallDisk.image
      (imageFat smallDisk.bootSector smallDisk.image) 3 [2] :=
    ⟨hall (by decide) (by decide), by decide, hall (by decide) (by decide), by decide⟩
  exact readFile_chain smallDisk ⟨3, 7⟩ (fun _ => 0) [2] hcons (by decide) hchain
    (hall (by decide) (by decide))

end DejOs.Fat
