import DejOs.Fat

/-!
# Chains that are not checked

`readFile` follows the entries of the FAT as it finds them. `follow` is the step from a cluster to
the one that is read next; the heads of the rounds of `readFile` are its orbit (`heads_map`). What
the code misses is read off that orbit: the loop ends exactly when the chain does not come back to a
cluster (`readFile_halts_iff`), and it keeps to the data clusters exactly when the chain does, or
when it leaves the image at once (`readFile_data_iff`). Last, the buffer of `main` is compared with
what is written into it (`readFile_fits_iff`).
-/

namespace DejOs.Fat

open Loop

/-! ## The chain that is followed -/

/-- The cluster that is read after `c`, if there is one. -/
def follow (t : Tool) (c : BitVec 16) : Option (BitVec 16) :=
  if Readable t c ∧ entry12 t.fat c.toNat < 0xFF8 then some (entry12 t.fat c.toNat) else none

/-- The sector is one of a data cluster. -/
def InDataCluster (b : BootSector) (sector : ℕ) : Prop :=
  ∃ c, IsDataCluster c ∧ clusterSector b c ≤ sector ∧
    sector < clusterSector b c + b.sectorsPerCluster.toNat

/-- The bytes written into the buffer, counted. -/
def Reading.written (s : Reading) : ℕ := (s.reads.map fun r => r.2.length).sum

section Follow

variable {t : Tool} {entry : DirectoryEntry} {buffer : Memory} {s : Reading} {n : ℕ}

theorem again_readRound_map (t : Tool) (s : Reading) :
    (again (readRound t) s).map Reading.currentCluster = follow t s.currentCluster := by
  unfold again follow
  rw [readRound_eq]
  split_ifs <;> rfl

/-- The heads of the rounds follow the chain. -/
theorem heads_map (t : Tool) (entry : DirectoryEntry) (buffer : Memory) (n : ℕ) :
    (orbit (again (readRound t)) n (readStart entry buffer)).map Reading.currentCluster =
      orbit (follow t) n entry.firstClusterLow :=
  orbit_map (again_readRound_map t) n

theorem follow_linked {c : BitVec 16} {cs : List (BitVec 16)}
    (hdata : ∀ x ∈ cs, IsDataCluster x.toNat) (hread : ∀ x ∈ c :: cs, Readable t x)
    (hlink : Linked t.fat c cs) (n : ℕ) : orbit (follow t) n c = (c :: cs)[n]? := by
  induction n generalizing c cs with
  | zero => rfl
  | succ n ih =>
    cases cs with
    | nil =>
      have hlast : ¬ entry12 t.fat c.toNat < 0xFF8 := BitVec.not_lt.mpr hlink
      have hfollow : follow t c = none := if_neg fun h => hlast h.2
      rw [orbit_succ, hfollow]
      rfl
    | cons c' cs =>
      obtain ⟨rfl, hlink⟩ := hlink
      have hnext : entry12 t.fat c.toNat < 0xFF8 := (hdata _ List.mem_cons_self).lt_end
      have hfollow : follow t c = some (entry12 t.fat c.toNat) :=
        if_pos ⟨hread c List.mem_cons_self, hnext⟩
      rw [orbit_of_some n hfollow, List.getElem?_cons_succ]
      exact ih (fun x hx => hdata x (List.mem_cons_of_mem _ hx))
        (fun x hx => hread x (List.mem_cons_of_mem _ hx)) hlink

theorem halts_iff_follow : Halts (readRound t) (readStart entry buffer) ↔
    ∃ n, orbit (follow t) n entry.firstClusterLow = none := by
  rw [halts_iff]
  refine exists_congr fun n => ?_
  rw [← heads_map t entry buffer, Option.map_eq_none_iff]

end Follow

/-- **When `readFile` ends.** Exactly when the chain, followed as far as its clusters can be read,
comes to no cluster twice. -/
theorem readFile_halts_iff (t : Tool) (entry : DirectoryEntry) (buffer : Memory) :
    Halts (readRound t) (readStart entry buffer) ↔
      ∀ i j c, i < j → orbit (follow t) i entry.firstClusterLow = some c →
        orbit (follow t) j entry.firstClusterLow ≠ some c := by
  have : Finite (BitVec 16) := Finite.of_injective BitVec.toFin fun _ _ => BitVec.eq_of_toFin_eq
  rw [halts_iff_follow, ends_iff]

/-! ## A floppy -/

/-- Sectors of 512 bytes, a FAT of one sector and a root directory of one. -/
def floppyBoot (sectorsPerCluster : Byte) : BootSector := ⟨512, sectorsPerCluster, 1, 1, 16, 1⟩

/-- A disk with 512 bytes in a sector: the boot sector, a FAT of one sector, a root directory of
one, and 8 KiB of data. -/
def floppy (sectorsPerCluster : Byte) (fat : List Byte) : Tool where
  image := List.replicate 512 0 ++ (fat ++ List.replicate (512 - fat.length) 0) ++
    List.replicate 512 0 ++ List.replicate 8192 0
  bootSector := floppyBoot sectorsPerCluster
  fat := fun _ => 0
  rootDirectory := fun _ => 0
  rootDirectoryEnd := 0

section Floppy

variable {k : Byte} {fat : List Byte}

theorem length_floppy (h : fat.length ≤ 512) : (floppy k fat).image.length = 9728 := by
  unfold floppy
  dsimp only
  simp only [List.length_append, List.length_replicate]
  omega

theorem rootEnd_floppyBoot (k : Byte) : rootEnd (floppyBoot k) = 3 := by
  unfold rootEnd floppyBoot
  dsimp only
  decide

theorem fat_floppyBoot (k : Byte) :
    (floppyBoot k).sectorsPerFat.toNat * (floppyBoot k).bytesPerSector.toNat = 512 := by
  unfold floppyBoot
  dsimp only
  decide

theorem bytes_floppyBoot (k : Byte) : (floppyBoot k).bytesPerSector.toNat = 512 := by
  unfold floppyBoot
  dsimp only
  decide

theorem imageFat_floppy {i : ℕ} (h : i < fat.length) :
    imageFat (floppyBoot k) (floppy k fat).image i = fat[i] := by
  have hle : (List.replicate 512 (0 : Byte)).length ≤ 512 + i := by
    rw [List.length_replicate]
    exact Nat.le_add_right _ _
  unfold imageFat floppy
  dsimp only
  rw [bytes_floppyBoot, show (floppyBoot k).reservedSectors.toNat = 1 from rfl, Nat.one_mul,
    List.append_assoc, List.append_assoc, List.getElem?_append_right hle, List.length_replicate,
    Nat.add_sub_cancel_left, List.append_assoc, List.getElem?_append_left h,
    List.getElem?_eq_getElem h]
  rfl

theorem consistent_floppy (hk : k ≠ 0) (h : fat.length ≤ 512) :
    Consistent (floppyBoot k) (floppy k fat).image where
  bytes := by
    show (512 : BitVec 16) ≠ 0
    decide
  sectors := hk
  fat := by
    rw [Nat.add_mul, fat_floppyBoot, bytes_floppyBoot, length_floppy h]
    show 1 * 512 + 512 ≤ 9728
    decide
  root := by
    rw [rootEnd_floppyBoot, bytes_floppyBoot, length_floppy h]
    decide

theorem floppy_ready (hk : k ≠ 0) (h : fat.length ≤ 512) :
    ∃ t₁ t₂, readFat (floppy k fat) = (true, t₁) ∧ readRootDirectory t₁ = some (true, t₂) ∧
      t₂.image.length = 9728 ∧ t₂.bootSector = floppyBoot k ∧ t₂.rootDirectoryEnd = 3 ∧
      ∀ i (hi : i < fat.length), t₂.fat i = fat[i] := by
  have hlen := length_floppy (k := k) h
  have hcons := consistent_floppy hk h
  obtain ⟨m, hm, hsame⟩ := readFat_inside (t := floppy k fat) hcons.bytes hcons.fat
  obtain ⟨t₂, ht₂⟩ := readRootDirectory_inside (t := { floppy k fat with fat := m }) hcons.bytes
    hcons.root (hlen.trans_lt (by decide))
  obtain ⟨hloc, himage, hboot, hfat₂⟩ := readRootDirectory_end ht₂
  have hend : t₂.rootDirectoryEnd.toNat = 3 := by
    rw [hloc.root, hboot]
    exact rootEnd_floppyBoot k
  refine ⟨_, t₂, hm, ht₂, himage ▸ hlen, hboot, BitVec.eq_of_toNat_eq hend, fun i hi => ?_⟩
  rw [hfat₂]
  refine (hsame i ?_).trans (imageFat_floppy hi)
  exact (hi.trans_le h).trans_eq (fat_floppyBoot k).symm

theorem entry12_two (fat : Memory) : entry12 fat 2 = (fat 4 ++ fat 3) &&& 0x0FFF :=
  (nextCluster_eq fat 2).symm

end Floppy

/-- Cluster 2 leads to itself. -/
theorem readFile_cyclic : ∃ t₁ t₂, readFat (floppy 1 [0xF0, 0xFF, 0xFF, 2, 0]) = (true, t₁) ∧
    readRootDirectory t₁ = some (true, t₂) ∧
    ¬ Halts (readRound t₂) (readStart ⟨2, 512⟩ fun _ => 0) := by
  obtain ⟨t₁, t₂, h₁, h₂, hlen, hboot, hend, hfat⟩ :=
    @floppy_ready 1 [0xF0, 0xFF, 0xFF, 2, 0] (by decide) (by decide)
  refine ⟨t₁, t₂, h₁, h₂, ?_⟩
  have hread : Readable t₂ 2 := by
    refine Or.inr ⟨by rw [hboot]; decide, ?_⟩
    unfold clusterOffset clusterLba BootSector.clusterSize BootSector.bytes32
    rw [hend, hboot, hlen]
    decide
  have hself : entry12 t₂.fat 2 = 2 := by
    rw [entry12_two, hfat 3 (by decide), hfat 4 (by decide)]
    rfl
  have hfollow : follow t₂ 2 = some 2 := by
    unfold follow
    rw [show (2 : BitVec 16).toNat = 2 from rfl, hself, if_pos ⟨hread, by decide⟩]
  rw [halts_iff_follow]
  rintro ⟨n, hn⟩
  exact orbit_periodic Nat.one_pos (orbit_zero) ((orbit_of_some 0 hfollow).trans orbit_zero) n hn

/-! ## The data clusters -/

section Data

variable {t : Tool} {ok : Bool} {entry : DirectoryEntry} {buffer : Memory} {c : BitVec 16}

theorem IsDataCluster.sector (hc : IsDataCluster c.toNat) (hloc : Located t) {j : ℕ}
    (hj : j < t.bootSector.sectorsPerCluster.toNat) :
    InDataCluster t.bootSector ((clusterLba t c).toNat + j) := by
  refine ⟨c.toNat, hc, ?_⟩
  unfold clusterSector
  rw [clusterLba_toNat hloc.root_lt hc.1, hloc.root]
  omega

end Data

theorem floppy_file {k : Byte} (hk : k ≠ 0) (hk' : k.toNat ≤ 16) :
    ∃ t₁ t₂, readFat (floppy k [0xF0, 0xFF, 0xFF, 0xFF, 0x0F]) = (true, t₁) ∧
      readRootDirectory t₁ = some (true, t₂) ∧ t₂.bootSector = floppyBoot k ∧
      ValidChain t₂.bootSector t₂.image t₂.fat 2 [] := by
  obtain ⟨t₁, t₂, h₁, h₂, hlen, hboot, -, hfat⟩ :=
    @floppy_ready k [0xF0, 0xFF, 0xFF, 0xFF, 0x0F] hk (by decide)
  refine ⟨t₁, t₂, h₁, h₂, hboot, ?_⟩
  constructor
  · exact List.forall_mem_singleton.mpr (by decide)
  · exact List.nodup_singleton 2
  · refine List.forall_mem_singleton.mpr ?_
    unfold Inside clusterSector BootSector.clusterSize
    rw [hlen, hboot, rootEnd_floppyBoot, bytes_floppyBoot]
    show (3 + 0 * k.toNat) * 512 + k.toNat * 512 ≤ 9728
    omega
  · show 0xFF8 ≤ entry12 t₂.fat 2
    rw [entry12_two, hfat 3 (by decide), hfat 4 (by decide)]
    decide

section Buffer

variable {t : Tool} {entry : DirectoryEntry} {cs : List (BitVec 16)}

theorem readFile_written (buffer : Memory) (hloc : Located t)
    (hchain : ValidChain t.bootSector t.image t.fat entry.firstClusterLow cs) :
    ∃ s, ReadFile t entry buffer true s ∧
      s.written = (cs.length + 1) * t.bootSector.clusterSize := by
  have hread : ∀ x ∈ entry.firstClusterLow :: cs, Readable t x := fun x hx =>
    (hchain.inside x hx).readable hloc (hchain.data x hx)
  obtain ⟨s, hs, -, hreads⟩ := returns_chain
    (fun x hx => hchain.data x (List.mem_cons_of_mem _ hx)) hread hchain.linked 0 buffer []
  refine ⟨s, hs, ?_⟩
  have hmap : (entry.firstClusterLow :: cs).map (fun x => (readCluster t x).2.length) =
      (entry.firstClusterLow :: cs).map fun _ => t.bootSector.clusterSize :=
    List.map_congr_left fun x hx => (hread x hx).length
  unfold Reading.written
  rw [hreads, List.append_nil, List.map_reverse, List.sum_reverse, List.map_map]
  refine (congrArg List.sum hmap).trans ?_
  rw [List.map_const', List.sum_replicate, List.length_cons]
  rfl

theorem bufferSize_toNat (b : BootSector) (entry : DirectoryEntry) : (bufferSize b entry).toNat =
    (entry.size.toNat + b.bytesPerSector.toNat) % 2 ^ 32 := by
  unfold bufferSize
  rw [BitVec.toNat_add, b.bytes32_toNat]

theorem round_up_le_iff {size d p : ℕ} (hd : 0 < d) (hsize : size < 2 ^ 32) (hp : p < 2 ^ 16) :
    (size + d - 1) / d * d ≤ (size + p) % 2 ^ 32 ↔
      size + p < 2 ^ 32 ∧ (size % d = 0 ∨ d ≤ size % d + p) := by
  have hdiv := Nat.div_add_mod' size d
  have hmod := Nat.mod_lt size hd
  rw [div_round_up hd]
  split_ifs with hpos
  · rw [Nat.add_mul, Nat.one_mul]
    generalize size / d * d = q at hdiv ⊢
    omega
  · generalize size / d * d = q at hdiv ⊢
    omega

end Buffer

/-- **When the buffer is large enough.** For a file with a valid chain of just as many clusters as
its size needs: exactly when its size and a sector stay below `2 ^ 32`, and the file fills its last
cluster up to a sector at most. -/
theorem readFile_fits_iff (t₀ t : Tool) (ok : Bool) (entry : DirectoryEntry) (buffer : Memory)
    (cs : List (BitVec 16)) (hroot : readRootDirectory t₀ = some (ok, t))
    (hchain : ValidChain t.bootSector t.image t.fat entry.firstClusterLow cs)
    (hcount : (entry.firstClusterLow :: cs).length =
      (entry.size.toNat + t.bootSector.clusterSize - 1) / t.bootSector.clusterSize) :
    (∃ s, ReadFile t entry buffer true s ∧
      s.written ≤ (bufferSize t.bootSector entry).toNat) ↔
    entry.size.toNat + t.bootSector.bytesPerSector.toNat < 2 ^ 32 ∧
      (entry.size.toNat % t.bootSector.clusterSize = 0 ∨
        t.bootSector.clusterSize ≤
          entry.size.toNat % t.bootSector.clusterSize + t.bootSector.bytesPerSector.toNat) := by
  obtain ⟨hloc, -⟩ := readRootDirectory_end hroot
  have hpos : 0 < t.bootSector.clusterSize := by
    refine Nat.pos_of_ne_zero fun hzero => ?_
    rw [hzero, Nat.div_zero] at hcount
    cases hcount
  have hiff := round_up_le_iff hpos entry.size.isLt t.bootSector.bytesPerSector.isLt
  rw [← hcount, ← bufferSize_toNat] at hiff
  rw [← hiff]
  obtain ⟨s, hs, hwritten⟩ := readFile_written buffer hloc hchain
  constructor
  · rintro ⟨s', hs', hle⟩
    obtain ⟨-, rfl⟩ := Prod.mk.inj (Returns.unique hs hs')
    rwa [hwritten] at hle
  · intro hle
    exact ⟨s, hs, hwritten.trans_le hle⟩

theorem readFile_fits_floppy : ∃ t₁ t₂,
    readFat (floppy 1 [0xF0, 0xFF, 0xFF, 0xFF, 0x0F]) = (true, t₁) ∧
    readRootDirectory t₁ = some (true, t₂) ∧
    ∃ s, ReadFile t₂ ⟨2, 512⟩ (fun _ => 0) true s ∧
      s.written ≤ (bufferSize t₂.bootSector ⟨2, 512⟩).toNat := by
  obtain ⟨t₁, t₂, h₁, h₂, hboot, hchain⟩ := @floppy_file 1 (by decide) (by decide)
  refine ⟨t₁, t₂, h₁, h₂,
    (readFile_fits_iff t₁ t₂ true ⟨2, 512⟩ (fun _ => 0) [] h₂ hchain ?_).mpr ?_⟩
  · rw [hboot]
    decide
  · rw [hboot]
    decide

/-- A file of one byte in a cluster of four sectors. -/
theorem readFile_overflows : ∃ t₁ t₂,
    readFat (floppy 4 [0xF0, 0xFF, 0xFF, 0xFF, 0x0F]) = (true, t₁) ∧
    readRootDirectory t₁ = some (true, t₂) ∧
    ValidChain t₂.bootSector t₂.image t₂.fat 2 [] ∧
    [(2 : BitVec 16)].length =
      (1 + t₂.bootSector.clusterSize - 1) / t₂.bootSector.clusterSize ∧
    ∃ s, ReadFile t₂ ⟨2, 1⟩ (fun _ => 0) true s ∧ s.written = 2048 ∧
      bufferSize t₂.bootSector ⟨2, 1⟩ = 513 := by
  obtain ⟨t₁, t₂, h₁, h₂, hboot, hchain⟩ := @floppy_file 4 (by decide) (by decide)
  obtain ⟨hloc, -⟩ := readRootDirectory_end h₂
  obtain ⟨s, hs, hwritten⟩ := @readFile_written t₂ ⟨2, 1⟩ [] (fun _ => 0) hloc hchain
  refine ⟨t₁, t₂, h₁, h₂, hchain, ?_, s, hs, ?_, ?_⟩
  · rw [hboot]
    decide
  · rw [hwritten, hboot]
    decide
  · rw [hboot]
    decide

end DejOs.Fat
