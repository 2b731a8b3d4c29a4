import DejOs.Fat

/-!
# The FAT tool

The rest of `fat.c`: `readBootSector`, `findFile` and `main`, with what `main` prints and returns.
The disk image is a file that `fopen` finds or does not; memory from `malloc` may hold anything.
`readFile` may go round for ever, so `Main` is a relation: it gives no ending then.

The directory is also given as the image has it (`lookup`), and `main_prints` says what the tool is
for: the bytes of the named file come out, each as itself or as its number in hexadecimal. The
output is read back by `unprint`, except for text that looks like such a number
(`unprint_print_iff`).
-/

namespace DejOs.Fat

open Loop

/-! ## The code -/

/-- The bytes of a string. -/
def text (s : String) : List Byte := s.toList.map fun c => BitVec.ofNat 8 c.toNat

/-- `*(uint32_t*)(p + i)` -/
def load32 (m : Memory) (i : ℕ) : BitVec 32 := load16 m (i + 2) ++ load16 m i

/-- The fields of the packed structure at the beginning of `m`. -/
def bootSectorAt (m : Memory) : BootSector where
  bytesPerSector := load16 m 11
  sectorsPerCluster := m 13
  reservedSectors := load16 m 14
  fatCount := m 16
  dirEntryCount := load16 m 17
  sectorsPerFat := load16 m 22

/-- `readBootSector`; a `BootSector` has 62 bytes. -/
def readBootSector (image : List Byte) : Option BootSector :=
  if 0 < items 62 (image.take 62) then some (bootSectorAt fun i => (image[i]?).getD 0) else none

/-- `g_RootDirectory[i].Name` -/
def nameAt (m : Memory) (i : ℕ) : List Byte := (List.range 11).map fun j => m (32 * i + j)

/-- The fields of `g_RootDirectory[i]`. -/
def entryAt (m : Memory) (i : ℕ) : DirectoryEntry where
  firstClusterLow := load16 m (32 * i + 26)
  size := load32 m (32 * i + 28)

/-- The loop of `findFile` from entry `i` on, for `n` entries; `name` are the 11 bytes that `memcmp`
reads. -/
def findLoop (m : Memory) (name : List Byte) : ℕ → ℕ → Option DirectoryEntry
  | 0, _ => none
  | n + 1, i => if name = nameAt m i then some (entryAt m i) else findLoop m name n (i + 1)

/-- `findFile` -/
def findFile (t : Tool) (name : List Byte) : Option DirectoryEntry :=
  findLoop t.rootDirectory name t.bootSector.dirEntryCount.toNat 0

/-- `isprint`, in the C locale. -/
def isprint (b : Byte) : Bool := 0x20 ≤ b ∧ b ≤ 0x7E

/-- A digit of `%x`. -/
def hexDigit (d : Byte) : Byte := if d < 10 then 0x30 + d else 0x57 + d

/-- The body of the loop of `main`: `fputc`, or `printf` of `<%02x>`. -/
def printByte (b : Byte) : List Byte :=
  if isprint b then [b] else [0x3C, hexDigit (b >>> 4), hexDigit (b &&& 0xF), 0x3E]

/-- The loop of `main`. -/
def print (bytes : List Byte) : List Byte := bytes.flatMap printByte

/-- How the process ends. -/
inductive Ending
  /-- `main` returns, with what has been written to `stdout` and to `stderr`. -/
  | exit (status : ℤ) (out err : List Byte)
  /-- The division by zero of `readRootDirectory`. -/
  | divided
  deriving DecidableEq, Repr

/-- What the memory that `malloc` returns holds. -/
structure Heap where
  fat : Memory
  rootDirectory : Memory
  buffer : Memory

/-- `argv`, and the memory behind the file name. -/
structure Arguments where
  program : List Byte
  args : List (List Byte)
  behind : List Byte

/-- The globals after `readBootSector`. -/
def opened (b : BootSector) (image : List Byte) (heap : Heap) : Tool :=
  ⟨image, b, heap.fat, heap.rootDirectory, 0⟩

/-- `main` from `readFile` on. -/
def MainFile (t : Tool) (entry : DirectoryEntry) (buffer : Memory) (name : List Byte)
    (e : Ending) : Prop :=
  ∃ ok s, ReadFile t entry buffer ok s ∧ e = if ok then
      .exit 0 (print ((List.range entry.size.toNat).map s.buffer) ++ text "\n") []
    else .exit (-5) [] (text "Could not read file " ++ name ++ text "!\n")

/-- `main` from `readFat` on. -/
def MainDisk (t : Tool) (buffer : Memory) (name behind : List Byte) (e : Ending) : Prop :=
  match readFat t with
  | (false, _) => e = .exit (-3) [] (text "Could not read FAT!\n")
  | (true, t) =>
    match readRootDirectory t with
    | none => e = .divided
    | some (false, _) => e = .exit (-4) [] (text "Could not read FAT!\n")
    | some (true, t) =>
      match findFile t ((name ++ 0 :: behind).take 11) with
      | none => e = .exit (-5) [] (text "Could not find file " ++ name ++ text "!\n")
      | some entry => MainFile t entry buffer name e

/-- `main` ends with `e`; `files` is what `fopen` finds. -/
def Main (files : List Byte → Option (List Byte)) (heap : Heap) (a : Arguments) (e : Ending) :
    Prop :=
  match a.args with
  | path :: name :: _ =>
    match files path with
    | none => e = .exit (-1) [] (text "Cannot open disk image " ++ path ++ text "!\n")
    | some image =>
      match readBootSector image with
      | none => e = .exit (-2) [] (text "Could not read boot sector!\n")
      | some b => MainDisk (opened b image heap) heap.buffer name a.behind e
  | _ => e = .exit (-1) (text "Syntax: " ++ a.program ++ text " <disk image> <file name>\n") []

/-! ## The directory of the image -/

/-- The root directory in the image. -/
def imageDirectory (b : BootSector) (image : List Byte) : Memory := fun i =>
  (image[(b.reservedSectors.toNat + b.sectorsPerFat.toNat * b.fatCount.toNat) *
    b.bytesPerSector.toNat + i]?).getD 0

/-- The first entry with this name. -/
def lookup (b : BootSector) (image : List Byte) (name : List Byte) : Option DirectoryEntry :=
  ((List.range b.dirEntryCount.toNat).find? fun i =>
    name = nameAt (imageDirectory b image) i).map (entryAt (imageDirectory b image))

section Directory

variable {m m' : Memory} {name : List Byte} {t t' : Tool}

theorem findLoop_eq (m : Memory) (name : List Byte) (n i : ℕ) : findLoop m name n i =
    ((List.range' i n).find? fun i => name = nameAt m i).map (entryAt m) := by
  induction n generalizing i with
  | zero => rfl
  | succ n ih =>
    unfold findLoop
    rw [List.range'_succ, List.find?_cons]
    split_ifs with h
    · simp only [h, decide_true]
      rfl
    · simp only [h, decide_false]
      exact ih (i + 1)

theorem nameAt_congr {n i : ℕ} (h : ∀ k < 32 * n, m k = m' k) (hi : i < n) :
    nameAt m i = nameAt m' i := by
  refine List.map_congr_left fun j hj => h _ ?_
  have hj := List.mem_range.mp hj
  omega

theorem load16_congr {k : ℕ} (h : m k = m' k) (h' : m (k + 1) = m' (k + 1)) :
    load16 m k = load16 m' k := by
  unfold load16
  rw [h, h']

theorem entryAt_congr {n i : ℕ} (h : ∀ k < 32 * n, m k = m' k) (hi : i < n) :
    entryAt m i = entryAt m' i := by
  have h16 : ∀ k, k + 1 < 32 * n → load16 m k = load16 m' k := fun k hk =>
    load16_congr (h k (by omega)) (h (k + 1) hk)
  unfold entryAt load32
  rw [h16 _ (by omega), h16 _ (by omega), h16 _ (by omega)]

/-- The search looks at the entries of the directory only. -/
theorem find_congr {n : ℕ} (h : ∀ k < 32 * n, m k = m' k) (name : List Byte) :
    ((List.range n).find? fun i => name = nameAt m i).map (entryAt m) =
      ((List.range n).find? fun i => name = nameAt m' i).map (entryAt m') := by
  have hfind : ((List.range n).find? fun i => name = nameAt m i) =
      (List.range n).find? fun i => name = nameAt m' i := by
    refine List.find?_congr fun i hi => ?_
    rw [nameAt_congr h (List.mem_range.mp hi)]
  rw [hfind]
  cases hf : (List.range n).find? fun i => name = nameAt m' i with
  | none => rfl
  | some i =>
    have hi := List.mem_range.mp (List.mem_of_find?_eq_some hf)
    exact congrArg some (entryAt_congr h hi)

/-- The root directory in memory is the one of the image. -/
theorem readRootDirectory_directory (hb : t.bootSector.bytesPerSector ≠ 0)
    (hroot : rootEnd t.bootSector * t.bootSector.bytesPerSector.toNat ≤ t.image.length)
    (hlen : t.image.length < 2 ^ 32) : ∃ t', readRootDirectory t = some (true, t') ∧
      ∀ i < 32 * t.bootSector.dirEntryCount.toNat,
        t'.rootDirectory i = imageDirectory t.bootSector t.image i := by
  obtain ⟨image, b, m, root, rend⟩ := t
  dsimp only at hb hroot hlen ⊢
  have hpos := b.bytes_pos hb
  have hadd : b.rootLba.toNat + b.rootSectors.toNat = rootEnd b := by
    rw [rootLba_toNat, rootSectors_toNat b hb]
    rfl
  have hmul : b.rootLba.toNat * b.bytesPerSector.toNat +
      b.rootSectors.toNat * b.bytesPerSector.toNat ≤ image.length := by
    rwa [← Nat.add_mul, hadd]
  have hoff : (b.rootLba * b.bytes32).toNat = b.rootLba.toNat * b.bytesPerSector.toNat := by
    rw [offset_toNat]
    exact Nat.mod_eq_of_lt (by omega)
  have hin : (b.rootLba * b.bytes32).toNat + b.bytesPerSector.toNat * b.rootSectors.toNat ≤
      image.length := by
    rw [hoff, Nat.mul_comm b.bytesPerSector.toNat]
    exact hmul
  obtain ⟨hread, hgot⟩ := readSectors_inside hb hin
  refine ⟨_, by unfold readRootDirectory; dsimp only; rw [if_neg hb, hread], fun i hi => ?_⟩
  have hsize : 32 * b.dirEntryCount.toNat ≤ b.bytesPerSector.toNat * b.rootSectors.toNat := by
    rw [rootSectors_toNat b hb]
    have hround := Nat.div_add_mod (32 * b.dirEntryCount.toNat + b.bytesPerSector.toNat - 1)
      b.bytesPerSector.toNat
    have hrest := Nat.mod_lt (32 * b.dirEntryCount.toNat + b.bytesPerSector.toNat - 1) hpos
    omega
  have happly := store_apply (m := root) 0 (hi.trans_le (hsize.trans_eq hgot.symm))
  rw [Nat.zero_add] at happly
  show store root 0 _ i = _
  rw [happly]
  unfold imageDirectory
  rw [← rootLba_toNat, ← hoff]
  exact getElem_sectorBytes _

/-- The tool finds what the image has. -/
theorem findFile_eq (h : ∀ i < 32 * t.bootSector.dirEntryCount.toNat,
      t.rootDirectory i = imageDirectory t.bootSector t.image i) (name : List Byte) :
    findFile t name = lookup t.bootSector t.image name := by
  unfold findFile lookup
  rw [findLoop_eq, ← List.range_eq_range']
  exact find_congr h name

end Directory

/-! ## What `main` does -/

/-- The clusters `cs` behind the first one hold the file, and `main`'s buffer has room for them. -/
structure Stored (b : BootSector) (image : List Byte) (entry : DirectoryEntry)
    (cs : List (BitVec 16)) : Prop where
  chain : ValidChain b image (imageFat b image) entry.firstClusterLow cs
  entries : ∀ x ∈ entry.firstClusterLow :: cs, 12 * (x.toNat + 1) ≤
    8 * (b.sectorsPerFat.toNat * b.bytesPerSector.toNat)
  size : entry.size.toNat ≤ (cs.length + 1) * b.clusterSize
  room : (cs.length + 1) * b.clusterSize ≤ (bufferSize b entry).toNat

/-- The bytes of a file. -/
def contents (b : BootSector) (image : List Byte) (entry : DirectoryEntry)
    (cs : List (BitVec 16)) : List Byte :=
  ((entry.firstClusterLow :: cs).flatMap fun x => clusterBytes b image x.toNat).take
    entry.size.toNat

section Ending

variable {b : BootSector} {image : List Byte} {entry : DirectoryEntry}
  {cs : List (BitVec 16)}

/-- The globals when `findFile` is called. -/
structure Ready (b : BootSector) (image : List Byte) (t : Tool) : Prop where
  located : Located t
  image_eq : t.image = image
  boot_eq : t.bootSector = b
  fat : ∀ i < b.sectorsPerFat.toNat * b.bytesPerSector.toNat, t.fat i = imageFat b image i
  find : ∀ name, findFile t name = lookup b image name

theorem ready_of_consistent (heap : Heap) (hcons : Consistent b image)
    (hsize : image.length < 2 ^ 32) :
    ∃ t₁ t, readFat (opened b image heap) = (true, t₁) ∧ readRootDirectory t₁ = some (true, t) ∧
      Ready b image t := by
  obtain ⟨fat, hfat, hsame⟩ := readFat_inside (t := opened b image heap) hcons.bytes hcons.fat
  obtain ⟨t, ht, hdir⟩ := readRootDirectory_directory (t := { opened b image heap with fat := fat })
    hcons.bytes hcons.root hsize
  obtain ⟨hloc, himage, hboot, hfat'⟩ := readRootDirectory_end ht
  have himage : t.image = image := himage
  have hboot : t.bootSector = b := hboot
  refine ⟨_, t, hfat, ht, hloc, himage, hboot, fun i hi => ?_, fun name => ?_⟩
  · rw [hfat']
    exact hsame i hi
  · rw [← hboot, ← himage]
    refine findFile_eq ?_ name
    rw [hboot, himage]
    exact hdir

theorem mainDisk_iff (heap : Heap) (hcons : Consistent b image) (hsize : image.length < 2 ^ 32)
    (buffer : Memory) (name behind : List Byte) : ∃ t, Ready b image t ∧
      ∀ e, MainDisk (opened b image heap) buffer name behind e ↔
        match lookup b image ((name ++ 0 :: behind).take 11) with
        | none => e = .exit (-5) [] (text "Could not find file " ++ name ++ text "!\n")
        | some entry => MainFile t entry buffer name e := by
  obtain ⟨t₁, t, hfat, hroot, hready⟩ := ready_of_consistent heap hcons hsize
  refine ⟨t, hready, fun e => ?_⟩
  unfold MainDisk
  simp only [hfat, hroot, hready.find]

theorem map_range_store {size : ℕ} {bytes : List Byte} (m : Memory) (h : size ≤ bytes.length) :
    (List.range size).map (store m 0 bytes) = bytes.take size := by
  refine List.ext_getElem ?_ fun i hi _ => ?_
  · rw [List.length_map, List.length_range, List.length_take, Nat.min_eq_left h]
  · rw [List.length_map, List.length_range] at hi
    have hstore := store_apply (m := m) 0 (hi.trans_le h)
    rw [Nat.zero_add] at hstore
    rw [List.getElem_map, List.getElem_range, hstore, List.getElem_take]

theorem length_clusterBytes {c : ℕ} (h : Inside b image c) :
    (clusterBytes b image c).length = b.clusterSize := by
  unfold Inside at h
  unfold clusterBytes
  rw [List.length_take, List.length_drop]
  omega

theorem length_clusters (h : ∀ x ∈ cs, Inside b image x.toNat) :
    (cs.flatMap fun x => clusterBytes b image x.toNat).length = cs.length * b.clusterSize := by
  induction cs with
  | nil => simp
  | cons c cs ih =>
    rw [List.flatMap_cons, List.length_append, length_clusterBytes (h c List.mem_cons_self),
      ih fun x hx => h x (List.mem_cons_of_mem _ hx), List.length_cons, Nat.succ_mul, Nat.add_comm]

theorem readFile_stored {t : Tool} (hready : Ready b image t) (hsize : image.length < 2 ^ 32)
    (hfile : Stored b image entry cs) (buffer : Memory) :
    ∃ s, ReadFile t entry buffer true s ∧
      (List.range entry.size.toNat).map s.buffer = contents b image entry cs := by
  obtain ⟨hloc, rfl, rfl, hfat, -⟩ := hready
  have hlink : Linked t.fat entry.firstClusterLow cs :=
    hfile.chain.linked.congr hfile.entries fun i hi => (hfat i hi).symm
  have hread : ∀ x ∈ entry.firstClusterLow :: cs, Readable t x := fun x hx =>
    (hfile.chain.inside x hx).readable hloc (hfile.chain.data x hx)
  obtain ⟨s, hs, hbuf, -⟩ := returns_chain
    (fun x hx => hfile.chain.data x (List.mem_cons_of_mem _ hx)) hread hlink 0 buffer []
  have hbytes : ((entry.firstClusterLow :: cs).flatMap fun x => (readCluster t x).2) =
      (entry.firstClusterLow :: cs).flatMap fun x =>
        clusterBytes t.bootSector t.image x.toNat :=
    List.flatMap_congr fun x hx =>
      readCluster_bytes (hfile.chain.inside x hx) hloc (hfile.chain.data x hx) hsize
  refine ⟨s, hs, ?_⟩
  rw [hbuf, hbytes]
  refine map_range_store buffer ?_
  rw [length_clusters hfile.chain.inside, List.length_cons]
  exact hfile.size

end Ending

/-- **What the tool is for.** The image is below 4 GiB, its boot sector describes a FAT and a root
directory that are in it. When no entry of the root directory has the eleven bytes of the name, the
tool says so and returns -5. When the first entry that has them is a file whose clusters are chained
and fit `main`'s buffer, the tool prints the bytes of the file and returns 0, whatever the memory
from `malloc` held; it ends in no other way. -/
theorem main_prints {files : List Byte → Option (List Byte)} {a : Arguments} {b : BootSector}
    {path name image : List Byte} {more : List (List Byte)} (heap : Heap)
    (hargs : a.args = path :: name :: more) (hopen : files path = some image)
    (hboot : readBootSector image = some b) (hcons : Consistent b image)
    (hsize : image.length < 2 ^ 32) :
    (lookup b image ((name ++ 0 :: a.behind).take 11) = none → ∀ e, Main files heap a e ↔
      e = .exit (-5) [] (text "Could not find file " ++ name ++ text "!\n")) ∧
    ∀ entry cs, lookup b image ((name ++ 0 :: a.behind).take 11) = some entry →
      Stored b image entry cs → ∀ e, Main files heap a e ↔
        e = .exit 0 (print (contents b image entry cs) ++ text "\n") [] := by
  obtain ⟨t, hready, hdisk⟩ := mainDisk_iff heap hcons hsize heap.buffer name a.behind
  have hmain : ∀ e, Main files heap a e ↔
      MainDisk (opened b image heap) heap.buffer name a.behind e := by
    intro e
    unfold Main
    simp only [hargs, hopen, hboot]
  constructor
  · intro hnone e
    rw [hmain, hdisk, hnone]
  · intro entry cs hsome hfile e
    obtain ⟨s, hs, hbytes⟩ := readFile_stored hready hsize hfile heap.buffer
    rw [hmain, hdisk, hsome]
    constructor
    · rintro ⟨ok, s', hs', rfl⟩
      obtain ⟨rfl, rfl⟩ := Prod.mk.inj (hs.unique hs')
      rw [if_pos rfl, hbytes]
    · rintro rfl
      exact ⟨true, s, hs, by rw [if_pos rfl, hbytes]⟩

/-- A disk with 16 bytes in a sector: four sectors with the boot sector, a FAT, a root directory of
two entries, and cluster 2, which holds the three bytes of the second file. -/
def someDisk : List Byte :=
  List.replicate 11 0 ++ [16, 0, 1, 4, 0, 1, 2, 0, 10, 0, 0, 1, 0] ++ List.replicate 40 0 ++
    ([0xF0, 0xFF, 0xFF, 0xFF, 0x0F] ++ List.replicate 11 0) ++
    (text "DISK       " ++ List.replicate 21 0) ++
    (text "HELLO   TXT" ++ List.replicate 15 0 ++ [2, 0, 3, 0, 0, 0]) ++
    (text "hi\n" ++ List.replicate 13 0)

/-- Every path leads to it. -/
def someFiles (_ : List Byte) : Option (List Byte) := some someDisk

/-- What `main` is called with. -/
def someArguments : Arguments := ⟨text "fat", [text "disk", text "HELLO   TXT"], []⟩

/-- Nothing is known of the memory from `malloc`. -/
def someHeap : Heap := ⟨fun _ => 0xCC, fun _ => 0xCC, fun _ => 0xCC⟩

theorem main_prints_hello :
    Main someFiles someHeap someArguments (.exit 0 (text "hi<0a>\n") []) := by
  have hcons : Consistent ⟨16, 1, 4, 1, 2, 1⟩ someDisk :=
    ⟨by decide, by decide, by decide +kernel, by decide +kernel⟩
  have hchain : ValidChain ⟨16, 1, 4, 1, 2, 1⟩ someDisk
      (imageFat ⟨16, 1, 4, 1, 2, 1⟩ someDisk) 2 [] :=
    ⟨List.forall_mem_singleton.mpr (by decide), by decide,
      List.forall_mem_singleton.mpr (by decide +kernel), by decide +kernel⟩
  have hfile : Stored ⟨16, 1, 4, 1, 2, 1⟩ someDisk ⟨2, 3⟩ [] :=
    ⟨hchain, List.forall_mem_singleton.mpr (by decide), by decide, by decide⟩
  have hargs : someArguments.args = text "disk" :: text "HELLO   TXT" :: [] := rfl
  have hboot : readBootSector someDisk = some ⟨16, 1, 4, 1, 2, 1⟩ := by decide +kernel
  have hlookup : lookup ⟨16, 1, 4, 1, 2, 1⟩ someDisk
      ((text "HELLO   TXT" ++ 0 :: someArguments.behind).take 11) = some ⟨2, 3⟩ := by
    decide +kernel
  have hprint : print (contents ⟨16, 1, 4, 1, 2, 1⟩ someDisk ⟨2, 3⟩ []) = text "hi<0a>" := by
    decide +kernel
  have hopen : someFiles (text "disk") = some someDisk := rfl
  have hmain := (main_prints someHeap hargs hopen hboot hcons (by decide +kernel)).2 ⟨2, 3⟩ []
    hlookup hfile
  rw [hprint] at hmain
  refine (hmain _).mpr (congrArg (Ending.exit 0 · []) ?_)
  decide

/-! ## The output can be read back -/

/-- The value of a hexadecimal digit. -/
def hexValue (c : Byte) : Option Byte :=
  if 0x30 ≤ c ∧ c ≤ 0x39 then some (c - 0x30)
  else if 0x61 ≤ c ∧ c ≤ 0x66 then some (c - 0x57)
  else none

/-- The byte with two hexadecimal digits. -/
def hexByte (h l : Byte) : Option Byte :=
  (hexValue h).bind fun h => (hexValue l).map fun l => h <<< 4 ||| l

/-- The byte whose number is written at the beginning of the text. A printable byte is not written
by its number. -/
def number : List Byte → Option Byte
  | a :: h :: l :: z :: _ =>
    if a = 0x3C ∧ z = 0x3E then (hexByte h l).filter fun b => !isprint b else none
  | _ => none

/-- The text with its numbers read, after it has skipped `n` bytes. -/
def unprintFrom : ℕ → List Byte → List Byte
  | _, [] => []
  | n + 1, _ :: s => unprintFrom n s
  | 0, c :: s =>
    match number (c :: s) with
    | some b => b :: unprintFrom 3 s
    | none => c :: unprintFrom 0 s

/-- The text with its numbers read. -/
def unprint (s : List Byte) : List Byte := unprintFrom 0 s

section Unprint

variable {b c h l x : Byte} {s xs : List Byte}

theorem number_eq (a h l z : Byte) (s : List Byte) : number (a :: h :: l :: z :: s) =
    if a = 0x3C ∧ z = 0x3E then (hexByte h l).filter fun b => !isprint b else none := rfl

theorem hexValue_of_hexByte (hb : hexByte h l = some b) :
    hexValue h ≠ none ∧ hexValue l ≠ none := by
  obtain ⟨hv, hh, hl⟩ := Option.bind_eq_some_iff.mp hb
  obtain ⟨lv, hl, -⟩ := Option.map_eq_some_iff.mp hl
  rw [hh, hl]
  exact ⟨Option.some_ne_none _, Option.some_ne_none _⟩

theorem unprint_of_none (hn : number (c :: s) = none) :
    unprint (c :: s) = c :: unprint s := by
  unfold unprint
  rw [unprintFrom, hn]

theorem unprint_of_some (hn : number (c :: h :: l :: x :: s) = some b) :
    unprint (c :: h :: l :: x :: s) = b :: unprint s := by
  unfold unprint
  rw [unprintFrom, hn]
  rfl

theorem of_number (hn : number (c :: xs) = some b) : ∃ h l rest, xs = h :: l :: 0x3E :: rest ∧
    c = 0x3C ∧ hexValue h ≠ none ∧ hexValue l ≠ none := by
  match xs, hn with
  | h :: l :: z :: rest, hn =>
    rw [number_eq] at hn
    split_ifs at hn with hbr
    obtain ⟨hb, -⟩ := Option.filter_eq_some_iff.mp hn
    obtain ⟨hh, hl⟩ := hexValue_of_hexByte hb
    exact ⟨h, l, rest, by rw [hbr.2], hbr.1, hh, hl⟩

theorem isprint_of_hexValue (hd : hexValue c ≠ none) : isprint c = true ∧ c ≠ 0x3C := by
  have hdigit : ∀ d : Byte, hexValue d ≠ none → isprint d = true ∧ d ≠ 0x3C := by decide +kernel
  exact hdigit c hd

theorem print_cons (x : Byte) (xs : List Byte) : print (x :: xs) = printByte x ++ print xs := rfl

theorem printByte_of_isprint (hx : isprint x = true) : printByte x = [x] := if_pos hx

/-- What is printed begins with a byte of the file, or with a bracket. -/
theorem print_eq_cons {y : Byte} {ys : List Byte} (hp : print xs = y :: ys) (hy : y ≠ 0x3C) :
    ∃ rest, xs = y :: rest ∧ ys = print rest := by
  cases xs with
  | nil => cases hp
  | cons x rest =>
    rw [print_cons] at hp
    unfold printByte at hp
    split_ifs at hp with hx
    · obtain ⟨rfl, rfl⟩ := List.cons.inj hp
      exact ⟨rest, rfl, rfl⟩
    · exact absurd (List.cons.inj hp).1.symm hy

/-- Numbers that are read in the output stand in the file. -/
theorem number_print (hn : number (c :: print xs) = some b) : number (c :: xs) = some b := by
  obtain ⟨h, l, rest, hrest, rfl, hh, hl⟩ := of_number hn
  obtain ⟨xs₁, rfl, h₁⟩ := print_eq_cons hrest (isprint_of_hexValue hh).2
  obtain ⟨xs₂, rfl, h₂⟩ := print_eq_cons h₁.symm (isprint_of_hexValue hl).2
  obtain ⟨xs₃, rfl, -⟩ := print_eq_cons h₂.symm (by decide)
  rw [hrest] at hn
  exact hn

/-- A byte of the file that no number begins with comes back. -/
theorem unprint_print_cons (hn : number (x :: xs) = none) :
    unprint (print (x :: xs)) = x :: unprint (print xs) := by
  have hback : ∀ x : Byte, isprint x = false →
      number [0x3C, hexDigit (x >>> 4), hexDigit (x &&& 0xF), 0x3E] = some x := by decide +kernel
  rw [print_cons]
  cases hx : isprint x with
  | true =>
    rw [printByte_of_isprint hx]
    refine unprint_of_none ?_
    by_contra hsome
    obtain ⟨b, hb⟩ := Option.ne_none_iff_exists'.mp hsome
    rw [number_print hb] at hn
    cases hn
  | false =>
    have hbyte : printByte x = [0x3C, hexDigit (x >>> 4), hexDigit (x &&& 0xF), 0x3E] := by
      unfold printByte
      rw [hx]
      rfl
    rw [hbyte]
    exact unprint_of_some (hback x hx)

/-- A number in the file is taken for the byte. -/
theorem unprint_print_number (hn : number (c :: h :: l :: 0x3E :: s) = some b) :
    unprint (print (c :: h :: l :: 0x3E :: s)) = b :: unprint (print s) := by
  obtain ⟨h', l', rest, heq, rfl, hh, hl⟩ := of_number hn
  simp only [List.cons.injEq] at heq
  obtain ⟨rfl, rfl, -, rfl⟩ := heq
  have hbr : isprint 0x3C = true ∧ isprint 0x3E = true := by decide
  rw [print_cons, print_cons, print_cons, print_cons, printByte_of_isprint hbr.1,
    printByte_of_isprint (isprint_of_hexValue hh).1,
    printByte_of_isprint (isprint_of_hexValue hl).1, printByte_of_isprint hbr.2]
  exact unprint_of_some hn

theorem length_unprint_print (xs : List Byte) : (unprint (print xs)).length ≤ xs.length := by
  induction hk : xs.length using Nat.strong_induction_on generalizing xs with
  | _ k ih =>
    subst hk
    cases xs with
    | nil => exact Nat.le_refl 0
    | cons x xs =>
      cases hn : number (x :: xs) with
      | none =>
        rw [unprint_print_cons hn]
        exact Nat.succ_le_succ (ih _ (Nat.lt_succ_self _) xs rfl)
      | some b =>
        obtain ⟨h, l, rest, rfl, -⟩ := of_number hn
        rw [unprint_print_number hn]
        have hle := ih rest.length (by simp only [List.length_cons]; omega) rest rfl
        simp only [List.length_cons]
        omega

end Unprint

/-- **Round trip.** The bytes of a file can be read back from what the tool prints if and only if
nowhere in the file four bytes look like a byte that is printed by its number, as `<0a>` does and
`<41>` does not. -/
theorem unprint_print_iff (xs : List Byte) :
    unprint (print xs) = xs ↔ ∀ s, s <:+ xs → number s = none := by
  induction xs with
  | nil =>
    refine iff_of_true rfl fun s hs => ?_
    rw [List.suffix_nil.mp hs]
    rfl
  | cons x xs ih =>
    cases hn : number (x :: xs) with
    | none =>
      rw [unprint_print_cons hn, List.cons_inj_right, ih]
      constructor
      · intro h s hs
        rcases List.suffix_cons_iff.mp hs with rfl | hs
        · exact hn
        · exact h s hs
      · exact fun h s hs => h s (hs.trans (List.suffix_cons x xs))
    | some b =>
      refine iff_of_false (fun h => ?_) fun h => ?_
      · obtain ⟨h', l, rest, rfl, -⟩ := of_number hn
        rw [unprint_print_number hn] at h
        have hlen := congrArg List.length h
        have hle := length_unprint_print rest
        simp only [List.length_cons] at hlen
        omega
      · rw [h _ (List.suffix_refl _)] at hn
        cases hn

/-- Two files without such text are told apart. -/
theorem print_injective {xs ys : List Byte} (hx : ∀ s, s <:+ xs → number s = none)
    (hy : ∀ s, s <:+ ys → number s = none) (h : print xs = print ys) : xs = ys := by
  rw [← (unprint_print_iff xs).mpr hx, ← (unprint_print_iff ys).mpr hy, h]

/-- A line feed and the four characters `<0a>` are not. -/
example : print (text "\n") = print (text "<0a>") := by decide

/-- The four characters `<41>` are read back: an `A` is printed as itself. -/
example : unprint (print (text "<41>")) = text "<41>" := by decide +kernel

end DejOs.Fat
