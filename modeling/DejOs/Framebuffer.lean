import DejOs.CString
import DejOs.Lib.ByteMemory
import DejOs.Lib.Loop

/-!
# The framebuffer

`framebuffer.c`, the loops of `kmain` that paint the screen and `draw_screen` of `panic.c`. The
bootloader leaves a response with an array of pointers to `limine_framebuffer` structures; the
kernel keeps a pointer to the first of them and one to its pixels.

Both pairs of loops read their bounds again in every round. They paint the pixels of the screen and
nothing else as long as the structure does not lie among the pixels (`framebuffer_filled`).
`GetScreenInfo` counts structures from the first one on instead of taking the pointer from the array
(`getScreenInfo_iff`).
-/

namespace DejOs.Framebuffer

open ByteMemory Loop CString

/-! ## `limine_framebuffer` -/

/-- The size of a `struct limine_framebuffer`. -/
def structSize : ℕ := 80

def address (m : Bytes) (f : U64) : U64 := load64 m f

def width (m : Bytes) (f : U64) : U64 := load64 m (f + 8)

def height (m : Bytes) (f : U64) : U64 := load64 m (f + 16)

def pitch (m : Bytes) (f : U64) : U64 := load64 m (f + 24)

/-! ## The code -/

/-- Memory, the bootloader's response and the globals of `kmain.c`. -/
structure Screen where
  mem : Bytes
  /-- `framebuffer_request.response` -/
  response : U64
  framebuffer : U64
  fbPtr : U64
  /-- The pointers dereferenced so far, the last one first. -/
  derefs : List U64

namespace Screen

def deref (s : Screen) (p : U64) : Screen := { s with derefs := p :: s.derefs }

/-- `framebuffer_request.response->framebuffers` -/
def table (s : Screen) : U64 := load64 s.mem (s.response + 16)

/-- `framebuffer_request.response->framebuffers[num]` -/
def framebuffers (s : Screen) (num : Byte) : U64 :=
  load64 s.mem (s.table + 8 * num.setWidth 64)

end Screen

/-- `RequestFrameBuffer` -/
def requestFrameBuffer (s : Screen) (num : Byte) : U64 × Screen :=
  (s.framebuffers num, (s.deref s.response).deref s.table)

/-- `set_up_framebuffer` -/
def setUpFramebuffer (s : Screen) : Screen where
  mem := s.mem
  response := s.response
  framebuffer := s.framebuffers 0
  fbPtr := address s.mem (s.framebuffers 0)
  derefs := s.framebuffers 0 :: s.table :: s.response :: s.table :: s.response :: s.derefs

/-- `putpixel` -/
def putpixel (x y : U64) (colour : BitVec 32) (s : Screen) : Screen where
  mem := storeBytes s.mem (s.fbPtr + 4 * (y * (pitch s.mem s.framebuffer / 4) + x))
    (toBytes 4 colour.toNat)
  response := s.response
  framebuffer := s.framebuffer
  fbPtr := s.fbPtr
  derefs := s.fbPtr :: s.framebuffer :: s.derefs

/-- `screen_t` -/
structure ScreenInfo where
  width : U64
  height : U64
  pitch : U64
  deriving DecidableEq

/-- The geometry of the structure at `f`. -/
def screenInfo (m : Bytes) (f : U64) : ScreenInfo := ⟨width m f, height m f, pitch m f⟩

/-- `GetScreenInfo`: `framebuffer[num]` is the structure `num` places behind the first one. -/
def getScreenInfo (s : Screen) (num : Byte) : ScreenInfo × Screen :=
  let p := s.framebuffer + 80 * num.setWidth 64
  (screenInfo s.mem p, ((s.deref p).deref p).deref p)

/-- The test of a counter against a field of the structure at `f`. -/
def below {w : ℕ} (f : Screen → U64) (bound : Bytes → U64 → U64) (s : Screen) (i : BitVec w) :
    Screen × Bool := (s.deref (f s), decide (i.setWidth 64 < bound s.mem (f s)))

/-- The loops of `kmain`: columns of the screen, with `uint32_t` counters. -/
def kmainLoops : Screen × BitVec 32 × Option (BitVec 32) →
    (Screen × BitVec 32 × Option (BitVec 32)) ⊕ Screen :=
  nested (below Screen.framebuffer width) (below Screen.framebuffer height) fun s x y =>
    putpixel (x.setWidth 64) (y.setWidth 64) 0x00FFFF s

/-- The loops of `draw_screen`: rows of the screen at `f`, with `uint64_t` counters. -/
def drawScreenLoops (f : U64) : Screen × U64 × Option U64 → (Screen × U64 × Option U64) ⊕ Screen :=
  nested (below (fun _ => f) height) (below (fun _ => f) width) fun s y i =>
    putpixel i y 0x0000FF s

/-- `kmain` comes to `jump_to_watchdog` in the state `t`. -/
def KmainPaints (s t : Screen) : Prop := Returns kmainLoops (setUpFramebuffer s, 0, none) t

/-- `draw_screen` returns in the state `t`. -/
def DrawScreen (s t : Screen) : Prop :=
  Returns (drawScreenLoops (requestFrameBuffer s 0).1) ((requestFrameBuffer s 0).2, 0, none) t

/-! ## Pixels -/

/-- A framebuffer of 32 bits a pixel: the structure at `f` and the pixels from `p` on. -/
structure Geometry (m : Bytes) (f p : U64) : Prop where
  pitch_dvd : 4 ∣ (pitch m f).toNat
  pitch_ge : 4 * (width m f).toNat ≤ (pitch m f).toNat
  width_lt : (width m f).toNat < 2 ^ 32
  height_lt : (height m f).toNat < 2 ^ 32
  size_lt : (pitch m f).toNat * (height m f).toNat < 2 ^ 63
  /-- The structure is not in the memory of the pixels. -/
  apart : Apart p ((pitch m f).toNat * (height m f).toNat) f structSize

/-- Where pixel `(x, y)` begins. -/
def pixel (m : Bytes) (f p : U64) (x y : ℕ) : U64 :=
  p + BitVec.ofNat 64 (cell 4 (pitch m f).toNat x y)

/-- From `m` to `m'` every pixel has been painted, and no byte outside the visible part of the rows
has changed. -/
structure Painted (m m' : Bytes) (f p : U64) (colour : BitVec 32) : Prop where
  inside : ∀ x < (width m f).toNat, ∀ y < (height m f).toNat,
    loadBytes m' (pixel m f p x y) 4 = toBytes 4 colour.toNat
  outside : ∀ a, (∀ y < (height m f).toNat, ¬ Within (p + BitVec.ofNat 64 (y * (pitch m f).toNat))
    (4 * (width m f).toNat) a) → m' a = m a

section Pixels

variable {m : Bytes} {f p : U64} {x y x' y' : ℕ}

theorem pixel_eq (hdvd : 4 ∣ (pitch m f).toNat) (x y : U64) :
    p + 4 * (y * (pitch m f / 4) + x) = pixel m f p x.toNat y.toNat := by
  have hpitch : pitch m f / 4 = BitVec.ofNat 64 ((pitch m f).toNat / 4) := by
    apply BitVec.eq_of_toNat_eq
    rw [BitVec.toNat_udiv, BitVec.toNat_ofNat, Nat.mod_eq_of_lt]
    · rfl
    · have := (pitch m f).isLt
      omega
  have hcell : cell 4 (pitch m f).toNat x.toNat y.toNat =
      4 * (y.toNat * ((pitch m f).toNat / 4) + x.toNat) := by
    obtain ⟨q, hq⟩ := hdvd
    rw [cell, hq, Nat.mul_div_cancel_left q (by decide)]
    ring
  unfold pixel
  rw [hpitch, hcell, BitVec.ofNat_mul, BitVec.ofNat_add, BitVec.ofNat_mul, BitVec.ofNat_toNat,
    BitVec.ofNat_toNat, BitVec.setWidth_eq, BitVec.setWidth_eq]
  rfl

theorem Geometry.cell_le (h : Geometry m f p) (hx : x < (width m f).toNat)
    (hy : y < (height m f).toNat) :
    cell 4 (pitch m f).toNat x y + 4 ≤ (pitch m f).toNat * (height m f).toNat :=
  (cell_add_le_mul h.pitch_ge hx hy).trans_eq (Nat.mul_comm ..)

theorem Geometry.pixel_apart (h : Geometry m f p) (hx : x < (width m f).toNat)
    (hy : y < (height m f).toNat) (hx' : x' < (width m f).toNat) (hy' : y' < (height m f).toNat)
    (hne : pixel m f p x y ≠ pixel m f p x' y') :
    Apart (pixel m f p x y) 4 (pixel m f p x' y') 4 := by
  have hsize := h.size_lt
  have hle := h.cell_le hx hy
  have hle' := h.cell_le hx' hy'
  have hxy : (x, y) ≠ (x', y') := by
    rintro heq
    obtain ⟨rfl, rfl⟩ := Prod.mk.inj heq
    exact hne rfl
  exact apart_offset (by omega) (by omega) (cell_separate h.pitch_ge hx hx' hxy)

/-- A pixel does not touch the structure. -/
theorem Geometry.structure_apart (h : Geometry m f p) (hx : x < (width m f).toNat)
    (hy : y < (height m f).toNat) : Apart (pixel m f p x y) 4 f structSize := by
  have hsize := h.size_lt
  exact h.apart.offset (by omega) (h.cell_le hx hy)

theorem Geometry.painted (h : Geometry m f p) {as : List U64} (colour : BitVec 32)
    (has : ∀ a, a ∈ as ↔ ∃ x < (width m f).toNat, ∃ y < (height m f).toNat, pixel m f p x y = a) :
    Painted m (storeEach (toBytes 4 colour.toNat) as m) f p colour := by
  have hsize := h.size_lt
  have hlen : (toBytes 4 colour.toNat).length = 4 := length_toBytes 4 _
  constructor
  · intro x hx y hy
    have hmem : pixel m f p x y ∈ as := (has _).mpr ⟨x, hx, y, hy, rfl⟩
    apply List.ext_getElem (by rw [length_loadBytes, hlen])
    intro i _ hi
    simp only [loadBytes, List.getElem_map, List.getElem_range]
    refine storeEach_inside ?_ hmem i hi (by rw [hlen]; decide)
    intro a ha b hb hne
    obtain ⟨x₁, hx₁, y₁, hy₁, rfl⟩ := (has a).mp ha
    obtain ⟨x₂, hx₂, y₂, hy₂, rfl⟩ := (has b).mp hb
    rw [hlen]
    exact h.pixel_apart hx₁ hy₁ hx₂ hy₂ hne
  · intro a ha
    apply storeEach_outside
    intro b hb hin
    obtain ⟨x, hx, y, hy, rfl⟩ := (has b).mp hb
    rw [hlen] at hin
    have hrow := row_le h.pitch_ge hy
    rw [Nat.mul_comm] at hsize
    exact ha y hy ((within_row (by decide) (by omega)).mpr ⟨x, hx, hin⟩)

end Pixels

/-! ## The loops -/

section Loops

variable {m : Bytes} {f p : U64}

/-- The pixels may have been painted over, the structure has not. -/
structure Ready (m : Bytes) (f p : U64) (s : Screen) : Prop where
  framebuffer : s.framebuffer = f
  fbPtr : s.fbPtr = p
  same : ∀ a, Within f structSize a → s.mem a = m a

theorem Ready.load64 {s : Screen} (h : Ready m f p s) {c : ℕ} (hc : c + 8 ≤ structSize) :
    load64 s.mem (f + BitVec.ofNat 64 c) = load64 m (f + BitVec.ofNat 64 c) :=
  load64_congr (by decide) hc h.same

variable {s : Screen}

theorem Ready.width_eq (h : Ready m f p s) : width s.mem f = width m f :=
  h.load64 (c := 8) (by decide)

theorem Ready.height_eq (h : Ready m f p s) : height s.mem f = height m f :=
  h.load64 (c := 16) (by decide)

theorem Ready.pitch_eq (h : Ready m f p s) : pitch s.mem f = pitch m f :=
  h.load64 (c := 24) (by decide)

theorem Ready.putpixel_mem (h : Ready m f p s) (hdvd : 4 ∣ (pitch m f).toNat) (x y : U64)
    (colour : BitVec 32) : (putpixel x y colour s).mem =
      storeBytes s.mem (pixel m f p x.toNat y.toNat) (toBytes 4 colour.toNat) := by
  unfold putpixel
  dsimp only
  rw [h.framebuffer, h.fbPtr, h.pitch_eq, pixel_eq hdvd]

theorem Ready.putpixel (h : Ready m f p s) (hg : Geometry m f p) {x y : U64}
    (hx : x.toNat < (width m f).toNat) (hy : y.toNat < (height m f).toNat) (colour : BitVec 32) :
    Ready m f p (putpixel x y colour s) where
  framebuffer := h.framebuffer
  fbPtr := h.fbPtr
  same a ha := by
    rw [h.putpixel_mem hg.pitch_dvd, storeBytes_outside, h.same a ha]
    rw [length_toBytes]
    exact fun hin => hg.structure_apart hx hy a hin ha

/-- A test of a counter of at most 64 bits compares the numbers. -/
theorem below_iff {w : ℕ} (hw : w ≤ 64) (q : Screen → U64) (bound : Bytes → U64 → U64) (s : Screen)
    (i : BitVec w) : (below q bound s i).2 = true ↔ i.toNat < (bound s.mem (q s)).toNat := by
  have hlt : i.toNat < 2 ^ 64 := i.isLt.trans_le (Nat.pow_le_pow_right (by decide) hw)
  unfold below
  rw [decide_eq_true_iff, BitVec.lt_def, BitVec.toNat_setWidth, Nat.mod_eq_of_lt hlt]

theorem Ready.below {w : ℕ} (hw : w ≤ 64) {q : Screen → U64} {bound : Bytes → U64 → U64}
    (h : Ready m f p s) (hq : q s = f) (hb : bound s.mem f = bound m f) (i : BitVec w) :
    Ready m f p (below q bound s i).1 ∧ (below q bound s i).1.mem = s.mem ∧
      ((below q bound s i).2 = true ↔ i.toNat < (bound m f).toNat) := by
  refine ⟨⟨h.framebuffer, h.fbPtr, h.same⟩, rfl, ?_⟩
  rw [below_iff hw, hq, hb]

/-- The loops of `kmain` count to the width and the height. -/
theorem kmain_counted (hg : Geometry m f p) :
    NestedCounts (w := 32) (below Screen.framebuffer width) (below Screen.framebuffer height)
      (fun s x y => putpixel (x.setWidth 64) (y.setWidth 64) 0x00FFFF s) (Ready m f p) Screen.mem
      (fun m' x y => storeBytes m' (pixel m f p x y) (toBytes 4 0x00FFFF))
      (width m f).toNat (height m f).toNat where
  outer _ x h := h.below (by decide) h.framebuffer h.width_eq x
  inner _ y h := h.below (by decide) h.framebuffer h.height_eq y
  visit _ x y h hx hy := by
    have hx' : (x.setWidth 64).toNat = x.toNat := BitVec.toNat_setWidth_of_le (by decide)
    have hy' : (y.setWidth 64).toNat = y.toNat := BitVec.toNat_setWidth_of_le (by decide)
    refine ⟨h.putpixel hg (by rwa [hx']) (by rwa [hy']) _, ?_⟩
    rw [h.putpixel_mem hg.pitch_dvd, hx', hy']
    rfl
  outer_lt := hg.width_lt
  inner_lt := hg.height_lt

/-- The loops of `draw_screen` count to the height and the width. -/
theorem drawScreen_counted (hg : Geometry m f p) :
    NestedCounts (w := 64) (below (fun _ => f) height) (below (fun _ => f) width)
      (fun s y i => putpixel i y 0x0000FF s) (Ready m f p) Screen.mem
      (fun m' y x => storeBytes m' (pixel m f p x y) (toBytes 4 0x0000FF))
      (height m f).toNat (width m f).toNat where
  outer _ y h := h.below le_rfl rfl h.height_eq y
  inner _ i h := h.below le_rfl rfl h.width_eq i
  visit _ y i h hy hi := ⟨h.putpixel hg hi hy _, h.putpixel_mem hg.pitch_dvd i y _⟩
  outer_lt := (height m f).isLt
  inner_lt := (width m f).isLt

theorem kmainLoops_paints (hg : Geometry m f p) (h : Ready m f p s) (hm : s.mem = m) :
    ∃ t, Returns kmainLoops (s, 0, none) t ∧ Painted m t.mem f p 0x00FFFF := by
  obtain ⟨t, -, hmem, hret⟩ := (kmain_counted hg).returns h
  refine ⟨t, hret, ?_⟩
  have hstores : t.mem = storeEach (toBytes 4 0x00FFFF)
      ((pairs (width m f).toNat (height m f).toNat).map fun q => pixel m f p q.1 q.2) m := by
    rw [hmem, hm, storeEach, List.foldl_map]
  rw [hstores]
  apply hg.painted 0x00FFFF
  intro a
  simp only [List.mem_map, mem_pairs, Prod.exists]
  constructor
  · rintro ⟨x, y, ⟨hx, hy⟩, rfl⟩
    exact ⟨x, hx, y, hy, rfl⟩
  · rintro ⟨x, hx, y, hy, rfl⟩
    exact ⟨x, y, ⟨hx, hy⟩, rfl⟩

theorem drawScreenLoops_paints (hg : Geometry m f p) (h : Ready m f p s) (hm : s.mem = m) :
    ∃ t, Returns (drawScreenLoops f) (s, 0, none) t ∧ Painted m t.mem f p 0x0000FF := by
  obtain ⟨t, -, hmem, hret⟩ := (drawScreen_counted hg).returns h
  refine ⟨t, hret, ?_⟩
  have hstores : t.mem = storeEach (toBytes 4 0x0000FF)
      ((pairs (height m f).toNat (width m f).toNat).map fun q => pixel m f p q.2 q.1) m := by
    rw [hmem, hm, storeEach, List.foldl_map]
  rw [hstores]
  apply hg.painted 0x0000FF
  intro a
  simp only [List.mem_map, mem_pairs, Prod.exists]
  constructor
  · rintro ⟨y, x, ⟨hy, hx⟩, rfl⟩
    exact ⟨x, hx, y, hy, rfl⟩
  · rintro ⟨x, hx, y, hy, rfl⟩
    exact ⟨y, x, ⟨hy, hx⟩, rfl⟩

end Loops

/-- The framebuffer that is painted when the kernel panics is the one of `kmain`. -/
theorem requestFrameBuffer_setUp (s : Screen) :
    (requestFrameBuffer (setUpFramebuffer s) 0).1 = (setUpFramebuffer s).framebuffer := by
  simp only [requestFrameBuffer, Screen.framebuffers, Screen.table, setUpFramebuffer]

/-- The pixels of the screen at `f`. -/
def visible (m : Bytes) (f : U64) : Set (ℕ × ℕ) :=
  { q | q.1 < (width m f).toNat ∧ q.2 < (height m f).toNat }

/-- **The screen.** For every framebuffer of 32 bits a pixel, after `set_up_framebuffer`: `putpixel`
stores a visible pixel at its own offset in the rows, and both the loops of `kmain` and
`draw_screen` return with every visible pixel painted and no other byte changed. -/
theorem framebuffer_filled (s₀ : Screen) {s : Screen} {m : Bytes} {f p : U64}
    (hs : s = setUpFramebuffer s₀) (hm : m = s.mem) (hf : f = s.framebuffer) (hp : p = s.fbPtr)
    (hg : Geometry m f p) :
    Set.InjOn (fun q => q.2 * (pitch m f).toNat + 4 * q.1) (visible m f) ∧
    (∀ x y : U64, (x.toNat, y.toNat) ∈ visible m f → ∀ colour,
      y.toNat * (pitch m f).toNat + 4 * x.toNat + 4 ≤ (pitch m f).toNat * (height m f).toNat ∧
      (putpixel x y colour s).mem = storeBytes m
        (p + BitVec.ofNat 64 (y.toNat * (pitch m f).toNat + 4 * x.toNat))
        (toBytes 4 colour.toNat)) ∧
    (∃ t, KmainPaints s₀ t ∧ Painted m t.mem f p 0x00FFFF) ∧
    ∃ t, DrawScreen s t ∧ Painted m t.mem f p 0x0000FF := by
  have hready : Ready m f p s := ⟨hf.symm, hp.symm, fun a _ => by rw [hm]⟩
  have hdraw : Ready m f p (requestFrameBuffer s 0).2 :=
    ⟨hf.symm, hp.symm, fun a _ => by rw [hm]; rfl⟩
  refine ⟨?_, ?_, ?_, ?_⟩
  · rintro ⟨x, y⟩ ⟨hx, hy⟩ ⟨x', y'⟩ ⟨hx', hy'⟩ heq
    by_contra hne
    have hsep := cell_separate hg.pitch_ge hx hx' hne
    unfold cell at hsep
    dsimp only at heq hsep
    omega
  · rintro x y ⟨hx, hy⟩ colour
    exact ⟨hg.cell_le hx hy, by rw [hready.putpixel_mem hg.pitch_dvd, hm]; rfl⟩
  · unfold KmainPaints
    rw [← hs]
    exact kmainLoops_paints hg hready hm.symm
  · have hfirst : (requestFrameBuffer s 0).1 = f := by
      rw [hf, hs, requestFrameBuffer_setUp]
    unfold DrawScreen
    rw [hfirst]
    exact drawScreenLoops_paints hg hdraw hm.symm

/-- A `limine_framebuffer` structure, up to its pitch. -/
def framebufferBytes (address width height pitch : U64) : List Byte :=
  bytes64 address ++ bytes64 width ++ bytes64 height ++ bytes64 pitch

/-- A response at `0x500` with its array at `0x600`, and the structure of a screen of 3 times 2
pixels at `0x1000`; a row has four bytes more. -/
def smallScreen : Screen where
  mem := storeBytes (storeBytes (storeBytes (fun _ => 0) 0x500
    (bytes64 1 ++ bytes64 1 ++ bytes64 0x600)) 0x600 (bytes64 0x1000)) 0x1000
      (framebufferBytes 0x100000 3 2 16)
  response := 0x500
  framebuffer := 0
  fbPtr := 0
  derefs := []

theorem smallScreen_geometry : Geometry smallScreen.mem 0x1000 0x100000 where
  pitch_dvd := by decide
  pitch_ge := by decide
  width_lt := by decide
  height_lt := by decide
  size_lt := by decide
  apart := apart_of_le (by decide) (by decide) (by decide)

theorem framebuffer_filled_smallScreen :
    (∃ t, KmainPaints smallScreen t ∧ Painted smallScreen.mem t.mem 0x1000 0x100000 0x00FFFF) ∧
    ∃ t, DrawScreen (setUpFramebuffer smallScreen) t ∧
      Painted smallScreen.mem t.mem 0x1000 0x100000 0x0000FF :=
  (framebuffer_filled smallScreen rfl rfl (by decide) (by decide) smallScreen_geometry).2.2

/-! ## Several screens -/

/-- `framebuffer_request.response->framebuffer_count` -/
def Screen.framebufferCount (s : Screen) : U64 := load64 s.mem (s.response + 8)

/-- The bytes of the response and of its array of pointers. -/
def Screen.InResponse (s : Screen) (a : U64) : Prop :=
  Within s.response 24 a ∨ Within s.table (8 * s.framebufferCount.toNat) a

section Several

variable {s : Screen} {m : Bytes} {num : Byte}

theorem Screen.table_congr (h : ∀ a, s.InResponse a → m a = s.mem a) :
    ({ s with mem := m } : Screen).table = s.table :=
  load64_congr (c := 16) (n := 24) (by decide) (by decide) fun a ha => h a (.inl ha)

theorem Screen.framebuffers_eq (s : Screen) (num : Byte) :
    s.framebuffers num = load64 s.mem (s.table + BitVec.ofNat 64 (8 * num.toNat)) := by
  unfold Screen.framebuffers
  rw [BitVec.ofNat_mul, BitVec.ofNat_toNat]
  rfl

theorem Screen.framebuffers_congr (h : ∀ a, s.InResponse a → m a = s.mem a)
    (hnum : num.toNat < s.framebufferCount.toNat) :
    ({ s with mem := m } : Screen).framebuffers num = s.framebuffers num := by
  have hlt := num.isLt
  rw [Screen.framebuffers_eq, Screen.framebuffers_eq, Screen.table_congr h]
  refine load64_congr (n := 8 * num.toNat + 8) (by omega) le_rfl fun a ha => h a (.inr ?_)
  exact ha.trans_le (by omega)

/-- What `GetScreenInfo` and `RequestFrameBuffer` find after `set_up_framebuffer`. -/
def InfoAgrees (s : Screen) (num : Byte) : Prop :=
  (getScreenInfo (setUpFramebuffer s) num).1 =
    screenInfo s.mem (requestFrameBuffer (setUpFramebuffer s) num).1

theorem infoAgrees_iff : InfoAgrees s num ↔
    screenInfo s.mem (s.framebuffers 0 + 80 * num.setWidth 64) =
      screenInfo s.mem (s.framebuffers num) := by
  simp only [InfoAgrees, getScreenInfo, requestFrameBuffer, Screen.framebuffers, Screen.table,
    setUpFramebuffer]

/-- **Which screen is described.** For every response, every one of its framebuffers and all
structures apart from the response: whatever the structures hold, `GetScreenInfo` describes the
framebuffer that `RequestFrameBuffer` returns, exactly when this one lies `num` structures behind
the first. -/
theorem getScreenInfo_iff (s : Screen) (num : Byte) (hnum : num.toNat < s.framebufferCount.toNat)
    (hsep : ∀ a, Within (s.framebuffers num) structSize a → ¬ s.InResponse a) :
    (∀ m, (∀ a, s.InResponse a → m a = s.mem a) → InfoAgrees { s with mem := m } num) ↔
      s.framebuffers num = s.framebuffers 0 + 80 * num.setWidth 64 := by
  have hfirst : (0 : Byte).toNat < s.framebufferCount.toNat := by
    have : (0 : Byte).toNat = 0 := rfl
    omega
  constructor
  · intro h
    by_contra hne
    -- another width in the structure, and nothing else
    set p := s.framebuffers 0 + 80 * num.setWidth 64
    set q := s.framebuffers num
    have hsame : ∀ a, s.InResponse a →
        Function.update s.mem (q + 8) (s.mem (p + 8) + 1) a = s.mem a := by
      rintro a ha
      refine Function.update_of_ne ?_ _ _
      rintro rfl
      exact hsep _ (within_add (i := 8) (by decide) (by decide)) ha
    have hagrees := h _ hsame
    rw [infoAgrees_iff, Screen.framebuffers_congr hsame hnum,
      Screen.framebuffers_congr hsame hfirst] at hagrees
    have hwidth := congrArg (fun i => i.width.setWidth 8) hagrees
    simp only [screenInfo, width, load64_setWidth] at hwidth
    have hother : p + 8 ≠ q + 8 := fun heq => hne ((BitVec.add_left_inj 8).mp heq).symm
    rw [Function.update_self, Function.update_of_ne hother] at hwidth
    exact absurd hwidth (by simp)
  · intro heq m hm
    rw [infoAgrees_iff, Screen.framebuffers_congr hm hnum, Screen.framebuffers_congr hm hfirst, heq]

end Several

/-- A response with two framebuffers, one at `0x1000` and the other at `second`. -/
def twoScreens (second : U64) : Screen where
  mem := storeBytes (storeBytes (storeBytes (storeBytes (fun _ => 0) 0x500
    (bytes64 1 ++ bytes64 2 ++ bytes64 0x600)) 0x600 (bytes64 0x1000 ++ bytes64 second)) 0x1000
      (framebufferBytes 0x100000 3 2 16)) second (framebufferBytes 0x200000 5 4 32)
  response := 0x500
  framebuffer := 0
  fbPtr := 0
  derefs := []

/-- Two structures one behind the other. -/
theorem getScreenInfo_adjacent : (twoScreens 0x1050).framebuffers 1 = 0x1050 ∧
    ∀ m, (∀ a, (twoScreens 0x1050).InResponse a → m a = (twoScreens 0x1050).mem a) →
      InfoAgrees { twoScreens 0x1050 with mem := m } 1 := by
  have hsecond : (twoScreens 0x1050).framebuffers 1 = 0x1050 := by decide
  have htable : (twoScreens 0x1050).table = 0x600 := by decide
  have hcount : (twoScreens 0x1050).framebufferCount = 2 := by decide
  refine ⟨hsecond, (getScreenInfo_iff (twoScreens 0x1050) 1 (by decide) ?_).mpr (by decide)⟩
  rw [hsecond]
  rintro a ha (hin | hin)
  · exact apart_of_le (a := 0x1050) (b := 0x500) (by decide) (by decide) (by decide) a ha hin
  · rw [htable, hcount] at hin
    exact apart_of_le (a := 0x1050) (b := 0x600) (by decide) (by decide) (by decide) a ha hin

/-- Two structures with a gap: screen 1 is described as nothing. -/
theorem getScreenInfo_gap : (1 : Byte).toNat < (twoScreens 0x2000).framebufferCount.toNat ∧
    ¬ InfoAgrees (twoScreens 0x2000) 1 := by
  refine ⟨by decide, fun h => ?_⟩
  rw [infoAgrees_iff] at h
  exact absurd h (by decide)

end DejOs.Framebuffer
