import DejOs.Ecam

/-!
# The PCI scan

`RegisterDriver` of `driver.c` and `get_drivers` of `pcie.c`: three loops over the functions of the
bus, one `pci_device` record that is filled anew for each present function, and a loop over the
registered drivers that asks each of them.

The loop over the drivers goes on after an attach (`continue`, not `break`), so every driver that
wants a function gets it (`attached_eq`). A BAR that reads 0 is not written to the record, which
then still has the value of an earlier function or of the stack (`fill_eq`).
-/

namespace DejOs

/-! ## Drivers -/

/-- A function of the bus, by the counters of the three loops. -/
structure PciFunction where
  bus : Fin 256
  device : Fin 32
  function : Fin 8
  deriving DecidableEq, Repr

/-- `driver_t`. A driver is asked once for each function, so its answers are given by function,
whatever it reads from the record or keeps for itself. -/
structure Driver where
  name : String
  probe : PciFunction → Bool
  attach : PciFunction → Bool

/-- Both answers are `true`. -/
def Driver.takes (d : Driver) (f : PciFunction) : Bool := d.probe f && d.attach f

def maxDrivers : ℕ := 128

/-- `registered_drivers` up to `driver_count`, and the lines logged. -/
structure Registry where
  registered : List Driver
  /-- The arguments of `LogfStr`: the name of the driver is in the place of the format. -/
  log : List (String × String)

/-- `RegisterDriver` -/
def Registry.registerDriver (r : Registry) (d : Driver) : Registry :=
  if r.registered.length < maxDrivers then { r with registered := r.registered ++ [d] }
  else { r with log := r.log ++
    [("Driver %s couldent be loaded because all driver spots are full", d.name)] }

/-- A sequence of calls of `RegisterDriver` at boot. -/
def registerDrivers (calls : List Driver) : Registry := calls.foldl Registry.registerDriver ⟨[], []⟩

theorem foldl_registerDriver (calls : List Driver) (r : Registry)
    (h : r.registered.length ≤ maxDrivers) :
    (calls.foldl Registry.registerDriver r).registered =
      (r.registered ++ calls).take maxDrivers := by
  induction calls generalizing r with
  | nil => rw [List.foldl_nil, List.append_nil, List.take_of_length_le h]
  | cons d calls ih =>
    rw [List.foldl_cons]
    rcases Nat.lt_or_ge r.registered.length maxDrivers with hlt | hge
    · have hr : (r.registerDriver d).registered = r.registered ++ [d] := by
        unfold Registry.registerDriver
        rw [if_pos hlt]
      rw [ih _ (by rw [hr, List.length_append]; exact hlt), hr, List.append_assoc]
      rfl
    · have hr : (r.registerDriver d).registered = r.registered := by
        unfold Registry.registerDriver
        rw [if_neg (by omega)]
      have hlen : r.registered.length = maxDrivers := by omega
      rw [ih _ (by rw [hr]; exact h), hr, List.take_left' hlen, List.take_left' hlen]

theorem registerDrivers_registered (calls : List Driver) :
    (registerDrivers calls).registered = calls.take maxDrivers :=
  foldl_registerDriver calls ⟨[], []⟩ (Nat.zero_le _)

/-! ## Registers -/

/-- Memory, byte by byte; the registers are at `pci_config`. -/
abbrev Config := U64 → Byte

/-- `*(volatile uint16_t *)a` -/
def Config.read16 (config : Config) (a : U64) : BitVec 16 := config (a + 1) ++ config a

/-- `*(volatile uint32_t *)a` -/
def Config.read32 (config : Config) (a : U64) : BitVec 32 :=
  config (a + 3) ++ config (a + 2) ++ config (a + 1) ++ config a

def pciVendorId : U64 := 0x00
def pciDeviceId : U64 := 0x02
def pciClass : U64 := 0x0B
def pciSubclass : U64 := 0x0A
def pciProgIf : U64 := 0x09
def pciHeaderType : U64 := 0x0E

/-- `struct pci_device` -/
@[ext]
structure PciDevice where
  bus : Byte
  device : Byte
  function : Byte
  vendorId : BitVec 16
  deviceId : BitVec 16
  cls : Byte
  subclass : Byte
  progIf : Byte
  headerType : Byte
  bar : Fin 6 → U64

/-- `pci_read_bar` -/
def pciReadBar (config : Config) (bus device function barNum : Byte) : U64 :=
  let cfg := pciConfig bus device function
  let low := config.read32 (cfg + 0x10 + barNum.setWidth 64 * 4)
  if low &&& 1 ≠ 0 then (low &&& ~~~3).setWidth 64
  else if (low >>> 1) &&& 3 = 2 then
    let high := config.read32 (cfg + 0x10 + (barNum.setWidth 64 + 1) * 4)
    high.setWidth 64 <<< 32 ||| (low.setWidth 64 &&& ~~~0xF)
  else low.setWidth 64 &&& ~~~0xF

/-- One round of `get_bars`. -/
def readBar (config : Config) (bus device function : Byte) (p : PciDevice) (n : Fin 6) :
    PciDevice :=
  let barNum := BitVec.ofNat 8 n
  let low := config.read32 (pciConfig bus device function + 0x10 + barNum.setWidth 64 * 4)
  if low = 0 then p
  else { p with bar := Function.update p.bar n (pciReadBar config bus device function barNum) }

/-- `get_bars` -/
def getBars (config : Config) (p : PciDevice) (bus : BitVec 16) (device function : Byte) :
    PciDevice :=
  (List.finRange 6).foldl (readBar config (bus.setWidth 8) device function) p

/-! ## The scan -/

/-- `device_type_t` -/
inductive DeviceType
  | root
  | bus
  | controller
  | disk
  | input
  deriving DecidableEq, Repr

/-- The fields of `device_t` that `get_drivers` sets. -/
structure Device where
  type : DeviceType
  device : PciDevice

/-- What the scan does for a function that can be seen outside. -/
inductive Event
  /-- `registered_drivers[i]->probe(&probe_device)` and the answer -/
  | probe (i : ℕ) (dev : Device) (answer : Bool)
  /-- `registered_drivers[i]->attach(&probe_device)` and the answer -/
  | attach (i : ℕ) (dev : Device) (answer : Bool)
  /-- `LogfStr(mod, format, cls, subclass)` -/
  | log (format : String) (cls subclass : Byte)

def noType : String := "Couldent find a device type for class = %x subclass = %x \n"

def noDriver : String := "Couldn't find a driver for class %x subclass %x\n"

/-- `getdevtype`, with what it logs. -/
def getDevType (cls sub : Byte) : DeviceType × List Event :=
  if cls = 0x01 then (.controller, [])
  else if cls = 0x02 then (.controller, [])
  else if cls = 0x03 then (.controller, [])
  else if cls = 0x04 then (.controller, [])
  else if cls = 0x0C then (if sub = 0x03 then .controller else .bus, [])
  else if cls = 0x06 then (.bus, [])
  else if cls = 0x09 then (.input, [])
  else (.controller, [.log noType cls sub])

namespace PciFunction

def busArg (f : PciFunction) : BitVec 16 := BitVec.ofNat 16 f.bus

def deviceArg (f : PciFunction) : Byte := BitVec.ofNat 8 f.device

def functionArg (f : PciFunction) : Byte := BitVec.ofNat 8 f.function

/-- `cfg` -/
def cfg (f : PciFunction) : U64 := pciConfig (f.busArg.setWidth 8) f.deviceArg f.functionArg

end PciFunction

/-- `vendor_id != 0xFFFF` -/
def Present (config : Config) (f : PciFunction) : Prop :=
  config.read16 (f.cfg + pciVendorId) ≠ 0xFFFF

instance (config : Config) : DecidablePred (Present config) := fun _ =>
  inferInstanceAs (Decidable (_ ≠ _))

/-- The record of a present function, over what it was before. The fields are read as words and
kept as bytes. -/
def fill (config : Config) (p : PciDevice) (f : PciFunction) : PciDevice :=
  getBars config
    { p with
      cls := (config.read16 (f.cfg + pciClass)).setWidth 8
      subclass := (config.read16 (f.cfg + pciSubclass)).setWidth 8
      bus := f.busArg.setWidth 8
      device := f.deviceArg
      function := f.functionArg
      vendorId := config.read16 (f.cfg + pciVendorId)
      deviceId := config.read16 (f.cfg + pciDeviceId)
      progIf := (config.read16 (f.cfg + pciProgIf)).setWidth 8
      headerType := (config.read16 (f.cfg + pciHeaderType)).setWidth 8 }
    f.busArg f.deviceArg f.functionArg

/-- One round of the loop over the drivers, on `driver` and the events so far. -/
def askDriver (f : PciFunction) (dev : Device) (s : Bool × List Event) (d : Driver × ℕ) :
    Bool × List Event :=
  let s := (s.1, s.2 ++ [.probe d.2 dev (d.1.probe f)])
  if d.1.probe f then
    let s := (s.1, s.2 ++ [.attach d.2 dev (d.1.attach f)])
    if d.1.attach f then (true, s.2) else s
  else s

/-- `probe_pci`, and the events so far with the functions they are for. -/
structure Scan where
  probePci : PciDevice
  events : List (PciFunction × Event)

/-- The body of the loops of `get_drivers`. -/
def Scan.visit (ds : List Driver) (config : Config) (s : Scan) (f : PciFunction) : Scan :=
  if Present config f then
    let probePci := fill config s.probePci f
    let (type, logged) := getDevType probePci.cls probePci.subclass
    let (driver, asked) := ds.zipIdx.foldl (askDriver f ⟨type, probePci⟩) (false, logged)
    let events :=
      if driver then asked else asked ++ [.log noDriver probePci.cls probePci.subclass]
    ⟨probePci, s.events ++ events.map (Prod.mk f)⟩
  else s

/-- `get_drivers`, from what the stack held. -/
def getDrivers (ds : List Driver) (config : Config) (stack : PciDevice) : Scan :=
  (List.finRange 256).foldl (fun s bus =>
    (List.finRange 32).foldl (fun s device =>
      (List.finRange 8).foldl (fun s function => s.visit ds config ⟨bus, device, function⟩) s) s)
    ⟨stack, []⟩

/-! ## One scan, function by function -/

/-- The functions in the order of the scan. -/
def functions : List PciFunction :=
  (List.finRange 256 ×ˢ List.finRange 32 ×ˢ List.finRange 8).map fun x => ⟨x.1, x.2.1, x.2.2⟩

theorem getDrivers_eq (ds : List Driver) (config : Config) (stack : PciDevice) :
    getDrivers ds config stack = functions.foldl (Scan.visit ds config) ⟨stack, []⟩ := by
  unfold getDrivers functions
  simp only [SProd.sprod, List.product, List.foldl_map, List.foldl_flatMap]

theorem mem_functions (f : PciFunction) : f ∈ functions :=
  List.mem_map.mpr ⟨(f.bus, f.device, f.function), by simp, rfl⟩

theorem nodup_functions : functions.Nodup := by
  have hinj : Function.Injective
      fun x : Fin 256 × Fin 32 × Fin 8 => (⟨x.1, x.2.1, x.2.2⟩ : PciFunction) := by
    rintro ⟨b, d, f⟩ ⟨b', d', f'⟩ h
    cases h
    rfl
  refine List.Nodup.map hinj ?_
  exact (List.nodup_finRange _).product ((List.nodup_finRange _).product (List.nodup_finRange _))

/-- What the scan did for a function. -/
def Scan.eventsAt (s : Scan) (f : PciFunction) : List Event :=
  (s.events.filter fun e => e.1 = f).map Prod.snd

/-- What the driver loop does with a driver. -/
def asked (f : PciFunction) (dev : Device) (d : Driver × ℕ) : List Event :=
  .probe d.2 dev (d.1.probe f) :: if d.1.probe f then [.attach d.2 dev (d.1.attach f)] else []

theorem foldl_askDriver (f : PciFunction) (dev : Device) (l : List (Driver × ℕ)) (b : Bool)
    (es : List Event) : l.foldl (askDriver f dev) (b, es) =
      (b || l.any fun d => d.1.takes f, es ++ l.flatMap (asked f dev)) := by
  induction l generalizing b es with
  | nil => simp
  | cons d l ih =>
    have hstep : askDriver f dev (b, es) d = (b || d.1.takes f, es ++ asked f dev d) := by
      unfold askDriver asked Driver.takes
      cases d.1.probe f <;> cases d.1.attach f <;> simp
    rw [List.foldl_cons, hstep, ih]
    simp [Bool.or_assoc]

/-- The type and the record a function is shown with. -/
def shown (p : PciDevice) : Device := ⟨(getDevType p.cls p.subclass).1, p⟩

/-- The events of a present function with the record `p`. -/
def visited (ds : List Driver) (p : PciDevice) (f : PciFunction) : List Event :=
  (getDevType p.cls p.subclass).2 ++ ds.zipIdx.flatMap (asked f (shown p)) ++
    if ds.any fun d => d.takes f then [] else [.log noDriver p.cls p.subclass]

section Visit

variable {ds : List Driver} {config : Config} {s : Scan} {f g : PciFunction}

theorem visit_of_not_present (h : ¬ Present config f) : s.visit ds config f = s := if_neg h

theorem visit_of_present (h : Present config f) : s.visit ds config f =
    ⟨fill config s.probePci f,
      s.events ++ (visited ds (fill config s.probePci f) f).map (Prod.mk f)⟩ := by
  unfold Scan.visit
  rw [if_pos h]
  dsimp only
  rw [foldl_askDriver]
  have hany : (ds.zipIdx.any fun d => d.1.takes f) = ds.any fun d => d.takes f := by
    conv_rhs => rw [← List.zipIdx_map_fst 0 ds, List.any_map]
    rfl
  rw [hany, Bool.false_or]
  unfold visited shown
  cases ds.any fun d => d.takes f <;> simp

theorem visit_eventsAt_self : (s.visit ds config f).eventsAt f =
    s.eventsAt f ++ if Present config f then visited ds (fill config s.probePci f) f else [] := by
  split_ifs with h
  · rw [visit_of_present h]
    simp [Scan.eventsAt, List.filter_map, Function.comp_def]
  · rw [visit_of_not_present h, List.append_nil]

theorem visit_eventsAt_of_ne (hne : g ≠ f) : (s.visit ds config g).eventsAt f = s.eventsAt f := by
  by_cases h : Present config g
  · rw [visit_of_present h]
    simp [Scan.eventsAt, List.filter_map, Function.comp_def, hne]
  · rw [visit_of_not_present h]

theorem foldl_eventsAt_of_not_mem {l : List PciFunction} (h : f ∉ l) :
    (l.foldl (Scan.visit ds config) s).eventsAt f = s.eventsAt f := by
  induction l generalizing s with
  | nil => rfl
  | cons g l ih =>
    rw [List.mem_cons, not_or] at h
    rw [List.foldl_cons, ih h.2, visit_eventsAt_of_ne (Ne.symm h.1)]

/-- A function is visited once, over the record that the functions before it left. -/
theorem getDrivers_eventsAt (ds : List Driver) (config : Config) (stack : PciDevice)
    (f : PciFunction) : ∃ before : List PciFunction, f ∉ before ∧
      (getDrivers ds config stack).eventsAt f =
      if Present config f then
        visited ds (fill config (before.foldl (Scan.visit ds config) ⟨stack, []⟩).probePci f) f
      else [] := by
  obtain ⟨before, after, hl⟩ := List.append_of_mem (mem_functions f)
  have hnd := nodup_functions
  rw [hl, List.nodup_append, List.nodup_cons] at hnd
  obtain ⟨-, ⟨hafter, -⟩, hdis⟩ := hnd
  have hbefore : f ∉ before := fun hm => hdis f hm f List.mem_cons_self rfl
  refine ⟨before, hbefore, ?_⟩
  rw [getDrivers_eq, hl, List.foldl_append, List.foldl_cons, foldl_eventsAt_of_not_mem hafter,
    visit_eventsAt_self, foldl_eventsAt_of_not_mem hbefore]
  rfl

end Visit

/-! ## Which drivers get a function -/

/-- The drivers that were attached, in order. -/
def attached (es : List Event) : List ℕ :=
  es.filterMap fun
    | .attach i _ true => some i
    | _ => none

/-- How often "no driver" was logged. -/
def noDriverLogs (es : List Event) : ℕ :=
  es.countP fun
    | .log format _ _ => format = noDriver
    | _ => false

/-- The drivers that take a function, numbered from `k` on. -/
def takers (f : PciFunction) (ds : List Driver) (k : ℕ) : List ℕ :=
  (ds.zipIdx k).filterMap fun d => if d.1.takes f then some d.2 else none

section Takers

variable {f : PciFunction} {ds : List Driver}

theorem takers_cons (d : Driver) (k : ℕ) : takers f (d :: ds) k =
    if d.takes f then k :: takers f ds (k + 1) else takers f ds (k + 1) := by
  unfold takers
  rw [List.zipIdx_cons, List.filterMap_cons]
  split_ifs <;> rfl

theorem length_takers (k : ℕ) : (takers f ds k).length = ds.countP fun d => d.takes f := by
  induction ds generalizing k with
  | nil => rfl
  | cons d ds ih =>
    rw [takers_cons, List.countP_cons]
    split_ifs
    · rw [List.length_cons, ih]
    · exact ih _

theorem head_takers (k : ℕ) :
    (takers f ds k).head? = (ds.findIdx? fun d => d.takes f).map (· + k) := by
  induction ds generalizing k with
  | nil => rfl
  | cons d ds ih =>
    rw [takers_cons, List.findIdx?_cons]
    split_ifs
    · simp
    · rw [ih, Option.map_map]
      congr 1
      funext i
      show i + (k + 1) = i + 1 + k
      omega

/-- The first of them is the only one exactly when there are not two. -/
theorem takers_eq_iff : takers f ds 0 = (ds.findIdx? fun d => d.takes f).toList ↔
    (ds.countP fun d => d.takes f) ≤ 1 := by
  have hhead := @head_takers f ds 0
  rw [← @length_takers f ds 0]
  have hid : (ds.findIdx? fun d => d.takes f).map (· + 0) = ds.findIdx? fun d => d.takes f := by
    simp
  rw [hid] at hhead
  rw [← hhead]
  cases h : takers f ds 0 with
  | nil => simp
  | cons i l => simp

theorem getDevType_events (cls sub : Byte) :
    (getDevType cls sub).2 = [] ∨ (getDevType cls sub).2 = [.log noType cls sub] := by
  unfold getDevType
  split_ifs <;> simp

theorem attached_append (es es' : List Event) :
    attached (es ++ es') = attached es ++ attached es' := List.filterMap_append

theorem attached_log (format : String) (cls sub : Byte) : attached [.log format cls sub] = [] := rfl

theorem attached_asked (dev : Device) (d : Driver × ℕ) :
    attached (asked f dev d) = (if d.1.takes f then some d.2 else none).toList := by
  unfold asked Driver.takes
  cases d.1.probe f <;> cases d.1.attach f <;> rfl

theorem attached_visited (p : PciDevice) : attached (visited ds p f) = takers f ds 0 := by
  have hdev : attached (getDevType p.cls p.subclass).2 = [] := by
    rcases getDevType_events p.cls p.subclass with h | h <;> rw [h]
    · rfl
    · exact attached_log ..
  have hend : attached (if ds.any fun d => d.takes f then []
      else [.log noDriver p.cls p.subclass]) = [] := by
    split_ifs
    · rfl
    · exact attached_log ..
  unfold visited
  rw [attached_append, attached_append, hdev, hend, List.nil_append, List.append_nil]
  unfold takers
  rw [List.filterMap_eq_flatMap_toList]
  simp only [← attached_asked (f := f) (shown p)]
  exact List.filterMap_flatMap

theorem noDriverLogs_append (es es' : List Event) :
    noDriverLogs (es ++ es') = noDriverLogs es + noDriverLogs es' := List.countP_append

theorem noDriverLogs_asked (dev : Device) (l : List (Driver × ℕ)) :
    noDriverLogs (l.flatMap (asked f dev)) = 0 := by
  refine List.countP_eq_zero.mpr fun e he => ?_
  obtain ⟨d, -, he⟩ := List.mem_flatMap.mp he
  unfold asked at he
  split_ifs at he <;> simp at he
  · rcases he with rfl | rfl <;> simp
  · subst he
    simp

theorem noDriverLogs_visited (p : PciDevice) : noDriverLogs (visited ds p f) =
    if (ds.findIdx? fun d => d.takes f) = none then 1 else 0 := by
  have hdev : noDriverLogs (getDevType p.cls p.subclass).2 = 0 := by
    rcases getDevType_events p.cls p.subclass with h | h <;> rw [h]
    · rfl
    · exact List.countP_eq_zero.mpr (by simp [noType, noDriver])
  have hany : (ds.any fun d => d.takes f) = true ↔ ¬ (ds.findIdx? fun d => d.takes f) = none := by
    rw [List.findIdx?_eq_none_iff, List.any_eq_true]
    simp
  unfold visited
  rw [noDriverLogs_append, noDriverLogs_append, hdev, noDriverLogs_asked]
  by_cases hnone : (ds.findIdx? fun d => d.takes f) = none
  · rw [if_neg (by rw [hany]; exact not_not.mpr hnone), if_pos hnone]
    simp [noDriverLogs]
  · rw [if_pos (hany.mpr hnone), if_neg hnone]
    rfl

end Takers

/-- The first in the order of the calls, among the first 128, that takes a function. -/
def firstTaker (calls : List Driver) (f : PciFunction) : Option ℕ :=
  (calls.take maxDrivers).findIdx? fun d => d.takes f

/-- A present function is attached to its first taker only, and "no driver" is logged, once, for the
present functions that have none. -/
def AttachedRight (calls : List Driver) (config : Config) (es : List Event) (f : PciFunction) :
    Prop :=
  (Present config f → attached es = (firstTaker calls f).toList) ∧
    noDriverLogs es = if Present config f ∧ firstTaker calls f = none then 1 else 0

section Attach

variable {calls : List Driver} {config : Config} {stack : PciDevice} {f : PciFunction}

theorem attached_eq (h : Present config f) :
    attached ((getDrivers (registerDrivers calls).registered config stack).eventsAt f) =
      takers f (calls.take maxDrivers) 0 := by
  obtain ⟨_, -, hp⟩ := getDrivers_eventsAt (registerDrivers calls).registered config stack f
  rw [hp, if_pos h, attached_visited, registerDrivers_registered]

theorem noDriverLogs_eq :
    noDriverLogs ((getDrivers (registerDrivers calls).registered config stack).eventsAt f) =
      if Present config f ∧ firstTaker calls f = none then 1 else 0 := by
  obtain ⟨_, -, hp⟩ := getDrivers_eventsAt (registerDrivers calls).registered config stack f
  rw [hp]
  by_cases h : Present config f
  · rw [if_pos h, noDriverLogs_visited, registerDrivers_registered]
    simp only [h, true_and]
    rfl
  · rw [if_neg h, if_neg fun hp => h hp.1]
    rfl

/-- **Which driver gets a function.** Every present function is attached to the first taker only,
and "no driver" is logged for those without one, if and only if no present function has two takers
among the first 128 registered drivers. -/
theorem attachedRight_iff (calls : List Driver) (config : Config) (stack : PciDevice) :
    (∀ f, AttachedRight calls config
      ((getDrivers (registerDrivers calls).registered config stack).eventsAt f) f) ↔
      ∀ f, Present config f → ((calls.take maxDrivers).countP fun d => d.takes f) ≤ 1 := by
  refine forall_congr' fun f => ?_
  unfold AttachedRight
  rw [and_iff_left noDriverLogs_eq]
  refine imp_congr_right fun h => ?_
  rw [attached_eq h]
  exact takers_eq_iff

/-- Two drivers that take every function, and a bus of zeros: the first function has both. -/
theorem attached_twice :
    ¬ ∀ (calls : List Driver) (config : Config) (stack : PciDevice) (f : PciFunction),
      AttachedRight calls config
        ((getDrivers (registerDrivers calls).registered config stack).eventsAt f) f := by
  intro hall
  let d : Driver := ⟨"generic", fun _ => true, fun _ => true⟩
  have h : Present (fun _ => 0) ⟨0, 0, 0⟩ := by decide
  have hone := (hall [d, d] (fun _ => 0) ⟨0, 0, 0, 0, 0, 0, 0, 0, 0, fun _ => 0⟩ ⟨0, 0, 0⟩).1 h
  rw [attached_eq h] at hone
  exact absurd hone (by decide)

end Attach

/-! ## The record a driver is shown -/

/-- The registers of `f` are the same. -/
def AgreeOn (f : PciFunction) (config config' : Config) : Prop :=
  ∀ r : U64, r.toNat < 4096 → config (f.cfg + r) = config' (f.cfg + r)

/-- BAR `n` of a function. -/
def barDword (config : Config) (f : PciFunction) (n : Fin 6) : BitVec 32 :=
  config.read32 (f.cfg + 0x10 + (BitVec.ofNat 8 n).setWidth 64 * 4)

/-- The record a driver is shown. -/
def Event.device : Event → Option PciDevice
  | .probe _ dev _ | .attach _ dev _ => some dev.device
  | .log _ _ _ => none

/-- The records the drivers were shown. -/
def passed (es : List Event) : List PciDevice := es.filterMap Event.device

section Record

variable {config config' : Config} {f g : PciFunction} {p : PciDevice}

theorem foldl_readBar {bus device function : Byte} (l : List (Fin 6)) (p : PciDevice) :
    l.foldl (readBar config bus device function) p = { p with
      bar := fun n => if n ∈ l ∧ config.read32 (pciConfig bus device function + 0x10 +
          (BitVec.ofNat 8 n).setWidth 64 * 4) ≠ 0
        then pciReadBar config bus device function (BitVec.ofNat 8 n) else p.bar n } := by
  induction l generalizing p with
  | nil => simp
  | cons m l ih =>
    rw [List.foldl_cons, ih]
    unfold readBar
    dsimp only
    split_ifs with hz <;> congr 1 <;> funext n <;> rcases eq_or_ne n m with rfl | hne
    · rw [if_neg fun h => h.2 hz, if_neg fun h => h.2 hz]
    · simp only [List.mem_cons, hne, false_or]
    · dsimp only
      rw [if_pos (⟨List.mem_cons_self, hz⟩ : n ∈ n :: l ∧ _), Function.update_self, ite_self]
    · simp only [List.mem_cons, hne, false_or, Function.update_of_ne hne]

/-- The record of a function: a BAR that reads 0 keeps its old value. -/
theorem fill_eq (config : Config) (p : PciDevice) (f : PciFunction) : fill config p f =
    { bus := f.busArg.setWidth 8
      device := f.deviceArg
      function := f.functionArg
      vendorId := config.read16 (f.cfg + pciVendorId)
      deviceId := config.read16 (f.cfg + pciDeviceId)
      cls := (config.read16 (f.cfg + pciClass)).setWidth 8
      subclass := (config.read16 (f.cfg + pciSubclass)).setWidth 8
      progIf := (config.read16 (f.cfg + pciProgIf)).setWidth 8
      headerType := (config.read16 (f.cfg + pciHeaderType)).setWidth 8
      bar := fun n => if barDword config f n = 0 then p.bar n else
        pciReadBar config (f.busArg.setWidth 8) f.deviceArg f.functionArg (BitVec.ofNat 8 n) } := by
  unfold fill getBars
  rw [foldl_readBar]
  congr 1
  funext n
  have hmem := List.mem_finRange n
  unfold barDword PciFunction.cfg
  split_ifs <;> simp_all

theorem AgreeOn.read16 (h : AgreeOn f config config') {r : U64} (hr : r.toNat < 4095) :
    config.read16 (f.cfg + r) = config'.read16 (f.cfg + r) := by
  have hnext : (r + 1).toNat < 4096 := by
    rw [BitVec.toNat_add]
    show (r.toNat + 1) % 2 ^ 64 < 4096
    omega
  unfold Config.read16
  rw [BitVec.add_assoc, h r (by omega), h (r + 1) hnext]

theorem AgreeOn.read32 (h : AgreeOn f config config') {r : U64} (hr : r.toNat < 4093) :
    config.read32 (f.cfg + r) = config'.read32 (f.cfg + r) := by
  have hnext : ∀ k : U64, k.toNat < 4 → config (f.cfg + r + k) = config' (f.cfg + r + k) := by
    intro k hk
    rw [BitVec.add_assoc]
    refine h _ ?_
    rw [BitVec.toNat_add]
    omega
  unfold Config.read32
  rw [h r (by omega), hnext 1 (by decide), hnext 2 (by decide), hnext 3 (by decide)]

theorem bar_offset (n : Fin 6) : (0x10 + (BitVec.ofNat 8 n).setWidth 64 * 4 : U64).toNat < 64 ∧
    (0x10 + ((BitVec.ofNat 8 n).setWidth 64 + 1) * 4 : U64).toNat < 64 := by
  fin_cases n <;> decide

theorem AgreeOn.barDword (h : AgreeOn f config config') (n : Fin 6) :
    barDword config f n = barDword config' f n := by
  have hoff := (bar_offset n).1
  unfold DejOs.barDword
  rw [BitVec.add_assoc]
  exact h.read32 (by omega)

theorem AgreeOn.pciReadBar (h : AgreeOn f config config') (n : Fin 6) :
    pciReadBar config (f.busArg.setWidth 8) f.deviceArg f.functionArg (BitVec.ofNat 8 n) =
      pciReadBar config' (f.busArg.setWidth 8) f.deviceArg f.functionArg (BitVec.ofNat 8 n) := by
  obtain ⟨hlow, hhigh⟩ := bar_offset n
  have hl := h.read32 (r := 0x10 + (BitVec.ofNat 8 n).setWidth 64 * 4) (by omega)
  have hh := h.read32 (r := 0x10 + ((BitVec.ofNat 8 n).setWidth 64 + 1) * 4) (by omega)
  rw [← BitVec.add_assoc] at hl hh
  unfold PciFunction.cfg at hl hh
  unfold DejOs.pciReadBar
  dsimp only
  rw [hl, hh]

theorem AgreeOn.present (h : AgreeOn f config config') : Present config f ↔ Present config' f := by
  unfold Present
  rw [h.read16 (by decide)]

/-- With all BARs nonzero, nothing of the old record is left. -/
theorem AgreeOn.fill (h : AgreeOn f config config') (hbar : ∀ n, DejOs.barDword config f n ≠ 0)
    (p p' : PciDevice) : fill config p f = fill config' p' f := by
  rw [fill_eq, fill_eq, h.read16 (by decide), h.read16 (by decide), h.read16 (by decide),
    h.read16 (by decide), h.read16 (by decide), h.read16 (by decide)]
  congr 1
  funext n
  rw [if_neg (hbar n), if_neg (by rw [← h.barDword]; exact hbar n), h.pciReadBar]

end Record

/-- The registers of `f`, with no other function on the bus. -/
def alone (config : Config) (f : PciFunction) : Config :=
  fun a => if (a - f.cfg).toNat < 4096 then config a else 0xFF

section Stale

variable {config : Config} {f g : PciFunction}

theorem PciFunction.cfg_toNat (f : PciFunction) : f.cfg.toNat =
    0xFFFFFFFFF0000000 + 4096 * (f.bus * 256 + f.device * 8 + f.function) := by
  have hb := f.bus.isLt
  have hd : f.deviceArg.toNat = f.device := by
    unfold deviceArg
    rw [BitVec.toNat_ofNat]
    omega
  have hf : f.functionArg.toNat = f.function := by
    unfold functionArg
    rw [BitVec.toNat_ofNat]
    omega
  have hbus : (f.busArg.setWidth 8).toNat = f.bus := by
    unfold busArg
    rw [BitVec.toNat_setWidth, BitVec.toNat_ofNat]
    omega
  have hd32 : f.deviceArg.toNat < 32 := by omega
  have hf8 : f.functionArg.toNat < 8 := by omega
  unfold cfg
  rw [pciConfig_eq hd32 hf8, ← BitVec.add_zero (pageAt _ _),
    pageAt_ecam_toNat (ecamPage_lt hd32 hf8) (by decide)]
  unfold ecamPage
  rw [hbus, hd, hf]
  rfl

theorem agreeOn_alone : AgreeOn f config (alone config f) := by
  intro r hr
  unfold alone
  rw [BitVec.add_comm f.cfg r, BitVec.add_sub_cancel, if_pos hr]

theorem cfg_apart (hne : g ≠ f) {r : U64} (hr : r.toNat < 4096) :
    4096 ≤ (g.cfg + r - f.cfg).toNat := by
  have hpages : (g.bus * 256 + g.device * 8 + g.function : ℕ) ≠
      f.bus * 256 + f.device * 8 + f.function := by
    intro h
    apply hne
    obtain ⟨gb, gd, gf⟩ := g
    obtain ⟨fb, fd, ff⟩ := f
    simp only [PciFunction.mk.injEq, Fin.ext_iff]
    dsimp only at h
    omega
  have hg := g.cfg_toNat
  have hf := f.cfg_toNat
  rw [BitVec.toNat_sub, BitVec.toNat_add, hg, hf]
  omega

theorem not_present_alone (hne : g ≠ f) : ¬ Present (alone config f) g := by
  have hff : ∀ r : U64, r.toNat < 4096 → alone config f (g.cfg + r) = 0xFF := fun r hr =>
    if_neg (Nat.not_lt.mpr (cfg_apart hne hr))
  unfold Present Config.read16 pciVendorId
  rw [BitVec.add_assoc, hff _ (by decide), hff _ (by decide)]
  decide

theorem foldl_of_not_present {ds : List Driver} {s : Scan} {l : List PciFunction}
    (h : ∀ g ∈ l, ¬ Present config g) : l.foldl (Scan.visit ds config) s = s := by
  induction l with
  | nil => rfl
  | cons g l ih =>
    rw [List.foldl_cons, visit_of_not_present (h g List.mem_cons_self)]
    exact ih fun k hk => h k (List.mem_cons_of_mem _ hk)

/-- Alone on the bus, a function is shown over what the stack held. -/
theorem alone_eventsAt (ds : List Driver) (stack : PciDevice) (h : Present config f) :
    (getDrivers ds (alone config f) stack).eventsAt f =
      visited ds (fill (alone config f) stack f) f := by
  obtain ⟨before, hbefore, he⟩ := getDrivers_eventsAt ds (alone config f) stack f
  rw [he, if_pos (agreeOn_alone.present.mp h),
    foldl_of_not_present fun g hg => not_present_alone (ne_of_mem_of_not_mem hg hbefore)]

theorem eq_of_mem_passed {ds : List Driver} {p d : PciDevice} (h : d ∈ passed (visited ds p f)) :
    d = p := by
  obtain ⟨e, he, hd⟩ := List.mem_filterMap.mp h
  unfold visited at he
  rcases List.mem_append.mp he with he | he
  · rcases List.mem_append.mp he with he | he
    · rcases getDevType_events p.cls p.subclass with hev | hev <;> rw [hev] at he
      · cases he
      · rw [List.mem_singleton.mp he] at hd
        cases hd
    · obtain ⟨x, -, he⟩ := List.mem_flatMap.mp he
      unfold asked at he
      rcases List.mem_cons.mp he with rfl | he
      · exact (Option.some.inj hd).symm
      · split_ifs at he
        · rw [List.mem_singleton.mp he] at hd
          exact (Option.some.inj hd).symm
        · cases he
  · split_ifs at he
    · cases he
    · rw [List.mem_singleton.mp he] at hd
      cases hd

theorem mem_passed_single (d : Driver) (p : PciDevice) (f : PciFunction) :
    p ∈ passed (visited [d] p f) := by
  refine List.mem_filterMap.mpr ⟨.probe 0 (shown p) (d.probe f), ?_, rfl⟩
  simp [visited, asked]

/-- The records shown for `f` are the same in all scans of buses that agree on `f`. -/
def SameRecord (config : Config) (f : PciFunction) : Prop :=
  ∀ (calls calls' : List Driver) (config' : Config) (stack stack' : PciDevice),
    AgreeOn f config config' →
    ∀ d ∈ passed ((getDrivers (registerDrivers calls).registered config stack).eventsAt f),
    ∀ d' ∈ passed ((getDrivers (registerDrivers calls').registered config' stack').eventsAt f),
      d = d'

theorem sameRecord_of_not_present (h : ¬ Present config f) : SameRecord config f := by
  intro calls calls' config' stack stack' hagree d hd
  obtain ⟨_, -, he⟩ := getDrivers_eventsAt (registerDrivers calls).registered config stack f
  rw [he, if_neg h] at hd
  cases hd

theorem sameRecord_of_bars (h : Present config f) (hbar : ∀ n, barDword config f n ≠ 0) :
    SameRecord config f := by
  intro calls calls' config' stack stack' hagree d hd d' hd'
  obtain ⟨_, -, he⟩ := getDrivers_eventsAt (registerDrivers calls).registered config stack f
  obtain ⟨_, -, he'⟩ := getDrivers_eventsAt (registerDrivers calls').registered config' stack' f
  rw [he, if_pos h] at hd
  rw [he', if_pos (hagree.present.mp h)] at hd'
  rw [eq_of_mem_passed hd, eq_of_mem_passed hd']
  exact hagree.fill hbar _ _

/-- A BAR that reads 0 shows the stack, when no other function is on the bus. -/
theorem not_sameRecord (h : Present config f) {n : Fin 6} (hn : barDword config f n = 0) :
    ¬ SameRecord config f := by
  intro hs
  let d : Driver := ⟨"generic", fun _ => true, fun _ => true⟩
  let blank (v : U64) : PciDevice := ⟨0, 0, 0, 0, 0, 0, 0, 0, 0, fun _ => v⟩
  have hreg : (registerDrivers [d]).registered = [d] := registerDrivers_registered [d]
  obtain ⟨before, -, he⟩ := getDrivers_eventsAt [d] config (blank 0) f
  rw [if_pos h] at he
  -- two stacks, and the same scan of `config` to compare both with
  have hsame : ∀ v, (fill config (before.foldl (Scan.visit [d] config) ⟨blank 0, []⟩).probePci f) =
      fill (alone config f) (blank v) f := by
    intro v
    refine hs [d] [d] (alone config f) (blank 0) (blank v) agreeOn_alone _ ?_ _ ?_
    · rw [hreg, he]
      exact mem_passed_single ..
    · rw [hreg, alone_eventsAt _ _ h]
      exact mem_passed_single ..
  have hbar : ∀ v, (fill (alone config f) (blank v) f).bar n = v := by
    intro v
    rw [fill_eq]
    exact if_pos (agreeOn_alone.barDword n ▸ hn)
  have h01 := (hsame 0).symm.trans (hsame 1)
  have hzero := hbar 0
  rw [h01, hbar 1] at hzero
  exact absurd hzero (by decide)

/-- **The record.** The records shown for a function are the same in all scans of buses that agree
on its registers, whatever the stack held, if and only if the function is absent or none of its BARs
reads 0. -/
theorem sameRecord_iff (config : Config) (f : PciFunction) :
    SameRecord config f ↔ (Present config f → ∀ n, barDword config f n ≠ 0) := by
  constructor
  · intro hs h n hn
    exact not_sameRecord h hn hs
  · intro h
    by_cases hp : Present config f
    · exact sameRecord_of_bars hp (h hp)
    · exact sameRecord_of_not_present hp

/-- On a bus of zeros the first function is present and all of its BARs read 0. -/
theorem record_of_stack : ¬ ∀ (config : Config) (f : PciFunction), SameRecord config f := by
  intro hall
  have h : Present (fun _ => 0) ⟨0, 0, 0⟩ := by decide
  have hn : barDword (fun _ => 0) ⟨0, 0, 0⟩ 0 = 0 := by decide
  exact not_sameRecord h hn (hall _ _)

end Stale

end DejOs
