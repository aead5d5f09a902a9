import XmrMiner.Cuda.FindDevice
import XmrMiner.Lib.Schedule

/-!
# Options and the tables of the devices

What is known of a device stands in tables of eight entries.  The options `-t`, `-d` and
`-l` ask for a number of threads, name the devices, and give the launch configurations;
`cuda_deviceinfo` fills the tables for the devices that there are, and each miner thread
reads the entries of its own number.

Neither the number of devices nor the number of threads is compared with the size of the
tables, or with each other.  The model has no bound for its tables and notes instead which
entries are used, so that what it says of a run ends where an entry is none.

## Main definitions

* `atoi` — a number in front of a string.
* `MinerOption`, `parseArg` — the options, and what they write.
* `cudaDeviceinfo`, `minerThread`, `minerMain` — the program from its start to the first scan of
  each of its threads.
* `TablesSafe` — every entry that is used exists, and no thread divides by zero.

## Main results

* `parseOptions_spec`, `cudaDeviceinfo_spec`, `minerThreads_spec` — what the options, the
  devices and the threads leave in the tables.
* `minerMain_isSome_iff` — past the options, only the lack of a device ends the program.
* `tablesSafe_iff` — **for which options the tables are safe.**
-/

namespace XmrMiner

open CString

/-! ### Numbers -/

/-- `isdigit`. -/
def isdigit (c : Byte) : Bool := decide (48 ≤ c.toNat ∧ c.toNat ≤ 57)

/-- The digits in front, read on from `acc`. -/
def readDecimal (acc : ℕ) : List Byte → ℕ
  | [] => acc
  | c :: s => if isdigit c then readDecimal (10 * acc + (c.toNat - 48)) s else acc

/-- `strtol` with base ten: blanks and a sign are skipped, and a number that is no `long`
becomes the nearest one. -/
def strtolDecimal (s : List Byte) : ℤ :=
  let t := s.dropWhile isspace
  let value : ℤ := match t with
    | c :: u =>
      if c = 45 then -readDecimal 0 u else if c = 43 then readDecimal 0 u else readDecimal 0 t
    | [] => 0
  max (-2 ^ 63) (min value (2 ^ 63 - 1))

/-- `atoi`. -/
def atoi (s : List Byte) : ℤ := (BitVec.ofInt 32 (strtolDecimal s)).toInt

/-! ### The tables -/

/-- The size of the tables. -/
def tableSize : ℕ := 8

/-- The tables with an entry for each device. -/
inductive DeviceTable
  | map
  | name
  | mpcount
  | config
  | bfactor
  | bsleep
  deriving DecidableEq

/-- The number of threads, the tables that are computed with, and the entries used so far. -/
structure DeviceTables where
  /-- `opt_n_threads`. -/
  optNThreads : ℕ
  /-- `device_map`. -/
  deviceMap : ℕ → ℕ
  /-- `device_mpcount`. -/
  deviceMpcount : ℕ → ℤ
  /-- `device_config`: blocks and threads. -/
  deviceConfig : ℕ → ℤ × ℤ
  /-- `device_bfactor`. -/
  deviceBfactor : ℕ → ℕ
  /-- The entries that have been read or written; not in the program. -/
  uses : List (DeviceTable × ℕ)

/-- Entry `i` of some tables is read or written. -/
def DeviceTables.use (s : DeviceTables) (i : ℕ) (tables : List DeviceTable) : DeviceTables :=
  { s with uses := s.uses ++ tables.map fun table => (table, i) }

/-- `opt_cn_blocks`. -/
def optCnBlocks : ℤ := 0

/-- `opt_cn_threads`. -/
def optCnThreads : ℤ := 8

/-- `default_bfactor`, other than on Windows. -/
def defaultBfactor : ℕ := 0

/-- The tables before the options are read. -/
def initialTables : DeviceTables where
  optNThreads := 0
  deviceMap := id
  deviceMpcount := fun _ => 0
  deviceConfig := fun _ => (optCnBlocks, optCnThreads)
  deviceBfactor := fun _ => defaultBfactor
  uses := (List.range tableSize).flatMap fun i => [(.config, i), (.bfactor, i), (.bsleep, i)]

/-! ### The options -/

/-- What the runtime says of a device. -/
structure DeviceProp where
  /-- `name`. -/
  name : List Byte
  /-- `multiProcessorCount`. -/
  multiProcessorCount : ℤ
  /-- A device has a multiprocessor. -/
  multiProcessorCount_pos : 0 < multiProcessorCount

/-- The options for the number of threads, the devices and the launch configurations, with
their arguments. -/
inductive MinerOption
  | t (arg : List Byte)
  | d (arg : List Byte)
  | l (arg : List Byte)

/-- The character `,`. -/
def listDelim : Byte := 44

/-- The character `x`. -/
def configDelim : Byte := 120

/-- The device that a token of `-d` stands for: a digit is its number. -/
def deviceOf (devices : List DeviceProp) (pch : List Byte) : ℤ :=
  match pch with
  | [c] => if isdigit c then atoi [c] else cudaFinddevice (devices.map (·.name)) [c]
  | pch => cudaFinddevice (devices.map (·.name)) pch

/-- One turn of the loop of `-d`; none is `exit`. -/
def addDevice (devices : List DeviceProp) (s : DeviceTables) (pch : List Byte) :
    Option DeviceTables :=
  let device := deviceOf devices pch
  if 0 ≤ device ∧ device < devices.length then
    some ({ s with
      deviceMap := Function.update s.deviceMap s.optNThreads device.toNat
      optNThreads := s.optNThreads + 1 }.use s.optNThreads [.map])
  else none

/-- `parse_device_config`: the blocks and the threads. -/
def parseDeviceConfig (device : ℕ) (config : List Byte) (s : DeviceTables) :
    (ℤ × ℤ) × DeviceTables :=
  let useDefault := ((4 * s.deviceMpcount device, optCnThreads), s.use device [.mpcount])
  match tokens configDelim config with
  | p :: q :: _ =>
    let tmpThreads := atoi p
    let tmpBlocks := atoi q
    if tmpThreads < 4 ∨ 1024 < tmpThreads then useDefault
    else if tmpBlocks < 1 then useDefault
    else ((tmpBlocks, tmpThreads), s)
  | _ => useDefault

/-- One turn of the loop of `-l`, for the configurations given. -/
def setDeviceConfig (configs : List (List Byte)) (s : DeviceTables) (i : ℕ) : DeviceTables :=
  -- the last configuration is that of the devices behind
  let (config, s') := parseDeviceConfig i (configs.getD i (configs.getLastD [])) s
  { s' with deviceConfig := Function.update s'.deviceConfig i config }.use i [.config]

/-- `parse_arg`; none is `exit`. -/
def parseArg (devices : List DeviceProp) (s : DeviceTables) : MinerOption → Option DeviceTables
  | .t arg =>
    let v := atoi arg
    if v < 1 ∨ 9999 < v then none else some { s with optNThreads := v.toNat }
  | .d arg => (tokens listDelim arg).foldlM (addDevice devices) { s with optNThreads := 0 }
  | .l arg =>
    let configs := tokens listDelim arg
    if configs = [] then none
    else some ((List.range tableSize).foldl (setDeviceConfig configs) s)

/-- The options, one after the other. -/
def parseOptions (devices : List DeviceProp) (options : List MinerOption) : Option DeviceTables :=
  options.foldlM (parseArg devices) initialTables

/-! ### The devices and the threads -/

/-- One turn of the loop of `cuda_deviceinfo`; none is `exit`. -/
def deviceinfo (devices : List DeviceProp) (s : DeviceTables) (i : ℕ) : Option DeviceTables :=
  devices[s.deviceMap i]?.map fun props =>
    { s with deviceMpcount := Function.update s.deviceMpcount i props.multiProcessorCount }.use i
      [.map, .name, .mpcount]

/-- `cuda_deviceinfo`. -/
def cudaDeviceinfo (devices : List DeviceProp) (s : DeviceTables) : Option DeviceTables :=
  (List.range devices.length).foldlM (deviceinfo devices) s

/-- `miner_thread` up to its loop: the number of blocks, if none is given, and what is said of
the device. -/
def minerThreadStart (s : DeviceTables) (thrId : ℕ) : DeviceTables :=
  let s' :=
    if (s.deviceConfig thrId).1 = 0 then
      let config := (4 * s.deviceMpcount thrId, (s.deviceConfig thrId).2)
      { s with deviceConfig := Function.update s.deviceConfig thrId config }.use thrId [.mpcount]
    else s
  s'.use thrId [.config, .map, .name, .mpcount]

/-- `scanhash_cryptonight`, as far as it uses the tables: `device_bsleep` only between the parts
of a launch. -/
def scanTables (s : DeviceTables) (thrId : ℕ) : DeviceTables :=
  let s' := s.use thrId [.config, .map, .bfactor]
  if 1 < 1 <<< s.deviceBfactor thrId then s'.use thrId [.bsleep] else s'

/-- `miner_thread` up to the end of a scan. -/
def minerThread (s : DeviceTables) (thrId : ℕ) : DeviceTables :=
  scanTables (minerThreadStart s thrId) thrId

/-- `main`, from the tables on.  The threads run at once; a thread writes no entry but its own,
so that the order does not matter. -/
def minerMain (devices : List DeviceProp) (options : List MinerOption) : Option DeviceTables :=
  (parseOptions devices options).bind fun s =>
    (cudaDeviceinfo devices s).bind fun s =>
      if devices.length = 0 then none
      else
        let optNThreads := if s.optNThreads = 0 then devices.length else s.optNThreads
        some ((List.range optNThreads).foldl minerThread { s with optNThreads })

/-! ### What is asked of the tables -/

/-- Every entry that has been used exists. -/
def WithinTables (s : DeviceTables) : Prop := ∀ use ∈ s.uses, use.2 < tableSize

/-- Every entry that is used exists, and `device_mpcount[thr_id]` is a divisor in every thread. -/
structure TablesSafe (s : DeviceTables) : Prop where
  /-- All entries exist. -/
  within : WithinTables s
  /-- No thread divides by zero. -/
  divisor : ∀ thrId < s.optNThreads, s.deviceMpcount thrId ≠ 0

/-- The number of threads after an option, if it was `n` before. -/
def MinerOption.threads (n : ℕ) : MinerOption → ℕ
  | .t arg => (atoi arg).toNat
  | .d arg => (tokens listDelim arg).length
  | .l _ => n

/-- The threads that the options ask for: the last of `-t` and `-d` counts. -/
def threadsAsked (options : List MinerOption) : ℕ := options.foldl MinerOption.threads 0

/-! ### The entries used -/

@[simp] theorem use_optNThreads (s : DeviceTables) (i : ℕ) (tables : List DeviceTable) :
    (s.use i tables).optNThreads = s.optNThreads := rfl

@[simp] theorem use_deviceMap (s : DeviceTables) (i : ℕ) (tables : List DeviceTable) :
    (s.use i tables).deviceMap = s.deviceMap := rfl

@[simp] theorem use_deviceMpcount (s : DeviceTables) (i : ℕ) (tables : List DeviceTable) :
    (s.use i tables).deviceMpcount = s.deviceMpcount := rfl

/-- One more entry is used. -/
theorem withinTables_use {s s' : DeviceTables} (huses : s'.uses = s.uses) (i : ℕ)
    (table : DeviceTable) (tables : List DeviceTable) :
    WithinTables (s'.use i (table :: tables)) ↔ WithinTables s ∧ i < tableSize := by
  constructor
  · intro h
    refine ⟨fun u hu => h u ?_, h (table, i) ?_⟩ <;> simp [DeviceTables.use, *]
  · rintro ⟨hs, hi⟩ u hu
    simp only [DeviceTables.use, huses, List.mem_append, List.mem_map] at hu
    rcases hu with hu | ⟨-, -, rfl⟩
    · exact hs u hu
    · exact hi

/-- An entry that exists. -/
theorem withinTables_use_of_lt {s s' : DeviceTables} (huses : s'.uses = s.uses) {i : ℕ}
    (hi : i < tableSize) (table : DeviceTable) (tables : List DeviceTable) :
    WithinTables (s'.use i (table :: tables)) ↔ WithinTables s :=
  (withinTables_use huses i table tables).trans (and_iff_left hi)

theorem withinTables_initialTables : WithinTables initialTables := by
  intro u hu
  simp only [initialTables, List.mem_flatMap, List.mem_range] at hu
  obtain ⟨i, hi, hu⟩ := hu
  simp only [List.mem_cons, List.not_mem_nil, or_false] at hu
  rcases hu with rfl | rfl | rfl <;> exact hi

/-! ### What the options leave in the tables -/

section Options

variable {devices : List DeviceProp} {s s' : DeviceTables}

/-- Each device has the number of one in the map. -/
def MapsToDevices (devices : List DeviceProp) (s : DeviceTables) : Prop :=
  ∀ i < devices.length, s.deviceMap i < devices.length

/-- What no option changes. -/
structure OptionsKeep (devices : List DeviceProp) (s s' : DeviceTables) : Prop where
  /-- The map names devices. -/
  map : MapsToDevices devices s → MapsToDevices devices s'
  /-- The devices are not looked at. -/
  mpcount : s'.deviceMpcount = s.deviceMpcount

namespace OptionsKeep

theorem refl (devices : List DeviceProp) (s : DeviceTables) : OptionsKeep devices s s := ⟨id, rfl⟩

theorem trans {s'' : DeviceTables} (h : OptionsKeep devices s s')
    (h' : OptionsKeep devices s' s'') : OptionsKeep devices s s'' :=
  ⟨fun hs => h'.map (h.map hs), h'.mpcount.trans h.mpcount⟩

end OptionsKeep

/-- A token of `-d`: the next entry of the map. -/
theorem addDevice_spec {pch : List Byte} (h : addDevice devices s pch = some s') :
    OptionsKeep devices s s' ∧ s'.optNThreads = s.optNThreads + 1 ∧
      (WithinTables s' ↔ WithinTables s ∧ s.optNThreads < tableSize) := by
  rw [addDevice] at h
  split at h
  · next hdevice =>
    cases h
    refine ⟨⟨fun hs i hi => ?_, rfl⟩, rfl, withinTables_use rfl _ _ _⟩
    simp only [use_deviceMap, Function.update_apply]
    split
    · omega
    · exact hs i hi
  · cases h

/-- All tokens of `-d`. -/
theorem addDevices_spec {pchs : List (List Byte)}
    (h : pchs.foldlM (addDevice devices) s = some s') :
    OptionsKeep devices s s' ∧ s'.optNThreads = s.optNThreads + pchs.length ∧
      (WithinTables s' ↔
        WithinTables s ∧ ∀ k < pchs.length, s.optNThreads + k < tableSize) := by
  induction pchs generalizing s with
  | nil =>
    cases h
    simp [OptionsKeep.refl]
  | cons pch pchs ih =>
    rw [List.foldlM_cons, Option.bind_eq_bind, Option.bind_eq_some_iff] at h
    obtain ⟨t, hpch, hpchs⟩ := h
    obtain ⟨hkeep, hn, hwithin⟩ := addDevice_spec hpch
    obtain ⟨hkeep', hn', hwithin'⟩ := ih hpchs
    refine ⟨hkeep.trans hkeep', by rw [hn', hn, List.length_cons]; omega, ?_⟩
    rw [hwithin', hwithin, hn, and_assoc, List.length_cons]
    refine and_congr_right fun _ => ⟨?_, fun hall => ⟨?_, fun k hk => ?_⟩⟩
    · rintro ⟨hfirst, hrest⟩ k hk
      cases k with
      | zero => exact hfirst
      | succ k =>
        have hnext := hrest k (by omega)
        omega
    · exact hall 0 (by omega)
    · have hnext := hall (k + 1) (by omega)
      omega

/-- The number of multiprocessors of a device is read if its configuration is none. -/
theorem parseDeviceConfig_cases (device : ℕ) (config : List Byte) (s : DeviceTables) :
    ∃ values, parseDeviceConfig device config s = (values, s) ∨
      parseDeviceConfig device config s = (values, s.use device [.mpcount]) := by
  unfold parseDeviceConfig
  split
  · next p q _ _ =>
    by_cases hthreads : atoi p < 4 ∨ 1024 < atoi p
    · simp [hthreads]
    · by_cases hblocks : atoi q < 1 <;> simp [hthreads, hblocks]
  · exact ⟨_, Or.inr rfl⟩

/-- The launch configuration of a device. -/
theorem setDeviceConfig_spec (configs : List (List Byte)) (s : DeviceTables) {i : ℕ}
    (hi : i < tableSize) :
    OptionsKeep devices s (setDeviceConfig configs s i) ∧
      (setDeviceConfig configs s i).optNThreads = s.optNThreads ∧
      (WithinTables (setDeviceConfig configs s i) ↔ WithinTables s) := by
  obtain ⟨values, hs | hs⟩ :=
    parseDeviceConfig_cases i (configs.getD i (configs.getLastD [])) s
  · rw [setDeviceConfig, hs]
    exact ⟨⟨id, rfl⟩, rfl, withinTables_use_of_lt rfl hi _ _⟩
  · rw [setDeviceConfig, hs]
    have hparse := withinTables_use_of_lt (s := s) rfl hi .mpcount []
    exact ⟨⟨id, rfl⟩, rfl, (withinTables_use_of_lt rfl hi _ _).trans hparse⟩

/-- An option. -/
theorem parseArg_spec {option : MinerOption} (h : parseArg devices s option = some s') :
    OptionsKeep devices s s' ∧ s'.optNThreads = option.threads s.optNThreads ∧
      (WithinTables s' ↔
        WithinTables s ∧ ∀ arg, option = .d arg → (tokens listDelim arg).length ≤ tableSize) := by
  cases option with
  | t arg =>
    simp only [parseArg] at h
    split at h
    · cases h
    · cases h
      exact ⟨⟨id, rfl⟩, rfl, by simp [WithinTables]⟩
  | d arg =>
    obtain ⟨hkeep, hn, hwithin⟩ := addDevices_spec h
    refine ⟨⟨hkeep.map, hkeep.mpcount⟩, by rw [hn, Nat.zero_add]; rfl, hwithin.trans ?_⟩
    refine and_congr_right fun _ => ?_
    simp only [Nat.zero_add, MinerOption.d.injEq, forall_eq']
    exact ⟨fun hall => not_lt.mp fun hlt => absurd (hall _ hlt) (lt_irrefl _),
      fun hle k hk => by omega⟩
  | l arg =>
    simp only [parseArg] at h
    split at h
    · cases h
    · cases h
      have hloop := foldl_range_invariant (f := setDeviceConfig (tokens listDelim arg)) (s := s)
        (P := fun _ t => OptionsKeep devices s t ∧ t.optNThreads = s.optNThreads ∧
          (WithinTables t ↔ WithinTables s))
        ⟨.refl devices s, rfl, Iff.rfl⟩ tableSize fun i hi t ⟨hkeep, hn, hwithin⟩ => by
          obtain ⟨hkeep', hn', hwithin'⟩ := setDeviceConfig_spec (tokens listDelim arg) t hi
          exact ⟨hkeep.trans hkeep', hn'.trans hn, hwithin'.trans hwithin⟩
      exact ⟨hloop.1, hloop.2.1, by simp [hloop.2.2]⟩

/-- **What the options leave**: the number of threads that they ask for, a map of devices, and
entries that exist if no `-d` names more devices than there are entries. -/
theorem parseOptions_spec {options : List MinerOption}
    (h : parseOptions devices options = some s) :
    OptionsKeep devices initialTables s ∧ s.optNThreads = threadsAsked options ∧
      (WithinTables s ↔
        ∀ arg, MinerOption.d arg ∈ options → (tokens listDelim arg).length ≤ tableSize) := by
  induction options using List.reverseRecOn generalizing s with
  | nil =>
    cases h
    exact ⟨.refl _ _, rfl, by simp [withinTables_initialTables]⟩
  | append_singleton options option ih =>
    rw [parseOptions, List.foldlM_append, Option.bind_eq_bind, Option.bind_eq_some_iff] at h
    obtain ⟨t, hoptions, hoption⟩ := h
    obtain ⟨hkeep, hn, hwithin⟩ := ih hoptions
    have hlast : parseArg devices t option = some s := by simpa using hoption
    obtain ⟨hkeep', hn', hwithin'⟩ := parseArg_spec hlast
    refine ⟨hkeep.trans hkeep', ?_, ?_⟩
    · rw [hn', hn, threadsAsked, threadsAsked, List.foldl_append]
      rfl
    · rw [hwithin', hwithin]
      simp only [List.mem_append, List.mem_singleton, or_imp, forall_and, eq_comm]

/-! ### The devices and the threads -/

/-- What the loop of `cuda_deviceinfo` has done after `n` devices. -/
structure DeviceinfoDone (s : DeviceTables) (n : ℕ) (s' : DeviceTables) : Prop where
  /-- The map is read only. -/
  map : s'.deviceMap = s.deviceMap
  /-- The number of threads stays. -/
  threads : s'.optNThreads = s.optNThreads
  /-- A device has its multiprocessors. -/
  filled : ∀ i < n, 0 < s'.deviceMpcount i
  /-- The entries behind stay. -/
  rest : ∀ i, n ≤ i → s'.deviceMpcount i = s.deviceMpcount i
  /-- One entry for each device is used. -/
  within : WithinTables s' ↔ WithinTables s ∧ n ≤ tableSize

/-- One device. -/
theorem DeviceinfoDone.step (hmap : MapsToDevices devices s) {n : ℕ} (hn : n < devices.length)
    (h : DeviceinfoDone s n s') :
    ∃ t, deviceinfo devices s' n = some t ∧ DeviceinfoDone s (n + 1) t := by
  have hlt : s'.deviceMap n < devices.length := by
    rw [h.map]
    exact hmap n hn
  have hinfo : deviceinfo devices s' n = some ({ s' with
      deviceMpcount := Function.update s'.deviceMpcount n
        devices[s'.deviceMap n].multiProcessorCount }.use n [.map, .name, .mpcount]) := by
    rw [deviceinfo, List.getElem?_eq_getElem hlt]
    rfl
  refine ⟨_, hinfo, h.map, h.threads, fun i hi => ?_, fun i hi => ?_, ?_⟩
  · simp only [use_deviceMpcount, Function.update_apply]
    split
    · exact DeviceProp.multiProcessorCount_pos _
    · exact h.filled i (by omega)
  · simp only [use_deviceMpcount]
    rw [Function.update_of_ne (by omega), h.rest i (by omega)]
  · refine (withinTables_use (s := s') rfl n _ _).trans ?_
    rw [h.within, and_assoc]
    exact and_congr_right fun _ => by omega

/-- **What the devices leave**: nothing ends the loop, and the entries of the devices are
filled. -/
theorem cudaDeviceinfo_spec (hmap : MapsToDevices devices s) :
    ∃ s', cudaDeviceinfo devices s = some s' ∧ DeviceinfoDone s devices.length s' :=
  foldlM_range_invariant ⟨rfl, rfl, fun _ h => absurd h (Nat.not_lt_zero _), fun _ _ => rfl,
    by simp⟩ devices.length fun _ hi _ ht => ht.step hmap hi

/-- What a thread does to the tables: its own entries are used. -/
structure OwnEntries (thrId : ℕ) (s s' : DeviceTables) : Prop where
  /-- The multiprocessors stay. -/
  mpcount : s'.deviceMpcount = s.deviceMpcount
  /-- The number of threads stays. -/
  threads : s'.optNThreads = s.optNThreads
  /-- The entries exist if those of the thread do. -/
  within : WithinTables s' ↔ WithinTables s ∧ thrId < tableSize

namespace OwnEntries

variable {thrId : ℕ}

theorem trans {s'' : DeviceTables} (h : OwnEntries thrId s s') (h' : OwnEntries thrId s' s'') :
    OwnEntries thrId s s'' where
  mpcount := h'.mpcount.trans h.mpcount
  threads := h'.threads.trans h.threads
  within := by rw [h'.within, h.within, and_assoc, and_self]

theorem use (s : DeviceTables) (table : DeviceTable) (tables : List DeviceTable) :
    OwnEntries thrId s (s.use thrId (table :: tables)) :=
  ⟨rfl, rfl, withinTables_use rfl thrId table tables⟩

end OwnEntries

theorem minerThreadStart_spec (s : DeviceTables) (thrId : ℕ) :
    OwnEntries thrId s (minerThreadStart s thrId) := by
  unfold minerThreadStart
  split
  · refine OwnEntries.trans ?_ (.use _ _ _)
    exact ⟨rfl, rfl, withinTables_use rfl thrId _ _⟩
  · exact .use _ _ _

theorem scanTables_spec (s : DeviceTables) (thrId : ℕ) :
    OwnEntries thrId s (scanTables s thrId) := by
  unfold scanTables
  dsimp only
  split
  · exact OwnEntries.trans (.use _ _ _) (.use _ _ _)
  · exact .use _ _ _

theorem minerThread_spec (s : DeviceTables) (thrId : ℕ) :
    OwnEntries thrId s (minerThread s thrId) :=
  (minerThreadStart_spec s thrId).trans (scanTables_spec _ thrId)

/-- **What the threads leave**: the entries of all of them are used. -/
theorem minerThreads_spec (s : DeviceTables) (n : ℕ) :
    ((List.range n).foldl minerThread s).deviceMpcount = s.deviceMpcount ∧
      ((List.range n).foldl minerThread s).optNThreads = s.optNThreads ∧
      (WithinTables ((List.range n).foldl minerThread s) ↔ WithinTables s ∧ n ≤ tableSize) := by
  refine foldl_range_invariant (f := minerThread) (s := s)
    (P := fun k t => t.deviceMpcount = s.deviceMpcount ∧ t.optNThreads = s.optNThreads ∧
      (WithinTables t ↔ WithinTables s ∧ k ≤ tableSize)) ⟨rfl, rfl, by simp⟩ n ?_
  rintro i - t ⟨hmp, hn, hwithin⟩
  have hthread := minerThread_spec t i
  refine ⟨hthread.mpcount.trans hmp, hthread.threads.trans hn, ?_⟩
  rw [hthread.within, hwithin, and_assoc]
  exact and_congr_right fun _ => by omega

/-! ### The whole program -/

/-- The options map each device to one. -/
theorem mapsToDevices_parseOptions {options : List MinerOption}
    (h : parseOptions devices options = some s) : MapsToDevices devices s :=
  (parseOptions_spec h).1.map fun _ hi => hi

/-- Past the options, only the lack of a device ends the program. -/
theorem minerMain_isSome_iff (devices : List DeviceProp) (options : List MinerOption) :
    (minerMain devices options).isSome ↔
      (parseOptions devices options).isSome ∧ devices ≠ [] := by
  cases hparse : parseOptions devices options with
  | none => simp [minerMain, hparse]
  | some t =>
    obtain ⟨t', hinfo, -⟩ := cudaDeviceinfo_spec (mapsToDevices_parseOptions hparse)
    by_cases hdevices : devices = [] <;> simp [minerMain, hparse, hinfo, hdevices]

/-- A thread divides by zero if there is no device of its number. -/
theorem divisor_ne_zero_iff (h : DeviceinfoDone s devices.length s')
    (hzero : s.deviceMpcount = fun _ => 0) (n : ℕ) :
    (∀ thrId < n, s'.deviceMpcount thrId ≠ 0) ↔ n ≤ devices.length := by
  constructor
  · intro hdiv
    by_contra hlt
    refine hdiv devices.length (not_le.mp hlt) ?_
    rw [h.rest _ le_rfl, hzero]
  · intro hle thrId hthr
    exact (h.filled thrId (by omega)).ne'

/-- **For which options the tables are safe**: there are no more devices than entries, no `-d`
names more devices than there are entries, and no more threads are asked for than there are
devices. -/
theorem tablesSafe_iff {options : List MinerOption} (hrun : minerMain devices options = some s) :
    TablesSafe s ↔
      devices.length ≤ tableSize ∧
        (∀ arg, MinerOption.d arg ∈ options → (tokens listDelim arg).length ≤ tableSize) ∧
        threadsAsked options ≤ devices.length := by
  rw [minerMain, Option.bind_eq_some_iff] at hrun
  obtain ⟨t, hparse, hrun⟩ := hrun
  obtain ⟨hkeep, hasked, hparsed⟩ := parseOptions_spec hparse
  obtain ⟨t', hinfo, hdone⟩ := cudaDeviceinfo_spec (mapsToDevices_parseOptions hparse)
  rw [hinfo, Option.bind_some] at hrun
  split at hrun
  · cases hrun
  · cases hrun
    rw [hdone.threads, hasked]
    -- without a `-t` or a `-d` there is a thread for each device
    generalize hthreads : (if threadsAsked options = 0 then devices.length
      else threadsAsked options) = n
    have hasked_le : n ≤ devices.length ↔ threadsAsked options ≤ devices.length := by
      subst hthreads
      split <;> omega
    obtain ⟨hmp, hn, hwithin⟩ := minerThreads_spec { t' with optNThreads := n } n
    have hdiv := divisor_ne_zero_iff hdone hkeep.mpcount n
    have hused : WithinTables { t' with optNThreads := n } ↔ _ := hdone.within.trans
      (and_congr_left' hparsed)
    constructor
    · rintro ⟨hall, hdivisor⟩
      rw [hn, hmp] at hdivisor
      have hdevices := hused.mp (hwithin.mp hall).1
      exact ⟨hdevices.2, hdevices.1, hasked_le.mp (hdiv.mp hdivisor)⟩
    · rintro ⟨hdevices, hlists, hle⟩
      have hle' := hasked_le.mpr hle
      refine ⟨hwithin.mpr ⟨hused.mpr ⟨hlists, hdevices⟩, hle'.trans hdevices⟩, ?_⟩
      rw [hn, hmp]
      exact hdiv.mpr hle'

end Options

/-- A device. -/
def someDevice : DeviceProp where
  name := ascii "GeForce GTX 1080"
  multiProcessorCount := 20
  multiProcessorCount_pos := by decide

/-- For one device, `-t` asks for two threads, but `-d` behind it for one. -/
theorem tablesSafe_of_one_device :
    ∃ s, minerMain [someDevice] [.t (ascii "2"), .d (ascii "gtx")] = some s ∧ TablesSafe s := by
  have hsome : (minerMain [someDevice] [.t (ascii "2"), .d (ascii "gtx")]).isSome := by
    decide +kernel
  obtain ⟨s, hrun⟩ := Option.isSome_iff_exists.mp hsome
  refine ⟨s, hrun, (tablesSafe_iff hrun).mpr ⟨by decide, ?_, by decide +kernel⟩⟩
  intro arg harg
  simp only [List.mem_cons, reduceCtorEq, MinerOption.d.injEq, List.not_mem_nil, or_false,
    false_or] at harg
  subst harg
  decide +kernel

/-- For one device, `-t` asks for two threads: the second one divides by zero. -/
theorem second_thread_divides_by_zero :
    ¬ ∀ (devices : List DeviceProp) (options : List MinerOption) (s : DeviceTables),
      devices ≠ [] → minerMain devices options = some s → TablesSafe s := by
  intro h
  have hsome : (minerMain [someDevice] [.t (ascii "2")]).isSome := by decide +kernel
  obtain ⟨s, hrun⟩ := Option.isSome_iff_exists.mp hsome
  have hsafe := h _ _ s (List.cons_ne_nil _ _) hrun
  have hzero : ((minerMain [someDevice] [.t (ascii "2")]).map fun s =>
      (s.optNThreads, s.deviceMpcount 1)) = some (2, 0) := by decide +kernel
  rw [hrun] at hzero
  simp only [Option.map_some, Option.some.injEq, Prod.mk.injEq] at hzero
  exact hsafe.divisor 1 (by rw [hzero.1]; decide) hzero.2

end XmrMiner
