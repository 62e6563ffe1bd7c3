import ReadersWriters.Loops.CountedLoop
import ReadersWriters.ParseCLI
import ReadersWriters.Worker
set_option autoImplicit false

namespace ReadersWriters
open CommandLine Loops

/-- What is written to `infos[idx]` and `args[idx]`. -/
structure Slot where
  idx : Int
  tid : Int
  type : ThreadType
  algo : AlgoType
  isAbortTarget : Bool
  deriving DecidableEq, Repr

/-- `tid`, the writes to the slots in their order, and the indices of the infos that
`registry` points to. -/
structure SetUp where
  tid : Int := 1
  slots : List Slot := []
  registry : List Int := []

section
variable (cfg : SimConfig)

def setUpReader (i : Int) (s : SetUp) : SetUp where
  tid := s.tid+1
  slots := s.slots ++
    [{ idx := i, tid := s.tid, type := .READER, algo := cfg.algo, isAbortTarget := false }]
  registry := s.registry ++ [i]

def setUpWriter (i : Int) (s : SetUp) : SetUp :=
  let idx := cfg.numReaders+i
  { tid := s.tid+1
    slots := s.slots ++
      [{ idx := idx, tid := s.tid, type := .WRITER, algo := cfg.algo,
         isAbortTarget := i = 0 && cfg.enableAbortTest }]
    registry := s.registry ++ [idx] }

def setUp : SetUp :=
  forLoop cfg.numWriters (setUpWriter cfg) 0 (forLoop cfg.numReaders (setUpReader cfg) 0 {})

/-- `pthread_create(&threads[idx], nullptr, .., &args[idx])` with the function for `thread`. -/
structure Start where
  idx : Int
  thread : ThreadType
  deriving DecidableEq, Repr

/-- The thread that fits what is in the slot. -/
def Slot.start (w : Slot) : Start where
  idx := w.idx
  thread := w.type

def startReader (i : Int) (starts : List Start) : List Start :=
  starts ++ [{ idx := i, thread := .READER }]

def startWriter (i : Int) (starts : List Start) : List Start :=
  starts ++ [{ idx := cfg.numReaders+i, thread := .WRITER }]

def startThreads : List Start :=
  forLoop cfg.numWriters (startWriter cfg) 0 (forLoop cfg.numReaders startReader 0 [])

structure Launch where
  slots : List Slot
  registry : List Int
  starts : List Start

/-- How `runSimulation` uses `infos`, `args` and `threads` up to the first join, when every
`pthread_create` succeeds. A negative size is a `std::length_error`. -/
def launch : Option Launch :=
  if cfg.numReaders+cfg.numWriters < 0 then none
  else some
    { slots := (setUp cfg).slots, registry := (setUp cfg).registry, starts := startThreads cfg }

/-- Slots and threads as the configuration asks for them. -/
structure WellFormed (l : Launch) : Prop where
  slots : Covers (cfg.numReaders+cfg.numWriters) (l.slots.map Slot.idx)
  starts : Covers (cfg.numReaders+cfg.numWriters) (l.starts.map Start.idx)
  registry : l.registry = l.slots.map Slot.idx
  types : l.starts = l.slots.map Slot.start
  tids_nodup : (l.slots.map Slot.tid).Nodup
  tids : ∀ t, t ∈ l.slots.map Slot.tid ↔ 1 ≤ t ∧ t ≤ cfg.numReaders+cfg.numWriters
  readers : (l.starts.countP (fun s => s.thread = .READER) : Int) = cfg.numReaders
  writers : (l.starts.countP (fun s => s.thread = .WRITER) : Int) = cfg.numWriters
  supported : cfg.numReaders+cfg.numWriters ≤ MAX_THREADS

def readerSlot (i : ℕ) : Slot where
  idx := i
  tid := i+1
  type := .READER
  algo := cfg.algo
  isAbortTarget := false

def writerSlot (i : ℕ) : Slot where
  idx := cfg.numReaders+i
  tid := cfg.numReaders.toNat+i+1
  type := .WRITER
  algo := cfg.algo
  isAbortTarget := i = 0 && cfg.enableAbortTest

/-- The readers' slots and the writers' behind them. -/
def slotsOf (r w : ℕ) : List Slot :=
  (List.range r).map (readerSlot cfg) ++ (List.range w).map (writerSlot cfg)

/-- The set-up after `r` readers and `w` writers. -/
def setUpTo (r w : ℕ) : SetUp where
  tid := r+w+1
  slots := slotsOf cfg r w
  registry := (slotsOf cfg r w).map Slot.idx

theorem setUpReader_setUpTo (i : ℕ) : setUpReader cfg i (setUpTo cfg i 0) = setUpTo cfg (i+1) 0 := by
  simp [setUpReader,setUpTo,slotsOf,readerSlot,List.range_succ]

theorem setUpWriter_setUpTo (i : ℕ) :
    setUpWriter cfg i (setUpTo cfg cfg.numReaders.toNat i) =
      setUpTo cfg cfg.numReaders.toNat (i+1) := by
  simp [setUpWriter,setUpTo,slotsOf,writerSlot,List.range_succ,add_assoc]

theorem setUp_eq : setUp cfg = setUpTo cfg cfg.numReaders.toNat cfg.numWriters.toNat := by
  have hr : forLoop cfg.numReaders (setUpReader cfg) 0 {} = setUpTo cfg cfg.numReaders.toNat 0 :=
    forLoop_invariant (fun i s => s = setUpTo cfg i 0) rfl fun i s _ hs =>
      hs ▸ setUpReader_setUpTo cfg i
  rw [setUp,hr]
  exact forLoop_invariant (fun i s => s = setUpTo cfg cfg.numReaders.toNat i) rfl fun i s _ hs =>
    hs ▸ setUpWriter_setUpTo cfg i

theorem startThreads_eq : startThreads cfg =
    (slotsOf cfg cfg.numReaders.toNat cfg.numWriters.toNat).map Slot.start := by
  have hr : forLoop cfg.numReaders startReader 0 [] =
      (slotsOf cfg cfg.numReaders.toNat 0).map Slot.start := by
    refine forLoop_invariant (fun i s => s = (slotsOf cfg i 0).map Slot.start) rfl ?_
    rintro i s - rfl
    simp [startReader,slotsOf,readerSlot,Slot.start,List.range_succ]
  rw [startThreads,hr]
  refine forLoop_invariant
    (fun i s => s = (slotsOf cfg cfg.numReaders.toNat i).map Slot.start) rfl ?_
  rintro i s - rfl
  simp [startWriter,slotsOf,writerSlot,Slot.start,List.range_succ]

theorem countP_readers (r w : ℕ) :
    ((slotsOf cfg r w).map Slot.start).countP (fun s => s.thread = .READER) = r := by
  simp [slotsOf,readerSlot,writerSlot,Slot.start,List.countP_map,Function.comp_def]

theorem countP_writers (r w : ℕ) :
    ((slotsOf cfg r w).map Slot.start).countP (fun s => s.thread = .WRITER) = w := by
  simp [slotsOf,readerSlot,writerSlot,Slot.start,List.countP_map,Function.comp_def]

variable {cfg}

theorem idx_slotsOf {r : ℕ} (hr : cfg.numReaders = r) (w : ℕ) :
    (slotsOf cfg r w).map Slot.idx = (List.range (r+w)).map fun i : ℕ => (i : Int) := by
  simp [slotsOf,readerSlot,writerSlot,List.range_add,Function.comp_def,hr]

theorem tid_slotsOf {r : ℕ} (hr : cfg.numReaders = r) (w : ℕ) :
    (slotsOf cfg r w).map Slot.tid = (List.range (r+w)).map fun i : ℕ => (i : Int)+1 := by
  simp [slotsOf,readerSlot,writerSlot,List.range_add,Function.comp_def,hr]

/-- The set-up is as it should be for the counts that are supported. -/
theorem wellFormed_iff : (∃ l, launch cfg = some l ∧ WellFormed cfg l) ↔
    0 ≤ cfg.numReaders ∧ 0 ≤ cfg.numWriters ∧ cfg.numReaders+cfg.numWriters ≤ MAX_THREADS := by
  constructor
  · rintro ⟨l,hl,h⟩
    obtain ⟨-,he⟩ := Option.ite_none_left_eq_some.mp hl
    cases he
    have hr := h.readers
    have hw := h.writers
    simp only [startThreads_eq,countP_readers] at hr
    simp only [startThreads_eq,countP_writers] at hw
    exact ⟨by omega,by omega,h.supported⟩
  · rintro ⟨hr,hw,hmax⟩
    obtain ⟨r,hr⟩ := Int.eq_ofNat_of_zero_le hr
    obtain ⟨w,hw⟩ := Int.eq_ofNat_of_zero_le hw
    have hn : cfg.numReaders+cfg.numWriters = (r+w : ℕ) := by rw [hr,hw,Nat.cast_add]
    refine ⟨_,if_neg (by omega),?_⟩
    have hslots : (setUp cfg).slots = slotsOf cfg r w := by
      rw [setUp_eq,hr,hw]
      rfl
    have hstarts : startThreads cfg = (slotsOf cfg r w).map Slot.start := by
      rw [startThreads_eq,hr,hw]
      rfl
    rw [hslots,hstarts]
    constructor
    case slots =>
      rw [idx_slotsOf hr,hn]
      exact covers_range _
    case starts =>
      rw [List.map_map,show Start.idx ∘ Slot.start = Slot.idx from rfl,idx_slotsOf hr,hn]
      exact covers_range _
    case registry =>
      rw [setUp_eq,hr,hw]
      rfl
    case types => rfl
    case tids_nodup =>
      rw [tid_slotsOf hr]
      exact List.nodup_range.map fun i j hij => by simpa using hij
    case tids =>
      intro t
      rw [tid_slotsOf hr,hn,List.mem_map]
      simp only [List.mem_range]
      constructor
      · rintro ⟨i,hi,rfl⟩
        omega
      · intro ht
        exact ⟨(t-1).toNat,by omega,by omega⟩
    case readers => rw [countP_readers,hr]
    case writers => rw [countP_writers,hw]
    case supported => exact hmax

end

theorem wellFormed_profile (cfg : SimConfig) {profile : LoadProfile} (hp : profile ≠ .CUSTOM) :
    ∃ l, launch (applyLoadProfile cfg profile) = some l ∧
      WellFormed (applyLoadProfile cfg profile) l := by
  rw [wellFormed_iff]
  cases profile with
  | CUSTOM => exact absurd rfl hp
  | _ => simp [applyLoadProfile,MAX_THREADS]

/-- The configurations that `runBenchmark` simulates, in their order. -/
def benchmarkConfigs (baseCfg : SimConfig) : List SimConfig :=
  [LoadProfile.LIGHT,.BALANCED,.HEAVY].flatMap fun profile =>
    [AlgoType.READER_PRIORITY,.WRITER_PRIORITY,.FAIR_MORRIS].flatMap fun algo =>
      List.replicate BENCHMARK_RUNS
        (applyLoadProfile { baseCfg with algo := algo, logLevel := .SUMMARY } profile)

/-- With `--benchmark` the numbers of threads that are asked for do no harm. -/
theorem wellFormed_benchmark (baseCfg : SimConfig) : ∀ cfg ∈ benchmarkConfigs baseCfg,
    ∃ l, launch cfg = some l ∧ WellFormed cfg l := by
  intro cfg h
  obtain ⟨profile,hp,h⟩ := List.mem_flatMap.mp h
  obtain ⟨algo,-,h⟩ := List.mem_flatMap.mp h
  obtain rfl := List.eq_of_mem_replicate h
  refine wellFormed_profile _ ?_
  rintro rfl
  simp at hp

/-- The workload of a configuration whose set-up is well formed. -/
def SimConfig.workload (cfg : SimConfig)
    (h : cfg.numReaders.toNat+cfg.numWriters.toNat ≤ 2147483647) : Workload where
  numReaders := cfg.numReaders.toNat
  numWriters := cfg.numWriters.toNat
  totalOps := cfg.totalOps
  enableAbortTest := cfg.enableAbortTest
  totalThreads_int := h

/-- The thread that starts on a slot, before its first step. -/
def Slot.worker {R W : Type} (s : Slot) : Worker R W :=
  match s.type with
  | .READER => .reader {} .start
  | .WRITER => .writer {} s.isAbortTarget .sigaction

/-- The workers of a simulation are those that the set-up prepares. -/
theorem start_eq_slot {cfg : SimConfig} {S R W : Type}
    {h : cfg.numReaders.toNat+cfg.numWriters.toNat ≤ 2147483647} (hr : 0 ≤ cfg.numReaders)
    (L : RWLockBase (cfg.workload h).Tid S R W) (process : Process) (i : (cfg.workload h).Tid) :
    ∃ s ∈ (setUp cfg).slots, s.idx = i.val ∧
      ((cfg.workload h).start L process).locals i = s.worker := by
  have hi : i.val < cfg.numReaders.toNat+cfg.numWriters.toNat := i.isLt
  rw [setUp_eq]
  by_cases hlt : i.val < cfg.numReaders.toNat
  · refine ⟨readerSlot cfg i.val,List.mem_append_left _ ?_,rfl,?_⟩
    · exact List.mem_map.mpr ⟨i.val,List.mem_range.mpr hlt,rfl⟩
    · have hw : (cfg.workload h).isWriter i = false := decide_eq_false (not_le.mpr hlt)
      simp [Workload.start,hw,Slot.worker,readerSlot]
  · refine ⟨writerSlot cfg (i.val-cfg.numReaders.toNat),List.mem_append_right _ ?_,?_,?_⟩
    · exact List.mem_map.mpr ⟨_,List.mem_range.mpr (by omega),rfl⟩
    · simp only [writerSlot]
      omega
    · have hw : (cfg.workload h).isWriter i = true := decide_eq_true (not_lt.mp hlt)
      have ha : (cfg.workload h).isAbortTarget i =
          (writerSlot cfg (i.val-cfg.numReaders.toNat)).isAbortTarget := by
        have hfirst : i.val = cfg.numReaders.toNat ↔ i.val-cfg.numReaders.toNat = 0 := by omega
        simp only [Workload.isAbortTarget,SimConfig.workload,writerSlot,hfirst]
      simp [Workload.start,hw,Slot.worker,writerSlot,ha]

/-- The counts that `--readers` and `--writers` give, as `atoi` reads them. -/
def countGiven (atoi : String → Int) (argv : List String) (o : Opt) (default : Int) : Int :=
  (lastOf o (split argv.tail)).elim default atoi

/-- Whatever the words and `atoi`, an accepted command line gives a well-formed simulation if
and only if the numbers of readers and writers that it names last are not negative and make no
more threads than are supported. -/
theorem accepted_wellFormed_iff (atoi : String → Int) (argv : List String) (cfg : SimConfig)
    (h : parseCLI atoi argv = .ok cfg) :
    (∃ l, launch cfg = some l ∧ WellFormed cfg l) ↔
      0 ≤ countGiven atoi argv .readers 5 ∧ 0 ≤ countGiven atoi argv .writers 3 ∧
        countGiven atoi argv .readers 5+countGiven atoi argv .writers 3 ≤ MAX_THREADS := by
  obtain ⟨-,rfl⟩ := parseCLI_eq_ok.mp h
  rw [foldl_setField,wellFormed_iff]
  rfl

theorem accepted_wellFormed_iff_witness :
    ∃ l, launch { numReaders := 8, numWriters := 0 } = some l ∧
      WellFormed { numReaders := 8, numWriters := 0 } l :=
  (accepted_wellFormed_iff atoi ["rw_toolkit","--readers","9","--writers","0","--readers","8"] _
    rfl).mpr (by decide +kernel)

/-- One slot is made, and the writers are set up in `infos[-1]` and `infos[0]`. A hundred
readers are not refused either. -/
theorem set_up_before_infos :
    parseCLI atoi ["rw_toolkit","--readers","-1","--writers","2"] =
      .ok { numReaders := -1, numWriters := 2 } ∧
    (launch { numReaders := -1, numWriters := 2 }).map (fun l => l.slots.map Slot.idx) =
      some [-1,0] ∧
    (¬ ∃ l, launch { numReaders := -1, numWriters := 2 } = some l ∧
      WellFormed { numReaders := -1, numWriters := 2 } l) ∧
    parseCLI atoi ["rw_toolkit","--readers","100"] = .ok { numReaders := 100 } ∧
    ¬ ∃ l, launch { numReaders := 100 } = some l ∧ WellFormed { numReaders := 100 } l := by
  refine ⟨rfl,?_,?_,rfl,?_⟩
  · rw [launch,if_neg (by decide),setUp_eq]
    rfl
  · rw [wellFormed_iff]
    decide
  · rw [wellFormed_iff]
    decide

end ReadersWriters
