import SafeEdge.Ipc.RegionCreation
import SafeEdge.Library.Custody
import SafeEdge.Library.Run

/-! Who owns which mapping, over every run of region operations, and that each mapping is
released once. -/
namespace SafeEdge.Ipc

namespace System

/-- The mappings that are in place, by address and length. -/
def live (system : System) : Set (ℕ × UInt64) :=
  {mapping | system.liveAt mapping.1 = some mapping.2}

theorem liveAt_eq_some {system : System} {address : ℕ} {length : UInt64} :
    system.liveAt address = some length ↔
      ∃ earlier, system.mappings address = { length } :: earlier := by
  unfold liveAt
  cases hhistory : system.mappings address with
  | nil => simp
  | cons mapping earlier =>
    obtain ⟨_, unmaps⟩ := mapping
    cases unmaps <;> simp

/-- Every mapping but the latest has been released, once and with its length, and the latest is in
place or has been released like that. -/
def Settled : List Mapping → Prop
  | [] => True
  | mapping :: earlier =>
    (mapping.unmaps = [] ∨ mapping.unmaps = [mapping.length]) ∧
      ∀ other ∈ earlier, other.unmaps = [other.length]

theorem Settled.released {history : List Mapping} (h : Settled history)
    (hhead : ∀ mapping ∈ history.head?, mapping.unmaps ≠ []) :
    ∀ mapping ∈ history, mapping.unmaps = [mapping.length] := by
  cases history with
  | nil => exact fun _ hmem => nomatch hmem
  | cons mapping earlier =>
    intro other hother
    rcases List.mem_cons.mp hother with rfl | hearlier
    · exact h.1.resolve_left (hhead other rfl)
    · exact h.2 other hearlier

/-- The history of an address that is free is released as a whole. -/
theorem Settled.released_of_liveAt {system : System} {address : ℕ}
    (h : Settled (system.mappings address)) (hlive : system.liveAt address = none) :
    ∀ mapping ∈ system.mappings address, mapping.unmaps = [mapping.length] := by
  apply h.released
  intro mapping hmapping hplace
  unfold liveAt at hlive
  cases hhistory : system.mappings address with
  | nil =>
    rw [hhistory] at hmapping
    exact nomatch hmapping
  | cons latest earlier =>
    rw [hhistory, List.head?_cons, Option.mem_some] at hmapping
    rw [hhistory] at hlive
    simp [hmapping, hplace] at hlive

structure Balanced (system : System) : Prop where
  stray : system.strayUnmaps = []
  settled : ∀ address, Settled (system.mappings address)

variable {system : System} {address : ℕ} {length : UInt64}

theorem live_mappedAt (hlive : system.liveAt address = none) :
    (SharedMemoryRegion.mappedAt system length address).live =
      insert (address, length) system.live := by
  ext ⟨other, size⟩
  by_cases hother : other = address
  · subst hother
    have hat : (SharedMemoryRegion.mappedAt system length other).liveAt other = some length :=
      liveAt_eq_some.mpr ⟨_, Function.update_self ..⟩
    simp [live, hat, hlive, eq_comm]
  · simp [live, liveAt, SharedMemoryRegion.mappedAt, hother]

theorem Balanced.mappedAt (h : system.Balanced) (hlive : system.liveAt address = none) :
    (SharedMemoryRegion.mappedAt system length address).Balanced where
  stray := h.stray
  settled other := by
    by_cases hother : other = address
    · subst hother
      simpa [SharedMemoryRegion.mappedAt, Settled] using (h.settled other).released_of_liveAt hlive
    · simpa [SharedMemoryRegion.mappedAt, hother] using h.settled other

theorem munmap_of_live {earlier : List Mapping}
    (hhistory : system.mappings address = { length } :: earlier) :
    system.munmap address length =
      { system with
        mappings := Function.update system.mappings address
          ({ length, unmaps := [length] } :: earlier) } := by
  simp only [munmap, hhistory]

theorem live_munmap (hlive : system.liveAt address = some length) :
    (system.munmap address length).live = system.live \ {(address, length)} := by
  obtain ⟨earlier, hhistory⟩ := liveAt_eq_some.mp hlive
  ext ⟨other, size⟩
  by_cases hother : other = address
  · subst hother
    have hat : (system.munmap other length).liveAt other = none := by
      simp [munmap_of_live hhistory, liveAt]
    simp +contextual [live, hat, hlive, eq_comm]
  · simp [live, liveAt, munmap_of_live hhistory, hother]

theorem Balanced.munmap (h : system.Balanced) (hlive : system.liveAt address = some length) :
    (system.munmap address length).Balanced := by
  obtain ⟨earlier, hhistory⟩ := liveAt_eq_some.mp hlive
  simp only [munmap_of_live hhistory]
  refine ⟨h.stray, fun other => ?_⟩
  by_cases hother : other = address
  · subst hother
    have hsettled := h.settled other
    simp only [hhistory, Settled] at hsettled
    simpa [Settled] using hsettled.2
  · simpa [hother] using h.settled other

end System

namespace SharedMemoryRegion

/-- The mapping a region owns, by `data()` and `size()`. -/
def owned (region : SharedMemoryRegion) : Option (ℕ × UInt64) :=
  if region.address = 0 then none else some (region.address, region.size)

theorem owned_eq_some {region : SharedMemoryRegion} {address : ℕ} {length : UInt64} :
    region.owned = some (address, length) ↔
      region.address ≠ 0 ∧ region.address = address ∧ region.size = length := by
  unfold owned
  split_ifs with hzero <;> simp [hzero]

/-- A region with nothing mapped has no size, and one with an error has nothing mapped. -/
structure Sound (region : SharedMemoryRegion) : Prop where
  empty : region.address = 0 → region.size = 0
  failed : region.error.ok = false → region.address = 0

theorem Failed.sound {region : SharedMemoryRegion} (h : region.Failed) : region.Sound :=
  ⟨fun _ => h.size, fun _ => h.address⟩

theorem Failed.owned {region : SharedMemoryRegion} (h : region.Failed) : region.owned = none :=
  if_pos h.address

theorem mapped_sound {address : ℕ} (bytes : UInt64) (hzero : address ≠ 0) :
    ({ address, size := bytes } : SharedMemoryRegion).Sound :=
  ⟨fun h => absurd h hzero, fun h => nomatch h⟩

theorem movedFrom_sound (region : SharedMemoryRegion) : region.movedFrom.Sound :=
  ⟨fun _ => rfl, fun _ => rfl⟩

end SharedMemoryRegion

/-- What happens to the region objects, named by `ι`, and to the system around them. -/
inductive RegionOperation (ι : Type*) where
  | construct (target : ι)
  | create (target : ι) (name : Option (List Char)) (bytes : UInt64) (outcomes : CallOutcomes)
  | openExisting (target : ι) (name : Option (List Char)) (bytes : UInt64)
      (outcomes : CallOutcomes)
  | moveConstruct (target source : ι)
  | moveAssign (target source : ι)
  | close (target : ι)
  | destroy (target : ι)
  | unlinkName (name : Option (List Char))
  | elsewhere (names : List Char → Option ℕ) (descriptors : ℕ → Option (List Char))

/-- The objects that exist, and the system they are in. -/
structure Process (ι : Type*) where
  objects : ι → Option SharedMemoryRegion
  system : System

namespace Process
variable {ι : Type*} [DecidableEq ι] (process : Process ι)

def put (target : ι) (made : System × SharedMemoryRegion) : Process ι :=
  { objects := Function.update process.objects target (some made.2), system := made.1 }

/-- The source's mapping and error move to the target. -/
def handOver (target source : ι) (region : SharedMemoryRegion) : Process ι :=
  { process with
    objects := Function.update (Function.update process.objects source (some region.movedFrom))
      target (some region) }

/-- An object is constructed only where there is none, and used only where there is one. -/
def step : RegionOperation ι → Process ι
  | .construct target =>
    if (process.objects target).isSome then process else process.put target (process.system, {})
  | .create target name bytes outcomes =>
    if (process.objects target).isSome then process
    else process.put target (SharedMemoryRegion.create process.system name bytes outcomes)
  | .openExisting target name bytes outcomes =>
    if (process.objects target).isSome then process
    else process.put target (SharedMemoryRegion.openExisting process.system name bytes outcomes)
  | .moveConstruct target source =>
    match process.objects target, process.objects source with
    | none, some region => process.handOver target source region
    | _, _ => process
  | .moveAssign target source =>
    match process.objects target, process.objects source with
    | some old, some region =>
      if target = source then process
      else (process.put target (old.close process.system)).handOver target source region
    | _, _ => process
  | .close target =>
    match process.objects target with
    | some region => process.put target (region.close process.system)
    | none => process
  | .destroy target =>
    match process.objects target with
    | some region =>
      { objects := Function.update process.objects target none
        system := (region.close process.system).1 }
    | none => process
  | .unlinkName name => { process with system := SharedMemoryRegion.unlinkName process.system name }
  | .elsewhere names descriptors =>
    { process with system := { process.system with names, descriptors } }

/-- What each object owns. -/
def held (objects : ι → Option SharedMemoryRegion) (object : ι) : Option (ℕ × UInt64) :=
  (objects object).bind SharedMemoryRegion.owned

theorem held_update (objects : ι → Option SharedMemoryRegion) (target : ι)
    (replacement : Option SharedMemoryRegion) :
    held (Function.update objects target replacement) =
      Function.update (held objects) target (replacement.bind SharedMemoryRegion.owned) :=
  Function.comp_update (Option.bind · SharedMemoryRegion.owned) objects target replacement

/-- Each mapping in place has one owner, and all others have been released once. -/
structure Sound : Prop where
  custody : Library.Exclusive (held process.objects) process.system.live
  balanced : process.system.Balanced
  regions : ∀ {object region}, process.objects object = some region → region.Sound

namespace Sound
variable {process} {target source : ι} {region : SharedMemoryRegion}

theorem regions_update {objects : ι → Option SharedMemoryRegion}
    (h : ∀ {object region}, objects object = some region → region.Sound)
    {replacement : Option SharedMemoryRegion}
    (hreplacement : ∀ region, replacement = some region → region.Sound) {object : ι}
    (hobject : Function.update objects target replacement object = some region) :
    region.Sound := by
  by_cases hne : object = target
  · subst hne
    exact hreplacement region (by simpa using hobject)
  · exact h ((Function.update_of_ne hne ..).symm.trans hobject)

/-- An object that owns nothing is replaced by another one, or by none. -/
theorem replace (h : process.Sound) (htarget : held process.objects target = none)
    {replacement : Option SharedMemoryRegion}
    (hidle : replacement.bind SharedMemoryRegion.owned = none)
    (hreplacement : ∀ region, replacement = some region → region.Sound) :
    ({ process with objects := Function.update process.objects target replacement } :
      Process ι).Sound where
  custody := by
    have hheld : held (Function.update process.objects target replacement) =
        held process.objects := by
      rw [held_update, hidle, ← htarget, Function.update_eq_self]
    exact hheld ▸ h.custody
  balanced := h.balanced
  regions := regions_update h.regions hreplacement

/-- A new mapping goes to an object that owns nothing. -/
theorem acquire (h : process.Sound) (htarget : held process.objects target = none) {address : ℕ}
    {bytes : UInt64} (hzero : address ≠ 0) (hlive : process.system.liveAt address = none)
    (names : List Char → Option ℕ) :
    (process.put target
      ({ SharedMemoryRegion.mappedAt process.system bytes address with names },
        { address, size := bytes })).Sound where
  custody := by
    have hfresh : (address, bytes) ∉ process.system.live := fun hmem =>
      nomatch hlive.symm.trans hmem
    have howned : ({ address, size := bytes } : SharedMemoryRegion).owned = some (address, bytes) :=
      if_neg hzero
    have hcustody := h.custody.acquire htarget hfresh
    rw [← System.live_mappedAt hlive, ← howned] at hcustody
    exact (held_update process.objects target _) ▸ hcustody
  balanced :=
    have hmapped : (SharedMemoryRegion.mappedAt process.system bytes address).Balanced :=
      h.balanced.mappedAt hlive
    ⟨hmapped.stray, hmapped.settled⟩
  regions := by
    refine regions_update h.regions fun region hregion => ?_
    cases hregion
    exact SharedMemoryRegion.mapped_sound bytes hzero

/-- Closing an object releases what it owns. -/
theorem close (h : process.Sound) (htarget : process.objects target = some region) :
    (process.put target (region.close process.system)).Sound ∧
      held (process.put target (region.close process.system)).objects target = none := by
  have hheld : held process.objects target = region.owned := congrArg (Option.bind · _) htarget
  constructor
  · by_cases hzero : region.address = 0
    · have howned : region.owned = none := if_pos hzero
      have hclosed : region.close process.system = (process.system, region.movedFrom) := by
        simp [SharedMemoryRegion.close, SharedMemoryRegion.movedFrom, hzero]
      rw [hclosed]
      refine h.replace (hheld.trans howned) rfl fun moved hmoved => ?_
      cases hmoved
      exact region.movedFrom_sound
    · have howned : region.owned = some (region.address, region.size) := if_neg hzero
      have hlive : process.system.liveAt region.address = some region.size :=
        h.custody.mem_of_held (hheld.trans howned)
      have hclosed : region.close process.system =
          (process.system.munmap region.address region.size, region.movedFrom) := by
        simp [SharedMemoryRegion.close, SharedMemoryRegion.movedFrom, hzero]
      rw [hclosed]
      constructor
      · have hcustody := h.custody.release (hheld.trans howned)
        rw [← System.live_munmap hlive] at hcustody
        exact (held_update process.objects target _) ▸ hcustody
      · exact h.balanced.munmap hlive
      · refine regions_update h.regions fun moved hmoved => ?_
        cases hmoved
        exact region.movedFrom_sound
  · simp [held, put, SharedMemoryRegion.close, SharedMemoryRegion.owned]

/-- A mapping goes over to an object that owns nothing. -/
theorem handOver (h : process.Sound) (htarget : held process.objects target = none)
    (hsource : process.objects source = some region) :
    (process.handOver target source region).Sound where
  custody := by
    have hcustody := h.custody.transfer (i := source) htarget
    have hheld : held process.objects source = region.owned := congrArg (Option.bind · _) hsource
    rw [hheld] at hcustody
    simp only [Process.handOver, held_update]
    exact hcustody
  balanced := h.balanced
  regions := by
    refine regions_update (regions_update h.regions fun moved hmoved => ?_) fun moved hmoved => ?_
    · cases hmoved
      exact region.movedFrom_sound
    · cases hmoved
      exact h.regions hsource

/-- The region a creation or an opening gives is put where there was no object. -/
theorem put_failed (h : process.Sound) (htarget : held process.objects target = none)
    {made : System × SharedMemoryRegion} (hsame : made.1 = process.system)
    (hfailed : made.2.Failed) : (process.put target made).Sound := by
  rw [put, hsame]
  refine h.replace htarget hfailed.owned fun region hregion => ?_
  cases hregion
  exact hfailed.sound

theorem step (h : process.Sound) (operation : RegionOperation ι) :
    (process.step operation).Sound := by
  have hfree {target : ι} (hnone : ¬ (process.objects target).isSome = true) :
      held process.objects target = none := by
    simp [held, Option.not_isSome_iff_eq_none.mp hnone]
  cases operation with
  | construct target =>
    simp only [Process.step]
    split_ifs with hsome
    · exact h
    · refine h.replace (hfree hsome) rfl fun region hregion => ?_
      cases hregion
      exact ⟨fun _ => rfl, fun hfailed => nomatch hfailed⟩
  | create target name bytes outcomes =>
    simp only [Process.step]
    split_ifs with hsome
    · exact h
    · rcases SharedMemoryRegion.create_cases process.system name bytes outcomes with
        ⟨hsame, hfailed⟩ | ⟨text, address, _, _, hzero, hlive, hcreated⟩
      · exact h.put_failed (hfree hsome) hsame hfailed
      · rw [hcreated]
        exact h.acquire (hfree hsome) hzero hlive _
  | openExisting target name bytes outcomes =>
    simp only [Process.step]
    split_ifs with hsome
    · exact h
    · rcases SharedMemoryRegion.openExisting_cases process.system name bytes outcomes with
        ⟨hsame, hfailed⟩ | ⟨text, size, address, _, _, _, _, hzero, hlive, hopened⟩
      · exact h.put_failed (hfree hsome) hsame hfailed
      · rw [hopened]
        exact h.acquire (hfree hsome) hzero hlive _
  | moveConstruct target source =>
    simp only [Process.step]
    split
    · rename_i region htarget hsource
      exact h.handOver (by simp [held, htarget]) hsource
    · exact h
  | moveAssign target source =>
    simp only [Process.step]
    split
    · rename_i old region htarget hsource
      split_ifs with hself
      · exact h
      · obtain ⟨hclosed, hidle⟩ := h.close htarget
        exact hclosed.handOver hidle ((Function.update_of_ne (Ne.symm hself) ..).trans hsource)
    · exact h
  | close target =>
    simp only [Process.step]
    split
    · rename_i region htarget
      exact (h.close htarget).1
    · exact h
  | destroy target =>
    simp only [Process.step]
    split
    · rename_i region htarget
      obtain ⟨hclosed, hidle⟩ := h.close htarget
      have hdropped := hclosed.replace hidle (Option.bind_none _) (fun _ hregion => nomatch hregion)
      simpa only [put, Function.update_idem] using hdropped
    · exact h
  | unlinkName name =>
    simp only [Process.step, SharedMemoryRegion.unlinkName]
    split_ifs
    · exact ⟨h.custody, ⟨h.balanced.stray, h.balanced.settled⟩, h.regions⟩
    · exact h
  | elsewhere names descriptors =>
    exact ⟨h.custody, ⟨h.balanced.stray, h.balanced.settled⟩, h.regions⟩

end Sound

/-- Nothing is mapped by the object, if there is one. -/
def Idle (objects : ι → Option SharedMemoryRegion) (object : ι) : Prop :=
  ∀ region, objects object = some region → region.address = 0 ∧ region.size = 0

/-- The operation moves from the object or closes it. -/
def Empties (object : ι) : RegionOperation ι → Prop
  | .moveConstruct target source => source = object ∧ process.objects target = none
  | .moveAssign target source =>
    source = object ∧ target ≠ source ∧ (process.objects target).isSome
  | .close target => target = object
  | _ => False

/-- The operation may give the object a mapping. -/
def Fills (object : ι) : RegionOperation ι → Prop
  | .create target _ _ _ | .openExisting target _ _ _ | .moveConstruct target _ => target = object
  | .moveAssign target source => target = object ∧ source ≠ object
  | _ => False

theorem Idle.update {objects : ι → Option SharedMemoryRegion} {target object : ι}
    {replacement : Option SharedMemoryRegion} (h : Idle objects object)
    (hreplacement : target = object →
      ∀ region, replacement = some region → region.address = 0 ∧ region.size = 0) :
    Idle (Function.update objects target replacement) object := by
  intro region hregion
  by_cases htarget : object = target
  · subst htarget
    exact hreplacement rfl region (by simpa using hregion)
  · exact h region ((Function.update_of_ne htarget ..).symm.trans hregion)

theorem movedFrom_idle (region : SharedMemoryRegion) :
    ∀ moved, some region.movedFrom = some moved → moved.address = 0 ∧ moved.size = 0 := by
  rintro moved ⟨⟩
  exact ⟨rfl, rfl⟩

/-- An object that owns nothing stays so until an operation gives it a mapping. -/
theorem Idle.step {process : Process ι} {object : ι} (h : Idle process.objects object)
    {operation : RegionOperation ι} (hfills : ¬ Fills object operation) :
    Idle (process.step operation).objects object := by
  cases operation with
  | construct target =>
    simp only [Process.step]
    split_ifs
    · exact h
    · exact h.update fun _ => by
        rintro region ⟨⟩
        exact ⟨rfl, rfl⟩
  | create target name bytes outcomes =>
    simp only [Process.step]
    split_ifs
    · exact h
    · exact h.update fun htarget => absurd htarget hfills
  | openExisting target name bytes outcomes =>
    simp only [Process.step]
    split_ifs
    · exact h
    · exact h.update fun htarget => absurd htarget hfills
  | moveConstruct target source =>
    simp only [Process.step]
    split
    · rename_i region _ _
      exact (h.update fun _ => movedFrom_idle region).update
        fun htarget => absurd htarget hfills
    · exact h
  | moveAssign target source =>
    simp only [Process.step]
    split
    · rename_i old region _ hsource
      split_ifs with hself
      · exact h
      · have hclosed : Idle (process.put target (old.close process.system)).objects object :=
          h.update fun _ => movedFrom_idle old
        refine (hclosed.update fun _ => movedFrom_idle region).update fun htarget => ?_
        have hne : source ≠ object := fun hsame => hself (htarget.trans hsame.symm)
        exact absurd ⟨htarget, hne⟩ hfills
    · exact h
  | close target =>
    simp only [Process.step]
    split
    · rename_i region _
      exact h.update fun _ => movedFrom_idle region
    · exact h
  | destroy target =>
    simp only [Process.step]
    split
    · exact h.update fun _ _ hregion => nomatch hregion
    · exact h
  | unlinkName name => exact h
  | elsewhere names descriptors => exact h

/-- An object that has been moved from or closed owns nothing. -/
theorem Empties.idle {process : Process ι} {object : ι} {operation : RegionOperation ι}
    (h : process.Empties object operation) : Idle (process.step operation).objects object := by
  cases operation with
  | moveConstruct target source =>
    obtain ⟨rfl, htarget⟩ := h
    cases hsource : process.objects source with
    | none =>
      intro region hregion
      simp [Process.step, htarget, hsource] at hregion
    | some region =>
      have hne : source ≠ target := by
        rintro rfl
        exact nomatch htarget.symm.trans hsource
      intro moved hmoved
      simp only [Process.step, htarget, hsource, handOver, Function.update_of_ne hne,
        Function.update_self] at hmoved
      exact movedFrom_idle region moved hmoved
  | moveAssign target source =>
    obtain ⟨rfl, hne, hsome⟩ := h
    obtain ⟨old, htarget⟩ := Option.isSome_iff_exists.mp hsome
    cases hsource : process.objects source with
    | none =>
      intro region hregion
      simp [Process.step, htarget, hsource] at hregion
    | some region =>
      intro moved hmoved
      simp only [Process.step, htarget, hsource, hne, if_false, handOver,
        Function.update_of_ne hne.symm, Function.update_self] at hmoved
      exact movedFrom_idle region moved hmoved
  | close target =>
    obtain rfl : target = object := h
    cases htarget : process.objects target with
    | none =>
      intro region hregion
      simp [Process.step, htarget] at hregion
    | some region =>
      intro closed hclosed
      simp only [Process.step, htarget, put, Function.update_self] at hclosed
      exact movedFrom_idle region closed hclosed
  | construct | create | openExisting | destroy | unlinkName | elsewhere => exact h.elim

/-- A process before it has made any region, among whatever names and descriptors there are. -/
def initial (names : List Char → Option ℕ) (descriptors : ℕ → Option (List Char)) : Process ι where
  objects := fun _ => none
  system := { names, descriptors }

omit [DecidableEq ι] in
theorem initial_sound (names : List Char → Option ℕ) (descriptors : ℕ → Option (List Char)) :
    (initial names descriptors : Process ι).Sound where
  custody := by
    constructor
    · intro mapping
      constructor
      · exact fun hlive => nomatch hlive
      · exact fun ⟨_, hheld⟩ => nomatch hheld
    · exact fun hheld => nomatch hheld
  balanced := ⟨rfl, fun _ => trivial⟩
  regions := fun hobject => nomatch hobject

variable (names : List Char → Option ℕ) (descriptors : ℕ → Option (List Char))
  (operations : ℕ → RegionOperation ι)

def processAt (n : ℕ) : Process ι :=
  Library.stateAt step (initial names descriptors) operations n

theorem processAt_sound (n : ℕ) : (processAt names descriptors operations n).Sound :=
  Library.stateAt_invariant (fun _ (process : Process ι) => process.Sound)
    (initial_sound names descriptors) (fun k h => h.step (operations k)) n

theorem processAt_idle {object : ι} {k n : ℕ} (hkn : k < n)
    (hempties : (processAt names descriptors operations k).Empties object (operations k))
    (hfills : ∀ j, k < j → j < n → ¬ Fills object (operations j)) :
    Idle (processAt names descriptors operations n).objects object := by
  induction n, hkn using Nat.le_induction with
  | base => exact hempties.idle
  | succ n hkn ih =>
    have hbefore := ih fun j hkj hjn => hfills j hkj (hjn.trans n.lt_succ_self)
    exact hbefore.step (hfills n hkn n.lt_succ_self)

/-- At every moment each mapping in place is the `data()` and `size()` of one object and of no
other, what an object has mapped is in place, and an object that failed, was moved from or was
closed has nothing mapped. Once there are no objects, every mapping ever made has been given to
`munmap` once, with its length, and nothing else has. -/
theorem mappings_released_once (names : List Char → Option ℕ)
    (descriptors : ℕ → Option (List Char)) (operations : ℕ → RegionOperation ι) (n : ℕ) :
    let process := processAt names descriptors operations n
    (∀ address length, process.system.liveAt address = some length →
      ∃ object region, process.objects object = some region ∧ region.address = address ∧
        region.size = length ∧ ∀ other second, process.objects other = some second →
          second.address = address → other = object) ∧
    (∀ object region, process.objects object = some region → region.valid = true →
      process.system.liveAt region.address = some region.size) ∧
    (∀ object region, process.objects object = some region → region.error.ok = false →
      region.address = 0 ∧ region.size = 0) ∧
    (∀ object k, k < n →
      (processAt names descriptors operations k).Empties object (operations k) →
      (∀ j, k < j → j < n → ¬ Fills object (operations j)) →
      ∀ region, process.objects object = some region →
        region.address = 0 ∧ region.size = 0) ∧
    ((∀ object, process.objects object = none) → process.system.strayUnmaps = [] ∧
      ∀ address, ∀ mapping ∈ process.system.mappings address,
        mapping.unmaps = [mapping.length]) := by
  intro process
  have hsound : process.Sound := processAt_sound names descriptors operations n
  have howned {object region} (hobject : process.objects object = some region)
      (hzero : region.address ≠ 0) :
      held process.objects object = some (region.address, region.size) := by
    simp [held, hobject, SharedMemoryRegion.owned, hzero]
  refine ⟨fun address length hlive => ?_, fun object region hobject hvalid => ?_,
    fun object region hobject herror => ?_, fun object k hkn hempties hfills => ?_,
    fun hnone => ?_⟩
  · obtain ⟨object, hheld⟩ := (hsound.custody.mem_iff (address, length)).mp hlive
    obtain ⟨region, hobject, hregion⟩ := Option.bind_eq_some_iff.mp hheld
    obtain ⟨hzero, rfl, rfl⟩ := SharedMemoryRegion.owned_eq_some.mp hregion
    refine ⟨object, region, hobject, rfl, rfl, fun other second hother haddress => ?_⟩
    have hsecond := howned hother (haddress ▸ hzero)
    have hlength : some second.size = some region.size :=
      (hsound.custody.mem_of_held hsecond).symm.trans (haddress ▸ hlive)
    rw [haddress, Option.some.inj hlength] at hsecond
    exact hsound.custody.unique hsecond hheld
  · exact hsound.custody.mem_of_held (howned hobject (of_decide_eq_true hvalid))
  · have hzero := (hsound.regions hobject).failed herror
    exact ⟨hzero, (hsound.regions hobject).empty hzero⟩
  · exact processAt_idle names descriptors operations hkn hempties hfills
  · refine ⟨hsound.balanced.stray, fun address => ?_⟩
    have hempty := hsound.custody.eq_empty fun object => by simp [held, hnone object]
    refine (hsound.balanced.settled address).released_of_liveAt ?_
    refine Option.eq_none_iff_forall_ne_some.mpr fun length hlive => ?_
    exact Set.notMem_empty (address, length) (hempty ▸ hlive)

/-- A region is created, moved into another object, and both are destroyed. -/
def handedOver : ℕ → RegionOperation Bool
  | 0 => .create false (some "/a".toList) 64 ⟨.ok 3, none, none, .ok 4096⟩
  | 1 => .moveConstruct true false
  | 2 => .destroy true
  | _ => .destroy false

theorem mappings_released_once_handedOver :
    (∃ object region,
      (processAt (fun _ => none) (fun _ => none) handedOver 2).objects object = some region ∧
        region.address = 4096 ∧ region.size = 64) ∧
    (∀ region,
      (processAt (fun _ => none) (fun _ => none) handedOver 2).objects false = some region →
        region.address = 0 ∧ region.size = 0) ∧
    ∀ mapping ∈ (processAt (fun _ => none) (fun _ => none) handedOver 4).system.mappings 4096,
      mapping.unmaps = [mapping.length] := by
  have hmoved := mappings_released_once (fun _ => none) (fun _ => none) handedOver 2
  have hend := mappings_released_once (fun _ => none) (fun _ => none) handedOver 4
  refine ⟨?_, ?_, ?_⟩
  · obtain ⟨object, region, hobject, haddress, hsize, _⟩ := hmoved.1 4096 64 (by decide)
    exact ⟨object, region, hobject, haddress, hsize⟩
  · exact hmoved.2.2.2.1 false 1 (by decide) ⟨rfl, by decide⟩
      (fun j hlow hhigh => absurd hlow (by omega))
  · exact (hend.2.2.2.2 (by decide)).2 4096

end Process
end SafeEdge.Ipc
