import SafeEdge.Library.Run

/-! The thread that turns the presence of a file into a flag, together with the outside party
that creates and removes the file and the control loop that reads the flag. -/
namespace SafeEdge.Apps
open Library

inductive WatcherMode where
  | level
  | latchOnce
  deriving DecidableEq

/-- Where the watcher stands in an iteration of its loop. -/
inductive WatcherPc where
  | testing
  | unlinking
  | comparing (present : Bool)
  | storing (value : Bool)
  deriving DecidableEq

/-- The file, the flag and the watcher, how often the file was created, and the control cycles
in which `takeOnce` returned true. -/
structure FileFlagWatcher where
  mode : WatcherMode
  present : Bool
  created : ℕ
  pc : WatcherPc := .testing
  asserted : Bool := false
  taken : ℕ := 0
  deriving DecidableEq

/-- One step of one party. Creating a file that exists is no creation. Where the watcher calls
`unlink` in its turn, the call removes the file or fails. -/
inductive WatcherTurn where
  | create
  | remove
  | watcher (unlinks : Bool)
  | takeOnce

namespace FileFlagWatcher
variable (w : FileFlagWatcher)

/-- The next access of the watcher's loop. -/
def watch (unlinks : Bool) : FileFlagWatcher :=
  match w.pc with
  | .testing =>
    match w.mode with
    | .latchOnce => if w.present then { w with pc := .unlinking } else w
    | .level => { w with pc := .comparing w.present }
  | .unlinking =>
    { w with present := if unlinks then false else w.present, pc := .storing true }
  | .comparing present =>
    if present ≠ w.asserted then { w with pc := .storing present } else { w with pc := .testing }
  | .storing value => { w with asserted := value, pc := .testing }

def step : WatcherTurn → FileFlagWatcher
  | .create =>
    if w.present then w else { w with present := true, created := w.created + 1 }
  | .remove => { w with present := false }
  | .watcher unlinks => w.watch unlinks
  | .takeOnce =>
    { w with asserted := false, taken := w.taken + w.asserted.toNat }

/-- The watcher as it is started, over a file that may be there already. -/
def start (mode : WatcherMode) (present : Bool) : FileFlagWatcher where
  mode
  present
  created := present.toNat

/-- Everything before turn `n` of a schedule. -/
def watcherAt (schedule : ℕ → WatcherTurn) (n : ℕ) : FileFlagWatcher :=
  stateAt step w schedule n

/-- If the turn calls `unlink` while the file exists, the file is removed. -/
def UnlinkWorks (turn : WatcherTurn) : Prop :=
  w.pc = .unlinking → w.present = true → turn ≠ .watcher false

/-- The appearances of the file the watcher has still to see or has seen in this iteration. -/
def pending : WatcherPc → Bool → ℕ
  | .testing, present => present.toNat
  | .unlinking, _ => 1
  | .comparing _, present => present.toNat
  | .storing _, present => 1 + present.toNat

theorem pending_false_le (pc : WatcherPc) (present : Bool) :
    pending pc false ≤ pending pc present := by
  cases pc <;> simp [pending]

theorem pending_true_le (pc : WatcherPc) : pending pc true ≤ pending pc false + 1 := by
  cases pc <;> simp [pending]

/-- The watcher latches, and every acknowledgement has a creation of its own: those made, the
one in the flag and the one on its way there. -/
structure Accounted : Prop where
  latchOnce : w.mode = .latchOnce
  latching : ∀ present, w.pc ≠ .comparing present
  enough : w.taken + w.asserted.toNat + pending w.pc w.present ≤ w.created

variable {w}

theorem Accounted.watch (h : w.Accounted) {unlinks : Bool}
    (hunlink : w.UnlinkWorks (.watcher unlinks)) : (w.watch unlinks).Accounted := by
  obtain ⟨mode, present, created, pc, asserted, taken⟩ := w
  obtain ⟨rfl, hlatching, henough⟩ := h
  cases pc with
  | testing =>
    cases present with
    | false => exact ⟨rfl, hlatching, henough⟩
    | true => exact ⟨rfl, fun _ => by simp [FileFlagWatcher.watch], henough⟩
  | unlinking =>
    have hgone : (if unlinks then false else present) = false := by
      cases unlinks with
      | true => rfl
      | false =>
        by_contra hpresent
        exact hunlink rfl (Bool.not_eq_false _ ▸ hpresent) rfl
    refine ⟨rfl, fun _ => by simp [FileFlagWatcher.watch], ?_⟩
    simpa [FileFlagWatcher.watch, pending, hgone] using henough
  | comparing seen => exact absurd rfl (hlatching seen)
  | storing value =>
    refine ⟨rfl, fun _ => by simp [FileFlagWatcher.watch], ?_⟩
    have hflag : value.toNat ≤ 1 := Bool.toNat_le value
    simp only [FileFlagWatcher.watch, pending] at henough ⊢
    omega

theorem Accounted.step (h : w.Accounted) {turn : WatcherTurn} (hunlink : w.UnlinkWorks turn) :
    (w.step turn).Accounted := by
  have henough := h.enough
  cases turn with
  | watcher unlinks => exact h.watch hunlink
  | create =>
    simp only [FileFlagWatcher.step]
    split_ifs with hpresent
    · exact h
    · refine ⟨h.latchOnce, h.latching, ?_⟩
      have hnew := pending_true_le w.pc
      simp only [hpresent] at henough ⊢
      omega
  | remove =>
    refine ⟨h.latchOnce, h.latching, ?_⟩
    have hgone := pending_false_le w.pc w.present
    simp only [FileFlagWatcher.step]
    omega
  | takeOnce =>
    refine ⟨h.latchOnce, h.latching, ?_⟩
    simp only [FileFlagWatcher.step, Bool.toNat_false]
    omega

theorem watcherAt_accounted {present : Bool} {schedule : ℕ → WatcherTurn}
    (hunlink : ∀ k, ((start .latchOnce present).watcherAt schedule k).UnlinkWorks (schedule k))
    (n : ℕ) : ((start .latchOnce present).watcherAt schedule n).Accounted := by
  have hinit : (start .latchOnce present).Accounted := by
    refine ⟨rfl, fun _ => by simp [start], ?_⟩
    cases present <;> decide
  exact stateAt_invariant (fun _ (w : FileFlagWatcher) => w.Accounted) hinit
    (fun k h => h.step (hunlink k)) n

/-- In a run in which every `unlink` of the existing file removes it, `takeOnce` returns true at
most once for each creation of the file. -/
theorem acknowledgement_one_shot (present : Bool) (schedule : ℕ → WatcherTurn)
    (hunlink : ∀ k, ((start .latchOnce present).watcherAt schedule k).UnlinkWorks (schedule k))
    (n : ℕ) :
    ((start .latchOnce present).watcherAt schedule n).taken ≤
      ((start .latchOnce present).watcherAt schedule n).created := by
  have henough := (watcherAt_accounted hunlink n).enough
  omega

/-- The file is created twice; the second creation comes before the watcher has stored the flag
for the first. -/
def twoFiles : ℕ → WatcherTurn
  | 0 | 3 => .create
  | 5 | 9 => .takeOnce
  | _ => .watcher true

theorem acknowledgement_one_shot_twoFiles :
    ((start .latchOnce false).watcherAt twoFiles 10).taken = 2 ∧
      ((start .latchOnce false).watcherAt twoFiles 10).taken ≤
        ((start .latchOnce false).watcherAt twoFiles 10).created := by
  refine ⟨by decide, acknowledgement_one_shot false twoFiles ?_ 10⟩
  intro k _ _
  unfold twoFiles
  split <;> simp

/-- The file is created once, and `unlink` fails each time. -/
def stuckFile : ℕ → WatcherTurn
  | 0 => .create
  | 4 | 8 => .takeOnce
  | _ => .watcher false

theorem stuck_file_acknowledges_twice :
    ((start .latchOnce false).watcherAt stuckFile 9).created = 1 ∧
      ((start .latchOnce false).watcherAt stuckFile 9).taken = 2 := by
  decide

end FileFlagWatcher
end SafeEdge.Apps
