import Perigee.Soroban.Run

/-!
# Nested calls

Calls made on the way up to a call that fails are undone with it.  `Machine` is a state with the
frames of the calls in progress, each with the state to go back to.  An entry point that calls out
is cut in two: `start` runs up to the call and leaves what `finish` needs after it.
-/

namespace Soroban

variable {W R κ ι : Type}

/-- A call in progress: the state before it, and what is left to finish after it. -/
structure Frame (W R : Type) where
  saved : W
  resume : Option R

structure Machine (W R : Type) where
  world : W
  frames : List (Frame W R) := []

namespace Machine

/-- What can be asked of the machine.  `enter` calls a contract that is not modelled. -/
inductive Label (κ ι : Type) where
  | call (k : κ)
  | start (i : ι)
  | enter
  | leave
  | fail

/-- A call or a start that is refused changes nothing; a frame that fails takes its state back. -/
inductive Step (call : κ → W → W → Prop) (start : ι → W → R → W → Prop) (finish : R → W → W) :
    Machine W R → Label κ ι → Machine W R → Prop
  | call {k : κ} {w w' : W} {fs : List (Frame W R)} :
      call k w w' → Step call start finish ⟨w, fs⟩ (.call k) ⟨w', fs⟩
  | callRefused {k : κ} {w : W} {fs : List (Frame W R)} :
      (∀ w', ¬ call k w w') → Step call start finish ⟨w, fs⟩ (.call k) ⟨w, fs⟩
  | start {i : ι} {w w' : W} {r : R} {fs : List (Frame W R)} :
      start i w r w' → Step call start finish ⟨w, fs⟩ (.start i) ⟨w', ⟨w, some r⟩ :: fs⟩
  | startRefused {i : ι} {w : W} {fs : List (Frame W R)} :
      (∀ r w', ¬ start i w r w') → Step call start finish ⟨w, fs⟩ (.start i) ⟨w, fs⟩
  | enter {w : W} {fs : List (Frame W R)} :
      Step call start finish ⟨w, fs⟩ .enter ⟨w, ⟨w, none⟩ :: fs⟩
  | leave {w : W} {f : Frame W R} {fs : List (Frame W R)} :
      Step call start finish ⟨w, f :: fs⟩ .leave ⟨f.resume.elim w fun r => finish r w, fs⟩
  | fail {w : W} {f : Frame W R} {fs : List (Frame W R)} :
      Step call start finish ⟨w, f :: fs⟩ .fail ⟨f.saved, fs⟩

/-- What the frames have left to finish, innermost first. -/
def resumes (frames : List (Frame W R)) : List R := frames.filterMap Frame.resume

/-- The invariant holds of the present state, and of every saved one with the frames below it. -/
inductive Holds (I : List R → W → Prop) : W → List (Frame W R) → Prop
  | nil {w : W} : I [] w → Holds I w []
  | cons {w : W} {f : Frame W R} {fs : List (Frame W R)} :
      I (resumes (f :: fs)) w → Holds I f.saved fs → Holds I w (f :: fs)

theorem Holds.now {I : List R → W → Prop} {w : W} {fs : List (Frame W R)} (h : Holds I w fs) :
    I (resumes fs) w := by
  cases h with
  | nil h | cons h => exact h

theorem Holds.change {I : List R → W → Prop} {w w' : W} {fs : List (Frame W R)} (h : Holds I w fs)
    (now : I (resumes fs) w') : Holds I w' fs := by
  cases h with
  | nil => exact .nil now
  | cons _ below => exact .cons now below

/-- An invariant that mentions what is left to finish is kept by every step, if calls keep it, a
start keeps it with its own rest added, and finishing takes that rest away again. -/
theorem Step.invariant {call : κ → W → W → Prop} {start : ι → W → R → W → Prop}
    {finish : R → W → W} (I : List R → W → Prop)
    (calls : ∀ k rs w w', I rs w → call k w w' → I rs w')
    (starts : ∀ i rs w r w', I rs w → start i w r w' → I (r :: rs) w')
    (finishes : ∀ r rs w, I (r :: rs) w → I rs (finish r w)) {m m' : Machine W R} {l : Label κ ι}
    (holds : Holds I m.world m.frames) (step : Step call start finish m l m') :
    Holds I m'.world m'.frames := by
  cases step with
  | call h => exact holds.change (calls _ _ _ _ holds.now h)
  | callRefused => exact holds
  | start h => exact .cons (starts _ _ _ _ _ holds.now h) holds
  | startRefused => exact holds
  | enter => exact .cons holds.now holds
  | @leave w f fs =>
    obtain ⟨now, below⟩ : I (resumes (f :: fs)) w ∧ Holds I f.saved fs := by
      cases holds with
      | cons now below => exact ⟨now, below⟩
    obtain ⟨_, _ | r⟩ := f
    · exact below.change now
    · exact below.change (finishes r _ _ now)
  | fail =>
    cases holds with
    | cons _ below => exact below

end Machine

end Soroban
