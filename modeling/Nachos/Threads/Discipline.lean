import Nachos.Threads.Synch

/-!
# The use of locks

Where a thread is with a lock, read off its stack: a frame that uses the lock can only be executed in
one phase and leads to another one, and the frames of a stack have to fit together. A `Discipline` says
the same of the code of a system, and where the threads are with the lock in between their calls.
-/

namespace Nachos.Synch

/-- Where a thread is with a lock. -/
inductive Phase where
  /-- It has nothing to do with the lock. -/
  | out
  /-- It is in `Acquire`, past `P`. -/
  | got
  /-- It holds the lock. -/
  | held
  /-- It is in `Release`, before `V`. -/
  | leaving
deriving DecidableEq

/-- The phases before and after a piece of code that uses a lock. -/
structure Use where
  before : Phase
  after : Phase

variable {L C S κ ι σ : Type} [DecidableEq L]

/-- What a frame does with the lock `l`, if anything; `code` says it for the code of the system. -/
def Frame.use (lockOf : C → L) (code : κ → L → Option Use) (l : L) : Frame L C S κ → Option Use
  | .p (.lock l') => if l' = l then some ⟨.out, .got⟩ else none
  | .p _ => none
  | .v (.lock l') => if l' = l then some ⟨.leaving, .out⟩ else none
  | .v _ => none
  | .acquire l' => if l' = l then some ⟨.out, .held⟩ else none
  | .own l' => if l' = l then some ⟨.got, .held⟩ else none
  | .release l' => if l' = l then some ⟨.held, .out⟩ else none
  | .wait c => if lockOf c = l then some ⟨.held, .held⟩ else none
  | .waitReturn c _ => if lockOf c = l then some ⟨.held, .held⟩ else none
  | .signal c => if lockOf c = l then some ⟨.held, .held⟩ else none
  | .broadcast c _ => if lockOf c = l then some ⟨.held, .held⟩ else none
  | .code k => code k l

/-- The phase of a thread with these frames, where `last` is the phase after them. -/
def phaseOf (lockOf : C → L) (code : κ → L → Option Use) (l : L) :
    List (Frame L C S κ) → Phase → Phase
  | [], last => last
  | f :: fs, last => match f.use lockOf code l with
    | some u => u.before
    | none => phaseOf lockOf code l fs last

/-- Each frame that uses the lock leads to the phase in which the next ones can be executed. -/
def Fits (lockOf : C → L) (code : κ → L → Option Use) (l : L) : List (Frame L C S κ) → Phase → Prop
  | [], _ => True
  | f :: fs, last =>
    (∀ u, f.use lockOf code l = some u → phaseOf lockOf code l fs last = u.after) ∧
      Fits lockOf code l fs last

/-- A system whose code uses its locks properly: `use` says what the code does with them, and `home`
where a thread is with a lock when it is in the code of its program. -/
structure Discipline (sys : System L C S κ ι σ) where
  use : κ → L → Option Use
  home : σ → Tid → L → Phase
  call_home : ∀ {i t sh r}, sys.call i t sh = some r → ∀ u, u ≠ t → home r.1 u = home sh u
  call_fits : ∀ {i t sh r}, sys.call i t sh = some r → ∀ l,
    Fits sys.lockOf use l r.2 (home r.1 t l) ∧
      phaseOf sys.lockOf use l r.2 (home r.1 t l) = home sh t l
  exec_home : ∀ {k t sh r}, sys.exec k t sh = some r → home r.1 = home sh
  exec_fits : ∀ {k t sh r}, sys.exec k t sh = some r → ∀ l last,
    (∀ u, use k l = some u → last = u.after) →
    Fits sys.lockOf use l r.2 last ∧
      phaseOf sys.lockOf use l r.2 last = ((use k l).map Use.before).getD last

/-! ## Threads that use locks -/

/-- The calls of threads that use locks only. -/
inductive LockCall (L : Type) where
  | acquire (l : L)
  | release (l : L)

/-- Threads that use locks through pairs of `Acquire` and `Release`. The state says which locks each
thread has called `Acquire` for and not yet `Release`. -/
def lockUsers (L : Type) [DecidableEq L] :
    System L Empty Empty Empty (LockCall L) (Tid → L → Bool) where
  lockOf := Empty.elim
  call := fun
    | .acquire l, t, taken =>
      if taken t l then none
      else some (Function.update taken t (Function.update (taken t) l true), [.acquire l])
    | .release l, t, taken =>
      if taken t l then
        some (Function.update taken t (Function.update (taken t) l false), [.release l])
      else none
  exec := Empty.elim

end Nachos.Synch
