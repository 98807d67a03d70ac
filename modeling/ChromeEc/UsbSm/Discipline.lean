import ChromeEc.Lib.Outcome
import ChromeEc.Lib.Forest
import Mathlib.Algebra.GroupWithZero.Nat

/- The hierarchical state machine framework of `common/usbc/usb_sm.c`.

  A state pointer is an `Option σ` over a forest of states. The actions of a
  state are arbitrary programs: they may change the world (everything outside
  the context of this machine), look at it and at the context, and call
  `set_state` any number of times. `set_state` runs actions and actions call
  `set_state`, so both take the nesting that is left, and fail with `depth` when
  it is used up; a call that does so has not returned.

  Correspondence (C ↔ Lean):
    `struct usb_state` (parent) ↔ `Forest σ`
    `entry`, `run`, `exit` ↔ `Actions`, a state without one has `.done`
    `struct sm_ctx`, `internal_ctx` ↔ `Ctx`
    `shared_parent_state`, `call_entry_functions`, `call_exit_functions`, `call_run_functions`, `set_state`,
      `run_state` ↔ the same in camelCase
  Following a null parent pointer is the fault `nullDeref`. `task_wake` has no
  effect on the machine and is left out. The trace records what happens, in
  order; it is not read by the code.

  The discipline of the state machine framework.

  `opened` reads from a trace which states have been entered and not yet exited,
  and `EventOk` says when an event may follow a trace: a state is entered once
  its parent is, exited when none of its children is, `set_state` is ignored
  exactly inside exit actions, and no run action follows a `set_state` of the
  same `run_state`.

  What is proved: whatever the actions do, every event of every run is in order,
  and whenever an outermost call has returned the open states are the chain of
  the current state (`state_machine_discipline`). The proof keeps one invariant,
  `Steady`, which holds wherever an action may call `set_state`. -/
namespace ChromeEc.UsbSm
open Lib

/-- `struct sm_ctx` with its `struct internal_ctx`. -/
structure Ctx (σ : Type) where
  current : Option σ
  previous : Option σ
  lastEntered : Option σ
  running : Bool
  enter : Bool
  exit : Bool
  deriving DecidableEq

/-- What an action does from here on: return, or call `set_state` and go on with
the world and the context it finds then. Each `W` is the world at that point. -/
inductive Prog (σ W : Type) where
  | done (world : W)
  | setState (world : W) (new : Option σ) (next : W → Ctx σ → Prog σ W)

structure Actions (σ W : Type) where
  entry : σ → W → Ctx σ → Prog σ W
  run : σ → W → Ctx σ → Prog σ W
  exit : σ → W → Ctx σ → Prog σ W

/-- What happens in a machine. `entry`, `run` and `exit` stand where the action
of the state starts, `exited` where the exit action returns, `runState` where
`run_state` is called, and a call of `set_state` is performed or ignored. -/
inductive Event (σ : Type) where
  | entry (s : σ)
  | exit (s : σ)
  | exited (s : σ)
  | runState
  | run (s : σ)
  | performed (new : Option σ)
  | ignored (new : Option σ)
  deriving DecidableEq

inductive Fault where
  | nullDeref
  | depth
  deriving DecidableEq

/-- A machine in its world, with what has happened so far. -/
structure Sys (σ W : Type) where
  world : W
  ctx : Ctx σ
  trace : List (Event σ)
  deriving DecidableEq

section

variable {σ W : Type}

def Sys.log (sys : Sys σ W) (e : Event σ) : Sys σ W := { sys with trace := sys.trace ++ [e] }

/-! ## `usb_sm.c` -/

section
variable [DecidableEq σ] (F : Forest σ)

/-- The loop of `shared_parent_state`. -/
def sharedParentLoop (origB : Option σ) : Option σ → Option σ → Option σ
  | none, _ => none
  | some _, none => none
  | some a, some b =>
    if a = b then
      some a
    else if F.parent b = none then
      sharedParentLoop origB (F.parent a) origB
    else
      sharedParentLoop origB (some a) (F.parent b)
termination_by a b => F.rank a * (F.rank origB + 1) + F.rank b
decreasing_by
  · have h := Nat.mul_le_mul_right (F.rank origB + 1) (F.rank_parent_lt a)
    rw [Nat.succ_mul] at h
    have : 0 < F.rank (some b) := Nat.succ_pos _
    omega
  · have := F.rank_parent_lt b
    omega

/-- The first shared parent state of `a` and `b`, themselves included. -/
def sharedParentState (a b : Option σ) : Option σ :=
  if b = none then none else sharedParentLoop F b a b

/-- Runs a program with `set` for the calls of `set_state`. -/
def runProg (set : Sys σ W → Option σ → Except Fault (Sys σ W)) (sys : Sys σ W) :
    Prog σ W → Except Fault (Sys σ W)
  | .done world => .ok { sys with world := world }
  | .setState world new next => do
    let sys' ← set { sys with world := world } new
    runProg set sys' (next sys'.world sys'.ctx)

variable (acts : Actions σ W) (set : Sys σ W → Option σ → Except Fault (Sys σ W))

def callEntryFunctions (stop : Option σ) (sys : Sys σ W) :
    Option σ → Except Fault (Sys σ W)
  | none => if stop = none then .ok sys else .error .nullDeref
  | some s =>
    if stop = some s then
      .ok sys
    else do
      let sys ← callEntryFunctions stop sys (F.parent s)
      if sys.ctx.enter then
        let sys := { sys with ctx := { sys.ctx with lastEntered := some s } }
        let sys := sys.log (.entry s)
        runProg set sys (acts.entry s sys.world sys.ctx)
      else
        .ok sys
termination_by c => F.rank c
decreasing_by exact F.rank_parent_lt s

def callExitFunctions (stop : Option σ) (sys : Sys σ W) : Option σ → Except Fault (Sys σ W)
  | none => if stop = none then .ok sys else .error .nullDeref
  | some s =>
    if stop = some s then
      .ok sys
    else do
      let sys := sys.log (.exit s)
      let sys ← runProg set sys (acts.exit s sys.world sys.ctx)
      callExitFunctions stop (sys.log (.exited s)) (F.parent s)
termination_by c => F.rank c
decreasing_by exact F.rank_parent_lt s

/-- The state that `set_state` leaves: the last one entered when called from an
entry action, and the current one otherwise. -/
def lastState (ctx : Ctx σ) : Option σ := if ctx.enter then ctx.lastEntered else ctx.current

/-- `set_state` past the check of the exit flag. -/
def performSetState (sys : Sys σ W) (new : Option σ) : Except Fault (Sys σ W) := do
  let last := lastState sys.ctx
  let shared := sharedParentState F last new
  let sys := sys.log (.performed new)
  let sys := { sys with ctx := { sys.ctx with exit := true } }
  let sys ← callExitFunctions F acts set shared sys last
  let sys := { sys with ctx := { sys.ctx with exit := false } }
  let sys := { sys with ctx := { sys.ctx with previous := sys.ctx.current } }
  let sys := { sys with ctx := { sys.ctx with current := new } }
  let sys := { sys with ctx := { sys.ctx with lastEntered := none } }
  let sys := { sys with ctx := { sys.ctx with enter := true } }
  let sys ← callEntryFunctions F acts set shared sys sys.ctx.current
  let sys := { sys with ctx := { sys.ctx with enter := false } }
  .ok { sys with ctx := { sys.ctx with running := false } }

/-- `set_state` with nesting `depth` left. -/
def setState : Nat → Sys σ W → Option σ → Except Fault (Sys σ W)
  | 0, _, _ => .error .depth
  | depth + 1, sys, new =>
    if sys.ctx.exit then
      .ok (sys.log (.ignored new))
    else
      performSetState F acts (setState depth) sys new

def callRunFunctions (sys : Sys σ W) : Option σ → Except Fault (Sys σ W)
  | none => .ok sys
  | some s =>
    if sys.ctx.running then do
      let sys := sys.log (.run s)
      let sys ← runProg set sys (acts.run s sys.world sys.ctx)
      callRunFunctions sys (F.parent s)
    else
      .ok sys
termination_by c => F.rank c
decreasing_by exact F.rank_parent_lt s

def runState (depth : Nat) (sys : Sys σ W) : Except Fault (Sys σ W) := do
  let sys := sys.log .runState
  let sys := { sys with ctx := { sys.ctx with running := true } }
  let sys ← callRunFunctions F acts (setState F acts depth) sys sys.ctx.current
  .ok { sys with ctx := { sys.ctx with running := false } }

inductive Call (σ : Type) where
  | setState (new : Option σ)
  | runState
  deriving DecidableEq

def runCall (depth : Nat) (sys : Sys σ W) : Call σ → Except Fault (Sys σ W)
  | .setState new => setState F acts depth sys new
  | .runState => runState F acts depth sys

/-- A sequence of outermost calls; before each of them the world may change. -/
def runCalls (depth : Nat) : Sys σ W → List ((W → W) × Call σ) → Except Fault (Sys σ W)
  | sys, [] => .ok sys
  | sys, (env, call) :: calls => do
    let sys ← runCall F acts depth { sys with world := env sys.world } call
    runCalls depth sys calls

end

def emptyCtx (σ : Type) : Ctx σ := ⟨none, none, none, false, false, false⟩

def start (σ : Type) (world : W) : Sys σ W := ⟨world, emptyCtx σ, []⟩

end

variable {σ W : Type}

/-! ## Reading a trace -/

/-- The states entered and not yet exited, the last one entered first. -/
def opened [DecidableEq σ] (tr : List (Event σ)) : List σ :=
  tr.foldl (fun states e =>
    match e with
    | .entry s => s :: states
    | .exit s => states.erase s
    | _ => states) []

def inExit (tr : List (Event σ)) : Bool :=
  tr.foldl (fun b e =>
    match e with
    | .exit _ => true
    | .exited _ => false
    | _ => b) false

/-- Whether no `set_state` was performed since `run_state` was last called. -/
def quiet (tr : List (Event σ)) : Bool :=
  tr.foldl (fun b e =>
    match e with
    | .runState => true
    | .performed _ => false
    | _ => b) false

@[simp] theorem opened_snoc [DecidableEq σ] (tr : List (Event σ)) (e : Event σ) :
    opened (tr ++ [e]) =
      match e with
      | .entry s => s :: opened tr
      | .exit s => (opened tr).erase s
      | _ => opened tr := by
  unfold opened
  rw [List.foldl_append]
  rfl

@[simp] theorem inExit_snoc (tr : List (Event σ)) (e : Event σ) :
    inExit (tr ++ [e]) =
      match e with
      | .exit _ => true
      | .exited _ => false
      | _ => inExit tr := by
  unfold inExit
  rw [List.foldl_append]
  rfl

@[simp] theorem quiet_snoc (tr : List (Event σ)) (e : Event σ) :
    quiet (tr ++ [e]) =
      match e with
      | .runState => true
      | .performed _ => false
      | _ => quiet tr := by
  unfold quiet
  rw [List.foldl_append]
  rfl

@[simp] theorem trace_log (sys : Sys σ W) (e : Event σ) : (sys.log e).trace = sys.trace ++ [e] :=
  rfl

@[simp] theorem ctx_log (sys : Sys σ W) (e : Event σ) : (sys.log e).ctx = sys.ctx := rfl

variable [DecidableEq σ]

/-- When an event may follow the trace `pre`. -/
def EventOk (F : Forest σ) (pre : List (Event σ)) : Event σ → Prop
  | .entry s => s ∉ opened pre ∧ ∀ p, F.parent s = some p → p ∈ opened pre
  | .exit s => s ∈ opened pre ∧ ∀ c ∈ opened pre, F.parent c ≠ some s
  | .run _ => quiet pre = true
  | .performed _ => inExit pre = false
  | .ignored _ => inExit pre = true
  | .exited _ | .runState => True

/-- Every event of the trace is in order where it stands. -/
def TraceOk (F : Forest σ) (tr : List (Event σ)) : Prop :=
  ∀ pre e post, tr = pre ++ e :: post → EventOk F pre e

theorem TraceOk.snoc {F : Forest σ} {tr : List (Event σ)} {e : Event σ} (h : TraceOk F tr)
    (he : EventOk F tr e) : TraceOk F (tr ++ [e]) := by
  intro pre e' post heq
  obtain rfl | ⟨post', x, rfl⟩ := List.eq_nil_or_concat' post
  · obtain ⟨rfl, hlast⟩ := List.append_inj' heq rfl
    rw [List.cons.injEq] at hlast
    rw [← hlast.1]
    exact he
  · have heq : tr ++ [e] = (pre ++ e' :: post') ++ [x] := by
      rw [heq, List.append_assoc, List.cons_append]
    obtain ⟨rfl, _⟩ := List.append_inj' heq rfl
    exact h pre e' post' rfl

theorem traceOk_nil (F : Forest σ) : TraceOk F [] := by
  intro pre e post h
  have := congrArg List.length h
  simp at this

/-! ## The shared parent -/

theorem sharedParentLoop_above (F : Forest σ) (origB a b : Option σ) (hb : ∀ s ∈ F.chain b,
    s ∈ F.chain origB) :
    F.Above (sharedParentLoop F origB a b) a ∧ F.Above (sharedParentLoop F origB a b) origB := by
  fun_induction sharedParentLoop F origB a b with
  | case1 b => exact ⟨F.above_none _, F.above_none _⟩
  | case2 a => exact ⟨F.above_none _, F.above_none _⟩
  | case3 a =>
    refine ⟨F.above_refl _, ?_⟩
    intro s hs
    apply hb
    exact F.above_refl _ s hs
  | case4 a b hne hroot ih =>
    obtain ⟨h₁, h₂⟩ := ih fun s hs => hs
    refine ⟨?_, h₂⟩
    intro s hs
    rw [F.chain_some]
    exact List.mem_cons_of_mem _ (h₁ s hs)
  | case5 a b hne hparent ih =>
    apply ih
    intro s hs
    apply hb
    rw [F.chain_some]
    exact List.mem_cons_of_mem _ hs

theorem sharedParentState_above (F : Forest σ) (a b : Option σ) :
    F.Above (sharedParentState F a b) a ∧ F.Above (sharedParentState F a b) b := by
  unfold sharedParentState
  split
  · exact ⟨F.above_none _, F.above_none _⟩
  · exact sharedParentLoop_above F b a b fun s hs => hs

/-! ## Exit actions -/

section
variable {F : Forest σ} {acts : Actions σ W}

/-- A fault that only says that a call has not returned. -/
def NotReturned (f : Fault) : Prop := f = .depth

/-- A program run with the exit flag set: all its calls are ignored. -/
theorem runProg_ignored {set : Sys σ W → Option σ → Except Fault (Sys σ W)}
    (hset : ∀ sys new, sys.ctx.exit = true →
      Outcome NotReturned (fun sys' => sys' = sys.log (.ignored new)) (set sys new))
    (p : Prog σ W) (sys : Sys σ W) (hexit : sys.ctx.exit = true) (hin : inExit sys.trace = true)
    (hok : TraceOk F sys.trace) :
    Outcome NotReturned (fun sys' => sys'.ctx = sys.ctx ∧ TraceOk F sys'.trace ∧
      opened sys'.trace = opened sys.trace) (runProg set sys p) := by
  induction p generalizing sys with
  | done world => exact ⟨rfl, hok, rfl⟩
  | setState world new next ih =>
    apply Outcome.bind (hset { sys with world := world } new hexit)
    intro sys₁ h
    subst h
    have hin' : inExit (({ sys with world := world } : Sys σ W).log (.ignored new)).trace = true := by
      simpa using hin
    refine (ih _ _ (({ sys with world := world } : Sys σ W).log (.ignored new)) hexit hin'
      (hok.snoc hin)).mono ?_
    intro sys' ⟨h₁, h₂, h₃⟩
    refine ⟨h₁, h₂, h₃.trans ?_⟩
    simp

theorem callExitFunctions_spec {set : Sys σ W → Option σ → Except Fault (Sys σ W)}
    (hset : ∀ sys new, sys.ctx.exit = true →
      Outcome NotReturned (fun sys' => sys' = sys.log (.ignored new)) (set sys new))
    {stop : Option σ} (c : Option σ) (sys : Sys σ W) (habove : F.Above stop c)
    (hexit : sys.ctx.exit = true) (hin : inExit sys.trace = false) (hok : TraceOk F sys.trace)
    (hopen : opened sys.trace = F.chain c) :
    Outcome NotReturned (fun sys' => sys'.ctx = sys.ctx ∧ TraceOk F sys'.trace ∧
      inExit sys'.trace = false ∧ opened sys'.trace = F.chain stop)
      (callExitFunctions F acts set stop sys c) := by
  induction c using F.induction_up generalizing sys with
  | none =>
    have hstop := habove.eq_none
    unfold callExitFunctions
    rw [if_pos hstop, hstop]
    exact ⟨rfl, hok, hin, hopen⟩
  | some s ih =>
    unfold callExitFunctions
    by_cases hstop : stop = some s
    · rw [if_pos hstop, hstop]
      exact ⟨rfl, hok, hin, hopen⟩
    · rw [if_neg hstop]
      -- `s` is the last state entered, and its children are closed.
      have hs : EventOk F sys.trace (.exit s) := by
        refine ⟨?_, ?_⟩
        · rw [hopen, F.chain_some]
          exact List.mem_cons_self
        · intro c hc
          rw [hopen] at hc
          exact F.parent_ne_of_mem_chain hc
      have hopen' : opened (sys.log (.exit s)).trace = F.chain (F.parent s) := by
        simp [hopen, F.chain_some]
      have hprog := runProg_ignored (F := F) hset
        (acts.exit s (sys.log (.exit s)).world (sys.log (.exit s)).ctx)
        (sys.log (.exit s)) hexit (by simp) (hok.snoc hs)
      apply Outcome.bind hprog
      intro sys₁ ⟨h₁, h₂, h₃⟩
      have hctx : (sys₁.log (.exited s)).ctx = sys.ctx := h₁
      refine (ih _ (habove.parent hstop) ?_ ?_ ?_ ?_).mono ?_
      · rw [hctx]
        exact hexit
      · simp
      · exact h₂.snoc trivial
      · rw [← hopen', ← h₃]
        simp
      · intro sys₂ ⟨h₄, h₅, h₆, h₇⟩
        exact ⟨h₄.trans hctx, h₅, h₆, h₇⟩

/-! ## `set_state` -/

/-- What holds wherever an action other than an exit action may call
`set_state`: the open states are the chain of the state it would leave. -/
structure Steady (F : Forest σ) (sys : Sys σ W) : Prop where
  ok : TraceOk F sys.trace
  exit : sys.ctx.exit = false
  inExit : inExit sys.trace = false
  opened : opened sys.trace = F.chain (lastState sys.ctx)

/-- What a performed `set_state` leaves. -/
structure Settled (F : Forest σ) (sys : Sys σ W) : Prop extends Steady F sys where
  enter : sys.ctx.enter = false
  running : sys.ctx.running = false

/-- What the calls of `set_state` in an action do. -/
structure SetSpec (F : Forest σ) (set : Sys σ W → Option σ → Except Fault (Sys σ W)) : Prop where
  ignored : ∀ sys new, sys.ctx.exit = true →
    Outcome NotReturned (fun sys' => sys' = sys.log (.ignored new)) (set sys new)
  performed : ∀ sys new, Steady F sys → Outcome NotReturned (Settled F) (set sys new)

variable {set : Sys σ W → Option σ → Except Fault (Sys σ W)}

/-- An action either leaves the machine alone or leaves it settled by its last
`set_state`. -/
theorem runProg_steady (hset : SetSpec F set) (p : Prog σ W) {sys : Sys σ W}
    (h : Steady F sys) :
    Outcome NotReturned (fun sys' => Steady F sys' ∧
      (sys'.ctx = sys.ctx ∧ sys'.trace = sys.trace ∨
        sys'.ctx.enter = false ∧ sys'.ctx.running = false)) (runProg set sys p) := by
  induction p generalizing sys with
  | done world => exact ⟨⟨h.ok, h.exit, h.inExit, h.opened⟩, .inl ⟨rfl, rfl⟩⟩
  | setState world new next ih =>
    apply Outcome.bind (hset.performed { sys with world := world } new
      ⟨h.ok, h.exit, h.inExit, h.opened⟩)
    intro sys₁ h₁
    refine (ih _ _ h₁.toSteady).mono ?_
    intro sys₂ ⟨h₂, hcase⟩
    refine ⟨h₂, .inr ?_⟩
    obtain ⟨hctx, -⟩ | hcase := hcase
    · rw [hctx]
      exact ⟨h₁.enter, h₁.running⟩
    · exact hcase

/-- The entry phase: it has opened the chain of `c`, or an entry action has gone
to another state and is done with it. -/
structure Entered (F : Forest σ) (c current : Option σ) (sys : Sys σ W) : Prop where
  ok : TraceOk F sys.trace
  exit : sys.ctx.exit = false
  inExit : inExit sys.trace = false
  opened : sys.ctx.enter = true ∧ sys.ctx.current = current ∧ opened sys.trace = F.chain c ∨
    sys.ctx.enter = false ∧ opened sys.trace = F.chain sys.ctx.current

theorem callEntryFunctions_spec (hset : SetSpec F set) {stop : Option σ} (c : Option σ)
    (sys : Sys σ W) (habove : F.Above stop c) (hok : TraceOk F sys.trace)
    (hexit : sys.ctx.exit = false) (hin : UsbSm.inExit sys.trace = false)
    (henter : sys.ctx.enter = true) (hopen : UsbSm.opened sys.trace = F.chain stop) :
    Outcome NotReturned (Entered F c sys.ctx.current)
      (callEntryFunctions F acts set stop sys c) := by
  induction c using F.induction_up generalizing sys with
  | none =>
    have hstop := habove.eq_none
    unfold callEntryFunctions
    rw [if_pos hstop]
    rw [hstop] at hopen
    exact ⟨hok, hexit, hin, .inl ⟨henter, rfl, hopen⟩⟩
  | some s ih =>
    unfold callEntryFunctions
    by_cases hstop : stop = some s
    · rw [if_pos hstop]
      rw [hstop] at hopen
      exact ⟨hok, hexit, hin, .inl ⟨henter, rfl, hopen⟩⟩
    · rw [if_neg hstop]
      apply Outcome.bind (ih sys (habove.parent hstop) hok hexit hin henter hopen)
      intro sys₁ h₁
      obtain ⟨hen, hcur, hop⟩ | ⟨hen, hop⟩ := h₁.opened
      · rw [if_pos hen]
        have hs : EventOk F sys₁.trace (.entry s) := by
          refine ⟨?_, ?_⟩
          · rw [hop]
            exact F.notMem_chain_parent s
          · intro p hp
            rw [hop, hp, F.chain_some]
            exact List.mem_cons_self
        -- From here on the entry action would leave `s`.
        have hsteady : Steady F (({ sys₁ with
            ctx := { sys₁.ctx with lastEntered := some s } } : Sys σ W).log (.entry s)) :=
          ⟨h₁.ok.snoc hs, h₁.exit, by simpa using h₁.inExit,
            by simp [lastState, hen, hop, F.chain_some]⟩
        refine (runProg_steady hset _ hsteady).mono ?_
        intro sys₂ ⟨h₂, hcase⟩
        refine ⟨h₂.ok, h₂.exit, h₂.inExit, ?_⟩
        obtain ⟨hctx, htr⟩ | ⟨hen₂, -⟩ := hcase
        · left
          rw [hctx, htr]
          exact ⟨hen, hcur, by simp [hop, F.chain_some]⟩
        · right
          have hlast := h₂.opened
          rw [lastState, hen₂] at hlast
          exact ⟨hen₂, hlast⟩
      · rw [if_neg (by rw [hen]; decide)]
        exact ⟨h₁.ok, h₁.exit, h₁.inExit, .inr ⟨hen, hop⟩⟩

theorem performSetState_spec (hset : SetSpec F set) {sys : Sys σ W} (new : Option σ)
    (h : Steady F sys) : Outcome NotReturned (Settled F) (performSetState F acts set sys new) := by
  obtain ⟨hlast, hnew⟩ := sharedParentState_above F (lastState sys.ctx) new
  unfold performSetState
  apply Outcome.bind (callExitFunctions_spec hset.ignored (lastState sys.ctx)
    { sys.log (.performed new) with ctx := { sys.ctx with exit := true } } hlast rfl
    (by simpa using h.inExit) (h.ok.snoc h.inExit) (by simpa using h.opened))
  intro sys₁ ⟨_, hok, hin, hop⟩
  apply Outcome.bind (callEntryFunctions_spec hset new { sys₁ with ctx := { sys₁.ctx with
    exit := false, previous := sys₁.ctx.current, current := new, lastEntered := none,
    enter := true } } hnew hok rfl hin rfl hop)
  intro sys₂ h₂
  refine ⟨⟨h₂.ok, h₂.exit, h₂.inExit, ?_⟩, rfl, rfl⟩
  obtain ⟨-, hcur, hop₂⟩ | ⟨-, hop₂⟩ := h₂.opened
  · rw [hop₂]
    show _ = F.chain sys₂.ctx.current
    rw [hcur]
  · exact hop₂

theorem setState_ignored (depth : Nat) (sys : Sys σ W) (new : Option σ)
    (h : sys.ctx.exit = true) :
    setState F acts (depth + 1) sys new = .ok (sys.log (.ignored new)) := by
  rw [setState, if_pos h]

/-- By induction on the nesting that is left. -/
theorem setState_spec (F : Forest σ) (acts : Actions σ W) (depth : Nat) :
    SetSpec F (setState F acts depth) := by
  induction depth with
  | zero => exact ⟨fun _ _ _ => rfl, fun _ _ _ => rfl⟩
  | succ depth ih =>
    refine ⟨?_, ?_⟩
    · intro sys new h
      rw [setState_ignored depth sys new h]
      exact rfl
    · intro sys new h
      rw [setState, if_neg (by rw [h.exit]; decide)]
      exact performSetState_spec ih new h

/-! ## `run_state` and runs -/

/-- What holds between outermost calls. -/
structure Idle (F : Forest σ) (sys : Sys σ W) : Prop extends Steady F sys where
  enter : sys.ctx.enter = false

theorem Idle.opened_eq {sys : Sys σ W} (h : Idle F sys) :
    UsbSm.opened sys.trace = F.chain sys.ctx.current := by
  rw [h.opened, lastState, h.enter]
  rfl

theorem callRunFunctions_spec (hset : SetSpec F set) (c : Option σ) {sys : Sys σ W}
    (h : Idle F sys) (hquiet : sys.ctx.running = true → quiet sys.trace = true) :
    Outcome NotReturned (Idle F) (callRunFunctions F acts set sys c) := by
  induction c using F.induction_up generalizing sys with
  | none =>
    unfold callRunFunctions
    exact h
  | some s ih =>
    unfold callRunFunctions
    by_cases hrun : sys.ctx.running = true
    · rw [if_pos hrun]
      have hsteady : Steady F (sys.log (.run s)) :=
        ⟨h.ok.snoc (hquiet hrun), h.exit, by simpa using h.inExit, by simpa using h.opened⟩
      apply Outcome.bind (runProg_steady hset _ hsteady)
      intro sys₁ ⟨h₁, hcase⟩
      obtain ⟨hctx, htr⟩ | ⟨hen, hstop⟩ := hcase
      · refine ih ⟨h₁, by rw [hctx]; exact h.enter⟩ ?_
        intro _
        rw [htr]
        simpa using hquiet hrun
      · refine ih ⟨h₁, hen⟩ ?_
        intro hr
        rw [hstop] at hr
        cases hr
    · rw [if_neg hrun]
      exact h

theorem runState_spec (depth : Nat) {sys : Sys σ W} (h : Idle F sys) :
    Outcome NotReturned (Idle F) (runState F acts depth sys) := by
  have hstart : Idle F { sys.log .runState with ctx := { sys.ctx with running := true } } :=
    ⟨⟨h.ok.snoc trivial, h.exit, by simpa using h.inExit, by simpa [lastState] using h.opened⟩,
      h.enter⟩
  unfold runState
  apply Outcome.bind (callRunFunctions_spec (setState_spec F acts depth) _ hstart
    (by simp))
  intro sys₁ h₁
  exact ⟨⟨h₁.ok, h₁.exit, h₁.inExit, h₁.opened⟩, h₁.enter⟩

theorem runCall_spec (depth : Nat) {sys : Sys σ W} (h : Idle F sys) (call : Call σ) :
    Outcome NotReturned (Idle F) (runCall F acts depth sys call) := by
  cases call with
  | setState new =>
    refine ((setState_spec F acts depth).performed sys new h.toSteady).mono ?_
    intro sys₁ h₁
    exact ⟨h₁.toSteady, h₁.enter⟩
  | runState => exact runState_spec depth h

theorem runCalls_spec (depth : Nat) {sys : Sys σ W} (h : Idle F sys)
    (calls : List ((W → W) × Call σ)) :
    Outcome NotReturned (Idle F) (runCalls F acts depth sys calls) := by
  induction calls generalizing sys with
  | nil => exact h
  | cons call calls ih =>
    have henv : Idle F { sys with world := call.1 sys.world } :=
      ⟨⟨h.ok, h.exit, h.inExit, h.opened⟩, h.enter⟩
    apply Outcome.bind (runCall_spec depth henv call.2)
    intro sys₁ h₁
    exact ih h₁

theorem idle_start (F : Forest σ) (world : W) : Idle F (start σ world) where
  ok := traceOk_nil F
  exit := rfl
  inExit := rfl
  opened := F.chain_none.symm
  enter := rfl

end

/-- **The framework keeps its discipline.** For every forest of states, all actions, and
every sequence of outermost calls from an empty context: no null
pointer is followed; when the last call has returned, every event of the trace is
in order and the states entered and not exited are the chain of the current
state; and a `set_state` under the exit flag does nothing. -/
theorem state_machine_discipline (F : Forest σ) (acts : Actions σ W) (depth : Nat) (world : W)
    (calls : List ((W → W) × Call σ)) :
    Outcome (fun fault => fault = .depth)
      (fun sys => TraceOk F sys.trace ∧ opened sys.trace = F.chain sys.ctx.current)
      (runCalls F acts depth (start σ world) calls) ∧
    ∀ (depth : Nat) (sys : Sys σ W) (new : Option σ), sys.ctx.exit = true →
      setState F acts (depth + 1) sys new = .ok (sys.log (.ignored new)) := by
  refine ⟨?_, setState_ignored⟩
  refine (runCalls_spec depth (idle_start F world) calls).mono ?_
  intro sys h
  exact ⟨h.ok, h.opened_eq⟩

local instance neZero_three : NeZero 3 := Nat.instNeZeroSucc

/-- Three states: 1 and 2 are children of 0. -/
def exampleForest : Forest (Fin 3) where
  parent s := if s = 0 then none else some 0
  height s := if s = 0 then 0 else 1
  height_lt := by decide

/-- Entering state 0 goes on to state 2, whose exit action calls `set_state` in
vain and whose run action goes to state 0. -/
def exampleActions : Actions (Fin 3) Unit where
  entry s w _ := if s = 0 then .setState w (some 2) fun w _ => .done w else .done w
  run s w _ := if s = 2 then .setState w (some 0) fun w _ => .done w else .done w
  exit s w _ := if s = 2 then .setState w (some 1) fun w _ => .done w else .done w

theorem state_machine_discipline_nested :
    ∃ sys, runCalls exampleForest exampleActions 5 (start (Fin 3) ())
        [(id, .setState (some 1)), (id, .runState)] = .ok sys ∧
      sys.trace = [.performed (some 1), .entry 0, .performed (some 2), .entry 2, .runState, .run 2,
        .performed (some 0), .exit 2, .ignored (some 1), .exited 2] ∧
      opened sys.trace = exampleForest.chain sys.ctx.current := by
  have h := (state_machine_discipline exampleForest exampleActions 5 ()
    [(id, .setState (some 1)), (id, .runState)]).1
  have hrun : runCalls exampleForest exampleActions 5 (start (Fin 3) ())
      [(id, .setState (some 1)), (id, .runState)] =
        .ok ⟨(), ⟨some 0, some 2, none, false, false, false⟩,
          [.performed (some 1), .entry 0, .performed (some 2), .entry 2, .runState, .run 2,
            .performed (some 0), .exit 2, .ignored (some 1), .exited 2]⟩ := by
    decide +kernel
  rw [hrun] at h
  exact ⟨_, hrun, rfl, h.2⟩

end ChromeEc.UsbSm
