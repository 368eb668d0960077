import Mathlib.Logic.Relation

/-!
Programs as trees of the calls they make. What a program ensures is told by the answers that its
calls can get, and it holds as well of a machine that gives such answers among steps of its own.
-/

namespace CallTree

variable {Call Reply α β σ ω : Type}

inductive Client (Call Reply α : Type)
  | done (value : α)
  | call (request : Call) (next : Reply → Client Call Reply α)

namespace Client

def bind : Client Call Reply α → (α → Client Call Reply β) → Client Call Reply β
  | done value, rest => rest value
  | call request next, rest => call request fun reply => (next reply).bind rest

instance : Monad (Client Call Reply) where
  pure := done
  bind := bind

def ask (request : Call) : Client Call Reply Reply := call request done

def loop (body : σ → Client Call Reply (σ ⊕ α)) : Nat → σ → Client Call Reply (Option α)
  | 0, _ => done none
  | rounds + 1, state => (body state).bind (Sum.elim (loop body rounds) fun value => done (some value))

@[simp] theorem pure_eq (value : α) : (pure value : Client Call Reply α) = done value := rfl

@[simp] theorem bind_eq (program : Client Call Reply α) (rest : α → Client Call Reply β) :
    program >>= rest = program.bind rest := rfl

@[simp] theorem call_bind (request : Call) (next : Reply → Client Call Reply α)
    (rest : α → Client Call Reply β) :
    (call request next).bind rest = call request fun reply => (next reply).bind rest := rfl

@[simp] theorem ask_bind (request : Call) (rest : Reply → Client Call Reply β) :
    (ask request).bind rest = call request rest := rfl

end Client

open Client

/-! ### What a program ensures -/

variable {answers : ω → Call → Reply → ω → Prop} {post : α → ω → Prop}
  {program : Client Call Reply α} {world : ω}

/-- There is an answer to each call, every answer leads on, and at the end `post` holds. -/
def Ensures (answers : ω → Call → Reply → ω → Prop) (post : α → ω → Prop) :
    Client Call Reply α → ω → Prop
  | done value, world => post value world
  | call request next, world =>
      (∃ reply later, answers world request reply later) ∧
        ∀ reply later, answers world request reply later → Ensures answers post (next reply) later

@[simp] theorem ensures_done {value : α} :
    Ensures answers post (done value : Client Call Reply α) world ↔ post value world := Iff.rfl

theorem ensures_call {request : Call} {next : Reply → Client Call Reply α} :
    Ensures answers post (call request next) world ↔
      (∃ reply later, answers world request reply later) ∧
        ∀ reply later, answers world request reply later → Ensures answers post (next reply) later :=
  Iff.rfl

theorem Ensures.mono {weaker : α → ω → Prop} (ensures : Ensures answers post program world)
    (implied : ∀ value world, post value world → weaker value world) :
    Ensures answers weaker program world := by
  induction program generalizing world with
  | done value => exact implied value world ensures
  | call request next ih =>
      exact ⟨ensures.1, fun reply later answered => ih reply (ensures.2 reply later answered)⟩

theorem ensures_bind {rest : α → Client Call Reply β} {post : β → ω → Prop} :
    Ensures answers post (program.bind rest) world ↔
      Ensures answers (fun value later => Ensures answers post (rest value) later) program world := by
  induction program generalizing world with
  | done value => exact Iff.rfl
  | call request next ih =>
      rw [call_bind, ensures_call, ensures_call]
      exact and_congr_right fun _ => forall₃_congr fun reply later _ => ih reply

theorem Ensures.bind {rest : α → Client Call Reply β} {middle : α → ω → Prop} {post : β → ω → Prop}
    (first : Ensures answers middle program world)
    (second : ∀ value later, middle value later → Ensures answers post (rest value) later) :
    Ensures answers post (program.bind rest) world :=
  ensures_bind.mpr (first.mono second)

structure Rounds (answers : ω → Call → Reply → ω → Prop) (post : α → ω → Prop)
    (body : σ → Client Call Reply (σ ⊕ α)) (invariant : σ → ω → Prop) (variant : σ → ω → Nat) : Prop where
  round : ∀ state world, invariant state world → Ensures answers
    (fun result later => result.elim
      (fun next => invariant next later ∧ variant next later < variant state world)
      fun value => post value later) (body state) world

theorem Rounds.loop {body : σ → Client Call Reply (σ ⊕ α)} {invariant : σ → ω → Prop}
    {variant : σ → ω → Nat} (rounds : Rounds answers post body invariant variant) {budget : Nat}
    {state : σ} (initial : invariant state world) (enough : variant state world < budget) :
    Ensures answers (fun result later => ∃ value, result = some value ∧ post value later)
      (loop body budget state) world := by
  induction budget generalizing state world with
  | zero => exact absurd enough (Nat.not_lt_zero _)
  | succ budget ih =>
      rw [Client.loop]
      refine (rounds.round state world initial).bind ?_
      intro result later ended
      cases result with
      | inl next =>
          obtain ⟨kept, lower⟩ := ended
          exact ih kept (by omega)
      | inr value => exact ⟨value, rfl, ended⟩

theorem Ensures.counted {body : σ → Client Call Reply (σ ⊕ α)} {invariant : Nat → σ → ω → Prop}
    {post : Option α → ω → Prop}
    (round : ∀ left state world, invariant (left + 1) state world → Ensures answers
      (fun result later => result.elim (fun next => invariant left next later)
        fun value => post (some value) later) (body state) world)
    (spent : ∀ state world, invariant 0 state world → post none world) {rounds : Nat} {state : σ}
    (initial : invariant rounds state world) : Ensures answers post (loop body rounds state) world := by
  induction rounds generalizing state world with
  | zero => exact spent state world initial
  | succ left ih =>
      rw [Client.loop]
      refine (round left state world initial).bind ?_
      intro result later kept
      cases result with
      | inl next => exact ih kept
      | inr value => exact kept

/-! ### A machine that answers -/

variable {own : σ → Call → Reply → σ → Prop} {other : σ → σ → Prop} {ready : σ → Prop}
  {related : σ → ω → Prop} {state middle finish : σ} {left : Client Call Reply α}

/-- The calls of a program, answered in turn, and steps that it does not make in between. -/
inductive Woven (own : σ → Call → Reply → σ → Prop) (other : σ → σ → Prop) :
    σ → Client Call Reply α → σ → Client Call Reply α → Prop
  | refl (state : σ) (program : Client Call Reply α) : Woven own other state program state program
  | call {state middle finish : σ} {request : Call} {reply : Reply}
      {next : Reply → Client Call Reply α} {left : Client Call Reply α}
      (called : own state request reply middle) (rest : Woven own other middle (next reply) finish left) :
      Woven own other state (call request next) finish left
  | other {state middle finish : σ} {program left : Client Call Reply α}
      (moved : other state middle) (rest : Woven own other middle program finish left) :
      Woven own other state program finish left

theorem Woven.after (rest : Woven own other middle program finish left)
    (moves : Relation.ReflTransGen other state middle) : Woven own other state program finish left := by
  induction moves using Relation.ReflTransGen.head_induction_on with
  | refl => exact rest
  | head moved _ ih => exact Woven.other moved ih

/-- The machine's answers are ones that `answers` allows, and nothing else it does matters. When
it is `ready`, it comes to answer any call that has an answer. -/
structure Serves (own : σ → Call → Reply → σ → Prop) (other : σ → σ → Prop) (ready : σ → Prop)
    (answers : ω → Call → Reply → ω → Prop) (related : σ → ω → Prop) : Prop where
  answered : ∀ {state world request reply next}, related state world →
    (∃ reply later, answers world request reply later) → own state request reply next →
      ∃ later, answers world request reply later ∧ related next later
  passed : ∀ {state world next}, related state world → other state next → related next world
  comes : ∀ {state world request}, related state world → ready state →
    (∃ reply later, answers world request reply later) →
      ∃ middle reply next, Relation.ReflTransGen other state middle ∧ own middle request reply next ∧
        ready next

theorem Serves.others (serves : Serves own other ready answers related) (start : related state world)
    (moves : Relation.ReflTransGen other state middle) : related middle world := by
  induction moves with
  | refl => exact start
  | tail _ moved ih => exact serves.passed ih moved

theorem Serves.woven (serves : Serves own other ready answers related) (start : related state world)
    (ensures : Ensures answers post program world) (woven : Woven own other state program finish left) :
    ∃ later, related finish later ∧ Ensures answers post left later := by
  induction woven generalizing world with
  | refl state program => exact ⟨world, start, ensures⟩
  | call called rest ih =>
      obtain ⟨later, answered, kept⟩ := serves.answered start ensures.1 called
      exact ih kept (ensures.2 _ later answered)
  | other moved rest ih => exact ih (serves.passed start moved) ensures

theorem Serves.ends (serves : Serves own other ready answers related) (start : related state world)
    (able : ready state) (ensures : Ensures answers post program world) :
    ∃ value finish, Woven own other state program finish (done value) ∧ ready finish := by
  induction program generalizing state world with
  | done value => exact ⟨value, state, Woven.refl state _, able⟩
  | call request next ih =>
      obtain ⟨middle, reply, after, moves, called, able'⟩ := serves.comes start able ensures.1
      obtain ⟨later, answered, kept⟩ := serves.answered (serves.others start moves) ensures.1 called
      obtain ⟨value, finish, woven, ended⟩ := ih reply kept able' (ensures.2 reply later answered)
      exact ⟨value, finish, (Woven.call called woven).after moves, ended⟩

/-- Whenever the program has ended `post` holds, and from each ready state it can end. -/
structure Delivers (own : σ → Call → Reply → σ → Prop) (other : σ → σ → Prop) (ready : σ → Prop)
    (program : Client Call Reply α) (post : α → σ → Prop) (state : σ) : Prop where
  ended : ∀ value finish, Woven own other state program finish (done value) → post value finish
  ends : ∀ middle left, Woven own other state program middle left → ready middle →
    ∃ value finish, Woven own other middle left finish (done value) ∧ ready finish

theorem Serves.delivers {seen : α → σ → Prop} (serves : Serves own other ready answers related)
    (start : related state world) (ensures : Ensures answers post program world)
    (shows : ∀ value state world, related state world → post value world → seen value state) :
    Delivers own other ready program seen state := by
  constructor
  · intro value finish woven
    obtain ⟨later, kept, holds⟩ := serves.woven start ensures woven
    exact shows value finish later kept holds
  · intro middle left woven able
    obtain ⟨later, kept, holds⟩ := serves.woven start ensures woven
    exact serves.ends kept able holds

end CallTree
