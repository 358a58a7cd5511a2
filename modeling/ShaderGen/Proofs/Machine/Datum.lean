import Mathlib.Logic.Function.Basic
import ShaderGen.Proofs.Scope.Ledger

/-!
# What instructions compute

A machine holds the values of ids, each with the type it was given, and the objects in memory. The
instructions that loads, stores and changes of representation are made of take one machine to the
next (`Instruction.perform`); a sequence of them is `run`. Where an instruction has no meaning,
because an operand has no value or is not of the right kind, there is no next machine.

Numbers are kept as their bits, since none of these instructions computes with them. A pointer is an
object together with the positions that lead to a part of it.
-/

namespace ShaderGen

variable {x : Ident}

/-- A value, apart from its type. -/
inductive Datum
  | truth (t : Bool)
  | number (bits : Nat)
  | pointer (object : Ident) (path : List Nat)
  | composite (parts : List Datum)

namespace Datum

/-! ## Parts -/

/-- The part that a path of positions leads to. -/
def at? : List Nat → Datum → Option Datum
  | [], v => some v
  | k :: path, composite parts => parts[k]?.bind (at? path)
  | _ :: _, _ => none

/-- The value with another part where a path leads to. -/
def put? : List Nat → Datum → Datum → Option Datum
  | [], _, x => some x
  | k :: path, composite parts, x =>
    (parts[k]?.bind fun part => put? path part x).map fun part => composite (parts.set k part)
  | _ :: _, _, _ => none

/-! ## Operations -/

/-- Whether two numbers differ. -/
def differ : Datum → Datum → Option Datum
  | number m, number n => some (truth (m != n))
  | _, _ => none

/-- Whether two numbers differ, or the components of two vectors. -/
def notEqual : Datum → Datum → Option Datum
  | composite xs, composite ys => ((xs.zip ys).mapM fun q => differ q.1 q.2).map composite
  | x, y => differ x y

/-- One of two values. -/
def pick : Datum → Datum → Datum → Option Datum
  | truth t, x, y => some (if t then x else y)
  | _, _, _ => none

/-- One of two values, or of the components of two vectors one by one. -/
def choose : Datum → Datum → Datum → Option Datum
  | composite ts, composite xs, composite ys =>
    ((ts.zip (xs.zip ys)).mapM fun q => pick q.1 q.2.1 q.2.2).map composite
  | t, x, y => pick t x y

/-- The components of two vectors that have the given positions, those of the first one coming
first. -/
def shuffle (positions : List Nat) : Datum → Datum → Option Datum
  | composite xs, composite ys => (positions.mapM fun k => (xs ++ ys)[k]?).map composite
  | _, _ => none

/-- The part with a number as its position. -/
def component : Datum → Datum → Option Datum
  | v, number k => v.at? [k]
  | _, _ => none

/-- The position that a number stands for. -/
def position? : Datum → Option Nat
  | number k => some k
  | _ => none

end Datum

/-- A value and its type. -/
structure Tagged where
  type : Ident
  datum : Datum

/-- The values of ids, and the objects in memory. -/
structure Machine where
  values : Ident → Option Tagged
  memory : Ident → Option Datum

variable {m : Machine}

namespace Machine

/-- The value of an id. -/
def read (m : Machine) (id : Ident) : Option Datum := (m.values id).map Tagged.datum

/-- An id gets a value. -/
def define (m : Machine) (id : Ident) (d : Tagged) : Machine :=
  { m with values := Function.update m.values id (some d) }

/-- What a pointer leads to. -/
def load (m : Machine) : Datum → Option Datum
  | .pointer object path => (m.memory object).bind (Datum.at? path)
  | _ => none

/-- Something else is put where a pointer leads to. -/
def store (m : Machine) (x : Datum) : Datum → Option Machine
  | .pointer object path => ((m.memory object).bind fun v => v.put? path x).map fun v =>
      { m with memory := Function.update m.memory object (some v) }
  | _ => none

theorem read_of_values {id : Ident} {d : Tagged} (h : m.values id = some d) :
    m.read id = some d.datum := by
  rw [read, h]
  rfl

@[simp] theorem values_define_self (m : Machine) (id : Ident) (d : Tagged) :
    (m.define id d).values id = some d := Function.update_self ..

end Machine

/-- The literals among operands. -/
def Operand.literals (operands : List Operand) : List Nat :=
  operands.filterMap fun
    | .literal n => some n
    | _ => none

namespace Instruction

/-- The value that an instruction computes. -/
def value? (i : Instruction) (m : Machine) : Option Datum :=
  match i.op, i.operands with
  | .iNotEqual, [.ref x, .ref y] => (m.read x).bind fun x => (m.read y).bind x.notEqual
  | .select, [.ref t, .ref x, .ref y] =>
    (m.read t).bind fun t => (m.read x).bind fun x => (m.read y).bind fun y => t.choose x y
  | .compositeExtract, .ref x :: positions => (m.read x).bind
      (Datum.at? (Operand.literals positions))
  | .compositeConstruct, parts => ((Operand.ids parts).mapM m.read).map .composite
  | .copyLogical, [.ref x] => m.read x
  | .vectorShuffle, .ref x :: .ref y :: positions =>
    (m.read x).bind fun x => (m.read y).bind (x.shuffle (Operand.literals positions))
  | .vectorExtractDynamic, [.ref x, .ref k] => (m.read x).bind fun x => (m.read k).bind x.component
  | .accessChain, .ref base :: indices =>
    (m.read base).bind fun
      | .pointer object path =>
        ((Operand.ids indices).mapM fun k => (m.read k).bind Datum.position?).map fun positions =>
          .pointer object (path ++ positions)
      | _ => none
  | .load, .ref pointer :: _ => (m.read pointer).bind m.load
  | _, _ => none

/-- The machine after an instruction. -/
def perform (i : Instruction) (m : Machine) : Option Machine :=
  match i.op, i.operands, i.type, i.result with
  | .store, .ref pointer :: .ref value :: _, _, _ =>
    (m.read pointer).bind fun pointer => (m.read value).bind fun value => m.store value pointer
  | _, _, some type, some id => (i.value? m).map fun v => m.define id ⟨type, v⟩
  | _, _, _, _ => none

/-- What a constant of the module stands for. -/
def constant? (i : Instruction) (m : Machine) : Option Datum :=
  match i.op, i.operands with
  | .constantTrue, [] => some (.truth true)
  | .constantFalse, [] => some (.truth false)
  | .constant, [.literal n] => some (.number n)
  | .constant, [.wide n] => some (.number n)
  | .constantComposite, parts => ((Operand.ids parts).mapM m.read).map .composite
  | _, _ => none

/-- An instruction changes the value of its result only. -/
theorem values_of_perform {i : Instruction} {m' : Machine} (h : i.perform m = some m')
    (other : i.result ≠ some x) : m'.values x = m.values x := by
  unfold perform at h
  split at h
  · obtain ⟨_, -, h⟩ := Option.bind_eq_some_iff.1 h
    obtain ⟨_, -, h⟩ := Option.bind_eq_some_iff.1 h
    unfold Machine.store at h
    split at h
    · obtain ⟨_, -, rfl⟩ := Option.map_eq_some_iff.1 h
      rfl
    · cases h
  · rename_i result _
    obtain ⟨_, -, rfl⟩ := Option.map_eq_some_iff.1 h
    refine Function.update_of_ne ?_ ..
    rintro rfl
    exact other result
  · cases h

end Instruction

/-! ## Sequences of instructions -/

/-- The machine after some instructions. -/
def run : List Instruction → Machine → Option Machine
  | [], m => some m
  | i :: rest, m => (i.perform m).bind (run rest)

theorem run_singleton (i : Instruction) (m : Machine) : run [i] m = i.perform m :=
  Option.bind_fun_some _

theorem run_append {first second : List Instruction} {m1 : Machine}
    (h : run first m = some m1) : run (first ++ second) m = run second m1 := by
  induction first generalizing m with
  | nil =>
    cases h
    rfl
  | cons i rest ih =>
    obtain ⟨m0, step, others⟩ := Option.bind_eq_some_iff.1 h
    rw [List.cons_append, run, step]
    exact ih others

/-- Code changes the values of its results only. -/
theorem values_of_run {code : List Instruction} {m' : Machine} (h : run code m = some m')
    (other : x ∉ results code) : m'.values x = m.values x := by
  induction code generalizing m with
  | nil =>
    cases h
    rfl
  | cons i rest ih =>
    obtain ⟨m1, step, others⟩ := Option.bind_eq_some_iff.1 h
    rw [results_cons, List.mem_append, not_or] at other
    rw [ih others other.2]
    refine Instruction.values_of_perform step fun result => other.1 ?_
    simp [result]

end ShaderGen
