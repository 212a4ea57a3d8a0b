/-!
# Programs over atomic operations

A program is a tree: it ends with a value or an exception, or performs an
atomic operation and goes on with what the operation answers, which may be an
exception. What the operations do is not part of the program; `Exec` says it,
one operation of one thread at a time, so the same tree runs alone (`solo`) or
interleaved with others (`RelyGuarantee`).

* `attempt` turns an exception into a value; `tryCatch` is built from it.
* `Performs`: the kind of operations a program is made of, with one rule for
  each way programs are built.
-/
namespace ModAspNet.Core

/-- `Ans o` is the type of the answer of `o`, `ε` the type of exceptions. -/
inductive Prog (Op : Type) (Ans : Op → Type) (ε α : Type) : Type where
  | ret (a : α)
  | throw (e : ε)
  | call (o : Op) (k : Except ε (Ans o) → Prog Op Ans ε α)

/-- What operation `o` of thread `t` does to a shared state: its answer and
the new state. `χ` resolves what the state does not determine, and `none` says
that the operation cannot happen now. -/
abbrev Exec (Op : Type) (Ans : Op → Type) (ε χ σ : Type) :=
  Nat → (o : Op) → χ → σ → Option (Except ε (Ans o) × σ)

namespace Prog
variable {Op : Type} {Ans : Op → Type} {ε α β χ σ : Type}

def bind : Prog Op Ans ε α → (α → Prog Op Ans ε β) → Prog Op Ans ε β
  | .ret a, f => f a
  | .throw e, _ => .throw e
  | .call o k, f => .call o fun r => bind (k r) f

instance : Monad (Prog Op Ans ε) where
  pure := .ret
  bind := bind

/-- One operation. -/
def perform (o : Op) : Prog Op Ans ε (Ans o) :=
  .call o fun
    | .ok a => .ret a
    | .error e => .throw e

/-- A program with nothing left to do. -/
def ended : Except ε α → Prog Op Ans ε α
  | .ok a => .ret a
  | .error e => .throw e

/-- The result of a program, value or exception, as a value. -/
def attempt : Prog Op Ans ε α → Prog Op Ans ε (Except ε α)
  | .ret a => .ret (.ok a)
  | .throw e => .ret (.error e)
  | .call o k => .call o fun r => attempt (k r)

def tryCatch (p : Prog Op Ans ε α) (handler : ε → Prog Op Ans ε α) : Prog Op Ans ε α :=
  attempt p >>= fun
    | .ok a => pure a
    | .error e => handler e

/-- The program run alone by thread `t`, one choice for each operation; `none`
when the choices do not last or an operation cannot happen. -/
def solo (exec : Exec Op Ans ε χ σ) (t : Nat) : Prog Op Ans ε α → List χ → σ → Option (Except ε α × σ)
  | .ret a, _, s => some (.ok a, s)
  | .throw e, _, s => some (.error e, s)
  | .call _ _, [], _ => none
  | .call o k, x :: xs, s =>
    match exec t o x s with
    | none => none
    | some (r, s') => solo exec t (k r) xs s'

/-- All operations the program can perform are of a kind. -/
def Performs (ok : Op → Prop) : Prog Op Ans ε α → Prop
  | .ret _ => True
  | .throw _ => True
  | .call o k => ok o ∧ ∀ r, Performs ok (k r)

section
variable {ok : Op → Prop}

theorem Performs.imp {ok' : Op → Prop} (himp : ∀ o, ok o → ok' o) :
    ∀ {p : Prog Op Ans ε α}, p.Performs ok → p.Performs ok'
  | .ret _, _ => trivial
  | .throw _, _ => trivial
  | .call o _, h => ⟨himp o h.1, fun r => (h.2 r).imp himp⟩

theorem Performs.and {ok' : Op → Prop} : ∀ {p : Prog Op Ans ε α}, p.Performs ok → p.Performs ok' →
    p.Performs fun o => ok o ∧ ok' o
  | .ret _, _, _ => trivial
  | .throw _, _, _ => trivial
  | .call _ _, h, h' => ⟨⟨h.1, h'.1⟩, fun r => (h.2 r).and (h'.2 r)⟩

theorem performs_any : ∀ {p : Prog Op Ans ε α}, p.Performs fun _ => True
  | .ret _ => trivial
  | .throw _ => trivial
  | .call _ _ => ⟨trivial, fun _ => performs_any⟩

theorem Performs.pure (a : α) : (pure a : Prog Op Ans ε α).Performs ok := trivial

theorem Performs.bind {f : α → Prog Op Ans ε β} (hf : ∀ a, (f a).Performs ok) :
    ∀ {p : Prog Op Ans ε α}, p.Performs ok → (p >>= f).Performs ok
  | .ret a, _ => hf a
  | .throw _, _ => trivial
  | .call _ _, h => ⟨h.1, fun r => Performs.bind hf (h.2 r)⟩

theorem Performs.attempt : ∀ {p : Prog Op Ans ε α}, p.Performs ok → p.attempt.Performs ok
  | .ret _, _ => trivial
  | .throw _, _ => trivial
  | .call _ _, h => ⟨h.1, fun r => (h.2 r).attempt⟩

theorem Performs.tryCatch {p : Prog Op Ans ε α} {handler : ε → Prog Op Ans ε α} (h : p.Performs ok)
    (hh : ∀ e, (handler e).Performs ok) : (p.tryCatch handler).Performs ok :=
  Performs.bind (fun
    | .ok _ => trivial
    | .error e => hh e) h.attempt

theorem Performs.perform {o : Op} (h : ok o) : (Prog.perform o : Prog Op Ans ε (Ans o)).Performs ok :=
  ⟨h, fun
    | .ok _ => trivial
    | .error _ => trivial⟩

end

end Prog

end ModAspNet.Core
