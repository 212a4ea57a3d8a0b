import ModAspNet.Core.Record
import Mathlib.Logic.Hydra
import Mathlib.Order.WellFounded

/-!
# Calls that come to their ends

Programs are trees, so a thread that is let act ends its call; what can keep it
from acting is an operation that is not possible yet. Where the only such
operation is to enter a lock that another thread holds, and no thread holds it
outside its calls, there is always a thread that can act.

* `Lock.goes_or_waits`: a thread in a call can go on, or waits for one that can.
* `continues_acc`: without new calls every run ends.
-/
namespace ModAspNet.Core

variable {Op : Type} {Ans : Op → Type} {ε χ σ C α : Type}

/-! ## Going on -/

section
variable (exec : Exec Op Ans ε χ σ) (T : Tasks Op Ans ε σ C α)

/-- Thread `t` can perform its next operation, with a choice of a kind, or is at
the end of its call. -/
def GoesOn (ok : χ → Prop) (c : Config Op Ans ε σ α) (t : Nat) : Prop :=
  (∃ x, ok x ∧ (act exec T c (.step t x)).isSome = true) ∨ (act exec T c (.finish t)).isSome = true

variable {exec T} {ok : χ → Prop} {c : Config Op Ans ε σ α} {t : Nat}

theorem goesOn_ended {r : Except ε α} (h : c.pool t = some (.ended r)) : GoesOn exec T ok c t := by
  refine .inr ?_
  cases r <;> simp only [Prog.ended] at h <;> simp [act, h]

theorem goesOn_call {o : Op} {k : Except ε (Ans o) → Prog Op Ans ε α} {x : χ} (h : c.pool t = some (.call o k))
    (hx : ok x) (he : (exec t o x c.shared).isSome = true) : GoesOn exec T ok c t := by
  refine .inl ⟨x, hx, ?_⟩
  simpa [act, h] using he

/-- A program is at its end or at an operation. -/
theorem Prog.ended_or_call (p : Prog Op Ans ε α) : (∃ r, p = .ended r) ∨ ∃ o k, p = .call o k := by
  cases p with
  | ret a => exact .inl ⟨.ok a, rfl⟩
  | throw e => exact .inl ⟨.error e, rfl⟩
  | call o k => exact .inr ⟨o, k, rfl⟩

end

namespace Lock
variable {exec : Exec Op Ans ε χ σ} (L : Lock exec)

/-- Only entering the lock can be impossible, while another thread holds it, and
one thread at a time does. -/
structure Grants (ok : χ → Prop) : Prop where
  rest : ∀ t o s, L.enters o = false → ∃ x, ok x ∧ (exec t o x s).isSome = true
  enter : ∀ t o s, L.enters o = true → (∀ u, u ≠ t → L.held u s = 0) → ∃ x, ok x ∧ (exec t o x s).isSome = true
  one : ∀ t u s, 0 < L.held t s → 0 < L.held u s → t = u

/-- Thread `t` is about to enter the lock, which `u` holds. -/
def WaitsFor (c : Config Op Ans ε σ α) (t u : Nat) : Prop :=
  u ≠ t ∧ 0 < L.held u c.shared ∧ ∃ o k, c.pool t = some (.call o k) ∧ L.enters o = true

variable {L} {T : Tasks Op Ans ε σ C α} {ok : χ → Prop} {c : Config Op Ans ε σ α}

/-- A thread in a call is not kept by a lock that no other thread holds. -/
theorem Grants.goesOn (hL : L.Grants ok) {t : Nat} {p : Prog Op Ans ε α} (hp : c.pool t = some p)
    (hfree : ∀ u, u ≠ t → L.held u c.shared = 0) : GoesOn exec T ok c t := by
  rcases p.ended_or_call with ⟨r, rfl⟩ | ⟨o, k, rfl⟩
  · exact goesOn_ended hp
  · have hpossible : ∃ x, ok x ∧ (exec t o x c.shared).isSome = true := by
      cases ho : L.enters o with
      | true => exact hL.enter t o c.shared ho hfree
      | false => exact hL.rest t o c.shared ho
    obtain ⟨x, hx, he⟩ := hpossible
    exact goesOn_call hp hx he

/-- Where no thread holds the lock outside its calls, a thread in a call can go
on or waits for one that can: nobody waits for a thread that waits. -/
theorem goes_or_waits (hL : L.Grants ok) (hidle : ∀ t, c.pool t = none → L.held t c.shared = 0) {t : Nat}
    {p : Prog Op Ans ε α} (hp : c.pool t = some p) :
    GoesOn exec T ok c t ∨ ∃ u, L.WaitsFor c t u ∧ GoesOn exec T ok c u := by
  by_cases hfree : ∀ u, u ≠ t → L.held u c.shared = 0
  · exact .inl (hL.goesOn hp hfree)
  simp only [not_forall, exists_prop] at hfree
  obtain ⟨u, hne, hheld⟩ := hfree
  have hpos : 0 < L.held u c.shared := by omega
  -- the holder is in a call, and nobody else holds the lock
  have hu : GoesOn exec T ok c u := by
    cases hpool : c.pool u with
    | none => exact absurd (hidle u hpool) hheld
    | some q =>
      refine hL.goesOn hpool fun w hw => ?_
      by_contra hnz
      exact hw (hL.one w u c.shared (Nat.pos_of_ne_zero hnz) hpos)
  rcases p.ended_or_call with ⟨r, rfl⟩ | ⟨o, k, rfl⟩
  · exact .inl (goesOn_ended hp)
  · cases ho : L.enters o with
    | true => exact .inr ⟨u, ⟨hne, hpos, o, k, hp, ho⟩, hu⟩
    | false =>
      obtain ⟨x, hx, he⟩ := hL.rest t o c.shared ho
      exact .inl (goesOn_call hp hx he)

end Lock

/-! ## Runs without new calls -/

/-- What is left of a program after an operation. -/
def Prog.Rest (q p : Prog Op Ans ε α) : Prop := ∃ o k r, p = .call o k ∧ q = k r

theorem Prog.rest_wf : WellFounded (Prog.Rest : Prog Op Ans ε α → Prog Op Ans ε α → Prop) := by
  refine ⟨fun p => ?_⟩
  induction p with
  | ret a => exact ⟨_, fun q ⟨_, _, _, h, _⟩ => by cases h⟩
  | throw e => exact ⟨_, fun q ⟨_, _, _, h, _⟩ => by cases h⟩
  | call o k ih =>
    refine ⟨_, fun q ⟨o', k', r, h, hq⟩ => ?_⟩
    cases h
    exact hq ▸ ih r

section
variable (exec : Exec Op Ans ε χ σ) (T : Tasks Op Ans ε σ C α)

def Action.isStart : Action C χ → Bool
  | .start _ _ => true
  | _ => false

/-- One action that is not the start of a call. -/
def Continues (c' c : Config Op Ans ε σ α) : Prop :=
  ∃ a : Action C χ, a.isStart = false ∧ act exec T c a = some c'

/-- The programs of those threads that are in a call. -/
def Config.work (c : Config Op Ans ε σ α) (ts : List Nat) : Multiset (Prog Op Ans ε α) := ↑(ts.filterMap c.pool)

variable {exec T} {ts : List Nat}

theorem filterMap_setAt {f : Nat → Option (Prog Op Ans ε α)} {t : Nat} {v : Option (Prog Op Ans ε α)}
    (h : t ∉ ts) : ts.filterMap (setAt f t v) = ts.filterMap f :=
  List.filterMap_congr fun _ hu => setAt_of_ne f v fun he => h (he ▸ hu)

/-- A thread that acts puts what is left of its program in the place of it. -/
theorem work_setAt (hn : ts.Nodup) {c : Config Op Ans ε σ α} {t : Nat} (ht : t ∈ ts) {p : Prog Op Ans ε α}
    (hp : c.pool t = some p) (v : Option (Prog Op Ans ε α)) (s : σ) :
    (Config.mk s (setAt c.pool t v)).work ts + {p} = c.work ts + ↑v.toList := by
  obtain ⟨l₁, l₂, rfl⟩ := List.append_of_mem ht
  rw [List.nodup_append] at hn
  have h₁ : t ∉ l₁ := fun h => hn.2.2 t h t (List.mem_cons_self) rfl
  have h₂ : t ∉ l₂ := (List.nodup_cons.mp hn.2.1).1
  have hlist : ∀ f : Nat → Option (Prog Op Ans ε α), (l₁ ++ t :: l₂).filterMap f =
      l₁.filterMap f ++ ((f t).toList ++ l₂.filterMap f) := by
    intro f
    rw [List.filterMap_append, List.filterMap_cons]
    cases f t <;> rfl
  rw [Config.work, Config.work, hlist, hlist]
  dsimp only
  rw [setAt_self, hp, filterMap_setAt h₁, filterMap_setAt h₂,
    ← Multiset.coe_add, ← Multiset.coe_add, ← Multiset.coe_add, ← Multiset.coe_add, Option.toList_some,
    Multiset.coe_singleton]
  ac_rfl

/-- Whichever threads act, and whatever their operations answer: without new
calls the work of finitely many threads is done after finitely many actions. -/
theorem continues_acc (hn : ts.Nodup) : ∀ {c : Config Op Ans ε σ α}, (∀ t, c.pool t ≠ none → t ∈ ts) →
    Acc (Continues exec T) c := by
  suffices h : ∀ m, Acc (Relation.CutExpand Prog.Rest) m → ∀ c : Config Op Ans ε σ α, c.work ts = m →
      (∀ t, c.pool t ≠ none → t ∈ ts) → Acc (Continues exec T) c from
    fun {_} hall => h _ (Prog.rest_wf.cutExpand.apply _) _ rfl hall
  intro m hm
  induction hm with
  | intro m _ ih =>
    rintro c rfl hall
    refine ⟨_, fun c' ⟨a, hstart, ha⟩ => ?_⟩
    have hstays : ∀ t, c'.pool t ≠ none → t ∈ ts := by
      intro t ht
      by_cases he : t = a.thread
      · subst he
        cases act_acts ha with
        | start => cases hstart
        | step hpool => exact hall _ (by simp [Action.thread, hpool])
        | finish hpool => exact hall _ (by simp [Action.thread, hpool])
      · exact hall t (act_pool ha he ▸ ht)
    refine ih (c'.work ts) ?_ c' rfl hstays
    cases act_acts ha with
    | start => cases hstart
    | @step t x o k r s hpool hx =>
      refine ⟨{k r}, .call o k, fun q hq => ?_, work_setAt hn (hall t (by simp [hpool])) hpool (some (k r)) s⟩
      rw [Multiset.mem_singleton.mp hq]
      exact ⟨o, k, r, rfl, rfl⟩
    | @finish t r hpool =>
      exact ⟨0, _, by simp, work_setAt hn (hall t (by simp [hpool])) hpool none c.shared⟩

/-- The threads that a run has brought into calls. -/
theorem pool_of_run : ∀ {as : List (Action C χ)} {c c' : Config Op Ans ε σ α}, run exec T c as = some c' →
    ∀ t, c'.pool t ≠ none → c.pool t ≠ none ∨ t ∈ as.map Action.thread
  | [], _, _, h, t, ht => by cases h; exact .inl ht
  | a :: as, c, c', h, t, ht => by
    obtain ⟨c₁, ha, h⟩ := act_of_run_cons h
    rcases pool_of_run h t ht with h₁ | h₁
    · by_cases he : t = a.thread
      · exact .inr (by simp [he])
      · exact .inl (act_pool ha he ▸ h₁)
    · exact .inr (by simp [h₁])

end

end ModAspNet.Core
