import ModAspNet.L4Factory.Outline

/-!
# `CreateHost`, one call at a time

The module creates its hosts when it is configured, one call after the other
and before any request: `CreateHost` takes no lock. Such a call is a solo run.

* `createHost_outline`: the points of `CreateHost`, with those of the
  `ConnectHost` in it.
* `alone`: the specification of a run without other threads, with any invariant.
* `Mounted`: the states in which calls of `CreateHost` leave the factory.
* `createHost_lists`: however a call ends, each list is one longer, and what it
  returns is the length they had or -1.
-/
namespace ModAspNet.L4.HostFactory

open ModAspNet.L1.Managed
open ModAspNet.Core

/-! ## Points -/

/-- The points of `CreateHost`; `n` is the new key. -/
inductive MountPoint where
  | start
  | counted (n : Int)
  | withSvr (n : Int)
  | withURI (n : Int)
  | withDir (n : Int)
  | connecting (n : Int)
  | connected (n : Int)
  | unconnected (n : Int)
  | raised

namespace MountPoint

def afterCount : Except Exn Int → MountPoint
  | .ok n => .counted n
  | .error _ => .raised

def afterAdd (p : MountPoint) : Except Exn Unit → MountPoint
  | .ok _ => p
  | .error _ => .raised

def afterConnect (n : Int) : Except Exn Bool → MountPoint
  | .ok true => .connected n
  | .ok false => .unconnected n
  | .error _ => .raised

inductive Edge (v p : WString) (svr : Nat) : MountPoint → (o : Op) → (Except Exn o.Ans → MountPoint) → Prop
  | count : Edge v p svr .start .hostObjCount afterCount
  | svr (n) : Edge v p svr (.counted n) (.hostSvrAdd svr) (afterAdd (.withSvr n))
  | uri (n) : Edge v p svr (.withSvr n) (.hostURIAdd v) (afterAdd (.withURI n))
  | dir (n) : Edge v p svr (.withURI n) (.hostDirAdd (replaceSlashes p)) (afterAdd (.withDir n))
  | obj (n) : Edge v p svr (.withDir n) .hostObjAdd (afterAdd (.connecting n))

inductive Silent : MountPoint → MountPoint → Prop
  | unconnected_raised (n) : Silent (.unconnected n) .raised

end MountPoint

def mountFlow (v p : WString) (svr : Nat) : Flow Op Op.Ans Exn MountPoint :=
  ⟨MountPoint.Edge v p svr, MountPoint.Silent⟩

/-- What `CreateHost` returns tells how it ended. -/
def MountEnds (knows : MountPoint → Factory → Prop) : Except Exn Int → Factory → Prop
  | .ok k, s => knows (.connected k) s ∨ (k = -1 ∧ ∃ n, knows (.unconnected n) s)
  | .error _, s => knows .raised s

section
variable {A : Assumption Op Call Choice Factory} {S : Spec exec A} {t : Nat} {v p : WString} {svr : Nat}

/-- With the text of a failed mount as it may be. -/
theorem createHost_outline_log (O : S.Outline t (mountFlow v p svr))
    (hlog : ∀ n, S.Triple t (O.knows (.unconnected n))
      (logMapping "Mount failure creating host " n APLOG_ERR (.record svr)) fun _ => O.knows (.unconnected n))
    (hc : ∀ n, S.Triple t (O.knows (.connecting n)) (connectHost n) fun r => O.knows (.afterConnect n r)) :
    S.Triple t (O.knows .start) (createHost v p svr) (MountEnds O.knows) := by
  refine O.bind .count (fun n => ?_) fun _ _ _ hs => hs
  refine O.bind (.svr n) (fun _ => ?_) fun _ _ _ hs => hs
  refine O.bind (.uri n) (fun _ => ?_) fun _ _ _ hs => hs
  refine O.bind (.dir n) (fun _ => ?_) fun _ _ _ hs => hs
  refine O.bind (.obj n) (fun _ => ?_) fun _ _ _ hs => hs
  refine .bind (R := fun b => O.knows (.afterConnect n (.ok b))) ((hc n).weaken ?_) fun connected => ?_
  · intro r s _ hs
    cases r <;> exact hs
  · cases connected with
    | true => exact .pure (O.stable _) fun _ _ hs => .inl hs
    | false =>
      refine .seq (hlog n) (fun _ => ?_) fun _ => O.silent (.unconnected_raised n)
      exact .pure (O.stable _) fun _ _ hs => .inr ⟨rfl, n, hs⟩

theorem createHost_outline (O : S.Outline t (mountFlow v p svr)) (hB : LogBlind S)
    (hc : ∀ n, S.Triple t (O.knows (.connecting n)) (connectHost n) fun r => O.knows (.afterConnect n r)) :
    S.Triple t (O.knows .start) (createHost v p svr) (MountEnds O.knows) :=
  createHost_outline_log O (fun n => hB.triple (O.stable (.unconnected n)) (logMapping_text _ _ _ _)) hc

end

/-! ## Alone -/

/-- Nothing but the error log differs. -/
def SameButLog (s s' : Factory) : Prop := ∃ l, s' = { s with error_log := l }

theorem SameButLog.refl (s : Factory) : SameButLog s s := ⟨s.error_log, rfl⟩

theorem SameButLog.trans {s s' s'' : Factory} (h : SameButLog s s') (h' : SameButLog s' s'') : SameButLog s s'' := by
  obtain ⟨l, rfl⟩ := h
  obtain ⟨l', rfl⟩ := h'
  exact ⟨l', rfl⟩

/-- Thread 0 runs and no other does; `I` is kept by all it does. -/
def alone (I : Factory → Prop) : Spec exec (.anything : Assumption Op Call Choice Factory) where
  inv := I
  rely := fun t s s' => t = 0 → SameButLog s s'
  good := fun _ _ _ _ => True
  refl := fun _ s _ => .refl s
  trans := fun _ _ _ _ h h' ht => (h ht).trans (h' ht)

/-- What does not look at the error log. -/
def Blind (P : Factory → Prop) : Prop := ∀ s l, P s → P { s with error_log := l }

theorem logBlind_alone {I : Factory → Prop} (hI : Blind I) : LogBlind (alone I) where
  inv := hI
  rely _ _ l _ := ⟨l, rfl⟩
  good _ _ _ _ _ := trivial

theorem Blind.stable {I P : Factory → Prop} (hP : Blind P) : (alone I).Stable 0 P := by
  intro s s' _ _ hp hr
  obtain ⟨l, rfl⟩ := hr rfl
  exact hP s l hp

theorem alone_step {I : Factory → Prop} {o : Op} {s s' : Factory} (hi : I s') : (alone I).StepOK 0 o s s' :=
  ⟨hi, fun _ ht he => absurd he ht, trivial⟩

/-- One call of `CreateHost`, from its start to its end. -/
def CreateHostRuns (v p : WString) (svr : Nat) (s : Factory) (r : Except Exn Int) (s' : Factory) : Prop :=
  ∃ choices, (createHost v p svr).solo exec 0 choices (enter 0 (.createHost v p svr) s) = some (r, s')

/-- The calls of `CreateHost`, one after the other, from a new factory. -/
inductive Mounted : Factory → Prop
  | new : Mounted newFactory
  | create {s s' : Factory} {v p : WString} {svr : Nat} {r : Except Exn Int} :
      Mounted s → CreateHostRuns v p svr s r s' → Mounted s'

theorem CreateHostRuns.of_triple {v p : WString} {svr : Nat} {s s' : Factory} {r : Except Exn Int} {I P : Factory → Prop}
    {Q : Except Exn Int → Factory → Prop} (ht : (alone I).Triple 0 P (createHost v p svr) Q)
    (hrun : CreateHostRuns v p svr s r s') (hi : I (enter 0 (.createHost v p svr) s))
    (hp : P (enter 0 (.createHost v p svr) s)) : I s' ∧ Q r s' := by
  obtain ⟨choices, hrun⟩ := hrun
  exact Spec.solo_inv hi (ht _ hi hp) (Spec.soloMay_anything _ _ _) hrun

/-! ## The lists -/

/-- The paths, and how long the other two lists are. -/
structure Lists (us ds : List WString) (objs svrs : Nat) (s : Factory) : Prop where
  uri : s.hostURI = some us
  dir : s.hostDir = some ds
  obj : ∃ l, s.hostObj = some l ∧ l.length = objs
  svr : ∃ l, s.hostSvr = some l ∧ l.length = svrs

def Op.keepsLists : Op → Bool
  | .hostSvrAdd _ => false
  | .hostURIAdd _ => false
  | .hostDirAdd _ => false
  | .hostObjAdd => false
  | .listDrop _ => false
  | _ => true

section
variable {us ds : List WString} {objs svrs n t : Nat} {s s' : Factory} {x : Choice} {v p : WString} {svr : Nat}

theorem exec_lists {o : Op} {r : Except Exn o.Ans} (ho : o.keepsLists = true) (hl : Lists us ds objs svrs s)
    (h : exec t o x s = some (r, s')) : Lists us ds objs svrs s' := by
  cases exec_did h with
  | @stored k v v₀ hv =>
    obtain ⟨l, hobj, hlen⟩ := hl.obj
    exact ⟨hl.uri, hl.dir, ⟨l.set k.toNat v, by rw [Factory.store, hobj]; rfl, by rw [List.length_set, hlen]⟩, hl.svr⟩
  | addedSvr l h => cases ho
  | addedURI l h => cases ho
  | addedDir l h => cases ho
  | addedObj l h => cases ho
  | listDropped l => cases ho
  | _ => exact ⟨hl.uri, hl.dir, hl.obj, hl.svr⟩

theorem connectEdge_keepsLists {k : Int} {q : ConnectPoint} {o : Op} {next : Except Exn o.Ans → ConnectPoint}
    (h : ConnectPoint.Edge k q o next) : o.keepsLists = true := by
  cases h <;> rfl

/-- The lists at the points of `CreateHost`, where they began with `n` entries. -/
def mountKnows (us ds : List WString) (n : Nat) (v p : WString) : MountPoint → Factory → Prop
  | .start => Lists us ds n n
  | .counted k => fun s => k = n ∧ Lists us ds n n s
  | .withSvr k => fun s => k = n ∧ Lists us ds n (n + 1) s
  | .withURI k => fun s => k = n ∧ Lists (us ++ [v]) ds n (n + 1) s
  | .withDir k => fun s => k = n ∧ Lists (us ++ [v]) (ds ++ [replaceSlashes p]) n (n + 1) s
  | .connecting k => fun s => k = n ∧ Lists (us ++ [v]) (ds ++ [replaceSlashes p]) (n + 1) (n + 1) s
  | .connected k => fun s => k = n ∧ Lists (us ++ [v]) (ds ++ [replaceSlashes p]) (n + 1) (n + 1) s
  | .unconnected k => fun s => k = n ∧ Lists (us ++ [v]) (ds ++ [replaceSlashes p]) (n + 1) (n + 1) s
  | .raised => Lists (us ++ [v]) (ds ++ [replaceSlashes p]) (n + 1) (n + 1)

theorem blind_lists : Blind (Lists us ds objs svrs) := fun _ _ h => ⟨h.uri, h.dir, h.obj, h.svr⟩

theorem blind_mountKnows (q : MountPoint) : Blind (mountKnows us ds n v p q) := by
  intro s l h
  cases q with
  | start => exact blind_lists s l h
  | raised => exact blind_lists s l h
  | _ => exact ⟨h.1, blind_lists s l h.2⟩

/-- The additions succeed. -/
theorem mount_step {q : MountPoint} {o : Op} {next : Except Exn o.Ans → MountPoint} {r : Except Exn o.Ans}
    (hk : mountKnows us ds n v p q s) (hedge : MountPoint.Edge v p svr q o next)
    (he : exec t o x s = some (r, s')) : (∃ a, r = .ok a) ∧ mountKnows us ds n v p (next r) s' := by
  cases hedge with
  | count =>
    cases x <;> simp only [exec, reduceCtorEq] at he
    obtain ⟨l, hobj, hlen⟩ := hk.obj
    rw [hobj] at he
    cases he
    exact ⟨⟨_, rfl⟩, congrArg Int.ofNat hlen, hk⟩
  | svr k =>
    cases x <;> simp only [exec, reduceCtorEq] at he
    obtain ⟨rfl, hk⟩ := hk
    obtain ⟨l, hsvr, hlen⟩ := hk.svr
    rw [hsvr] at he
    cases he
    exact ⟨⟨_, rfl⟩, rfl, hk.uri, hk.dir, hk.obj, _, rfl, by simp [hlen]⟩
  | uri k =>
    cases x <;> simp only [exec, reduceCtorEq] at he
    obtain ⟨rfl, hk⟩ := hk
    rw [hk.uri] at he
    cases he
    exact ⟨⟨_, rfl⟩, rfl, rfl, hk.dir, hk.obj, hk.svr⟩
  | dir k =>
    cases x <;> simp only [exec, reduceCtorEq] at he
    obtain ⟨rfl, hk⟩ := hk
    rw [hk.dir] at he
    cases he
    exact ⟨⟨_, rfl⟩, rfl, hk.uri, rfl, hk.obj, hk.svr⟩
  | obj k =>
    cases x <;> simp only [exec, reduceCtorEq] at he
    obtain ⟨rfl, hk⟩ := hk
    obtain ⟨l, hobj, hlen⟩ := hk.obj
    rw [hobj] at he
    cases he
    exact ⟨⟨_, rfl⟩, rfl, hk.uri, hk.dir, ⟨_, rfl, by simp [hlen]⟩, hk.svr⟩

/-- `ConnectHost` leaves the lists as long as they are, and the paths. -/
theorem connectHost_lists (k : Int) : (alone fun _ => True).Triple 0 (Lists us ds objs svrs) (connectHost k)
    fun _ => Lists us ds objs svrs :=
  connectHost_outline ⟨fun _ => Lists us ds objs svrs, fun _ => blind_lists.stable,
    fun hedge _ _ _ _ _ hl _ he => ⟨alone_step trivial, exec_lists (connectEdge_keepsLists hedge) hl he⟩,
    fun _ _ _ hl => hl⟩ (logBlind_alone fun _ _ h => h)

def mountOutline (us ds : List WString) (n : Nat) (v p : WString) (svr : Nat) :
    (alone fun _ => True).Outline 0 (mountFlow v p svr) where
  knows := mountKnows us ds n v p
  stable q := (blind_mountKnows q).stable
  step hedge _ _ _ _ _ hk _ he := ⟨alone_step trivial, (mount_step hk hedge he).2⟩
  silent h _ _ hk := by cases h; exact hk.2

theorem createHost_lists {r : Except Exn Int} (hrun : CreateHostRuns v p svr s r s') (hl : Lists us ds n n s) :
    Lists (us ++ [v]) (ds ++ [replaceSlashes p]) (n + 1) (n + 1) s' ∧ ∀ k, r = .ok k → k = n ∨ k = -1 := by
  have hblind : LogBlind (alone fun _ => True) := logBlind_alone fun _ _ h => h
  have htriple := createHost_outline (mountOutline us ds n v p svr) hblind fun k => by
    refine .of_fact (fun s _ hk => hk.1) fun hkn => ?_
    refine ((connectHost_lists k).strengthen fun s _ hk => hk.2).weaken fun r s _ hk => ?_
    rcases r with e | _ | _
    · exact hk
    · exact ⟨hkn, hk⟩
    · exact ⟨hkn, hk⟩
  obtain ⟨-, hends⟩ := hrun.of_triple htriple trivial ⟨hl.uri, hl.dir, hl.obj, hl.svr⟩
  cases r with
  | error e => exact ⟨hends, by rintro k ⟨⟩⟩
  | ok k =>
    rcases hends with ⟨hk, hl'⟩ | ⟨hk, m, -, hl'⟩
    · exact ⟨hl', by rintro _ ⟨⟩; exact .inl hk⟩
    · exact ⟨hl', by rintro _ ⟨⟩; exact .inr hk⟩

end

end ModAspNet.L4.HostFactory
